import Mathmodel.Backend.Approvals

/-!
# Standing of approvals

Six operations change the approvals of a run or its status, and several approvals
may be pending at once. The status of the run still says exactly whether one is
pending, pending approvals belong to the last attempt, and a record that was once
written keeps everything but its status, which is decided once.
-/

namespace Mathmodel

/-- The status of the run agrees with its pending approvals. -/
structure Run.Standing (r : Run) : Prop where
  waiting : r.status = .waitingApproval → r.hasPending = true
  last : ∀ a ∈ r.approvals, a.status = .pending →
    ∃ b, r.lastAttempt = some b ∧ b.attempt = a.attempt

namespace Run.Standing

variable {m : Moment} {r r' : Run} {change : Change} {b : Attempt}

theorem bump (h : r.Standing) : (Db.bump m r).Standing := ⟨h.waiting, h.last⟩

theorem of_none (status : r.status ≠ .waitingApproval) (none : r.hasPending = false) :
    r.Standing where
  waiting := fun waiting => absurd waiting status
  last := by
    intro a member pending
    have : r.hasPending = true := List.any_eq_true.mpr ⟨a, member, by simp [pending]⟩
    rw [none] at this
    cases this

/-- The last attempt is rewritten under its number. -/
theorem setLast (h : r.Standing) {a : Attempt} (last : r.lastAttempt = some a)
    (number : b.attempt = a.attempt) : (r.setLast b).Standing where
  waiting := h.waiting
  last := by
    intro c member pending
    obtain ⟨d, found, same⟩ := h.last c member pending
    rw [last, Option.some.injEq] at found
    subst found
    exact ⟨b, Run.setLast_lastAttempt _ _, number.trans same⟩

end Run.Standing

/-- Every save keeps the standing, if a new request names the last attempt. -/
theorem Change.Saves.standing {m : Moment} {r r' : Run} {change : Change}
    (h : change.Saves m r r') (sound : r.Sound) (standing : r.Standing)
    (ok : change.Admissible r)
    (number : ∀ approvalId k kind requestId generation details,
      change = .requestApproval approvalId k kind requestId generation details →
      ∃ b, r.lastAttempt = some b ∧ b.attempt = k) : r'.Standing := by
  -- a run that does not wait has nothing pending
  have none_of : r.status ≠ .waitingApproval → r.hasPending = false := by
    intro status
    by_contra pending
    exact status (sound.waiting (by simpa using pending))
  cases h with
  | start status room free => exact .of_none (by rintro ⟨⟩) (none_of (by rw [status]; rintro ⟨⟩))
  | retry status room free =>
      refine .of_none (by rintro ⟨⟩) (none_of ?_)
      rcases status with status | status <;> rw [status] <;> rintro ⟨⟩
  | cancelIdle status =>
      refine .of_none (by rintro ⟨⟩) (none_of ?_)
      rcases status with status | status <;> rw [status] <;> rintro ⟨⟩
  | cancelActive status => exact .of_none (by rintro ⟨⟩) (Run.expire_hasPending _)
  | resolve named answered =>
      constructor
      · intro waiting
        dsimp only at waiting
        split at waiting
        · rename_i pending
          exact pending
        · cases waiting
      · intro a member pending
        dsimp only at member
        rw [answered] at member
        obtain old | ⟨b, -, -, rfl⟩ := mem_replaceFirst member
        · exact standing.last a old pending
        · dsimp only at pending
          split at pending <;> cases pending
  | review status last =>
      rename_i decision _ _
      refine .of_none (by cases decision <;> rintro ⟨⟩) ?_
      exact none_of (by rw [status]; rintro ⟨⟩)
  | reconcile status free bound => exact standing
  | startAttempt status => exact .of_none (by rintro ⟨⟩) (none_of (by rw [status]; rintro ⟨⟩))
  | bindThread last typed => exact standing.setLast last rfl
  | cancelBeforeTurn last =>
      have cancelling : r.status = .cancelling := ok
      exact .of_none (by rintro ⟨⟩) (none_of (by rw [cancelling]; rintro ⟨⟩))
  | failBeforeDispatch last => exact .of_none (by rintro ⟨⟩) (Run.expire_hasPending _)
  | bindTurn last unbound typed =>
      rename_i value a turnId
      have bound := standing.setLast (b := { a with turnId := turnId, status := .running }) last rfl
      refine ⟨?_, bound.last⟩
      intro waiting
      refine bound.waiting ?_
      dsimp only at waiting
      split at waiting
      · cases waiting
      · exact waiting
  | resolvedByRuntime found expired =>
      rename_i requestId approval approvals
      constructor
      · intro waiting
        dsimp only at waiting
        split at waiting
        · cases waiting
        · rename_i more
          rw [not_and_not_right] at more
          exact more waiting
      · intro a member pending
        dsimp only at member
        rw [expired] at member
        obtain old | ⟨b, -, -, rfl⟩ := mem_replaceFirst member
        · exact standing.last a old pending
        · cases pending
  | message last => exact standing.setLast last rfl
  | item => exact standing
  | requestApproval room =>
      obtain ⟨b, last, same⟩ := number _ _ _ _ _ _ rfl
      constructor
      · intro _
        simp [Run.hasPending]
      · intro a member pending
        rcases List.mem_append.mp member with old | new
        · exact standing.last a old pending
        · rw [List.mem_singleton] at new
          subst new
          exact ⟨b, last, same⟩
  | finish last typed =>
      rename_i outcome _ _ _
      exact .of_none (by cases outcome <;> rintro ⟨⟩) (Run.expire_hasPending _)
  | uncertain last =>
      refine .of_none (by rintro ⟨⟩) ?_
      exact Run.expire_hasPending { r with status := .recoveryRequired }
  | uncertainNew none => exact .of_none (by rintro ⟨⟩) (Run.expire_hasPending _)
  | reconciled => exact standing

/-- What the reasons for a write guarantee the change. -/
theorem Wrote.admissible {env : Env} {cause : Cause} {w : World} {id : String} {r : Run}
    {change : Change} {via : Via} (h : Wrote env cause w id r change via) :
    change.Admissible r := by
  cases h with
  | uncertain found status started => exact ⟨started, status.1⟩
  | stopped found resumes owns unsent cancelling => exact cancelling
  | asked heard status number => exact status
  | _ => trivial

theorem Wrote.number {env : Env} {cause : Cause} {w : World} {id : String} {r : Run}
    {change : Change} {via : Via} (h : Wrote env cause w id r change via) (approvalId : String)
    (k : Nat) (kind : Lookup ApprovalKind) (requestId : Json) (generation : String)
    (details : Json)
    (is : change = .requestApproval approvalId k kind requestId generation details) :
    ∃ b, r.lastAttempt = some b ∧ b.attempt = k := by
  cases h with
  | asked heard status number =>
      cases is
      exact number
  | _ => cases is

/-- Every stored run keeps its standing. -/
theorem Commit.standing {env : Env} {cause : Cause} {w : World} {origin : Origin}
    {before after : Db} (commit : Commit env cause w origin before after) (sound : before.Sound)
    (h : ∀ id r, before.runs.lookup id = some r → r.Standing) (id : String) (r' : Run)
    (found' : after.runs.lookup id = some r') : r'.Standing := by
  obtain found | ⟨m, projectId, task, -, rfl⟩ |
    ⟨r, s, change, via, -, found, why, saves, rfl⟩ |
    ⟨r, s, c, version, op, -, -, -, -, -, found, saves, rfl⟩ := commit.run sound found'
  · exact h id r' found
  · exact .of_none nofun rfl
  · exact (saves.standing (sound.runs id r found) (h id r found) why.admissible why.number).bump
  · exact (saves.standing (sound.runs id r found) (h id r found) trivial nofun).bump

theorem Run.Standing.reached {env : Env} {w : World} (run : Reaches (Step env) .init w) :
    ∀ id r, w.db.runs.lookup id = some r → r.Standing := by
  refine run.ledger (I := fun _ db => ∀ id r, db.runs.lookup id = some r → r.Standing) ?_ ?_ ?_
  · intro id r found
    simp [Db.empty] at found
  · intro cause w origin before after log _ sound commit h
    exact commit.standing sound h
  · exact fun _ _ _ _ h => h

/-! ## The list of records -/

/-- The list keeps its records in place, each decided at most once, and may be
longer. -/
def Approval.Grows (xs ys : List Approval) : Prop :=
  ∃ kept added, ys = kept ++ added ∧ List.Forall₂ Approval.Keeps xs kept

theorem forall₂_trans {α : Type} {R : α → α → Prop} (trans : ∀ a b c, R a b → R b c → R a c)
    {xs ys zs : List α} (h : List.Forall₂ R xs ys) (h' : List.Forall₂ R ys zs) :
    List.Forall₂ R xs zs := by
  induction h generalizing zs with
  | nil => exact h'
  | cons head _ ih =>
      cases h' with
      | cons head' tail' => exact .cons (trans _ _ _ head head') (ih tail')

namespace Approval.Grows

theorem refl (xs : List Approval) : Grows xs xs := ⟨xs, [], by simp, Approval.Keeps.same xs⟩

theorem trans {xs ys zs : List Approval} (h : Grows xs ys) (h' : Grows ys zs) : Grows xs zs := by
  obtain ⟨kept, added, rfl, forth⟩ := h
  obtain ⟨kept', added', rfl, forth'⟩ := h'
  have first := List.forall₂_take_append _ _ _ forth'.flip
  refine ⟨kept'.take kept.length, kept'.drop kept.length ++ added', ?_, ?_⟩
  · rw [← List.append_assoc, List.take_append_drop]
  · exact forall₂_trans (R := Approval.Keeps) (fun _ _ _ => .trans) forth first.flip

end Approval.Grows

/-- Every run is still there, and its approvals have only grown. -/
def Db.ApprovalsGrow (before after : Db) : Prop :=
  ∀ id r, before.runs.lookup id = some r →
    ∃ r', after.runs.lookup id = some r' ∧ Approval.Grows r.approvals r'.approvals

theorem Change.Saves.approvals_grow {m : Moment} {r r' : Run} {change : Change}
    (h : change.Saves m r r') : Approval.Grows r.approvals r'.approvals := by
  obtain kept | ⟨_, _, _, _, _, _, -, added⟩ := h.approvals
  · exact ⟨r'.approvals, [], by simp, kept⟩
  · exact ⟨r.approvals, _, added, Approval.Keeps.same _⟩

theorem Shape.approvalsGrow {origin : Origin} {before after : Db}
    (shape : Shape origin before after) (sound : before.Sound) : before.ApprovalsGrow after := by
  have written : ∀ {m id change r r' db}, before.Writes m id change r r' db →
      before.ApprovalsGrow db := by
    intro m id change r r' db writes other s found
    by_cases same : other = id
    · subst same
      rw [writes.found, Option.some.injEq] at found
      subst found
      exact ⟨_, writes.lookup_self sound, writes.saves.approvals_grow⟩
    · exact ⟨s, by rw [writes.lookup_ne sound same]; exact found, .refl _⟩
  cases shape with
  | same runs events unnamed =>
      intro id r found
      exact ⟨r, by rw [runs]; exact found, .refl _⟩
  | update from_ plain writes => exact written writes
  | created from_ request run fresh runs events =>
      intro id r found
      refine ⟨r, ?_, .refl _⟩
      rw [runs, AList.lookup_insert_ne]
      · exact found
      · rintro rfl
        rw [fresh] at found
        cases found
  | command from_ request current writes runs events =>
      intro id r found
      obtain ⟨r', found', grows⟩ := written writes id r found
      exact ⟨r', by rw [runs]; exact found', grows⟩

/-- The approvals of every run grow over every step. -/
theorem step_approvalsGrow {env : Env} {w w' : World} {a : Action} (sound : w.Sound env)
    (taken : Step env w a w') : w.db.ApprovalsGrow w'.db := by
  obtain ⟨cause, w₀, w₁, begins, course, rfl⟩ := step_course sound taken
  have same : w₀.db = w.db := by cases begins <;> rfl
  rw [← same]
  refine course.keeps (I := fun v => w₀.db.ApprovalsGrow v.db) (begins.sound sound) ?_ ?_
  · exact fun id r found => ⟨r, found, .refl _⟩
  · intro v v' sound' effect grown
    obtain ⟨entries, -, ledger⟩ := effect.ledger sound'
    refine ledger.keeps grown ?_
    intro origin before after sound'' grown commit id r found
    obtain ⟨r', found', grows⟩ := grown id r found
    obtain ⟨r'', found'', grows'⟩ := commit.shape.approvalsGrow sound'' id r' found'
    exact ⟨r'', found'', grows.trans grows'⟩

/-- A run waits for approval exactly while one is pending, pending approvals belong
to the last attempt, and over every step the list only grows, each record decided
at most once. -/
theorem approval_ledger {env : Env} {w : World} (run : Reaches (Step env) .init w) :
    (∀ id r, w.db.runs.lookup id = some r →
      (r.status = .waitingApproval ↔ ∃ a ∈ r.approvals, a.status = .pending) ∧
      ∀ a ∈ r.approvals, a.status = .pending →
        ∃ b, r.lastAttempt = some b ∧ b.attempt = a.attempt) ∧
    ∀ action w', Step env w action w' → w.db.ApprovalsGrow w'.db := by
  have sound := World.Sound.reached run
  refine ⟨?_, fun action w' taken => step_approvalsGrow sound taken⟩
  intro id r found
  have standing := Run.Standing.reached run id r found
  have pending : r.hasPending = true ↔ ∃ a ∈ r.approvals, a.status = .pending := by
    simp [Run.hasPending]
  refine ⟨?_, standing.last⟩
  rw [← pending]
  exact ⟨standing.waiting, (sound.db.runs id r found).waiting⟩

set_option maxRecDepth 100000 in
/-- A script whose runtime asks for an approval. -/
theorem approval_ledger_asked : ∃ w,
    Reaches (Step (Script.env Script.approvalFrames)) .init w ∧
    (∃ r, Script.run w = some r ∧ r.status = .waitingApproval) ∧
    (∀ id r, w.db.runs.lookup id = some r →
      (r.status = .waitingApproval ↔ ∃ a ∈ r.approvals, a.status = .pending) ∧
      ∀ a ∈ r.approvals, a.status = .pending →
        ∃ b, r.lastAttempt = some b ∧ b.attempt = a.attempt) ∧
    ∀ action w', Step (Script.env Script.approvalFrames) w action w' →
      w.db.ApprovalsGrow w'.db := by
  obtain ⟨w, run, waiting⟩ := Script.reaches Script.approvalFrames Script.asked
    (fun w => (Script.run w).any (·.status == .waitingApproval)) (by decide +kernel)
  obtain ⟨r, found, status⟩ := (Option.any_eq_true _ _).mp waiting
  exact ⟨w, run.ofNode, ⟨r, found, by simpa using status⟩, approval_ledger run.ofNode⟩

end Mathmodel
