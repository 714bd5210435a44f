import Mathmodel.Backend.Receipts
import Mathmodel.Backend.Standing
import Mathmodel.Backend.Transactions

/-!
# What the events tell

A client sees the events of a run and not its record. `Outline` is what it can compute
from them: the status, the number of approvals that wait for a decision, the number of
attempts, the thread of the last one, and the decision of the review. The events of a run
say as much about it as the stored record does, at any time.
-/

namespace Mathmodel

/-- What a client knows of a run whose events it follows. -/
@[ext] structure Outline where
  status : RunStatus
  pending : Nat
  attempts : Nat
  thread : Option String
  decision : Option ReviewDecision
  deriving DecidableEq

namespace Outline

def created : Outline := ⟨.ready, 0, 0, none, none⟩

/-- The member of a payload, if it is a text. -/
def textOf (payload : Json) (name : String) : Option String :=
  match payload.get name with
  | some (.str s) => some s
  | _ => none

/-- Infinite numbers that are stored as `null` are no texts. -/
@[simp] theorem textOf_stored (payload : Json) (name : String) :
    textOf payload.stored name = textOf payload name := by
  rw [textOf, textOf, Json.get_stored]
  rcases payload.get name with _ | _ | _ | _ | _ | _ | _ | _ <;> rfl

/-- What an event changes. -/
def next (o : Outline) (payload : Json) : EventType → Outline
  | .runCreated => created
  | .runQueued => { o with status := .queued, decision := none }
  | .attemptStarting => { o with
      status := .starting, attempts := o.attempts + 1, thread := none }
  | .runtimeBound => { o with thread := textOf payload "thread_id" }
  | .runtimeStarted => { o with
      status := if o.status = .starting then .running else o.status }
  | .runtimeMessage | .runtimeItem | .runReconciled => o
  | .approvalRequested => { o with status := .waitingApproval, pending := o.pending + 1 }
  | .approvalResolved => { o with
      status := if o.pending = 1 then .running else .waitingApproval
      pending := o.pending - 1 }
  | .runCancelling => { o with status := .cancelling, pending := 0 }
  | .runCancelled => { o with status := .cancelled, pending := 0 }
  | .runFailed => { o with status := .failed, pending := 0 }
  | .runRecoveryRequired => { o with status := .recoveryRequired, pending := 0 }
  | .runAwaitingReview => { o with status := .awaitingReview, pending := 0 }
  | .runReviewed =>
      if textOf payload "decision" = some "accept" then
        { o with status := .completed, decision := some .accept }
      else { o with status := .failed, decision := some .reject }

@[simp] theorem next_stored (o : Outline) (payload : Json) (type : EventType) :
    o.next payload.stored type = o.next payload type := by
  cases type <;> simp [next]

/-- Follow the events in their order. -/
def follow (events : List Event) : Outline :=
  events.foldl (fun o e => o.next e.payload e.type) created

end Outline

def Run.pendingCount (r : Run) : Nat := r.approvals.countP (·.status == .pending)

def Run.outline (r : Run) : Outline :=
  ⟨r.status, r.pendingCount, r.attempts.length, r.lastAttempt.bind (·.threadId),
    r.review.map (·.decision)⟩

section Counting

variable {α : Type} {p q : α → Bool} {f : α → α} {xs : List α} {a : α}

/-- Replacing the first match takes one away from the count. -/
theorem countP_replaceFirst (found : xs.find? p = some a) (counted : q a = true)
    (gone : ∀ b, q (f b) = false) :
    (replaceFirst p f xs).countP q + 1 = xs.countP q := by
  induction xs with
  | nil => cases found
  | cons b xs ih =>
      unfold replaceFirst
      cases first : p b with
      | true =>
          rw [List.find?_cons_of_pos first] at found
          cases found
          simp [counted, gone]
      | false =>
          rw [List.find?_cons_of_neg (by simp [first])] at found
          have rest := ih found
          simp only [Bool.false_eq_true, if_false, List.countP_cons]
          omega

theorem any_iff_countP : xs.any q = true ↔ xs.countP q ≠ 0 := by
  rw [List.any_eq_true, ← Nat.pos_iff_ne_zero, List.countP_pos_iff]

end Counting

namespace Run

variable {r : Run}

theorem hasPending_iff : r.hasPending = true ↔ r.pendingCount ≠ 0 := any_iff_countP

theorem Sound.settled (h : r.Sound) (status : r.status ≠ .waitingApproval) :
    r.pendingCount = 0 := by
  by_contra some
  exact status (h.waiting (hasPending_iff.mpr some))

@[simp] theorem expire_pendingCount (r : Run) : r.expire.pendingCount = 0 := by
  by_contra some
  have pending := hasPending_iff.mpr some
  rw [expire_hasPending] at pending
  cases pending

@[simp] theorem bump_outline (m : Moment) (r : Run) : (Db.bump m r).outline = r.outline := rfl

end Run

namespace Change

variable {m : Moment} {r : Run} {saved : Saved}

theorem nullableId_text {value : Option Json} {id : Option String}
    (typed : nullableId m value = .ok id) :
    Outline.textOf (.obj (member "thread_id" value)) "thread_id" = id := by
  unfold nullableId at typed
  split at typed
  · cases typed
    rfl
  · split at typed
    · cases typed
      rfl
    · cases typed
  · cases typed

/-- Answering a pending approval takes it off the count. -/
theorem outline_answered {approvals : List Approval} {p : Approval → Bool}
    {f : Approval → Approval} {a : Approval} (payload : Json)
    (found : r.approvals.find? p = some a) (pending : a.status = .pending)
    (gone : ∀ b, (f b).status ≠ .pending) (answered : approvals = replaceFirst p f r.approvals) :
    r.outline.next payload .approvalResolved =
      Run.outline { r with
        approvals := approvals
        status := if approvals.any (·.status == .pending) then .waitingApproval
          else .running } := by
  have count : approvals.countP (·.status == .pending) + 1 = r.pendingCount := by
    rw [answered]
    exact countP_replaceFirst found (by simpa using pending) (by simpa using gone)
  have last : r.pendingCount = 1 ↔ ¬ approvals.any (·.status == .pending) = true := by
    rw [any_iff_countP]
    omega
  have less : r.pendingCount - 1 = approvals.countP (·.status == .pending) := by omega
  refine Outline.ext ?_ less rfl rfl rfl
  change (if r.pendingCount = 1 then RunStatus.running else .waitingApproval) = _
  simp only [last, ite_not]
  rfl

/-- An attempt that keeps its thread may change otherwise. -/
theorem outline_setLast {a b : Attempt} (last : r.lastAttempt = some a)
    (thread : b.threadId = a.threadId) : (r.setLast b).outline = r.outline := by
  refine Outline.ext rfl rfl (Run.setLast_length last) ?_ rfl
  simp only [Run.outline, Run.setLast_lastAttempt, last, Option.bind_some, thread]

theorem op_outline {view : View} {op : RunOp} (applied : op.apply m view r = .ok saved)
    (sound : r.Sound) : r.outline.next saved.payload saved.type = saved.run.outline := by
  have queued : ∀ allowed, RunOp.queue view allowed r = .ok saved →
      r.outline.next saved.payload saved.type = saved.run.outline := by
    intro allowed applied
    unfold RunOp.queue at applied
    split at applied
    · cases applied
    · split at applied
      · cases applied
      · split at applied
        · cases applied
        · cases applied
          rfl
  cases op with
  | start => exact queued _ applied
  | retry => exact queued _ applied
  | cancel =>
      simp only [RunOp.apply] at applied
      split at applied
      case isTrue status =>
          cases applied
          have settled := sound.settled (by rcases status with h | h <;> simp [h])
          simp only [Outline.next, Run.outline, Run.pendingCount] at settled ⊢
          rw [settled]
          rfl
      case isFalse =>
          split at applied
          · cases applied
            have settled := Run.expire_pendingCount { r with status := .cancelling }
            simp only [Outline.next, Run.outline, settled]
            rfl
          · cases applied
  | resolve approvalId decision =>
      simp only [RunOp.apply] at applied
      cases named : RunOp.answerable view approvalId r with
      | none =>
          rw [named] at applied
          cases applied
      | some approval =>
          rw [named] at applied
          cases applied
          obtain ⟨found, -, pending, -⟩ := RunOp.answerable_eq_some named
          refine outline_answered _ found pending ?_ rfl
          intro b
          cases decision <;> simp
  | review decision comment =>
      simp only [RunOp.apply] at applied
      split at applied
      · cases applied
      · obtain ⟨a, last, applied⟩ := bind_ok applied
        have last := Run.attempt_ok last
        cases applied
        have same : (r.setLast { a with
            status := if decision = .accept then .completed else .rejected }).outline =
            r.outline := outline_setLast last rfl
        have length := congrArg Outline.attempts same
        have thread := congrArg Outline.thread same
        cases decision with
        | accept => exact Outline.ext rfl rfl length.symm thread.symm rfl
        | reject => exact Outline.ext rfl rfl length.symm thread.symm rfl
  | reconcile =>
      simp only [RunOp.apply] at applied
      split at applied
      · cases applied
      · split at applied
        · cases applied
        · cases applied
          rfl

/-- A run that ends or is marked keeps its attempts and threads, and nothing of it waits. -/
theorem outline_ended {a b : Attempt} {status : RunStatus} (last : r.lastAttempt = some a)
    (thread : b.threadId = a.threadId) :
    ({ r.setLast b with status := status }.expire).outline =
      { r.outline with status := status, pending := 0 } := by
  have same := congrArg Outline.thread (outline_setLast last thread)
  refine Outline.ext rfl ?_ (Run.setLast_length last) same rfl
  exact Run.expire_pendingCount { r.setLast b with status := status }

/-- A saved run is outlined by the event that it is saved with. -/
theorem apply_outline {change : Change} (applied : change.apply m r = .ok (some saved))
    (sound : r.Sound) (ok : change.Admissible r) :
    r.outline.next saved.payload saved.type = saved.run.outline := by
  cases change with
  | command view op => exact op_outline (map_some_ok applied) sound
  | startAttempt =>
      simp only [apply] at applied
      split at applied
      · cases applied
      · cases applied
        exact Outline.ext rfl rfl (by simp [Run.outline, Outline.next])
          (by simp [Run.outline, Outline.next, Run.lastAttempt, newAttempt]) rfl
  | bindThread value =>
      obtain ⟨a, last, applied⟩ := bind_ok applied
      obtain ⟨threadId, typed, applied⟩ := bind_ok applied
      have last := Run.attempt_ok last
      cases applied
      refine Outline.ext rfl rfl (Run.setLast_length last).symm ?_ rfl
      simp only [Run.outline, Run.setLast_lastAttempt, Option.bind_some]
      exact nullableId_text typed
  | cancelBeforeTurn =>
      obtain ⟨a, last, applied⟩ := bind_ok applied
      have last := Run.attempt_ok last
      cases applied
      have cancelling : r.status = .cancelling := ok
      have settled := sound.settled (by simp [cancelling])
      have same : (r.setLast { a with
          status := .cancelled, finishedAt := some m.time }).outline = r.outline :=
        outline_setLast last rfl
      exact Outline.ext rfl settled.symm (congrArg Outline.attempts same).symm
        (congrArg Outline.thread same).symm rfl
  | failBeforeDispatch message =>
      obtain ⟨a, last, applied⟩ := bind_ok applied
      have last := Run.attempt_ok last
      cases applied
      refine Eq.symm (outline_ended last ?_)
      rfl
  | bindTurn value =>
      obtain ⟨a, last, applied⟩ := bind_ok applied
      have last := Run.attempt_ok last
      cases bound : a.turnId with
      | some t =>
          simp only [bound] at applied
          split at applied <;> cases applied
      | none =>
          simp only [bound] at applied
          obtain ⟨turnId, typed, applied⟩ := bind_ok applied
          cases applied
          have same : (r.setLast { a with
              turnId := turnId, status := .running }).outline = r.outline :=
            outline_setLast last rfl
          exact Outline.ext rfl rfl (congrArg Outline.attempts same).symm
            (congrArg Outline.thread same).symm rfl
  | resolvedByRuntime requestId =>
      simp only [apply] at applied
      split at applied
      · cases applied
      · rename_i approval found
        cases applied
        have matched := List.find?_some found
        simp only [Bool.and_eq_true, beq_iff_eq] at matched
        have waiting := sound.waiting
          (List.any_eq_true.mpr ⟨approval, List.mem_of_find?_eq_some found, by simp [matched.2]⟩)
        have answered := outline_answered .null found matched.2
          (f := fun a => { a with status := .expired }) (by simp) rfl
        refine answered.trans (congrArg Run.outline ?_)
        simp only [waiting, true_and, Run.hasPending]
        split <;> simp_all
  | completedItem item =>
      simp only [apply] at applied
      split at applied
      · obtain ⟨a, last, applied⟩ := bind_ok applied
        have last := Run.attempt_ok last
        cases applied
        refine Eq.symm (outline_setLast last ?_)
        rfl
      · cases applied
        rfl
  | requestApproval approvalId attempt kind requestId generation details =>
      simp only [apply] at applied
      split at applied
      · cases applied
      · split at applied
        · cases applied
          exact Outline.ext rfl (by simp [Run.outline, Outline.next, Run.pendingCount]) rfl rfl rfl
        · cases applied
  | finish turn outcome =>
      simp only [apply] at applied
      split at applied
      · rename_i outcome
        have applied := map_some_ok applied
        obtain ⟨a, last, applied⟩ := bind_ok applied
        obtain ⟨final, _, applied⟩ := bind_ok applied
        obtain ⟨result, _, applied⟩ := bind_ok applied
        obtain ⟨turnId, typed, applied⟩ := bind_ok applied
        have last := Run.attempt_ok last
        cases applied
        refine Eq.trans ?_ (outline_ended last ?_).symm
        · cases outcome <;> rfl
        · rfl
      · cases applied
  | uncertain message =>
      have same : ({ r with status := .recoveryRequired } : Run).expire.lastAttempt =
          r.lastAttempt := rfl
      simp only [apply, same] at applied
      cases applied
      cases last : r.lastAttempt with
      | some a =>
          have ended : ({ r.setLast { a with
              status := .recoveryRequired, error := some (slice message 2000) } with
              status := .recoveryRequired }.expire).outline =
              { r.outline with status := .recoveryRequired, pending := 0 } :=
            outline_ended last rfl
          exact ended.symm
      | none => exact absurd (Run.lastAttempt_isSome_iff.mpr ok.1) (by simp [last])
  | reconciled outcome message =>
      cases applied
      rfl

end Change

/-! ## Every transaction -/

/-- An entry of the log is what the store computed. -/
def Entry.Computed (env : Env) : Entry → Prop
  | .commit (.update id change _) before after => ∃ m, before.update m id change = .ok after
  | .commit (.command c replay) before after => ∃ (w : World) (m : Moment) (digest : String)
      (value : ReceiptValue), w.db = before ∧ before.command c.idempotencyKey digest
        (Service.handle env w m c.request) = .ok (⟨replay, value⟩, after)
  | _ => True

theorem computed_reached {env : Env} {w : World} (run : Reaches (Step env) .init w) :
    ∀ e ∈ w.log, e.Computed env := by
  have stable : Stable env fun w => ∀ e ∈ w.log, e.Computed env := by
    refine ⟨⟨?quiet, fun _ _ known => known, fun _ _ _ known => known, ?record, ?doubt⟩, ?update⟩
    case quiet =>
        intro w w' _ log _ known
        rwa [log]
    case record =>
        intro w e plain known
        refine List.forall_mem_cons.mpr ⟨?_, known⟩
        cases e with
        | commit => cases plain
        | _ => trivial
    case doubt =>
        intro w id message after known result
        exact List.forall_mem_cons.mpr ⟨⟨_, result⟩, known⟩
    case update =>
        intro w id change via after known result
        exact List.forall_mem_cons.mpr ⟨⟨_, result⟩, known⟩
  refine stable.reached (by simp [World.init]) (fun _ _ _ known => known) ?_
    (fun _ known => List.forall_mem_cons.mpr ⟨trivial, known⟩) (fun _ _ known => known) run
  intro w c digest outcome after known result
  exact List.forall_mem_cons.mpr ⟨⟨w, _, digest, outcome.value, rfl, result⟩, known⟩

namespace Db

/-- Every run is outlined by its events. -/
def Told (db : Db) : Prop :=
  ∀ id r, db.runs.lookup id = some r → Outline.follow (db.eventsOf id) = r.outline

variable {db after : Db} {m : Moment}

theorem Told.write (told : db.Told) {r : Run} {type : EventType} {payload : Json}
    (next : (Outline.follow (db.eventsOf r.runId)).next payload type = r.outline) :
    (db.write r (eventOf m r type payload)).Told := by
  intro id s found
  obtain ⟨rfl, rfl⟩ | ⟨other, found⟩ := write_lookup found
  · rw [← next]
    simp [eventsOf, Db.write, eventOf, Outline.follow]
  · rw [← told id s found]
    have ne : ¬ r.runId = id := fun same => other same.symm
    simp [eventsOf, Db.write, eventOf, Outline.follow, ne]

/-- What a transaction on a run writes: nothing, or the saved run with its event. -/
theorem update_saved {id : String} {change : Change} (h : db.update m id change = .ok after) :
    after = db ∨ ∃ r saved, db.runs.lookup id = some r ∧
      change.apply m r = .ok (some saved) ∧ after = db.write (bump m saved.run)
        (eventOf m (bump m saved.run) saved.type saved.payload) := by
  obtain ⟨r, found, h⟩ := Change.bind_ok h
  rw [run_ok] at found
  obtain ⟨saved, applied, h⟩ := Change.bind_ok h
  cases saved with
  | none =>
      cases h
      exact .inl rfl
  | some saved =>
      obtain ⟨⟨s, next⟩, stored, h⟩ := Change.bind_ok h
      cases h
      obtain ⟨-, -, -, result⟩ := save_ok stored
      exact .inr ⟨r, saved, found, applied, result⟩

theorem Told.saved (told : db.Told) (sound : db.Sound) {id : String} {change : Change} {r : Run}
    {saved : Saved} (found : db.runs.lookup id = some r)
    (applied : change.apply m r = .ok (some saved)) (ok : change.Admissible r) :
    (db.write (bump m saved.run)
      (eventOf m (bump m saved.run) saved.type saved.payload)).Told := by
  have runId : (bump m saved.run).runId = id := by
    rw [← sound.keyed id r found]
    exact (Change.apply_saves applied).runId
  refine told.write ?_
  rw [runId, told id r found]
  exact Change.apply_outline applied (sound.runs id r found) ok

theorem Told.receipts (told : db.Told) (receipts : AList fun _ : String => Receipt) :
    ({ db with receipts := receipts } : Db).Told := told

theorem Told.update (told : db.Told) (sound : db.Sound) {id : String} {change : Change}
    (h : db.update m id change = .ok after)
    (ok : ∀ r, db.runs.lookup id = some r → change.Admissible r) : after.Told := by
  obtain rfl | ⟨r, saved, found, applied, rfl⟩ := update_saved h
  · exact told
  · exact told.saved sound found applied (ok r found)

theorem Told.command {env : Env} {w : World} (told : db.Told) (sound : db.Sound)
    (same : w.db = db) {key digest : String} {request : Request} {outcome : Outcome}
    (h : db.command key digest (Service.handle env w m request) = .ok (outcome, after)) :
    after.Told := by
  subst same
  obtain ⟨prior, -, -, -, rfl⟩ | ⟨value, next, -, handled, -, rfl⟩ := command_ok h
  · exact told
  · suffices told : next.Told from told.receipts _
    cases request with
    | createProject name =>
        cases handled
        exact told
    | createRun projectId task =>
        obtain ⟨project, -, handled⟩ := Change.bind_ok handled
        obtain ⟨⟨r, db⟩, stored, handled⟩ := Change.bind_ok handled
        cases handled
        obtain ⟨-, -, -, rfl⟩ := save_ok stored
        exact told.write rfl
    | onRun id version op =>
        obtain ⟨r, found, handled⟩ := Change.bind_ok handled
        rw [run_ok] at found
        split at handled
        · cases handled
        · obtain ⟨saved, applied, handled⟩ := Change.bind_ok handled
          obtain ⟨⟨s, db⟩, stored, handled⟩ := Change.bind_ok handled
          cases handled
          obtain ⟨-, -, -, rfl⟩ := save_ok stored
          have change : (Change.command (Service.view w id) op).apply m r = .ok (some saved) := by
            rw [Change.apply, applied]
            rfl
          exact told.saved sound found change trivial

end Db

/-- At any time the events of a run, followed from its creation on, give the outline of the
stored record. -/
theorem events_outline_run {env : Env} {w : World} (run : Reaches (Step env) .init w) :
    ∀ id r, w.db.runs.lookup id = some r → Outline.follow (w.db.eventsOf id) = r.outline := by
  have told : (∀ e ∈ w.log, e.Computed env) → w.db.Told := by
    refine run.ledger (I := fun log db => (∀ e ∈ log, e.Computed env) → db.Told) ?_ ?_ ?_
    · intro _ id r found
      simp [Db.empty] at found
    · intro cause v origin before after log _ sound commit ih computed
      obtain ⟨last, older⟩ := List.forall_mem_cons.mp computed
      have told := ih older
      cases commit with
      | skipped => exact told
      | replayed => exact told
      | wrote why writes =>
          obtain ⟨m, result⟩ := last
          refine told.update sound result fun s found => ?_
          cases found.symm.trans writes.found
          exact why.admissible
      | projectCreated request unused => exact told
      | runCreated request unused fresh object =>
          obtain ⟨u, m, digest, value, same, result⟩ := last
          exact told.command sound same result
      | commanded command request unused current writes =>
          obtain ⟨u, m, digest, value, same, result⟩ := last
          exact told.command sound same result
    · intro e log db plain ih computed
      exact ih (List.forall_mem_cons.mp computed).2
  exact told (computed_reached run)

set_option maxRecDepth 100000 in
/-- After the approval of the script was asked for, the events tell that it is pending. -/
theorem events_outline_run_asked : ∃ w r,
    Reaches (Step (Script.env Script.approvalFrames)) .init w ∧ Script.run w = some r ∧
    r.pendingCount = 1 ∧ Outline.follow (w.db.eventsOf "uu") = r.outline := by
  obtain ⟨w, run, asked⟩ := Script.reaches Script.approvalFrames Script.asked
    (fun w => (Script.run w).any (·.pendingCount == 1)) (by decide +kernel)
  obtain ⟨r, found, count⟩ := (Option.any_eq_true _ _).mp asked
  exact ⟨w, r, run.ofNode, found, by simpa using count, events_outline_run run.ofNode "uu" r found⟩

end Mathmodel
