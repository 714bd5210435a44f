import Mathmodel.Backend.Transitions

/-!
# Stored runs

What holds of every run in the database, whatever wrote it last, and what a
write leaves alone. The guards that the callers of a change check beforehand are
collected in `Change.Admissible`; the remaining changes may hit a run in any
status, because their callers are continuations that do not look at it again.
-/

namespace Mathmodel

/-- An attempt was started and the run has not been reset since. -/
def RunStatus.isBegun : RunStatus → Bool
  | .ready | .queued | .cancelled => false
  | _ => true

namespace Run

/-- Facts about a stored run that every write keeps. -/
structure Sound (r : Run) : Prop where
  valid : r.Valid
  level : r.stateVersion = r.lastSequence
  unstarted : r.status = .ready → r.attempts = []
  room : r.status = .queued → r.attempts.length < 1000
  begun : r.status.isBegun = true → r.attempts ≠ []
  unbound : r.status = .starting → ∀ a, r.lastAttempt = some a → a.turnId = none
  waiting : r.hasPending = true → r.status = .waitingApproval

@[simp] theorem expire_hasPending (r : Run) : r.expire.hasPending = false := by
  simp only [hasPending, expire, List.any_map, List.any_eq_false, Function.comp_apply]
  intro a _
  split <;> simp_all

theorem Sound.lastAttempt {r : Run} (h : r.Sound) (begun : r.status.isBegun = true) :
    ∃ a, r.lastAttempt = some a := by
  rw [← Option.isSome_iff_exists]
  exact lastAttempt_isSome_iff.mpr (h.begun begun)

theorem Sound.not_ready {r : Run} (h : r.Sound) {a : Attempt} (last : r.lastAttempt = some a) :
    r.status ≠ .ready :=
  fun status => attempts_ne_nil_of_lastAttempt last (h.unstarted status)

theorem Sound.lastAttempt_of_isExecuting {r : Run} (h : r.Sound)
    (executing : r.status.isExecuting = true) : ∃ a, r.lastAttempt = some a := by
  refine h.lastAttempt ?_
  revert executing
  cases r.status <;> decide

end Run

/-- The checks behind an answerable approval. -/
theorem RunOp.answerable_eq_some {view : View} {approvalId : String} {r : Run}
    {approval : Approval} (h : answerable view approvalId r = some approval) :
    r.approvals.find? (·.approvalId == approvalId) = some approval ∧
      r.status = .waitingApproval ∧ approval.status = .pending ∧
      ∃ generation requests, view.runtime = some (generation, requests) ∧
        generation = approval.generation ∧ .scalar approval.requestId ∈ requests := by
  unfold answerable at h
  split at h
  · rename_i found runtime
    split at h
    · rename_i checks
      cases h
      exact ⟨found, checks.1, checks.2.1, _, _, runtime, checks.2.2⟩
    · cases h
  · cases h

theorem any_replaceFirst {α : Type} {p q : α → Bool} {f : α → α} {xs : List α}
    (hf : ∀ a, q (f a) = false) (h : (replaceFirst p f xs).any q = true) : xs.any q = true := by
  induction xs with
  | nil => cases h
  | cons a xs ih =>
      unfold replaceFirst at h
      split at h
      · simp only [List.any_cons, hf, Bool.false_or] at h
        simp [h]
      · simp only [List.any_cons, Bool.or_eq_true] at h ⊢
        exact h.imp id ih

@[simp] theorem replaceFirst_length {α : Type} (p : α → Bool) (f : α → α) (xs : List α) :
    (replaceFirst p f xs).length = xs.length := by
  induction xs with
  | nil => rfl
  | cons a xs ih =>
      unfold replaceFirst
      split <;> simp [ih]

/-- Every element is an old one, or the image of an old one that satisfies `p`. -/
theorem mem_replaceFirst {α : Type} {p : α → Bool} {f : α → α} {xs : List α} {b : α}
    (h : b ∈ replaceFirst p f xs) : b ∈ xs ∨ ∃ a ∈ xs, p a = true ∧ b = f a := by
  induction xs with
  | nil => cases h
  | cons a xs ih =>
      unfold replaceFirst at h
      split at h
      · rename_i matches_
        rcases List.mem_cons.mp h with rfl | old
        · exact .inr ⟨a, by simp, matches_, rfl⟩
        · exact .inl (by simp [old])
      · rcases List.mem_cons.mp h with rfl | rest
        · exact .inl (by simp)
        · obtain old | ⟨c, member, matches_, rfl⟩ := ih rest
          · exact .inl (by simp [old])
          · exact .inr ⟨c, by simp [member], matches_, rfl⟩

namespace Change

/-- What the callers of a change have checked of the run it is applied to. -/
def Admissible (r : Run) : Change → Prop
  | .cancelBeforeTurn => r.status = .cancelling
  | .requestApproval .. => r.status = .running ∨ r.status = .waitingApproval
  | .uncertain _ => r.attempts ≠ [] ∧ r.status.isTerminal = false
  | _ => True

namespace Saves

variable {m : Moment} {r r' : Run} {change : Change}

/-- A change never touches the identity of a run or its counters. -/
theorem identity (h : change.Saves m r r') :
    r'.runId = r.runId ∧ r'.projectId = r.projectId ∧ r'.task = r.task ∧
      r'.stateVersion = r.stateVersion ∧ r'.lastSequence = r.lastSequence := by
  cases h <;> exact ⟨rfl, rfl, rfl, rfl, rfl⟩

theorem runId (h : change.Saves m r r') : r'.runId = r.runId := h.identity.1

/-- Attempts are only appended, and only by the start of an attempt. -/
theorem attempts_length (h : change.Saves m r r') :
    r'.attempts.length = r.attempts.length ∨
      (change = .startAttempt ∧ r.status = .queued ∧
        r'.attempts.length = r.attempts.length + 1) := by
  cases h with
  | startAttempt status => exact .inr ⟨rfl, status, by simp⟩
  | review status last => exact .inl (Run.setLast_length last)
  | bindThread last typed => exact .inl (Run.setLast_length last)
  | cancelBeforeTurn last => exact .inl (Run.setLast_length last)
  | failBeforeDispatch last => exact .inl (Run.setLast_length last)
  | bindTurn last unbound typed => exact .inl (Run.setLast_length last)
  | message last => exact .inl (Run.setLast_length last)
  | finish last typed => exact .inl (Run.setLast_length last)
  | uncertain last => exact .inl (Run.setLast_length (r := { r with status := _ }.expire) last)
  | _ => exact .inl rfl

theorem attempts_length_le (h : change.Saves m r r') :
    r.attempts.length ≤ r'.attempts.length := by
  obtain same | ⟨-, -, more⟩ := h.attempts_length <;> omega

theorem attempts_ne_nil (h : change.Saves m r r') (some : r.attempts ≠ []) :
    r'.attempts ≠ [] := by
  have := h.attempts_length_le
  have := List.length_pos_iff.mpr some
  exact List.length_pos_iff.mp (by omega)

/-- The slot is taken only by a run that held it, or through the queue while it
was free. -/
theorem isOccupied (h : change.Saves m r r') (sound : r.Sound) (ok : change.Admissible r)
    (occupied : r'.status.isOccupied = true) :
    r.status.isOccupied = true ∨
      (∃ view op, change = .command view op ∧ view.connected = false ∧
        view.occupied = false) := by
  cases h with
  | start status room free => exact .inr ⟨_, _, rfl, free⟩
  | retry status room free => exact .inr ⟨_, _, rfl, free⟩
  | cancelIdle status => cases occupied
  | cancelActive status => rcases status with h | h | h <;> exact .inl (by rw [h]; rfl)
  | resolve named answered =>
      have waiting := (RunOp.answerable_eq_some named).2.1
      exact .inl (by rw [waiting]; rfl)
  | review status last =>
      rename_i decision _ _
      cases decision <;> cases occupied
  | reconcile status free bound => exact .inl occupied
  | startAttempt status => exact .inl (by rw [status]; rfl)
  | bindThread last typed => exact .inl occupied
  | cancelBeforeTurn last => cases occupied
  | failBeforeDispatch last => cases occupied
  | bindTurn last unbound typed =>
      left
      dsimp only at occupied
      split at occupied
      · rename_i status
        rw [status]
        rfl
      · exact occupied
  | resolvedByRuntime found expired =>
      left
      dsimp only at occupied
      split at occupied
      · rename_i status
        rw [status.1]
        rfl
      · exact occupied
  | message last => exact .inl occupied
  | item => exact .inl occupied
  | requestApproval room =>
      rcases ok with status | status <;> exact .inl (by rw [status]; rfl)
  | finish last typed =>
      rename_i outcome _ _ _
      cases outcome <;> cases occupied
  | uncertain last =>
      left
      have ready : r.status ≠ .ready := fun status => ok.1 (sound.unstarted status)
      have := ok.2
      revert this ready
      cases r.status <;> simp [RunStatus.isTerminal, RunStatus.isOccupied, RunStatus.isActive]
  | uncertainNew none => exact absurd none (by simpa [Run.lastAttempt] using ok.1)
  | reconciled => exact .inl occupied

/-- A run enters the queue only while no runtime is live and no run holds the slot. -/
theorem queued (h : change.Saves m r r') (status' : r'.status = .queued) :
    r.status = .queued ∨
      (∃ view op, change = .command view op ∧ (op = .start ∨ op = .retry) ∧
        view.connected = false ∧ view.occupied = false) := by
  cases h with
  | start status room free => exact .inr ⟨_, _, rfl, .inl rfl, free⟩
  | retry status room free => exact .inr ⟨_, _, rfl, .inr rfl, free⟩
  | bindTurn last unbound typed =>
      left
      dsimp only at status'
      split at status' <;> simp_all
  | resolvedByRuntime found expired =>
      left
      dsimp only at status'
      split at status' <;> simp_all
  | resolve named answered =>
      dsimp only at status'
      split at status' <;> cases status'
  | review status last =>
      dsimp only at status'
      split at status' <;> cases status'
  | finish last typed =>
      rename_i outcome _ _ _
      cases outcome <;> cases status'
  | reconcile status free bound => exact .inl status'
  | bindThread last typed => exact .inl status'
  | message last => exact .inl status'
  | item => exact .inl status'
  | reconciled => exact .inl status'
  | _ => cases status'

theorem unstarted (h : change.Saves m r r') (sound : r.Sound) (status' : r'.status = .ready) :
    r'.attempts = [] := by
  cases h with
  | resolve named answered => dsimp only at status'; split at status' <;> cases status'
  | review status last => dsimp only at status'; split at status' <;> cases status'
  | finish last typed => rename_i outcome _ _ _; cases outcome <;> cases status'
  | bindTurn last unbound typed =>
      dsimp only at status'
      split at status'
      · cases status'
      · exact absurd status' (sound.not_ready last)
  | bindThread last typed => exact absurd status' (sound.not_ready last)
  | message last => exact absurd status' (sound.not_ready last)
  | resolvedByRuntime found expired =>
      dsimp only at status'
      split at status'
      · cases status'
      · exact sound.unstarted status'
  | reconcile status free bound => exact sound.unstarted status'
  | item => exact sound.unstarted status'
  | reconciled => exact sound.unstarted status'
  | _ => cases status'

theorem room (h : change.Saves m r r') (sound : r.Sound) (status' : r'.status = .queued) :
    r'.attempts.length < 1000 := by
  have length := h.attempts_length
  obtain status | ⟨view, op, rfl, kind, -⟩ := h.queued status'
  · obtain same | ⟨rfl, -, -⟩ := length
    · have := sound.room status
      omega
    · cases h; cases status'
  · cases h with
    | start status room free => exact room
    | retry status room free => exact room
    | _ => simp at kind

theorem begun (h : change.Saves m r r') (sound : r.Sound) (ok : change.Admissible r)
    (begun' : r'.status.isBegun = true) : r'.attempts ≠ [] := by
  by_cases some : r.attempts = []
  · have none : r.lastAttempt = none := by simp [Run.lastAttempt, some]
    have idle : r.status.isBegun = false := by
      by_contra h
      exact sound.begun (by simpa using h) some
    cases h with
    | startAttempt status => simp
    | uncertain last => rw [none] at last; cases last
    | uncertainNew none => exact absurd some ok.1
    | resolve named answered =>
        have := (RunOp.answerable_eq_some named).2.1
        rw [this] at idle; cases idle
    | review status last => rw [none] at last; cases last
    | finish last typed => rw [none] at last; cases last
    | bindTurn last unbound typed => rw [none] at last; cases last
    | bindThread last typed => rw [none] at last; cases last
    | message last => rw [none] at last; cases last
    | cancelBeforeTurn last => rw [none] at last; cases last
    | failBeforeDispatch last => rw [none] at last; cases last
    | cancelActive status => rcases status with h | h | h <;> rw [h] at idle <;> cases idle
    | requestApproval room => rcases ok with h | h <;> rw [h] at idle <;> cases idle
    | resolvedByRuntime found expired =>
        dsimp only at begun'
        split at begun'
        · rename_i h; rw [h.1] at idle; cases idle
        · rw [idle] at begun'; cases begun'
    | reconcile status free bound => rw [status] at idle; cases idle
    | item => rw [idle] at begun'; cases begun'
    | reconciled => rw [idle] at begun'; cases begun'
    | _ => cases begun'
  · exact h.attempts_ne_nil some

theorem unbound (h : change.Saves m r r') (sound : r.Sound) (status' : r'.status = .starting)
    {a : Attempt} (last' : r'.lastAttempt = some a) : a.turnId = none := by
  cases h with
  | startAttempt status =>
      simp only [Run.lastAttempt, List.getLast?_concat, Option.some.injEq] at last'
      rw [← last']
      rfl
  | bindThread last typed =>
      rw [Run.setLast_lastAttempt, Option.some.injEq] at last'
      have unbound := sound.unbound status' _ last
      rw [← last']
      exact unbound
  | message last =>
      rw [Run.setLast_lastAttempt, Option.some.injEq] at last'
      have unbound := sound.unbound status' _ last
      rw [← last']
      exact unbound
  | bindTurn last unbound typed => dsimp only at status'; split at status' <;> simp_all
  | resolve named answered => dsimp only at status'; split at status' <;> cases status'
  | review status last => dsimp only at status'; split at status' <;> cases status'
  | finish last typed => rename_i outcome _ _ _; cases outcome <;> cases status'
  | resolvedByRuntime found expired =>
      dsimp only at status'
      split at status'
      · cases status'
      · exact sound.unbound status' _ last'
  | reconcile status free bound => exact sound.unbound status' _ last'
  | item => exact sound.unbound status' _ last'
  | reconciled => exact sound.unbound status' _ last'
  | _ => cases status'

theorem waiting (h : change.Saves m r r') (sound : r.Sound) (ok : change.Admissible r)
    (pending' : r'.hasPending = true) : r'.status = .waitingApproval := by
  cases h with
  | start status room free =>
      have := sound.waiting pending'
      rw [status] at this; cases this
  | retry status room free =>
      have := sound.waiting pending'
      rcases status with status | status <;> rw [status] at this <;> cases this
  | cancelIdle status =>
      have := sound.waiting pending'
      rcases status with status | status <;> rw [status] at this <;> cases this
  | cancelActive status => simp at pending'
  | resolve named answered => exact if_pos pending'
  | review status last =>
      have := sound.waiting pending'
      rw [status] at this; cases this
  | startAttempt status =>
      have := sound.waiting pending'
      rw [status] at this; cases this
  | cancelBeforeTurn last =>
      have := sound.waiting pending'
      rw [show r.status = _ from ok] at this; cases this
  | failBeforeDispatch last => simp at pending'
  | bindTurn last unbound typed =>
      have := sound.waiting pending'
      simp [this]
  | resolvedByRuntime found expired =>
      have before : r.hasPending = true := by
        subst expired
        exact any_replaceFirst (by simp) pending'
      simp only [Run.hasPending] at pending'
      simp [sound.waiting before, pending']
  | requestApproval room => rfl
  | finish last typed => simp at pending'
  | uncertain last =>
      have : (({ r with status := .recoveryRequired } : Run).expire).hasPending = true := pending'
      simp at this
  | uncertainNew none => simp at pending'
  | _ => exact sound.waiting pending'

/-- Every admissible write keeps a stored run sound. -/
theorem sound (h : change.Saves m r r') (sound : r.Sound) (ok : change.Admissible r)
    (valid : (Db.bump m r').Valid) : (Db.bump m r').Sound where
  valid := valid
  level := by
    have := h.identity.2.2.2
    simp only [Db.bump, this, sound.level]
  unstarted := h.unstarted sound
  room := h.room sound
  begun := h.begun sound ok
  unbound := fun status' _ last' => h.unbound sound status' last'
  waiting := h.waiting sound ok

end Saves

end Change

end Mathmodel
