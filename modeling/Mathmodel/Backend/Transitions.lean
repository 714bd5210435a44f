import Mathmodel.Backend.Change

/-!
# What a change can do to a run

`Change.Saves m r change r'` lists, one case for each way a callback can end in
a save, the guard it passed and the record it saved. It is the inversion of
`Change.apply`: everything proved about the history of a run is a case analysis
of it, and a new write of the service needs one more case here.
-/

namespace Mathmodel

/-- The service is executing the run: its runtime may still act. -/
def RunStatus.isExecuting : RunStatus → Bool
  | .starting | .running | .waitingApproval | .cancelling => true
  | _ => false

namespace RunStatus

end RunStatus

namespace Run

@[simp] theorem expire_status (r : Run) : r.expire.status = r.status := rfl
@[simp] theorem expire_attempts (r : Run) : r.expire.attempts = r.attempts := rfl
@[simp] theorem expire_review (r : Run) : r.expire.review = r.review := rfl
@[simp] theorem expire_runId (r : Run) : r.expire.runId = r.runId := rfl
@[simp] theorem expire_lastAttempt (r : Run) : r.expire.lastAttempt = r.lastAttempt := rfl

@[simp] theorem setLast_status (r : Run) (a : Attempt) : (r.setLast a).status = r.status := rfl
@[simp] theorem setLast_review (r : Run) (a : Attempt) : (r.setLast a).review = r.review := rfl
@[simp] theorem setLast_runId (r : Run) (a : Attempt) : (r.setLast a).runId = r.runId := rfl
@[simp] theorem setLast_approvals (r : Run) (a : Attempt) :
    (r.setLast a).approvals = r.approvals := rfl

@[simp] theorem setLast_lastAttempt (r : Run) (a : Attempt) :
    (r.setLast a).lastAttempt = some a := by
  simp [setLast, lastAttempt]

theorem attempts_eq_of_lastAttempt {r : Run} {a : Attempt} (h : r.lastAttempt = some a) :
    r.attempts = r.attempts.dropLast ++ [a] := by
  exact (List.dropLast_append_getLast? a h).symm

theorem attempts_ne_nil_of_lastAttempt {r : Run} {a : Attempt} (h : r.lastAttempt = some a) :
    r.attempts ≠ [] := by
  intro empty
  simp [lastAttempt, empty] at h

theorem lastAttempt_isSome_iff {r : Run} : r.lastAttempt.isSome ↔ r.attempts ≠ [] := by
  simp [lastAttempt]

theorem setLast_length {r : Run} {a b : Attempt} (h : r.lastAttempt = some a) :
    (r.setLast b).attempts.length = r.attempts.length := by
  have shape := congrArg List.length (attempts_eq_of_lastAttempt h)
  simp only [List.length_append, List.length_singleton] at shape
  simp only [setLast, List.length_append, List.length_singleton]
  omega

theorem attempt_ok {r : Run} {name : String} {a : Attempt} (h : r.attempt name = .ok a) :
    r.lastAttempt = some a := by
  unfold attempt at h
  cases last : r.lastAttempt with
  | none => rw [last] at h; cases h
  | some b => rw [last] at h; cases h; rfl

end Run

namespace Change

/-- The saved record of a finished turn. -/
def finished (m : Moment) (turn : Json) (outcome : TurnOutcome) (turnId : Option String)
    (result : String) (a : Attempt) : Attempt :=
  { a with
    turnId := turnId
    status := outcome.attemptStatus
    finishedAt := some m.time
    error := if Json.truthy (turn.get "error")
      then some "Codex turn failed; inspect the runtime locally" else none
    result := result }

/-- Every way a change saves the loaded run `r`. -/
inductive Saves (m : Moment) (r : Run) : Change → Run → Prop where
  | start {view : View} (status : r.status = .ready) (room : r.attempts.length < 1000)
      (free : view.connected = false ∧ view.occupied = false) :
      Saves m r (.command view .start) { r with status := .queued, review := none }
  | retry {view : View} (status : r.status = .failed ∨ r.status = .cancelled)
      (room : r.attempts.length < 1000)
      (free : view.connected = false ∧ view.occupied = false) :
      Saves m r (.command view .retry) { r with status := .queued, review := none }
  | cancelIdle {view : View} (status : r.status = .ready ∨ r.status = .queued) :
      Saves m r (.command view .cancel) { r with status := .cancelled }
  | cancelActive {view : View}
      (status : r.status = .starting ∨ r.status = .running ∨ r.status = .waitingApproval) :
      Saves m r (.command view .cancel) { r with status := .cancelling }.expire
  | resolve {view : View} {approvalId : String} {decision : Decision} {approval : Approval}
      {approvals : List Approval}
      (named : RunOp.answerable view approvalId r = some approval)
      (answered : approvals = replaceFirst (·.approvalId == approvalId)
        (fun a => { a with status := if decision = .accept then .accepted else .declined })
        r.approvals) :
      Saves m r (.command view (.resolve approvalId decision))
        { r with
          approvals := approvals
          status := if approvals.any (·.status == .pending) then .waitingApproval else .running }
  | review {view : View} {decision : ReviewDecision} {comment : String} {a : Attempt}
      (status : r.status = .awaitingReview) (last : r.lastAttempt = some a) :
      Saves m r (.command view (.review decision comment))
        { r.setLast { a with
            status := if decision = .accept then .completed else .rejected } with
          review := some ⟨decision, comment, m.time⟩
          status := if decision = .accept then .completed else .failed }
  | reconcile {view : View} (status : r.status = .recoveryRequired)
      (free : view.connected = false)
      (bound : (r.lastAttempt.bind (·.threadId)).isSome) :
      Saves m r (.command view .reconcile) r
  | startAttempt (status : r.status = .queued) :
      Saves m r .startAttempt
        { r with status := .starting, attempts := r.attempts ++ [newAttempt m r] }
  | bindThread {value : Option Json} {a : Attempt} {threadId : Option String}
      (last : r.lastAttempt = some a) (typed : nullableId m value = .ok threadId) :
      Saves m r (.bindThread value) (r.setLast { a with threadId := threadId })
  | cancelBeforeTurn {a : Attempt} (last : r.lastAttempt = some a) :
      Saves m r .cancelBeforeTurn
        { r.setLast { a with status := .cancelled, finishedAt := some m.time } with
          status := .cancelled }
  | failBeforeDispatch {message : String} {a : Attempt} (last : r.lastAttempt = some a) :
      Saves m r (.failBeforeDispatch message)
        { r.setLast { a with
            status := .failed, error := some (slice message 2000),
            finishedAt := some m.time } with status := .failed }.expire
  | bindTurn {value : Option Json} {a : Attempt} {turnId : Option String}
      (last : r.lastAttempt = some a) (unbound : a.turnId = none)
      (typed : nullableId m value = .ok turnId) :
      Saves m r (.bindTurn value)
        { r.setLast { a with turnId := turnId, status := .running } with
          status := if r.status = .starting then .running else r.status }
  | resolvedByRuntime {requestId : Option Json} {approval : Approval}
      {approvals : List Approval}
      (found : r.approvals.find?
        (fun a => some a.requestId == requestId && a.status == .pending) = some approval)
      (expired : approvals = replaceFirst
        (fun a => some a.requestId == requestId && a.status == .pending)
        (fun a => { a with status := .expired }) r.approvals) :
      Saves m r (.resolvedByRuntime requestId)
        { r with
          approvals := approvals
          status := if r.status = .waitingApproval ∧ ¬approvals.any (·.status == .pending)
            then .running else r.status }
  | message {item : Option Json} {a : Attempt} {text : String} (last : r.lastAttempt = some a) :
      Saves m r (.completedItem item) (r.setLast { a with result := slice text 1000000 })
  | item {item : Option Json} : Saves m r (.completedItem item) r
  | requestApproval {approvalId : String} {attempt : Nat} {kind : ApprovalKind}
      {requestId : Json} {generation : String} {details : Json}
      (room : r.approvals.length < 1000) :
      Saves m r (.requestApproval approvalId attempt (.own kind) requestId generation details)
        { r with
          approvals := r.approvals ++ [⟨approvalId, attempt, kind, requestId, generation,
            .pending, details.stored, m.time⟩]
          status := .waitingApproval }
  | finish {turn : Json} {outcome : TurnOutcome} {a : Attempt} {turnId : Option String}
      {result : String} (last : r.lastAttempt = some a)
      (typed : nullableId m (turn.get "id") = .ok turnId) :
      Saves m r (.finish turn (.own outcome))
        { r.setLast (finished m turn outcome turnId result a) with
          status := outcome.runStatus }.expire
  | uncertain {message : String} {a : Attempt} (last : r.lastAttempt = some a) :
      Saves m r (.uncertain message)
        (({ r with status := .recoveryRequired }.expire).setLast
          { a with status := .recoveryRequired, error := some (slice message 2000) })
  | uncertainNew {message : String} (none : r.lastAttempt = none) :
      Saves m r (.uncertain message) { r with status := .recoveryRequired }.expire
  | reconciled {outcome message : String} : Saves m r (.reconciled outcome message) r

/-- A failed step of a pure computation fails the whole computation. -/
theorem bind_ok {α β : Type} {x : Except Err α} {f : α → Except Err β} {b : β}
    (h : (x >>= f) = .ok b) : ∃ a, x = .ok a ∧ f a = .ok b := by
  cases x with
  | error e => cases h
  | ok a => exact ⟨a, rfl, h⟩

theorem queue_saves {view : View} {allowed : List RunStatus} {r : Run} {saved : Saved}
    (h : RunOp.queue view allowed r = .ok saved) :
    r.status ∈ allowed ∧ r.attempts.length < 1000 ∧
      (view.connected = false ∧ view.occupied = false) ∧
      saved.run = { r with status := .queued, review := none } := by
  unfold RunOp.queue at h
  split at h
  · cases h
  · rename_i status
    split at h
    · cases h
    · split at h
      · cases h
      · rename_i room free
        cases h
        exact ⟨by simpa using status, by omega, by simpa using free, rfl⟩

theorem op_saves {m : Moment} {view : View} {r : Run} {op : RunOp} {saved : Saved}
    (h : op.apply m view r = .ok saved) : Saves m r (.command view op) saved.run := by
  cases op with
  | start =>
      obtain ⟨status, room, free, run⟩ := queue_saves h
      rw [run]
      exact .start (by simpa using status) room free
  | retry =>
      obtain ⟨status, room, free, run⟩ := queue_saves h
      rw [run]
      exact .retry (by simpa using status) room free
  | cancel =>
      simp only [RunOp.apply] at h
      split at h
      · rename_i status
        cases h
        exact .cancelIdle status
      · split at h
        · rename_i status
          cases h
          exact .cancelActive status
        · cases h
  | resolve approvalId decision =>
      simp only [RunOp.apply] at h
      cases named : RunOp.answerable view approvalId r with
      | none => rw [named] at h; cases h
      | some approval =>
          rw [named] at h
          cases h
          exact .resolve named rfl
  | review decision comment =>
      simp only [RunOp.apply] at h
      split at h
      · cases h
      · rename_i status
        obtain ⟨a, last, h⟩ := bind_ok h
        cases h
        exact .review (by simpa using status) (Run.attempt_ok last)
  | reconcile =>
      simp only [RunOp.apply] at h
      split at h
      · cases h
      · rename_i status
        split at h
        · cases h
        · rename_i bound
          cases h
          simp only [not_or, not_not, Bool.not_eq_true] at status
          rw [Bool.not_eq_true, Option.isNone_eq_false_iff] at bound
          exact .reconcile status.1 status.2 bound

theorem finish_saves {m : Moment} {turn : Json} {outcome : TurnOutcome} {r : Run}
    {saved : Saved} (h : finishRun m turn outcome r = .ok saved) :
    Saves m r (.finish turn (.own outcome)) saved.run := by
  obtain ⟨a, last, h⟩ := bind_ok h
  obtain ⟨final, _, h⟩ := bind_ok h
  obtain ⟨result, _, h⟩ := bind_ok h
  obtain ⟨turnId, typed, h⟩ := bind_ok h
  cases h
  exact .finish (Run.attempt_ok last) typed

theorem map_some_ok {α : Type} {x : Except Err α} {a : α}
    (h : x.map some = .ok (some a)) : x = .ok a := by
  cases x with
  | error e => cases h
  | ok b => cases h; rfl

/-- The inversion of `apply`. -/
theorem apply_saves {m : Moment} {r : Run} {change : Change} {saved : Saved}
    (h : change.apply m r = .ok (some saved)) : Saves m r change saved.run := by
  cases change with
  | command view op => exact op_saves (map_some_ok h)
  | startAttempt =>
      simp only [apply] at h
      split at h
      · cases h
      · rename_i status
        cases h
        exact .startAttempt (by simpa using status)
  | bindThread value =>
      obtain ⟨a, last, h⟩ := bind_ok h
      obtain ⟨threadId, typed, h⟩ := bind_ok h
      cases h
      exact .bindThread (Run.attempt_ok last) typed
  | cancelBeforeTurn =>
      obtain ⟨a, last, h⟩ := bind_ok h
      cases h
      exact .cancelBeforeTurn (Run.attempt_ok last)
  | failBeforeDispatch message =>
      obtain ⟨a, last, h⟩ := bind_ok h
      cases h
      exact .failBeforeDispatch (Run.attempt_ok last)
  | bindTurn value =>
      obtain ⟨a, last, h⟩ := bind_ok h
      cases bound : a.turnId with
      | some t =>
          simp only [bound] at h
          split at h <;> cases h
      | none =>
          simp only [bound] at h
          obtain ⟨turnId, typed, h⟩ := bind_ok h
          cases h
          exact .bindTurn (Run.attempt_ok last) bound typed
  | resolvedByRuntime requestId =>
      simp only [apply] at h
      split at h
      · cases h
      · rename_i approval found
        cases h
        exact .resolvedByRuntime found rfl
  | completedItem item =>
      simp only [apply] at h
      split at h
      · obtain ⟨a, last, h⟩ := bind_ok h
        cases h
        exact .message (Run.attempt_ok last)
      · cases h
        exact .item
  | requestApproval approvalId attempt kind requestId generation details =>
      simp only [apply] at h
      split at h
      · cases h
      · rename_i room
        split at h
        · cases h
          exact .requestApproval (by omega)
        · cases h
  | finish turn outcome =>
      simp only [apply] at h
      split at h
      · exact finish_saves (map_some_ok h)
      · cases h
  | uncertain message =>
      have same : ({ r with status := .recoveryRequired } : Run).expire.lastAttempt =
          r.lastAttempt := rfl
      simp only [apply, same] at h
      cases h
      cases last : r.lastAttempt with
      | some a => exact .uncertain last
      | none => exact .uncertainNew last
  | reconciled outcome message =>
      cases h
      exact .reconciled

end Change

end Mathmodel
