import Mathmodel.Backend.Store

/-!
# Changes of a run

Every write of a run goes through a callback that receives the freshly loaded
record and either throws, returns without saving, or saves once. `Change` names
these callbacks, one constructor for each place of the service that writes a
run, and `Change.apply` is what the callback does with the record.

Values that come from the runtime are untyped when a callback assigns them; the
schema check of the save rejects the ones that do not fit the field.
-/

namespace Mathmodel

/-- A run with the event under which it is saved. -/
structure Saved where
  run : Run
  type : EventType
  payload : Json

def RunStatus.isActive : RunStatus → Bool
  | .queued | .starting | .running | .waitingApproval | .cancelling => true
  | _ => false

def RunStatus.isTerminal : RunStatus → Bool
  | .completed | .failed | .cancelled | .awaitingReview => true
  | _ => false

/-- Statuses that hold the single execution slot. -/
def RunStatus.isOccupied (s : RunStatus) : Bool := s.isActive || s == .recoveryRequired

namespace Run

def expire (r : Run) : Run :=
  { r with approvals := r.approvals.map fun a =>
      if a.status = .pending then { a with status := .expired } else a }

/-- The last attempt, for code that dereferences it. -/
def attempt (r : Run) (name : String) : Except Err Attempt :=
  match r.lastAttempt with
  | some a => pure a
  | none => throw (.error ("Cannot read properties of undefined (reading '" ++ name ++ "')"))

end Run

/-- Replace the first element that satisfies `p`. -/
def replaceFirst {α : Type} (p : α → Bool) (f : α → α) : List α → List α
  | [] => []
  | a :: rest => if p a then f a :: rest else a :: replaceFirst p f rest

/-- Assignment of a runtime value to a field that holds an identifier or `null`. -/
def nullableId (m : Moment) (value : Option Json) : Except Err (Option String) :=
  match value with
  | some .null => pure none
  | some (.str s) => if isId s then pure (some s) else throw (m.schemaError "run")
  | _ => throw (m.schemaError "run")

/-- What a command handler reads besides the run: whether a runtime is live,
whether some run holds the slot, and the live runtime of this run. -/
structure View where
  connected : Bool
  occupied : Bool
  runtime : Option (String × List MapKey)

namespace RunOp

def queue (view : View) (allowed : List RunStatus) (r : Run) : Except Err Saved :=
  if r.status ∉ allowed then conflict "Run cannot be started from this state"
  else if 1000 ≤ r.attempts.length then conflict "Attempt limit reached"
  else if view.connected || view.occupied then
    conflict "Another execution is active or needs reconciliation"
  else pure ⟨{ r with status := .queued, review := none }, .runQueued, .obj []⟩

def decisionText : Decision → String
  | .accept => "accept"
  | .decline => "decline"

def reviewText : ReviewDecision → String
  | .accept => "accept"
  | .reject => "reject"

/-- The pending approval the command names, if the live runtime still waits for it. -/
def answerable (view : View) (approvalId : String) (r : Run) : Option Approval :=
  match r.approvals.find? (·.approvalId == approvalId), view.runtime with
  | some approval, some (generation, requests) =>
      if r.status = .waitingApproval ∧ approval.status = .pending ∧
          generation = approval.generation ∧ .scalar approval.requestId ∈ requests
      then some approval else none
  | _, _ => none

/-- The `switch` of `Service.command`. -/
def apply (m : Moment) (view : View) (r : Run) : RunOp → Except Err Saved
  | .start => queue view [.ready] r
  | .retry => queue view [.failed, .cancelled] r
  | .cancel =>
      if r.status = .ready ∨ r.status = .queued then
        pure ⟨{ r with status := .cancelled }, .runCancelled, .obj []⟩
      else if r.status = .starting ∨ r.status = .running ∨ r.status = .waitingApproval then
        pure ⟨{ r with status := .cancelling }.expire, .runCancelling, .obj []⟩
      else conflict "Run cannot be cancelled from this state"
  | .resolve approvalId decision =>
      match answerable view approvalId r with
      | none => conflict "Approval is stale or unavailable"
      | some approval =>
          let status := if decision = .accept then ApprovalStatus.accepted else .declined
          let approvals := replaceFirst (·.approvalId == approvalId)
            (fun a => { a with status := status }) r.approvals
          let r := { r with approvals := approvals }
          pure ⟨{ r with status := if r.hasPending then .waitingApproval else .running },
            .approvalResolved,
            .obj [("approval_id", .str approval.approvalId),
              ("decision", .str (decisionText decision))]⟩
  | .review decision comment =>
      if r.status ≠ .awaitingReview then conflict "There is no completed result to review"
      else do
        let attempt ← r.attempt "status"
        let accepted := decision = .accept
        pure ⟨{ r.setLast { attempt with
              status := if accepted then .completed else .rejected } with
            review := some ⟨decision, comment, m.time⟩
            status := if accepted then .completed else .failed },
          .runReviewed,
          .obj [("decision", .str (reviewText decision)), ("comment", .str comment),
            ("at", .str m.time)]⟩
  | .reconcile =>
      if r.status ≠ .recoveryRequired ∨ view.connected then
        conflict "Run does not need reconciliation or runtime is still connected"
      else if (r.lastAttempt.bind (·.threadId)).isNone then
        conflict "No durable runtime identity; inspect manually"
      else pure ⟨r, .runReconciled, .obj [("outcome", .str "inspection_requested")]⟩

end RunOp

/-- How a reported turn ends the attempt. -/
inductive TurnOutcome where
  | awaitingReview | failed | cancelled
  deriving DecidableEq, Repr

namespace TurnOutcome

def runStatus : TurnOutcome → RunStatus
  | .awaitingReview => .awaitingReview
  | .failed => .failed
  | .cancelled => .cancelled

def attemptStatus : TurnOutcome → AttemptStatus
  | .awaitingReview => .awaitingReview
  | .failed => .failed
  | .cancelled => .cancelled

def eventType : TurnOutcome → EventType
  | .awaitingReview => .runAwaitingReview
  | .failed => .runFailed
  | .cancelled => .runCancelled

/-- The table `statuses` of `finish`. -/
def table : List (String × TurnOutcome) :=
  [("completed", .awaitingReview), ("failed", .failed), ("interrupted", .cancelled)]

end TurnOutcome

/-- Items of a turn that are agent messages; reading a `null` item throws. -/
def agentMessages : List Json → Except Err (List Json)
  | [] => pure []
  | item :: rest => do
      let type ← Json.read (some item) "type"
      let others ← agentMessages rest
      pure (if type = some (.str "agentMessage") then item :: others else others)

/-- The last agent message of `turn.items`. -/
def finalMessage (items : Option Json) : Except Err (Option Json) :=
  match items with
  | none | some .null => pure none
  | some (.arr items) => return (← agentMessages items).getLast?
  | some _ => throw (.error "turn.items?.filter is not a function")

/-- The kinds of approval the adapter supports, as `Codex.message` looks them up. -/
def approvalKinds : List (String × ApprovalKind) :=
  [("item/commandExecution/requestApproval", .command),
    ("item/fileChange/requestApproval", .fileChange)]

/-- The places of the service that write a run. -/
inductive Change where
  | command (view : View) (op : RunOp)
  | startAttempt
  | bindThread (threadId : Option Json)
  | cancelBeforeTurn
  | failBeforeDispatch (message : String)
  | bindTurn (turnId : Option Json)
  | resolvedByRuntime (requestId : Option Json)
  | completedItem (item : Option Json)
  | requestApproval (approvalId : String) (attempt : Nat) (kind : Lookup ApprovalKind)
      (requestId : Json) (generation : String) (details : Json)
  | finish (turn : Json) (outcome : Lookup TurnOutcome)
  | uncertain (message : String)
  | reconciled (outcome message : String)

namespace Change

def newAttempt (m : Moment) (r : Run) : Attempt :=
  { attempt := r.attempts.length + 1
    threadId := none
    turnId := none
    status := .starting
    result := ""
    error := none
    createdAt := m.time
    finishedAt := none }

/-- Text of the final message, kept when the runtime reports none. -/
def resultText (m : Moment) (attempt : Attempt) (final : Option Json) : Except Err String :=
  match Json.chain final "text" with
  | some (.str s) => pure (if s = "" then attempt.result else slice s 1000000)
  | text => if Json.truthy text then throw (m.schemaError "run") else pure attempt.result

def finishRun (m : Moment) (turn : Json) (outcome : TurnOutcome) (r : Run) :
    Except Err Saved := do
  let attempt ← r.attempt "turn_id"
  let final ← finalMessage (turn.get "items")
  let result ← resultText m attempt final
  let turnId ← nullableId m (turn.get "id")
  let attempt := { attempt with
    turnId := turnId
    status := outcome.attemptStatus
    finishedAt := some m.time
    error := if Json.truthy (turn.get "error")
      then some "Codex turn failed; inspect the runtime locally" else none
    result := result }
  pure ⟨{ r.setLast attempt with status := outcome.runStatus }.expire, outcome.eventType,
    .obj [("runtime_status", (turn.get "status").getD .null)]⟩

/-- The summary of a completed tool item. -/
def itemPayload (item : Option Json) : Json :=
  .obj [("item_id", Json.orElse (Json.chain item "id") (.str "unknown")),
    ("kind", Json.orElse (Json.chain item "type") (.str "unknown")),
    ("status", Json.orElse (Json.chain item "status") .null),
    ("exit_code", Json.orElse (Json.chain item "exitCode") .null)]

/-- A member that is dropped from the text when its value is `undefined`. -/
def member (name : String) (value : Option Json) : List (String × Json) :=
  (value.map fun v => (name, v)).toList

/-- What the callback saves for the loaded run; `none` returns without saving. -/
def apply (m : Moment) (r : Run) : Change → Except Err (Option Saved)
  | .command view op => (op.apply m view r).map some
  | .startAttempt =>
      if r.status ≠ .queued then conflict "Run no longer queued"
      else pure (some ⟨{ r with
        status := .starting, attempts := r.attempts ++ [newAttempt m r] },
        .attemptStarting, .obj []⟩)
  | .bindThread threadId => do
      let attempt ← r.attempt "thread_id"
      let threadId' ← nullableId m threadId
      pure (some ⟨r.setLast { attempt with threadId := threadId' }, .runtimeBound,
        .obj (member "thread_id" threadId)⟩)
  | .cancelBeforeTurn => do
      let attempt ← r.attempt "status"
      pure (some ⟨{ r.setLast { attempt with
          status := .cancelled, finishedAt := some m.time } with status := .cancelled },
        .runCancelled, .obj []⟩)
  | .failBeforeDispatch message => do
      let attempt ← r.attempt "status"
      pure (some ⟨{ r.setLast { attempt with
          status := .failed, error := some (slice message 2000),
          finishedAt := some m.time } with status := .failed }.expire,
        .runFailed, .obj [("reason", .str "pre_dispatch_failure")]⟩)
  | .bindTurn turnId => do
      let attempt ← r.attempt "turn_id"
      match attempt.turnId with
      | some bound =>
          if turnId = some (.str bound) then pure none
          else throw (.error "Unexpected runtime turn")
      | none => do
          let turnId' ← nullableId m turnId
          pure (some ⟨{ r.setLast { attempt with turnId := turnId', status := .running } with
              status := if r.status = .starting then .running else r.status },
            .runtimeStarted, .obj (member "turn_id" turnId)⟩)
  | .resolvedByRuntime requestId =>
      let matching := fun a : Approval => some a.requestId == requestId && a.status == .pending
      match r.approvals.find? matching with
      | none => pure none
      | some approval =>
          let approvals := replaceFirst matching
            (fun a => { a with status := .expired }) r.approvals
          let r := { r with approvals := approvals }
          pure (some ⟨{ r with status :=
              if r.status = .waitingApproval ∧ ¬r.hasPending then .running else r.status },
            .approvalResolved,
            .obj [("approval_id", .str approval.approvalId),
              ("decision", .str "expired_by_runtime")]⟩)
  | .completedItem item =>
      match Json.chain item "type", Json.chain item "text" with
      | some (.str "agentMessage"), some (.str text) => do
          let attempt ← r.attempt "result"
          pure (some ⟨r.setLast { attempt with result := slice text 1000000 }, .runtimeMessage,
            .obj (member "item_id" (Json.chain item "id") ++
              [("text", .str (slice text 1000000))])⟩)
      | _, _ => pure (some ⟨r, .runtimeItem, itemPayload item⟩)
  | .requestApproval approvalId attempt kind requestId generation details =>
      if 1000 ≤ r.approvals.length then throw (.error "Approval history limit exceeded")
      else match kind with
        | .own kind =>
            let approval : Approval :=
              { approvalId, attempt, kind, requestId, generation, status := .pending,
                details := details.stored, createdAt := m.time }
            pure (some ⟨{ r with
                approvals := r.approvals ++ [approval], status := .waitingApproval },
              .approvalRequested, .obj [("approval_id", .str approvalId)]⟩)
        | _ => throw (m.schemaError "run")
  | .finish turn outcome =>
      match outcome with
      | .own outcome => (finishRun m turn outcome r).map some
      | _ => throw (m.schemaError "run")
  | .uncertain message =>
      let failed := fun a : Attempt =>
        { a with status := .recoveryRequired, error := some (slice message 2000) }
      let r := { r with status := .recoveryRequired }.expire
      pure (some ⟨(match r.lastAttempt with
          | some a => r.setLast (failed a)
          | none => r),
        .runRecoveryRequired, .obj [("message", .str (slice message 2000))]⟩)
  | .reconciled outcome message =>
      pure (some ⟨r, .runReconciled,
        .obj [("outcome", .str outcome), ("message", .str message)]⟩)

end Change

namespace Db

/-- Load the run, apply the change and save what it returns, in one transaction. -/
def update (db : Db) (m : Moment) (id : String) (change : Change) : Except Err Db := do
  let r ← db.run id
  match ← change.apply m r with
  | none => pure db
  | some saved => return (← db.save m saved.run saved.type saved.payload).2

end Db

end Mathmodel
