import Mathmodel.Json.Basic

/-!
# Business objects and their schema

The records of `contracts/v2/core.schema.json` that the service stores, and
the commands it accepts. Enumerations and nullable fields are types, so only
the remaining constraints of the schema (patterns, lengths, list bounds) are
left to `Valid`. Identifiers produced by `randomUUID` and timestamps produced
by `toISOString` always match their formats and carry no check here.
-/

namespace Mathmodel

inductive RunStatus where
  | ready | queued | starting | running | waitingApproval | awaitingReview
  | completed | failed | cancelling | cancelled | recoveryRequired
  deriving DecidableEq, Repr

inductive AttemptStatus where
  | starting | running | awaitingReview | completed | failed | cancelled
  | recoveryRequired | rejected
  deriving DecidableEq, Repr

inductive ApprovalKind where
  | command | fileChange
  deriving DecidableEq, Repr

inductive ApprovalStatus where
  | pending | accepted | declined | expired
  deriving DecidableEq, Repr

inductive Decision where
  | accept | decline
  deriving DecidableEq, Repr

inductive ReviewDecision where
  | accept | reject
  deriving DecidableEq, Repr

/-- The pattern `^[A-Za-z0-9][A-Za-z0-9._:-]{0,127}$`. -/
def isId (text : String) : Bool :=
  match text.toList with
  | [] => false
  | c :: cs => c.isAlphanum && cs.length ≤ 127 &&
      cs.all fun d => d.isAlphanum || d == '.' || d == '_' || d == ':' || d == '-'

structure ModelingTask where
  title : String
  prompt : String
  acceptanceCriteria : List String
  deriving DecidableEq

def ModelingTask.Valid (t : ModelingTask) : Prop :=
  (1 ≤ t.title.length ∧ t.title.length ≤ 200) ∧
  (1 ≤ t.prompt.length ∧ t.prompt.length ≤ 16000) ∧
  (1 ≤ t.acceptanceCriteria.length ∧ t.acceptanceCriteria.length ≤ 20) ∧
  ∀ item ∈ t.acceptanceCriteria, 1 ≤ item.length ∧ item.length ≤ 200

instance (t : ModelingTask) : Decidable t.Valid := by
  unfold ModelingTask.Valid
  infer_instance

structure Project where
  projectId : String
  name : String
  createdAt : String
  deriving DecidableEq

structure Approval where
  approvalId : String
  attempt : Nat
  kind : ApprovalKind
  requestId : Json
  generation : String
  status : ApprovalStatus
  details : Json
  createdAt : String
  deriving DecidableEq

def Json.isRequestId : Json → Bool
  | .str _ => true
  | .num n => n.isInteger
  | _ => false

def Json.isObject : Json → Bool
  | .obj _ => true
  | _ => false

@[simp] theorem Json.isObject_stored (v : Json) : v.stored.isObject = v.isObject := by
  cases v <;> rfl

def Approval.Valid (a : Approval) : Prop :=
  1 ≤ a.attempt ∧ a.requestId.isRequestId = true ∧ a.details.isObject = true

instance (a : Approval) : Decidable a.Valid := by
  unfold Approval.Valid
  infer_instance

structure Attempt where
  attempt : Nat
  threadId : Option String
  turnId : Option String
  status : AttemptStatus
  result : String
  error : Option String
  createdAt : String
  finishedAt : Option String
  deriving DecidableEq

def Attempt.Valid (a : Attempt) : Prop :=
  1 ≤ a.attempt ∧ (∀ t ∈ a.threadId, isId t = true) ∧ (∀ t ∈ a.turnId, isId t = true) ∧
  a.result.length ≤ 1000000 ∧ ∀ e ∈ a.error, e.length ≤ 2000

instance (a : Attempt) : Decidable a.Valid := by
  unfold Attempt.Valid
  infer_instance

structure Review where
  decision : ReviewDecision
  comment : String
  time : String
  deriving DecidableEq

structure Run where
  runId : String
  projectId : String
  task : ModelingTask
  status : RunStatus
  stateVersion : Nat
  lastSequence : Nat
  attempts : List Attempt
  approvals : List Approval
  review : Option Review
  createdAt : String
  updatedAt : String
  deriving DecidableEq

namespace Run

/-- What `validate("run", run)` checks beyond the types of the fields. -/
def Valid (r : Run) : Prop :=
  r.task.Valid ∧ 1 ≤ r.stateVersion ∧ 1 ≤ r.lastSequence ∧
  (r.attempts.length ≤ 1000 ∧ ∀ a ∈ r.attempts, a.Valid) ∧
  (r.approvals.length ≤ 1000 ∧ ∀ a ∈ r.approvals, a.Valid) ∧
  ∀ v ∈ r.review, v.comment.length ≤ 4000

instance (r : Run) : Decidable r.Valid := by
  unfold Valid
  infer_instance

/-- The entry `attempts.at(-1)`. -/
def lastAttempt (r : Run) : Option Attempt := r.attempts.getLast?

/-- Replace `attempts.at(-1)`. -/
def setLast (r : Run) (a : Attempt) : Run := { r with attempts := r.attempts.dropLast ++ [a] }

/-- Some approval still waits for a decision. -/
def hasPending (r : Run) : Bool := r.approvals.any (·.status == .pending)

end Run

inductive EventType where
  | runCreated | runQueued | attemptStarting | runtimeBound | runtimeStarted
  | runtimeMessage | runtimeItem | approvalRequested | approvalResolved
  | runCancelling | runCancelled | runFailed | runRecoveryRequired
  | runReconciled | runAwaitingReview | runReviewed
  deriving DecidableEq, Repr

structure Event where
  runId : String
  sequence : Nat
  stateVersion : Nat
  type : EventType
  time : String
  payload : Json
  deriving DecidableEq

/-! ## Commands -/

/-- Commands on an existing run. -/
inductive RunOp where
  | start
  | cancel
  | retry
  | reconcile
  | resolve (approvalId : String) (decision : Decision)
  | review (decision : ReviewDecision) (comment : String)
  deriving DecidableEq

inductive Request where
  | createProject (name : String)
  | createRun (projectId : String) (task : ModelingTask)
  | onRun (runId : String) (expectedVersion : Number) (op : RunOp)
  deriving DecidableEq

structure Command where
  idempotencyKey : String
  request : Request
  deriving DecidableEq

namespace Command

/-- No property besides `names`, as `additionalProperties: false` demands. -/
def only (fields : List (String × Json)) (names : List String) : Bool :=
  fields.all fun field => names.contains field.1

def idField (fields : List (String × Json)) (name : String) : Option String :=
  match fields.lookup name with
  | some (.str s) => if isId s then some s else none
  | _ => none

def textField (fields : List (String × Json)) (name : String) (least most : Nat) :
    Option String :=
  match fields.lookup name with
  | some (.str s) => if least ≤ s.length ∧ s.length ≤ most then some s else none
  | _ => none

def versionField (fields : List (String × Json)) : Option Number :=
  match fields.lookup "expected_version" with
  | some (.num n) => if n.isInteger && n.isPositive then some n else none
  | _ => none

/-- The strings of an array, or `none` when some element is not a string. -/
def strings : List Json → Option (List String)
  | [] => some []
  | .str s :: rest => (strings rest).map (s :: ·)
  | _ :: _ => none

def taskField (fields : List (String × Json)) : Option ModelingTask :=
  match fields.lookup "task" with
  | some (.obj task) => do
      if only task ["title", "prompt", "acceptance_criteria"] then
        let title ← textField task "title" 1 200
        let prompt ← textField task "prompt" 1 16000
        match task.lookup "acceptance_criteria" with
        | some (.arr items) =>
            let criteria ← strings items
            if 1 ≤ criteria.length ∧ criteria.length ≤ 20 ∧
                (∀ item ∈ criteria, 1 ≤ item.length ∧ item.length ≤ 200) then
              some ⟨title, prompt, criteria⟩
            else none
        | _ => none
      else none
  | _ => none

def decisionField (fields : List (String × Json)) : Option Decision :=
  match fields.lookup "decision" with
  | some (.str s) =>
      if s = "accept" then some .accept else if s = "decline" then some .decline else none
  | _ => none

def reviewField (fields : List (String × Json)) : Option ReviewDecision :=
  match fields.lookup "decision" with
  | some (.str s) =>
      if s = "accept" then some .accept else if s = "reject" then some .reject else none
  | _ => none

/-- Properties that every command on a run carries. -/
def runFields : List String := ["command", "idempotency_key", "run_id", "expected_version"]

def onRun (fields : List (String × Json)) (extra : List String) (op : Option RunOp) :
    Option Request := do
  if only fields (runFields ++ extra) then
    let runId ← idField fields "run_id"
    let version ← versionField fields
    let op ← op
    some (.onRun runId version op)
  else none

/-- The alternative of the `oneOf` that the property `command` selects. -/
def requestOf (fields : List (String × Json)) : Option Request :=
  match fields.lookup "command" with
  | some (.str "create_project") => do
      if only fields ["command", "idempotency_key", "name"] then
        let name ← textField fields "name" 1 200
        some (.createProject name)
      else none
  | some (.str "create_run") => do
      if only fields ["command", "idempotency_key", "project_id", "task"] then
        let projectId ← idField fields "project_id"
        let task ← taskField fields
        some (.createRun projectId task)
      else none
  | some (.str "start_run") => onRun fields [] (some .start)
  | some (.str "cancel_run") => onRun fields [] (some .cancel)
  | some (.str "retry_run") => onRun fields [] (some .retry)
  | some (.str "reconcile_run") => onRun fields [] (some .reconcile)
  | some (.str "resolve_approval") =>
      onRun fields ["approval_id", "decision"] (do
        let approvalId ← idField fields "approval_id"
        let decision ← decisionField fields
        some (.resolve approvalId decision))
  | some (.str "review_run") =>
      onRun fields ["decision", "comment"] (do
        let decision ← reviewField fields
        let comment ← textField fields "comment" 0 4000
        some (.review decision comment))
  | _ => none

/-- Read a body that satisfies the `command` schema; `none` is a schema error. -/
def ofJson : Json → Option Command
  | .obj fields => do
      let key ← idField fields "idempotency_key"
      let request ← requestOf fields
      some ⟨key, request⟩
  | _ => none

end Command

end Mathmodel
