import Mathmodel.Backend.Jobs

/-!
# The service as a transition system

`step` is one synchronous section: a command of a client, a continuation of a
task whose promise is settled, an event of a child process, a shutdown request,
or the loss of the process followed by a restart. `Step` lets every section
happen whenever it is possible. `NodeStep` adds the rule of the event loop, that
an event is handled only when no settled continuation is left to run.
-/

namespace Mathmodel

open M

namespace Service

def schedule : M Unit := do
  let w ← get
  if w.stopping then pure () else background .schedule

/-- What the handler of a command on a run reads besides the run. -/
def view (w : World) (id : String) : View :=
  { connected := w.live.entries ≠ []
    occupied := w.db.allRuns.any (·.status.isOccupied)
    runtime := (w.live.lookup id).map fun g => ((w.codex g).generation, (w.codex g).approvals) }

/-- Handler of a command on a run: check the version, then apply the command. -/
def runCommand (w : World) (m : Moment) (id : String) (expected : Number) (op : RunOp) :
    Except Err (ReceiptValue × Db) := do
  let r ← w.db.run id
  if Number.ofNat r.stateVersion ≠ expected then conflict "Stale run version; reload state"
  else do
    let saved ← op.apply m (view w id) r
    let (r, db) ← w.db.save m saved.run saved.type saved.payload
    pure (.run r, db)

/-- The run that `create_run` stores. -/
def newRun (m : Moment) (id projectId : String) (task : ModelingTask) : Run :=
  { runId := id, projectId, task, status := .ready, stateVersion := 0, lastSequence := 0,
    attempts := [], approvals := [], review := none, createdAt := m.time, updatedAt := m.time }

/-- The function that `store.command` runs inside its transaction. -/
def handle (env : Env) (w : World) (m : Moment) : Request → Except Err (ReceiptValue × Db)
  | .createProject name =>
      let p : Project := ⟨env.uuid w.uuids, name, m.time⟩
      pure (.project p, w.db.addProject p)
  | .createRun projectId task => do
      let _ ← w.db.project projectId
      let (r, db) ← w.db.save m (newRun m (env.uuid w.uuids) projectId task) .runCreated (.obj [])
      pure (.run r, db)
  | .onRun id expected op => runCommand w m id expected op

/-- Pass a committed decision to the live runtime of the run. -/
def deliver (env : Env) (id : String) (approval : Option Approval) (decision : Decision) :
    M Unit := do
  let w ← get
  match w.live.lookup id, approval with
  | some g, some approval => Codex.respond env g (.scalar approval.requestId) decision
  | none, _ => throw (.error "Cannot read properties of undefined (reading 'respond')")
  | _, none => throw (.error "Cannot read properties of undefined (reading 'request_id')")

/-- The decision could not be delivered. -/
def deliveryFailed (env : Env) (id : String) : M Unit := do
  uncertain env id "Approval delivery outcome is unknown"
  let w ← get
  match w.live.lookup id with
  | some g => background (.release id g)
  | none => pure ()

/-- Effects outside the database, after the receipt was committed. -/
def effects (env : Env) (request : Request) (value : ReceiptValue) : M Unit := do
  match request, value with
  | .onRun id _ (.resolve approvalId decision), .run r =>
      tryCatch (deliver env id (r.approvals.find? (·.approvalId == approvalId)) decision)
        fun _ => deliveryFailed env id
  | .onRun id _ .cancel, .run r =>
      if r.status = .cancelling then background (.cancel id) else pure ()
  | .onRun id _ .reconcile, .run _ => background (.reconcile id)
  | _, _ => pure ()
  schedule

/-- Execute a command body. The receipt is committed before any external effect,
and a replay has none. -/
def command (env : Env) (body : Json) : M Db.Outcome := do
  let w ← get
  let m := env.moment w.clock
  match Command.ofJson body with
  | none => throw (m.schemaError "command")
  | some c =>
      let result := w.db.command c.idempotencyKey (env.sha256 body.canonical)
        (handle env w m c.request)
      if w.stopping then throw (.domain .runtimeUnavailable "Service is stopping")
      else match result with
        | .error e => throw e
        | .ok (outcome, db) => do
            modify fun w => { w with
              db := db
              uuids := w.uuids + 1
              log := .commit (.command c outcome.replay) w.db db :: w.log }
            if outcome.replay then pure () else effects env c.request outcome.value
            pure outcome

/-- Mark every run uncertain whose execution was under way, and reschedule. -/
def recoverRuns (env : Env) : List Run → M Unit
  | [] => pure ()
  | r :: rest => do
      if r.status.isActive = true ∧ r.status ≠ .queued then
        uncertain env r.runId "Service restarted; reconcile runtime history before continuing"
      else pure ()
      recoverRuns env rest

def recover (env : Env) : M Unit := do
  let w ← get
  recoverRuns env w.db.allRuns
  schedule

/-- The process is lost and a new one starts: only the database remains. -/
def restart (env : Env) : M Unit := do
  modify fun w => { w with
    live := ∅, stopping := false, codex := fun _ => .absent, lifetime := w.created,
    tasks := [], log := .restarted :: w.log }
  recover env

/-- Start of a shutdown. -/
def close (env : Env) : M Unit := do
  modify fun w => { w with stopping := true }
  closeLive env

/-- The child process has exited: its waiters continue and the connection fails. -/
def processClosed (env : Env) (g : Nat) : M Unit := do
  modifyCodex g fun c => { c with process := .exited }
  modify fun w => { w with tasks := w.tasks.map (Task.exit g) }
  Codex.fail env g (.error "Codex connection closed")

end Service

/-- Events that start a synchronous section. -/
inductive Action where
  | command (body : Json)
  | run (index : Nat)
  | chunk (runtime : Nat) (text : List Char)
  | stdinError (runtime : Nat)
  | processError (runtime : Nat)
  | timeout (runtime : Nat) (request : Nat)
  | processClose (runtime : Nat)
  | close
  | restart

namespace World

def tick (w : World) : World := { w with clock := w.clock + 1 }

/-- No continuation is left to run. -/
def Idle (w : World) : Prop := ∀ t ∈ w.tasks, t.isReady = false

end World

/-- A continuation of a settled promise. -/
def resumeTask (env : Env) (index : Nat) (w : World) : Option World :=
  match w.tasks[index]? with
  | some ⟨frame, .ready result⟩ =>
      some ((Service.resume env result frame).after
        { w with tasks := w.tasks.eraseIdx index })
  | _ => none

/-- The section of an event of a running child process. -/
def whileRunning (w : World) (g : Nat) (x : M Unit) : Option World :=
  if (w.codex g).process = .running then some (x.after w) else none

/-- The section that an action starts, if the action is possible. -/
def perform (env : Env) (w : World) : Action → Option World
  | .command body => some ((Service.command env body).after w)
  | .run index => resumeTask env index w
  | .chunk g text => whileRunning w g (Codex.receive env g text)
  | .stdinError g => whileRunning w g (Codex.fail env g (.error "Codex input closed"))
  | .processError g =>
      whileRunning w g (Codex.fail env g (.error "Codex process could not start"))
  | .timeout g n =>
      match (w.codex g).pending.lookup n with
      | some call => some ((Codex.fail env g (.error
          ("Codex RPC timeout: " ++ call.method ++ "; outcome may be unknown"))).after w)
      | none => none
  | .processClose g => whileRunning w g (Service.processClosed env g)
  | .close => some ((Service.close env).after w)
  | .restart => some ((Service.restart env).after w)

def step (env : Env) (w : World) (a : Action) : Option World :=
  (perform env w a).map World.tick

/-- Any section that is possible may come next. -/
def Step (env : Env) (w : World) (a : Action) (w' : World) : Prop := step env w a = some w'

/-- The event loop handles an event only when no continuation is left to run. A
crash needs no permission. -/
def Action.InTurn (w : World) : Action → Prop
  | .run _ | .restart => True
  | _ => w.Idle

def NodeStep (env : Env) (w : World) (a : Action) (w' : World) : Prop :=
  a.InTurn w ∧ Step env w a w'

end Mathmodel
