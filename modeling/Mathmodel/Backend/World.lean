import Mathmodel.Backend.Change
import Mathmodel.Library.Program

/-!
# State of the service

One value holds the database, the `Service` object, every `Codex` adapter it
created, and the promise continuations that have not run yet. A task is an
async function stopped at an `await`: its `Frame` says where it continues and
its `Wait` says what settles the awaited promise.

`Purpose`, `created`, `lifetime` and `log` are proof-only. The log records, newest
first, what an observer outside the process sees: committed transactions, lines
written to a runtime, requests and replies received from it, and restarts. No
modelled operation reads it.
-/

namespace Mathmodel

/-- Client requests of the runtime protocol. -/
inductive Rpc where
  | initializeRuntime
  | threadStart (cwd : String)
  | turnStart (threadId : Option String) (task : ModelingTask)
  | turnInterrupt (threadId : Option String) (turnId : String)
  | threadRead (threadId : Option String)
  deriving DecidableEq

namespace Rpc

def nullable (value : Option String) : Json := (value.map Json.str).getD .null

def method : Rpc → String
  | .initializeRuntime => "initialize"
  | .threadStart _ => "thread/start"
  | .turnStart _ _ => "turn/start"
  | .turnInterrupt _ _ => "turn/interrupt"
  | .threadRead _ => "thread/read"

/-- The prompt of a turn. -/
def inputText (task : ModelingTask) : String :=
  task.title ++ "\n\n" ++ task.prompt ++ "\n\nAcceptance criteria:\n" ++
    "\n".intercalate (task.acceptanceCriteria.map ("- " ++ ·))

def params : Rpc → Json
  | .initializeRuntime => .obj
      [("clientInfo", .obj [("name", .str "mathmodel-agent"),
          ("title", .str "Mathmodel Agent"), ("version", .str "0.2.0")]),
        ("capabilities", .obj [("experimentalApi", .bool false)])]
  | .threadStart cwd => .obj
      [("cwd", .str cwd), ("sandbox", .str "workspace-write"),
        ("approvalPolicy", .str "on-request"), ("approvalsReviewer", .str "user"),
        ("developerInstructions", .str
          ("Work on the supplied modeling task. Keep calculations reproducible. " ++
          "State assumptions and uncertainties. Do not declare scientific acceptance; " ++
          "the caller reviews the result against explicit acceptance criteria."))]
  | .turnStart threadId task => .obj
      [("threadId", nullable threadId),
        ("input", .arr [.obj [("type", .str "text"), ("text", .str (inputText task))]])]
  | .turnInterrupt threadId turnId => .obj
      [("threadId", nullable threadId), ("turnId", .str turnId)]
  | .threadRead threadId => .obj
      [("threadId", nullable threadId), ("includeTurns", .bool true)]

end Rpc

/-- Messages the adapter writes to the runtime. -/
inductive Outbound where
  | request (id : Nat) (call : Rpc)
  | initialized
  | decision (request : MapKey) (decision : Decision)
  | unsupported (id : Json)
  deriving DecidableEq

def Outbound.toJson : Outbound → Json
  | .request id call => .obj
      [("id", .num (.ofNat id)), ("method", .str call.method), ("params", call.params)]
  | .initialized => .obj [("method", .str "initialized"), ("params", .obj [])]
  | .decision key answer => .obj
      [("id", key.value),
        ("result", .obj [("decision", .str (RunOp.decisionText answer))])]
  | .unsupported id => .obj
      [("id", id), ("error", .obj [("code", .num ⟨"-32601", Number.printed_unsupported⟩),
        ("message", .str "This interaction is not supported by Mathmodel Agent core")])]

/-- Bytes of a message on the wire, newline included. -/
def Outbound.size (message : Outbound) : Nat :=
  (message.toJson.write id).foldr (fun c n => c.utf8Size + n) 1

/-- Child process of an adapter. A failed `spawn` leaves it `unspawned`. -/
inductive Process where
  | unspawned | running | exited
  deriving DecidableEq, Repr

/-- What a runtime was created for: an attempt of a run, or reading the history of a run. -/
inductive Purpose where
  | execution (runId : String) (attempt : Nat)
  | inspection (runId : String)
  deriving DecidableEq

/-- State of one `Codex` adapter. `listener` is the run whose `fault`,
`notification` and `approval` listeners are attached. -/
structure Codex where
  generation : String
  purpose : Purpose
  pending : List (Nat × Rpc)
  approvals : List MapKey
  sequence : Nat
  buffer : List Char
  frames : Nat
  sends : Nat
  closed : Bool
  process : Process
  listener : Option String

def Codex.fresh (generation : String) (purpose : Purpose) : Codex :=
  { generation, purpose, pending := [], approvals := [], sequence := 0, buffer := [],
    frames := 0, sends := 0, closed := false, process := .unspawned, listener := none }

/-- An adapter that no longer exists: not yet created, or lost in a restart. -/
def Codex.absent : Codex := { Codex.fresh "" (.inspection "") with closed := true }

/-- The async function that awaits `connect()`. -/
inductive Caller where
  | execute (id : String) (attempt : Nat) (directory : String)
  | reconcile (id : String) (attempt : Option Attempt)
  deriving DecidableEq

/-- Where an async function continues. The first four have not started; the
others are stopped at the `await` they are named after. -/
inductive Frame where
  | schedule
  | release (id : String) (runtime : Nat)
  | cancel (id : String)
  | reconcile (id : String)
  | handshake (runtime : Nat) (caller : Caller)
  | connected (runtime : Nat) (caller : Caller)
  | threadStarted (id : String) (runtime : Nat) (attempt : Nat)
  | turnStarted (id : String) (runtime : Nat) (attempt : Nat)
  | interrupted (id : String)
  | threadRead (id : String) (runtime : Nat) (attempt : Attempt)
  | released (id : String) (runtime : Nat) (closing : Bool)
  deriving DecidableEq

/-- The awaited promise: settled, settled by the reply to a request of a
runtime, or settled by the exit of its process. -/
inductive Wait where
  | ready (result : Except Err Json)
  | reply (runtime : Nat) (request : Nat)
  | exit (runtime : Nat)

structure Task where
  frame : Frame
  wait : Wait

namespace Task

def isReady (t : Task) : Bool :=
  match t.wait with
  | .ready _ => true
  | _ => false

/-- The promise of one request is settled. -/
def settle (runtime request : Nat) (result : Except Err Json) (t : Task) : Task :=
  match t.wait with
  | .reply g n => if g = runtime ∧ n = request then { t with wait := .ready result } else t
  | _ => t

/-- Every request of a failed runtime is rejected. -/
def reject (runtime : Nat) (e : Err) (t : Task) : Task :=
  match t.wait with
  | .reply g _ => if g = runtime then { t with wait := .ready (.error e) } else t
  | _ => t

/-- The process of the runtime has exited. -/
def exit (runtime : Nat) (t : Task) : Task :=
  match t.wait with
  | .exit g => if g = runtime then { t with wait := .ready (.ok .null) } else t
  | _ => t

def awaits (runtime request : Nat) (t : Task) : Bool :=
  match t.wait with
  | .reply g n => g == runtime && n == request
  | _ => false

end Task

/-- Where a transaction on a run comes from: the service itself, a message of a
runtime, or the history that a runtime returned for `thread/read`. -/
inductive Via where
  | service
  | runtime (g : Nat)
  | history (g : Nat) (response : Json)

inductive Origin where
  | command (command : Command) (replay : Bool)
  | update (id : String) (change : Change) (via : Via)

/-- Observable events of the whole system. -/
inductive Entry where
  | commit (origin : Origin) (before after : Db)
  | opened (runtime : Nat) (purpose : Purpose)
  | wrote (runtime : Nat) (message : Outbound)
  | requested (runtime : Nat) (request : MapKey)
  | replied (runtime : Nat) (call : Rpc) (result : Json)
  | restarted

structure World where
  db : Db
  live : AList fun _ : String => Nat
  stopping : Bool
  codex : Nat → Codex
  created : Nat
  lifetime : Nat
  tasks : List Task
  uuids : Nat
  launches : Nat
  clock : Nat
  log : List Entry

namespace World

def init : World :=
  { db := .empty, live := ∅, stopping := false, codex := fun _ => .absent, created := 0,
    lifetime := 0, tasks := [], uuids := 0, launches := 0, clock := 0, log := [] }

def setCodex (w : World) (g : Nat) (f : Codex → Codex) : World :=
  { w with codex := Function.update w.codex g (f (w.codex g)) }

end World

/-- State of `process.stdin` at one call of `send`. -/
structure Stdin where
  writable : Bool
  length : Nat

/-- Outcome of the file system and process calls made when a runtime is
started: the resolved workspace directory, and the errors that the factory and
`spawn` throw, if any. -/
structure Launch where
  directory : Except String String
  factory : Option String
  spawn : Option String

/-- The surroundings of the service: its libraries, the operating system and
the random identifiers, which never repeat. -/
structure Env where
  parse : String → Except String Json
  sha256 : String → String
  uuid : Nat → String
  uuid_injective : Function.Injective uuid
  stdin : Nat → Nat → Stdin
  launch : Nat → Launch
  moment : Nat → Moment
  workspaceRoot : String

/-- Synchronous sections of the service. -/
abbrev M := Program Err World

namespace M

def modifyCodex (g : Nat) (f : Codex → Codex) : M Unit := modify fun w => w.setCodex g f

def record (e : Entry) : M Unit := modify fun w => { w with log := e :: w.log }

def push (t : Task) : M Unit := modify fun w => { w with tasks := w.tasks ++ [t] }

/-- Start an async function that other code does not await. -/
def background (frame : Frame) : M Unit := push ⟨frame, .ready (.ok .null)⟩

def loadRun (id : String) : M Run := do
  let w ← get
  Program.lift (w.db.run id)

/-- The transaction `store.update(id, ...)`. -/
def update (env : Env) (id : String) (change : Change) (via : Via) : M Unit := do
  let w ← get
  match w.db.update (env.moment w.clock) id change with
  | .error e => throw e
  | .ok db => modify fun w =>
      { w with db := db, log := .commit (.update id change via) w.db db :: w.log }

def randomUUID (env : Env) : M String := do
  let w ← get
  modify fun w => { w with uuids := w.uuids + 1 }
  pure (env.uuid w.uuids)

end M

end Mathmodel
