import Mathmodel.Backend.World

/-!
# Runtime connections

The part of `Codex` that writes to the child process and takes the connection
down, together with the service functions it calls back: a failed connection
emits `fault`, whose listener marks the run uncertain and releases the runtime.
-/

namespace Mathmodel

open M

namespace Service

/-- Record that the outcome of the current attempt is unknown. -/
def uncertain (env : Env) (id message : String) : M Unit := do
  let r ← loadRun id
  if r.status.isTerminal || r.status == .recoveryRequired then pure ()
  else update env id (.uncertain message) .service

/-- The `fault` listener that `execute` attaches. -/
def onFault (env : Env) (id : String) (g : Nat) : M Unit := do
  let w ← get
  if w.live.lookup id = some g then do
    uncertain env id "Runtime connection lost; external effects may have occurred"
    background (.release id g)
  else pure ()

end Service

namespace Codex

/-- Reject every pending request, forget the approvals and emit `fault`. -/
def fail (env : Env) (g : Nat) (e : Err) : M Unit := do
  let w ← get
  if (w.codex g).closed then pure ()
  else do
    modifyCodex g fun c => { c with closed := true, pending := [], approvals := [] }
    modify fun w => { w with tasks := w.tasks.map (Task.reject g e) }
    match (w.codex g).listener with
    | some id => Service.onFault env id g
    | none => pure ()

def send (env : Env) (g : Nat) (message : Outbound) : M Unit := do
  let w ← get
  let c := w.codex g
  let stdin := env.stdin g c.sends
  modifyCodex g fun c => { c with sends := c.sends + 1 }
  if c.closed ∨ c.process ≠ .running ∨ stdin.writable = false then
    throw (.error "Codex is disconnected")
  else if 2097152 < message.size ∨ 2097152 < stdin.length then
    throw (.error "Codex outbound limit exceeded")
  else record (.wrote g message)

/-- Issue a request whose reply continues at `frame`. On a closed connection
the promise is already rejected. -/
def request (env : Env) (g : Nat) (call : Rpc) (frame : Frame) : M Unit := do
  let w ← get
  if (w.codex g).closed then push ⟨frame, .ready (.error (.error "Codex is disconnected"))⟩
  else do
    let n := (w.codex g).sequence + 1
    modifyCodex g fun c => { c with sequence := n, pending := c.pending ++ [(n, call)] }
    push ⟨frame, .reply g n⟩
    tryCatch (send env g (.request n call)) (fail env g)

def respond (env : Env) (g : Nat) (request : MapKey) (decision : Decision) : M Unit := do
  let w ← get
  if request ∉ (w.codex g).approvals then
    throw (.error "Approval is no longer pending on this connection")
  else do
    send env g (.decision request decision)
    modifyCodex g fun c => { c with approvals := c.approvals.filter (· ≠ request) }

/-- Spawn the child process and ask it to initialize; `caller` awaits the
handshake. An exception in an async function is a rejected promise. -/
def connect (env : Env) (g : Nat) (launch : Launch) (caller : Caller) : M Unit := do
  let w ← get
  if (w.codex g).process ≠ .unspawned ∨ (w.codex g).closed then
    push ⟨.connected g caller, .ready (.error (.error "Codex connection cannot be reused"))⟩
  else match launch.spawn with
    | some message => push ⟨.connected g caller, .ready (.error (.error message))⟩
    | none => do
        modifyCodex g fun c => { c with process := .running }
        request env g .initializeRuntime (.handshake g caller)

end Codex

namespace Service

/-- Detach the listeners and close the runtime; the slot stays taken until the
process has exited. `closing` marks the release that `close()` awaits. -/
def release (env : Env) (id : String) (g : Nat) (closing : Bool) : M Unit := do
  modifyCodex g fun c => { c with listener := none }
  Codex.fail env g (.error "Codex connection closed by owner")
  let w ← get
  push ⟨.released id g closing,
    if (w.codex g).process = .running then .exit g else .ready (.ok .null)⟩

end Service

end Mathmodel
