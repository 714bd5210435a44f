import Mathmodel.Backend.Messages

/-!
# Background jobs

The async functions of the service, cut at their `await`s. Each definition is
one synchronous section: it runs from a start or a settled promise to the next
`await`, where it leaves a task behind. A rejected promise continues in the
`catch` block of the function that awaits it.
-/

namespace Mathmodel

open M

namespace Service

/-- The `catch` block of `execute`. Before `connect()` resolved nothing was
dispatched, and the attempt has failed; afterwards its outcome is unknown. -/
def executeFailed (env : Env) (id : String) (runtime : Option Nat) (dispatched : Bool)
    (e : Err) : M Unit := do
  if dispatched then uncertain env id e.message
  else update env id (.failBeforeDispatch e.message) .service
  match runtime with
  | some g => release env id g false
  | none => pure ()

/-- Directory part of an absolute path. -/
def dirname (path : List Char) : List Char :=
  (path.reverse.dropWhile (· != '/')).tail.reverse

def workspace (env : Env) (projectId : String) (launch : Launch) : M String := do
  let w ← get
  let _ ← Program.lift (w.db.project projectId)
  match launch.directory with
  | .error message => throw (.error message)
  | .ok directory =>
      if dirname directory.toList ≠ env.workspaceRoot.toList then
        throw (.domain .invalidRequest "Project workspace escaped its root")
      else pure directory

/-- Results of the operating system for the next start of a runtime. -/
def nextLaunch (env : Env) : M Launch := do
  let w ← get
  modify fun w => { w with launches := w.launches + 1 }
  pure (env.launch w.launches)

/-- Create an adapter; its constructor verifies the registered executable. -/
def runtimeFactory (env : Env) (launch : Launch) (purpose : Purpose) : M Nat := do
  match launch.factory with
  | some message => throw (.error message)
  | none => do
      let generation ← randomUUID env
      let w ← get
      modify fun w => { w with
        codex := Function.update w.codex w.created (Codex.fresh generation purpose)
        created := w.created + 1
        log := .opened w.created purpose :: w.log }
      pure w.created

def setLive (id : String) (g : Nat) : M Unit :=
  modify fun w => { w with live := w.live.insert id g }

/-- The part of `execute` before the runtime is in `live`. -/
def prepare (env : Env) (id : String) (launch : Launch) : M (Nat × Nat × String) := do
  update env id .startAttempt .service
  let r ← loadRun id
  let directory ← workspace env r.projectId launch
  let g ← runtimeFactory env launch (.execution id r.attempts.length)
  pure (g, r.attempts.length, directory)

/-- Start the attempt of a queued run: commit `starting`, then connect a runtime. -/
def execute (env : Env) (id : String) : M Unit := do
  let launch ← nextLaunch env
  let started ← tryCatch
    (do
      let started ← prepare env id launch
      pure (some started))
    (fun e => do
      executeFailed env id none false e
      pure none)
  match started with
  | none => pure ()
  | some (g, attempt, directory) => do
      setLive id g
      modifyCodex g fun c => { c with listener := some id }
      Codex.connect env g launch (.execute id attempt directory)

/-- The body of `cancel`. Without a bound turn it relies on `execute`. -/
def cancel (env : Env) (id : String) : M Unit := do
  let r ← loadRun id
  if r.status ≠ .cancelling then pure ()
  else match r.lastAttempt with
    | some attempt =>
        match attempt.turnId with
        | some turnId => do
            let w ← get
            match w.live.lookup id with
            | some g =>
                Codex.request env g (.turnInterrupt attempt.threadId turnId) (.interrupted id)
            | none => uncertain env id "Cancellation could not be confirmed"
        | none => pure ()
    | none => pure ()

/-- After `turn/interrupt`: an acknowledgment changes nothing, a failure leaves
the outcome unknown. -/
def interrupted (env : Env) (id : String) (result : Except Err Json) : M Unit :=
  match result with
  | .ok _ => pure ()
  | .error _ => do
      uncertain env id "Cancellation could not be confirmed"
      let w ← get
      match w.live.lookup id with
      | some g => release env id g false
      | none => pure ()

/-- Continue `execute` after `connect()`. -/
def executeConnected (env : Env) (id : String) (g attempt : Nat) (directory : String)
    (result : Except Err Json) : M Unit :=
  match result with
  | .error e => executeFailed env id (some g) false e
  | .ok _ => Codex.request env g (.threadStart directory) (.threadStarted id g attempt)

/-- Bind the thread of a `thread/start` reply, then stop a cancelled attempt or
start its turn. -/
def dispatchTurn (env : Env) (id : String) (g attempt : Nat) (thread : Json) : M Unit := do
  let body ← Program.lift (Json.read (some thread) "thread")
  let threadId ← Program.lift (Json.read body "id")
  update env id (.bindThread threadId) (.runtime g)
  let r ← loadRun id
  if r.status = .cancelling then do
    update env id .cancelBeforeTurn .service
    release env id g false
  else
    Codex.request env g (.turnStart (r.lastAttempt.bind (·.threadId)) r.task)
      (.turnStarted id g attempt)

def threadStarted (env : Env) (id : String) (g attempt : Nat)
    (result : Except Err Json) : M Unit :=
  match result with
  | .error e => executeFailed env id (some g) true e
  | .ok thread =>
      tryCatch (dispatchTurn env id g attempt thread) (executeFailed env id (some g) true)

/-- Bind the turn of a `turn/start` reply unless a notification already did, and
pass on a cancellation that arrived meanwhile. -/
def bindReply (env : Env) (id : String) (g : Nat) (response : Json) : M Unit := do
  let r ← loadRun id
  let attempt ← Program.lift (r.attempt "turn_id")
  match attempt.turnId with
  | some _ => pure ()
  | none => do
      let turn ← Program.lift (Json.read (some response) "turn")
      let turnId ← Program.lift (Json.read turn "id")
      bindTurn env id turnId (.runtime g)
  let r ← loadRun id
  if r.status = .cancelling then cancel env id else pure ()

def turnStarted (env : Env) (id : String) (g : Nat) (result : Except Err Json) : M Unit :=
  match result with
  | .error e => executeFailed env id (some g) true e
  | .ok response =>
      tryCatch (bindReply env id g response) (executeFailed env id (some g) true)

/-- The `catch` and `finally` blocks of `reconcile`. -/
def reconcileUnavailable (env : Env) (id : String) (runtime : Option Nat) : M Unit := do
  let note := update env id
    (.reconciled "unavailable" "Runtime history unavailable; no task was replayed") .service
  tryCatch note fun _ => pure ()
  match runtime with
  | some g => release env id g false
  | none => pure ()

/-- Start reading the history of a run that needs reconciliation. -/
def reconcile (env : Env) (id : String) : M Unit := do
  let launch ← nextLaunch env
  let w ← get
  match w.db.run id with
  | .error _ => reconcileUnavailable env id none
  | .ok r =>
      if r.status ≠ .recoveryRequired ∨ w.live.entries ≠ [] then pure ()
      else do
        let created ← tryCatch
          (do
            let g ← runtimeFactory env launch (.inspection id)
            pure (some g))
          (fun _ => do
            reconcileUnavailable env id none
            pure none)
        match created with
        | none => pure ()
        | some g => do
            setLive id g
            Codex.connect env g launch (.reconcile id r.lastAttempt)

/-- Continue `reconcile` after `connect()`. -/
def reconcileConnected (env : Env) (id : String) (g : Nat) (attempt : Option Attempt)
    (result : Except Err Json) : M Unit :=
  match result, attempt with
  | .ok _, some attempt =>
      Codex.request env g (.threadRead attempt.threadId) (.threadRead id g attempt)
  | _, _ => reconcileUnavailable env id (some g)

/-- The member `length` of a JSON value. -/
def jsonLength : Json → Option Json
  | .arr items => some (.num (.ofNat items.length))
  | .str s => some (.num (.ofNat (s.toList.foldr (fun c n => utf16Size c + n) 0)))
  | v => v.get "length"

/-- The member `0` of a JSON value. A string has no turn in it. -/
def jsonFirst : Json → Option Json
  | .arr items => items.head?
  | .obj fields => fields.lookup "0"
  | _ => none

/-- The first turn with the given id; reading a `null` turn throws. -/
def findTurn (turnId : String) : List Json → Except Err (Option Json)
  | [] => pure none
  | turn :: rest => do
      let id ← Json.read (some turn) "id"
      if id = some (.str turnId) then pure (some turn) else findTurn turnId rest

/-- The turn of the history that belongs to the attempt: the one with the saved
id, or the only one when no id was saved. -/
def selectTurn (attempt : Attempt) (response : Json) : Except Err (Option Json) := do
  let thread ← Json.read (some response) "thread"
  let turns ← Json.read thread "turns"
  let turns := Json.orElse turns (.arr [])
  match attempt.turnId with
  | some turnId =>
      match turns with
      | .arr turns => findTurn turnId turns
      | _ => throw (.error "turns.find is not a function")
  | none =>
      if jsonLength turns = some (.num (.ofNat 1)) then pure (jsonFirst turns) else pure none

/-- The statuses that `reconcile` accepts as the end of a turn. -/
def isFinalTurn (turn : Json) : Bool :=
  turn.get "status" ∈
    [some (.str "completed"), some (.str "failed"), some (.str "interrupted")]

/-- Import the outcome that the history reports, or note that there is none. -/
def importHistory (env : Env) (id : String) (g : Nat) (attempt : Attempt) (response : Json) :
    M Unit := do
  let turn ← Program.lift (selectTurn attempt response)
  let note := update env id
    (.reconciled "unresolved" "No authoritative terminal turn; no task was replayed") .service
  match turn with
  | some turn => if isFinalTurn turn then finish env id (some turn) (.history g response) else note
  | none => note

def threadRead (env : Env) (id : String) (g : Nat) (attempt : Attempt)
    (result : Except Err Json) : M Unit :=
  match result with
  | .error _ => reconcileUnavailable env id (some g)
  | .ok response => do
      let imported ← tryCatch
        (do
          importHistory env id g attempt response
          pure true)
        (fun _ => do
          reconcileUnavailable env id (some g)
          pure false)
      if imported then release env id g false else pure ()

/-- The loop of `close()` over the live runtimes. -/
def closeLive (env : Env) : M Unit := do
  let w ← get
  match w.live.entries with
  | [] => pure ()
  | ⟨id, g⟩ :: _ => do
      uncertain env id "Service stopped; reconcile before retrying"
      release env id g true

/-- The end of `release`: the process has exited and the slot is free. -/
def released (env : Env) (id : String) (g : Nat) (closing : Bool) : M Unit := do
  modify fun w => { w with
    live := if w.live.lookup id = some g then w.live.erase id else w.live }
  if closing then closeLive env else pure ()

/-- The job of `schedule`: start the queued run when no runtime is live. -/
def scheduleJob (env : Env) : M Unit := do
  let w ← get
  if w.live.entries ≠ [] ∨ w.stopping = true then pure ()
  else match w.db.allRuns.find? (·.status == .queued) with
    | some r => execute env r.runId
    | none => pure ()

/-- The second half of `connect()`: confirm the handshake. -/
def handshake (env : Env) (g : Nat) (caller : Caller) (result : Except Err Json) : M Unit :=
  match result with
  | .error e => push ⟨.connected g caller, .ready (.error e)⟩
  | .ok r =>
      tryCatch
        (do
          Codex.send env g .initialized
          push ⟨.connected g caller, .ready (.ok r)⟩)
        (fun e => push ⟨.connected g caller, .ready (.error e)⟩)

/-- Run a task from its `await` with the settled result. -/
def resume (env : Env) (result : Except Err Json) : Frame → M Unit
  | .schedule => scheduleJob env
  | .release id g => release env id g false
  | .cancel id => cancel env id
  | .reconcile id => reconcile env id
  | .handshake g caller => handshake env g caller result
  | .connected g (.execute id attempt directory) =>
      executeConnected env id g attempt directory result
  | .connected g (.reconcile id attempt) => reconcileConnected env id g attempt result
  | .threadStarted id g attempt => threadStarted env id g attempt result
  | .turnStarted id g _ => turnStarted env id g result
  | .interrupted id => interrupted env id result
  | .threadRead id g attempt => threadRead env id g attempt result
  | .released id g closing => released env id g closing

end Service

end Mathmodel
