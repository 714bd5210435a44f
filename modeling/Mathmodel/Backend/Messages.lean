import Mathmodel.Backend.Connection

/-!
# Messages of the runtime

`Codex.receive` cuts the output of the child process into lines and hands each
parsed frame to `Codex.message`, which settles a request, records an approval
request, or emits a notification. The listeners that `execute` attached run
inside the same synchronous section, so an exception in the service fails the
connection like a malformed frame does.
-/

namespace Mathmodel

open M

namespace Service

def bindTurn (env : Env) (id : String) (turnId : Option Json) (via : Via) : M Unit :=
  update env id (.bindTurn turnId) via

/-- Map a reported turn to the outcome of the attempt; other statuses are ignored. -/
def finish (env : Env) (id : String) (turn : Option Json) (via : Via) : M Unit := do
  let status ← Program.lift (Json.read turn "status")
  let outcome ← Program.lift (plainLookup TurnOutcome.table status)
  match outcome with
  | .missing => pure ()
  | outcome => update env id (.finish (turn.getD .null) outcome) via

/-- The test `params.threadId !== attempt?.thread_id`. -/
def otherThread (params : Option Json) (attempt : Option Attempt) : Bool :=
  match attempt with
  | some a => !Json.sameNullable (Json.chain params "threadId") a.threadId
  | none => (Json.chain params "threadId").isSome

def turnCompleted (env : Env) (id : String) (g : Nat) (params : Option Json)
    (attempt : Attempt) : M Unit := do
  let turn := Json.chain params "turn"
  let other ← match attempt.turnId with
    | none => pure false
    | some bound => do
        let reported ← Program.lift (Json.read turn "id")
        pure !Json.sameNullable reported (some bound)
  if other then pure ()
  else do
    finish env id turn (.runtime g)
    let w ← get
    match w.live.lookup id with
    | some runtime => background (.release id runtime)
    | none => pure ()

def notification (env : Env) (id : String) (g : Nat) (method : String)
    (params : Option Json) : M Unit := do
  let r ← loadRun id
  let attempt := r.lastAttempt
  if Json.truthy params = false ∨ otherThread params attempt = true ∨ r.status.isTerminal = true
  then pure ()
  else if method = "serverRequest/resolved" then
    update env id (.resolvedByRuntime (Json.chain params "requestId")) (.runtime g)
  else if method = "turn/started" then do
    let turnId ← Program.lift (Json.read (Json.chain params "turn") "id")
    bindTurn env id turnId (.runtime g)
  else if method = "turn/completed" then do
    let attempt ← Program.lift (r.attempt "turn_id")
    turnCompleted env id g params attempt
  else if method = "item/completed" then do
    let attempt ← Program.lift (r.attempt "turn_id")
    if Json.sameNullable (Json.chain params "turnId") attempt.turnId then
      update env id (.completedItem (Json.chain params "item")) (.runtime g)
    else pure ()
  else pure ()

/-- Record a server request as a pending approval, or decline it when the run
cannot wait for a decision. -/
def approval (env : Env) (id : String) (g : Nat) (kind : Lookup ApprovalKind) (key : MapKey)
    (params : Option Json) : M Unit := do
  let w ← get
  let r ← loadRun id
  if w.live.lookup id ≠ some g ∨ otherThread params r.lastAttempt = true ∨
      (r.status ≠ .starting ∧ r.status ≠ .running ∧ r.status ≠ .waitingApproval) then
    Codex.respond env g key .decline
  else do
    let turnId ← Program.lift (Json.read params "turnId")
    bindTurn env id turnId (.runtime g)
    let attempt ← Program.lift (r.attempt "attempt")
    let approvalId ← randomUUID env
    update env id
      (.requestApproval approvalId attempt.attempt kind key.value (w.codex g).generation
        (params.getD .null))
      (.runtime g)

end Service

namespace Codex

/-- A request of the runtime: an approval of a supported kind, or an
interaction that is refused and fails the connection. -/
def serverRequest (env : Env) (g : Nat) (id method : Json) (params : Option Json) : M Unit := do
  let kind ← Program.lift (plainLookup approvalKinds (some method))
  match kind with
  | .missing => do
      send env g (.unsupported id)
      let name ← Program.lift (Json.coerce (some method))
      throw (.error ("Unsupported Codex interaction: " ++ name))
  | kind => do
      let w ← get
      let key := MapKey.ofJson (w.codex g).frames id
      if 100 ≤ (w.codex g).approvals.length ∨ key ∈ (w.codex g).approvals then
        throw (.error "Invalid or excessive approval requests")
      else do
        modifyCodex g fun c => { c with approvals := c.approvals ++ [key] }
        record (.requested g key)
        match (w.codex g).listener with
        | some run => Service.approval env run g kind key params
        | none => pure ()

/-- A response settles the request that carries its id. A rejection whose
error code has no text throws after the request was forgotten, and its promise
is never settled. -/
def response (g : Nat) (id : Json) (fields : List (String × Json)) : M Unit := do
  let w ← get
  match (w.codex g).pending.find? fun entry => Json.num (.ofNat entry.1) == id with
  | none => throw (.error "Uncorrelated Codex response")
  | some (n, call) => do
      modifyCodex g fun c => { c with pending := c.pending.filter (·.1 ≠ n) }
      if Json.truthy (fields.lookup "error") then
        match Json.coerce (Json.chain (fields.lookup "error") "code") with
        | .error e => do
            modify fun w => { w with tasks := w.tasks.filter fun t => !t.awaits g n }
            throw e
        | .ok code => modify fun w => { w with
            tasks := w.tasks.map
              (Task.settle g n (.error (.error ("Codex RPC rejected (" ++ code ++ ")")))) }
      else match fields.lookup "result" with
        | some result => do
            record (.replied g call result)
            modify fun w => { w with tasks := w.tasks.map (Task.settle g n (.ok result)) }
        | none => modify fun w => { w with
            tasks := w.tasks.map
              (Task.settle g n (.error (.error "Invalid Codex RPC response"))) }

/-- A notification; `serverRequest/resolved` also forgets the approval request. -/
def notify (env : Env) (g : Nat) (method : String) (params : Option Json) : M Unit := do
  if method = "serverRequest/resolved" then
    modifyCodex g fun c => { c with
      approvals := match Json.chain params "requestId" with
        | some id => c.approvals.filter (· ≠ MapKey.ofJson c.frames id)
        | none => c.approvals }
  else pure ()
  let w ← get
  match (w.codex g).listener with
  | some run =>
      if w.live.lookup run = some g then Service.notification env run g method params
      else pure ()
  | none => pure ()

def message (env : Env) (g : Nat) (m : Json) : M Unit := do
  modifyCodex g fun c => { c with frames := c.frames + 1 }
  match m with
  | .obj fields =>
      match fields.lookup "id", fields.lookup "method" with
      | some id, some method =>
          if Json.truthy (some method) then
            serverRequest env g id method (fields.lookup "params")
          else response g id fields
      | some id, none => response g id fields
      | none, some (.str method) => notify env g method (fields.lookup "params")
      | none, _ => throw (.error "Invalid Codex message envelope")
  | _ => throw (.error "Invalid Codex message")

/-- The characters `String.prototype.trim` removes. -/
def isSpace (c : Char) : Bool :=
  (0x09 ≤ c.toNat && c.toNat ≤ 0x0d) || c.toNat == 0x20 || c.toNat == 0xa0 ||
  c.toNat == 0x1680 || (0x2000 ≤ c.toNat && c.toNat ≤ 0x200a) || c.toNat == 0x2028 ||
  c.toNat == 0x2029 || c.toNat == 0x202f || c.toNat == 0x205f || c.toNat == 0x3000 ||
  c.toNat == 0xfeff

/-- Complete lines of a buffer and the text after the last newline. -/
def splitLines : List Char → List (List Char) × List Char
  | [] => ([], [])
  | c :: cs =>
      let (lines, rest) := splitLines cs
      if c = '\n' then ([] :: lines, rest)
      else match lines with
        | [] => ([], c :: rest)
        | line :: lines => ((c :: line) :: lines, rest)

def unlines (lines : List (List Char)) (rest : List Char) : List Char :=
  lines.flatMap (· ++ ['\n']) ++ rest

def byteLength (text : List Char) : Nat := text.foldr (fun c n => c.utf8Size + n) 0

/-- One complete line: blank lines are skipped, others must be JSON. -/
def line (env : Env) (g : Nat) (text : List Char) : M Unit :=
  if text.all isSpace then pure ()
  else match env.parse (String.ofList text) with
    | .ok m => message env g m
    | .error e => throw (.error e)

/-- The loop of `receive` over the complete lines of the buffer. -/
def drain (env : Env) (g : Nat) : List (List Char) → List Char → M Unit
  | [], _ => pure ()
  | text :: lines, rest => do
      modifyCodex g fun c => { c with buffer := unlines lines rest }
      line env g text
      drain env g lines rest

/-- A chunk of output: complete lines are handled in order, the rest is kept. -/
def receive (env : Env) (g : Nat) (chunk : List Char) : M Unit := do
  let w ← get
  if (w.codex g).closed then pure ()
  else
    tryCatch
      (do
        let buffer := (w.codex g).buffer ++ chunk
        modifyCodex g fun c => { c with buffer := buffer }
        if 8388608 < byteLength buffer then throw (.error "Codex frame limit exceeded")
        else drain env g (splitLines buffer).1 (splitLines buffer).2)
      (fail env g)

end Codex

end Mathmodel
