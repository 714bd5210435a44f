import Mathmodel.Backend.Messages

/-!
# The adapter on its own

`Codex` with arbitrary callers and arbitrary listeners. The service model ties the
adapter to the listeners of `execute`; here every public method may be called at
any time, and a listener may call `request` and `respond` and may throw.

`emit` is always the last thing a method does, so a method is an executable
section that returns the signal it emits, and the relations at the end of the
module let the listeners react to it. `history` records, newest first, what became
of requests, replies and server requests; no method reads it.
-/

namespace Mathmodel

namespace Adapter

/-- Messages the adapter writes. -/
inductive Line where
  | request (id : Nat) (method : String) (params : Json)
  | initialized
  | decision (key : MapKey) (decision : String)
  | unsupported (id : Json)

def Line.toJson : Line → Json
  | .request id method params => .obj
      [("id", .num (.ofNat id)), ("method", .str method), ("params", params)]
  | .initialized => .obj [("method", .str "initialized"), ("params", .obj [])]
  | .decision key answer => .obj
      [("id", key.value), ("result", .obj [("decision", .str answer)])]
  | .unsupported id => .obj
      [("id", id), ("error", .obj [("code", .num ⟨"-32601", Number.printed_unsupported⟩),
        ("message", .str "This interaction is not supported by Mathmodel Agent core")])]

/-- Bytes of a message on the wire, newline included. -/
def Line.size (line : Line) : Nat :=
  (line.toJson.write id).foldr (fun c n => c.utf8Size + n) 1

/-- Events for the listeners. -/
inductive Signal where
  | approval (kind : Lookup ApprovalKind) (key : MapKey) (params : Option Json)
  | notification (message : Json)
  | fault (e : Err)

/-- What settled the promise of a request: a frame of the runtime, or `fail`. -/
inductive Settler where
  | response (frame : Json)
  | fail

/-- What became of the requests of both sides. -/
inductive Note where
  | issued (id : Nat)
  | settled (id : Nat) (settler : Settler) (outcome : Except Err Json)
  | wrote (line : Line)
  | arrived (key : MapKey)
  | removed (key : MapKey)
  | emitted (signal : Signal)
  | closed

end Adapter

open Adapter in
structure Adapter where
  pending : List (Nat × String)
  approvals : List MapKey
  sequence : Nat
  buffer : List Char
  frames : Nat
  sends : Nat
  closed : Bool
  process : Process
  history : List Note

/-- The parser and the state of `process.stdin` at each call of `send`. -/
structure Host where
  parse : String → Except String Json
  stdin : Nat → Stdin

namespace Adapter

/-- The adapter as its constructor leaves it. -/
def fresh : Adapter :=
  { pending := [], approvals := [], sequence := 0, buffer := [], frames := 0, sends := 0,
    closed := false, process := .unspawned, history := [] }

/-- Synchronous sections of the adapter. -/
abbrev A := Program Err Adapter

def note (n : Note) : A Unit := modify fun a => { a with history := n :: a.history }

section Methods

variable (host : Host)

def send (line : Line) : A Unit := do
  let a ← get
  let stdin := host.stdin a.sends
  modify fun a => { a with sends := a.sends + 1 }
  if a.closed ∨ a.process ≠ .running ∨ stdin.writable = false then
    throw (.error "Codex is disconnected")
  else if 2097152 < line.size ∨ 2097152 < stdin.length then
    throw (.error "Codex outbound limit exceeded")
  else note (.wrote line)

/-- The notes of a failing connection, newest first. -/
def failure (e : Err) (a : Adapter) : List Note :=
  (a.approvals.map Note.removed).reverse ++
    (a.pending.map fun entry => Note.settled entry.1 .fail (.error e)).reverse ++ [.closed]

/-- Reject every pending request, forget the approvals and emit `fault`. -/
def fail (e : Err) : A (Option Signal) := do
  let a ← get
  if a.closed then pure none
  else do
    modify fun a => { a with
      closed := true, pending := [], approvals := [], history := failure e a ++ a.history }
    note (.emitted (.fault e))
    pure (some (.fault e))

/-- Issue a request. On a closed connection the promise is already rejected. -/
def request (method : String) (params : Json) : A (Option Signal) := do
  let a ← get
  if a.closed then pure none
  else do
    let id := a.sequence + 1
    modify fun a => { a with sequence := id, pending := a.pending ++ [(id, method)] }
    note (.issued id)
    tryCatch
      (do
        send host (.request id method params)
        pure none)
      fail

def respond (key : MapKey) (decision : String) : A Unit := do
  let a ← get
  if key ∉ a.approvals ∨ decision ∉ ["accept", "decline"] then
    throw (.error "Approval is no longer pending on this connection")
  else do
    send host (.decision key decision)
    modify fun a => { a with approvals := a.approvals.filter (· ≠ key) }
    note (.removed key)

/-- A request of the runtime: an approval of a supported kind, or an interaction
that is refused. -/
def serverRequest (id method : Json) (params : Option Json) : A (Option Signal) := do
  let kind ← Program.lift (plainLookup approvalKinds (some method))
  match kind with
  | .missing => do
      send host (.unsupported id)
      let name ← Program.lift (Json.coerce (some method))
      throw (.error ("Unsupported Codex interaction: " ++ name))
  | kind => do
      let a ← get
      let key := MapKey.ofJson a.frames id
      if 100 ≤ a.approvals.length ∨ key ∈ a.approvals then
        throw (.error "Invalid or excessive approval requests")
      else do
        modify fun a => { a with approvals := a.approvals ++ [key] }
        note (.arrived key)
        note (.emitted (.approval kind key params))
        pure (some (.approval kind key params))

/-- A response settles the request that carries its id. The request is forgotten
before the text of a rejection is built. -/
def response (id : Json) (fields : List (String × Json)) : A (Option Signal) := do
  let a ← get
  match a.pending.find? fun entry => Json.num (.ofNat entry.1) == id with
  | none => throw (.error "Uncorrelated Codex response")
  | some (n, _) => do
      modify fun a => { a with pending := a.pending.filter (·.1 ≠ n) }
      let outcome ←
        if Json.truthy (fields.lookup "error") then do
          let code ← Program.lift (Json.coerce (Json.chain (fields.lookup "error") "code"))
          pure (.error (.error ("Codex RPC rejected (" ++ code ++ ")")))
        else match fields.lookup "result" with
          | some result => pure (.ok result)
          | none => pure (.error (.error "Invalid Codex RPC response"))
      note (.settled n (.response (.obj fields)) outcome)
      pure none

/-- A notification; `serverRequest/resolved` also forgets the approval request. -/
def notify (method : String) (fields : List (String × Json)) : A (Option Signal) := do
  if method = "serverRequest/resolved" then do
    let a ← get
    match (Json.chain (fields.lookup "params") "requestId").map (MapKey.ofJson a.frames) with
    | some key =>
        if key ∈ a.approvals then do
          modify fun a => { a with approvals := a.approvals.filter (· ≠ key) }
          note (.removed key)
        else pure ()
    | none => pure ()
  else pure ()
  note (.emitted (.notification (.obj fields)))
  pure (some (.notification (.obj fields)))

def message (m : Json) : A (Option Signal) := do
  modify fun a => { a with frames := a.frames + 1 }
  match m with
  | .obj fields =>
      match fields.lookup "id", fields.lookup "method" with
      | some id, some method =>
          if Json.truthy (some method) then serverRequest host id method (fields.lookup "params")
          else response id fields
      | some id, none => response id fields
      | none, some (.str method) => notify method fields
      | none, _ => throw (.error "Invalid Codex message envelope")
  | _ => throw (.error "Invalid Codex message")

/-- One complete line: blank lines are skipped, others must be JSON. -/
def line (text : List Char) : A (Option Signal) :=
  if text.all Codex.isSpace then pure none
  else match host.parse (String.ofList text) with
    | .ok m => message host m
    | .error e => throw (.error e)

end Methods

/-! ## Listeners and the event loop -/

/-- What the listeners of a signal may do before they return or throw: answer
requests, and issue requests as long as the connection does not fail in them. -/
inductive Listens (host : Host) : Adapter → Except Err Unit → Adapter → Prop where
  | returned {a : Adapter} : Listens host a (.ok ()) a
  | threw {a : Adapter} {e : Err} : Listens host a (.error e) a
  | responded {a b : Adapter} {key : MapKey} {decision : String} {outcome : Except Err Unit}
      (next : Listens host ((respond host key decision).after a) outcome b) :
      Listens host a outcome b
  | requested {a b c : Adapter} {method : String} {params : Json} {outcome : Except Err Unit}
      (calm : (request host method params).exec a = (.ok none, b))
      (next : Listens host b outcome c) : Listens host a outcome c

/-- The signal of a section is emitted and the listeners return. -/
inductive Emits (host : Host) : Option Signal → Adapter → Except Err Unit → Adapter → Prop where
  | silent {a : Adapter} : Emits host none a (.ok ()) a
  | heard {signal : Signal} {a b : Adapter} {outcome : Except Err Unit}
      (listens : Listens host a outcome b) : Emits host (some signal) a outcome b

/-- The loop of `receive` over the complete lines of the buffer. -/
inductive Drains (host : Host) (rest : List Char) :
    List (List Char) → Adapter → Except Err Unit → Adapter → Prop where
  | done {a : Adapter} : Drains host rest [] a (.ok ()) a
  | thrown {text : List Char} {lines : List (List Char)} {a b : Adapter} {e : Err}
      (throws : (line host text).exec { a with buffer := Codex.unlines lines rest } =
        (.error e, b)) :
      Drains host rest (text :: lines) a (.error e) b
  | refused {text : List Char} {lines : List (List Char)} {a b c : Adapter} {e : Err}
      {signal : Option Signal}
      (handled : (line host text).exec { a with buffer := Codex.unlines lines rest } =
        (.ok signal, b))
      (emits : Emits host signal b (.error e) c) :
      Drains host rest (text :: lines) a (.error e) c
  | next {text : List Char} {lines : List (List Char)} {a b c d : Adapter}
      {outcome : Except Err Unit} {signal : Option Signal}
      (handled : (line host text).exec { a with buffer := Codex.unlines lines rest } =
        (.ok signal, b))
      (emits : Emits host signal b (.ok ()) c) (later : Drains host rest lines c outcome d) :
      Drains host rest (text :: lines) a outcome d

/-- The connection fails, and its listeners hear of it. -/
def Fails (host : Host) (e : Err) (a b : Adapter) : Prop :=
  ∃ signal c outcome, (fail e).exec a = (.ok signal, c) ∧ Emits host signal c outcome b

/-- Calls and events that start a synchronous section of the adapter. -/
inductive Call where
  | spawn
  | request (method : String) (params : Json)
  | initialized
  | receive (chunk : List Char)
  | respond (key : MapKey) (decision : String)
  | timeout (id : Nat)
  | stdinError
  | processError
  | processClose
  | close

/-- One synchronous section. `spawn` is the start of `connect`, and `initialized`
what it sends after the handshake. -/
inductive Steps (host : Host) (a : Adapter) : Call → Adapter → Prop where
  | spawn (unused : a.process = .unspawned ∧ a.closed = false) :
      Steps host a .spawn { a with process := .running }
  | request {method : String} {params : Json} {signal : Option Signal} {b c : Adapter}
      {outcome : Except Err Unit}
      (issued : (Adapter.request host method params).exec a = (.ok signal, b))
      (emits : Emits host signal b outcome c) : Steps host a (.request method params) c
  | initialized : Steps host a .initialized ((send host .initialized).after a)
  | respond {key : MapKey} {decision : String} :
      Steps host a (.respond key decision) ((Adapter.respond host key decision).after a)
  | ignored {chunk : List Char} (closed : a.closed = true) : Steps host a (.receive chunk) a
  | oversized {chunk : List Char} {b : Adapter} (open_ : a.closed = false)
      (large : 8388608 < Codex.byteLength (a.buffer ++ chunk))
      (fails : Fails host (.error "Codex frame limit exceeded")
        { a with buffer := a.buffer ++ chunk } b) : Steps host a (.receive chunk) b
  | received {chunk : List Char} {b : Adapter} (open_ : a.closed = false)
      (fits : Codex.byteLength (a.buffer ++ chunk) ≤ 8388608)
      (drains : Drains host (Codex.splitLines (a.buffer ++ chunk)).2
        (Codex.splitLines (a.buffer ++ chunk)).1 { a with buffer := a.buffer ++ chunk }
        (.ok ()) b) : Steps host a (.receive chunk) b
  | broken {chunk : List Char} {b c : Adapter} {e : Err} (open_ : a.closed = false)
      (fits : Codex.byteLength (a.buffer ++ chunk) ≤ 8388608)
      (drains : Drains host (Codex.splitLines (a.buffer ++ chunk)).2
        (Codex.splitLines (a.buffer ++ chunk)).1 { a with buffer := a.buffer ++ chunk }
        (.error e) b)
      (fails : Fails host e b c) : Steps host a (.receive chunk) c
  | timeout {id : Nat} {method : String} {b : Adapter} (waits : (id, method) ∈ a.pending)
      (fails : Fails host (.error ("Codex RPC timeout: " ++ method ++
        "; outcome may be unknown")) a b) : Steps host a (.timeout id) b
  | stdinError {b : Adapter} (fails : Fails host (.error "Codex input closed") a b) :
      Steps host a .stdinError b
  | processError {b : Adapter}
      (fails : Fails host (.error "Codex process could not start") a b) :
      Steps host a .processError b
  | processClose {b : Adapter}
      (fails : Fails host (.error "Codex connection closed") { a with process := .exited } b) :
      Steps host a .processClose b
  | close {b : Adapter}
      (fails : Fails host (.error "Codex connection closed by owner") a b) :
      Steps host a .close b

end Adapter

end Mathmodel
