import Mathmodel.Backend.Service
import Mathmodel.Backend.Database

/-!
# Effects of a synchronous section

A section of the service is a short sequence of effects on the world. `Effect`
lists them with everything the code has established at that point: the record
it loaded, the listener it runs in, the task it continues, the frame it reads.
An effect is as large as it has to be for the invariants to hold between two of
them. The adapter that fails and the run that its listener marks uncertain, for
instance, are one effect.

Proofs about the whole system then have two halves. One shows once that every
section is a sequence of effects; the other shows, invariant by invariant, that
each effect keeps it.
-/

namespace Mathmodel

namespace World

/-- Commit a transaction. -/
def commit (w : World) (origin : Origin) (db : Db) : World :=
  { w with db := db, log := .commit origin w.db db :: w.log }

def push (w : World) (t : Task) : World := { w with tasks := w.tasks ++ [t] }

/-- Start a background job. -/
def start (w : World) (frame : Frame) : World := w.push ⟨frame, .ready (.ok .null)⟩

def wrote (w : World) (g : Nat) (message : Outbound) : World :=
  { w with log := .wrote g message :: w.log }

/-- The connection fails; its listeners are not told. -/
def shut (w : World) (g : Nat) (e : Err) : World :=
  { w.setCodex g fun c => { c with closed := true, pending := [], approvals := [] } with
    tasks := w.tasks.map (Task.reject g e) }

def detach (w : World) (g : Nat) : World := w.setCodex g fun c => { c with listener := none }

/-- Close the connection unless it has failed before. -/
def shutOnce (w : World) (g : Nat) : World :=
  if (w.codex g).closed then w else w.shut g (.error "Codex connection closed by owner")

/-- The promise of `Codex.close`. -/
def exitOf (w : World) (g : Nat) : Wait :=
  if (w.codex g).process = .running then .exit g else .ready (.ok .null)

/-- Detach the listeners, close the connection and wait for the process. -/
def release (w : World) (id : String) (g : Nat) (closing : Bool) : World :=
  let w := (w.detach g).shutOnce g
  w.push ⟨.released id g closing, w.exitOf g⟩

/-- Register a request whose reply continues at `frame`. -/
def ask (w : World) (g : Nat) (call : Rpc) (frame : Frame) : World :=
  (w.setCodex g fun c => { c with
    sequence := (w.codex g).sequence + 1
    pending := c.pending ++ [((w.codex g).sequence + 1, call)] }).push
    ⟨frame, .reply g ((w.codex g).sequence + 1)⟩

/-- Create an adapter with the next number. -/
def create (env : Env) (w : World) (purpose : Purpose) : World :=
  { w with
    uuids := w.uuids + 1
    codex := Function.update w.codex w.created (.fresh (env.uuid w.uuids) purpose)
    created := w.created + 1
    log := .opened w.created purpose :: w.log }

def enter (w : World) (id : String) (g : Nat) : World :=
  { w with live := w.live.insert id g }

def attach (w : World) (id : String) (g : Nat) : World :=
  w.setCodex g fun c => { c with listener := some id }

/-- Commit a command. -/
def accept (w : World) (c : Command) (replay : Bool) (db : Db) : World :=
  { w with db := db, uuids := w.uuids + 1, log := .commit (.command c replay) w.db db :: w.log }

/-- Forget a request for approval. -/
def forget (w : World) (g : Nat) (key : MapKey) : World :=
  w.setCodex g fun c => { c with approvals := c.approvals.filter (· ≠ key) }

/-- Forget the request for approval that a frame of the runtime names. -/
def forgetNamed (w : World) (g : Nat) (requestId : Option Json) : World :=
  w.setCodex g fun c => { c with
    approvals := match requestId with
      | some id => c.approvals.filter (· ≠ MapKey.ofJson c.frames id)
      | none => c.approvals }

/-- Record a request for approval. -/
def note (w : World) (g : Nat) (key : MapKey) : World :=
  { w.setCodex g fun c => { c with approvals := c.approvals ++ [key] } with
    log := .requested g key :: w.log }

/-- Forget a request, whose promise is or is not settled by `settle`. -/
def answer (w : World) (g n : Nat) (settle : List Task → List Task) : World :=
  { w.setCodex g fun c => { c with pending := c.pending.filter (·.1 ≠ n) } with
    tasks := settle w.tasks }

/-- Only the database survives a restart. -/
def reset (w : World) : World :=
  { w with
    live := ∅, stopping := false, codex := fun _ => .absent, lifetime := w.created,
    tasks := [], log := .restarted :: w.log }

end World

/-- The parts of an adapter that no invariant reads may change. -/
def Codex.Alike (c c' : Codex) : Prop :=
  c' = { c with buffer := c'.buffer, frames := c'.frames, sends := c'.sends }

namespace World

/-- Only counters, buffers and the stopping flag differ. -/
structure Quiet (w w' : World) : Prop where
  db : w'.db = w.db
  live : w'.live = w.live
  created : w'.created = w.created
  lifetime : w'.lifetime = w.lifetime
  tasks : w'.tasks = w.tasks
  log : w'.log = w.log
  uuids : w.uuids ≤ w'.uuids
  codex : ∀ g, (w.codex g).Alike (w'.codex g)

/-- What `uncertain` leaves behind: a settled run as it was, any other marked. -/
inductive Uncertain (env : Env) (id : String) (w : World) : World → Prop where
  | settled {r : Run} (found : w.db.runs.lookup id = some r)
      (status : r.status.isTerminal = true ∨ r.status = .recoveryRequired) :
      Uncertain env id w w
  | marked {message : String} {r r' : Run} {db : Db}
      (status : r.status.isTerminal = false ∧ r.status ≠ .recoveryRequired)
      (started : r.attempts ≠ [])
      (writes : w.db.Writes (env.moment w.clock) id (.uncertain message) r r' db) :
      Uncertain env id w (w.commit (.update id (.uncertain message) .service) db)

end World

/-! ## Requests of an attempt -/

/-- The frame leads to `thread/start` on the runtime. -/
def Frame.launches (g : Nat) : Frame → Bool
  | .handshake h (.execute ..) | .connected h (.execute ..) => h == g
  | _ => false

/-- The frame leads to `turn/start` on the runtime. -/
def Frame.precedesTurn (g : Nat) : Frame → Bool
  | .handshake h (.execute ..) | .connected h (.execute ..) | .threadStarted _ h _ => h == g
  | _ => false

def Entry.isThreadStart (g : Nat) : Entry → Bool
  | .wrote h (.request _ (.threadStart _)) => h == g
  | _ => false

def Entry.isTurnStart (g : Nat) : Entry → Bool
  | .wrote h (.request _ (.turnStart _ _)) => h == g
  | _ => false

namespace Entry

variable (g : Nat)

@[simp] theorem isThreadStart_commit (origin : Origin) (before after : Db) :
    (commit origin before after).isThreadStart g = false := rfl

@[simp] theorem isTurnStart_commit (origin : Origin) (before after : Db) :
    (commit origin before after).isTurnStart g = false := rfl

@[simp] theorem isThreadStart_opened (h : Nat) (purpose : Purpose) :
    (opened h purpose).isThreadStart g = false := rfl

@[simp] theorem isTurnStart_opened (h : Nat) (purpose : Purpose) :
    (opened h purpose).isTurnStart g = false := rfl

@[simp] theorem isThreadStart_initialized (h : Nat) :
    (wrote h .initialized).isThreadStart g = false := rfl

@[simp] theorem isTurnStart_initialized (h : Nat) :
    (wrote h .initialized).isTurnStart g = false := rfl

end Entry

namespace World

/-- Requests `thread/start` that were written to the runtime or still may be. -/
def threadBudget (w : World) (g : Nat) : Nat :=
  w.tasks.countP (fun t => t.frame.launches g) + w.log.countP (·.isThreadStart g)

/-- Requests `turn/start` that were written to the runtime or still may be. -/
def turnBudget (w : World) (g : Nat) : Nat :=
  w.tasks.countP (fun t => t.frame.precedesTurn g) + w.log.countP (·.isTurnStart g)

/-- The runtime was created in this lifetime. -/
def Current (w : World) (g : Nat) : Prop := w.lifetime ≤ g ∧ g < w.created

/-- The runtime of the frame was created for what the frame does. -/
def Owns (w : World) : Frame → Prop
  | .handshake g (.execute id k _) | .connected g (.execute id k _)
  | .threadStarted id g k | .turnStarted id g k =>
      w.Current g ∧ (w.codex g).purpose = .execution id k
  | .handshake g (.reconcile id _) | .connected g (.reconcile id _) | .threadRead id g _ =>
      w.Current g ∧ (w.codex g).purpose = .inspection id
  | .release _ g => w.Current g
  | .released _ g _ => w.Current g ∧ (w.codex g).closed = true ∧ (w.codex g).listener = none
  | _ => True

/-- The frame does not lead to a second request of its kind. -/
def Allows (w : World) : Frame → Prop
  | .handshake g (.execute ..) | .connected g (.execute ..) | .threadStarted _ g _ =>
      w.threadBudget g = 0 ∧ w.turnBudget g = 0
  | .turnStarted _ g _ => w.turnBudget g = 0
  | _ => True

/-- The listeners of the runtime hear a frame, and the run is not settled. -/
structure Heard (w : World) (g : Nat) (id : String) (r : Run) : Prop where
  open_ : (w.codex g).closed = false
  listener : (w.codex g).listener = some id
  live : w.live.lookup id = some g
  found : w.db.runs.lookup id = some r
  unsettled : r.status.isTerminal = false

end World

/-! ## Effects -/

/-- What started the section: a command with the tasks it met, a task, the
frames of a chunk, a fault of a runtime, a shutdown, or a restart. -/
inductive Cause where
  | command (tasks : List Task)
  | resumed (task : Task)
  | received (g : Nat) (frames : List Json)
  | fault (g : Nat)
  | shutdown
  | restart

namespace Cause

def Delivers (cause : Cause) (g : Nat) (m : Json) : Prop :=
  ∃ frames, cause = .received g frames ∧ m ∈ frames

def Resumes (cause : Cause) (frame : Frame) (result : Except Err Json) : Prop :=
  cause = .resumed ⟨frame, .ready result⟩

end Cause

/-- Why a run is marked uncertain, other than by a fault of its runtime. -/
inductive Doubts (id : String) : Cause → Prop where
  | command {tasks : List Task} : Doubts id (.command tasks)
  | restart : Doubts id .restart
  | shutdown : Doubts id .shutdown
  | closing {other : String} {g : Nat} {result : Except Err Json} :
      Doubts id (.resumed ⟨.released other g true, .ready result⟩)
  | cancel {result : Except Err Json} : Doubts id (.resumed ⟨.cancel id, .ready result⟩)
  | interrupted {result : Except Err Json} :
      Doubts id (.resumed ⟨.interrupted id, .ready result⟩)
  | turnStarted {g k : Nat} {result : Except Err Json} :
      Doubts id (.resumed ⟨.turnStarted id g k, .ready result⟩)

/-- The section reconciles the run. -/
inductive Inspects (cause : Cause) (id : String) (r : Run) : Prop where
  | job {result : Except Err Json} (resumes : cause.Resumes (.reconcile id) result)
      (status : r.status = .recoveryRequired)
  | connected {g : Nat} {attempt : Option Attempt} {result : Except Err Json}
      (resumes : cause.Resumes (.connected g (.reconcile id attempt)) result)
  | threadRead {g : Nat} {attempt : Attempt} {result : Except Err Json}
      (resumes : cause.Resumes (.threadRead id g attempt) result)

/-- Why a task is left behind. -/
inductive Follows (cause : Cause) (w : World) : Frame → Prop where
  | execution {g k : Nat} {id directory : String} {r : Run} {frame : Frame}
      (job : ∃ result, cause.Resumes .schedule result)
      (found : w.db.runs.lookup id = some r) (status : r.status = .starting)
      (number : r.attempts.length = k)
      (attached : (w.codex g).listener = some id)
      (kind : frame = .handshake g (.execute id k directory) ∨
        frame = .connected g (.execute id k directory)) : Follows cause w frame
  | inspection {g : Nat} {id : String} {r : Run} {frame : Frame}
      (job : ∃ result, cause.Resumes (.reconcile id) result)
      (live : w.live.lookup id = some g)
      (found : w.db.runs.lookup id = some r) (status : r.status = .recoveryRequired)
      (kind : frame = .handshake g (.reconcile id r.lastAttempt) ∨
        frame = .connected g (.reconcile id r.lastAttempt)) : Follows cause w frame
  | connected {g : Nat} {caller : Caller} {result : Except Err Json}
      (h : cause.Resumes (.handshake g caller) result) :
      Follows cause w (.connected g caller)
  | threadStarted {g k : Nat} {id directory : String} {result : Json}
      (h : cause.Resumes (.connected g (.execute id k directory)) (.ok result)) :
      Follows cause w (.threadStarted id g k)
  | turnStarted {g k : Nat} {id : String} {result : Json}
      (h : cause.Resumes (.threadStarted id g k) (.ok result)) :
      Follows cause w (.turnStarted id g k)
  | threadRead {g : Nat} {id : String} {attempt : Attempt} {result : Json}
      (h : cause.Resumes (.connected g (.reconcile id (some attempt))) (.ok result)) :
      Follows cause w (.threadRead id g attempt)
  | interrupted {g : Nat} {id : String} {r : Run} (live : w.live.lookup id = some g)
      (found : w.db.runs.lookup id = some r) (started : r.attempts ≠ []) :
      Follows cause w (.interrupted id)
  | schedule : Follows cause w .schedule
  | cancel {id : String} {r : Run} (found : w.db.runs.lookup id = some r)
      (status : r.status = .cancelling) (command : cause = .command w.tasks) :
      Follows cause w (.cancel id)
  | reconcile {id : String} {r : Run} (command : cause = .command w.tasks)
      (idle : w.live.entries = []) (found : w.db.runs.lookup id = some r)
      (status : r.status = .recoveryRequired) : Follows cause w (.reconcile id)

/-- The request belongs to the frame that awaits its reply. -/
inductive Issues (g : Nat) : Rpc → Frame → Prop where
  | initializeRuntime {caller : Caller} : Issues g .initializeRuntime (.handshake g caller)
  | threadStart {directory id : String} {k : Nat} :
      Issues g (.threadStart directory) (.threadStarted id g k)
  | turnStart {threadId : Option String} {task : ModelingTask} {id : String} {k : Nat} :
      Issues g (.turnStart threadId task) (.turnStarted id g k)
  | turnInterrupt {threadId : Option String} {turnId id : String} :
      Issues g (.turnInterrupt threadId turnId) (.interrupted id)
  | threadRead {id : String} {attempt : Attempt} :
      Issues g (.threadRead attempt.threadId) (.threadRead id g attempt)

/-- The newest transaction is the decision on the request of a runtime. -/
structure World.Decided (w : World) (g : Nat) (key : MapKey) (decision : Decision) (c : Command)
    (id : String) (before : Db) (r r' : Run) (a a' : Approval) : Prop where
  newest : ∃ older, w.log = .commit (.command c false) before w.db :: older
  request : ∃ version, c.request = .onRun id version (.resolve a.approvalId decision)
  found : before.runs.lookup id = some r
  waiting : r.status = .waitingApproval
  first : r.approvals.find? (·.approvalId == a.approvalId) = some a
  pending : a.status = .pending
  generation : a.generation = (w.codex g).generation
  key : key = .scalar a.requestId
  live : w.live.lookup id = some g
  found' : w.db.runs.lookup id = some r'
  member' : a' ∈ r'.approvals
  answered : a' = { a with status := if decision = .accept then .accepted else .declined }

/-- The turn that a frame announces: `turn/started`, or a request for approval. -/
inductive Announces : Json → Option Json → Prop where
  | started {fields : List (String × Json)} {value : Option Json}
      (method : fields.lookup "method" = some (.str "turn/started"))
      (turn : Json.read (Json.chain (fields.lookup "params") "turn") "id" = .ok value) :
      Announces (.obj fields) value
  | approval {fields : List (String × Json)} {value : Option Json} {method : Json}
      {kind : Lookup ApprovalKind}
      (named : fields.lookup "method" = some method)
      (supported : plainLookup approvalKinds (some method) = .ok kind ∧ kind ≠ .missing)
      (turn : Json.read (fields.lookup "params") "turnId" = .ok value) :
      Announces (.obj fields) value

/-- The frame reports the end of the turn. -/
inductive Completes : Json → Json → Prop where
  | mk {fields : List (String × Json)} {turn : Json}
      (method : fields.lookup "method" = some (.str "turn/completed"))
      (reported : Json.chain (fields.lookup "params") "turn" = some turn) :
      Completes (.obj fields) turn

/-- The frame withdraws the request for approval with the given id. -/
inductive Withdraws : Json → Option Json → Prop where
  | mk {fields : List (String × Json)} {requestId : Option Json}
      (id : fields.lookup "id" = none)
      (method : fields.lookup "method" = some (.str "serverRequest/resolved"))
      (request : Json.chain (fields.lookup "params") "requestId" = requestId) :
      Withdraws (.obj fields) requestId

/-- One effect of a synchronous section. -/
inductive Effect (env : Env) (cause : Cause) (w : World) : World → Prop where
  -- counters and messages without a reply
  | quiet {w' : World} (h : w.Quiet w') : Effect env cause w w'
  | said {g : Nat} {message : Outbound}
      (plain : message = .initialized ∨ ∃ id, message = .unsupported id) :
      Effect env cause w (w.wrote g message)
  | skipped {id : String} {requestId : Option Json} {via : Via} :
      Effect env cause w (w.commit (.update id (.resolvedByRuntime requestId) via) w.db)
  -- requests to the runtime
  | registered {g : Nat} {call : Rpc} {frame : Frame} (open_ : (w.codex g).closed = false)
      (issues : Issues g call frame) (follows : Follows cause w frame) (owns : w.Owns frame)
      (allows : w.Allows frame) : Effect env cause w (w.ask g call frame)
  | sent {g n : Nat} {call : Rpc} (open_ : (w.codex g).closed = false)
      (thread : ∀ directory, call = .threadStart directory →
        w.threadBudget g = 0 ∧ ∃ id k, (w.codex g).purpose = .execution id k)
      (turn : ∀ threadId task, call = .turnStart threadId task →
        w.turnBudget g = 0 ∧ ∃ id k, (w.codex g).purpose = .execution id k) :
      Effect env cause w (w.wrote g (.request n call))
  | pushed {frame : Frame} {result : Except Err Json} (follows : Follows cause w frame)
      (owns : w.Owns frame) (allows : w.Allows frame)
      (unanswered : ∀ id g attempt, frame = .threadRead id g attempt → ∃ e, result = .error e) :
      Effect env cause w (w.push ⟨frame, .ready result⟩)
  -- the end of a connection
  | cut {g : Nat} {e : Err} (open_ : (w.codex g).closed = false)
      (unheard : ∀ id, (w.codex g).listener = some id → w.live.lookup id ≠ some g) :
      Effect env cause w (w.shut g e)
  | lost {g : Nat} {e : Err} {id : String} {w' : World} (open_ : (w.codex g).closed = false)
      (listener : (w.codex g).listener = some id) (live : w.live.lookup id = some g)
      (uncertain : (w.shut g e).Uncertain env id w') :
      Effect env cause w (w'.start (.release id g))
  | doubted {id : String} {w' : World} (absent : w.live.lookup id = none)
      (uncertain : w.Uncertain env id w') (source : Doubts id cause) : Effect env cause w w'
  | undelivered {g : Nat} {id : String} {w' : World} {tasks : List Task}
      (command : cause = .command tasks) (live : w.live.lookup id = some g)
      (uncertain : w.Uncertain env id w') : Effect env cause w (w'.start (.release id g))
  | abandoned {g : Nat} {id : String} {closing : Bool} {w' : World} (range : w.Current g)
      (source : (w.live.lookup id = some g ∧ Doubts id cause) ∨ ∃ k result,
        cause.Resumes (.threadStarted id g k) result ∨ cause.Resumes (.turnStarted id g k) result)
      (own : ∀ other, (w.codex g).listener = some other → other = id)
      (uncertain : w.Uncertain env id w') : Effect env cause w (w'.release id g closing)
  | releaseJob {g : Nat} {id : String} {result : Except Err Json}
      (range : w.Current g) (resumes : cause.Resumes (.release id g) result) :
      Effect env cause w (w.release id g false)
  | inspected {g : Nat} {id : String} (range : w.Current g)
      (resumes : ∃ result,
        (∃ attempt, cause.Resumes (.connected g (.reconcile id attempt)) result) ∨
        ∃ attempt, cause.Resumes (.threadRead id g attempt) result)
      (unheard : (w.codex g).listener = none) :
      Effect env cause w (w.release id g false)
  | exited {g : Nat} (running : (w.codex g).process = .running) :
      Effect env cause w { w.setCodex g fun c => { c with process := .exited } with
        tasks := w.tasks.map (Task.exit g) }
  | freed {g : Nat} {id : String} {closing : Bool} {result : Except Err Json}
      (resumes : cause.Resumes (.released id g closing) result)
      (closed : (w.codex g).closed = true) (listener : (w.codex g).listener = none)
      (process : (w.codex g).process ≠ .running) :
      Effect env cause w { w with
        live := if w.live.lookup id = some g then w.live.erase id else w.live }
  | reset (restart : cause = .restart) : Effect env cause w w.reset
  -- the course of an attempt
  | begun {id : String} {r r' : Run} {db : Db} (job : ∃ result, cause.Resumes .schedule result)
      (idle : w.live.entries = [])
      (queued : r.status = .queued)
      (writes : w.db.Writes (env.moment w.clock) id .startAttempt r r' db) :
      Effect env cause w
        ((((w.commit (.update id .startAttempt .service) db).create env
          (.execution id r'.attempts.length)).enter id w.created).attach id w.created)
  | misfired {id message : String} {r r' r'' : Run} {db db' : Db}
      (job : ∃ result, cause.Resumes .schedule result) (idle : w.live.entries = [])
      (queued : r.status = .queued)
      (writes : w.db.Writes (env.moment w.clock) id .startAttempt r r' db)
      (fails : db.Writes (env.moment w.clock) id (.failBeforeDispatch message)
        (Db.bump (env.moment w.clock) r') r'' db') :
      Effect env cause w ((w.commit (.update id .startAttempt .service) db).commit
        (.update id (.failBeforeDispatch message) .service) db')
  | spawned {g : Nat} {id : String} (open_ : (w.codex g).closed = false)
      (unspawned : (w.codex g).process = .unspawned) (live : w.live.lookup id = some g) :
      Effect env cause w (w.setCodex g fun c => { c with process := .running })
  | gaveUp {g k : Nat} {id directory : String} {e : Err} {r r' : Run} {db : Db}
      (resumes : cause.Resumes (.connected g (.execute id k directory)) (.error e))
      (owns : w.Owns (.connected g (.execute id k directory)))
      (writes : w.db.Writes (env.moment w.clock) id (.failBeforeDispatch e.message) r r' db) :
      Effect env cause w
        ((w.commit (.update id (.failBeforeDispatch e.message) .service) db).release id g false)
  | boundThread {g k : Nat} {id : String} {thread : Json} {value : Option Json} {r r' : Run}
      {db : Db} (resumes : cause.Resumes (.threadStarted id g k) (.ok thread))
      (owns : w.Owns (.threadStarted id g k))
      (writes : w.db.Writes (env.moment w.clock) id (.bindThread value) r r' db) :
      Effect env cause w (w.commit (.update id (.bindThread value) (.runtime g)) db)
  | stopped {g k : Nat} {id : String} {thread : Json} {r r' : Run} {db : Db}
      (resumes : cause.Resumes (.threadStarted id g k) (.ok thread))
      (owns : w.Owns (.threadStarted id g k)) (unsent : w.turnBudget g = 0)
      (cancelling : r.status = .cancelling)
      (writes : w.db.Writes (env.moment w.clock) id .cancelBeforeTurn r r' db) :
      Effect env cause w
        ((w.commit (.update id .cancelBeforeTurn .service) db).release id g false)
  | boundReply {g k : Nat} {id : String} {response : Json} {turn value : Option Json}
      {r : Run} {a : Attempt} {db : Db}
      (resumes : cause.Resumes (.turnStarted id g k) (.ok response))
      (owns : w.Owns (.turnStarted id g k))
      (found : w.db.runs.lookup id = some r) (last : r.lastAttempt = some a)
      (unbound : a.turnId = none)
      (reply : Json.read (some response) "turn" = .ok turn ∧ Json.read turn "id" = .ok value)
      (updates : w.db.Updates (env.moment w.clock) id (.bindTurn value) db) :
      Effect env cause w (w.commit (.update id (.bindTurn value) (.runtime g)) db)
  -- frames of the runtime
  | boundTurn {g : Nat} {id : String} {m : Json} {value : Option Json} {r : Run} {db : Db}
      (delivers : cause.Delivers g m) (announces : Announces m value) (heard : w.Heard g id r)
      (updates : w.db.Updates (env.moment w.clock) id (.bindTurn value) db) :
      Effect env cause w (w.commit (.update id (.bindTurn value) (.runtime g)) db)
  | progressed {g : Nat} {id : String} {m : Json} {item : Option Json} {r : Run} {db : Db}
      (delivers : cause.Delivers g m) (heard : w.Heard g id r)
      (updates : w.db.Updates (env.moment w.clock) id (.completedItem item) db) :
      Effect env cause w (w.commit (.update id (.completedItem item) (.runtime g)) db)
  | concluded {g : Nat} {id : String} {m turn : Json} {outcome : TurnOutcome} {r r' : Run}
      {a : Attempt} {db : Db} (delivers : cause.Delivers g m) (completes : Completes m turn)
      (heard : w.Heard g id r) (last : r.lastAttempt = some a)
      (same : ∀ bound, a.turnId = some bound → turn.get "id" = some (.str bound))
      (table : plainLookup TurnOutcome.table (turn.get "status") = .ok (.own outcome))
      (writes : w.db.Writes (env.moment w.clock) id (.finish turn (.own outcome)) r r' db) :
      Effect env cause w
        ((w.commit (.update id (.finish turn (.own outcome)) (.runtime g)) db).start
          (.release id g))
  | dismissed {g : Nat} {id : String} {m turn : Json} {r : Run}
      (delivers : cause.Delivers g m) (completes : Completes m turn) (heard : w.Heard g id r)
      (table : plainLookup TurnOutcome.table (turn.get "status") = .ok .missing) :
      Effect env cause w (w.start (.release id g))
  | forgot {g : Nat} {m : Json} {requestId : Option Json}
      (delivers : cause.Delivers g m) (withdraws : Withdraws m requestId)
      (unmatched : ∀ id r, w.Heard g id r →
        Service.otherThread (m.get "params") r.lastAttempt = true ∨
        ∀ a ∈ r.approvals, a.status = .pending → some a.requestId ≠ requestId) :
      Effect env cause w (w.forgetNamed g requestId)
  | withdrawn {g : Nat} {id : String} {m : Json} {requestId : Option Json} {r r' : Run}
      {db : Db} (delivers : cause.Delivers g m) (withdraws : Withdraws m requestId)
      (heard : w.Heard g id r)
      (writes : w.db.Writes (env.moment w.clock) id (.resolvedByRuntime requestId) r r' db) :
      Effect env cause w ((w.forgetNamed g requestId).commit
        (.update id (.resolvedByRuntime requestId) (.runtime g)) db)
  | requested {g : Nat} {m : Json} {key : MapKey} (delivers : cause.Delivers g m)
      (open_ : (w.codex g).closed = false) (unlisted : key ∉ (w.codex g).approvals) :
      Effect env cause w (w.note g key)
  | asked {g k frame : Nat} {id : String} {m requestId details : Json} {value : Option Json}
      {kind : ApprovalKind} {r r₁ r₂ : Run} {db₁ db₂ : Db} (delivers : cause.Delivers g m)
      (announces : Announces m value) (heard : w.Heard g id r)
      (unlisted : MapKey.ofJson frame requestId ∉ (w.codex g).approvals)
      (binds : w.db.Updates (env.moment w.clock) id (.bindTurn value) db₁)
      (status : r₁.status = .running ∨ r₁.status = .waitingApproval)
      (writes : db₁.Writes (env.moment w.clock) id (.requestApproval (env.uuid w.uuids) k
        (.own kind) requestId (w.codex g).generation details) r₁ r₂ db₂)
      (number : ∃ a, r.lastAttempt = some a ∧ a.attempt = k) :
      Effect env cause w
        ({ (w.note g (.ofJson frame requestId)).commit
            (.update id (.bindTurn value) (.runtime g)) db₁ with uuids := w.uuids + 1 }.commit
          (.update id (.requestApproval (env.uuid w.uuids) k (.own kind) requestId
            (w.codex g).generation details) (.runtime g)) db₂)
  | replied {g n : Nat} {call : Rpc} {fields : List (String × Json)} {result : Json}
      (delivers : cause.Delivers g (.obj fields))
      (reply : fields.lookup "result" = some result)
      (pending : (n, call) ∈ (w.codex g).pending) :
      Effect env cause w { w.answer g n (List.map (Task.settle g n (.ok result))) with
        log := .replied g call result :: w.log }
  | rejected {g n : Nat} {e : Err} :
      Effect env cause w (w.answer g n (List.map (Task.settle g n (.error e))))
  | dropped {g n : Nat} :
      Effect env cause w (w.answer g n (List.filter fun t => !t.awaits g n))
  -- decisions and reconciliation
  | answered {g : Nat} {key : MapKey} {decision : Decision}
      (listed : key ∈ (w.codex g).approvals)
      (source : (decision = .decline ∧ ∃ older, w.log = .requested g key :: older) ∨
        ∃ c id before r r' a a', w.Decided g key decision c id before r r' a a') :
      Effect env cause w ((w.wrote g (.decision key decision)).forget g key)
  | inspecting {id : String} {r : Run} (job : ∃ result, cause.Resumes (.reconcile id) result)
      (idle : w.live.entries = [])
      (found : w.db.runs.lookup id = some r) (status : r.status = .recoveryRequired) :
      Effect env cause w ((w.create env (.inspection id)).enter id w.created)
  | noted {id outcome message : String} {db : Db}
      (updates : w.db.Updates (env.moment w.clock) id (.reconciled outcome message) db)
      (source : ∀ r, w.db.runs.lookup id = some r → Inspects cause id r) :
      Effect env cause w (w.commit (.update id (.reconciled outcome message) .service) db)
  | imported {g : Nat} {id : String} {attempt : Attempt} {response turn : Json}
      {outcome : TurnOutcome} {r r' : Run} {db : Db}
      (resumes : cause.Resumes (.threadRead id g attempt) (.ok response))
      (owns : w.Owns (.threadRead id g attempt))
      (selects : Service.selectTurn attempt response = .ok (some turn))
      (final : Service.isFinalTurn turn = true)
      (table : plainLookup TurnOutcome.table (turn.get "status") = .ok (.own outcome))
      (writes : w.db.Writes (env.moment w.clock) id (.finish turn (.own outcome)) r r' db) :
      Effect env cause w
        ((w.commit (.update id (.finish turn (.own outcome)) (.history g response)) db).release
          id g false)
  -- commands
  | replayed {c : Command} : Effect env cause w (w.accept c true w.db)
  | projectCreated {c : Command} {name : String} {receipt : Receipt}
      (request : c.request = .createProject name)
      (unused : w.db.receipts.lookup c.idempotencyKey = none) :
      Effect env cause w (w.accept c false { w.db.addProject
          ⟨env.uuid w.uuids, name, (env.moment w.clock).time⟩ with
        receipts := w.db.receipts.insert c.idempotencyKey receipt })
  | runCreated {c : Command} {projectId : String} {task : ModelingTask} {r : Run}
      {receipt : Receipt} {payload : Json}
      (request : c.request = .createRun projectId task)
      (unused : w.db.receipts.lookup c.idempotencyKey = none)
      (run : r = Db.bump (env.moment w.clock)
        (Service.newRun (env.moment w.clock) (env.uuid w.uuids) projectId task))
      (valid : r.Valid) (object : payload.isObject = true) :
      Effect env cause w (w.accept c false { w.db.write r
          (Db.eventOf (env.moment w.clock) r .runCreated payload) with
        receipts := w.db.receipts.insert c.idempotencyKey receipt })
  | commanded {c : Command} {id : String} {version : Number} {op : RunOp} {r r' : Run}
      {db : Db} {receipt : Receipt} (command : cause = .command w.tasks)
      (request : c.request = .onRun id version op)
      (unused : w.db.receipts.lookup c.idempotencyKey = none)
      (current : Number.ofNat r.stateVersion = version)
      (writes : w.db.Writes (env.moment w.clock) id (.command (Service.view w id) op) r r' db) :
      Effect env cause w (w.accept c false { db with
        receipts := db.receipts.insert c.idempotencyKey receipt })

end Mathmodel
