import Mathmodel.Backend.Contracts
import Mathmodel.Json.Text

/-!
# The durable store

The four tables of the SQLite database and the operations of `Store`. A
transaction is a function from the committed tables to either an error, after
which the tables are as before (`ROLLBACK`), or the next committed tables
(`COMMIT`). Rows are addressed by their primary keys.
-/

namespace Mathmodel

/-- What a synchronous section reads from its surroundings besides the state:
the clock, and the text the schema validator reports for a rejected value. -/
structure Moment where
  time : String
  errorsText : String

/-- The error `validate` throws. -/
def Moment.schemaError (m : Moment) (kind : String) : Err :=
  .domain .invalidRequest (slice (kind ++ ": " ++ m.errorsText) 2000)

def conflict {α : Type} (message : String) : Except Err α :=
  throw (.domain .conflict message)

/-- Value of a receipt: the record that the command created or saved. -/
inductive ReceiptValue where
  | project (value : Project)
  | run (value : Run)
  deriving DecidableEq

structure Receipt where
  digest : String
  body : ReceiptValue
  deriving DecidableEq

structure Db where
  projects : AList fun _ : String => Project
  runs : AList fun _ : String => Run
  events : List Event
  receipts : AList fun _ : String => Receipt

namespace Db

def empty : Db := ⟨∅, ∅, [], ∅⟩

def project (db : Db) (id : String) : Except Err Project :=
  match db.projects.lookup id with
  | some p => pure p
  | none => throw (.domain .notFound "Project not found")

def addProject (db : Db) (p : Project) : Db :=
  { db with projects := db.projects.insert p.projectId p }

def run (db : Db) (id : String) : Except Err Run :=
  match db.runs.lookup id with
  | some r => pure r
  | none => throw (.domain .notFound "Run not found")

/-- All runs, `ORDER BY id`. -/
def allRuns (db : Db) : List Run :=
  (db.runs.entries.map Sigma.snd).insertionSort fun a b => a.runId.toList ≤ b.runId.toList

/-- Events of one run, in the order of their rows. -/
def eventsOf (db : Db) (id : String) : List Event := db.events.filter (·.runId == id)

/-- The row and the event that one `save` writes. -/
def write (db : Db) (r : Run) (e : Event) : Db :=
  { db with runs := db.runs.insert r.runId r, events := db.events ++ [e] }

/-- The run as `save` stores it: next version, next sequence, current time. -/
def bump (m : Moment) (r : Run) : Run :=
  { r with
    stateVersion := r.stateVersion + 1
    lastSequence := r.lastSequence + 1
    updatedAt := m.time }

def eventOf (m : Moment) (r : Run) (type : EventType) (payload : Json) : Event :=
  { runId := r.runId
    sequence := r.lastSequence
    stateVersion := r.stateVersion
    type := type
    time := m.time
    payload := payload.stored }

/-- The pair `(run_id, sequence)` is the primary key of the events table. -/
def hasEvent (db : Db) (id : String) (sequence : Nat) : Bool :=
  db.events.any fun e => e.runId == id && e.sequence == sequence

def save (db : Db) (m : Moment) (r : Run) (type : EventType) (payload : Json) :
    Except Err (Run × Db) :=
  let r := bump m r
  if ¬r.Valid then throw (m.schemaError "run")
  else if ¬payload.isObject then throw (m.schemaError "event")
  else if db.hasEvent r.runId r.lastSequence then
    throw (.error "UNIQUE constraint failed: events.run_id, events.sequence")
  else pure (r, db.write r (eventOf m r type payload))

/-- What a command returns: the receipt value, and whether it is a replay. -/
structure Outcome where
  replay : Bool
  value : ReceiptValue
  deriving DecidableEq

/-- Run `fn` under an idempotency key. A known key with the same digest returns
the stored receipt, with another digest it is a conflict. -/
def command (db : Db) (key digest : String) (fn : Except Err (ReceiptValue × Db)) :
    Except Err (Outcome × Db) :=
  match db.receipts.lookup key with
  | some prior =>
      if prior.digest ≠ digest then conflict "Idempotency key reused"
      else pure (⟨true, prior.body⟩, db)
  | none => do
      let (value, next) ← fn
      pure (⟨false, value⟩,
        { next with receipts := next.receipts.insert key ⟨digest, value⟩ })

end Db

end Mathmodel
