import Mathmodel.Backend.Steps

/-!
# The transactions of an effect

`Wrote` lists the reasons for which the service saves a run outside a command,
each with what is known there, and `Commit` the transactions. `Ledger` is the part
of the log that one effect adds: at most two transactions, and entries that leave
the tables alone. A property of the tables, or of the entries of the log, is
therefore a case analysis of `Commit` and `Wrote`.
-/

namespace Mathmodel

/-- Why a section saves the loaded run `r` with a change, and where the change
comes from. The world is the one before the effect; all but the second half of a
two-part effect load the run from it. -/
inductive Wrote (env : Env) (cause : Cause) (w : World) (id : String) (r : Run) :
    Change → Via → Prop where
  | uncertain {message : String} (found : w.db.runs.lookup id = some r)
      (status : r.status.isTerminal = false ∧ r.status ≠ .recoveryRequired)
      (started : r.attempts ≠ []) : Wrote env cause w id r (.uncertain message) .service
  | begun (found : w.db.runs.lookup id = some r) (job : ∃ result, cause.Resumes .schedule result)
      (idle : w.live.entries = []) (queued : r.status = .queued) :
      Wrote env cause w id r .startAttempt .service
  | misfired {message : String} (job : ∃ result, cause.Resumes .schedule result)
      (before : ∃ r₀, w.db.runs.lookup id = some r₀ ∧ r₀.status = .queued)
      (starting : r.status = .starting) :
      Wrote env cause w id r (.failBeforeDispatch message) .service
  | gaveUp {g k : Nat} {directory : String} {e : Err} (found : w.db.runs.lookup id = some r)
      (resumes : cause.Resumes (.connected g (.execute id k directory)) (.error e))
      (owns : w.Owns (.connected g (.execute id k directory))) :
      Wrote env cause w id r (.failBeforeDispatch e.message) .service
  | boundThread {g k : Nat} {thread : Json} {value : Option Json}
      (found : w.db.runs.lookup id = some r)
      (resumes : cause.Resumes (.threadStarted id g k) (.ok thread))
      (owns : w.Owns (.threadStarted id g k)) :
      Wrote env cause w id r (.bindThread value) (.runtime g)
  | stopped {g k : Nat} {thread : Json} (found : w.db.runs.lookup id = some r)
      (resumes : cause.Resumes (.threadStarted id g k) (.ok thread))
      (owns : w.Owns (.threadStarted id g k)) (unsent : w.turnBudget g = 0)
      (cancelling : r.status = .cancelling) :
      Wrote env cause w id r .cancelBeforeTurn .service
  | boundReply {g k : Nat} {response : Json} {turn value : Option Json} {a : Attempt}
      (found : w.db.runs.lookup id = some r)
      (resumes : cause.Resumes (.turnStarted id g k) (.ok response))
      (owns : w.Owns (.turnStarted id g k)) (last : r.lastAttempt = some a)
      (unbound : a.turnId = none)
      (reply : Json.read (some response) "turn" = .ok turn ∧ Json.read turn "id" = .ok value) :
      Wrote env cause w id r (.bindTurn value) (.runtime g)
  | boundTurn {g : Nat} {m : Json} {value : Option Json} (delivers : cause.Delivers g m)
      (announces : Announces m value) (heard : w.Heard g id r) :
      Wrote env cause w id r (.bindTurn value) (.runtime g)
  | progressed {g : Nat} {m : Json} {item : Option Json} (delivers : cause.Delivers g m)
      (heard : w.Heard g id r) : Wrote env cause w id r (.completedItem item) (.runtime g)
  | concluded {g : Nat} {m turn : Json} {outcome : TurnOutcome} {a : Attempt}
      (delivers : cause.Delivers g m) (completes : Completes m turn) (heard : w.Heard g id r)
      (last : r.lastAttempt = some a)
      (same : ∀ bound, a.turnId = some bound → turn.get "id" = some (.str bound))
      (table : plainLookup TurnOutcome.table (turn.get "status") = .ok (.own outcome)) :
      Wrote env cause w id r (.finish turn (.own outcome)) (.runtime g)
  | withdrawn {g : Nat} {m : Json} {requestId : Option Json} (delivers : cause.Delivers g m)
      (withdraws : Withdraws m requestId) (heard : w.Heard g id r) :
      Wrote env cause w id r (.resolvedByRuntime requestId) (.runtime g)
  | asked {g k : Nat} {requestId details : Json} {kind : ApprovalKind} {r₀ : Run}
      (heard : w.Heard g id r₀) (status : r.status = .running ∨ r.status = .waitingApproval)
      (number : ∃ a, r.lastAttempt = some a ∧ a.attempt = k) :
      Wrote env cause w id r (.requestApproval (env.uuid w.uuids) k (.own kind) requestId
        (w.codex g).generation details) (.runtime g)
  | noted {outcome message : String} (found : w.db.runs.lookup id = some r)
      (source : Inspects cause id r) :
      Wrote env cause w id r (.reconciled outcome message) .service
  | imported {g : Nat} {attempt : Attempt} {response turn : Json} {outcome : TurnOutcome}
      (found : w.db.runs.lookup id = some r)
      (resumes : cause.Resumes (.threadRead id g attempt) (.ok response))
      (owns : w.Owns (.threadRead id g attempt))
      (selects : Service.selectTurn attempt response = .ok (some turn))
      (final : Service.isFinalTurn turn = true)
      (table : plainLookup TurnOutcome.table (turn.get "status") = .ok (.own outcome)) :
      Wrote env cause w id r (.finish turn (.own outcome)) (.history g response)

/-- One transaction of a section, from the tables it met to those it left. -/
inductive Commit (env : Env) (cause : Cause) (w : World) : Origin → Db → Db → Prop where
  | skipped {id : String} {change : Change} {via : Via} {db : Db} :
      Commit env cause w (.update id change via) db db
  | wrote {id : String} {change : Change} {via : Via} {r r' : Run} {before after : Db}
      (why : Wrote env cause w id r change via)
      (writes : before.Writes (env.moment w.clock) id change r r' after) :
      Commit env cause w (.update id change via) before after
  | replayed {c : Command} : Commit env cause w (.command c true) w.db w.db
  | projectCreated {c : Command} {name : String} {receipt : Receipt}
      (request : c.request = .createProject name)
      (unused : w.db.receipts.lookup c.idempotencyKey = none) :
      Commit env cause w (.command c false) w.db { w.db.addProject
          ⟨env.uuid w.uuids, name, (env.moment w.clock).time⟩ with
        receipts := w.db.receipts.insert c.idempotencyKey receipt }
  | runCreated {c : Command} {projectId : String} {task : ModelingTask} {r : Run}
      {receipt : Receipt} {payload : Json}
      (request : c.request = .createRun projectId task)
      (unused : w.db.receipts.lookup c.idempotencyKey = none)
      (run : r = Db.bump (env.moment w.clock)
        (Service.newRun (env.moment w.clock) (env.uuid w.uuids) projectId task))
      (fresh : w.db.runs.lookup r.runId = none) (object : payload.isObject = true) :
      Commit env cause w (.command c false) w.db { w.db.write r
          (Db.eventOf (env.moment w.clock) r .runCreated payload) with
        receipts := w.db.receipts.insert c.idempotencyKey receipt }
  | commanded {c : Command} {id : String} {version : Number} {op : RunOp} {r r' : Run}
      {db : Db} {receipt : Receipt} (command : cause = .command w.tasks)
      (request : c.request = .onRun id version op)
      (unused : w.db.receipts.lookup c.idempotencyKey = none)
      (current : Number.ofNat r.stateVersion = version)
      (writes : w.db.Writes (env.moment w.clock) id (.command (Service.view w id) op) r r' db) :
      Commit env cause w (.command c false) w.db { db with
        receipts := db.receipts.insert c.idempotencyKey receipt }

def Entry.isCommit : Entry → Bool
  | .commit .. => true
  | _ => false

/-- The tables that the newest transaction of a log left. -/
def Db.committed : List Entry → Db
  | [] => .empty
  | .commit _ _ after :: _ => after
  | _ :: older => committed older

theorem Db.committed_other {e : Entry} (plain : e.isCommit = false) (log : List Entry) :
    Db.committed (e :: log) = Db.committed log := by
  cases e <;> first | rfl | cases plain

/-- The entries an effect adds, newest first, and the tables it leaves. -/
inductive Ledger (env : Env) (cause : Cause) (w : World) : List Entry → Db → Prop where
  | nil : Ledger env cause w [] w.db
  | commit {origin : Origin} {entries : List Entry} {before after : Db}
      (older : Ledger env cause w entries before) (sound : before.Sound)
      (commit : Commit env cause w origin before after) :
      Ledger env cause w (.commit origin before after :: entries) after
  | other {e : Entry} {entries : List Entry} {db : Db} (older : Ledger env cause w entries db)
      (plain : e.isCommit = false) : Ledger env cause w (e :: entries) db

namespace Ledger

variable {env : Env} {cause : Cause} {w w' : World} {entries : List Entry} {db : Db}

/-- What every transaction keeps is kept by the effect. -/
theorem keeps (h : Ledger env cause w entries db) {P : Db → Prop} (start : P w.db)
    (keep : ∀ origin before after, before.Sound → P before →
      Commit env cause w origin before after → P after) : P db := by
  induction h with
  | nil => exact start
  | commit older sound commit ih => exact keep _ _ _ sound ih commit
  | other older plain ih => exact ih

/-- A relation between the log and the tables that every transaction keeps, and every other
entry, is kept by the effect. -/
theorem carries (h : Ledger env cause w entries db) {I : List Entry → Db → Prop}
    (start : I w.log w.db)
    (commit : ∀ origin before after log, before.Sound → Commit env cause w origin before after →
      I log before → I (.commit origin before after :: log) after)
    (other : ∀ e log db, e.isCommit = false → I log db → I (e :: log) db) :
    I (entries ++ w.log) db := by
  induction h with
  | nil => exact start
  | commit older sound committed ih => exact commit _ _ _ _ sound committed ih
  | other older plain ih => exact other _ _ _ plain ih

theorem one {origin : Origin} {after : Db} (h : w.Sound env)
    (commit : Commit env cause w origin w.db after) :
    Ledger env cause w [.commit origin w.db after] after := .commit .nil h.db commit

theorem wrote {e : Entry} (plain : e.isCommit = false) : Ledger env cause w [e] w.db :=
  .other .nil plain

end Ledger

theorem Change.Saves.starting {m : Moment} {r r' : Run} (h : Change.startAttempt.Saves m r r') :
    r'.status = .starting := by
  cases h
  rfl

section Effects

variable {env : Env} {cause : Cause} {w w' : World}

theorem Db.Updates.commit {id : String} {change : Change} {via : Via} {db' : Db}
    (h : w.db.Updates (env.moment w.clock) id change db')
    (why : ∀ r, w.db.runs.lookup id = some r → Wrote env cause w id r change via) :
    Commit env cause w (.update id change via) w.db db' := by
  cases h with
  | same found skipped => exact .skipped
  | wrote writes => exact .wrote (why _ writes.found) writes

theorem World.Uncertain.ledger {id : String} {v : World} (h : w.Sound env) (db : v.db = w.db)
    (clock : v.clock = w.clock) (uncertain : v.Uncertain env id w') :
    ∃ entries, w'.log = entries ++ v.log ∧ Ledger env cause w entries w'.db := by
  cases uncertain with
  | settled found status => exact ⟨[], rfl, by rw [db]; exact .nil⟩
  | marked status started writes =>
      rw [db, clock] at writes
      refine ⟨[_], rfl, ?_⟩
      rw [db]
      exact .one h (.wrote (.uncertain writes.found status started) writes)

/-- Binding a turn keeps the number of the attempt. -/
theorem Db.Updates.bindTurn_number {db db' : Db} {m : Moment} {id : String} {value : Option Json}
    {r r' : Run} {k : Nat} (h : db.Updates m id (.bindTurn value) db') (sound : db.Sound)
    (found : db.runs.lookup id = some r) (number : ∃ a, r.lastAttempt = some a ∧ a.attempt = k)
    (found' : db'.runs.lookup id = some r') : ∃ a, r'.lastAttempt = some a ∧ a.attempt = k := by
  cases h with
  | same _ skipped =>
      have same := found.symm.trans found'
      cases same
      exact number
  | wrote writes =>
      have same := writes.found.symm.trans found
      cases same
      have same := (writes.lookup_self sound).symm.trans found'
      cases same
      obtain ⟨a, last, rfl⟩ := number
      have saves := writes.saves
      cases saves with
      | bindTurn last' unbound typed =>
          have same := last.symm.trans last'
          cases same
          exact ⟨_, Run.setLast_lastAttempt _ _, rfl⟩

/-- Every effect adds a ledger to the log. -/
theorem Effect.ledger (h : w.Sound env) (effect : Effect env cause w w') :
    ∃ entries, w'.log = entries ++ w.log ∧ Ledger env cause w entries w'.db := by
  cases effect with
  | quiet quiet => exact ⟨[], quiet.log, by rw [quiet.db]; exact .nil⟩
  | said plain => exact ⟨[_], rfl, .wrote rfl⟩
  | skipped => exact ⟨[_], rfl, .one h .skipped⟩
  | sent open_ thread turn => exact ⟨[_], rfl, .wrote rfl⟩
  | lost open_ listener live uncertain =>
      obtain ⟨entries, log, ledger⟩ :=
        World.Uncertain.ledger (v := w.shut _ _) h rfl rfl uncertain
      exact ⟨entries, log, ledger⟩
  | doubted absent uncertain source => exact uncertain.ledger h rfl rfl
  | undelivered command live uncertain =>
      obtain ⟨entries, log, ledger⟩ := uncertain.ledger h rfl rfl
      exact ⟨entries, log, ledger⟩
  | abandoned range source own uncertain =>
      simp only [World.release_log, World.release_db]
      exact uncertain.ledger h rfl rfl
  | releaseJob range resumes => exact ⟨[], by simp, by simp only [World.release_db]; exact .nil⟩
  | inspected range resumes unheard =>
      exact ⟨[], by simp, by simp only [World.release_db]; exact .nil⟩
  | reset restart => exact ⟨[_], rfl, .wrote rfl⟩
  | begun job idle queued writes =>
      exact ⟨[_, _], rfl, .other (.one h (.wrote (.begun writes.found job idle queued) writes)) rfl⟩
  | misfired job idle queued writes fails =>
      have starting : (Db.bump (env.moment w.clock) _).status = _ := writes.saves.starting
      have begun := Ledger.one h (.wrote (.begun writes.found job idle queued) writes)
      exact ⟨[_, _], rfl, .commit begun (writes.sound h.db trivial nofun)
        (.wrote (.misfired job ⟨_, writes.found, queued⟩ starting) fails)⟩
  | gaveUp resumes owns writes =>
      simp only [World.release_log, World.release_db]
      exact ⟨[_], rfl, .one h (.wrote (.gaveUp writes.found resumes owns) writes)⟩
  | boundThread resumes owns writes =>
      exact ⟨[_], rfl, .one h (.wrote (.boundThread writes.found resumes owns) writes)⟩
  | stopped resumes owns unsent cancelling writes =>
      simp only [World.release_log, World.release_db]
      exact ⟨[_], rfl, .one h
        (.wrote (.stopped writes.found resumes owns unsent cancelling) writes)⟩
  | boundReply resumes owns found last unbound reply updates =>
      refine ⟨[_], rfl, .one h (updates.commit fun s found' => ?_)⟩
      have same := found.symm.trans found'
      cases same
      exact .boundReply found resumes owns last unbound reply
  | boundTurn delivers announces heard updates =>
      refine ⟨[_], rfl, .one h (updates.commit fun s found => ?_)⟩
      have same := heard.found.symm.trans found
      cases same
      exact .boundTurn delivers announces heard
  | progressed delivers heard updates =>
      refine ⟨[_], rfl, .one h (updates.commit fun s found => ?_)⟩
      have same := heard.found.symm.trans found
      cases same
      exact .progressed delivers heard
  | concluded delivers completes heard last same table writes =>
      have found := writes.found.symm.trans heard.found
      cases found
      exact ⟨[_], rfl, .one h (.wrote (.concluded delivers completes heard last same table) writes)⟩
  | withdrawn delivers withdraws heard writes =>
      have found := writes.found.symm.trans heard.found
      cases found
      exact ⟨[_], rfl, .one h (.wrote (.withdrawn delivers withdraws heard) writes)⟩
  | requested delivers open_ unlisted => exact ⟨[_], rfl, .wrote rfl⟩
  | asked delivers announces heard unlisted binds status writes number =>
      have numbered := binds.bindTurn_number h.db heard.found number writes.found
      refine ⟨[_, _, _], rfl, .commit ?_ ?_ (.wrote (.asked heard status numbered) writes)⟩
      · refine .commit (.wrote rfl) h.db (binds.commit fun s found => ?_)
        have same := heard.found.symm.trans found
        cases same
        exact .boundTurn delivers announces heard
      · cases binds with
        | same found skipped => exact h.db
        | wrote writes => exact writes.sound h.db trivial nofun
  | replied delivers reply pending => exact ⟨[_], rfl, .wrote rfl⟩
  | answered listed source => exact ⟨[_], rfl, .wrote rfl⟩
  | inspecting job idle found status => exact ⟨[_], rfl, .wrote rfl⟩
  | noted updates source =>
      exact ⟨[_], rfl, .one h (updates.commit fun r found => .noted found (source r found))⟩
  | imported resumes owns selects final table writes =>
      simp only [World.release_log, World.release_db]
      exact ⟨[_], rfl, .one h
        (.wrote (.imported writes.found resumes owns selects final table) writes)⟩
  | replayed => exact ⟨[_], rfl, .one h .replayed⟩
  | projectCreated request unused => exact ⟨[_], rfl, .one h (.projectCreated request unused)⟩
  | runCreated request unused run valid object =>
      refine ⟨[_], rfl, .one h (.runCreated request unused run ?_ object)⟩
      rw [run]
      exact h.lookup_fresh
  | commanded command request unused current writes =>
      exact ⟨[_], rfl, .one h (.commanded command request unused current writes)⟩
  | _ => exact ⟨[], rfl, .nil⟩

/-- A relation between the log and the tables that every transaction keeps, and
every other entry, holds in every reachable state. -/
theorem Reaches.ledger {I : List Entry → Db → Prop} (run : Reaches (Step env) .init w)
    (start : I [] .empty)
    (commit : ∀ cause w origin before after log, w.Sound env → before.Sound →
      Commit env cause w origin before after → I log before →
      I (.commit origin before after :: log) after)
    (other : ∀ e log db, e.isCommit = false → I log db → I (e :: log) db) : I w.log w.db := by
  refine run.keeps (I := fun w => I w.log w.db) start (fun _ _ _ h => h) ?_ (fun _ h => h)
  intro cause v v' sound effect holds
  obtain ⟨entries, log, ledger⟩ := effect.ledger sound
  rw [log]
  exact ledger.carries holds (fun _ _ _ _ => commit _ _ _ _ _ _ sound) other

/-- The tables are those that the newest transaction left, after an effect as before it. -/
theorem Effect.committed {cause : Cause} {w' : World} (sound : w.Sound env)
    (effect : Effect env cause w w') (h : w.db = Db.committed w.log) :
    w'.db = Db.committed w'.log := by
  obtain ⟨entries, log, ledger⟩ := effect.ledger sound
  rw [log]
  refine ledger.carries (I := fun log db => db = Db.committed log) h (fun _ _ _ _ _ _ _ => rfl) ?_
  exact fun e log db plain same => same.trans (Db.committed_other plain log).symm

end Effects

/-! ## Runs -/

/-- What a transaction does to one run: nothing, or it creates the run, or it
saves the next version of it. -/
theorem Commit.run {env : Env} {cause : Cause} {w : World} {origin : Origin} {before after : Db}
    (commit : Commit env cause w origin before after) (sound : before.Sound) {id : String}
    {r' : Run} (found' : after.runs.lookup id = some r') :
    before.runs.lookup id = some r' ∨
    (∃ m projectId task, before.runs.lookup id = none ∧
      r' = Db.bump m (Service.newRun m id projectId task)) ∨
    (∃ r s change via, origin = .update id change via ∧ before.runs.lookup id = some r ∧
      Wrote env cause w id r change via ∧ change.Saves (env.moment w.clock) r s ∧
      r' = Db.bump (env.moment w.clock) s) ∨
    ∃ r s c version op, origin = .command c false ∧ before = w.db ∧ cause = .command w.tasks ∧
      c.request = .onRun id version op ∧ Number.ofNat r.stateVersion = version ∧
      before.runs.lookup id = some r ∧
      (Change.command (Service.view w id) op).Saves (env.moment w.clock) r s ∧
      r' = Db.bump (env.moment w.clock) s := by
  cases commit with
  | skipped => exact .inl found'
  | replayed => exact .inl found'
  | projectCreated request unused => exact .inl found'
  | wrote why writes =>
      obtain ⟨rfl, rfl⟩ | ⟨-, found⟩ := writes.lookup sound found'
      · exact .inr (.inr (.inl ⟨_, _, _, _, rfl, writes.found, why, writes.saves, rfl⟩))
      · exact .inl found
  | runCreated request unused run fresh object =>
      rename_i r _ payload
      obtain ⟨name, rfl⟩ | ⟨-, found⟩ :=
        Db.write_lookup (e := Db.eventOf (env.moment w.clock) r .runCreated payload) found'
      · have own : id = env.uuid w.uuids := by
          rw [name, run]
          rfl
        rw [← own] at run
        exact .inr (.inl ⟨_, _, _, by rw [name]; exact fresh, run⟩)
      · exact .inl found
  | commanded command request unused current writes =>
      obtain ⟨rfl, rfl⟩ | ⟨-, found⟩ := writes.lookup sound found'
      · exact .inr (.inr (.inr ⟨_, _, _, _, _, rfl, rfl, command, request, current, writes.found,
          writes.saves, rfl⟩))
      · exact .inl found

/-! ## Versions -/

/-- Version of a run, zero before it exists. -/
def Db.versionOf (db : Db) (id : String) : Nat :=
  match db.runs.lookup id with
  | some r => r.stateVersion
  | none => 0

/-- A transaction that stores the next version of a run with its event. -/
structure Db.Stores (before after : Db) (r : Run) (e : Event) : Prop where
  version : r.stateVersion = before.versionOf r.runId + 1
  level : r.lastSequence = r.stateVersion
  event : e.runId = r.runId ∧ e.sequence = r.lastSequence ∧ e.stateVersion = r.stateVersion
  runs : after.runs = before.runs.insert r.runId r
  events : after.events = before.events ++ [e]

theorem Db.Writes.stores {db db' : Db} {m : Moment} {id : String} {change : Change} {r r' : Run}
    (h : db.Writes m id change r r' db') (sound : db.Sound) :
    ∃ e, db.Stores db' (Db.bump m r') e := by
  have runId := h.bump_runId sound
  obtain ⟨type, payload, -, rfl⟩ := h.result
  obtain ⟨-, -, -, version, sequence⟩ := h.saves.identity
  refine ⟨_, ⟨?_, ?_, ⟨rfl, rfl, rfl⟩, rfl, rfl⟩⟩
  · rw [runId, Db.versionOf, h.found]
    simp only [Db.bump, version]
  · simp only [Db.bump, version, sequence, (sound.runs id r h.found).level]

/-- The transactions by what they do to runs and events. -/
inductive Shape (origin : Origin) (before after : Db) : Prop where
  | same (runs : after.runs = before.runs) (events : after.events = before.events)
      (unnamed : ∀ c id version op, origin = .command c false →
        c.request ≠ .onRun id version op)
  | update {m : Moment} {id : String} {change : Change} {via : Via} {r r' : Run}
      (from_ : origin = .update id change via) (plain : ∀ view op, change ≠ .command view op)
      (writes : before.Writes m id change r r' after)
  | created {m : Moment} {c : Command} {id projectId : String} {task : ModelingTask} {r : Run}
      {payload : Json} (from_ : origin = .command c false)
      (request : c.request = .createRun projectId task)
      (run : r = Db.bump m (Service.newRun m id projectId task))
      (fresh : before.runs.lookup r.runId = none)
      (runs : after.runs = before.runs.insert r.runId r)
      (events : after.events = before.events ++ [Db.eventOf m r .runCreated payload])
  | command {m : Moment} {c : Command} {id : String} {version : Number} {op : RunOp}
      {view : View} {r r' : Run} {db : Db} (from_ : origin = .command c false)
      (request : c.request = .onRun id version op)
      (current : Number.ofNat r.stateVersion = version)
      (writes : before.Writes m id (.command view op) r r' db)
      (runs : after.runs = db.runs) (events : after.events = db.events)

theorem Commit.shape {env : Env} {cause : Cause} {w : World} {origin : Origin}
    {before after : Db} (commit : Commit env cause w origin before after) :
    Shape origin before after := by
  cases commit with
  | skipped => exact .same rfl rfl nofun
  | replayed => exact .same rfl rfl nofun
  | projectCreated request unused =>
      refine .same rfl rfl ?_
      rintro c id version op ⟨⟩ request'
      rw [request] at request'
      cases request'
  | runCreated request unused run fresh object => exact .created rfl request run fresh rfl rfl
  | commanded command request unused current writes =>
      exact .command rfl request current writes rfl rfl
  | wrote why writes =>
      refine .update rfl ?_ writes
      rintro view op rfl
      cases why

/-- A transaction leaves runs and events alone or stores one version of one run. -/
theorem Shape.stores {origin : Origin} {before after : Db} (shape : Shape origin before after)
    (sound : before.Sound) :
    (after.runs = before.runs ∧ after.events = before.events) ∨
      ∃ r e, before.Stores after r e := by
  cases shape with
  | same runs events unnamed => exact .inl ⟨runs, events⟩
  | update from_ plain writes => exact .inr ⟨_, writes.stores sound⟩
  | created from_ request run fresh runs events =>
      refine .inr ⟨_, _, ?_, ?_, ⟨rfl, rfl, rfl⟩, runs, events⟩
      · rw [Db.versionOf, fresh, run]
        rfl
      · rw [run]
        rfl
  | command from_ request current writes runs events =>
      obtain ⟨e, stores⟩ := writes.stores sound
      exact .inr ⟨_, e, stores.version, stores.level, stores.event, runs.trans stores.runs,
        events.trans stores.events⟩

end Mathmodel
