import Mathmodel.Backend.Ledger
import Mathmodel.Backend.Script

/-!
# Events and versions

The log lists the committed transactions. Read from its end it tells the history
of the tables: each transaction starts from the tables that the one before it
left, and a run and its events move together, one version and one event at a
time. Optimistic locking of commands follows from that.
-/

namespace Mathmodel

namespace Db

variable {before after : Db} {r : Run} {e : Event}

theorem Stores.eventsOf_self (h : before.Stores after r e) :
    after.eventsOf r.runId = before.eventsOf r.runId ++ [e] := by
  simp [Db.eventsOf, h.events, List.filter_append, h.event.1]

theorem Stores.eventsOf_ne (h : before.Stores after r e) {id : String} (ne : id ≠ r.runId) :
    after.eventsOf id = before.eventsOf id := by
  simp [Db.eventsOf, h.events, List.filter_append, h.event.1, Ne.symm ne]

/-- A transaction moves a run and its events together, by one version, or not at
all. -/
structure Moves (before after : Db) (id : String) (body : Run) (event : Event) : Prop where
  stored : after.runs.lookup id = some body
  version : body.stateVersion = before.versionOf id + 1
  appended : after.eventsOf id = before.eventsOf id ++ [event]
  sequence : event.sequence = body.stateVersion
  stamp : event.stateVersion = body.stateVersion

def Together (before after : Db) : Prop :=
  ∀ id, (after.runs.lookup id = before.runs.lookup id ∧
      after.eventsOf id = before.eventsOf id) ∨
    ∃ body event, before.Moves after id body event

theorem Stores.moves (h : before.Stores after r e) : before.Moves after r.runId r e where
  stored := by simp [h.runs]
  version := h.version
  appended := h.eventsOf_self
  sequence := h.event.2.1.trans h.level
  stamp := h.event.2.2

theorem Stores.together (h : before.Stores after r e) : before.Together after := by
  intro id
  by_cases same : id = r.runId
  · subst same
    exact .inr ⟨r, e, h.moves⟩
  · exact .inl ⟨by rw [h.runs, AList.lookup_insert_ne same], h.eventsOf_ne same⟩

theorem Together.versionOf_le (h : before.Together after) (id : String) :
    before.versionOf id ≤ after.versionOf id := by
  obtain ⟨same, -⟩ | ⟨body, event, moves⟩ := h id
  · simp only [Db.versionOf, same, le_refl]
  · have version := moves.version
    simp only [Db.versionOf, moves.stored] at version ⊢
    omega

theorem Together.eventsOf_subset (h : before.Together after) {id : String} {e : Event}
    (member : e ∈ before.eventsOf id) : e ∈ after.eventsOf id := by
  obtain ⟨-, same⟩ | ⟨body, event, moves⟩ := h id
  · rwa [same]
  · rw [moves.appended]
    exact List.mem_append_left _ member

end Db

theorem Shape.together {origin : Origin} {before after : Db} (shape : Shape origin before after)
    (sound : before.Sound) : before.Together after := by
  obtain ⟨runs, events⟩ | ⟨r, e, stores⟩ := shape.stores sound
  · exact fun id => .inl ⟨by rw [runs], by simp only [Db.eventsOf, events]⟩
  · exact stores.together

/-- An accepted command on a run changes the version it names. -/
theorem Shape.named {c : Command} {before after : Db} {id : String} {version : Number}
    {op : RunOp} (shape : Shape (.command c false) before after) (sound : before.Sound)
    (request : c.request = .onRun id version op) :
    ∃ r body event, before.runs.lookup id = some r ∧ version = .ofNat r.stateVersion ∧
      before.Moves after id body event := by
  cases shape with
  | same runs events unnamed => exact absurd request (unnamed c id version op rfl)
  | update from_ plain writes => cases from_
  | created from_ request' run fresh runs events =>
      cases from_
      rw [request] at request'
      cases request'
  | command from_ request' current writes runs events =>
      cases from_
      rw [request] at request'
      cases request'
      obtain ⟨e, stores⟩ := writes.stores sound
      have moves := stores.moves
      rw [writes.bump_runId sound] at moves
      refine ⟨_, _, e, writes.found, current.symm, ?_, moves.version, ?_, moves.sequence,
        moves.stamp⟩
      · rw [runs, moves.stored]
      · simpa only [Db.eventsOf, events] using moves.appended

/-- A log and the tables at its end. -/
structure Recorded (log : List Entry) (db : Db) : Prop where
  tables : db = Db.committed log
  chained : ∀ newer origin before after older,
    log = newer ++ .commit origin before after :: older → before = Db.committed older
  together : ∀ origin before after, .commit origin before after ∈ log → before.Together after
  /-- Every version was committed together with its event. -/
  committed : ∀ id n, 1 ≤ n → n ≤ db.versionOf id → ∃ origin before after body event,
    .commit origin before after ∈ log ∧ before.Moves after id body event ∧
      body.stateVersion = n ∧ event ∈ db.eventsOf id
  /-- An accepted command changed the version it named. -/
  named : ∀ c before after id version op, .commit (.command c false) before after ∈ log →
    c.request = .onRun id version op →
    ∃ r body event, before.runs.lookup id = some r ∧
      version = .ofNat r.stateVersion ∧ before.Moves after id body event ∧
      r.stateVersion < db.versionOf id
  /-- No two accepted commands on a run name the same version. -/
  distinct : log.Pairwise fun newer older =>
    ∀ c c' before after before' after' id version version' op op',
      newer = .commit (.command c false) before after →
      older = .commit (.command c' false) before' after' →
      c.request = .onRun id version op → c'.request = .onRun id version' op' →
      version ≠ version'

namespace Recorded

variable {log : List Entry} {db after : Db} {origin : Origin}

theorem empty : Recorded [] .empty where
  tables := rfl
  chained := by simp
  together := by simp
  committed := by
    intro id n least most
    simp only [Db.versionOf, Db.empty, AList.lookup_empty] at most
    omega
  named := by simp
  distinct := .nil

theorem other {e : Entry} (h : Recorded log db) (plain : e.isCommit = false) :
    Recorded (e :: log) db := by
  have old : ∀ origin before after, Entry.commit origin before after ∈ e :: log →
      Entry.commit origin before after ∈ log := by
    intro origin before after member
    rcases List.mem_cons.mp member with same | member
    · rw [← same] at plain
      cases plain
    · exact member
  constructor
  case tables =>
      exact h.tables.trans (Db.committed_other plain log).symm
  case chained =>
      intro newer origin before after older split
      cases newer with
      | nil =>
          cases split
          cases plain
      | cons _ newer =>
          cases split
          exact h.chained newer origin before after older rfl
  case together => exact fun origin before after member => h.together _ _ _ (old _ _ _ member)
  case committed =>
      intro id n least most
      obtain ⟨origin, before, after, body, event, member, rest⟩ := h.committed id n least most
      exact ⟨origin, before, after, body, event, List.mem_cons_of_mem _ member, rest⟩
  case named =>
      exact fun c before after id version op member =>
        h.named c before after id version op (old _ _ _ member)
  case distinct =>
      refine .cons ?_ h.distinct
      rintro older - c c' before after before' after' id version version' op op' rfl
      cases plain

theorem commit (h : Recorded log db) (together : db.Together after)
    (named : ∀ c id version op, origin = .command c false → c.request = .onRun id version op →
      ∃ r body event, db.runs.lookup id = some r ∧ version = .ofNat r.stateVersion ∧
        db.Moves after id body event) :
    Recorded (.commit origin db after :: log) after := by
  constructor
  case tables => rfl
  case chained =>
      intro newer origin before after older split
      cases newer with
      | nil =>
          cases split
          exact h.tables
      | cons _ newer =>
          cases split
          exact h.chained newer origin before after older rfl
  case together =>
      intro origin before after member
      rcases List.mem_cons.mp member with same | member
      · cases same
        exact together
      · exact h.together _ _ _ member
  case committed =>
      intro id n least most
      by_cases old : n ≤ db.versionOf id
      · obtain ⟨origin, before, after, body, event, member, moves, version, stored⟩ :=
          h.committed id n least old
        exact ⟨origin, before, after, body, event, List.mem_cons_of_mem _ member, moves, version,
          together.eventsOf_subset stored⟩
      · obtain ⟨same, -⟩ | ⟨body, event, moves⟩ := together id
        · simp only [Db.versionOf, same] at most old
          omega
        · refine ⟨origin, db, after, body, event, by simp, moves, ?_, ?_⟩
          · have version := moves.version
            simp only [Db.versionOf, moves.stored] at most version old
            omega
          · rw [moves.appended]
            simp
  case named =>
      intro c before after' id version op member request
      rcases List.mem_cons.mp member with same | member
      · cases same
        obtain ⟨r, body, event, found, version, moves⟩ := named c id version op rfl request
        refine ⟨r, body, event, found, version, moves, ?_⟩
        have next := moves.version
        simp only [Db.versionOf, found, moves.stored] at next ⊢
        omega
      · obtain ⟨r, body, event, found, version, moves, later⟩ :=
          h.named c before after' id version op member request
        exact ⟨r, body, event, found, version, moves, later.trans_le (together.versionOf_le id)⟩
  case distinct =>
      refine .cons ?_ h.distinct
      rintro older member c c' before after before' after' id version version' op op' same rfl
        request request'
      cases same
      obtain ⟨r, -, -, found, rfl, -⟩ := named c id version op rfl request
      obtain ⟨r', -, -, -, rfl, -, later⟩ :=
        h.named c' before' after' id version' op' member request'
      intro equal
      have := Number.ofNat_injective equal
      simp only [Db.versionOf, found] at later
      omega

end Recorded

/-- Versions and events of every run, the transactions that wrote them, and the
commands that were accepted. -/
theorem Recorded.reached {env : Env} {w : World} (run : Reaches (Step env) .init w) :
    Recorded w.log w.db := by
  refine run.ledger Recorded.empty ?_ (fun e log db plain h => h.other plain)
  intro cause w origin before after log _ sound commit h
  refine h.commit (commit.shape.together sound) ?_
  rintro c id version op rfl request
  exact commit.shape.named sound request

/-- Committed events stay as they are, and versions never decrease. -/
structure Db.Extends (before after : Db) : Prop where
  events : before.events <+: after.events
  versions : ∀ id, before.versionOf id ≤ after.versionOf id

theorem Effect.extends {env : Env} {cause : Cause} {w w' : World} (h : w.Sound env)
    (effect : Effect env cause w w') : w.db.Extends w'.db := by
  obtain ⟨entries, -, ledger⟩ := effect.ledger h
  refine ledger.keeps ⟨List.prefix_refl _, fun _ => le_rfl⟩ ?_
  intro origin before after sound holds commit
  refine ⟨holds.events.trans ?_, fun id => (holds.versions id).trans
    ((commit.shape.together sound).versionOf_le id)⟩
  obtain ⟨-, same⟩ | ⟨r, e, stores⟩ := commit.shape.stores sound
  · exact same ▸ List.prefix_refl _
  · rw [stores.events]
    exact List.prefix_append _ _

theorem step_extends {env : Env} {w w' : World} {a : Action} (h : w.Sound env)
    (taken : Step env w a w') : w.db.Extends w'.db := by
  obtain ⟨cause, w₀, w₁, begins, course, rfl⟩ := step_course h taken
  have start : w₀.db = w.db := by cases begins <;> rfl
  refine course.keeps (I := fun v => w.db.Extends v.db) (begins.sound h) ?_ ?_
  · rw [start]
    exact ⟨List.prefix_refl _, fun _ => le_rfl⟩
  · intro v v' sound effect holds
    have next := effect.extends sound
    exact ⟨holds.events.trans next.events, fun id => (holds.versions id).trans (next.versions id)⟩

/-- Events and versions of the tables, and the transactions they come from. -/
structure EventLog (w : World) : Prop where
  sequences : ∀ id r, w.db.runs.lookup id = some r →
    (w.db.eventsOf id).map Event.sequence = List.range' 1 r.lastSequence
  stamped : ∀ e ∈ w.db.events, e.stateVersion = e.sequence
  level : ∀ id r, w.db.runs.lookup id = some r → r.stateVersion = r.lastSequence
  recorded : Recorded w.log w.db

/-- Events are numbered without a gap, together with the versions of their run;
no step changes an event or takes back a version. -/
theorem event_log_versions {env : Env} {w : World} (run : Reaches (Step env) .init w) :
    EventLog w ∧ ∀ a w', Step env w a w' → w.db.Extends w'.db := by
  have sound := World.Sound.reached run
  refine ⟨⟨?_, sound.db.versions, ?_, .reached run⟩, fun a w' taken => step_extends sound taken⟩
  · intro id r found
    have numbers := sound.db.sequences id
    simpa only [Db.lastSequenceOf, found] using numbers
  · intro id r found
    exact (sound.db.runs id r found).level

set_option maxRecDepth 100000 in
/-- The script that starts a run leaves three events of it. -/
theorem event_log_versions_started : ∃ w, Reaches (Step (Script.env [])) .init w ∧
    (w.db.eventsOf "uu").map Event.sequence = [1, 2, 3] ∧
    EventLog w ∧ ∀ a w', Step (Script.env []) w a w' → w.db.Extends w'.db := by
  obtain ⟨w, run, events⟩ := Script.reaches [] Script.started
    (fun w => (w.db.eventsOf "uu").map Event.sequence = [1, 2, 3]) (by decide +kernel)
  exact ⟨w, run.ofNode, of_decide_eq_true events, event_log_versions run.ofNode⟩

end Mathmodel
