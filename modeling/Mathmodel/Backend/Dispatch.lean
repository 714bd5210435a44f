import Mathmodel.Backend.Ledger
import Mathmodel.Backend.Views
import Mathmodel.Backend.Script

/-!
# Dispatched work

An attempt is appended for each accepted `start_run` or `retry_run` and never
otherwise, and its `thread/start` and `turn/start` are written at most once. The
log shows where a write comes from: the runtime was opened for the attempt right
after the transaction that appended it, and neither a restart nor an accepted
`reconcile_run` lies between the two.
-/

namespace Mathmodel

/-! ## Attempts -/

namespace Db

def attemptsOf (db : Db) (id : String) : Nat :=
  match db.runs.lookup id with
  | some r => r.attempts.length
  | none => 0

/-- A queued run is still owed an attempt. -/
def owed (db : Db) (id : String) : Nat :=
  match db.runs.lookup id with
  | some r => if r.status = .queued then 1 else 0
  | none => 0

end Db

namespace Entry

/-- Attempts of the run that the transaction appended. -/
def appended (id : String) : Entry → Nat
  | .commit _ before after => after.attemptsOf id - before.attemptsOf id
  | _ => 0

/-- An accepted `start_run` or `retry_run` for the run; a replay is not accepted. -/
def queues (id : String) : Entry → Bool
  | .commit (.command c false) _ _ =>
      match c.request with
      | .onRun run _ .start => run == id
      | .onRun run _ .retry => run == id
      | _ => false
  | _ => false

end Entry

section Attempts

variable {m : Moment} {db db' : Db} {id other : String} {change : Change} {r r' : Run}

/-- A write appends an attempt only to a queued run, and queues a run only as a
command. -/
theorem Db.Writes.owed (h : db.Writes m id change r r' db') (sound : db.Sound)
    (other : String) :
    db'.attemptsOf other - db.attemptsOf other + db'.owed other ≤ db.owed other ∨
      (other = id ∧ (∃ view op, change = .command view op ∧ (op = .start ∨ op = .retry)) ∧
        db'.attemptsOf other - db.attemptsOf other + db'.owed other ≤ 1) := by
  by_cases same : other = id
  · subst same
    have self := h.lookup_self sound
    have status : (Db.bump m r').status = r'.status := rfl
    have attempts : (Db.bump m r').attempts = r'.attempts := rfl
    simp only [Db.attemptsOf, Db.owed, h.found, self, status, attempts]
    obtain length | ⟨rfl, queued, more⟩ := h.saves.attempts_length
    · rw [length, Nat.sub_self, Nat.zero_add]
      by_cases queued' : r'.status = .queued
      · obtain queued | ⟨view, op, rfl, kind, -⟩ := h.saves.queued queued'
        · left
          rw [if_pos queued', if_pos queued]
        · right
          refine ⟨trivial, ⟨view, op, rfl, kind⟩, ?_⟩
          split <;> omega
      · left
        rw [if_neg queued']
        exact Nat.zero_le _
    · left
      have starting := h.saves.starting
      rw [more, starting, queued]
      simp
  · left
    simp only [Db.attemptsOf, Db.owed, h.lookup_ne sound same, Nat.sub_self, Nat.zero_add,
      le_refl]

theorem Shape.owed {origin : Origin} {before after : Db} (shape : Shape origin before after)
    (sound : before.Sound) (id : String) :
    after.attemptsOf id - before.attemptsOf id + after.owed id ≤
      before.owed id + if (Entry.commit origin before after).queues id then 1 else 0 := by
  cases shape with
  | same runs events unnamed =>
      simp only [Db.attemptsOf, Db.owed, runs]
      omega
  | update from_ plain writes =>
      obtain le | ⟨-, ⟨view, op, is, -⟩, -⟩ := writes.owed sound id
      · omega
      · exact absurd is (plain view op)
  | created from_ request run fresh runs events =>
      rename_i r payload
      have unstarted : r.attempts = [] ∧ r.status = .ready := by
        rw [run]
        exact ⟨rfl, rfl⟩
      by_cases same : id = r.runId
      · subst same
        simp [Db.attemptsOf, Db.owed, runs, unstarted]
      · simp only [Db.attemptsOf, Db.owed, runs, AList.lookup_insert_ne same]
        omega
  | command from_ request current writes runs events =>
      rename_i version op view r r' db
      have same : after.attemptsOf id = db.attemptsOf id ∧ after.owed id = db.owed id := by
        simp only [Db.attemptsOf, Db.owed, runs, and_self]
      rw [same.1, same.2]
      obtain le | ⟨rfl, ⟨view, op, is, kind⟩, le⟩ := writes.owed sound id
      · omega
      · cases is
        have queues : (Entry.commit origin before after).queues id = true := by
          rcases kind with rfl | rfl <;> simp [Entry.queues, from_, request]
        rw [if_pos queues]
        omega

/-- Every attempt ever appended, and one that is owed, goes back to a command that
was accepted for it. -/
theorem appended_le_queues {env : Env} {w : World} (run : Reaches (Step env) .init w)
    (id : String) :
    (w.log.map (Entry.appended id)).sum + w.db.owed id ≤ w.log.countP (Entry.queues id) := by
  refine run.ledger (I := fun log db =>
    (log.map (Entry.appended id)).sum + db.owed id ≤ log.countP (Entry.queues id)) ?_ ?_ ?_
  · simp [Db.owed, Db.empty]
  · intro cause w origin before after log _ sound commit h
    have step := commit.shape.owed sound id
    simp only [List.map_cons, List.sum_cons, List.countP_cons, Entry.appended]
    omega
  · intro e log db plain h
    have none : Entry.appended id e = 0 ∧ Entry.queues id e = false := by
      cases e <;> first | exact ⟨rfl, rfl⟩ | cases plain
    simpa [none] using h

end Attempts

/-! ## Requests of an attempt -/

namespace Entry

/-- The runtime was opened for the attempt. -/
def opensFor (g : Nat) (id : String) (k : Nat) : Entry → Bool
  | .opened h (.execution run attempt) => h == g && run == id && attempt == k
  | _ => false

/-- The runtime to which a `thread/start` was written. -/
def threadStart : Entry → Option Nat
  | .wrote g (.request _ (.threadStart _)) => some g
  | _ => none

/-- The runtime to which a `turn/start` was written. -/
def turnStart : Entry → Option Nat
  | .wrote g (.request _ (.turnStart _ _)) => some g
  | _ => none

theorem isThreadStart_iff {g : Nat} {e : Entry} :
    e.isThreadStart g = true ↔ e.threadStart = some g := by
  unfold isThreadStart threadStart
  split <;> simp

theorem isTurnStart_iff {g : Nat} {e : Entry} :
    e.isTurnStart g = true ↔ e.turnStart = some g := by
  unfold isTurnStart turnStart
  split <;> simp

theorem opensFor_iff {g k : Nat} {id : String} {e : Entry} :
    e.opensFor g id k = true ↔ e = .opened g (.execution id k) := by
  cases e with
  | opened h purpose =>
      cases purpose with
      | execution run attempt => simp [opensFor, and_assoc]
      | inspection run => simp [opensFor]
  | _ => simp [opensFor]

end Entry

/-- Requests `thread/start` written for an attempt, on whatever runtime. -/
def threadStarts (log : List Entry) (id : String) (k : Nat) : Nat :=
  log.countP fun e => e.threadStart.any fun g => log.any (·.opensFor g id k)

/-- Requests `turn/start` written for an attempt, on whatever runtime. -/
def turnStarts (log : List Entry) (id : String) (k : Nat) : Nat :=
  log.countP fun e => e.turnStart.any fun g => log.any (·.opensFor g id k)

/-- The runtime was opened for the attempt right after the transaction that
appended it to the queued run, and since then neither the service was restarted
nor a `reconcile_run` was accepted for the run. -/
def Undisturbed (log : List Entry) (g : Nat) (id : String) (k : Nat) : Prop :=
  ∃ since before after older r,
    log = since ++ .opened g (.execution id k) ::
      .commit (.update id .startAttempt .service) before after :: older ∧
    before.runs.lookup id = some r ∧ r.status = .queued ∧ r.attempts.length + 1 = k ∧
    (∃ r', after.runs.lookup id = some r' ∧ r'.attempts.length = k) ∧
    ∀ e ∈ since, e.reconciles id = false ∧ e ≠ .restarted

/-- Which runtimes were opened, and what was written to them. -/
structure Dispatched (w : World) : Prop where
  opened : ∀ g purpose, .opened g purpose ∈ w.log → g < w.created
  distinct : ∀ g g' id k, .opened g (.execution id k) ∈ w.log →
    .opened g' (.execution id k) ∈ w.log → g = g'
  numbered : ∀ g id k, .opened g (.execution id k) ∈ w.log → k ≤ w.db.attemptsOf id
  undisturbed : ∀ g id k, (w.codex g).closed = false → (w.codex g).purpose = .execution id k →
    Undisturbed w.log g id k
  written : ∀ newer g n call older, w.log = newer ++ .wrote g (.request n call) :: older →
    (∃ directory, call = .threadStart directory) ∨
      (∃ threadId task, call = .turnStart threadId task) →
    ∃ id k, Undisturbed older g id k

section Attempts

theorem Db.Grows.attemptsOf_le {db db' : Db} (h : db.Grows db') (id : String) :
    db.attemptsOf id ≤ db'.attemptsOf id := by
  unfold Db.attemptsOf
  cases found : db.runs.lookup id with
  | none => simp
  | some r =>
      obtain ⟨r', found', le⟩ := h id r found
      simpa only [found'] using le

theorem Shape.grows {origin : Origin} {before after : Db} (shape : Shape origin before after)
    (sound : before.Sound) : before.Grows after := by
  cases shape with
  | same runs events unnamed => exact fun id r found => ⟨r, by rw [runs]; exact found, le_rfl⟩
  | update from_ plain writes => exact writes.grows sound
  | created from_ request run fresh runs events =>
      intro id r found
      refine ⟨r, ?_, le_rfl⟩
      rw [runs, AList.lookup_insert_ne]
      · exact found
      · rintro rfl
        rw [fresh] at found
        cases found
  | command from_ request current writes runs events =>
      intro id r found
      rw [runs]
      exact writes.grows sound id r found

theorem Effect.attemptsOf_le {env : Env} {cause : Cause} {w w' : World} (h : w.Sound env)
    (effect : Effect env cause w w') (id : String) :
    w.db.attemptsOf id ≤ w'.db.attemptsOf id := by
  obtain ⟨entries, -, ledger⟩ := effect.ledger h
  refine ledger.keeps (P := fun db => w.db.attemptsOf id ≤ db.attemptsOf id) le_rfl ?_
  intro origin before after sound holds commit
  exact holds.trans ((commit.shape.grows sound).attemptsOf_le id)

end Attempts

theorem Undisturbed.append {log : List Entry} {g k : Nat} {id : String}
    (h : Undisturbed log g id k) (entries : List Entry)
    (plain : ∀ e ∈ entries, e.reconciles id = false ∧ e ≠ .restarted) :
    Undisturbed (entries ++ log) g id k := by
  obtain ⟨since, before, after, older, r, rfl, rest⟩ := h
  refine ⟨entries ++ since, before, after, older, r, by simp, rest.1, rest.2.1, rest.2.2.1,
    rest.2.2.2.1, ?_⟩
  intro e member
  rcases List.mem_append.mp member with new | old
  · exact plain e new
  · exact rest.2.2.2.2 e old

/-- An entry of a grown log that is none of the new ones stands in the old log. -/
theorem split_of_not_mem {α : Type} (entries : List α) {log newer older : List α} {e : α}
    (split : entries ++ log = newer ++ e :: older) (old : e ∉ entries) :
    ∃ newer', log = newer' ++ e :: older := by
  obtain ⟨rest, rfl, rfl⟩ | ⟨rest, rfl, same⟩ := List.append_eq_append_iff.mp split
  · exact ⟨rest, rfl⟩
  · cases rest with
    | nil => exact ⟨[], by simpa using same.symm⟩
    | cons a rest =>
        cases same
        simp at old

namespace Dispatched

variable {env : Env} {cause : Cause} {w w' : World}

theorem init : Dispatched .init where
  opened := by simp [World.init]
  distinct := by simp [World.init]
  numbered := by simp [World.init]
  undisturbed := by simp [World.init, Codex.absent]
  written := by simp [World.init]

/-- The log gets entries that open no runtime. -/
theorem grow (h : Dispatched w) (entries : List Entry) (log : w'.log = entries ++ w.log)
    (unopened : ∀ g purpose, .opened g purpose ∉ entries)
    (requests : ∀ g n call, .wrote g (.request n call) ∈ entries →
      entries = [.wrote g (.request n call)] ∧
      ((∃ directory, call = .threadStart directory) ∨
        (∃ threadId task, call = .turnStart threadId task) →
        ∃ id k, Undisturbed w.log g id k))
    (created : w.created ≤ w'.created)
    (attempts : ∀ id, w.db.attemptsOf id ≤ w'.db.attemptsOf id)
    (undisturbed : ∀ g id k, (w'.codex g).closed = false →
      (w'.codex g).purpose = .execution id k → Undisturbed w'.log g id k) :
    Dispatched w' := by
  have old : ∀ g purpose, .opened g purpose ∈ w'.log → .opened g purpose ∈ w.log := by
    intro g purpose member
    rw [log] at member
    exact (List.mem_append.mp member).resolve_left (unopened g purpose)
  constructor
  case opened =>
      exact fun g purpose member => (h.opened g purpose (old _ _ member)).trans_le created
  case distinct =>
      exact fun g g' id k member member' => h.distinct g g' id k (old _ _ member) (old _ _ member')
  case numbered =>
      exact fun g id k member => (h.numbered g id k (old _ _ member)).trans (attempts id)
  case undisturbed => exact undisturbed
  case written =>
      intro newer g n call older split starts
      rw [log] at split
      by_cases new : .wrote g (.request n call) ∈ entries
      · obtain ⟨rfl, justified⟩ := requests g n call new
        cases newer with
        | nil =>
            cases split
            exact justified starts
        | cons e newer =>
            rw [List.singleton_append, List.cons_append, List.cons.injEq] at split
            exact h.written newer g n call older split.2 starts
      · obtain ⟨newer', split'⟩ := split_of_not_mem entries split new
        exact h.written newer' g n call older split' starts

/-- A runtime is opened. -/
theorem open_ (h : Dispatched w) (sound : w.Sound env) (opened : Opened env w w' w.created)
    (created : w.created < w'.created)
    (stays : ∀ g, g ≠ w.created → (w.codex g).Stays (w'.codex g))
    (attempts : ∀ id, w.db.attemptsOf id ≤ w'.db.attemptsOf id) : Dispatched w' := by
  have kept : ∀ entries, w'.log = entries ++ w.log →
      (∀ e ∈ entries, ∀ id, e.reconciles id = false ∧ e ≠ .restarted) →
      ∀ g id k, g ≠ w.created → (w'.codex g).closed = false →
        (w'.codex g).purpose = .execution id k → Undisturbed w'.log g id k := by
    intro entries log plain g id k ne isOpen purpose
    have stay := stays g ne
    rw [log]
    exact (h.undisturbed g id k (stay.open_ isOpen) (stay.purpose ▸ purpose)).append entries
      (fun e member => plain e member id)
  cases opened with
  | inspection found status db codex log uuids =>
      have old : ∀ g id k, .opened g (.execution id k) ∈ w'.log →
          .opened g (.execution id k) ∈ w.log := by
        intro g id k member
        rw [log] at member
        simpa using member
      constructor
      case opened =>
          intro g purpose member
          rw [log] at member
          rcases List.mem_cons.mp member with same | member
          · cases same
            exact created
          · exact (h.opened g purpose member).trans created
      case distinct =>
          exact fun g g' id k member member' =>
            h.distinct g g' id k (old _ _ _ member) (old _ _ _ member')
      case numbered =>
          exact fun g id k member => (h.numbered g id k (old _ _ _ member)).trans (attempts id)
      case undisturbed =>
          intro g id k isOpen purpose
          by_cases new : g = w.created
          · rw [new, codex] at purpose
            cases purpose
          · exact kept [_] log (by simp [Entry.reconciles]) g id k new isOpen purpose
      case written =>
          intro newer g n call older split starts
          rw [log] at split
          obtain ⟨newer', split'⟩ := split_of_not_mem [_] split (by simp)
          exact h.written newer' g n call older split' starts
  | execution queued writes codex log uuids =>
      rename_i id r r'
      have number : r'.attempts.length = w.db.attemptsOf id + 1 := by
        obtain same | ⟨-, -, more⟩ := writes.saves.attempts_length
        · have saves := writes.saves
          cases saves
          simp at same
        · rw [more, Db.attemptsOf, writes.found]
      have stored : w'.db.attemptsOf id = r'.attempts.length := by
        rw [Db.attemptsOf, writes.lookup_self sound.db]
        rfl
      have cases_ : ∀ g purpose, .opened g purpose ∈ w'.log →
          (g = w.created ∧ purpose = .execution id r'.attempts.length) ∨
            .opened g purpose ∈ w.log := by
        intro g purpose member
        rw [log] at member
        simpa [and_assoc] using member
      constructor
      case opened =>
          intro g purpose member
          obtain ⟨rfl, -⟩ | member := cases_ g purpose member
          · exact created
          · exact (h.opened g purpose member).trans created
      case distinct =>
          intro g g' id' k member member'
          obtain ⟨rfl, same⟩ | member := cases_ _ _ member <;>
            obtain ⟨rfl, same'⟩ | member' := cases_ _ _ member'
          · rfl
          · cases same
            have := h.numbered _ _ _ member'
            omega
          · cases same'
            have := h.numbered _ _ _ member
            omega
          · exact h.distinct g g' id' k member member'
      case numbered =>
          intro g id' k member
          obtain ⟨rfl, same⟩ | member := cases_ _ _ member
          · cases same
            exact stored.ge
          · exact (h.numbered g id' k member).trans (attempts id')
      case undisturbed =>
          intro g id' k isOpen purpose
          by_cases new : g = w.created
          · subst new
            rw [codex] at purpose
            cases purpose
            refine ⟨[], w.db, w'.db, w.log, r, log, writes.found, queued, ?_, ?_, by simp⟩
            · rw [number, Db.attemptsOf, writes.found]
            · exact ⟨_, writes.lookup_self sound.db, rfl⟩
          · exact kept [_, _] log (by simp [Entry.reconciles]) g id' k new isOpen purpose
      case written =>
          intro newer g n call older split starts
          rw [log] at split
          obtain ⟨newer', split'⟩ := split_of_not_mem [_, _] split (by simp)
          exact h.written newer' g n call older split' starts

theorem effect (h : Dispatched w) (sound : w.Sound env) (effect : Effect env cause w w') :
    Dispatched w' := by
  have attempts := effect.attemptsOf_le sound
  have created : w.created ≤ w'.created := by
    obtain ⟨-, created, -⟩ | ⟨-, -, created, -⟩ | ⟨-, created, -⟩ := effect.live <;> omega
  obtain ⟨entries, log, plain⟩ | ⟨g, n, call, isOpen, codex, log, purpose⟩ | opened |
    ⟨-, rfl⟩ := effect.log
  · refine h.grow entries log ?_ ?_ created attempts ?_
    · intro g purpose member
      cases (plain _ member).1
    · intro g n call member
      cases (plain _ member).1
    · intro g id k isOpen purpose
      obtain stays | ⟨rfl, -, opened⟩ | ⟨-, rfl⟩ := effect.adapter g
      · have wasOpen := stays.open_ isOpen
        rw [log]
        refine (h.undisturbed g id k wasOpen (stays.purpose ▸ purpose)).append entries ?_
        intro e member
        refine ⟨?_, fun same => ?_⟩
        · by_contra reconciles
          have idle := (plain e member).2 id (by simpa using reconciles)
          obtain ⟨other, live⟩ := sound.wired.connected g wasOpen
          exact World.Wired.of_live_nil idle live
        · rw [same] at member
          cases (plain _ member).1
      · obtain ⟨purpose, others, log'⟩ := opened.log
        have same := List.append_cancel_right (log.symm.trans log')
        have member : .opened w.created purpose ∈ entries := by simp [same]
        cases (plain _ member).1
      · simp [World.reset, Codex.absent] at isOpen
  · refine h.grow [_] log (by simp) ?_ created attempts ?_
    · intro g' n' call' member
      simp only [List.mem_singleton, Entry.wrote.injEq, Outbound.request.injEq] at member
      obtain ⟨rfl, rfl, rfl⟩ := member
      refine ⟨rfl, fun starts => ?_⟩
      obtain ⟨id, k, execution⟩ := purpose starts
      exact ⟨id, k, h.undisturbed g' id k isOpen execution⟩
    · intro g' id k isOpen' purpose'
      rw [codex] at isOpen' purpose'
      rw [log]
      exact (h.undisturbed g' id k isOpen' purpose').append [_] (by simp [Entry.reconciles])
  · have isOpen := opened.isOpen
    refine h.open_ sound opened ((effect.sound sound).current_of_open isOpen).2 ?_ attempts
    intro g ne
    obtain stays | ⟨rfl, -⟩ | ⟨-, rfl⟩ := effect.adapter g
    · exact stays
    · exact absurd rfl ne
    · simp [World.reset, Codex.absent] at isOpen
  · refine h.grow [.restarted] rfl (by simp) (by simp) created attempts ?_
    simp [World.reset, Codex.absent]

theorem reached (run : Reaches (Step env) .init w) : Dispatched w := by
  refine run.keeps init ?_ (fun _ _ _ sound effect h => h.effect sound effect) ?_
  · exact fun w i _ h => ⟨h.opened, h.distinct, h.numbered, h.undisturbed, h.written⟩
  · exact fun w h => ⟨h.opened, h.distinct, h.numbered, h.undisturbed, h.written⟩

/-- Of requests that name their runtime, at most one was written for an attempt
if at most one was written to each runtime. -/
theorem starts_le_one (h : Dispatched w) (start : Entry → Option Nat)
    (isStart : Nat → Entry → Bool) (names : ∀ g e, isStart g e = true ↔ start e = some g)
    (once : ∀ g, w.log.countP (isStart g) ≤ 1) (id : String) (k : Nat) :
    (w.log.countP fun e => (start e).any fun g => w.log.any (·.opensFor g id k)) ≤ 1 := by
  by_cases opened : ∃ g, .opened g (.execution id k) ∈ w.log
  · obtain ⟨g, member⟩ := opened
    refine (List.countP_mono_left ?_).trans (once g)
    intro e _ counted
    obtain ⟨g', starts, serves⟩ := (Option.any_eq_true _ _).mp counted
    obtain ⟨e', member', opens⟩ := List.any_eq_true.mp serves
    rw [Entry.opensFor_iff] at opens
    subst opens
    rw [names, starts, h.distinct g' g id k member' member]
  · have none : (w.log.countP fun e => (start e).any fun g => w.log.any (·.opensFor g id k)) =
        0 := by
      rw [List.countP_eq_zero]
      intro e _ counted
      obtain ⟨g, -, serves⟩ := (Option.any_eq_true _ _).mp counted
      obtain ⟨e', member, opens⟩ := List.any_eq_true.mp serves
      rw [Entry.opensFor_iff] at opens
      subst opens
      exact opened ⟨g, member⟩
    omega

end Dispatched

/-- Dispatched work is not replayed: attempts come from accepted commands, each is
dispatched at most once, and only by the lifetime that appended it and before any
reconciliation of its run. -/
theorem dispatched_work_not_replayed {env : Env} {w : World} (run : Reaches (Step env) .init w) :
    (∀ id, (w.log.map (Entry.appended id)).sum ≤ w.log.countP (Entry.queues id)) ∧
    (∀ id k, threadStarts w.log id k ≤ 1 ∧ turnStarts w.log id k ≤ 1) ∧
    ∀ newer g n call older, w.log = newer ++ .wrote g (.request n call) :: older →
      (∃ directory, call = .threadStart directory) ∨
        (∃ threadId task, call = .turnStart threadId task) →
      ∃ id k, Undisturbed older g id k := by
  have sound := World.Sound.reached run
  have dispatched := Dispatched.reached run
  refine ⟨?_, ?_, dispatched.written⟩
  · intro id
    have := appended_le_queues run id
    omega
  · intro id k
    constructor
    · refine dispatched.starts_le_one Entry.threadStart Entry.isThreadStart
        (fun _ _ => Entry.isThreadStart_iff) ?_ id k
      exact fun g => (Nat.le_add_left _ _).trans (sound.accounted.thread g)
    · refine dispatched.starts_le_one Entry.turnStart Entry.isTurnStart
        (fun _ _ => Entry.isTurnStart_iff) ?_ id k
      exact fun g => (Nat.le_add_left _ _).trans (sound.accounted.turn g)

set_option maxRecDepth 100000 in
/-- A script that has dispatched its turn wrote each request once. -/
theorem dispatched_work_not_replayed_turn : ∃ w,
    Reaches (Step (Script.env [Script.initialized, Script.threadStarted])) .init w ∧
    (threadStarts w.log "uu" 1 = 1 ∧ turnStarts w.log "uu" 1 = 1) ∧
    (∀ id, (w.log.map (Entry.appended id)).sum ≤ w.log.countP (Entry.queues id)) ∧
    (∀ id k, threadStarts w.log id k ≤ 1 ∧ turnStarts w.log id k ≤ 1) ∧
    ∀ newer g n call older, w.log = newer ++ .wrote g (.request n call) :: older →
      (∃ directory, call = .threadStart directory) ∨
        (∃ threadId task, call = .turnStart threadId task) →
      ∃ id k, Undisturbed older g id k := by
  obtain ⟨w, run, starts⟩ := Script.reaches [Script.initialized, Script.threadStarted]
    Script.dispatched
    (fun w => threadStarts w.log "uu" 1 = 1 ∧ turnStarts w.log "uu" 1 = 1) (by decide +kernel)
  exact ⟨w, run.ofNode, of_decide_eq_true starts, dispatched_work_not_replayed run.ofNode⟩

end Mathmodel
