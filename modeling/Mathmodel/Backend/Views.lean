import Mathmodel.Backend.Steps

/-!
# What an effect does to one part of the world

Invariants that speak about one part of the world need not look at every effect.
The lemmas here say once what can happen to the live runtimes and to a single
adapter.
-/

namespace Mathmodel

/-- The section may create a runtime. -/
def Cause.Opens (cause : Cause) : Prop :=
  (∃ result, cause.Resumes .schedule result) ∨ ∃ id result, cause.Resumes (.reconcile id) result

/-- The adapter keeps its identity, is not opened again and hears no one new. -/
structure Codex.Stays (c c' : Codex) : Prop where
  generation : c'.generation = c.generation
  purpose : c'.purpose = c.purpose
  closed : c.closed = true → c'.closed = true
  listener : c'.listener = c.listener ∨ (c'.listener = none ∧ c'.closed = true)

namespace Codex.Stays

theorem refl (c : Codex) : c.Stays c := ⟨rfl, rfl, fun h => h, .inl rfl⟩

theorem open_ {c c' : Codex} (h : c.Stays c') (closed : c'.closed = false) :
    c.closed = false := by
  by_contra was
  simp [h.closed (by simpa using was)] at closed

theorem heard {c c' : Codex} (h : c.Stays c') {id : String} (listener : c'.listener = some id) :
    c.listener = some id := by
  obtain same | ⟨none, -⟩ := h.listener
  · exact same ▸ listener
  · rw [none] at listener
    cases listener

end Codex.Stays

/-- One adapter changes, the others are as before. -/
theorem World.codex_update {R : Codex → Codex → Prop} (refl : ∀ c, R c c) {w w' : World}
    {g : Nat} {c : Codex} (codex : w'.codex = Function.update w.codex g c)
    (step : R (w.codex g) c) (i : Nat) : R (w.codex i) (w'.codex i) := by
  rw [codex]
  by_cases eq : i = g
  · subst eq
    rwa [Function.update_self]
  · rw [Function.update_of_ne eq]
    exact refl _

theorem Codex.Stays.update {w w' : World} {g : Nat} {c : Codex}
    (codex : w'.codex = Function.update w.codex g c) (stays : (w.codex g).Stays c) (i : Nat) :
    (w.codex i).Stays (w'.codex i) := World.codex_update Codex.Stays.refl codex stays i

theorem World.shut_stays (w : World) (g : Nat) (e : Err) (i : Nat) :
    (w.codex i).Stays ((w.shut g e).codex i) := by
  refine .update (w := w) rfl ?_ i
  exact ⟨rfl, rfl, fun _ => rfl, .inl rfl⟩

theorem World.release_stays (w : World) (id : String) (g : Nat) (closing : Bool) (i : Nat) :
    (w.codex i).Stays ((w.release id g closing).codex i) := by
  simp only [World.release, World.push, World.shutOnce]
  split
  · rename_i closed
    refine .update (w := w) rfl ?_ i
    refine ⟨rfl, rfl, fun h => h, .inr ⟨rfl, ?_⟩⟩
    simpa [World.detach] using closed
  · refine .update (g := g) (c := World.released (w.codex g)) ?_ ?_ i
    · simp [World.shut, World.detach, World.setCodex, World.released]
    · exact ⟨rfl, rfl, fun _ => rfl, .inr ⟨rfl, rfl⟩⟩

/-- A new adapter, for an attempt that has just begun or for an inspection. -/
inductive Opened (env : Env) (w w' : World) (g : Nat) : Prop where
  | execution {id : String} {r r' : Run} (queued : r.status = .queued)
      (writes : w.db.Writes (env.moment w.clock) id .startAttempt r r' w'.db)
      (codex : w'.codex g = { Codex.fresh (env.uuid w.uuids) (.execution id r'.attempts.length)
        with listener := some id })
      (log : w'.log = .opened g (.execution id r'.attempts.length) ::
        .commit (.update id .startAttempt .service) w.db w'.db :: w.log)
      (uuids : w'.uuids = w.uuids + 1)
  | inspection {id : String} {r : Run} (found : w.db.runs.lookup id = some r)
      (status : r.status = .recoveryRequired) (db : w'.db = w.db)
      (codex : w'.codex g = Codex.fresh (env.uuid w.uuids) (.inspection id))
      (log : w'.log = .opened g (.inspection id) :: w.log)
      (uuids : w'.uuids = w.uuids + 1)

namespace Opened

variable {env : Env} {w w' : World} {g : Nat}

theorem begun {id : String} {r r' : Run} {db : Db} (queued : r.status = .queued)
    (writes : w.db.Writes (env.moment w.clock) id .startAttempt r r' db) :
    Opened env w ((((w.commit (.update id .startAttempt .service) db).create env
      (.execution id r'.attempts.length)).enter id w.created).attach id w.created) w.created := by
  refine .execution queued writes ?_ rfl rfl
  simp [World.attach, World.enter, World.create, World.commit]

theorem inspecting {id : String} {r : Run} (found : w.db.runs.lookup id = some r)
    (status : r.status = .recoveryRequired) :
    Opened env w ((w.create env (.inspection id)).enter id w.created) w.created := by
  refine .inspection found status rfl ?_ rfl rfl
  simp [World.enter, World.create]

theorem log (h : Opened env w w' g) :
    ∃ purpose entries, w'.log = (.opened g purpose :: entries) ++ w.log := by
  cases h with
  | execution queued writes codex log uuids => exact ⟨_, [_], log⟩
  | inspection found status db codex log uuids => exact ⟨_, [], log⟩

theorem isOpen (h : Opened env w w' g) : (w'.codex g).closed = false := by
  cases h with
  | execution queued writes codex log uuids => rw [codex]; rfl
  | inspection found status db codex log uuids => rw [codex]; rfl

theorem generation (h : Opened env w w' g) :
    (w'.codex g).generation = env.uuid w.uuids ∧ w'.uuids = w.uuids + 1 := by
  cases h with
  | execution queued writes codex log uuids => exact ⟨by rw [codex]; rfl, uuids⟩
  | inspection found status db codex log uuids => exact ⟨by rw [codex]; rfl, uuids⟩

end Opened

/-- What an effect does to the live runtimes and the count of all runtimes. -/
theorem Effect.live {env : Env} {cause : Cause} {w w' : World} (effect : Effect env cause w w') :
    (w'.live = w.live ∧ w'.created = w.created ∧ w'.lifetime = w.lifetime) ∨
    (cause.Opens ∧ w.live.entries = [] ∧ w'.created = w.created + 1 ∧
      w'.lifetime = w.lifetime ∧ Opened env w w' w.created ∧
      ∃ id, w'.live = w.live.insert id w.created) ∨
    (¬cause.Opens ∧ w'.created = w.created ∧
      (w'.live = ∅ ∧ w'.lifetime = w.created ∨
        w'.lifetime = w.lifetime ∧ ∃ id, w'.live = w.live.erase id)) := by
  cases effect with
  | quiet quiet => exact .inl ⟨quiet.live, quiet.created, quiet.lifetime⟩
  | lost open_ listener live uncertain =>
      obtain ⟨-, live, -, created, lifetime, -⟩ := uncertain.frame
      exact .inl ⟨live, created, lifetime⟩
  | doubted absent uncertain source =>
      obtain ⟨-, live, -, created, lifetime, -⟩ := uncertain.frame
      exact .inl ⟨live, created, lifetime⟩
  | undelivered command live uncertain =>
      obtain ⟨-, live, -, created, lifetime, -⟩ := uncertain.frame
      exact .inl ⟨live, created, lifetime⟩
  | abandoned range source own uncertain =>
      obtain ⟨-, live, -, created, lifetime, -⟩ := uncertain.frame
      simp only [World.release_live, World.release_created, World.release_lifetime]
      exact .inl ⟨live, created, lifetime⟩
  | freed resumes closed listener process =>
      dsimp only
      split
      · refine .inr (.inr ⟨?_, rfl, .inr ⟨rfl, _, rfl⟩⟩)
        rintro (⟨_, job⟩ | ⟨_, _, job⟩) <;> cases resumes.symm.trans job
      · exact .inl ⟨rfl, rfl, rfl⟩
  | reset restart =>
      refine .inr (.inr ⟨?_, rfl, .inl ⟨rfl, rfl⟩⟩)
      rintro (⟨_, job⟩ | ⟨_, _, job⟩) <;> cases restart.symm.trans job
  | begun job idle queued writes =>
      exact .inr (.inl ⟨.inl job, idle, rfl, rfl, .begun queued writes, _, rfl⟩)
  | inspecting job idle found status =>
      exact .inr (.inl ⟨.inr ⟨_, job⟩, idle, rfl, rfl, .inspecting found status, _, rfl⟩)
  | releaseJob range resumes => exact .inl (by simp)
  | inspected range resumes unheard => exact .inl (by simp)
  | gaveUp resumes owns writes => exact .inl (by simp [World.commit])
  | stopped resumes owns unsent cancelling writes => exact .inl (by simp [World.commit])
  | imported resumes owns selects final table writes => exact .inl (by simp [World.commit])
  | _ => exact .inl ⟨rfl, rfl, rfl⟩

/-- What an effect does to one adapter: it stays, it is new, or it is lost. -/
theorem Effect.adapter {env : Env} {cause : Cause} {w w' : World} (effect : Effect env cause w w')
    (g : Nat) :
    (w.codex g).Stays (w'.codex g) ∨
    (g = w.created ∧ w'.created = w.created + 1 ∧ Opened env w w' g) ∨
    (cause = .restart ∧ w' = w.reset) := by
  cases effect with
  | quiet quiet =>
      left
      rw [quiet.codex g]
      exact ⟨rfl, rfl, fun h => h, .inl rfl⟩
  | registered open_ issues follows owns allows =>
      refine .inl (.update rfl ?_ g)
      exact ⟨rfl, rfl, fun h => h, .inl rfl⟩
  | cut open_ unheard => exact .inl (w.shut_stays _ _ g)
  | lost open_ listener live uncertain =>
      left
      simp only [World.start, World.push, uncertain.frame.1]
      exact w.shut_stays _ _ g
  | doubted absent uncertain source =>
      left
      rw [uncertain.frame.1]
      exact .refl _
  | undelivered command live uncertain =>
      left
      simp only [World.start, World.push, uncertain.frame.1]
      exact .refl _
  | abandoned range source own uncertain =>
      left
      rw [← uncertain.frame.1]
      exact World.release_stays _ _ _ _ g
  | releaseJob range resumes => exact .inl (w.release_stays _ _ _ g)
  | inspected range resumes unheard => exact .inl (w.release_stays _ _ _ g)
  | exited running =>
      refine .inl (.update rfl ?_ g)
      exact ⟨rfl, rfl, fun h => h, .inl rfl⟩
  | reset restart => exact .inr (.inr ⟨restart, rfl⟩)
  | begun job idle queued writes =>
      by_cases new : g = w.created
      · subst new
        exact .inr (.inl ⟨rfl, rfl, .begun queued writes⟩)
      · left
        rw [World.attach, World.setCodex_ne _ _ new]
        simp only [World.enter, World.create, World.commit, Function.update_of_ne new]
        exact .refl _
  | spawned open_ unspawned live =>
      refine .inl (.update rfl ?_ g)
      exact ⟨rfl, rfl, fun h => h, .inl rfl⟩
  | gaveUp resumes owns writes =>
      exact .inl ((w.commit _ _).release_stays _ _ _ g)
  | stopped resumes owns unsent cancelling writes =>
      exact .inl ((w.commit _ _).release_stays _ _ _ g)
  | imported resumes owns selects final table writes =>
      exact .inl ((w.commit _ _).release_stays _ _ _ g)
  | forgot delivers withdraws unmatched =>
      refine .inl (.update rfl ?_ g)
      exact ⟨rfl, rfl, fun h => h, .inl rfl⟩
  | withdrawn delivers withdraws heard writes =>
      refine .inl (.update rfl ?_ g)
      exact ⟨rfl, rfl, fun h => h, .inl rfl⟩
  | requested delivers open_ unlisted =>
      refine .inl (.update rfl ?_ g)
      exact ⟨rfl, rfl, fun h => h, .inl rfl⟩
  | asked delivers announces heard unlisted binds status writes number =>
      refine .inl (.update rfl ?_ g)
      exact ⟨rfl, rfl, fun h => h, .inl rfl⟩
  | replied delivers reply pending =>
      refine .inl (.update rfl ?_ g)
      exact ⟨rfl, rfl, fun h => h, .inl rfl⟩
  | rejected =>
      refine .inl (.update rfl ?_ g)
      exact ⟨rfl, rfl, fun h => h, .inl rfl⟩
  | dropped =>
      refine .inl (.update rfl ?_ g)
      exact ⟨rfl, rfl, fun h => h, .inl rfl⟩
  | answered listed source =>
      refine .inl (.update rfl ?_ g)
      exact ⟨rfl, rfl, fun h => h, .inl rfl⟩
  | inspecting job idle found status =>
      by_cases new : g = w.created
      · subst new
        exact .inr (.inl ⟨rfl, rfl, .inspecting found status⟩)
      · left
        simp only [World.enter, World.create, Function.update_of_ne new]
        exact .refl _
  | _ => exact .inl (.refl _)

/-- The entry is not about the start of a runtime, of a request or of the service. -/
def Entry.isPlain : Entry → Bool
  | .opened .. | .wrote _ (.request ..) | .restarted => false
  | _ => true

/-- An accepted `reconcile_run`. -/
def Entry.reconciles (id : String) : Entry → Bool
  | .commit (.command c false) _ _ =>
      match c.request with
      | .onRun run _ .reconcile => run == id
      | _ => false
  | _ => false

/-- What an effect adds to the log. -/
theorem Effect.log {env : Env} {cause : Cause} {w w' : World} (effect : Effect env cause w w') :
    (∃ entries, w'.log = entries ++ w.log ∧ ∀ e ∈ entries, e.isPlain = true ∧
      ∀ id, e.reconciles id = true → w.live.entries = []) ∨
    (∃ g n call, (w.codex g).closed = false ∧ w'.codex = w.codex ∧
      w'.log = .wrote g (.request n call) :: w.log ∧
      ((∃ directory, call = .threadStart directory) ∨
        (∃ threadId task, call = .turnStart threadId task) →
        ∃ id k, (w.codex g).purpose = .execution id k)) ∨
    Opened env w w' w.created ∨ (cause = .restart ∧ w' = w.reset) := by
  have uncertain : ∀ {id} {v v' : World}, v.log = w.log → v.Uncertain env id v' →
      ∃ entries, v'.log = entries ++ w.log ∧ ∀ e ∈ entries, e.isPlain = true ∧
        ∀ id, e.reconciles id = true → w.live.entries = [] := by
    intro id v v' log uncertain
    cases uncertain with
    | settled found status => exact ⟨[], log, by simp⟩
    | marked status started writes =>
        refine ⟨[_], congrArg (List.cons _) log, ?_⟩
        simp [Entry.isPlain, Entry.reconciles]
  cases effect with
  | quiet quiet => exact .inl ⟨[], quiet.log, by simp⟩
  | said plain =>
      refine .inl ⟨[_], rfl, ?_⟩
      rcases plain with rfl | ⟨_, rfl⟩ <;> simp [Entry.isPlain, Entry.reconciles]
  | sent open_ thread turn =>
      refine .inr (.inl ⟨_, _, _, open_, rfl, rfl, ?_⟩)
      rintro (⟨directory, rfl⟩ | ⟨threadId, task, rfl⟩)
      · exact (thread directory rfl).2
      · exact (turn threadId task rfl).2
  | lost open_ listener live marks =>
      have marked := uncertain (v := w.shut _ _) rfl marks
      exact .inl marked
  | doubted absent marks source => exact .inl (uncertain rfl marks)
  | undelivered command live marks =>
      have marked := uncertain rfl marks
      exact .inl marked
  | abandoned range source own marks =>
      rw [World.release_log]
      exact .inl (uncertain rfl marks)
  | releaseJob range resumes => exact .inl ⟨[], by simp, by simp⟩
  | inspected range resumes unheard => exact .inl ⟨[], by simp, by simp⟩
  | reset restart => exact .inr (.inr (.inr ⟨restart, rfl⟩))
  | begun job idle queued writes => exact .inr (.inr (.inl (.begun queued writes)))
  | misfired job idle queued writes fails =>
      exact .inl ⟨[_, _], rfl, by simp [Entry.isPlain, Entry.reconciles]⟩
  | gaveUp resumes owns writes =>
      rw [World.release_log]
      exact .inl ⟨[_], rfl, by simp [Entry.isPlain, Entry.reconciles]⟩
  | stopped resumes owns unsent cancelling writes =>
      rw [World.release_log]
      exact .inl ⟨[_], rfl, by simp [Entry.isPlain, Entry.reconciles]⟩
  | imported resumes owns selects final table writes =>
      rw [World.release_log]
      exact .inl ⟨[_], rfl, by simp [Entry.isPlain, Entry.reconciles]⟩
  | asked delivers announces heard unlisted binds status writes number =>
      exact .inl ⟨[_, _, _], rfl, by simp [Entry.isPlain, Entry.reconciles]⟩
  | inspecting job idle found status => exact .inr (.inr (.inl (.inspecting found status)))
  | projectCreated request unused =>
      exact .inl ⟨[_], rfl, by simp [Entry.isPlain, Entry.reconciles, request]⟩
  | runCreated request unused run valid object =>
      exact .inl ⟨[_], rfl, by simp [Entry.isPlain, Entry.reconciles, request]⟩
  | commanded command request unused current writes =>
      refine .inl ⟨[_], rfl, ?_⟩
      simp only [List.mem_singleton, forall_eq, Entry.isPlain, true_and, Entry.reconciles, request]
      intro id reconciles
      split at reconciles
      · rename_i same
        cases same
        have saves := writes.saves
        cases saves with
        | reconcile status free bound => simpa [Service.view] using free
      · cases reconciles
  | skipped => exact .inl ⟨[_], rfl, by simp [Entry.isPlain, Entry.reconciles]⟩
  | boundThread => exact .inl ⟨[_], rfl, by simp [Entry.isPlain, Entry.reconciles]⟩
  | boundReply => exact .inl ⟨[_], rfl, by simp [Entry.isPlain, Entry.reconciles]⟩
  | boundTurn => exact .inl ⟨[_], rfl, by simp [Entry.isPlain, Entry.reconciles]⟩
  | progressed => exact .inl ⟨[_], rfl, by simp [Entry.isPlain, Entry.reconciles]⟩
  | concluded => exact .inl ⟨[_], rfl, by simp [Entry.isPlain, Entry.reconciles]⟩
  | withdrawn => exact .inl ⟨[_], rfl, by simp [Entry.isPlain, Entry.reconciles]⟩
  | requested => exact .inl ⟨[_], rfl, by simp [Entry.isPlain, Entry.reconciles]⟩
  | replied => exact .inl ⟨[_], rfl, by simp [Entry.isPlain, Entry.reconciles]⟩
  | answered => exact .inl ⟨[_], rfl, by simp [Entry.isPlain, Entry.reconciles]⟩
  | noted => exact .inl ⟨[_], rfl, by simp [Entry.isPlain, Entry.reconciles]⟩
  | replayed => exact .inl ⟨[_], rfl, by simp [Entry.isPlain, Entry.reconciles]⟩
  | _ => exact .inl ⟨[], rfl, by simp⟩

theorem Effect.uuids_le {env : Env} {cause : Cause} {w w' : World}
    (effect : Effect env cause w w') : w.uuids ≤ w'.uuids := by
  cases effect with
  | quiet quiet => exact quiet.uuids
  | lost open_ listener live uncertain => exact uncertain.frame.2.2.2.2.2.ge
  | doubted absent uncertain source => exact uncertain.frame.2.2.2.2.2.ge
  | undelivered command live uncertain => exact uncertain.frame.2.2.2.2.2.ge
  | abandoned range source own uncertain =>
      rw [World.release_uuids]
      exact uncertain.frame.2.2.2.2.2.ge
  | begun job idle queued writes => exact Nat.le_succ _
  | inspecting job idle found status => exact Nat.le_succ _
  | asked delivers announces heard unlisted binds status writes number => exact Nat.le_succ _
  | replayed => exact Nat.le_succ _
  | projectCreated request unused => exact Nat.le_succ _
  | runCreated request unused run valid object => exact Nat.le_succ _
  | commanded command request unused current writes => exact Nat.le_succ _
  | releaseJob range resumes => exact (World.release_uuids _ _ _ _).ge
  | inspected range resumes unheard => exact (World.release_uuids _ _ _ _).ge
  | gaveUp resumes owns writes =>
      rw [World.release_uuids]
      exact le_rfl
  | stopped resumes owns unsent cancelling writes =>
      rw [World.release_uuids]
      exact le_rfl
  | imported resumes owns selects final table writes =>
      rw [World.release_uuids]
      exact le_rfl
  | _ => exact le_rfl

/-- A runtime of the lifetime was there before, or it is new with a fresh generation. -/
theorem Effect.current {env : Env} {cause : Cause} {w w' : World}
    (effect : Effect env cause w w') {g : Nat} (current : w'.Current g) :
    (w.Current g ∧ (w.codex g).Stays (w'.codex g)) ∨
      (g = w.created ∧ Opened env w w' g) := by
  obtain stays | ⟨rfl, -, opened⟩ | ⟨-, rfl⟩ := effect.adapter g
  · obtain ⟨-, created, lifetime⟩ | ⟨-, -, created, lifetime, opened, -⟩ |
      ⟨-, created, ⟨-, lifetime⟩ | ⟨lifetime, -⟩⟩ := effect.live
    · exact .inl ⟨by simpa only [World.Current, created, lifetime] using current, stays⟩
    · by_cases new : g = w.created
      · subst new
        exact .inr ⟨rfl, opened⟩
      · simp only [World.Current, created, lifetime] at current
        exact .inl ⟨⟨current.1, by omega⟩, stays⟩
    · simp only [World.Current, created, lifetime] at current
      omega
    · exact .inl ⟨by simpa only [World.Current, created, lifetime] using current, stays⟩
  · exact .inr ⟨rfl, opened⟩
  · have := current.1
    have := current.2
    simp only [World.reset] at *
    omega

/-! ## Tasks -/

/-- Where the tasks of the world continue. -/
def World.frames (w : World) : List Frame := w.tasks.map Task.frame

theorem World.mem_frames {w : World} {t : Task} (member : t ∈ w.tasks) : t.frame ∈ w.frames :=
  List.mem_map.mpr ⟨t, member, rfl⟩

/-- The section continues a task that is neither a fresh `schedule` nor a fresh
`reconcile`. -/
def Cause.Continues (cause : Cause) : Prop :=
  ∃ frame result, cause.Resumes frame result ∧ frame ≠ .schedule ∧ ∀ id, frame ≠ .reconcile id

/-- Why a frame is new: it follows the section, or a runtime is on its way out. -/
inductive Appears (cause : Cause) (w w' : World) : Frame → Prop where
  | follows {frame : Frame} (h : Follows cause w frame) : Appears cause w w' frame
  | release {id : String} {g : Nat} (live : w.live.lookup id = some g)
      (ended : ∀ r, w'.db.runs.lookup id = some r → r.status.isExecuting = false) :
      Appears cause w w' (.release id g)
  | dismissed {g : Nat} {id : String} {m turn : Json} (live : w.live.lookup id = some g)
      (delivers : cause.Delivers g m) (completes : Completes m turn)
      (table : plainLookup TurnOutcome.table (turn.get "status") = .ok .missing) :
      Appears cause w w' (.release id g)
  | released {id : String} {g : Nat} {closing : Bool}
      (source : w.live.lookup id = some g ∨ cause.Continues) :
      Appears cause w w' (.released id g closing)

theorem TurnOutcome.not_isExecuting (outcome : TurnOutcome) :
    outcome.runStatus.isExecuting = false := by
  cases outcome <;> rfl

/-- A run that is marked uncertain, or was settled, is not under execution. -/
theorem World.Uncertain.not_isExecuting {env : Env} {id : String} {w w' : World}
    (h : w.Uncertain env id w') (sound : w.db.Sound) {r : Run}
    (found : w'.db.runs.lookup id = some r) : r.status.isExecuting = false := by
  cases h with
  | settled found' status =>
      rw [found, Option.some.injEq] at found'
      subst found'
      exact RunStatus.not_isExecuting_of_settled status
  | marked status started writes =>
      have same := (writes.lookup_self sound).symm.trans found
      cases same
      have saves := writes.saves
      cases saves <;> rfl

theorem Db.Writes.not_isExecuting_of_finish {db db' : Db} {m : Moment} {id : String}
    {turn : Json} {outcome : TurnOutcome} {r r' s : Run}
    (h : db.Writes m id (.finish turn (.own outcome)) r r' db') (sound : db.Sound)
    (found : db'.runs.lookup id = some s) : s.status.isExecuting = false := by
  have same := (h.lookup_self sound).symm.trans found
  cases same
  have saves := h.saves
  cases saves
  exact outcome.not_isExecuting

theorem Effect.frames {env : Env} {cause : Cause} {w w' : World} (sound : w.Sound env)
    (effect : Effect env cause w w') {frame : Frame} (listed : frame ∈ w'.frames) :
    frame ∈ w.frames ∨ Appears cause w w' frame := by
  have released : ∀ {v : World} {id g closing}, v.tasks = w.tasks →
      (w.live.lookup id = some g ∨ cause.Continues) →
      frame ∈ (v.release id g closing).frames → frame ∈ w.frames ∨ Appears cause w w' frame := by
    intro v id g closing tasks source listed
    rw [World.frames, World.release_frames, tasks, List.mem_append, List.mem_singleton] at listed
    rcases listed with old | rfl
    · exact .inl old
    · exact .inr (.released source)
  have pushed : ∀ {v : World} {t}, v.frames = w.frames → frame ∈ (v.push t).frames →
      frame ∈ w.frames ∨ frame = t.frame := by
    intro v t frames listed
    have split : (v.push t).frames = w.frames ++ [t.frame] := by
      rw [← frames]
      exact List.map_append
    rw [split, List.mem_append, List.mem_singleton] at listed
    exact listed
  cases effect with
  | quiet quiet =>
      left
      rw [World.frames, quiet.tasks] at listed
      exact listed
  | registered open_ issues follows owns allows =>
      obtain old | is := pushed (v := w.setCodex _ _) rfl listed
      · exact .inl old
      · exact .inr (is ▸ .follows follows)
  | pushed follows owns allows unanswered =>
      obtain old | is := pushed rfl listed
      · exact .inl old
      · exact .inr (is ▸ .follows follows)
  | cut open_ unheard =>
      left
      simpa [World.frames, World.shut, Function.comp_def] using listed
  | lost open_ listener live uncertain =>
      rename_i v
      have same : v.frames = w.frames := by
        have tasks := uncertain.frame.2.2.1
        simp only [World.frames, tasks, World.shut, List.map_map, Function.comp_def,
          Task.reject_frame]
      obtain old | rfl := pushed same listed
      · exact .inl old
      · exact .inr (.release live fun r found =>
          uncertain.not_isExecuting (w := w.shut _ _) sound.db found)
  | doubted absent uncertain source =>
      left
      rwa [World.frames, uncertain.frame.2.2.1] at listed
  | undelivered command live uncertain =>
      have same := congrArg (List.map Task.frame) uncertain.frame.2.2.1
      obtain old | rfl := pushed same listed
      · exact .inl old
      · exact .inr (.release live fun r found => uncertain.not_isExecuting sound.db found)
  | abandoned range source own uncertain =>
      refine released uncertain.frame.2.2.1 (source.imp (fun live => live.1) ?_) listed
      rintro ⟨k, result, resumes | resumes⟩
      · exact ⟨_, result, resumes, (by rintro ⟨⟩), (by rintro _ ⟨⟩)⟩
      · exact ⟨_, result, resumes, (by rintro ⟨⟩), (by rintro _ ⟨⟩)⟩
  | releaseJob range resumes =>
      exact released rfl (.inr ⟨_, _, resumes, (by rintro ⟨⟩), (by rintro _ ⟨⟩)⟩) listed
  | inspected range resumes unheard =>
      refine released rfl (.inr ?_) listed
      obtain ⟨result, ⟨_, resumes⟩ | ⟨_, resumes⟩⟩ := resumes
      · exact ⟨_, result, resumes, (by rintro ⟨⟩), (by rintro _ ⟨⟩)⟩
      · exact ⟨_, result, resumes, (by rintro ⟨⟩), (by rintro _ ⟨⟩)⟩
  | exited running =>
      left
      simpa [World.frames, World.setCodex, Function.comp_def] using listed
  | reset restart => simp [World.frames, World.reset] at listed
  | gaveUp resumes owns writes =>
      exact released (v := w.commit _ _) rfl
        (.inr ⟨_, _, resumes, (by rintro ⟨⟩), (by rintro _ ⟨⟩)⟩) listed
  | stopped resumes owns unsent cancelling writes =>
      exact released (v := w.commit _ _) rfl
        (.inr ⟨_, _, resumes, (by rintro ⟨⟩), (by rintro _ ⟨⟩)⟩) listed
  | imported resumes owns selects final table writes =>
      exact released (v := w.commit _ _) rfl
        (.inr ⟨_, _, resumes, (by rintro ⟨⟩), (by rintro _ ⟨⟩)⟩) listed
  | concluded delivers completes heard last same table writes =>
      obtain old | rfl := pushed (v := w.commit _ _) rfl listed
      · exact .inl old
      · exact .inr (.release heard.live fun r found =>
          writes.not_isExecuting_of_finish sound.db found)
  | dismissed delivers completes heard table =>
      obtain old | rfl := pushed rfl listed
      · exact .inl old
      · exact .inr (.dismissed heard.live delivers completes table)
  | replied delivers reply pending =>
      left
      simpa [World.frames, World.answer, Function.comp_def] using listed
  | rejected =>
      left
      simpa [World.frames, World.answer, Function.comp_def] using listed
  | dropped =>
      left
      obtain ⟨t, member, rfl⟩ := List.mem_map.mp listed
      exact World.mem_frames (List.mem_filter.mp member).1
  | _ => exact .inl listed

/-! ## Sections -/

/-- The frame is a task of the world, or the task that the section continues. -/
def World.Active (w : World) (cause : Cause) (frame : Frame) : Prop :=
  frame ∈ w.frames ∨ ∃ result, cause.Resumes frame result

theorem Begins.active {env : Env} {w w₀ : World} {a : Action} {cause : Cause}
    (begins : Begins env w a cause w₀) {frame : Frame} (active : w₀.Active cause frame) :
    frame ∈ w.frames := by
  cases begins with
  | run found =>
      rcases active with listed | ⟨result, resumes⟩
      · obtain ⟨t, member, rfl⟩ := List.mem_map.mp listed
        exact World.mem_frames (World.mem_of_mem_take member)
      · cases resumes
        exact World.mem_frames (List.mem_of_getElem? found)
  | _ => exact active.resolve_right (fun resumed => nomatch resumed)

theorem Effect.active {env : Env} {cause : Cause} {w w' : World} (sound : w.Sound env)
    (effect : Effect env cause w w') {frame : Frame} (active : w'.Active cause frame) :
    w.Active cause frame ∨ Appears cause w w' frame := by
  rcases active with listed | resumed
  · exact (effect.frames sound listed).imp_left .inl
  · exact .inl (.inr resumed)

/-- The rule for invariants that also speak about the section under way. Between
two sections no task is resumed; any cause without one may stand there. -/
theorem Reaches.sections {env : Env} {S : World → Action → World → Prop} {C : Cause → Prop}
    {I : Cause → World → Prop} {w : World} (run : Reaches S .init w)
    (steps : ∀ w a w', S w a w' → Step env w a w') (start : I .shutdown .init)
    (begins : ∀ w a w' cause w₀, S w a w' → w.Sound env → Begins env w a cause w₀ →
      I .shutdown w → C cause ∧ I cause w₀)
    (effect : ∀ cause w w', cause ≠ .restart → C cause → w.Sound env →
      Effect env cause w w' → I cause w → I cause w')
    (ends : ∀ w a cause w₀ w₁, Begins env w a cause w₀ → perform env w a = some w₁ →
      w.Sound env → w₁.Sound env → I cause w₁ → I .shutdown w₁.tick)
    (restart : ∀ w w', w.Sound env → Course env .restart w w' → w'.Restarted →
      w'.NoneExecuting → I .shutdown w → I .shutdown w'.tick) : I .shutdown w := by
  refine run.invariant start ?_
  intro u a v run' holds taken
  have sound := World.Sound.reached (run'.mono steps)
  obtain ⟨v₁, done, rfl⟩ := Option.map_eq_some_iff.mp (steps u a v taken)
  by_cases isRestart : a = .restart
  · subst isRestart
    cases done
    obtain ⟨course, restarted, none⟩ := Program.after_of_wp (wp_restart sound)
    exact restart u _ sound course restarted none holds
  · obtain ⟨cause, w₀, begun, course⟩ := perform_course sound done
    obtain ⟨allowed, holds₀⟩ := begins u a _ cause w₀ taken sound begun holds
    have running : cause ≠ .restart := by
      rintro rfl
      cases begun
      exact isRestart rfl
    have holds₁ : I cause v₁ :=
      course.keeps (begun.sound sound) holds₀ fun _ _ sound moved holds =>
        effect cause _ _ running allowed sound moved holds
    exact ends u a cause w₀ v₁ begun done sound course.sound holds₁

end Mathmodel
