import Mathmodel.Backend.Waiting

/-!
# Every effect keeps the invariant

The lemmas here put the parts of `World.Sound` together for each operation on
the world; `Effect.sound` is then a case analysis.
-/

namespace Mathmodel

/-- A change that no caller has to guard and that takes no slot. -/
def Change.Free (change : Change) : Prop :=
  (∀ r, change.Admissible r) ∧ change ≠ .startAttempt ∧ ∀ v op, change ≠ .command v op

/-- The changes that are free. -/
def Change.isFree : Change → Bool
  | .command .. | .startAttempt | .cancelBeforeTurn | .requestApproval .. | .uncertain _ => false
  | _ => true

theorem Change.free_of_isFree {change : Change} (free : change.isFree = true) : change.Free := by
  cases change with
  | command | startAttempt | cancelBeforeTurn | requestApproval | uncertain => cases free
  | _ =>
      refine ⟨fun _ => trivial, ?_, ?_⟩
      · rintro ⟨⟩
      · rintro _ _ ⟨⟩

namespace World.Sound

variable {env : Env} {w w' : World}

theorem of_db_eq {db : Db} (h : db.Sound) {db' : Db} (runs : db'.runs = db.runs)
    (events : db'.events = db.events) : db'.Sound where
  keyed := by rw [runs]; exact h.keyed
  runs := by rw [runs]; exact h.runs
  slot := by rw [runs]; exact h.slot
  sequences := by
    intro id
    have := h.sequences id
    simpa only [Db.eventsOf, Db.lastSequenceOf, runs, events] using this
  versions := by rw [events]; exact h.versions

/-- A transaction that saved a run. -/
theorem writes (h : w.Sound env) {origin : Origin} {m : Moment} {id : String} {change : Change}
    {r r' : Run} {db : Db} (writes : w.db.Writes m id change r r' db)
    (ok : change.Admissible r) (start : change = .startAttempt → w.live.entries = [])
    (view : ∀ v op, change = .command v op → v = Service.view w id) :
    (w.commit origin db).Sound env where
  db := by
    refine writes.sound h.db ok ?_
    intro v op same unoccupied id' s found
    rw [view v op same] at unoccupied
    by_contra occupied
    have : w.db.allRuns.any (·.status.isOccupied) = true :=
      List.any_eq_true.mpr ⟨s, Db.mem_allRuns.mpr ⟨id', found⟩, by simpa using occupied⟩
    simp [Service.view, this] at unoccupied
  wired := by
    refine h.wired.writes h.db writes start ?_
    intro v op same free
    rw [view v op same] at free
    simpa [Service.view] using free
  waiting := ⟨h.waiting.owns, h.waiting.awaits⟩
  interrupts := h.interrupts.keep (fun _ member => member) (writes.grows h.db)
  accounted := by
    refine h.accounted.keep le_rfl (List.Sublist.refl _) ⟨[_], rfl, ?_⟩
    simp [Entry.isOther, Entry.isThreadStart, Entry.isTurnStart]
  issued := by
    intro id' s found
    obtain ⟨rfl, -⟩ | ⟨-, found⟩ := writes.lookup h.db found
    · exact h.issued _ r writes.found
    · exact h.issued id' s found

/-- A transaction that did not save. -/
theorem same (h : w.Sound env) (origin : Origin) : (w.commit origin w.db).Sound env where
  db := h.db
  wired := h.wired.commit (Db.Grows.refl _) (.inr (Db.Steady.refl _)) h.wired.idle
  waiting := ⟨h.waiting.owns, h.waiting.awaits⟩
  interrupts := h.interrupts
  accounted := by
    refine h.accounted.keep le_rfl (List.Sublist.refl _) ⟨[_], rfl, ?_⟩
    simp [Entry.isOther, Entry.isThreadStart, Entry.isTurnStart]
  issued := h.issued

theorem free (h : w.Sound env) {origin : Origin} {m : Moment} {id : String} {change : Change}
    {r r' : Run} {db : Db} (writes : w.db.Writes m id change r r' db)
    (free : change.Free) : (w.commit origin db).Sound env :=
  h.writes writes (free.1 r) (fun start => absurd start free.2.1)
    (fun v op same => absurd same (free.2.2 v op))

theorem updates (h : w.Sound env) {origin : Origin} {m : Moment} {id : String}
    {change : Change} {db : Db} (updates : w.db.Updates m id change db) (free : change.Free) :
    (w.commit origin db).Sound env := by
  cases updates with
  | same found skipped => exact h.same origin
  | wrote writes => exact h.free writes free

theorem uncertain (h : w.Sound env) {id : String} (uncertain : w.Uncertain env id w') :
    w'.Sound env := by
  cases uncertain with
  | settled found status => exact h
  | marked status started writes =>
      exact h.writes writes ⟨started, status.1⟩ nofun nofun

/-- A task is left behind. -/
theorem push (h : w.Sound env) {t : Task} (owns : w.Owns t.frame) (allows : w.Allows t.frame)
    (awaits : w.Awaits t) (started : ∀ id, t.frame = .interrupted id →
      ∃ r, w.db.runs.lookup id = some r ∧ r.attempts ≠ []) : (w.push t).Sound env where
  db := h.db
  wired := h.wired.fades rfl rfl rfl rfl h.wired.fades_refl
  waiting := h.waiting.push owns awaits
  interrupts := h.interrupts.push started
  accounted := h.accounted.push owns allows
  issued := h.issued

/-- A job is started to release a live runtime. -/
theorem releaseStarted (h : w.Sound env) {id : String} {g : Nat}
    (live : w.live.lookup id = some g) : (w.start (.release id g)).Sound env :=
  h.push (h.wired.started id g live).1 trivial (Waiting.ready_awaits nofun) nofun

theorem shut (h : w.Sound env) (g : Nat) (e : Err) : (w.shut g e).Sound env where
  db := h.db
  wired := h.wired.fades rfl rfl rfl rfl (h.wired.shut_fades g e)
  waiting := h.waiting.shut h.wired g e
  interrupts := h.interrupts.keep (by simp [World.shut, Function.comp_def]) (Db.Grows.refl _)
  accounted := by
    refine h.accounted.keep le_rfl ?_ ⟨[], rfl, by simp⟩
    simp [World.shut, Function.comp_def]
  issued := h.issued

theorem release (h : w.Sound env) {id : String} {g : Nat} (closing : Bool)
    (range : w.Current g) : (w.release id g closing).Sound env where
  db := by simpa using h.db
  wired := h.wired.fades (by simp) (by simp) (by simp) (by simp)
    (h.wired.release_fades id g closing)
  waiting := h.waiting.release h.wired id closing range
  interrupts := by
    intro id' member
    rw [release_frames, List.mem_append, List.mem_singleton] at member
    rw [release_db]
    exact h.interrupts id' (member.resolve_right nofun)
  accounted := by
    have thread : ∀ i, (w.release id g closing).threadBudget i = w.threadBudget i := by
      intro i
      rw [threadBudget_eq, threadBudget_eq, release_frames]
      simp [Frame.launches]
    have turn : ∀ i, (w.release id g closing).turnBudget i = w.turnBudget i := by
      intro i
      rw [turnBudget_eq, turnBudget_eq, release_frames]
      simp [Frame.precedesTurn]
    exact h.accounted.of_le (by simp) (fun i => (thread i).le) (fun i => (turn i).le)
  issued := by simpa [Issued] using h.issued

/-- Adapters change inside, counters grow and the log gets other entries. -/
theorem inside (h : w.Sound env) (db : w'.db = w.db) (live : w'.live = w.live)
    (created : w'.created = w.created) (lifetime : w'.lifetime = w.lifetime)
    (tasks : w'.tasks = w.tasks) (uuids : w.uuids ≤ w'.uuids)
    (log : ∃ entries, w'.log = entries ++ w.log ∧ ∀ e ∈ entries, Entry.isOther e)
    (codex : ∀ g, (w.codex g).Fades (w'.codex g))
    (pending : ∀ g, (w'.codex g).pending = (w.codex g).pending)
    (process : ∀ g, (w'.codex g).process = (w.codex g).process) : w'.Sound env where
  db := by rw [db]; exact h.db
  wired := h.wired.fades (by rw [db]) live created lifetime codex
  waiting := h.waiting.fades created lifetime tasks codex
    (fun g n call listed => by rw [pending]; exact listed) process
  interrupts := h.interrupts.keep (by simp [tasks]) (by rw [db]; exact Db.Grows.refl _)
  accounted := h.accounted.keep created.ge (by rw [tasks]) log
  issued := by
    intro id r found
    rw [db] at found
    obtain ⟨n, lt, same⟩ := h.issued id r found
    exact ⟨n, lt.trans_le uuids, same⟩

theorem quiet (h : w.Sound env) (quiet : w.Quiet w') : w'.Sound env := by
  refine h.inside quiet.db quiet.live quiet.created quiet.lifetime quiet.tasks quiet.uuids
    ⟨[], quiet.log, by simp⟩ ?_ ?_ ?_
  · intro g
    rw [quiet.codex g]
    exact ⟨rfl, rfl, fun h => h, .inl rfl, fun h => h, h.wired.closed g⟩
  · intro g
    rw [quiet.codex g]
  · intro g
    rw [quiet.codex g]

/-- One adapter changes inside. -/
theorem setCodex (h : w.Sound env) {g : Nat} {f : Codex → Codex}
    (fades : (w.codex g).Fades (f (w.codex g)))
    (pending : (f (w.codex g)).pending = (w.codex g).pending)
    (process : (f (w.codex g)).process = (w.codex g).process) :
    (w.setCodex g f).Sound env := by
  refine h.inside rfl rfl rfl rfl rfl le_rfl ⟨[], rfl, by simp⟩
    (h.wired.setCodex_fades fades) ?_ ?_
  · intro i
    by_cases eq : i = g
    · subst eq
      rw [setCodex_self, pending]
    · rw [setCodex_ne w f eq]
  · intro i
    by_cases eq : i = g
    · subst eq
      rw [setCodex_self, process]
    · rw [setCodex_ne w f eq]

theorem logged (h : w.Sound env) {e : Entry} (other : e.isOther) :
    World.Sound env { w with log := e :: w.log } :=
  h.inside rfl rfl rfl rfl rfl le_rfl ⟨[e], rfl, by simpa using other⟩ h.wired.fades_refl
    (fun _ => rfl) (fun _ => rfl)

theorem forget (h : w.Sound env) (g : Nat) (keep : Codex → List MapKey → List MapKey)
    (nil : ∀ c, keep c [] = []) :
    (w.setCodex g fun c => { c with approvals := keep c c.approvals }).Sound env := by
  refine h.setCodex ⟨rfl, rfl, fun h => h, .inl rfl, fun h => h, ?_⟩ rfl rfl
  intro closed
  obtain ⟨pending, approvals⟩ := h.wired.closed g closed
  exact ⟨pending, by dsimp only; rw [approvals, nil]⟩

theorem answer (h : w.Sound env) {g n : Nat} {settle : List Task → List Task}
    (waiting : (w.answer g n settle).Waiting)
    (frames : ((settle w.tasks).map Task.frame).Sublist (w.tasks.map Task.frame)) :
    (w.answer g n settle).Sound env where
  db := h.db
  wired := h.wired.fades rfl rfl rfl rfl (Waiting.answer_fades h.wired g n)
  waiting := waiting
  interrupts := h.interrupts.keep (fun _ member => frames.subset member) (Db.Grows.refl _)
  accounted := h.accounted.keep le_rfl frames ⟨[], rfl, by simp⟩
  issued := h.issued

theorem settle (h : w.Sound env) (g n : Nat) (result : Except Err Json) :
    (w.answer g n (List.map (Task.settle g n result))).Sound env :=
  h.answer (h.waiting.settle h.wired g n result) (by simp [Function.comp_def])

theorem drop (h : w.Sound env) (g n : Nat) :
    (w.answer g n (List.filter fun t => !t.awaits g n)).Sound env :=
  h.answer (h.waiting.drop h.wired g n) (List.filter_sublist.map _)

theorem exited (h : w.Sound env) (g : Nat) :
    World.Sound env { w.setCodex g fun c => { c with process := .exited } with
      tasks := w.tasks.map (Task.exit g) } where
  db := h.db
  wired := by
    refine h.wired.fades rfl rfl rfl rfl ?_
    exact h.wired.setCodex_fades (g := g) (f := fun c => { c with process := .exited })
      ⟨rfl, rfl, fun h => h, .inl rfl, (fun h => nomatch h), h.wired.closed g⟩
  waiting := h.waiting.exited h.wired g
  interrupts := h.interrupts.keep (by simp [Function.comp_def]) (Db.Grows.refl _)
  accounted := by
    refine h.accounted.keep le_rfl ?_ ⟨[], rfl, by simp⟩
    simp [Function.comp_def]
  issued := h.issued

theorem spawned (h : w.Sound env) {g : Nat} {id : String} (open_ : (w.codex g).closed = false)
    (live : w.live.lookup id = some g) :
    (w.setCodex g fun c => { c with process := .running }).Sound env where
  db := h.db
  wired := h.wired.spawned live
  waiting := h.waiting.spawned open_
  interrupts := h.interrupts
  accounted := ⟨h.accounted.thread, h.accounted.turn, h.accounted.unused⟩
  issued := h.issued

theorem freed (h : w.Sound env) {g : Nat} {id : String} (closed : (w.codex g).closed = true)
    (listener : (w.codex g).listener = none) (process : (w.codex g).process ≠ .running) :
    World.Sound env { w with
      live := if w.live.lookup id = some g then w.live.erase id else w.live } where
  db := h.db
  wired := h.wired.freed closed listener process
  waiting := ⟨h.waiting.owns, h.waiting.awaits⟩
  interrupts := h.interrupts
  accounted := ⟨h.accounted.thread, h.accounted.turn, h.accounted.unused⟩
  issued := h.issued

theorem reset (h : w.Sound env) : w.reset.Sound env where
  db := h.db
  wired := Wired.reset w
  waiting := by constructor <;> simp [World.reset]
  interrupts := by simp [Interrupts, World.reset]
  accounted := by
    refine h.accounted.keep le_rfl (by simp [World.reset]) ⟨[.restarted], rfl, ?_⟩
    simp [Entry.isOther, Entry.isThreadStart, Entry.isTurnStart]
  issued := h.issued

/-- A new adapter takes the free slot for a run that holds it. -/
theorem opened (h : w.Sound env) {id : String} {r : Run} {purpose : Purpose}
    {listener : Option String} (empty : w.live.entries = [])
    (found : w.db.runs.lookup id = some r) (begun : r.status.isBegun = true)
    (occupied : r.status.isOccupied = true)
    (kind : (purpose = .execution id r.attempts.length ∧ listener = some id ∧
        ∀ g k, w.Current g → (w.codex g).purpose = .execution id k → k < r.attempts.length) ∨
      (purpose = .inspection id ∧ listener = none)) :
    World.Sound env { (w.create env purpose).enter id w.created with
      codex := Function.update w.codex w.created
        { Codex.fresh (env.uuid w.uuids) purpose with listener := listener } } where
  db := h.db
  wired := by
    refine h.wired.opened empty found ((h.db.runs id r found).begun begun) ?_ kind
    intro id' r' found' queued
    have same := h.db.slot id' r' id r found' found (by rw [queued]; rfl) occupied
    subst same
    rw [found, Option.some.injEq] at found'
    subst found'
    rw [queued] at begun
    cases begun
  waiting := by
    refine h.waiting.opened h.wired rfl rfl rfl ?_
    intro g ne
    exact Function.update_of_ne ne _ _
  interrupts := h.interrupts
  accounted := by
    refine h.accounted.keep (Nat.le_succ _) (List.Sublist.refl _) ⟨[_], rfl, ?_⟩
    simp [Entry.isOther, Entry.isThreadStart, Entry.isTurnStart]
  issued := by
    intro id' r' found'
    obtain ⟨n, lt, same⟩ := h.issued id' r' found'
    exact ⟨n, lt.trans (Nat.lt_succ_self _), same⟩

/-- A committed command may add a receipt to what it wrote. -/
theorem accept {c : Command} {replay : Bool} {db db' : Db}
    (h : (w.commit (.command c replay) db).Sound env)
    (runs : db'.runs = db.runs) (events : db'.events = db.events) :
    (w.accept c replay db').Sound env where
  db := of_db_eq h.db runs events
  wired := h.wired.fades runs rfl rfl rfl h.wired.fades_refl
  waiting := ⟨h.waiting.owns, h.waiting.awaits⟩
  interrupts := h.interrupts.keep (fun _ member => member)
    (fun _ r found => ⟨r, (congrArg (AList.lookup _) runs).trans found, le_rfl⟩)
  accounted := ⟨h.accounted.thread, h.accounted.turn, h.accounted.unused⟩
  issued := by
    intro id r found
    have found' : db.runs.lookup id = some r := by rw [← runs]; exact found
    obtain ⟨n, lt, same⟩ := h.issued id r found'
    exact ⟨n, lt.trans (Nat.lt_succ_self _), same⟩

/-- A request is registered with its runtime. -/
theorem ask (h : w.Sound env) {g : Nat} {call : Rpc} {frame : Frame}
    (open_ : (w.codex g).closed = false) (issues : Issues g call frame)
    (owns : w.Owns frame) (allows : w.Allows frame)
    (started : ∀ id, frame = .interrupted id →
      ∃ r, w.db.runs.lookup id = some r ∧ r.attempts ≠ []) :
    (w.ask g call frame).Sound env where
  db := h.db
  wired := by
    refine h.wired.fades rfl rfl rfl rfl ?_
    exact h.wired.setCodex_fades (g := g) (f := fun c => { c with
      sequence := (w.codex g).sequence + 1
      pending := c.pending ++ [((w.codex g).sequence + 1, call)] })
      ⟨rfl, rfl, fun h => h, .inl rfl, fun h => h, fun closed => by simp [open_] at closed⟩
  waiting := h.waiting.ask h.wired open_ issues owns
  interrupts := h.interrupts.push
    (t := ⟨frame, .reply g ((w.codex g).sequence + 1)⟩) started
  accounted := by
    have pushed := h.accounted.push (t := ⟨frame, .reply g ((w.codex g).sequence + 1)⟩)
      owns allows
    exact ⟨pushed.thread, pushed.turn, pushed.unused⟩
  issued := h.issued

theorem current_of_open (h : w.Sound env) {g : Nat} (open_ : (w.codex g).closed = false) :
    w.Current g := by
  obtain ⟨id, live⟩ := h.wired.connected g open_
  exact (h.wired.started id g live).1

theorem sent (h : w.Sound env) {g n : Nat} {call : Rpc} (open_ : (w.codex g).closed = false)
    (thread : ∀ directory, call = .threadStart directory → w.threadBudget g = 0)
    (turn : ∀ threadId task, call = .turnStart threadId task → w.turnBudget g = 0) :
    (w.wrote g (.request n call)).Sound env where
  db := h.db
  wired := h.wired.fades rfl rfl rfl rfl h.wired.fades_refl
  waiting := ⟨h.waiting.owns, h.waiting.awaits⟩
  interrupts := h.interrupts
  accounted := h.accounted.sent (h.current_of_open open_).2 thread turn
  issued := h.issued

theorem forgetNamed (h : w.Sound env) (g : Nat) (requestId : Option Json) :
    (w.forgetNamed g requestId).Sound env := by
  cases requestId with
  | some id =>
      exact h.forget g (fun c keys => keys.filter (· ≠ MapKey.ofJson c.frames id)) fun _ => rfl
  | none => exact h.forget g (fun _ keys => keys) fun _ => rfl

theorem note (h : w.Sound env) {g : Nat} (key : MapKey) (open_ : (w.codex g).closed = false) :
    (w.note g key).Sound env := by
  have listed : (w.setCodex g fun c => { c with approvals := c.approvals ++ [key] }).Sound env :=
    h.setCodex ⟨rfl, rfl, fun h => h, .inl rfl, fun h => h,
      fun closed => by simp [open_] at closed⟩ rfl rfl
  exact listed.logged (e := .requested g key) (fun g => ⟨rfl, rfl⟩)

/-- An attempt starts: the run leaves the queue and its runtime takes the slot. -/
theorem begun (h : w.Sound env) {m : Moment} {id : String} {r r' : Run} {db : Db}
    (idle : w.live.entries = []) (writes : w.db.Writes m id .startAttempt r r' db) :
    ((((w.commit (.update id .startAttempt .service) db).create env
      (.execution id r'.attempts.length)).enter id w.created).attach id w.created).Sound
        env := by
  have committed : (w.commit (.update id .startAttempt .service) db).Sound env :=
    h.writes writes trivial (fun _ => idle) nofun
  have started : r'.status = .starting ∧ r'.attempts.length = r.attempts.length + 1 := by
    cases writes.saves
    exact ⟨rfl, by simp⟩
  have world : (((w.commit (.update id .startAttempt .service) db).create env
      (.execution id r'.attempts.length)).enter id w.created).attach id w.created =
      { ((w.commit (.update id .startAttempt .service) db).create env
          (.execution id r'.attempts.length)).enter id w.created with
        codex := Function.update w.codex w.created
          { Codex.fresh (env.uuid w.uuids) (.execution id r'.attempts.length) with
            listener := some id } } := by
    simp [attach, World.setCodex, create, enter, World.commit]
  rw [world]
  refine committed.opened idle (writes.lookup_self h.db) ?_ ?_ (.inl ⟨rfl, rfl, ?_⟩)
  · simp [Db.bump, started.1, RunStatus.isBegun]
  · simp [Db.bump, started.1, RunStatus.isOccupied, RunStatus.isActive]
  · intro g k range purpose
    obtain ⟨s, found, -, le⟩ := h.wired.purposes g id k range purpose
    rw [writes.found, Option.some.injEq] at found
    subst found
    simp only [Db.bump, started.2]
    omega

theorem lookup_fresh (h : w.Sound env) : w.db.runs.lookup (env.uuid w.uuids) = none := by
  cases found : w.db.runs.lookup (env.uuid w.uuids) with
  | none => rfl
  | some r =>
      obtain ⟨n, lt, same⟩ := h.issued _ r found
      have := env.uuid_injective same
      omega

/-- A new run, stored under a fresh id. -/
theorem runCreated (h : w.Sound env) {m : Moment} {projectId : String} {task : ModelingTask}
    {r : Run} {c : Command} {receipts : AList fun _ : String => Receipt} {payload : Json}
    (run : r = Db.bump m (Service.newRun m (env.uuid w.uuids) projectId task))
    (valid : r.Valid) :
    (w.accept c false { w.db.write r (Db.eventOf m r .runCreated payload) with
      receipts := receipts }).Sound env := by
  have id : r.runId = env.uuid w.uuids := by rw [run]; rfl
  have status : r.status = .ready := by rw [run]; rfl
  have old : ∀ id' s, w.db.runs.lookup id' = some s →
      (w.db.write r (Db.eventOf m r .runCreated payload)).runs.lookup id' = some s := by
    intro id' s found
    rw [Db.write_lookup_ne]
    · exact found
    · rintro rfl
      rw [id, h.lookup_fresh] at found
      cases found
  have sound : r.Sound := by
    refine ⟨valid, by rw [run]; rfl, fun _ => by rw [run]; rfl, ?_, ?_, ?_, ?_⟩
    · rw [status]; rintro ⟨⟩
    · rw [status]; rintro ⟨⟩
    · rw [status]; rintro ⟨⟩
    · rw [run]; rintro ⟨⟩
  constructor
  case db =>
      have stored : (w.db.write r (Db.eventOf m r .runCreated payload)).Sound := by
        refine h.db.write sound ?_ ?_
        · rw [id, Db.lastSequenceOf, h.lookup_fresh, run]
          rfl
        · rw [status]
          rintro ⟨⟩
      exact of_db_eq stored rfl rfl
  case wired =>
      have steady : w.db.Steady (w.db.write r (Db.eventOf m r .runCreated payload)) :=
        fun id' s found => ⟨s, old id' s found, rfl⟩
      have committed : (w.commit (.command c false)
          (w.db.write r (Db.eventOf m r .runCreated payload))).Wired := by
        refine h.wired.commit steady.grows (.inr steady) ?_
        intro id' s found queued
        obtain ⟨-, rfl⟩ | ⟨-, found⟩ := Db.write_lookup found
        · rw [status] at queued
          cases queued
        · exact h.wired.idle id' s found queued
      exact committed.fades rfl rfl rfl rfl committed.fades_refl
  case waiting => exact ⟨h.waiting.owns, h.waiting.awaits⟩
  case interrupts =>
      exact h.interrupts.keep (fun _ member => member)
        (fun id' s found => ⟨s, old id' s found, le_rfl⟩)
  case accounted =>
      refine h.accounted.keep le_rfl (List.Sublist.refl _) ⟨[_], rfl, ?_⟩
      simp [Entry.isOther, Entry.isThreadStart, Entry.isTurnStart]
  case issued =>
      intro id' s found
      obtain ⟨rfl, -⟩ | ⟨-, found⟩ :=
        Db.write_lookup (e := Db.eventOf m r .runCreated payload) found
      · exact ⟨w.uuids, Nat.lt_succ_self _, id⟩
      · obtain ⟨n, lt, same⟩ := h.issued id' s found
        exact ⟨n, lt.trans (Nat.lt_succ_self _), same⟩

end World.Sound

namespace World

variable {env : Env} {w w' : World} {id : String}

/-- Marking a run uncertain touches nothing but the database and the log. -/
theorem Uncertain.frame (h : w.Uncertain env id w') :
    w'.codex = w.codex ∧ w'.live = w.live ∧ w'.tasks = w.tasks ∧
      w'.created = w.created ∧ w'.lifetime = w.lifetime ∧ w'.uuids = w.uuids := by
  cases h <;> exact ⟨rfl, rfl, rfl, rfl, rfl, rfl⟩

end World

theorem Follows.started {cause : Cause} {w : World} {frame : Frame}
    (h : Follows cause w frame) (id : String) (same : frame = .interrupted id) :
    ∃ r, w.db.runs.lookup id = some r ∧ r.attempts ≠ [] := by
  cases h with
  | interrupted live found started =>
      cases same
      exact ⟨_, found, started⟩
  | execution job found status number attached kind => rw [same] at kind; simp at kind
  | inspection job live found status kind => rw [same] at kind; simp at kind
  | _ => cases same

/-- The invariant is kept by every effect. -/
theorem Effect.sound {env : Env} {cause : Cause} {w w' : World} (h : w.Sound env)
    (effect : Effect env cause w w') : w'.Sound env := by
  cases effect with
  | quiet quiet => exact h.quiet quiet
  | said plain =>
      refine h.logged ?_
      rcases plain with rfl | ⟨id, rfl⟩ <;> exact fun g => ⟨rfl, rfl⟩
  | skipped => exact h.same _
  | registered open_ issues follows owns allows =>
      exact h.ask open_ issues owns allows follows.started
  | sent open_ thread turn =>
      exact h.sent open_ (fun directory call => (thread directory call).1)
        (fun threadId task call => (turn threadId task call).1)
  | pushed follows owns allows unanswered =>
      refine h.push owns allows (World.Waiting.ready_awaits ?_) follows.started
      rintro id g closing rfl
      cases follows with
      | execution job found status number attached kind => simp at kind
      | inspection job live found status kind => simp at kind
  | cut open_ unheard => exact h.shut _ _
  | lost open_ listener live uncertain =>
      refine ((h.shut _ _).uncertain uncertain).releaseStarted ?_
      rw [uncertain.frame.2.1]
      exact live
  | doubted absent uncertain source => exact h.uncertain uncertain
  | undelivered command live uncertain =>
      refine (h.uncertain uncertain).releaseStarted ?_
      rw [uncertain.frame.2.1]
      exact live
  | abandoned range source own uncertain =>
      refine (h.uncertain uncertain).release _ ?_
      obtain ⟨-, -, -, created, lifetime, -⟩ := uncertain.frame
      simpa only [World.Current, created, lifetime] using range
  | releaseJob range resumes => exact h.release _ range
  | inspected range resumes unheard => exact h.release _ range
  | exited running => exact h.exited _
  | freed resumes closed listener process => exact h.freed closed listener process
  | reset restart => exact h.reset
  | begun job idle queued writes => exact h.begun idle writes
  | misfired job idle queued writes fails =>
      rename_i id message r r' r'' db db'
      have started : (w.commit (.update id .startAttempt .service) db).Sound env :=
        h.writes writes trivial (fun _ => idle) (by rintro _ _ ⟨⟩)
      exact started.free fails (Change.free_of_isFree rfl)
  | spawned open_ unspawned live => exact h.spawned open_ live
  | gaveUp resumes owns writes =>
      refine (h.free writes (Change.free_of_isFree rfl)).release _ ?_
      exact owns.1
  | boundThread resumes owns writes => exact h.free writes (Change.free_of_isFree rfl)
  | stopped resumes owns unsent cancelling writes =>
      refine (h.writes writes cancelling (by rintro ⟨⟩) (by rintro _ _ ⟨⟩)).release _ ?_
      exact owns.1
  | boundReply resumes owns found last unbound reply updates =>
      exact h.updates updates (Change.free_of_isFree rfl)
  | boundTurn delivers announces heard updates =>
      exact h.updates updates (Change.free_of_isFree rfl)
  | progressed delivers heard updates =>
      exact h.updates updates (Change.free_of_isFree rfl)
  | concluded delivers completes heard last same table writes =>
      exact (h.free writes (Change.free_of_isFree rfl)).releaseStarted heard.live
  | dismissed delivers completes heard table => exact h.releaseStarted heard.live
  | forgot delivers withdraws unmatched => exact h.forgetNamed _ _
  | withdrawn delivers withdraws heard writes =>
      exact (h.forgetNamed _ _).free writes (Change.free_of_isFree rfl)
  | requested delivers open_ unlisted => exact h.note _ open_
  | asked delivers announces heard unlisted binds status writes number =>
      rename_i g k frame id m requestId details value kind r r₁ r₂ db₁ db₂
      have bound : ((w.note g (.ofJson frame requestId)).commit
          (.update id (.bindTurn value) (.runtime g)) db₁).Sound env :=
        (h.note _ heard.open_).updates binds (Change.free_of_isFree rfl)
      have counted : World.Sound env { (w.note g (.ofJson frame requestId)).commit
          (.update id (.bindTurn value) (.runtime g)) db₁ with uuids := w.uuids + 1 } :=
        bound.inside rfl rfl rfl rfl rfl (Nat.le_succ _) ⟨[], rfl, by simp⟩
          bound.wired.fades_refl (fun _ => rfl) (fun _ => rfl)
      exact counted.writes writes status (by rintro ⟨⟩) (by rintro _ _ ⟨⟩)
  | replied delivers reply pending =>
      exact (h.settle _ _ _).logged (fun g => ⟨rfl, rfl⟩)
  | rejected => exact h.settle _ _ _
  | dropped => exact h.drop _ _
  | answered listed source =>
      rename_i g key decision
      have logged := h.logged (e := .wrote g (.decision key decision)) (fun g => ⟨rfl, rfl⟩)
      exact logged.forget g (fun _ keys => keys.filter (· ≠ key)) (fun _ => rfl)
  | inspecting job idle found status =>
      exact h.opened idle found (by rw [status]; rfl) (by rw [status]; rfl)
        (.inr ⟨rfl, rfl⟩)
  | noted updates source => exact h.updates updates (Change.free_of_isFree rfl)
  | imported resumes owns selects final table writes =>
      refine (h.free writes (Change.free_of_isFree rfl)).release _ ?_
      exact owns.1
  | replayed => exact World.Sound.accept (h.same _) rfl rfl
  | projectCreated request unused => exact World.Sound.accept (h.same _) rfl rfl
  | runCreated request unused run valid object => exact h.runCreated run valid
  | commanded command request unused current writes =>
      refine World.Sound.accept (h.writes writes trivial (by rintro ⟨⟩) ?_) rfl rfl
      rintro v op ⟨⟩
      rfl

end Mathmodel
