import Mathmodel.Backend.Containment
import Mathmodel.Backend.Underway

/-!
# No cancellation is lost

`Followed` says of every run under execution that somebody will go on with it: a task of
the dispatch, or the runtime, which was told the turn. For a run that is being cancelled
it says that some task will look at the status, or that the runtime was asked to
interrupt the turn. The one way out is a runtime that announces a turn without a name.
-/

namespace Mathmodel

open M Program

/-! ## What a section keeps of a run under execution -/

/-- A run under execution before and after a section that starts no attempt. -/
structure Run.Persists (cause : Cause) (r r' : Run) : Prop where
  executing : r.status.isExecuting = true
  attempts : r'.attempts.length = r.attempts.length
  bound : ∀ turnId, r.boundTurn = some turnId → r'.boundTurn = some turnId
  cancelling : r'.status = .cancelling → r.status = .cancelling ∨ ∃ tasks, cause = .command tasks

namespace Run.Persists

variable {cause : Cause} {r s t : Run}

theorem refl (executing : r.status.isExecuting = true) : r.Persists cause r :=
  ⟨executing, rfl, fun _ bound => bound, .inl⟩

theorem trans (h : r.Persists cause s) (h' : s.Persists cause t) : r.Persists cause t := by
  refine ⟨h.executing, h'.attempts.trans h.attempts,
    fun turnId bound => h'.bound turnId (h.bound turnId bound), fun cancelling => ?_⟩
  obtain cancelling | command := h'.cancelling cancelling
  · exact h.cancelling cancelling
  · exact .inr command

theorem bumped {m : Moment} (h : r.Persists cause s) : r.Persists cause (Db.bump m s) :=
  ⟨h.executing, h.attempts, h.bound, h.cancelling⟩

end Run.Persists

/-- A save that leaves the run under execution keeps its turn. -/
theorem Change.Saves.keepsTurn {m : Moment} {r r' : Run} {change : Change}
    (h : change.Saves m r r') (plain : change ≠ .startAttempt)
    (executing : r'.status.isExecuting = true) {turnId : String}
    (bound : r.boundTurn = some turnId) : r'.boundTurn = some turnId := by
  cases h with
  | startAttempt => exact absurd rfl plain
  | bindThread last typed =>
      rw [Run.boundTurn_of_last last] at bound
      exact (Run.boundTurn_setLast _ _).trans bound
  | bindTurn last unbound typed =>
      rw [Run.boundTurn_of_last last, unbound] at bound
      cases bound
  | message last =>
      rw [Run.boundTurn_of_last last] at bound
      exact (Run.boundTurn_setLast _ _).trans bound
  | finish last typed =>
      rename_i outcome _ _ _
      cases outcome <;> cases executing
  | review status last =>
      rename_i decision _ _
      cases decision <;> cases executing
  | cancelActive | resolve | reconcile | resolvedByRuntime | item | requestApproval
  | reconciled => exact bound
  | _ => cases executing

/-- Outside a command no save makes a run `cancelling`. -/
theorem Change.Saves.cancelling {m : Moment} {r r' : Run} {change : Change}
    (h : change.Saves m r r') (cancelling : r'.status = .cancelling) :
    r.status = .cancelling ∨ ∃ view op, change = .command view op := by
  cases h with
  | bindTurn last unbound typed =>
      dsimp only at cancelling
      split at cancelling
      · cases cancelling
      · exact .inl cancelling
  | resolvedByRuntime found expired =>
      dsimp only at cancelling
      split at cancelling
      · cases cancelling
      · exact .inl cancelling
  | finish last typed =>
      rename_i outcome _ _ _
      cases outcome <;> cases cancelling
  | bindThread last typed => exact .inl cancelling
  | message last => exact .inl cancelling
  | item => exact .inl cancelling
  | reconciled => exact .inl cancelling
  | start | retry | cancelIdle | cancelActive | resolve | review | reconcile =>
      exact .inr ⟨_, _, rfl⟩
  | _ => cases cancelling

/-- Every run under execution was so before. -/
def Db.Persists (cause : Cause) (before after : Db) : Prop :=
  ∀ id r', after.runs.lookup id = some r' → r'.status.isExecuting = true →
    ∃ r, before.runs.lookup id = some r ∧ r.Persists cause r'

section Sections

variable {env : Env} {cause : Cause} {w w' : World}

theorem Commit.persists {origin : Origin} {before after : Db}
    (commit : Commit env cause w origin before after) (sound : before.Sound)
    (unscheduled : ∀ result, ¬cause.Resumes .schedule result) :
    Db.Persists cause before after := by
  intro id r' found' executing
  obtain same | ⟨m, projectId, task, -, rfl⟩ |
    ⟨r, s, change, via, -, found, why, saves, rfl⟩ |
    ⟨r, s, c, version, op, -, -, command, -, -, found, saves, rfl⟩ := commit.run sound found'
  · exact ⟨r', same, .refl executing⟩
  · cases executing
  · have plain : change ≠ .startAttempt := by
      rintro rfl
      cases why with
      | begun found job => exact unscheduled _ job.choose_spec
    have before : r.status.isExecuting = true :=
      (saves.executing why.admissible executing).resolve_right plain
    have persists : r.Persists cause s := by
      refine ⟨before, saves.attempts_length.resolve_right fun start => plain start.1,
        fun _ => saves.keepsTurn plain executing, fun cancelling => .inl ?_⟩
      refine (saves.cancelling cancelling).resolve_right ?_
      rintro ⟨view, op, rfl⟩
      cases why
    exact ⟨r, found, persists.bumped⟩
  · have plain : Change.command (Service.view w id) op ≠ .startAttempt := by rintro ⟨⟩
    have persists : r.Persists cause s :=
      ⟨(saves.executing trivial executing).resolve_right plain,
        saves.attempts_length.resolve_right fun start => plain start.1,
        fun _ => saves.keepsTurn plain executing, fun _ => .inr ⟨_, command⟩⟩
    exact ⟨r, found, persists.bumped⟩

theorem Db.Persists.trans {a b c : Db} (h : a.Persists cause b) (h' : b.Persists cause c) :
    a.Persists cause c := by
  intro id t found executing
  obtain ⟨s, found', later⟩ := h' id t found executing
  obtain ⟨r, found'', earlier⟩ := h id s found' later.executing
  exact ⟨r, found'', earlier.trans later⟩

theorem Db.Persists.refl (db : Db) : db.Persists cause db :=
  fun _ r found executing => ⟨r, found, .refl executing⟩

theorem Effect.persists (sound : w.Sound env) (effect : Effect env cause w w')
    (unscheduled : ∀ result, ¬cause.Resumes .schedule result) :
    Db.Persists cause w.db w'.db := by
  obtain ⟨entries, -, ledger⟩ := effect.ledger sound
  refine ledger.keeps (P := Db.Persists cause w.db) (.refl _) ?_
  intro origin before after sound kept commit
  exact kept.trans (commit.persists sound unscheduled)

/-- Only a restart begins a new lifetime. -/
theorem Effect.lifetime (effect : Effect env cause w w') (running : cause ≠ .restart) :
    w'.lifetime = w.lifetime := by
  cases effect with
  | quiet quiet => exact quiet.lifetime
  | lost open_ listener live uncertain => exact uncertain.frame.2.2.2.2.1
  | doubted absent uncertain source => exact uncertain.frame.2.2.2.2.1
  | undelivered command live uncertain => exact uncertain.frame.2.2.2.2.1
  | abandoned range source own uncertain =>
      rw [World.release_lifetime]
      exact uncertain.frame.2.2.2.2.1
  | reset restart => exact absurd restart running
  | releaseJob | inspected => simp
  | gaveUp | stopped | imported => simp [World.commit]
  | _ => rfl

/-- A runtime serves its attempt until the process is lost. -/
theorem Effect.serves (effect : Effect env cause w w') (running : cause ≠ .restart) {g k : Nat}
    {id : String} (serves : w.Serves g id k) : w'.Serves g id k := by
  obtain ⟨⟨first, last⟩, purpose⟩ := serves
  obtain stays | ⟨new, -⟩ | ⟨restart, -⟩ := effect.adapter g
  · exact ⟨⟨(effect.lifetime running).trans_le first, last.trans_le effect.created_le⟩,
      stays.purpose.trans purpose⟩
  · exact absurd new (Nat.ne_of_lt last)
  · exact absurd restart running

theorem Effect.log_mem (sound : w.Sound env) (effect : Effect env cause w w') {e : Entry}
    (member : e ∈ w.log) : e ∈ w'.log := by
  obtain ⟨entries, log, -⟩ := effect.ledger sound
  rw [log]
  exact List.mem_append_right _ member

end Sections

/-! ## Runtimes of inspections -/

/-- A live runtime that was created for an inspection has no run under execution. -/
def World.Inspected (w : World) : Prop :=
  ∀ id g other, w.live.lookup id = some g → (w.codex g).purpose = .inspection other →
    ¬w.db.Executes id

section Inspections

variable {env : Env} {cause : Cause} {w w' : World}

/-- The only runtime that an effect adds for an inspection is that of a run whose outcome is
unknown. -/
theorem Effect.inspects (sound : w.Sound env) (effect : Effect env cause w w')
    {id other : String} (live : w'.live.lookup id = some w.created)
    (purpose : (w'.codex w.created).purpose = .inspection other) :
    ∃ r, w'.db.runs.lookup id = some r ∧ r.status = .recoveryRequired := by
  have unused : ∀ i, w.live.lookup i ≠ some w.created :=
    fun i was => absurd (sound.wired.started i _ was).1.2 (lt_irrefl _)
  cases effect with
  | inspecting job idle found status =>
      rename_i other' r
      by_cases same : id = other'
      · subst same
        exact ⟨r, found, status⟩
      · refine absurd ?_ (unused id)
        simpa [World.enter, World.create, AList.lookup_insert_ne same] using live
  | begun => simp [World.attach, World.enter, World.create, World.commit, Codex.fresh] at purpose
  | quiet quiet => exact absurd (quiet.live ▸ live) (unused id)
  | lost open_ listener live' uncertain => exact absurd (uncertain.frame.2.1 ▸ live) (unused id)
  | doubted absent uncertain source => exact absurd (uncertain.frame.2.1 ▸ live) (unused id)
  | undelivered command live' uncertain => exact absurd (uncertain.frame.2.1 ▸ live) (unused id)
  | abandoned range source own uncertain =>
      rw [World.release_live] at live
      exact absurd (uncertain.frame.2.1 ▸ live) (unused id)
  | freed resumes closed listener process =>
      refine absurd ?_ (unused id)
      dsimp only at live
      split at live
      · rename_i _ gone _ _ _
        by_cases same : id = gone
        · subst same
          rw [AList.lookup_erase] at live
          cases live
        · rwa [AList.lookup_erase_ne same] at live
      · exact live
  | reset restart => cases live
  | releaseJob | inspected => exact absurd (by simpa using live) (unused id)
  | gaveUp | stopped | imported => exact absurd (by simpa [World.commit] using live) (unused id)
  | _ => exact absurd live (unused id)

theorem World.Inspected.effect (h : w.Inspected) (sound : w.Sound env)
    (effect : Effect env cause w w') : w'.Inspected := by
  intro id g other live purpose executes
  by_cases new : g = w.created
  · subst new
    obtain ⟨r, found, status⟩ := effect.inspects sound live purpose
    obtain ⟨s, found', executing⟩ := executes
    cases found.symm.trans found'
    rw [status] at executing
    cases executing
  · obtain before | ⟨attached, -⟩ := effect.executes sound executes
    · have old : w.live.lookup id = some g → False := by
        intro was
        obtain stays | ⟨new', -⟩ | ⟨-, rfl⟩ := effect.adapter g
        · exact h id g other was (stays.purpose.symm.trans purpose) before
        · exact new new'
        · cases live
      obtain ⟨same, -⟩ | ⟨-, -, -, -, -, added, inserted⟩ |
        ⟨-, -, ⟨none, -⟩ | ⟨-, gone, erased⟩⟩ := effect.live
      · exact old (same ▸ live)
      · rw [inserted] at live
        by_cases same : id = added
        · subst same
          rw [AList.lookup_insert] at live
          exact new (Option.some.inj live).symm
        · rw [AList.lookup_insert_ne same] at live
          exact old live
      · rw [none] at live
        cases live
      · rw [erased] at live
        by_cases same : id = gone
        · subst same
          rw [AList.lookup_erase] at live
          cases live
        · rw [AList.lookup_erase_ne same] at live
          exact old live
    · exact new (Option.some.inj (live.symm.trans attached.live))

theorem inspected_reached (run : Reaches (Step env) .init w) : w.Inspected := by
  refine run.keeps (I := World.Inspected) ?_ (fun _ _ _ h => h) ?_ (fun _ h => h)
  · intro id g other live
    cases live
  · exact fun cause v v' sound effect h => h.effect sound effect

/-- The open runtime of a run under execution serves its last attempt. -/
theorem World.Inspected.serving (h : w.Inspected) (sound : w.Sound env) {id : String} {g : Nat}
    {r : Run} (found : w.db.runs.lookup id = some r) (executing : r.status.isExecuting = true)
    (live : w.live.lookup id = some g) (open_ : (w.codex g).closed = false) :
    w.Serves g id r.attempts.length := by
  refine ⟨(sound.wired.started id g live).1, ?_⟩
  cases purpose : (w.codex g).purpose with
  | inspection other => exact absurd ⟨r, found, executing⟩ (h id g other live purpose)
  | execution other k =>
      have listener := sound.wired.attached g other k open_ purpose
      obtain ⟨live', s, found', purpose'⟩ := sound.wired.listener g other listener
      obtain rfl := sound.wired.single other g id g live' live
      cases found.symm.trans found'
      exact purpose.symm.trans purpose'

end Inspections


/-! ## The invariant -/

/-- The task goes on with the attempt, or looks at a cancellation of the run. -/
def Task.Attends (t : Task) (id : String) (k : Nat) : Prop :=
  t.frame.dispatches id k = true ∨ t.frame = .cancel id ∨
    ∃ e, t = ⟨.interrupted id, .ready (.error e)⟩

/-- Somebody goes on with the run, and somebody passes on its cancellation. -/
structure World.Tended (w : World) (id : String) (r : Run) : Prop where
  turn : w.Underway id r.attempts.length ∨ r.boundTurn.isSome = true ∨
    w.Unnamed id r.attempts.length
  cancel : r.status = .cancelling → w.Underway id r.attempts.length ∨
    (∃ t ∈ w.tasks, t.frame = .cancel id) ∨ w.Failing id ∨
    w.Notified id r.attempts.length r ∨ w.Unnamed id r.attempts.length

/-- Every run under execution is tended. -/
def World.Followed (w : World) : Prop :=
  ∀ id r, w.db.runs.lookup id = some r → r.status.isExecuting = true → w.Tended id r

namespace World

theorem Tended.of_underway {w : World} {id : String} {r : Run}
    (underway : w.Underway id r.attempts.length) : w.Tended id r :=
  ⟨.inl underway, fun _ => .inl underway⟩

theorem Tended.of_unnamed {w : World} {id : String} {r : Run}
    (unnamed : w.Unnamed id r.attempts.length) : w.Tended id r :=
  ⟨.inr (.inr unnamed), fun _ => .inr (.inr (.inr (.inr unnamed)))⟩

/-- What one world knows of runtimes and of the log, the other knows too. -/
structure Retains (u v : World) : Prop where
  serves : ∀ g id k, u.Serves g id k → v.Serves g id k
  log : ∀ e ∈ u.log, e ∈ v.log

namespace Retains

variable {u v : World} {cause : Cause} {id : String} {k : Nat} {r r' : Run}

theorem refl (u : World) : u.Retains u := ⟨fun _ _ _ h => h, fun _ h => h⟩

theorem unnamed (h : u.Retains v) (unnamed : u.Unnamed id k) : v.Unnamed id k := by
  obtain ⟨g, serves, before, after, announced⟩ := unnamed
  exact ⟨g, h.serves _ _ _ serves, before, after, h.log _ announced⟩

theorem notified (h : u.Retains v) (persists : r.Persists cause r')
    (notified : u.Notified id k r) : v.Notified id k r' := by
  obtain ⟨g, n, threadId, turnId, serves, bound, wrote⟩ := notified
  exact ⟨g, n, threadId, turnId, h.serves _ _ _ serves, persists.bound _ bound, h.log _ wrote⟩

/-- A run is tended as long as the tasks stay that attend it. -/
theorem tended (h : u.Retains v) (persists : r.Persists cause r') (tended : u.Tended id r)
    (kept : ∀ t ∈ u.tasks, t.Attends id r.attempts.length → ∃ t' ∈ v.tasks, t.Settled t')
    (passed : r'.status = .cancelling → r.status = .cancelling ∨
      ∃ t ∈ v.tasks, t.frame = .cancel id) : v.Tended id r' := by
  have underway : u.Underway id r.attempts.length → v.Underway id r'.attempts.length := by
    rintro ⟨t, member, dispatches⟩
    obtain ⟨t', listed, settled⟩ := kept t member (.inl dispatches)
    refine ⟨t', listed, ?_⟩
    rw [settled.frame, persists.attempts]
    exact dispatches
  have unnamed : u.Unnamed id r.attempts.length → v.Unnamed id r'.attempts.length := by
    rw [persists.attempts]
    exact h.unnamed
  refine ⟨?_, fun cancelling => ?_⟩
  · obtain task | some | nameless := tended.turn
    · exact .inl (underway task)
    · obtain ⟨turnId, bound⟩ := Option.isSome_iff_exists.mp some
      exact .inr (.inl (Option.isSome_iff_exists.mpr ⟨turnId, persists.bound _ bound⟩))
    · exact .inr (.inr (unnamed nameless))
  · obtain was | job := passed cancelling
    · obtain task | ⟨t, member, frame⟩ | ⟨e, member⟩ | asked | nameless := tended.cancel was
      · exact .inl (underway task)
      · obtain ⟨t', listed, settled⟩ := kept t member (.inr (.inl frame))
        exact .inr (.inl ⟨t', listed, settled.frame.trans frame⟩)
      · obtain ⟨t', listed, settled⟩ := kept _ member (.inr (.inr ⟨e, rfl⟩))
        rw [settled.of_ready rfl] at listed
        exact .inr (.inr (.inl ⟨e, listed⟩))
      · rw [persists.attempts]
        exact .inr (.inr (.inr (.inl (h.notified persists asked))))
      · exact .inr (.inr (.inr (.inr (unnamed nameless))))
    · exact .inr (.inl job)

end Retains

end World

section Sections

variable {env : Env} {cause : Cause} {u v w₀ w : World} {id : String} {r r' : Run}

theorem Course.retains (course : Course env cause w₀ w) (sound : w₀.Sound env)
    (running : cause ≠ .restart) : w₀.Retains w := by
  constructor
  · intro g id k serves
    exact course.keeps (I := fun v => v.Serves g id k) sound serves
      fun _ _ _ effect serves => effect.serves running serves
  · intro e member
    exact course.keeps (I := fun v => e ∈ v.log) sound member
      fun _ _ sound effect member => effect.log_mem sound member

theorem Course.persists (course : Course env cause w₀ w) (sound : w₀.Sound env)
    (unscheduled : ∀ result, ¬cause.Resumes .schedule result) :
    Db.Persists cause w₀.db w.db :=
  course.keeps (I := fun v => Db.Persists cause w₀.db v.db) sound (.refl _)
    fun _ _ sound effect kept => kept.trans (effect.persists sound unscheduled)

/-- A section that only settles promises and adds tasks. -/
theorem World.Followed.tasks (h : w₀.Followed) (course : Course env cause w₀ w)
    (sound : w₀.Sound env) (running : cause ≠ .restart)
    (unscheduled : ∀ result, ¬cause.Resumes .schedule result)
    (kept : w.HasTasks w₀.tasks)
    (passed : (∃ tasks, cause = .command tasks) → w₀.PassesOn w) : w.Followed := by
  intro id r' found' executing
  obtain ⟨r, found, persists⟩ := course.persists sound unscheduled id r' found' executing
  refine (course.retains sound running).tended persists (h id r found persists.executing)
    (fun t member _ => kept t member) fun cancelling => ?_
  obtain was | command := persists.cancelling cancelling
  · exact .inl was
  · obtain ⟨s, found', was⟩ | job := passed command id r' found' cancelling
    · cases found.symm.trans found'
      exact .inl was
    · exact .inr job

/-- A task of the dispatch that awaits a reply awaits it of the runtime of its attempt. -/
theorem World.Sound.dispatching (sound : u.Sound env) {t : Task} (member : t ∈ u.tasks) {k : Nat}
    (dispatches : t.frame.dispatches id k = true) {g n : Nat} (awaits : t.awaits g n = true) :
    u.Serves g id k := by
  have owns := sound.waiting.owns t member
  have kind := sound.waiting.awaits t member
  rcases t with ⟨frame, wait⟩
  cases wait with
  | ready result => cases awaits
  | exit h => cases awaits
  | reply h m =>
      simp only [Task.awaits, Bool.and_eq_true, beq_iff_eq] at awaits
      obtain ⟨rfl, rfl⟩ := awaits
      obtain ⟨-, kind⟩ := kind
      cases frame with
      | handshake i caller =>
          cases caller with
          | execute i' k' directory =>
              simp only [Frame.dispatches, Bool.and_eq_true, beq_iff_eq] at dispatches
              obtain ⟨rfl, rfl⟩ := dispatches
              obtain rfl := kind
              exact owns
          | reconcile => cases dispatches
      | connected i caller => exact kind.elim
      | threadStarted i h k' =>
          simp only [Frame.dispatches, Bool.and_eq_true, beq_iff_eq] at dispatches
          obtain ⟨rfl, rfl⟩ := dispatches
          obtain rfl := kind
          exact owns
      | turnStarted i h k' =>
          simp only [Frame.dispatches, Bool.and_eq_true, beq_iff_eq] at dispatches
          obtain ⟨rfl, rfl⟩ := dispatches
          obtain rfl := kind
          exact owns
      | _ => cases dispatches

/-- The tasks that attend a run under execution survive the frames of a runtime: a promise is
dropped only when the connection fails, and then the run has left execution. -/
theorem Course.attends {g : Nat} {text : List Char} (sound : u.Sound env)
    (course : Course env (.received g (Codex.incoming env (u.codex g) text)) u
      ((Codex.receive env g text).after u))
    (executes : ((Codex.receive env g text).after u).db.Executes id) {t : Task} {k : Nat}
    (member : t ∈ u.tasks) (attends : t.Attends id k) :
    ∃ t' ∈ ((Codex.receive env g text).after u).tasks, t.Settled t' := by
  by_cases awaits : ∃ n, t.awaits g n = true
  · obtain ⟨n, awaits⟩ := awaits
    have left : u.LeftBy u.tasks g ((Codex.receive env g text).after u) :=
      after_of_wp (wp_receive_leaves text (World.HasTasks.of_subset (List.Subset.refl _)))
    obtain kept | ⟨open_, closed⟩ := left
    · exact kept t member
    · exfalso
      have serves : u.Serves g id k := by
        obtain dispatches | frame | ⟨e, rfl⟩ := attends
        · exact World.Sound.dispatching sound member dispatches awaits
        · rcases t with ⟨f, wait⟩
          subst frame
          have kind := sound.waiting.awaits _ member
          cases wait with
          | reply h m => exact kind.2.elim
          | ready result => cases awaits
          | exit h => cases awaits
        · cases awaits
      have listener := sound.wired.attached g id _ open_ serves.2
      have attached : u.Attached id g :=
        ⟨(sound.wired.listener g id listener).1, listener, open_⟩
      have unscheduled : ∀ result, ¬(Cause.received g
          (Codex.incoming env (u.codex g) text)).Resumes .schedule result := by rintro _ ⟨⟩
      have still := course.keeps (I := fun v => v.db.Executes id → v.Attached id g) sound
        (fun _ => attached) (by
          rintro v v' sound effect kept ⟨s, found, executing⟩
          obtain ⟨s₀, found₀, persists⟩ := effect.persists sound unscheduled id s found executing
          exact effect.attached sound (by rintro ⟨⟩) (kept ⟨s₀, found₀, persists.executing⟩)
            (by rintro _ _ ⟨⟩) ⟨s, found, executing⟩)
      have open' := (still executes).open_
      rw [closed] at open'
      cases open'
  · have stays := ((World.hasTasks_stable env [t]).receive g
      (World.hasTasks_forgets (by simpa using awaits)) text).after
      (World.HasTasks.of_subset (w := u) (by simpa using member))
    exact stays t (List.mem_singleton_self _)

/-- The section of a task of the dispatch leaves the run of its attempt tended. -/
theorem World.Sound.dispatched {i : Nat} {frame : Frame} {result : Except Err Json}
    (sound : u.Sound env) (inspected : u.Inspected)
    (task : u.tasks[i]? = some ⟨frame, .ready result⟩)
    (dispatches : frame.dispatches id r.attempts.length = true)
    (found : u.db.runs.lookup id = some r) (before : r.status.isExecuting = true)
    (length : r'.attempts.length = r.attempts.length)
    (found' : ((Service.resume env result frame).after (u.take i)).db.runs.lookup id = some r')
    (executing : r'.status.isExecuting = true) :
    ((Service.resume env result frame).after (u.take i)).Tended id r' := by
  have started := sound.take i
  have owns := sound.waiting.owns _ (List.mem_of_getElem? task)
  have course := resume_course sound task
  have ended : ∀ {v : World}, v.db.runs.lookup id = some r' → ¬v.Rests id :=
    fun found' rests => rests.not_executes ⟨r', found', executing⟩
  cases frame with
  | handshake g caller =>
      cases caller with
      | execute _ _ directory =>
          simp only [Frame.dispatches, Bool.and_eq_true, beq_iff_eq] at dispatches
          obtain ⟨rfl, rfl⟩ := dispatches
          refine .of_underway ?_
          rw [length]
          exact after_of_wp wp_handshake_underway
      | reconcile => cases dispatches
  | connected g caller =>
      cases caller with
      | execute _ _ directory =>
          simp only [Frame.dispatches, Bool.and_eq_true, beq_iff_eq] at dispatches
          obtain ⟨rfl, rfl⟩ := dispatches
          obtain underway | rests := after_of_wp (wp_executeConnected_underway started owns)
          · exact .of_underway (by rw [length]; exact underway)
          · exact absurd rests (ended found')
      | reconcile => cases dispatches
  | threadStarted _ g _ =>
      simp only [Frame.dispatches, Bool.and_eq_true, beq_iff_eq] at dispatches
      obtain ⟨rfl, rfl⟩ := dispatches
      obtain underway | rests := after_of_wp (wp_threadStarted_underway started owns
        (sound.take_turnBudget task (by simp [Frame.precedesTurn])))
      · exact .of_underway (by rw [length]; exact underway)
      · exact absurd rests (ended found')
  | turnStarted _ g _ =>
      simp only [Frame.dispatches, Bool.and_eq_true, beq_iff_eq] at dispatches
      obtain ⟨rfl, rfl⟩ := dispatches
      obtain rests | answered := after_of_wp (wp_turnStarted_answered started owns found
        fun g' live open_ => inspected.serving sound found before live open_)
      · exact absurd rests (ended found')
      · obtain ⟨named, passed⟩ := answered r' found' executing
        have serves := (course.retains started (by rintro ⟨⟩)).serves _ _ _ owns
        rw [← length] at serves passed
        constructor
        · exact .inr (named.imp_right fun anonymous => ⟨g, serves, anonymous⟩)
        · intro cancelling
          obtain failing | notified | anonymous := passed cancelling
          · exact .inr (.inr (.inl failing))
          · exact .inr (.inr (.inr (.inl notified)))
          · exact .inr (.inr (.inr (.inr ⟨g, serves, anonymous⟩)))
  | _ => cases dispatches

/-- A continuation leaves every run under execution tended. -/
theorem World.Followed.resumes {i : Nat} {frame : Frame} {result : Except Err Json}
    (h : u.Followed) (sound : u.Sound env) (inspected : u.Inspected)
    (task : u.tasks[i]? = some ⟨frame, .ready result⟩) :
    ((Service.resume env result frame).after (u.take i)).Followed := by
  have course := resume_course sound task
  have started := sound.take i
  have retains : u.Retains ((Service.resume env result frame).after (u.take i)) :=
    ⟨(course.retains started (by rintro ⟨⟩)).serves, (course.retains started (by rintro ⟨⟩)).log⟩
  have stays := ((World.hasTasks_stable env (u.take i).tasks).resume result frame).after
    (World.HasTasks.of_subset (List.Subset.refl _))
  -- a task that was not taken attends the run as before
  have others : ∀ {id k}, ¬(⟨frame, .ready result⟩ : Task).Attends id k →
      ∀ t ∈ u.tasks, t.Attends id k →
        ∃ t' ∈ ((Service.resume env result frame).after (u.take i)).tasks, t.Settled t' := by
    intro id k idle t member attends
    obtain rfl | listed := List.mem_cons.mp ((World.tasks_perm task).mem_iff.mpr member)
    · exact absurd attends idle
    · exact stays t listed
  intro id r' found' executing
  by_cases starts : frame = .schedule
  · subst starts
    obtain same | underway := after_of_wp (wp_scheduleJob_launches started) id r' found' executing
    · have persists : r'.Persists .shutdown r' := .refl executing
      refine retains.tended persists (h id r' same executing) (others ?_) .inl
      rintro (dispatches | frame | ⟨e, task⟩)
      · cases dispatches
      · cases frame
      · cases task
    · exact .of_underway underway
  · obtain ⟨r, found, persists⟩ := course.persists started (by
      rintro result' ⟨⟩
      exact starts rfl) id r' found' executing
    have tended := h id r found persists.executing
    by_cases attends : (⟨frame, .ready result⟩ : Task).Attends id r.attempts.length
    · obtain dispatches | same | ⟨e, same⟩ := attends
      · exact sound.dispatched inspected task dispatches found persists.executing persists.attempts
          found' executing
      · -- the job of the cancellation: what it does depends on the turn
        dsimp only at same
        subst same
        have dispatching : ∀ t ∈ u.tasks, t.frame.dispatches id r.attempts.length = true →
            ∃ t' ∈ ((Service.cancel env id).after (u.take i)).tasks, t.Settled t' := by
          intro t member dispatches
          obtain rfl | listed := List.mem_cons.mp ((World.tasks_perm task).mem_iff.mpr member)
          · cases dispatches
          · exact stays t listed
        obtain ⟨t, member, dispatches⟩ | known | nameless := tended.turn
        · obtain ⟨t', listed, settled⟩ := dispatching t member dispatches
          refine .of_underway ⟨t', listed, ?_⟩
          rw [settled.frame, persists.attempts]
          exact dispatches
        · obtain ⟨turnId, bound'⟩ := Option.isSome_iff_exists.mp known
          obtain ⟨a, last, bound⟩ := Option.bind_eq_some_iff.mp bound'
          refine ⟨.inr (.inl ?_), fun cancelling => ?_⟩
          · rw [persists.bound turnId bound']
            rfl
          · have before : r.status = .cancelling := by
              refine (persists.cancelling cancelling).resolve_right ?_
              rintro ⟨tasks, ⟨⟩⟩
            obtain failing | notified | rests := after_of_wp (wp_cancel_notifies started found
              (fun g live open_ => inspected.serving sound found persists.executing live open_)
              before last bound)
            · exact .inr (.inr (.inl failing))
            · rw [persists.attempts]
              exact .inr (.inr (.inr (.inl ((World.Retains.refl _).notified persists notified))))
            · exact absurd ⟨r', found', executing⟩ rests.not_executes
        · refine .of_unnamed ?_
          rw [persists.attempts]
          exact retains.unnamed nameless
      · cases same
        have rests : ((Service.interrupted env id (.error e)).after (u.take i)).Rests id :=
          after_of_wp (wp_interrupted_rests started)
        exact absurd ⟨r', found', executing⟩ rests.not_executes
    · refine retains.tended persists tended (others attends) fun cancelling => .inl ?_
      refine (persists.cancelling cancelling).resolve_right ?_
      rintro ⟨tasks, ⟨⟩⟩

/-- Every step leaves every run under execution tended. -/
theorem World.Followed.step {a : Action} (h : u.Followed) (sound : u.Sound env)
    (inspected : u.Inspected) (taken : Step env u a v) : v.Followed := by
  obtain ⟨w, done, rfl⟩ := Option.map_eq_some_iff.mp taken
  suffices followed : w.Followed by
    intro id r found executing
    have tended := followed id r found executing
    exact ⟨tended.turn, tended.cancel⟩
  have steady := (World.hasTasks_stable env u.tasks).toSteady
  have all : u.HasTasks u.tasks := .of_subset (List.Subset.refl _)
  -- neither a fault nor a shutdown makes a run `cancelling`
  have faulted : ∀ {g x}, Course env (.fault g) u x → x.HasTasks u.tasks → x.Followed :=
    fun course kept => h.tasks course sound (by rintro ⟨⟩) (by rintro _ ⟨⟩) kept
      (by rintro ⟨_, ⟨⟩⟩)
  have fails : ∀ (g : Nat) (e : Err), ((Codex.fail env g e).after u).Followed :=
    fun g e => faulted (g := g) (after_of_wp (wp_fail (.refl sound)))
      ((steady.fail g e).after all)
  cases a with
  | command body =>
      cases done
      exact h.tasks (after_of_wp (wp_command (.refl sound) rfl)) sound (by rintro ⟨⟩)
        (by rintro _ ⟨⟩) (((World.hasTasks_stable env u.tasks).runsCommand
          (World.hasTasks_obeys env _) body).after all)
        fun _ => after_of_wp (wp_command_passOn sound)
  | run i =>
      obtain ⟨frame, result, task, rfl⟩ := resumeTask_eq_some done
      exact h.resumes sound inspected task
  | chunk g text =>
      obtain ⟨running, rfl⟩ := whileRunning_eq_some done
      have course : Course env (.received g (Codex.incoming env (u.codex g) text)) u
          ((Codex.receive env g text).after u) := after_of_wp (wp_receive (.refl sound) rfl)
      intro id r' found' executing
      obtain ⟨r, found, persists⟩ := course.persists sound (by rintro _ ⟨⟩) id r' found' executing
      refine (course.retains sound (by rintro ⟨⟩)).tended persists
        (h id r found persists.executing)
        (fun t member attends => course.attends sound ⟨r', found', executing⟩ member attends)
        fun cancelling => .inl ?_
      refine (persists.cancelling cancelling).resolve_right ?_
      rintro ⟨tasks, ⟨⟩⟩
  | stdinError g =>
      obtain ⟨running, rfl⟩ := whileRunning_eq_some done
      exact fails _ _
  | processError g =>
      obtain ⟨running, rfl⟩ := whileRunning_eq_some done
      exact fails _ _
  | timeout g n =>
      simp only [perform] at done
      split at done
      · cases done
        exact fails _ _
      · cases done
  | processClose g =>
      obtain ⟨running, rfl⟩ := whileRunning_eq_some done
      exact faulted (g := g) (after_of_wp (wp_processClosed (.refl sound) running))
        ((steady.processClosed g).after all)
  | close =>
      cases done
      exact h.tasks (after_of_wp (wp_close (.refl sound) fun _ => .shutdown)) sound
        (by rintro ⟨⟩) (by rintro _ ⟨⟩) (steady.close.after all) (by rintro ⟨_, ⟨⟩⟩)
  | restart =>
      cases done
      have none : ((Service.restart env).after u).NoneExecuting :=
        after_of_wp (wp_mono (wp_restart sound) (fun _ _ done => done.2.2) (fun _ _ none => none))
      intro id r found executing
      rw [none id r found] at executing
      cases executing

theorem followed_reached (run : Reaches (Step env) .init w) : w.Followed := by
  refine run.invariant (I := World.Followed) ?_ ?_
  · intro id r found
    simp [World.init, Db.empty] at found
  · intro u a v run' h taken
    exact h.step (World.Sound.reached run') (inspected_reached run') taken

end Sections

/-! ## What the client may rely on -/

/-- A request of the dispatch is pending at the runtime of the attempt. -/
def World.Awaiting (w : World) (id : String) (k : Nat) : Prop :=
  ∃ g n call, w.Serves g id k ∧ (n, call) ∈ (w.codex g).pending ∧ (w.codex g).closed = false

section Runs

variable {env : Env} {w : World}

/-- Once no continuation is left to run, what goes on with an attempt is a reply of its
runtime. -/
theorem World.Underway.awaiting {id : String} {k : Nat} (underway : w.Underway id k)
    (sound : w.Sound env) (idle : w.Idle) : w.Awaiting id k := by
  obtain ⟨⟨frame, wait⟩, member, dispatches⟩ := underway
  cases wait with
  | ready result => cases idle _ member
  | exit g =>
      obtain ⟨-, other, closing, same⟩ := sound.waiting.awaits _ member
      dsimp only at same
      subst same
      cases dispatches
  | reply g n =>
      have serves := sound.dispatching member dispatches (g := g) (n := n) (by simp [Task.awaits])
      obtain ⟨⟨call, pending⟩, -⟩ := sound.waiting.awaits _ member
      refine ⟨g, n, call, serves, pending, ?_⟩
      by_contra closed
      rw [(sound.wired.closed g (by simpa using closed)).1] at pending
      cases pending

/-- A run that is being cancelled is never forgotten. Some task still goes on with its attempt
or passes the cancellation on, unless its runtime was asked to interrupt the bound turn or
announced a turn without a name; and when no continuation is left to run, it is a reply of
the runtime that is awaited. -/
theorem no_cancellation_lost (run : Reaches (Step env) .init w) :
    ∀ id r, w.db.runs.lookup id = some r → r.status = .cancelling →
      (w.Underway id r.attempts.length ∨ (∃ t ∈ w.tasks, t.frame = .cancel id) ∨ w.Failing id ∨
        w.Notified id r.attempts.length r ∨ w.Unnamed id r.attempts.length) ∧
      (w.Idle → w.Awaiting id r.attempts.length ∨ w.Notified id r.attempts.length r ∨
        w.Unnamed id r.attempts.length) := by
  intro id r found cancelling
  have sound := World.Sound.reached run
  have tended := followed_reached run id r found (by rw [cancelling]; rfl)
  refine ⟨tended.cancel cancelling, fun idle => ?_⟩
  obtain underway | ⟨⟨frame, wait⟩, member, same⟩ | ⟨e, member⟩ | told := tended.cancel cancelling
  · exact .inl (underway.awaiting sound idle)
  · dsimp only at same
    subst same
    have awaits := sound.waiting.awaits _ member
    cases wait with
    | ready result => cases idle _ member
    | exit g =>
        obtain ⟨-, other, closing, ⟨⟩⟩ := awaits
    | reply g n => exact awaits.2.elim
  · cases idle _ member
  · exact .inr told

/-- An attempt never stalls before its turn: when no continuation is left to run, every run
under execution awaits a reply of the runtime of its last attempt, or is bound to a turn,
unless the runtime announced one without a name. -/
theorem no_attempt_stalls (run : Reaches (Step env) .init w) (idle : w.Idle) :
    ∀ id r, w.db.runs.lookup id = some r → r.status.isExecuting = true →
      w.Awaiting id r.attempts.length ∨ r.boundTurn.isSome = true ∨
        w.Unnamed id r.attempts.length := by
  intro id r found executing
  exact (followed_reached run id r found executing).turn.imp_left fun underway =>
    underway.awaiting (World.Sound.reached run) idle

end Runs

set_option maxRecDepth 100000 in
/-- In a script the cancellation arrives while `turn/start` is on its way. -/
theorem no_cancellation_lost_late : ∃ w r,
    Reaches (Step (Script.env [Script.initialized, Script.threadStarted, Script.turnStarted]))
      .init w ∧ w.db.runs.lookup "uu" = some r ∧ r.status = .cancelling ∧ w.Idle ∧
    (w.Awaiting "uu" r.attempts.length ∨ w.Notified "uu" r.attempts.length r ∨
      w.Unnamed "uu" r.attempts.length) := by
  obtain ⟨w, run, cancelling⟩ := Script.reaches
    [Script.initialized, Script.threadStarted, Script.turnStarted]
    (Script.dispatched ++ [.command (Script.onRun "cancel_run" "k4" 4), .run 1, .run 1,
      .chunk 0 (Script.lines [Script.turnStarted]), .run 0])
    (fun w => (Script.run w).any (·.status == .cancelling) && decide w.Idle) (by decide +kernel)
  simp only [Bool.and_eq_true, decide_eq_true_eq] at cancelling
  obtain ⟨r, found, status⟩ := (Option.any_eq_true _ _).mp cancelling.1
  have status : r.status = .cancelling := by simpa using status
  exact ⟨w, r, run.ofNode, found, status, cancelling.2,
    (no_cancellation_lost run.ofNode "uu" r found status).2 cancelling.2⟩

set_option maxRecDepth 100000 in
/-- In a script the handshake is on its way. -/
theorem no_attempt_stalls_started : ∃ w r,
    Reaches (Step (Script.env [])) .init w ∧ w.db.runs.lookup "uu" = some r ∧
    r.boundTurn = none ∧
    (w.Awaiting "uu" r.attempts.length ∨ r.boundTurn.isSome = true ∨
      w.Unnamed "uu" r.attempts.length) := by
  obtain ⟨w, run, starting⟩ := Script.reaches [] Script.started
    (fun w => (Script.run w).any (fun r => r.status == .starting && r.boundTurn.isNone) &&
      decide w.Idle) (by decide +kernel)
  simp only [Bool.and_eq_true, decide_eq_true_eq] at starting
  obtain ⟨r, found, status⟩ := (Option.any_eq_true _ _).mp starting.1
  simp only [Bool.and_eq_true, beq_iff_eq, Option.isNone_iff_eq_none] at status
  exact ⟨w, r, run.ofNode, found, status.2,
    no_attempt_stalls run.ofNode starting.2 "uu" r found (by rw [status.1]; rfl)⟩

end Mathmodel
