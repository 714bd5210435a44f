import Mathmodel.Backend.Views
import Mathmodel.Backend.Script

/-!
# Attended runs

A run under execution depends on its runtime: only a frame, a fault or a reply
of that runtime moves it on. It is attended when its runtime is live, open and
heard. Every section that closes or detaches a runtime has first moved the run
out of execution, with one exception: a `turn/completed` whose status is not in
the table is dismissed, and its runtime is released all the same.
-/

namespace Mathmodel

/-! ## Runs under execution -/

/-- A run comes under execution only by the start of an attempt. -/
theorem Change.Saves.executing {m : Moment} {r r' : Run} {change : Change}
    (h : change.Saves m r r') (ok : change.Admissible r)
    (executing : r'.status.isExecuting = true) :
    r.status.isExecuting = true ∨ change = .startAttempt := by
  cases h with
  | startAttempt status => exact .inr rfl
  | cancelActive status => rcases status with h | h | h <;> exact .inl (by rw [h]; rfl)
  | resolve named answered =>
      have waiting := (RunOp.answerable_eq_some named).2.1
      exact .inl (by rw [waiting]; rfl)
  | review status last =>
      rename_i decision _ _
      cases decision <;> cases executing
  | bindTurn last unbound typed =>
      left
      dsimp only at executing
      split at executing
      · rename_i status
        rw [status]
        rfl
      · exact executing
  | resolvedByRuntime found expired =>
      left
      dsimp only at executing
      split at executing
      · rename_i status
        rw [status.1]
        rfl
      · exact executing
  | requestApproval room =>
      rcases ok with status | status <;> exact .inl (by rw [status]; rfl)
  | finish last typed =>
      rename_i outcome _ _ _
      cases outcome <;> cases executing
  | reconcile status free bound => exact .inl executing
  | bindThread last typed => exact .inl executing
  | message last => exact .inl executing
  | item => exact .inl executing
  | reconciled => exact .inl executing
  | _ => cases executing

/-- Some stored run has the id and is under execution. -/
def Db.Executes (db : Db) (id : String) : Prop :=
  ∃ r, db.runs.lookup id = some r ∧ r.status.isExecuting = true

section Database

variable {db db' : Db} {m : Moment} {id other : String} {change : Change} {r r' : Run}

theorem Db.Writes.executes (h : db.Writes m id change r r' db') (sound : db.Sound)
    (ok : change.Admissible r) (plain : change ≠ .startAttempt) (executes : db'.Executes other) :
    db.Executes other := by
  obtain ⟨s, found, executing⟩ := executes
  obtain ⟨rfl, rfl⟩ | ⟨-, found⟩ := h.lookup sound found
  · obtain before | start := h.saves.executing ok executing
    · exact ⟨r, h.found, before⟩
    · exact absurd start plain
  · exact ⟨s, found, executing⟩

theorem Db.Updates.executes (h : db.Updates m id change db') (sound : db.Sound)
    (ok : ∀ r, change.Admissible r) (plain : change ≠ .startAttempt)
    (executes : db'.Executes other) : db.Executes other := by
  cases h with
  | same found skipped => exact executes
  | wrote writes => exact writes.executes sound (ok _) plain executes

theorem Db.Updates.sound (h : db.Updates m id change db') (sound : db.Sound)
    (ok : ∀ r, change.Admissible r) (plain : ∀ view op, change ≠ .command view op) :
    db'.Sound := by
  cases h with
  | same found skipped => exact sound
  | wrote writes => exact writes.sound sound (ok _) fun view op is => absurd is (plain view op)

/-- A run whose new record is not under execution has left it. -/
theorem Db.Writes.not_executes (h : db.Writes m id change r r' db') (sound : db.Sound)
    (ended : r'.status.isExecuting = false) : ¬db'.Executes id := by
  rintro ⟨s, found, executing⟩
  rw [h.lookup_self sound, Option.some.injEq] at found
  rw [← found] at executing
  simp [Db.bump, ended] at executing

end Database

namespace World

/-- The runtime is live for the run, open, and heard by its listeners. -/
structure Attached (w : World) (id : String) (g : Nat) : Prop where
  live : w.live.lookup id = some g
  listener : (w.codex g).listener = some id
  open_ : (w.codex g).closed = false

namespace Attached

variable {w w' : World} {id : String} {g : Nat}

theorem keep (h : w.Attached id g) (live : w'.live = w.live)
    (listener : (w'.codex g).listener = (w.codex g).listener)
    (closed : (w'.codex g).closed = (w.codex g).closed) : w'.Attached id g :=
  ⟨by rw [live]; exact h.live, by rw [listener]; exact h.listener, by rw [closed]; exact h.open_⟩

/-- A change inside an adapter. -/
theorem setCodex (h : w.Attached id g) (live : w'.live = w.live) {i : Nat} {c : Codex}
    (codex : w'.codex = Function.update w.codex i c) (listener : c.listener = (w.codex i).listener)
    (closed : c.closed = (w.codex i).closed) : w'.Attached id g := by
  refine h.keep live ?_ ?_ <;> rw [codex] <;> by_cases same : g = i
  · subst same
    rw [Function.update_self, listener]
  · rw [Function.update_of_ne same]
  · subst same
    rw [Function.update_self, closed]
  · rw [Function.update_of_ne same]

theorem ne_of_released (h : w.Attached id g) (wired : w.Wired) {other : String} {i : Nat}
    {closing : Bool} (ne : g ≠ i) : (w.release other i closing).Attached id g := by
  refine h.keep (World.release_live _ _ _ _) ?_ ?_ <;>
    rw [wired.release_codex, Function.update_of_ne ne]

theorem shut (h : w.Attached id g) {i : Nat} {e : Err} (ne : g ≠ i) :
    (w.shut i e).Attached id g := by
  refine h.keep rfl ?_ ?_ <;> simp [World.shut, World.setCodex, Function.update_of_ne ne]

end Attached

theorem Uncertain.executes {env : Env} {id other : String} {w w' : World}
    (h : w.Uncertain env id w') (sound : w.db.Sound) (executes : w'.db.Executes other) :
    w.db.Executes other ∧ other ≠ id := by
  constructor
  · cases h with
    | settled found status => exact executes
    | marked status started writes =>
        exact writes.executes sound ⟨started, status.1⟩ nofun executes
  · rintro rfl
    obtain ⟨r, found, executing⟩ := executes
    rw [h.not_isExecuting sound found] at executing
    cases executing

end World

section Effects

variable {env : Env} {cause : Cause} {w w' : World} {id : String}

/-- A run under execution was so before, or its attempt has just begun. -/
theorem Effect.executes (sound : w.Sound env) (effect : Effect env cause w w')
    (executes : w'.db.Executes id) :
    w.db.Executes id ∨ (w'.Attached id w.created ∧ w.live.entries = []) := by
  cases effect with
  | quiet quiet => exact .inl (quiet.db ▸ executes)
  | lost open_ listener live uncertain =>
      exact .inl (World.Uncertain.executes (w := w.shut _ _) uncertain sound.db executes).1
  | doubted absent uncertain source => exact .inl (uncertain.executes sound.db executes).1
  | undelivered command live uncertain => exact .inl (uncertain.executes sound.db executes).1
  | abandoned range source own uncertain =>
      rw [World.release_db] at executes
      exact .inl (uncertain.executes sound.db executes).1
  | releaseJob range resumes => exact .inl (by simpa using executes)
  | inspected range resumes unheard => exact .inl (by simpa using executes)
  | begun job idle queued writes =>
      obtain ⟨s, found, executing⟩ := executes
      obtain ⟨rfl, -⟩ | ⟨-, found⟩ := writes.lookup sound.db found
      · refine .inr ⟨⟨?_, ?_, ?_⟩, idle⟩
        · simp [World.attach, World.setCodex, World.enter]
        · simp [World.attach]
        · simp [World.attach, World.enter, World.create, World.commit, Codex.fresh]
      · exact .inl ⟨s, found, executing⟩
  | misfired job idle queued writes fails =>
      obtain ⟨s, found, executing⟩ := executes
      have middle := writes.sound sound.db trivial (by rintro _ _ ⟨⟩)
      obtain ⟨rfl, rfl⟩ | ⟨other, found⟩ := fails.lookup middle found
      · have saves := fails.saves
        cases saves
        cases executing
      · rw [writes.lookup_ne sound.db other] at found
        exact .inl ⟨s, found, executing⟩
  | gaveUp resumes owns writes =>
      rw [World.release_db] at executes
      exact .inl (writes.executes sound.db trivial (by rintro ⟨⟩) executes)
  | stopped resumes owns unsent cancelling writes =>
      rw [World.release_db] at executes
      exact .inl (writes.executes sound.db cancelling (by rintro ⟨⟩) executes)
  | imported resumes owns selects final table writes =>
      rw [World.release_db] at executes
      exact .inl (writes.executes sound.db trivial (by rintro ⟨⟩) executes)
  | boundThread resumes owns writes =>
      exact .inl (writes.executes sound.db trivial (by rintro ⟨⟩) executes)
  | boundReply resumes owns found last unbound reply updates =>
      exact .inl (updates.executes sound.db (fun _ => trivial) (by rintro ⟨⟩) executes)
  | boundTurn delivers announces heard updates =>
      exact .inl (updates.executes sound.db (fun _ => trivial) (by rintro ⟨⟩) executes)
  | progressed delivers heard updates =>
      exact .inl (updates.executes sound.db (fun _ => trivial) (by rintro ⟨⟩) executes)
  | noted updates source =>
      exact .inl (updates.executes sound.db (fun _ => trivial) (by rintro ⟨⟩) executes)
  | concluded delivers completes heard last same table writes =>
      exact .inl (writes.executes sound.db trivial (by rintro ⟨⟩) executes)
  | withdrawn delivers withdraws heard writes =>
      exact .inl (writes.executes sound.db trivial (by rintro ⟨⟩) executes)
  | asked delivers announces heard unlisted binds status writes number =>
      have middle := binds.sound sound.db (fun _ => trivial) (by rintro _ _ ⟨⟩)
      exact .inl (binds.executes sound.db (fun _ => trivial) (by rintro ⟨⟩)
        (writes.executes middle status (by rintro ⟨⟩) executes))
  | runCreated request unused run valid object =>
      rename_i r _ payload
      obtain ⟨s, found, executing⟩ := executes
      obtain ⟨-, rfl⟩ | ⟨-, found⟩ :=
        Db.write_lookup (e := Db.eventOf (env.moment w.clock) r .runCreated payload) found
      · rw [run] at executing
        cases executing
      · exact .inl ⟨s, found, executing⟩
  | commanded command request unused current writes =>
      exact .inl (writes.executes sound.db trivial (by rintro ⟨⟩) executes)
  | _ => exact .inl executes

/-- An effect that leaves a run under execution leaves its runtime attached. -/
theorem Effect.attached {g : Nat} (sound : w.Sound env) (effect : Effect env cause w w')
    (running : cause ≠ .restart) (h : w.Attached id g)
    (unreleased : ∀ other result, ¬cause.Resumes (.release other g) result)
    (executes : w'.db.Executes id) : w'.Attached id g := by
  have marked : ∀ {v v' : World} {other}, v.db = w.db → v.Uncertain env other v' →
      v'.db.Executes id → id ≠ other := by
    intro v v' other db uncertain executes
    exact (uncertain.executes (db ▸ sound.db) executes).2
  -- a runtime that a section of some run releases is not the one of this run
  have owned : ∀ {i other k}, w.Current i → (w.codex i).purpose = .execution other k →
      id ≠ other → g ≠ i := by
    rintro i other k - purpose ne rfl
    obtain ⟨-, r, -, same⟩ := sound.wired.listener _ _ h.listener
    rw [purpose] at same
    cases same
    exact ne rfl
  have inspects : ∀ {i other}, (w.codex i).purpose = .inspection other → g ≠ i := by
    rintro i other purpose rfl
    obtain ⟨-, r, -, same⟩ := sound.wired.listener _ _ h.listener
    rw [purpose] at same
    cases same
  cases effect with
  | quiet quiet =>
      refine h.keep quiet.live ?_ ?_ <;> rw [quiet.codex g]
  | registered open_ issues follows owns allows => exact h.setCodex rfl rfl rfl rfl
  | cut open_ unheard =>
      refine h.shut ?_
      rintro rfl
      exact unheard id h.listener h.live
  | lost open_ listener live uncertain =>
      rename_i i e other v
      have different : g ≠ i := by
        rintro rfl
        rw [h.listener, Option.some.injEq] at listener
        exact marked (v := w.shut g e) rfl uncertain executes listener
      refine (h.shut (e := e) different).keep uncertain.frame.2.1 ?_ ?_ <;>
        simp only [World.start, World.push, uncertain.frame.1]
  | doubted absent uncertain source =>
      exact h.keep uncertain.frame.2.1 (by rw [uncertain.frame.1]) (by rw [uncertain.frame.1])
  | undelivered command live uncertain =>
      refine h.keep uncertain.frame.2.1 ?_ ?_ <;>
        simp only [World.start, World.push, uncertain.frame.1]
  | abandoned range source own uncertain =>
      rw [World.release_db] at executes
      have ne := marked rfl uncertain executes
      have wired := (sound.uncertain uncertain).wired
      refine World.Attached.ne_of_released ?_ wired ?_
      · exact h.keep uncertain.frame.2.1 (by rw [uncertain.frame.1]) (by rw [uncertain.frame.1])
      · rintro rfl
        exact ne (own id h.listener)
  | releaseJob range resumes =>
      refine h.ne_of_released sound.wired ?_
      rintro rfl
      exact unreleased _ _ resumes
  | inspected range resumes unheard =>
      refine h.ne_of_released sound.wired ?_
      rintro rfl
      rw [h.listener] at unheard
      cases unheard
  | exited running => exact h.setCodex rfl rfl rfl rfl
  | freed resumes closed listener process =>
      refine ⟨?_, h.listener, h.open_⟩
      dsimp only
      split
      · rename_i i other _ _ live
        rw [AList.lookup_erase_ne]
        · exact h.live
        · rintro rfl
          rw [h.live, Option.some.injEq] at live
          subst live
          rw [h.open_] at closed
          cases closed
      · exact h.live
  | reset restart => exact absurd restart running
  | begun job idle queued writes => exact absurd h.live (World.Wired.of_live_nil idle)
  | inspecting job idle found status => exact absurd h.live (World.Wired.of_live_nil idle)
  | spawned open_ unspawned live => exact h.setCodex rfl rfl rfl rfl
  | gaveUp resumes owns writes =>
      rw [World.release_db] at executes
      refine World.Attached.ne_of_released (w := w.commit _ _) ⟨h.live, h.listener, h.open_⟩
        (sound.free writes (Change.free_of_isFree rfl)).wired ?_
      refine owned owns.1 owns.2 ?_
      rintro rfl
      refine writes.not_executes sound.db ?_ executes
      have saves := writes.saves
      cases saves
      rfl
  | stopped resumes owns unsent cancelling writes =>
      rw [World.release_db] at executes
      refine World.Attached.ne_of_released (w := w.commit _ _) ⟨h.live, h.listener, h.open_⟩
        (sound.writes writes cancelling (by rintro ⟨⟩) (by rintro _ _ ⟨⟩)).wired ?_
      refine owned owns.1 owns.2 ?_
      rintro rfl
      refine writes.not_executes sound.db ?_ executes
      have saves := writes.saves
      cases saves
      rfl
  | imported resumes owns selects final table writes =>
      refine World.Attached.ne_of_released (w := w.commit _ _) ⟨h.live, h.listener, h.open_⟩
        (sound.free writes (Change.free_of_isFree rfl)).wired ?_
      exact inspects owns.2
  | forgot delivers withdraws unmatched => exact h.setCodex rfl rfl rfl rfl
  | withdrawn delivers withdraws heard writes => exact h.setCodex rfl rfl rfl rfl
  | requested delivers open_ unlisted => exact h.setCodex rfl rfl rfl rfl
  | asked delivers announces heard unlisted binds status writes number =>
      exact h.setCodex rfl rfl rfl rfl
  | replied delivers reply pending => exact h.setCodex rfl rfl rfl rfl
  | rejected => exact h.setCodex rfl rfl rfl rfl
  | dropped => exact h.setCodex rfl rfl rfl rfl
  | answered listed source => exact h.setCodex rfl rfl rfl rfl
  | _ => exact ⟨h.live, h.listener, h.open_⟩

end Effects

/-! ## The invariant -/

/-- Every `turn/completed` of the section carries a status of the table. -/
def Cause.Recognised (cause : Cause) : Prop :=
  ∀ g m turn, cause.Delivers g m → Completes m turn →
    plainLookup TurnOutcome.table (turn.get "status") ≠ .ok .missing

/-- Runs under execution are attended, and a runtime that is about to be released
serves none of them. -/
structure Attended (cause : Cause) (w : World) : Prop where
  executing : ∀ id, w.db.Executes id → ∃ g, w.Attached id g
  releasing : ∀ other g id, w.Active cause (.release other g) →
    (w.codex g).listener = some id → ¬w.db.Executes id

namespace Attended

variable {env : Env} {cause : Cause} {w w' : World}

theorem init : Attended .shutdown .init where
  executing := by
    rintro id ⟨r, found, -⟩
    simp [World.init, Db.empty] at found
  releasing := by simp [World.init, Codex.absent, Codex.fresh]

theorem of_restarted (none : w.NoneExecuting) : Attended cause w where
  executing := by
    rintro id ⟨r, found, executing⟩
    rw [none id r found] at executing
    cases executing
  releasing := by
    rintro other g id - - ⟨r, found, executing⟩
    rw [none id r found] at executing
    cases executing

theorem effect (h : Attended cause w) (sound : w.Sound env) (running : cause ≠ .restart)
    (recognised : cause.Recognised) (effect : Effect env cause w w') : Attended cause w' := by
  constructor
  · intro id executes
    obtain before | ⟨attached, -⟩ := effect.executes sound executes
    · obtain ⟨g, attached⟩ := h.executing id before
      refine ⟨g, effect.attached sound running attached ?_ executes⟩
      intro other result resumes
      exact h.releasing other g id (.inr ⟨result, resumes⟩) attached.listener before
    · exact ⟨w.created, attached⟩
  · intro other g id active listener executes
    -- the listener was there before: a new runtime is released by no task
    have heard : (w.codex g).listener = some id ∨ g = w.created ∧ cause.Opens := by
      obtain stays | ⟨new, created, -⟩ | ⟨restart, -⟩ := effect.adapter g
      · exact .inl (stays.heard listener)
      · obtain ⟨-, same, -⟩ | ⟨opens, -⟩ | ⟨-, same, -⟩ := effect.live
        · omega
        · exact .inr ⟨new, opens⟩
        · omega
      · exact absurd restart running
    have current : w.live.lookup other = some g → g ≠ w.created := by
      rintro live rfl
      exact absurd (sound.wired.started _ _ live).1.2 (lt_irrefl _)
    have ended : (w.codex g).listener = some id → ¬w.db.Executes id → False := by
      intro heard idle
      obtain before | ⟨-, empty⟩ := effect.executes sound executes
      · exact idle before
      · exact World.Wired.of_live_nil empty (sound.wired.listener g id heard).1
    obtain old | appears := effect.active sound active
    · rcases heard with heard | ⟨rfl, opens⟩
      · exact ended heard (h.releasing other g id old heard)
      · rcases old with listed | ⟨result, resumes⟩
        · obtain ⟨t, member, is⟩ := List.mem_map.mp listed
          have owns := sound.waiting.owns t member
          rw [is] at owns
          exact absurd owns.2 (lt_irrefl _)
        · rcases opens with ⟨_, job⟩ | ⟨_, _, job⟩ <;> cases resumes.symm.trans job
    · cases appears with
      | follows follows =>
          cases follows with
          | execution job found status number attached kind => simp at kind
          | inspection job live found status kind => simp at kind
      | release live settled =>
          rcases heard with heard | ⟨new, -⟩
          · have same := sound.wired.single id g other g (sound.wired.listener g id heard).1 live
            subst same
            obtain ⟨r, found, executing⟩ := executes
            rw [settled r found] at executing
            cases executing
          · exact current live new
      | dismissed live delivers completes table =>
          exact recognised _ _ _ delivers completes table

end Attended

/-- Steps in which every `turn/completed` of the runtime carries a status that
`finish` maps to an outcome. -/
def RecognisedStep (env : Env) (w : World) (a : Action) (w' : World) : Prop :=
  Step env w a w' ∧ ∀ g text, a = .chunk g text → ∀ m ∈ Codex.incoming env (w.codex g) text,
    ∀ turn, Completes m turn → plainLookup TurnOutcome.table (turn.get "status") ≠ .ok .missing

theorem RecognisedStep.recognised {env : Env} {w w' w₀ : World} {a : Action} {cause : Cause}
    (taken : RecognisedStep env w a w') (begins : Begins env w a cause w₀) :
    cause.Recognised := by
  rintro g m turn ⟨frames, is, member⟩ completes
  cases begins with
  | chunk running =>
      cases is
      exact taken.2 _ _ rfl m member turn completes
  | _ => cases is

theorem Attended.reached {env : Env} {w : World} (run : Reaches (RecognisedStep env) .init w) :
    Attended .shutdown w := by
  refine run.sections (C := Cause.Recognised) (fun _ _ _ taken => taken.1) .init ?_ ?_ ?_ ?_
  · intro w a w' cause w₀ taken sound begins h
    refine ⟨taken.recognised begins, ?_⟩
    have same : w₀.db = w.db ∧ w₀.live = w.live ∧ w₀.codex = w.codex := by
      cases begins <;> exact ⟨rfl, rfl, rfl⟩
    obtain ⟨db, live, codex⟩ := same
    constructor
    · intro id executes
      rw [db] at executes
      obtain ⟨g, attached⟩ := h.executing id executes
      exact ⟨g, attached.keep live (by rw [codex]) (by rw [codex])⟩
    · intro other g id active
      rw [db, codex]
      exact h.releasing other g id (.inl (begins.active active))
  · intro cause w w' running recognised sound effect h
    exact h.effect sound running recognised effect
  · intro w a cause w₀ w₁ begins done sound sound₁ h
    refine ⟨?_, ?_⟩
    · intro id executes
      obtain ⟨g, attached⟩ := h.executing id executes
      exact ⟨g, attached.live, attached.listener, attached.open_⟩
    · intro other g id active
      exact h.releasing other g id (.inl (active.resolve_right (fun resumed => nomatch resumed)))
  · intro w w' sound course restarted none h
    exact .of_restarted none

/-- No run under execution is stranded, as long as every `turn/completed` carries
a status of the table: its runtime is live and open, with its listeners attached. -/
theorem no_stranded_active_run {env : Env} {w : World}
    (run : Reaches (RecognisedStep env) .init w) :
    ∀ id r, w.db.runs.lookup id = some r → r.status.isExecuting = true →
      ∃ g, w.live.lookup id = some g ∧ (w.codex g).listener = some id ∧
        (w.codex g).closed = false := by
  intro id r found executing
  obtain ⟨g, attached⟩ := (Attended.reached run).executing id ⟨r, found, executing⟩
  exact ⟨g, attached.live, attached.listener, attached.open_⟩

namespace Script

/-- The turn that a frame completes. -/
def completedTurn : Json → Option Json
  | .obj fields =>
      match fields.lookup "method" with
      | some (.str "turn/completed") => Json.chain (fields.lookup "params") "turn"
      | _ => none
  | _ => none

theorem completedTurn_of_completes {m turn : Json} (completes : Completes m turn) :
    completedTurn m = some turn := by
  obtain ⟨method, reported⟩ := completes
  simp only [completedTurn, method, reported]

/-- Every `turn/completed` that arrives in this step carries a status of the table. -/
def recognises (env : Env) (w : World) : Action → Bool
  | .chunk g text =>
      (Codex.incoming env (w.codex g) text).all fun m => (completedTurn m).all fun turn =>
        match plainLookup TurnOutcome.table (turn.get "status") with
        | .ok .missing => false
        | _ => true
  | _ => true

theorem recognisedStep {env : Env} {w w' : World} {a : Action} (taken : Step env w a w')
    (recognised : recognises env w a = true) : RecognisedStep env w a w' := by
  refine ⟨taken, ?_⟩
  rintro g text rfl m member turn completes missing
  have known := List.all_eq_true.mp recognised m member
  rw [completedTurn_of_completes completes, Option.all_some, missing] at known
  cases known

/-- The turn of the first attempt fails, and the run is started again. -/
def retried : List Action :=
  bound ++ [.chunk 0 (lines [turnCompleted (.str "failed")]), .run 0, .processClose 0, .run 0,
    .command (onRun "retry_run" "k4" 6), .run 0]

/-- Frames up to the end of the first turn. -/
def failedFrames : List Json :=
  [initialized, threadStarted, turnStarted, turnCompleted (.str "failed")]

end Script

set_option maxRecDepth 100000 in
/-- A script whose first turn is completed, and that has started the run again, attends it. -/
theorem no_stranded_active_run_retried : ∃ w r,
    Reaches (RecognisedStep (Script.env Script.failedFrames)) .init w ∧
    Script.run w = some r ∧ r.status = .starting ∧
      r.attempts.map (·.status) = [.failed, .starting] ∧
    ∃ g, w.live.lookup "uu" = some g ∧ (w.codex g).listener = some "uu" ∧
      (w.codex g).closed = false := by
  obtain ⟨w, run, again⟩ := Script.reachesIn Script.failedFrames
    (Script.recognises (Script.env Script.failedFrames)) Script.retried
    (fun w => (Script.run w).any fun r =>
      r.status = .starting ∧ r.attempts.map (·.status) = [.failed, .starting]) (by decide +kernel)
  have recognised : Reaches (RecognisedStep (Script.env Script.failedFrames)) .init w :=
    run.mono fun _ _ _ taken => Script.recognisedStep taken.1.2 taken.2
  obtain ⟨r, found, shape⟩ := (Option.any_eq_true _ _).mp again
  obtain ⟨status, attempts⟩ := of_decide_eq_true shape
  refine ⟨w, r, recognised, found, status, attempts, ?_⟩
  refine no_stranded_active_run recognised "uu" r found ?_
  rw [status]
  rfl

set_option maxRecDepth 100000 in
/-- A `turn/completed` with the status of a turn in progress releases the runtime
and leaves the run `running`, with nothing left that could move it on. -/
theorem stranded_by_unknown_turn_status : ∃ w,
    Reaches (NodeStep (Script.env [Script.initialized, Script.threadStarted, Script.turnStarted,
      Script.turnCompleted (.str "inProgress")])) .init w ∧
    w.stopping = false ∧ w.tasks = [] ∧
    ∃ r, w.db.runs.lookup "uu" = some r ∧ r.status = .running ∧ w.live.lookup "uu" = none := by
  obtain ⟨w, run, stranded⟩ := Script.reaches [Script.initialized, Script.threadStarted,
      Script.turnStarted, Script.turnCompleted (.str "inProgress")]
    (Script.bound ++ [.chunk 0 (Script.lines [Script.turnCompleted (.str "inProgress")]), .run 0,
      .processClose 0, .run 0])
    (fun w => !w.stopping && w.tasks.isEmpty && (Script.run w).any (·.status == .running) &&
      w.live.lookup "uu" == none) (by decide +kernel)
  simp only [Bool.and_eq_true, Bool.not_eq_true', List.isEmpty_iff, beq_iff_eq] at stranded
  obtain ⟨⟨⟨stopping, tasks⟩, status⟩, live⟩ := stranded
  obtain ⟨r, found, status⟩ := (Option.any_eq_true _ _).mp status
  exact ⟨w, run, stopping, tasks, r, found, by simpa using status, live⟩

end Mathmodel
