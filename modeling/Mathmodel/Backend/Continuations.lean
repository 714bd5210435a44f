import Mathmodel.Backend.Frames

/-!
# Sections are sequences of effects: continuations

One rule for each place where an async function continues. What a continuation
needs to know about the task it resumes is passed on as a hypothesis: that the
runtime was created for it, and that the request it is about to send was not
sent before.
-/

namespace Mathmodel

open M Program

section Jobs

variable {env : Env} {cause : Cause} {w₀ w : World} {g k : Nat} {id : String}

/-- A runtime that was created for an attempt of the run. -/
def World.Serves (w : World) (g : Nat) (id : String) (k : Nat) : Prop :=
  w.Current g ∧ (w.codex g).purpose = .execution id k

theorem World.Sound.serves_started (h : w.Sound env) (serves : w.Serves g id k) :
    ∃ r, w.db.runs.lookup id = some r ∧ r.attempts ≠ [] := by
  obtain ⟨r, found, pos, le⟩ := h.wired.purposes g id k serves.1 serves.2
  exact ⟨r, found, List.length_pos_iff.mp (pos.trans le)⟩

theorem World.Sound.serves_own (h : w.Sound env) (serves : w.Serves g id k) (other : String)
    (listener : (w.codex g).listener = some other) : other = id := by
  obtain ⟨-, r, -, purpose⟩ := h.wired.listener g other listener
  have same := purpose.symm.trans serves.2
  cases same
  rfl

theorem wp_executeFailed {e : Err} {failed : Err → World → Prop} (h : Course env cause w₀ w)
    (serves : w.Serves g id k)
    (source : ∃ k result,
      cause.Resumes (.threadStarted id g k) result ∨ cause.Resumes (.turnStarted id g k) result) :
    wp (Service.executeFailed env id (some g) true e) (fun _ => Course env cause w₀) failed
      w := by
  simp only [Service.executeFailed, if_true, wp_bind]
  obtain ⟨r, found, started⟩ := h.sound.serves_started serves
  refine wp_uncertain h.sound found started (fun w' uncertain => ?_)
  exact wp_release (h.step (.abandoned serves.1 (.inr source)
    (h.sound.serves_own serves) uncertain))

theorem wp_executeConnected {directory : String} {result : Except Err Json}
    {failed : Err → World → Prop} (h : Course env cause w₀ w)
    (resumes : cause.Resumes (.connected g (.execute id k directory)) result)
    (owns : w.Owns (.connected g (.execute id k directory)))
    (allows : w.Allows (.connected g (.execute id k directory))) :
    wp (Service.executeConnected env id g k directory result) (fun _ => Course env cause w₀)
      failed w := by
  cases result with
  | error e =>
      simp only [Service.executeConnected, Service.executeFailed, Bool.false_eq_true, if_false,
        wp_bind]
      obtain ⟨r, found, started⟩ := h.sound.serves_started owns
      obtain ⟨r', db, result, writes⟩ := h.sound.db.update_failBeforeDispatch
        (env.moment w.clock) e.message found started
      exact wp_update_ok result (wp_release (h.step (.gaveUp resumes owns writes)))
  | ok reply =>
      exact wp_request h .threadStart (.threadStarted resumes) owns allows

theorem wp_cancel {failed : Err → World → Prop} (h : Course env cause w₀ w)
    (source : Doubts id cause) (bad : ∀ e, failed e w) :
    wp (Service.cancel env id) (fun _ => Course env cause w₀) failed w := by
  simp only [Service.cancel, wp_bind]
  refine wp_loadRun (fun r found => ?_) bad
  rw [wp_ite]
  refine ⟨fun _ => h, fun cancelling => ?_⟩
  rw [not_not] at cancelling
  cases last : r.lastAttempt with
  | none => exact h
  | some attempt =>
      have started := Run.attempts_ne_nil_of_lastAttempt last
      dsimp only
      cases turn : attempt.turnId with
      | none => exact h
      | some turnId =>
          simp only [wp_bind, wp_get]
          cases live : w.live.lookup id with
          | some g =>
              exact wp_request h .turnInterrupt (.interrupted live found started) trivial trivial
          | none =>
              exact wp_uncertain h.sound found started
                (fun w' uncertain => h.step (.doubted live uncertain source))

theorem wp_interrupted {result : Except Err Json} {failed : Err → World → Prop}
    (h : Course env cause w₀ w) (source : Doubts id cause)
    (started : ∃ r, w.db.runs.lookup id = some r ∧ r.attempts ≠ []) :
    wp (Service.interrupted env id result) (fun _ => Course env cause w₀) failed w := by
  cases result with
  | ok reply => exact h
  | error e =>
      simp only [Service.interrupted, wp_bind]
      obtain ⟨r, found, started⟩ := started
      refine wp_uncertain h.sound found started (fun w' uncertain => ?_)
      simp only [wp_bind, wp_get, uncertain.frame.2.1]
      cases live : w.live.lookup id with
      | none => exact h.step (.doubted live uncertain source)
      | some g =>
          refine wp_release (h.step (.abandoned (h.sound.wired.started id g live).1
            (.inl ⟨live, source⟩) ?_ uncertain))
          intro other listener
          have live' := (h.sound.wired.listener g other listener).1
          exact h.sound.wired.single other g id g live' live

theorem turnBudget_commit (w : World) (origin : Origin) (db : Db) (g : Nat) :
    (w.commit origin db).turnBudget g = w.turnBudget g := by
  simp [World.turnBudget, World.commit, Entry.isTurnStart]

theorem wp_dispatchTurn {thread : Json} (h : Course env cause w₀ w)
    (resumes : cause.Resumes (.threadStarted id g k) (.ok thread))
    (serves : w.Serves g id k) (unsent : w.turnBudget g = 0) :
    wp (Service.dispatchTurn env id g k thread) (fun _ => Course env cause w₀)
      (fun _ w' => Course env cause w₀ w' ∧ w'.Serves g id k) w := by
  simp only [Service.dispatchTurn, wp_bind]
  refine wp_lift_of (fun body _ => ?_) (fun _ _ => ⟨h, serves⟩)
  rw [wp_bind]
  refine wp_lift_of (fun threadId _ => ?_) (fun _ _ => ⟨h, serves⟩)
  rw [wp_bind]
  refine wp_update (fun db result => ?_) (fun _ => ⟨h, serves⟩)
  obtain ⟨r, r', writes⟩ : ∃ r r', w.db.Writes (env.moment w.clock) id (.bindThread threadId)
      r r' db := by
    cases Db.update_ok result with
    | same found skipped =>
        obtain ⟨a, -, skipped⟩ := Change.bind_ok skipped
        obtain ⟨typed, -, skipped⟩ := Change.bind_ok skipped
        cases skipped
    | wrote writes => exact ⟨_, _, writes⟩
  have bound := h.step (.boundThread resumes serves writes)
  have serves' : (w.commit (.update id (.bindThread threadId) (.runtime g)) db).Serves g id k :=
    serves
  have unsent' : (w.commit (.update id (.bindThread threadId) (.runtime g)) db).turnBudget g =
      0 := by
    rw [turnBudget_commit, unsent]
  rw [wp_bind]
  refine wp_loadRun (fun s found => ?_) (fun _ => ⟨bound, serves'⟩)
  rw [wp_ite]
  constructor
  · intro cancelling
    rw [wp_bind]
    refine wp_update (fun db' result => ?_) (fun _ => ⟨bound, serves'⟩)
    cases Db.update_ok result with
    | same found' skipped =>
        obtain ⟨a, -, skipped⟩ := Change.bind_ok skipped
        cases skipped
    | wrote writes' =>
        rename_i s₁ s₂
        have same : s₁ = s := by
          have := writes'.found
          rw [found, Option.some.injEq] at this
          exact this.symm
        subst same
        exact wp_release (bound.step (.stopped resumes serves' unsent' cancelling writes'))
  · intro _
    exact wp_request bound .turnStart (.turnStarted resumes) serves' unsent'

theorem wp_threadStarted {result : Except Err Json} {failed : Err → World → Prop}
    (h : Course env cause w₀ w) (resumes : cause.Resumes (.threadStarted id g k) result)
    (serves : w.Serves g id k) (unsent : w.turnBudget g = 0) :
    wp (Service.threadStarted env id g k result) (fun _ => Course env cause w₀) failed w := by
  cases result with
  | error e => exact wp_executeFailed h serves ⟨k, _, .inl resumes⟩
  | ok thread =>
      simp only [Service.threadStarted, wp_tryCatch]
      refine wp_mono (wp_dispatchTurn h resumes serves unsent) (fun _ _ done => done) ?_
      rintro e w' ⟨h', serves'⟩
      exact wp_executeFailed h' serves' ⟨k, _, .inl resumes⟩

theorem wp_bindReply {response : Json} (h : Course env cause w₀ w)
    (resumes : cause.Resumes (.turnStarted id g k) (.ok response))
    (serves : w.Serves g id k) :
    wp (Service.bindReply env id g response) (fun _ => Course env cause w₀)
      (fun _ w' => Course env cause w₀ w' ∧ w'.Serves g id k) w := by
  have rest : ∀ w', Course env cause w₀ w' → w'.Serves g id k →
      wp (do
        let r ← loadRun id
        if r.status = .cancelling then Service.cancel env id else pure ())
        (fun _ => Course env cause w₀)
        (fun _ w' => Course env cause w₀ w' ∧ w'.Serves g id k) w' := by
    intro w' h' serves'
    rw [wp_bind]
    refine wp_loadRun (fun r found => ?_) (fun _ => ⟨h', serves'⟩)
    rw [wp_ite]
    exact ⟨fun _ => wp_cancel h' (resumes ▸ .turnStarted) (fun _ => ⟨h', serves'⟩),
      fun _ => h'⟩
  dsimp only [Service.bindReply]
  rw [wp_bind]
  refine wp_loadRun (fun r found => ?_) (fun _ => ⟨h, serves⟩)
  rw [wp_bind]
  refine wp_lift_of (fun a last => ?_) (fun _ _ => ⟨h, serves⟩)
  have last := Run.attempt_ok last
  cases turn : a.turnId with
  | some turnId => exact rest w h serves
  | none =>
      rw [wp_bind]
      refine wp_lift_of (fun body read => ?_) (fun _ _ => ⟨h, serves⟩)
      rw [wp_bind]
      refine wp_lift_of (fun turnId read' => ?_) (fun _ _ => ⟨h, serves⟩)
      rw [wp_bind]
      refine wp_update (fun db result => ?_) (fun _ => ⟨h, serves⟩)
      exact rest _ (h.step (.boundReply resumes serves found last turn ⟨read, read'⟩
        (Db.update_ok result))) serves

theorem wp_turnStarted {result : Except Err Json} {failed : Err → World → Prop}
    (h : Course env cause w₀ w) (resumes : cause.Resumes (.turnStarted id g k) result)
    (serves : w.Serves g id k) :
    wp (Service.turnStarted env id g result) (fun _ => Course env cause w₀) failed w := by
  cases result with
  | error e => exact wp_executeFailed h serves ⟨k, _, .inr resumes⟩
  | ok response =>
      simp only [Service.turnStarted, wp_tryCatch]
      refine wp_mono (wp_bindReply h resumes serves) (fun _ _ done => done) ?_
      rintro e w' ⟨h', serves'⟩
      exact wp_executeFailed h' serves' ⟨k, _, .inr resumes⟩

theorem wp_nextLaunch {post : Launch → World → Prop} {failed : Err → World → Prop}
    (done : post (env.launch w.launches) { w with launches := w.launches + 1 }) :
    wp (Service.nextLaunch env) post failed w := done

/-- Start the attempt of a queued run while the slot is free. -/
theorem wp_execute {r : Run} {failed : Err → World → Prop} (h : Course env cause w₀ w)
    (job : ∃ result, cause.Resumes .schedule result)
    (idle : w.live.entries = []) (found : w.db.runs.lookup id = some r)
    (queued : r.status = .queued) :
    wp (Service.execute env id) (fun _ => Course env cause w₀) failed w := by
  have launched : Course env cause w₀ { w with launches := w.launches + 1 } :=
    h.step (.quiet ⟨rfl, rfl, rfl, rfl, rfl, rfl, le_rfl, fun _ => rfl⟩)
  have idle' : ({ w with launches := w.launches + 1 } : World).live.entries = [] := idle
  have found' : ({ w with launches := w.launches + 1 } : World).db.runs.lookup id = some r :=
    found
  rw [Service.execute, wp_bind]
  refine wp_nextLaunch ?_
  generalize env.launch w.launches = launch
  generalize ({ w with launches := w.launches + 1 } : World) = v at launched idle' found' ⊢
  obtain ⟨r', db, result, writes⟩ :=
    launched.sound.db.update_startAttempt (env.moment v.clock) found' queued
  have loaded := writes.lookup_self launched.sound.db
  have started : r'.status = .starting ∧ r'.attempts ≠ [] := by
    cases writes.saves
    exact ⟨rfl, by simp⟩
  have committed : db.Sound := writes.sound launched.sound.db trivial nofun
  have misfires : ∀ e, wp (do
      Service.executeFailed env id none false e
      pure (none : Option (Nat × Nat × String)))
      (fun started w' => started = none ∧ Course env cause w₀ w') (fun _ _ => False)
      (v.commit (.update id .startAttempt .service) db) := by
    intro e
    obtain ⟨r'', db', result', fails⟩ := committed.update_failBeforeDispatch
      (env.moment v.clock) e.message loaded started.2
    simp only [Service.executeFailed, Bool.false_eq_true, if_false, wp_bind]
    refine wp_update_ok result' ?_
    exact ⟨rfl, launched.step (.misfired job idle' queued writes fails)⟩
  have prepares : wp (Service.prepare env id launch)
      (fun started w' => started.1 = v.created ∧ started.2.1 = r'.attempts.length ∧
        w' = (v.commit (.update id .startAttempt .service) db).create env
          (.execution id r'.attempts.length))
      (fun _ w' => w' = v.commit (.update id .startAttempt .service) db) v := by
    have loaded' : (v.commit (.update id .startAttempt .service) db).db.run id =
        .ok (Db.bump (env.moment v.clock) r') := Db.run_ok.mpr loaded
    simp only [Service.prepare, wp_bind]
    refine wp_update_ok result ?_
    simp only [wp_bind, loadRun, wp_get, loaded', wp_lift_ok, Service.workspace]
    refine wp_lift_of (fun project _ => ?_) (fun _ _ => rfl)
    cases launch.directory with
    | error message => rfl
    | ok directory =>
        dsimp only
        rw [wp_ite]
        refine ⟨fun _ => rfl, fun _ => ?_⟩
        rw [wp_pure]
        simp only [Service.runtimeFactory, wp_bind]
        cases launch.factory with
        | some message => rfl
        | none => exact ⟨rfl, rfl, rfl⟩
  rw [wp_bind, wp_tryCatch, wp_bind]
  refine wp_mono prepares ?_ ?_
  · rintro ⟨g, attempt, directory⟩ w' ⟨hg, hk, rfl⟩
    dsimp only at hg hk
    subst hg hk
    have begun := launched.step (.begun job idle' queued writes)
    have codex : ((((v.commit (.update id .startAttempt .service) db).create env
        (.execution id r'.attempts.length)).enter id v.created).attach id v.created).codex
          v.created = { Codex.fresh (env.uuid v.uuids) (.execution id r'.attempts.length) with
            listener := some id } := by
      simp [World.attach, World.enter, World.create, World.commit]
    change wp (Codex.connect env v.created launch (.execute id r'.attempts.length directory))
      (fun _ => Course env cause w₀) failed
      ((((v.commit (.update id .startAttempt .service) db).create env
        (.execution id r'.attempts.length)).enter id v.created).attach id v.created)
    refine wp_connect begun ?_ (AList.lookup_insert _) ?_ ?_ ?_
    · rw [codex]
      rfl
    · intro w' sameDb _ sameListener
      have found' : w'.db.runs.lookup id = some (Db.bump (env.moment v.clock) r') := by
        rw [sameDb]
        exact loaded
      have attached : (w'.codex v.created).listener = some id := by
        rw [sameListener, codex]
      exact ⟨.execution job found' started.1 rfl attached (.inl rfl),
        .execution job found' started.1 rfl attached (.inr rfl)⟩
    · refine ⟨⟨launched.sound.wired.era, Nat.lt_succ_self _⟩, ?_⟩
      rw [codex]
      rfl
    · have unused := launched.sound.accounted.unused v.created le_rfl
      simp only [World.threadBudget, World.turnBudget] at unused
      simp only [World.Allows, World.threadBudget, World.turnBudget, World.attach,
        World.setCodex, World.enter, World.create, World.commit, List.countP_cons,
        Entry.isThreadStart_commit, Entry.isTurnStart_commit, Entry.isThreadStart_opened,
        Entry.isTurnStart_opened]
      simpa using unused
  · rintro e w' rfl
    refine wp_mono (misfires e) ?_ (fun _ _ absurd => absurd.elim)
    rintro _ w' ⟨rfl, done⟩
    exact done

theorem wp_reconcileUnavailable {failed : Err → World → Prop} (h : Course env cause w₀ w)
    (range : w.Current g)
    (resumes : ∃ result, (∃ attempt, cause.Resumes (.connected g (.reconcile id attempt)) result) ∨
      ∃ attempt, cause.Resumes (.threadRead id g attempt) result)
    (unheard : (w.codex g).listener = none) :
    wp (Service.reconcileUnavailable env id (some g)) (fun _ => Course env cause w₀) failed
      w := by
  simp only [Service.reconcileUnavailable, wp_bind, wp_tryCatch]
  refine wp_update (fun db result => ?_) (fun _ => ?_)
  · have source : ∀ r, w.db.runs.lookup id = some r → Inspects cause id r := by
      intro r _
      obtain ⟨result, ⟨_, resumes⟩ | ⟨_, resumes⟩⟩ := resumes
      · exact .connected resumes
      · exact .threadRead resumes
    have noted := h.step (.noted (Db.update_ok result) source)
    exact wp_release (noted.step (.inspected range resumes unheard))
  · exact wp_release (h.step (.inspected range resumes unheard))

theorem wp_reconcileUnavailable_none {failed : Err → World → Prop}
    (h : Course env cause w₀ w)
    (source : ∀ r, w.db.runs.lookup id = some r → Inspects cause id r) :
    wp (Service.reconcileUnavailable env id none) (fun _ => Course env cause w₀) failed w := by
  simp only [Service.reconcileUnavailable, wp_bind, wp_tryCatch]
  exact wp_update (fun db result => h.step (.noted (Db.update_ok result) source)) (fun _ => h)

theorem wp_reconcile {failed : Err → World → Prop} (h : Course env cause w₀ w)
    (job : ∃ result, cause.Resumes (.reconcile id) result) :
    wp (Service.reconcile env id) (fun _ => Course env cause w₀) failed w := by
  have launched : Course env cause w₀ { w with launches := w.launches + 1 } :=
    h.step (.quiet ⟨rfl, rfl, rfl, rfl, rfl, rfl, le_rfl, fun _ => rfl⟩)
  rw [Service.reconcile, wp_bind]
  refine wp_nextLaunch ?_
  generalize env.launch w.launches = launch
  generalize ({ w with launches := w.launches + 1 } : World) = v at launched ⊢
  rw [wp_bind, wp_get]
  cases loaded : v.db.run id with
  | error e =>
      refine wp_reconcileUnavailable_none launched (fun r found => ?_)
      rw [Db.run_ok.mpr found] at loaded
      cases loaded
  | ok r =>
      have found := Db.run_ok.mp loaded
      dsimp only
      rw [wp_ite]
      refine ⟨fun _ => launched, fun ready => ?_⟩
      simp only [not_or, not_not] at ready
      rw [wp_bind, wp_tryCatch, wp_bind]
      unfold Service.runtimeFactory
      cases launch.factory with
      | some message =>
          simp only [wp_throw, wp_bind]
          refine wp_reconcileUnavailable_none launched (fun s found' => ?_)
          rw [found, Option.some.injEq] at found'
          subst found'
          obtain ⟨result, resumes⟩ := job
          exact .job resumes ready.1
      | none =>
          have inspecting := launched.step (.inspecting job ready.2 found ready.1)
          have codex : ((v.create env (.inspection id)).enter id v.created).codex v.created =
              Codex.fresh (env.uuid v.uuids) (.inspection id) := by
            simp [World.enter, World.create]
          change wp (Codex.connect env v.created launch (.reconcile id r.lastAttempt))
            (fun _ => Course env cause w₀) failed
            ((v.create env (.inspection id)).enter id v.created)
          refine wp_connect inspecting ?_ (AList.lookup_insert _) ?_ ?_ trivial
          · rw [codex]
            rfl
          · intro w' sameDb sameLive _
            have found' : w'.db.runs.lookup id = some r := by
              rw [sameDb]
              exact found
            have live : w'.live.lookup id = some v.created := by
              rw [sameLive]
              exact AList.lookup_insert _
            exact ⟨.inspection job live found' ready.1 (.inl rfl),
              .inspection job live found' ready.1 (.inr rfl)⟩
          · refine ⟨⟨launched.sound.wired.era, Nat.lt_succ_self _⟩, ?_⟩
            rw [codex]
            rfl

/-- The runtime of an inspection has no listeners. -/
theorem World.Sound.inspection_unheard (h : w.Sound env)
    (purpose : (w.codex g).purpose = .inspection id) : (w.codex g).listener = none := by
  cases listener : (w.codex g).listener with
  | none => rfl
  | some other =>
      obtain ⟨-, r, -, execution⟩ := h.wired.listener g other listener
      cases execution.symm.trans purpose

theorem wp_reconcileConnected {attempt : Option Attempt} {result : Except Err Json}
    {failed : Err → World → Prop} (h : Course env cause w₀ w)
    (resumes : cause.Resumes (.connected g (.reconcile id attempt)) result)
    (owns : w.Owns (.connected g (.reconcile id attempt))) :
    wp (Service.reconcileConnected env id g attempt result) (fun _ => Course env cause w₀) failed
      w := by
  have unavailable : wp (Service.reconcileUnavailable env id (some g))
      (fun _ => Course env cause w₀) failed w :=
    wp_reconcileUnavailable h owns.1 ⟨_, .inl ⟨_, resumes⟩⟩ (h.sound.inspection_unheard owns.2)
  cases result with
  | error e => exact unavailable
  | ok reply =>
      cases attempt with
      | none => exact unavailable
      | some attempt => exact wp_request h .threadRead (.threadRead resumes) owns trivial

theorem wp_importHistory {attempt : Attempt} {response : Json} (h : Course env cause w₀ w)
    (resumes : cause.Resumes (.threadRead id g attempt) (.ok response))
    (owns : w.Owns (.threadRead id g attempt)) :
    wp (Service.importHistory env id g attempt response)
      (fun _ w' => Course env cause w₀ (w'.release id g false))
      (fun _ w' => Course env cause w₀ w' ∧ w'.Owns (.threadRead id g attempt)) w := by
  simp only [Service.importHistory, wp_bind]
  refine wp_lift_of (fun turn selects => ?_) (fun _ _ => ⟨h, owns⟩)
  have unheard := h.sound.inspection_unheard owns.2
  have note : wp (update env id (.reconciled "unresolved"
      "No authoritative terminal turn; no task was replayed") .service)
      (fun _ w' => Course env cause w₀ (w'.release id g false))
      (fun _ w' => Course env cause w₀ w' ∧ w'.Owns (.threadRead id g attempt)) w := by
    refine wp_update (fun db result => ?_) (fun _ => ⟨h, owns⟩)
    have noted := h.step (.noted (Db.update_ok result) (fun _ _ => .threadRead resumes))
    exact noted.step (.inspected owns.1 ⟨_, .inr ⟨_, resumes⟩⟩ unheard)
  cases turn with
  | none => exact note
  | some turn =>
      dsimp only
      rw [wp_ite]
      refine ⟨fun final => ?_, fun _ => note⟩
      refine wp_finish (fun _ => ⟨h, owns⟩) ?_ ?_
      · intro _ _ _
        exact h.step (.inspected owns.1 ⟨_, .inr ⟨_, resumes⟩⟩ unheard)
      · rintro _ outcome r r' db ⟨⟩ table writes
        exact h.step (.imported resumes owns selects final table writes)

theorem wp_threadRead {attempt : Attempt} {result : Except Err Json}
    {failed : Err → World → Prop} (h : Course env cause w₀ w)
    (resumes : cause.Resumes (.threadRead id g attempt) result)
    (owns : w.Owns (.threadRead id g attempt)) :
    wp (Service.threadRead env id g attempt result) (fun _ => Course env cause w₀) failed w := by
  cases result with
  | error e =>
      exact wp_reconcileUnavailable h owns.1 ⟨_, .inr ⟨_, resumes⟩⟩
        (h.sound.inspection_unheard owns.2)
  | ok response =>
      simp only [Service.threadRead, wp_bind, wp_tryCatch]
      refine wp_mono (wp_importHistory h resumes owns) ?_ ?_
      · intro _ w' h'
        rw [wp_pure]
        exact wp_release h'
      · rintro _ w' ⟨h', owns'⟩
        rw [wp_bind]
        exact wp_reconcileUnavailable h' owns'.1 ⟨_, .inr ⟨_, resumes⟩⟩
          (h'.sound.inspection_unheard owns'.2)

theorem wp_closeLive {failed : Err → World → Prop} (h : Course env cause w₀ w)
    (source : ∀ id, Doubts id cause) :
    wp (Service.closeLive env) (fun _ => Course env cause w₀) failed w := by
  simp only [Service.closeLive, wp_bind, wp_get]
  cases entries : w.live.entries with
  | nil => exact h
  | cons entry rest =>
      obtain ⟨id, g⟩ := entry
      have live : w.live.lookup id = some g := by
        refine AList.mem_lookup_iff.mpr ?_
        rw [entries]
        simp
      obtain ⟨range, r, found, started⟩ := h.sound.wired.started id g live
      simp only [wp_bind]
      refine wp_uncertain h.sound found started (fun w' uncertain => ?_)
      refine wp_release (h.step (.abandoned range (.inl ⟨live, source id⟩) ?_ uncertain))
      intro other listener
      have live' := (h.sound.wired.listener g other listener).1
      exact h.sound.wired.single other g id g live' live

theorem wp_released {closing : Bool} {result : Except Err Json} {failed : Err → World → Prop}
    (h : Course env cause w₀ w) (resumes : cause.Resumes (.released id g closing) result)
    (owns : w.Owns (.released id g closing)) (process : (w.codex g).process ≠ .running) :
    wp (Service.released env id g closing) (fun _ => Course env cause w₀) failed w := by
  simp only [Service.released, wp_bind, wp_modify]
  have freed := h.step (.freed resumes owns.2.1 owns.2.2 process)
  rw [wp_ite]
  refine ⟨fun closes => wp_closeLive freed fun _ => ?_, fun _ => freed⟩
  rw [closes] at resumes
  exact resumes ▸ .closing

theorem wp_scheduleJob {failed : Err → World → Prop} (h : Course env cause w₀ w)
    (job : ∃ result, cause.Resumes .schedule result) :
    wp (Service.scheduleJob env) (fun _ => Course env cause w₀) failed w := by
  simp only [Service.scheduleJob, wp_bind, wp_get, wp_ite, wp_pure]
  refine ⟨fun _ => h, fun free => ?_⟩
  simp only [not_or, not_not] at free
  cases queued : w.db.allRuns.find? (·.status == .queued) with
  | none => exact h
  | some r =>
      obtain ⟨id, found⟩ := Db.mem_allRuns.mp (List.mem_of_find?_eq_some queued)
      have keyed := h.sound.db.keyed id r found
      have status : r.status = .queued := by
        simpa using List.find?_some queued
      dsimp only
      rw [keyed]
      exact wp_execute h job free.1 found status

theorem wp_handshake {caller : Caller} {result : Except Err Json} {failed : Err → World → Prop}
    (h : Course env cause w₀ w) (resumes : cause.Resumes (.handshake g caller) result)
    (owns : w.Owns (.handshake g caller)) (allows : w.Allows (.handshake g caller)) :
    wp (Service.handshake env g caller result) (fun _ => Course env cause w₀) failed w := by
  have owns' : w.Owns (.connected g caller) := by cases caller <;> exact owns
  have allows' : w.Allows (.connected g caller) := by cases caller <;> exact allows
  cases result with
  | error e => exact h.step (.pushed (.connected resumes) owns' allows' nofun)
  | ok reply =>
      have tallied := h.step (.quiet (World.setCodex_quiet (g := g)
        (f := fun c => { c with sends := c.sends + 1 }) rfl))
      have ownsT : (w.tallied g).Owns (.connected g caller) := by
        cases caller <;> simpa [World.Owns, World.tallied, World.Current, World.setCodex]
          using owns'
      have allowsT : (w.tallied g).Allows (.connected g caller) := by
        cases caller with
        | execute => exact allows'
        | reconcile => trivial
      simp only [Service.handshake, wp_tryCatch, wp_bind]
      refine wp_send (fun _ => ?_) (fun _ => ?_)
      · have said : Course env cause w₀ ((w.tallied g).wrote g .initialized) :=
          tallied.step (.said (.inl rfl))
        refine said.step (.pushed (.connected resumes) ?_ ?_ nofun)
        · cases caller <;> exact ownsT
        · cases caller with
          | execute =>
              simpa [World.Allows, World.threadBudget, World.turnBudget, World.wrote]
                using allowsT
          | reconcile => trivial
      · exact tallied.step (.pushed (.connected resumes) ownsT allowsT nofun)

end Jobs

end Mathmodel
