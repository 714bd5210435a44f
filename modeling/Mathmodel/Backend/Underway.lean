import Mathmodel.Backend.Attendance
import Mathmodel.Backend.Transactions
import Mathmodel.Backend.Projection
import Mathmodel.Backend.Recovery

/-!
# Where the sections leave an attempt

Between its start and its turn an attempt goes on in a chain of tasks, and a cancellation
has a job of its own. Each rule below says where one section leaves the run of its task:
some later task goes on with it, the runtime was told, the turn is bound, or the run is
no longer under execution. The one case left over is a runtime that announces a turn
without a name, which nobody can interrupt.
-/

namespace Mathmodel

open M Program

/-! ## Tasks that stay -/

theorem Task.Settled.trans {t u v : Task} (h : t.Settled u) (h' : u.Settled v) :
    t.Settled v := by
  obtain rfl | ⟨waiting, frame, ready⟩ := h
  · exact h'
  · obtain rfl | ⟨waiting', -, -⟩ := h'
    · exact .inr ⟨waiting, frame, ready⟩
    · rw [ready] at waiting'
      cases waiting'

theorem Task.Settled.frame {t t' : Task} (h : t.Settled t') : t'.frame = t.frame := by
  obtain rfl | ⟨-, frame, -⟩ := h
  · rfl
  · exact frame

theorem Task.Settled.of_ready {t t' : Task} (h : t.Settled t') (ready : t.isReady = true) :
    t' = t := by
  obtain same | ⟨waiting, -, -⟩ := h
  · exact same
  · rw [ready] at waiting
    cases waiting

theorem Task.not_awaits_of_isReady {t : Task} (ready : t.isReady = true) (g n : Nat) :
    t.awaits g n = false := by
  rcases t with ⟨frame, wait⟩
  cases wait with
  | ready result => rfl
  | reply h m => cases ready
  | exit h => cases ready

namespace World

/-- Every task of the list is still there. -/
def HasTasks (ts : List Task) (w : World) : Prop := ∀ t ∈ ts, ∃ t' ∈ w.tasks, t.Settled t'

variable {ts : List Task} {w w' : World}

theorem HasTasks.of_subset (h : ts ⊆ w.tasks) : w.HasTasks ts :=
  fun t member => ⟨t, h member, .inl rfl⟩

theorem hasTasks_stable (env : Env) (ts : List Task) : Stable env (HasTasks ts) := by
  refine ⟨⟨?quiet, ?push, ?settle, fun _ _ _ h => h, fun _ _ _ _ h _ => h⟩,
    fun _ _ _ _ _ h _ => h⟩
  case quiet =>
      intro w w' _ _ tasks h
      rwa [HasTasks, tasks]
  case push =>
      intro w t h u member
      obtain ⟨u', listed, settled⟩ := h u member
      exact ⟨u', List.mem_append_left _ listed, settled⟩
  case settle =>
      intro w f settles h u member
      obtain ⟨u', listed, settled⟩ := h u member
      exact ⟨f u', List.mem_map_of_mem listed, settled.trans (settles u')⟩

theorem hasTasks_obeys (env : Env) (ts : List Task) : Obeys env (HasTasks ts) :=
  fun _ _ _ _ _ h _ => h

/-- A promise of the runtime that is given up is not one of the tasks. -/
theorem hasTasks_forgets {g : Nat} (others : ∀ t ∈ ts, ∀ n, t.awaits g n = false) :
    Forgets g (HasTasks ts) := by
  intro w n h t member
  obtain ⟨t', listed, settled⟩ := h t member
  refine ⟨t', List.mem_filter.mpr ⟨listed, ?_⟩, settled⟩
  obtain rfl | ⟨-, -, ready⟩ := settled
  · simp [others t' member n]
  · simp [Task.not_awaits_of_isReady ready]

end World

section Receiving

variable {env : Env} {ts : List Task} {g : Nat}

/-- Unless the section throws, the tasks stay. -/
abbrev Leaves (ts : List Task) (x : M Unit) : Prop :=
  ∀ w : World, w.HasTasks ts → wp x (fun _ => World.HasTasks ts) (fun _ _ => True) w

theorem Leaves.of_respects {x : M Unit} (h : Respects (World.HasTasks ts) x) : Leaves ts x :=
  fun w holds => wp_mono (h w holds) (fun _ _ done => done) (fun _ _ _ => trivial)

theorem leaves_response (env : Env) (id : Json) (fields : List (String × Json)) :
    Leaves ts (Codex.response g id fields) := by
  have h := World.hasTasks_stable env ts
  intro w holds
  simp only [Codex.response, wp_bind, wp_get]
  split
  · trivial
  · rename_i n call _
    simp only [wp_bind, modifyCodex, wp_modify]
    have forgotten : (w.setCodex g fun c =>
        { c with pending := c.pending.filter (·.1 ≠ n) }).HasTasks ts := holds
    rw [wp_ite]
    refine ⟨fun _ => ?_, fun _ => ?_⟩
    · split
      · trivial
      · exact h.settle _ _ (Task.settles_settle _ _ _) forgotten
    · split
      · simp only [wp_bind, record, wp_modify]
        exact h.settle _ _ (Task.settles_settle _ _ _) forgotten
      · exact h.settle _ _ (Task.settles_settle _ _ _) forgotten

theorem leaves_message (m : Json) : Leaves ts (Codex.message env g m) := by
  have h := World.hasTasks_stable env ts
  intro w holds
  simp only [Codex.message, wp_bind, modifyCodex, wp_modify]
  have counted : (w.setCodex g fun c => { c with frames := c.frames + 1 }).HasTasks ts := holds
  split
  · split
    · rw [wp_ite]
      exact ⟨fun _ => Leaves.of_respects (h.serverRequest _ _ _ _) _ counted,
        fun _ => leaves_response env _ _ _ counted⟩
    · exact leaves_response env _ _ _ counted
    · exact Leaves.of_respects (h.notify _ _ _) _ counted
    · trivial
  · trivial

theorem leaves_line (text : List Char) : Leaves ts (Codex.line env g text) := by
  intro w holds
  unfold Codex.line
  rw [wp_ite]
  refine ⟨fun _ => holds, fun _ => ?_⟩
  split
  · exact leaves_message _ _ holds
  · trivial

theorem leaves_drain (lines : List (List Char)) (rest : List Char) :
    Leaves ts (Codex.drain env g lines rest) := by
  induction lines with
  | nil => exact fun _ holds => holds
  | cons text lines ih =>
      intro w holds
      simp only [Codex.drain, wp_bind, modifyCodex, wp_modify]
      exact wp_mono (leaves_line text _ holds) (fun _ w' done => ih w' done) (fun _ _ done => done)

/-- A connection that fails is closed. -/
theorem wp_fail_closed (w : World) (e : Err) :
    wp (Codex.fail env g e) (fun _ w' => (w'.codex g).closed = true)
      (fun _ w' => (w'.codex g).closed = true) w := by
  have faults : ∀ id, Keeps (fun v : World => (v.codex g).closed = true)
      (Service.onFault env id g) := by
    intro id
    refine .bind .get fun v => .ite (fun _ => .bind ?_ fun _ => Keeps.modify fun _ h => h)
      fun _ => .pure _
    refine .bind (Steady.loadRun _) fun _ => .ite (fun _ => .pure _) fun _ v h => ?_
    exact wp_update (fun _ _ => h) (fun _ => h)
  simp only [Codex.fail, wp_bind, wp_get, wp_ite, wp_pure, modifyCodex, wp_modify]
  refine ⟨fun closed => closed, fun _ => ?_⟩
  have closed : ((w.shut g e).codex g).closed = true := by simp [World.shut]
  split
  · exact faults _ _ closed
  · exact closed

/-- The tasks are still there, or the connection has ended meanwhile. -/
def World.LeftBy (ts : List Task) (g : Nat) (w v : World) : Prop :=
  v.HasTasks ts ∨ ((w.codex g).closed = false ∧ (v.codex g).closed = true)

theorem wp_receive_leaves {w : World} (chunk : List Char) (holds : w.HasTasks ts) :
    wp (Codex.receive env g chunk) (fun _ => w.LeftBy ts g) (fun _ => w.LeftBy ts g) w := by
  simp only [Codex.receive, wp_bind, wp_get, wp_ite, wp_pure, wp_tryCatch]
  refine ⟨fun _ => .inl holds, fun open_ => ?_⟩
  have fails : ∀ e v,
      wp (Codex.fail env g e) (fun _ => w.LeftBy ts g) (fun _ => w.LeftBy ts g) v := by
    intro e v
    refine wp_mono (wp_fail_closed v e) ?_ ?_ <;>
      exact fun _ _ closed => .inr ⟨by simpa using open_, closed⟩
  simp only [modifyCodex, wp_modify]
  rw [wp_ite]
  refine ⟨fun _ => fails _ _, fun _ => ?_⟩
  exact wp_mono (leaves_drain _ _ _ holds) (fun _ _ done => .inl done) (fun e v _ => fails e v)

end Receiving

/-! ## Where the sections leave an attempt -/

/-- The turn of the last attempt. -/
def Run.boundTurn (r : Run) : Option String := r.lastAttempt.bind (·.turnId)

theorem Run.boundTurn_setLast (r : Run) (a : Attempt) : (r.setLast a).boundTurn = a.turnId := by
  simp [boundTurn]

theorem Run.boundTurn_of_last {r : Run} {a : Attempt} (last : r.lastAttempt = some a) :
    r.boundTurn = a.turnId := by
  simp [boundTurn, last]

/-- The frame continues the attempt between its start and its turn. -/
def Frame.dispatches (id : String) (k : Nat) : Frame → Bool
  | .handshake _ (.execute i n _) | .connected _ (.execute i n _)
  | .threadStarted i _ n | .turnStarted i _ n => i == id && n == k
  | _ => false

section Dispatches

variable (id directory : String) (g k : Nat)

theorem Frame.handshake_dispatches :
    (Frame.handshake g (.execute id k directory)).dispatches id k = true := by simp [dispatches]

theorem Frame.connected_dispatches :
    (Frame.connected g (.execute id k directory)).dispatches id k = true := by simp [dispatches]

theorem Frame.threadStarted_dispatches :
    (Frame.threadStarted id g k).dispatches id k = true := by simp [dispatches]

theorem Frame.turnStarted_dispatches :
    (Frame.turnStarted id g k).dispatches id k = true := by simp [dispatches]

end Dispatches

namespace World

/-- Some task will go on with the attempt. -/
def Underway (w : World) (id : String) (k : Nat) : Prop :=
  ∃ t ∈ w.tasks, t.frame.dispatches id k = true

/-- The interrupt failed, and its job is about to find out. -/
def Failing (w : World) (id : String) : Prop :=
  ∃ e, (⟨.interrupted id, .ready (.error e)⟩ : Task) ∈ w.tasks

/-- The runtime of the attempt was asked to interrupt the bound turn. -/
def Notified (w : World) (id : String) (k : Nat) (r : Run) : Prop :=
  ∃ g n threadId turnId, w.Serves g id k ∧ r.boundTurn = some turnId ∧
    .wrote g (.request n (.turnInterrupt threadId turnId)) ∈ w.log

/-- The runtime announced a turn of the run without a name. -/
def Anonymous (w : World) (id : String) (g : Nat) : Prop :=
  ∃ before after, .commit (.update id (.bindTurn (some .null)) (.runtime g)) before after ∈ w.log

/-- The runtime of the attempt announced a turn without a name. -/
def Unnamed (w : World) (id : String) (k : Nat) : Prop :=
  ∃ g, w.Serves g id k ∧ w.Anonymous id g

theorem HasTasks.underway {w : World} {t : Task} {ts : List Task} {id : String} {k : Nat}
    (h : w.HasTasks ts) (member : t ∈ ts) (dispatches : t.frame.dispatches id k = true) :
    w.Underway id k := by
  obtain ⟨t', listed, settled⟩ := h t member
  exact ⟨t', listed, by rw [settled.frame]; exact dispatches⟩

end World

section Outcomes

variable {env : Env} {w : World} {g k : Nat} {id : String}

theorem wp_handshake_underway {directory : String} {result : Except Err Json} :
    wp (Service.handshake env g (.execute id k directory) result) (fun _ v => v.Underway id k)
      (fun _ v => v.Underway id k) w := by
  have pushed : ∀ (v : World) result, wp (push ⟨.connected g (.execute id k directory), result⟩)
      (fun _ v => v.Underway id k) (fun _ v => v.Underway id k) v :=
    fun v result => ⟨_, List.mem_append_right _ (List.mem_singleton_self _),
      Frame.connected_dispatches _ _ _ _⟩
  cases result with
  | error e => exact pushed w _
  | ok reply =>
      simp only [Service.handshake, wp_tryCatch, wp_bind]
      exact wp_send (fun _ => pushed _ _) (fun _ => pushed _ _)

/-- A request leaves a task at its frame, whatever becomes of it. -/
theorem wp_request_underway {call : Rpc} {frame : Frame}
    (dispatches : frame.dispatches id k = true) :
    wp (Codex.request env g call frame) (fun _ v => v.Underway id k)
      (fun _ v => v.Underway id k) w := by
  simp only [Codex.request, wp_bind, wp_get]
  rw [wp_ite]
  constructor
  · exact fun _ => ⟨_, List.mem_append_right _ (List.mem_singleton_self _), dispatches⟩
  · intro _
    simp only [wp_bind, modifyCodex, wp_modify, push]
    have h := World.hasTasks_stable env [⟨frame, .reply g ((w.codex g).sequence + 1)⟩]
    have tried := Keeps.tryCatch (h.send g (.request ((w.codex g).sequence + 1) call))
      fun e => h.fail g e
    refine wp_mono (tried _ (World.HasTasks.of_subset ?_)) ?_ ?_
    · intro t member
      exact List.mem_append_right _ member
    all_goals exact fun _ v holds => holds.underway (List.mem_singleton_self _) dispatches

theorem wp_connect_underway {launch : Launch} {directory : String} :
    wp (Codex.connect env g launch (.execute id k directory)) (fun _ v => v.Underway id k)
      (fun _ v => v.Underway id k) w := by
  have pushed : ∀ result, wp (push ⟨.connected g (.execute id k directory), result⟩)
      (fun _ v => v.Underway id k) (fun _ v => v.Underway id k) w :=
    fun result => ⟨_, List.mem_append_right _ (List.mem_singleton_self _),
      Frame.connected_dispatches _ _ _ _⟩
  simp only [Codex.connect, wp_bind, wp_get]
  rw [wp_ite]
  refine ⟨fun _ => pushed _, fun _ => ?_⟩
  cases launch.spawn with
  | some message => exact pushed _
  | none =>
      simp only [wp_bind, modifyCodex, wp_modify]
      exact wp_request_underway (Frame.handshake_dispatches _ _ _ _)

/-- A property of the stored runs under execution is kept while runs are only marked. -/
theorem steady_executing (env : Env) (R : String → Run → Prop) :
    Steady env fun w => ∀ id r, w.db.runs.lookup id = some r →
      r.runId = id ∧ (r.status.isExecuting = true → R id r) := by
  refine ⟨?_, fun _ _ h => h, fun _ _ _ h => h, fun _ _ _ h => h, ?_⟩
  · intro w w' db _ _ h
    rwa [db]
  · intro w id message db h marked other r found
    obtain rfl | ⟨s, saved, found', applied, rfl⟩ := Db.update_saved marked
    · exact h other r found
    · have saves := Change.apply_saves applied
      obtain ⟨rfl, rfl⟩ | ⟨-, found⟩ := Db.write_lookup found
      · refine ⟨rfl, fun executing => ?_⟩
        have idle : saved.run.status.isExecuting = false := by
          generalize saved.run = s' at saves
          cases saves <;> rfl
        exact absurd executing (by simp [Db.bump, idle])
      · exact h other r found

end Outcomes

/-! ## Runs that leave execution -/

/-- The run is not under execution; every run is stored under its id. -/
def World.Rests (w : World) (id : String) : Prop :=
  ∀ i r, w.db.runs.lookup i = some r → r.runId = i ∧ (r.status.isExecuting = true → i ≠ id)

theorem World.Rests.not_executes {w : World} {id : String} (h : w.Rests id) :
    ¬ w.db.Executes id := by
  rintro ⟨r, found, executing⟩
  exact (h id r found).2 executing rfl

theorem World.Sound.rests {env : Env} {w : World} {id : String} (h : w.Sound env)
    (idle : ¬ w.db.Executes id) : w.Rests id := by
  intro i r found
  refine ⟨h.db.keyed i r found, fun executing => ?_⟩
  rintro rfl
  exact idle ⟨r, found, executing⟩

theorem rests_steady (env : Env) (id : String) : Steady env fun w => w.Rests id :=
  steady_executing env fun i _ => i ≠ id

section Resting

variable {env : Env} {w : World} {g k : Nat} {id : String}

theorem wp_uncertain_rests {message : String} (h : w.Sound env) :
    wp (Service.uncertain env id message) (fun _ v => v.Rests id) (fun _ v => v.Rests id) w := by
  by_cases executes : w.db.Executes id
  · obtain ⟨r, found, executing⟩ := executes
    refine wp_uncertain_executing h found executing fun r' db writes => ?_
    have marked : w.Uncertain env id (w.commit (.update id (.uncertain message) .service) db) := by
      refine .marked ?_ ?_ writes
      · revert executing
        cases r.status <;> simp [RunStatus.isTerminal, RunStatus.isExecuting]
      · obtain ⟨a, last⟩ := (h.db.runs id r found).lastAttempt_of_isExecuting executing
        exact Run.attempts_ne_nil_of_lastAttempt last
    refine (h.uncertain marked).rests (writes.not_executes h.db ?_)
    have saves := writes.saves
    cases saves <;> rfl
  · exact (rests_steady env id).uncertain _ _ _ (h.rests executes)

theorem wp_executeFailed_rests {e : Err} (h : w.Sound env) :
    wp (Service.executeFailed env id (some g) true e) (fun _ v => v.Rests id)
      (fun _ v => v.Rests id) w := by
  simp only [Service.executeFailed, if_true, wp_bind]
  refine wp_mono (wp_uncertain_rests h) (fun _ v rests => ?_) (fun _ _ rests => rests)
  exact (rests_steady env id).release _ _ _ _ rests

theorem wp_executeConnected_underway {directory : String} {result : Except Err Json}
    (h : w.Sound env) (serves : w.Serves g id k) :
    wp (Service.executeConnected env id g k directory result)
      (fun _ v => v.Underway id k ∨ v.Rests id) (fun _ v => v.Underway id k ∨ v.Rests id) w := by
  cases result with
  | error e =>
      simp only [Service.executeConnected, Service.executeFailed, Bool.false_eq_true, if_false,
        wp_bind]
      obtain ⟨r, found, started⟩ := h.serves_started serves
      obtain ⟨r', db, result, writes⟩ := h.db.update_failBeforeDispatch
        (env.moment w.clock) e.message found started
      refine wp_update_ok result ?_
      have idle : ¬ db.Executes id := by
        refine writes.not_executes h.db ?_
        have saves := writes.saves
        cases saves
        rfl
      have failed : (w.commit (.update id (.failBeforeDispatch e.message) .service) db).Sound env :=
        h.free writes (Change.free_of_isFree rfl)
      refine wp_mono ((rests_steady env id).release _ _ _ _ (failed.rests idle)) ?_ ?_ <;>
        exact fun _ _ rests => .inr rests
  | ok reply =>
      refine wp_mono (wp_request_underway (Frame.threadStarted_dispatches id g k)) ?_ ?_ <;>
        exact fun _ _ underway => .inl underway

theorem wp_dispatchTurn_underway {thread : Json} (h : w.Sound env) :
    wp (Service.dispatchTurn env id g k thread) (fun _ v => v.Underway id k ∨ v.Rests id)
      (fun _ _ => True) w := by
  simp only [Service.dispatchTurn, wp_bind]
  refine wp_lift_of (fun body _ => ?_) (fun _ _ => trivial)
  rw [wp_bind]
  refine wp_lift_of (fun threadId _ => ?_) (fun _ _ => trivial)
  rw [wp_bind]
  refine wp_update (fun db result => ?_) (fun _ => trivial)
  have bound : (w.commit (.update id (.bindThread threadId) (.runtime g)) db).Sound env :=
    h.updates (Db.update_ok result) (Change.free_of_isFree rfl)
  rw [wp_bind]
  refine wp_loadRun (fun s found => ?_) (fun _ => trivial)
  rw [wp_ite]
  constructor
  · intro cancelling
    rw [wp_bind]
    refine wp_update (fun db' result => ?_) (fun _ => trivial)
    cases Db.update_ok result with
    | same found' skipped =>
        obtain ⟨a, -, skipped⟩ := Change.bind_ok skipped
        cases skipped
    | wrote writes =>
        rename_i s₁ s₂
        cases found.symm.trans writes.found
        have stopped : (World.commit _ (.update id .cancelBeforeTurn .service) db').Sound env :=
          bound.writes writes cancelling (by rintro ⟨⟩) (by rintro _ _ ⟨⟩)
        have idle : ¬ db'.Executes id := by
          refine writes.not_executes bound.db ?_
          have saves := writes.saves
          cases saves
          rfl
        refine wp_mono ((rests_steady env id).release _ _ _ _ (stopped.rests idle)) ?_ ?_
        · exact fun _ _ rests => .inr rests
        · exact fun _ _ _ => trivial
  · intro _
    refine wp_mono (wp_request_underway (Frame.turnStarted_dispatches id g k)) ?_ ?_
    · exact fun _ _ underway => .inl underway
    · exact fun _ _ _ => trivial

theorem wp_threadStarted_underway {result : Except Err Json} (h : w.Sound env)
    (serves : w.Serves g id k) (unsent : w.turnBudget g = 0) :
    wp (Service.threadStarted env id g k result) (fun _ v => v.Underway id k ∨ v.Rests id)
      (fun _ v => v.Underway id k ∨ v.Rests id) w := by
  have fails : ∀ e (v : World), v.Sound env →
      wp (Service.executeFailed env id (some g) true e)
        (fun _ v => v.Underway id k ∨ v.Rests id) (fun _ v => v.Underway id k ∨ v.Rests id) v := by
    intro e v sound
    refine wp_mono (wp_executeFailed_rests sound) ?_ ?_ <;> exact fun _ _ rests => .inr rests
  cases result with
  | error e => exact fails e w h
  | ok thread =>
      simp only [Service.threadStarted, wp_tryCatch]
      have resumes : (Cause.resumed ⟨.threadStarted id g k, .ready (.ok thread)⟩).Resumes
        (.threadStarted id g k) (.ok thread) := rfl
      have course := wp_dispatchTurn (.refl h) resumes serves unsent
      refine wp_mono (wp_and course (wp_dispatchTurn_underway h)) (fun _ _ done => done.2) ?_
      exact fun e v failed => fails e v failed.1.1.sound

end Resting

/-! ## The end of the dispatch -/

section Interrupts

variable {env : Env} {w : World} {g k : Nat} {id : String}

/-- A promise that waits on a failing connection is rejected. -/
theorem wp_fail_rejects {frame : Frame} {n : Nat} {e : Err} (open_ : (w.codex g).closed = false)
    (member : ⟨frame, .reply g n⟩ ∈ w.tasks) :
    wp (Codex.fail env g e) (fun _ v => ⟨frame, .ready (.error e)⟩ ∈ v.tasks)
      (fun _ v => ⟨frame, .ready (.error e)⟩ ∈ v.tasks) w := by
  have stays : ∀ v : World, v.HasTasks [⟨frame, .ready (.error e)⟩] →
      ⟨frame, .ready (.error e)⟩ ∈ v.tasks := by
    intro v holds
    obtain ⟨t', listed, settled⟩ := holds _ (List.mem_singleton_self _)
    rwa [settled.of_ready rfl] at listed
  simp only [Codex.fail, wp_bind, wp_get, open_, Bool.false_eq_true, if_false, modifyCodex,
    wp_modify]
  have rejected : (w.shut g e).HasTasks [⟨frame, .ready (.error e)⟩] := by
    refine .of_subset ?_
    rintro t listed
    rw [List.mem_singleton] at listed
    subst listed
    refine List.mem_map.mpr ⟨_, member, ?_⟩
    simp [Task.reject]
  split
  · have h := World.hasTasks_stable env [⟨frame, .ready (.error e)⟩]
    exact wp_mono (h.onFault _ _ _ rejected) (fun _ v => stays v) (fun _ v => stays v)
  · exact stays _ rejected

/-- The request to interrupt a turn is written, or its failure will be noticed. -/
theorem wp_request_interrupt {threadId : Option String} {turnId : String}
    (serving : (w.codex g).closed = false → w.Serves g id k) :
    wp (Codex.request env g (.turnInterrupt threadId turnId) (.interrupted id))
      (fun _ v => v.Failing id ∨ ∃ n, v.Serves g id k ∧
        .wrote g (.request n (.turnInterrupt threadId turnId)) ∈ v.log)
      (fun _ v => v.Failing id ∨ ∃ n, v.Serves g id k ∧
        .wrote g (.request n (.turnInterrupt threadId turnId)) ∈ v.log) w := by
  simp only [Codex.request, wp_bind, wp_get]
  rw [wp_ite]
  refine ⟨fun _ => .inl ⟨_, List.mem_append_right _ (List.mem_singleton_self _)⟩, fun open_ => ?_⟩
  simp only [Bool.not_eq_true] at open_
  simp only [wp_bind, modifyCodex, wp_modify, push, wp_tryCatch]
  refine wp_send (fun _ => .inr ⟨_, ⟨(serving open_).1, ?_⟩, List.mem_cons_self⟩) (fun e => ?_)
  · simpa [World.tallied, World.wrote, World.setCodex] using (serving open_).2
  · refine wp_mono (wp_fail_rejects (n := (w.codex g).sequence + 1) ?_ ?_)
      (fun _ _ failing => .inl ⟨_, failing⟩) (fun _ _ failing => .inl ⟨_, failing⟩)
    · simpa [World.tallied, World.setCodex] using open_
    · exact List.mem_append_right _ (List.mem_singleton_self _)

/-- The job of a cancellation with a bound turn. -/
theorem wp_cancel_notifies {r : Run} (h : w.Sound env) (found : w.db.runs.lookup id = some r)
    (serving : ∀ g, w.live.lookup id = some g → (w.codex g).closed = false → w.Serves g id k)
    {a : Attempt} {turnId : String} (cancelling : r.status = .cancelling)
    (last : r.lastAttempt = some a) (bound : a.turnId = some turnId) :
    wp (Service.cancel env id) (fun _ v => v.Failing id ∨ v.Notified id k r ∨ v.Rests id)
      (fun _ v => v.Failing id ∨ v.Notified id k r ∨ v.Rests id) w := by
  simp only [Service.cancel, wp_bind, loadRun, wp_get, Db.run_ok.mpr found, wp_lift_ok,
    cancelling, ne_eq, not_true_eq_false, if_false, last, bound]
  cases live : w.live.lookup id with
  | none =>
      refine wp_mono (wp_uncertain_rests h) ?_ ?_ <;> exact fun _ _ rests => .inr (.inr rests)
  | some g =>
      refine wp_mono (wp_request_interrupt (serving g live)) ?_ ?_
      all_goals
        rintro - v (failing | ⟨n, serves, wrote⟩)
        · exact .inl failing
        · refine .inr (.inl ⟨g, n, _, turnId, serves, ?_, wrote⟩)
          exact (Run.boundTurn_of_last last).trans bound

theorem wp_interrupted_rests {e : Err} (h : w.Sound env) :
    wp (Service.interrupted env id (.error e)) (fun _ v => v.Rests id) (fun _ v => v.Rests id)
      w := by
  simp only [Service.interrupted, wp_bind]
  refine wp_mono (wp_uncertain_rests h) (fun _ v rests => ?_) (fun _ _ rests => rests)
  rw [wp_bind, wp_get]
  split
  · exact (rests_steady env id).release _ _ _ _ rests
  · exact rests

end Interrupts

/-! ## The reply to `turn/start` -/

/-- After the reply a run under execution has its turn, unless it has no name, and a
cancellation was passed on. -/
def World.Answered (v : World) (id : String) (g k : Nat) : Prop :=
  ∀ s, v.db.runs.lookup id = some s → s.status.isExecuting = true →
    (s.boundTurn.isSome = true ∨ v.Anonymous id g) ∧
      (s.status = .cancelling → v.Failing id ∨ v.Notified id k s ∨ v.Anonymous id g)

theorem steady_log (env : Env) (e : Entry) : Steady env fun w => e ∈ w.log := by
  refine ⟨?_, fun _ _ h => h, fun _ _ _ h => h, fun _ _ _ h => List.mem_cons_of_mem _ h,
    fun _ _ _ _ h _ => List.mem_cons_of_mem _ h⟩
  intro w w' _ log _ h
  rwa [log]

section Replies

variable {env : Env} {w : World} {g k : Nat} {id : String} {r : Run}

/-- The end of `bindReply`: a cancellation that arrived meanwhile is passed on. -/
theorem wp_passOn_answered (h : w.Sound env) (found : w.db.runs.lookup id = some r)
    (named : r.boundTurn.isSome = true ∨ w.Anonymous id g)
    (serving : ∀ g', w.live.lookup id = some g' → (w.codex g').closed = false →
      w.Serves g' id k) :
    wp (do
      let r ← loadRun id
      if r.status = .cancelling then Service.cancel env id else pure ())
      (fun _ v => v.Rests id ∨ v.Answered id g k) (fun _ _ => True) w := by
  rw [wp_bind]
  refine wp_loadRun (fun s found' => ?_) (fun _ => trivial)
  cases found.symm.trans found'
  rw [wp_ite]
  constructor
  · intro cancelling
    obtain known | ⟨before, after, announced⟩ := named
    · obtain ⟨turnId, bound'⟩ := Option.isSome_iff_exists.mp known
      obtain ⟨a, last, bound⟩ := Option.bind_eq_some_iff.mp bound'
      have notifies := wp_cancel_notifies h found serving cancelling last bound
      have same := (steady_executing env fun i s => i = id → s = r).cancel id w fun i s found' =>
        ⟨h.db.keyed i s found', fun _ is => by
          rw [is, found] at found'
          exact (Option.some.inj found').symm⟩
      refine wp_mono (wp_and notifies same) ?_ (fun _ _ _ => trivial)
      rintro - v ⟨outcome, same⟩
      have kept : ∀ s, v.db.runs.lookup id = some s → s.status.isExecuting = true → s = r :=
        fun s found executing => (same id s found).2 executing rfl
      obtain failing | notified | rests := outcome
      · refine .inr fun s found executing => ?_
        obtain rfl := kept s found executing
        exact ⟨.inl known, fun _ => .inl failing⟩
      · refine .inr fun s found executing => ?_
        obtain rfl := kept s found executing
        exact ⟨.inl known, fun _ => .inr (.inl notified)⟩
      · exact .inl rests
    · refine wp_mono ((steady_log env _).cancel id w announced) ?_ (fun _ _ _ => trivial)
      intro _ v announced
      exact .inr fun s _ _ => ⟨.inr ⟨before, after, announced⟩,
        fun _ => .inr (.inr ⟨before, after, announced⟩)⟩
  · intro other
    refine .inr fun s found' _ => ?_
    cases found.symm.trans found'
    exact ⟨named, fun cancelling => absurd cancelling other⟩

/-- A value that leaves the field empty is `null`. -/
theorem Change.nullableId_none {m : Moment} {value : Option Json}
    (typed : nullableId m value = .ok none) : value = some .null := by
  unfold nullableId at typed
  split at typed
  · rfl
  · split at typed <;> cases typed
  · cases typed

theorem wp_bindReply_answered {response : Json} (h : w.Sound env)
    (found : w.db.runs.lookup id = some r)
    (serving : ∀ g', w.live.lookup id = some g' → (w.codex g').closed = false →
      w.Serves g' id k) :
    wp (Service.bindReply env id g response) (fun _ v => v.Rests id ∨ v.Answered id g k)
      (fun _ _ => True) w := by
  dsimp only [Service.bindReply]
  rw [wp_bind]
  refine wp_loadRun (fun s found' => ?_) (fun _ => trivial)
  cases found.symm.trans found'
  rw [wp_bind]
  refine wp_lift_of (fun a last => ?_) (fun _ _ => trivial)
  have last := Run.attempt_ok last
  cases turn : a.turnId with
  | some turnId =>
      have known : r.boundTurn.isSome = true := by simp [Run.boundTurn_of_last last, turn]
      exact wp_passOn_answered h found (.inl known) serving
  | none =>
      rw [wp_bind]
      refine wp_lift_of (fun body _ => ?_) (fun _ _ => trivial)
      rw [wp_bind]
      refine wp_lift_of (fun value _ => ?_) (fun _ _ => trivial)
      rw [wp_bind]
      refine wp_update (fun db result => ?_) (fun _ => trivial)
      have updates := Db.update_ok result
      have sound : (w.commit (.update id (.bindTurn value) (.runtime g)) db).Sound env :=
        h.updates updates (Change.free_of_isFree rfl)
      obtain ⟨s, found', named⟩ : ∃ s, db.runs.lookup id = some s ∧ (s.boundTurn.isSome = true ∨
          (w.commit (.update id (.bindTurn value) (.runtime g)) db).Anonymous id g) := by
        cases updates with
        | same found' skipped =>
            cases found.symm.trans found'
            obtain ⟨b, last', skipped⟩ := Change.bind_ok skipped
            cases last.symm.trans (Run.attempt_ok last')
            simp only [turn] at skipped
            obtain ⟨turnId, -, skipped⟩ := Change.bind_ok skipped
            cases skipped
        | wrote writes =>
            cases found.symm.trans writes.found
            refine ⟨_, writes.lookup_self h.db, ?_⟩
            have saves := writes.saves
            cases saves with
            | @bindTurn _ b turnId last' unbound typed =>
                cases turnId with
                | some turnId => exact .inl (congrArg Option.isSome (Run.boundTurn_setLast _ _))
                | none =>
                    obtain rfl := Change.nullableId_none typed
                    exact .inr ⟨w.db, db, List.mem_cons_self⟩
      exact wp_passOn_answered sound found' named serving

theorem wp_turnStarted_answered {result : Except Err Json} (h : w.Sound env)
    (serves : w.Serves g id k) (found : w.db.runs.lookup id = some r)
    (serving : ∀ g', w.live.lookup id = some g' → (w.codex g').closed = false →
      w.Serves g' id k) :
    wp (Service.turnStarted env id g result) (fun _ v => v.Rests id ∨ v.Answered id g k)
      (fun _ v => v.Rests id ∨ v.Answered id g k) w := by
  have fails : ∀ e (v : World), v.Sound env →
      wp (Service.executeFailed env id (some g) true e)
        (fun _ v => v.Rests id ∨ v.Answered id g k) (fun _ v => v.Rests id ∨ v.Answered id g k)
        v := by
    intro e v sound
    refine wp_mono (wp_executeFailed_rests sound) ?_ ?_ <;> exact fun _ _ rests => .inl rests
  cases result with
  | error e => exact fails e w h
  | ok response =>
      simp only [Service.turnStarted, wp_tryCatch]
      have resumes : (Cause.resumed ⟨.turnStarted id g k, .ready (.ok response)⟩).Resumes
        (.turnStarted id g k) (.ok response) := rfl
      have course := wp_bindReply (.refl h) resumes serves
      refine wp_mono (wp_and course (wp_bindReply_answered h found serving))
        (fun _ _ done => done.2) ?_
      exact fun e v failed => fails e v failed.1.1.sound

end Replies

/-! ## New attempts and new cancellations -/

/-- Every run under execution was so before, or its attempt is underway. -/
def World.Launches (w v : World) : Prop :=
  ∀ i s, v.db.runs.lookup i = some s → s.status.isExecuting = true →
    w.db.runs.lookup i = some s ∨ v.Underway i s.attempts.length

/-- Every cancellation was there before, or its job is. -/
def World.PassesOn (w v : World) : Prop :=
  ∀ i s, v.db.runs.lookup i = some s → s.status = .cancelling →
    (∃ r, w.db.runs.lookup i = some r ∧ r.status = .cancelling) ∨
      ∃ t ∈ v.tasks, t.frame = .cancel i

section Beginnings

variable {env : Env} {w : World} {id : String} {r : Run}

theorem wp_prepare {launch : Launch} {r' : Run} {db : Db}
    (result : w.db.update (env.moment w.clock) id .startAttempt = .ok db)
    (found : db.runs.lookup id = some r') :
    wp (Service.prepare env id launch)
      (fun started v => started.2.1 = r'.attempts.length ∧ v.db = db)
      (fun _ v => v = w.commit (.update id .startAttempt .service) db) w := by
  have loaded : (w.commit (.update id .startAttempt .service) db).db.run id = .ok r' :=
    Db.run_ok.mpr found
  simp only [Service.prepare, wp_bind]
  refine wp_update_ok result ?_
  simp only [wp_bind, loadRun, wp_get, loaded, wp_lift_ok, Service.workspace]
  refine wp_lift_of (fun project _ => ?_) (fun _ _ => rfl)
  cases launch.directory with
  | error message => rfl
  | ok directory =>
      dsimp only
      rw [wp_ite]
      refine ⟨fun _ => rfl, fun _ => ?_⟩
      rw [wp_pure]
      simp only [Service.runtimeFactory, wp_bind]
      cases launch.factory with
      | some message => rfl
      | none => exact ⟨rfl, rfl⟩

theorem wp_execute_launches (h : w.Sound env) (found : w.db.runs.lookup id = some r)
    (queued : r.status = .queued) :
    wp (Service.execute env id) (fun _ => w.Launches) (fun _ => w.Launches) w := by
  rw [Service.execute, wp_bind]
  refine wp_nextLaunch ?_
  generalize env.launch w.launches = launch
  obtain ⟨r', db, result, writes⟩ := h.db.update_startAttempt (env.moment w.clock) found queued
  have loaded := writes.lookup_self h.db
  have others : ∀ i s, db.runs.lookup i = some s → s.runId = i ∧ (s.status.isExecuting = true →
      w.db.runs.lookup i = some s ∨ i = id ∧ s.attempts.length = r'.attempts.length) := by
    intro i s found'
    have sound := writes.sound h.db trivial (by rintro _ _ ⟨⟩)
    refine ⟨sound.keyed i s found', fun _ => ?_⟩
    obtain ⟨rfl, rfl⟩ | ⟨-, old⟩ := writes.lookup h.db found'
    · exact .inr ⟨rfl, rfl⟩
    · exact .inl old
  have misfires : ∀ e, wp (do
      Service.executeFailed env id none false e
      pure (none : Option (Nat × Nat × String)))
      (fun started v => started = none ∧ w.Launches v) (fun _ => w.Launches)
      (World.commit { w with launches := w.launches + 1 } (.update id .startAttempt .service)
        db) := by
    intro e
    have started : (Db.bump (env.moment w.clock) r').attempts ≠ [] := by
      cases writes.saves
      simp [Db.bump]
    have sound := writes.sound h.db trivial (by rintro _ _ ⟨⟩)
    obtain ⟨r'', db', result', fails⟩ := sound.update_failBeforeDispatch
      (env.moment w.clock) e.message loaded started
    simp only [Service.executeFailed, Bool.false_eq_true, if_false, wp_bind]
    refine wp_update_ok result' ⟨rfl, fun i s found' executing => ?_⟩
    obtain ⟨rfl, rfl⟩ | ⟨ne, old⟩ := fails.lookup sound found'
    · have saves := fails.saves
      cases saves
      cases executing
    · obtain old | ⟨same, -⟩ := (others i s old).2 executing
      · exact .inl old
      · exact absurd same ne
  rw [wp_bind, wp_tryCatch, wp_bind]
  refine wp_mono (wp_prepare result loaded) ?_ ?_
  · rintro ⟨g, attempt, directory⟩ v ⟨number, db'⟩
    dsimp only at number
    subst number
    simp only [wp_pure, wp_bind, Service.setLive, modifyCodex, wp_modify]
    have kept := (steady_executing env fun i s => w.db.runs.lookup i = some s ∨
      i = id ∧ s.attempts.length = r'.attempts.length).connect g launch
        (.execute id r'.attempts.length directory)
        (({ v with live := v.live.insert id g }).setCodex g
          fun c => { c with listener := some id }) (by
            intro i s found'
            exact others i s (db' ▸ found'))
    refine wp_mono (wp_and kept wp_connect_underway) ?_ ?_
    all_goals
      rintro - u ⟨kept, underway⟩ i s found' executing
      obtain old | ⟨rfl, number⟩ := (kept i s found').2 executing
      · exact .inl old
      · exact .inr (number ▸ underway)
  · rintro e v rfl
    refine wp_mono (misfires e) ?_ (fun _ _ launches => launches)
    rintro _ v ⟨rfl, launches⟩
    exact launches

theorem wp_scheduleJob_launches (h : w.Sound env) :
    wp (Service.scheduleJob env) (fun _ => w.Launches) (fun _ => w.Launches) w := by
  have same : w.Launches w := fun i s found _ => .inl found
  simp only [Service.scheduleJob, wp_bind, wp_get, wp_ite, wp_pure]
  refine ⟨fun _ => same, fun _ => ?_⟩
  cases queued : w.db.allRuns.find? (·.status == .queued) with
  | none => exact same
  | some r =>
      obtain ⟨id, found⟩ := Db.mem_allRuns.mp (List.mem_of_find?_eq_some queued)
      dsimp only
      rw [h.db.keyed id r found]
      exact wp_execute_launches h found (by simpa using List.find?_some queued)

/-- Only a `cancel` command makes a run `cancelling`. -/
theorem Change.Saves.cancels {m : Moment} {r r' : Run} {view : View} {op : RunOp}
    (h : (Change.command view op).Saves m r r') (cancelling : r'.status = .cancelling) :
    op = .cancel := by
  cases h with
  | cancelIdle => rfl
  | cancelActive => rfl
  | resolve named answered =>
      dsimp only at cancelling
      split at cancelling <;> cases cancelling
  | review status last =>
      rename_i decision _ _
      cases decision <;> cases cancelling
  | reconcile status =>
      rw [status] at cancelling
      cases cancelling
  | _ => cases cancelling

theorem wp_effects_passOn {u : World} {request : Request} {value : ReceiptValue} {next : Db}
    (h : w.Sound env)
    (handled : Service.handle env w (env.moment w.clock) request = .ok (value, next))
    (db : u.db.runs = next.runs) :
    wp (Service.effects env request value) (fun _ => w.PassesOn) (fun _ => w.PassesOn) u := by
  -- a request that cancels nothing has no new cancellation to pass on
  have plain : (∀ i s, u.db.runs.lookup i = some s → s.runId = i ∧ (s.status.isExecuting = true →
        s.status = .cancelling → ∃ r, w.db.runs.lookup i = some r ∧ r.status = .cancelling)) →
      wp (Service.effects env request value) (fun _ => w.PassesOn) (fun _ => w.PassesOn) u := by
    intro start
    refine wp_mono ((steady_executing env _).effects request value u start) ?_ ?_
    all_goals
      intro _ v kept i s found cancelling
      exact .inl ((kept i s found).2 (by rw [cancelling]; rfl) cancelling)
  have old : ∀ i s, w.db.runs.lookup i = some s → s.runId = i ∧ (s.status.isExecuting = true →
      s.status = .cancelling → ∃ r, w.db.runs.lookup i = some r ∧ r.status = .cancelling) :=
    fun i s found => ⟨h.db.keyed i s found, fun _ cancelling => ⟨s, found, cancelling⟩⟩
  cases request with
  | createProject name =>
      cases handled
      refine plain fun i s found => old i s ?_
      rwa [db] at found
  | createRun projectId task =>
      obtain ⟨project, -, handled⟩ := Change.bind_ok handled
      obtain ⟨⟨r, after⟩, stored, handled⟩ := Change.bind_ok handled
      cases handled
      obtain ⟨rfl, -, -, rfl⟩ := Db.save_ok stored
      refine plain fun i s found => ?_
      rw [db] at found
      obtain ⟨rfl, rfl⟩ | ⟨-, found⟩ := Db.write_lookup found
      · refine ⟨rfl, ?_⟩
        rintro ⟨⟩
      · exact old i s found
  | onRun id version op =>
      obtain ⟨r, r', -, rfl, writes⟩ := runCommand_ok handled
      have stored : u.db.runs.lookup id = some (Db.bump (env.moment w.clock) r') := by
        rw [db]
        exact writes.lookup_self h.db
      have others : ∀ i s, u.db.runs.lookup i = some s → i ≠ id →
          w.db.runs.lookup i = some s := by
        intro i s found ne
        rw [db] at found
        rwa [← writes.lookup_ne h.db ne]
      by_cases cancels : op = .cancel
      · subst cancels
        have passes : ∀ v : World, v.db = u.db → ((Db.bump (env.moment w.clock) r').status =
            .cancelling → ∃ t ∈ v.tasks, t.frame = .cancel id) → w.PassesOn v := by
          intro v same job i s found cancelling
          rw [same] at found
          by_cases own : i = id
          · subst own
            cases stored.symm.trans found
            exact .inr (job cancelling)
          · exact .inl ⟨s, others i s found own, cancelling⟩
        simp only [Service.effects, Service.schedule, background, M.push, wp_ite, wp_bind, wp_get,
          wp_pure, wp_modify]
        refine ⟨fun _ => ⟨fun _ => passes _ rfl fun _ => ?_, fun _ => passes _ rfl fun _ => ?_⟩,
          fun other => ⟨fun _ => passes _ rfl fun cancelling => absurd cancelling other,
            fun _ => passes _ rfl fun cancelling => absurd cancelling other⟩⟩
        · exact ⟨_, List.mem_append_right _ (List.mem_singleton_self _), rfl⟩
        · exact ⟨_, List.mem_append_left _
            (List.mem_append_right _ (List.mem_singleton_self _)), rfl⟩
      · refine plain fun i s found => ?_
        by_cases same : i = id
        · subst same
          cases stored.symm.trans found
          refine ⟨writes.bump_runId h.db, fun _ cancelling => ?_⟩
          exact absurd (writes.saves.cancels cancelling) cancels
        · exact old i s (others i s found same)

theorem wp_command_passOn {body : Json} (h : w.Sound env) :
    wp (Service.command env body) (fun _ => w.PassesOn) (fun _ => w.PassesOn) w := by
  have same : w.PassesOn w := fun i s found cancelling => .inl ⟨s, found, cancelling⟩
  simp only [Service.command, wp_bind, wp_get]
  cases decoded : Command.ofJson body with
  | none => exact same
  | some c =>
      dsimp only
      rw [wp_ite]
      refine ⟨fun _ => same, fun _ => ?_⟩
      cases result : w.db.command c.idempotencyKey (env.sha256 body.canonical)
          (Service.handle env w (env.moment w.clock) c.request) with
      | error e => exact same
      | ok answer =>
          obtain ⟨outcome, db⟩ := answer
          simp only [wp_bind, wp_modify]
          obtain ⟨prior, -, -, rfl, rfl⟩ | ⟨value, next, -, handled, rfl, rfl⟩ :=
            Db.command_ok result
          · exact same
          · rw [wp_ite]
            refine ⟨(by rintro ⟨⟩), fun _ => ?_⟩
            rw [wp_bind]
            exact wp_effects_passOn h handled rfl

end Beginnings

end Mathmodel
