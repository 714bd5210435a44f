import Mathmodel.Backend.Commands
import Mathmodel.Library.Transition

/-!
# Steps are sequences of effects

Every section of the service is a course of effects, so the invariant holds in
every state that the service reaches, and what every effect keeps is kept by
every step.
-/

namespace Mathmodel

open M Program

namespace World

variable {env : Env} {w : World} {i : Nat} {t : Task}

/-- The task at an index is taken from the list. -/
def take (w : World) (i : Nat) : World := { w with tasks := w.tasks.eraseIdx i }

theorem mem_of_mem_take {t' : Task} (h : t' ∈ (w.take i).tasks) : t' ∈ w.tasks :=
  List.mem_of_mem_eraseIdx h

theorem tasks_perm (h : w.tasks[i]? = some t) : (t :: (w.take i).tasks).Perm w.tasks := by
  obtain ⟨bound, rfl⟩ := List.getElem?_eq_some_iff.mp h
  exact List.getElem_cons_eraseIdx_perm bound

theorem threadBudget_take (h : w.tasks[i]? = some t) (g : Nat) :
    w.threadBudget g = (w.take i).threadBudget g + if t.frame.launches g then 1 else 0 := by
  have count := (tasks_perm h).countP_eq (fun t => t.frame.launches g)
  simp only [List.countP_cons] at count
  simp only [threadBudget, ← count]
  simp only [take]
  omega

theorem turnBudget_take (h : w.tasks[i]? = some t) (g : Nat) :
    w.turnBudget g = (w.take i).turnBudget g + if t.frame.precedesTurn g then 1 else 0 := by
  have count := (tasks_perm h).countP_eq (fun t => t.frame.precedesTurn g)
  simp only [List.countP_cons] at count
  simp only [turnBudget, ← count]
  simp only [take]
  omega

namespace Sound

theorem take (h : w.Sound env) (i : Nat) : (w.take i).Sound env where
  db := h.db
  wired := h.wired.fades rfl rfl rfl rfl h.wired.fades_refl
  waiting := ⟨fun t member => h.waiting.owns t (mem_of_mem_take member),
    fun t member => h.waiting.awaits t (mem_of_mem_take member)⟩
  interrupts := by
    refine h.interrupts.keep ?_ (Db.Grows.refl _)
    intro frame listed
    obtain ⟨t, member, rfl⟩ := List.mem_map.mp listed
    exact List.mem_map.mpr ⟨t, mem_of_mem_take member, rfl⟩
  accounted := h.accounted.keep le_rfl ((List.eraseIdx_sublist _ _).map _) ⟨[], rfl, by simp⟩
  issued := h.issued

theorem tick (h : w.Sound env) : w.tick.Sound env where
  db := h.db
  wired := h.wired.fades rfl rfl rfl rfl h.wired.fades_refl
  waiting := ⟨h.waiting.owns, h.waiting.awaits⟩
  interrupts := h.interrupts
  accounted := ⟨h.accounted.thread, h.accounted.turn, h.accounted.unused⟩
  issued := h.issued

/-- No `turn/start` was sent on the runtime of a task that leads to one. -/
theorem take_turnBudget (h : w.Sound env) (found : w.tasks[i]? = some t) {g : Nat}
    (precedes : t.frame.precedesTurn g = true) : (w.take i).turnBudget g = 0 := by
  have count := turnBudget_take found g
  have bound := h.accounted.turn g
  rw [if_pos precedes] at count
  omega

theorem take_threadBudget (h : w.Sound env) (found : w.tasks[i]? = some t) {g : Nat}
    (launches : t.frame.launches g = true) : (w.take i).threadBudget g = 0 := by
  have count := threadBudget_take found g
  have bound := h.accounted.thread g
  rw [if_pos launches] at count
  omega

/-- Neither request was sent on the runtime of a task that still connects it. -/
theorem take_allows (h : w.Sound env) (found : w.tasks[i]? = some t) {g : Nat} {caller : Caller}
    (kind : t.frame = .handshake g caller ∨ t.frame = .connected g caller) :
    (w.take i).Allows t.frame := by
  cases caller with
  | execute id k directory =>
      have both : (w.take i).threadBudget g = 0 ∧ (w.take i).turnBudget g = 0 :=
        ⟨h.take_threadBudget found
          (by rcases kind with kind | kind <;> simp [kind, Frame.launches]),
          h.take_turnBudget found
            (by rcases kind with kind | kind <;> simp [kind, Frame.precedesTurn])⟩
      rcases kind with kind | kind <;> rw [kind] <;> exact both
  | reconcile id attempt =>
      rcases kind with kind | kind <;> rw [kind] <;> trivial

end Sound

end World

section Sections

variable {env : Env} {cause : Cause} {w₀ w : World}

/-- A continuation is a course of effects after its task is taken. -/
theorem resume_course {i : Nat} {frame : Frame} {result : Except Err Json} (h : w.Sound env)
    (found : w.tasks[i]? = some ⟨frame, .ready result⟩) :
    Course env (.resumed ⟨frame, .ready result⟩) (w.take i)
      ((Service.resume env result frame).after (w.take i)) := by
  have start : Course env (.resumed ⟨frame, .ready result⟩) (w.take i) (w.take i) :=
    .refl (h.take i)
  have member : (⟨frame, .ready result⟩ : Task) ∈ w.tasks := List.mem_of_getElem? found
  have owns : (w.take i).Owns frame := h.waiting.owns _ member
  have awaits : (w.take i).Awaits ⟨frame, .ready result⟩ := h.waiting.awaits _ member
  have resumes : (Cause.resumed ⟨frame, .ready result⟩).Resumes frame result := rfl
  refine after_of_wp ?_
  cases frame with
  | schedule => exact wp_scheduleJob start ⟨_, resumes⟩
  | release id g => exact wp_release (start.step (.releaseJob owns resumes))
  | cancel id => exact wp_cancel start .cancel (fun _ => start)
  | reconcile id => exact wp_reconcile start ⟨_, resumes⟩
  | handshake g caller =>
      exact wp_handshake start resumes owns (h.take_allows found (.inl rfl))
  | connected g caller =>
      have allows := h.take_allows found (.inr rfl)
      cases caller with
      | execute id k directory => exact wp_executeConnected start resumes owns allows
      | reconcile id attempt => exact wp_reconcileConnected start resumes owns
  | threadStarted id g k =>
      exact wp_threadStarted start resumes owns
        (h.take_turnBudget found (by simp [Frame.precedesTurn]))
  | turnStarted id g k => exact wp_turnStarted start resumes owns
  | interrupted id =>
      exact wp_interrupted start .interrupted (h.interrupts id (List.mem_map.mpr ⟨_, member, rfl⟩))
  | threadRead id g attempt => exact wp_threadRead start resumes owns
  | released id g closing => exact wp_released start resumes owns (awaits id g closing rfl)

/-- Recovery leaves no run under execution, and nothing but a schedule to do. -/
theorem wp_restart {failed : Err → World → Prop} (h : w.Sound env) :
    wp (Service.restart env)
      (fun _ w' => Course env .restart w w' ∧ w'.Restarted ∧ w'.NoneExecuting) failed
      w := by
  have reset : Course env .restart w w.reset := (Course.refl h).step (.reset rfl)
  simp only [Service.restart, Service.recover, wp_bind, wp_modify, wp_get]
  change wp (Service.recoverRuns env w.reset.db.allRuns) _ _ w.reset
  have recovers : wp (Service.recoverRuns env w.reset.db.allRuns)
      (fun _ w' => Course env .restart w w' ∧ w'.Restarted ∧ w'.NoneExecuting) failed
      w.reset := by
    refine wp_recoverRuns reset (fun _ => .restart)
      ⟨rfl, (fun _ member => by cases member), fun _ => rfl⟩ ?_ ?_
    · intro r member executing
      obtain ⟨id, found⟩ := Db.mem_allRuns.mp member
      have keyed := h.db.keyed id r found
      refine ⟨r, by rw [keyed]; exact found, (h.db.runs id r found).begun ?_⟩
      revert executing
      cases r.status <;> simp [RunStatus.isExecuting, RunStatus.isBegun]
    · intro id r found executing
      exact ⟨r, Db.mem_allRuns.mpr ⟨id, found⟩, h.db.keyed id r found, executing⟩
  refine wp_mono recovers ?_ (fun _ _ t => t)
  rintro - w' ⟨course, restarted, none⟩
  simp only [Service.schedule, wp_bind, wp_get, wp_ite, wp_pure, background, M.push, wp_modify]
  refine ⟨fun _ => ⟨course, restarted, none⟩,
    fun _ => ⟨course.step (.pushed .schedule trivial trivial (by rintro _ _ _ ⟨⟩)), ?_, none⟩⟩
  refine ⟨restarted.live, fun t member => ?_, restarted.codex⟩
  rcases List.mem_append.mp member with old | new
  · exact restarted.frames t old
  · rw [List.mem_singleton] at new
    rw [new]

theorem wp_close {failed : Err → World → Prop} (h : Course env cause w₀ w)
    (source : ∀ id, Doubts id cause) :
    wp (Service.close env) (fun _ => Course env cause w₀) failed w := by
  simp only [Service.close, wp_bind, wp_modify]
  exact wp_closeLive (h.step (.quiet ⟨rfl, rfl, rfl, rfl, rfl, rfl, le_rfl, fun _ => rfl⟩)) source

theorem wp_processClosed {g : Nat} {failed : Err → World → Prop} (h : Course env cause w₀ w)
    (running : (w.codex g).process = .running) :
    wp (Service.processClosed env g) (fun _ => Course env cause w₀) failed w := by
  simp only [Service.processClosed, wp_bind, modifyCodex, wp_modify]
  exact wp_fail (h.step (.exited running))

end Sections

/-- What starts the section of an action, and the world it starts from. -/
inductive Begins (env : Env) (w : World) : Action → Cause → World → Prop where
  | command {body : Json} : Begins env w (.command body) (.command w.tasks) w
  | run {i : Nat} {frame : Frame} {result : Except Err Json}
      (found : w.tasks[i]? = some ⟨frame, .ready result⟩) :
      Begins env w (.run i) (.resumed ⟨frame, .ready result⟩) (w.take i)
  | chunk {g : Nat} {text : List Char} (running : (w.codex g).process = .running) :
      Begins env w (.chunk g text) (.received g (Codex.incoming env (w.codex g) text)) w
  | stdinError {g : Nat} : Begins env w (.stdinError g) (.fault g) w
  | processError {g : Nat} : Begins env w (.processError g) (.fault g) w
  | timeout {g n : Nat} : Begins env w (.timeout g n) (.fault g) w
  | processClose {g : Nat} : Begins env w (.processClose g) (.fault g) w
  | close : Begins env w .close .shutdown w
  | restart : Begins env w .restart .restart w

theorem whileRunning_eq_some {w w' : World} {g : Nat} {x : M Unit}
    (h : whileRunning w g x = some w') :
    (w.codex g).process = .running ∧ w' = x.after w := by
  unfold whileRunning at h
  split at h
  · rename_i running
    exact ⟨running, (Option.some.inj h).symm⟩
  · cases h

theorem resumeTask_eq_some {env : Env} {w w' : World} {i : Nat}
    (h : resumeTask env i w = some w') :
    ∃ frame result, w.tasks[i]? = some ⟨frame, .ready result⟩ ∧
      w' = (Service.resume env result frame).after (w.take i) := by
  unfold resumeTask at h
  split at h
  · rename_i frame result found
    exact ⟨frame, result, found, (Option.some.inj h).symm⟩
  · cases h

theorem perform_course {env : Env} {w w' : World} {a : Action} (h : w.Sound env)
    (done : perform env w a = some w') :
    ∃ cause w₀, Begins env w a cause w₀ ∧ Course env cause w₀ w' := by
  cases a with
  | command body =>
      cases done
      exact ⟨_, _, .command, after_of_wp (wp_command (.refl h) rfl)⟩
  | run i =>
      obtain ⟨frame, result, found, rfl⟩ := resumeTask_eq_some done
      exact ⟨_, _, .run found, resume_course h found⟩
  | chunk g text =>
      obtain ⟨running, rfl⟩ := whileRunning_eq_some done
      exact ⟨_, _, .chunk running, after_of_wp (wp_receive (.refl h) rfl)⟩
  | stdinError g =>
      obtain ⟨running, rfl⟩ := whileRunning_eq_some done
      exact ⟨_, _, .stdinError, after_of_wp (wp_fail (.refl h))⟩
  | processError g =>
      obtain ⟨running, rfl⟩ := whileRunning_eq_some done
      exact ⟨_, _, .processError, after_of_wp (wp_fail (.refl h))⟩
  | timeout g n =>
      simp only [perform] at done
      split at done
      · cases done
        exact ⟨_, _, .timeout, after_of_wp (wp_fail (.refl h))⟩
      · cases done
  | processClose g =>
      obtain ⟨running, rfl⟩ := whileRunning_eq_some done
      exact ⟨_, _, .processClose, after_of_wp (wp_processClosed (.refl h) running)⟩
  | close =>
      cases done
      exact ⟨_, _, .close, after_of_wp (wp_close (.refl h) fun _ => .shutdown)⟩
  | restart =>
      cases done
      exact ⟨_, _, .restart,
        after_of_wp (wp_mono (wp_restart h) (fun _ _ done => done.1) (fun _ _ t => t))⟩

theorem step_course {env : Env} {w w' : World} {a : Action} (h : w.Sound env)
    (taken : Step env w a w') :
    ∃ cause w₀ w₁, Begins env w a cause w₀ ∧ Course env cause w₀ w₁ ∧ w' = w₁.tick := by
  obtain ⟨w₁, done, rfl⟩ := Option.map_eq_some_iff.mp taken
  obtain ⟨cause, w₀, begins, course⟩ := perform_course h done
  exact ⟨cause, w₀, w₁, begins, course, rfl⟩

theorem Begins.sound {env : Env} {w w₀ : World} {a : Action} {cause : Cause} (h : w.Sound env)
    (begins : Begins env w a cause w₀) : w₀.Sound env := by
  cases begins with
  | run found => exact h.take _
  | _ => exact h

/-- The invariant holds in every reachable state. -/
theorem World.Sound.reached {env : Env} {w : World} (run : Reaches (Step env) .init w) :
    w.Sound env := by
  refine run.invariant (init_sound env) ?_
  intro u a v _ sound taken
  obtain ⟨cause, w₀, w₁, begins, course, rfl⟩ := step_course sound taken
  exact course.sound.tick

/-- What taking a task, every effect and the clock keep holds in every reachable
state. -/
theorem Reaches.keeps {env : Env} {I : World → Prop} {w : World}
    (run : Reaches (Step env) .init w) (start : I .init)
    (taken : ∀ w i, w.Sound env → I w → I (w.take i))
    (effect : ∀ cause w w', w.Sound env → Effect env cause w w' → I w → I w')
    (ticks : ∀ w, I w → I w.tick) : I w := by
  refine run.invariant start ?_
  intro u a v run' holds moved
  have sound := World.Sound.reached run'
  obtain ⟨cause, w₀, w₁, begins, course, rfl⟩ := step_course sound moved
  have holds₀ : I w₀ := by
    cases begins with
    | run found => exact taken _ _ sound holds
    | _ => exact holds
  exact ticks _ (course.keeps (begins.sound sound) holds₀ (effect cause))

end Mathmodel
