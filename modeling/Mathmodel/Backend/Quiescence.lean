import Mathmodel.Backend.Transactions
import Mathmodel.Backend.Underway
import Mathmodel.Library.Potential

/-!
# The continuations run out

A continuation may leave further tasks behind, a failing connection settles the promises
of others, and a shutdown releases one runtime after the other. None of this goes on for
ever: in whatever order the continuations are run, after finitely many of them none is
left, and the event loop can turn to the next event.

What a task may still add to the list is its cost, and the tasks of a later `await` cost
less. Two kinds of tasks are counted apart: those that start a runtime, which no
continuation adds, and those that `close` waits for, which cost less while their runtime
is live.
-/

namespace Mathmodel

open M Program

/-- The frame starts a runtime. -/
def Frame.starts : Frame → Bool
  | .schedule | .reconcile _ => true
  | _ => false

/-- What is paid for a task and all that it may leave behind. -/
def Frame.cost : Frame → Nat
  | .schedule | .reconcile _ => 0
  | .released .. => 2
  | .release .. | .interrupted _ => 3
  | .threadRead .. => 5
  | .cancel _ => 7
  | .turnStarted .. => 9
  | .threadStarted .. => 15
  | .connected .. => 19
  | .handshake .. => 39

/-- A potential of tasks and live runtimes. A new task adds at most `k` times its cost. -/
structure Weighs (φ : World → Nat) (k : Nat) : Prop where
  quiet : ∀ w w' : World, w'.tasks = w.tasks → w'.live = w.live → φ w' = φ w
  settle : ∀ (w : World) f, Task.Settles f → φ { w with tasks := w.tasks.map f } = φ w
  push : ∀ w t, t.frame.starts = false →
    φ { w with tasks := w.tasks ++ [t] } ≤ φ w + k * t.frame.cost

namespace Weighs

variable {env : Env} {φ : World → Nat} {k n : Nat}

theorem loadRun (id : String) : Adds φ k 0 (M.loadRun id) := .free .get fun _ => .lift _

theorem workspace (projectId : String) (launch : Launch) :
    Adds φ k 0 (Service.workspace env projectId launch) := by
  refine .free .get fun w => .free (.lift _) fun _ => ?_
  split
  · exact .throw _
  · exact .ite (fun _ => .throw _) fun _ => .pure _

variable (h : Weighs φ k)

include h

theorem unchanged {f : World → World} (same : ∀ w, (f w).tasks = w.tasks ∧ (f w).live = w.live) :
    Adds φ k 0 (modify f : M PUnit) :=
  .modify fun w => (h.quiet w _ (same w).1 (same w).2).le.trans (Nat.le_add_right _ _)

theorem modifyCodex (g : Nat) (f : Codex → Codex) : Adds φ k 0 (M.modifyCodex g f) :=
  h.unchanged fun _ => ⟨rfl, rfl⟩

theorem record (e : Entry) : Adds φ k 0 (M.record e) := h.unchanged fun _ => ⟨rfl, rfl⟩

theorem pushes {t : Task} (plain : t.frame.starts = false) (le : t.frame.cost ≤ n) :
    Adds φ k n (M.push t) :=
  Adds.mono (.modify fun w => h.push w t plain) le

theorem settles {f : Task → Task} (settles : Task.Settles f) :
    Adds φ k 0 (modify fun w => { w with tasks := w.tasks.map f } : M PUnit) :=
  .modify fun w => (h.settle w f settles).le.trans (Nat.le_add_right _ _)

theorem update (id : String) (change : Change) (via : Via) :
    Adds φ k 0 (M.update env id change via) := by
  refine .free .get fun w => ?_
  split
  · exact .throw _
  · exact h.unchanged fun _ => ⟨rfl, rfl⟩

theorem uncertain (id message : String) : Adds φ k 0 (Service.uncertain env id message) :=
  .free (loadRun id) fun _ => .ite (fun _ => .pure _) fun _ => h.update _ _ _

theorem onFault (id : String) (g : Nat) : Adds φ k 3 (Service.onFault env id g) :=
  .free .get fun _ => .ite (fun _ => .free (h.uncertain _ _) fun _ => h.pushes rfl le_rfl)
    fun _ => .pure _

theorem fail (g : Nat) (e : Err) : Adds φ k 3 (Codex.fail env g e) := by
  refine .free .get fun w => .ite (fun _ => .pure _) fun _ => ?_
  refine .free (h.modifyCodex _ _) fun _ => .free (h.settles (Task.settles_reject _ _)) fun _ => ?_
  split
  · exact h.onFault _ _
  · exact .pure _

theorem send (g : Nat) (message : Outbound) : Adds φ k 0 (Codex.send env g message) := by
  refine .free .get fun w => .free (h.modifyCodex _ _) fun _ => ?_
  exact .ite (fun _ => .throw _) fun _ => .ite (fun _ => .throw _) fun _ => h.record _

theorem request {frame : Frame} (g : Nat) (call : Rpc) (plain : frame.starts = false)
    (le : frame.cost + 3 ≤ n) : Adds φ k n (Codex.request env g call frame) := by
  refine Adds.mono ?_ le
  refine .free .get fun w => .ite (fun _ => h.pushes plain (Nat.le_add_right _ _)) fun _ => ?_
  refine .free (h.modifyCodex _ _) fun _ => .bind (h.pushes plain le_rfl) fun _ => ?_
  exact (Adds.tryCatch (h.send _ _) fun _ => h.fail _ _).mono le_rfl

theorem connect (g : Nat) (launch : Launch) (caller : Caller) :
    Adds φ k 42 (Codex.connect env g launch caller) := by
  have rejected : ∀ e, Adds φ k 42 (M.push ⟨.connected g caller, .ready (.error e)⟩) :=
    fun _ => (h.pushes (n := 19) rfl le_rfl).mono (by decide)
  refine .free .get fun w => .ite (fun _ => rejected _) fun _ => ?_
  split
  · exact rejected _
  · exact .free (h.modifyCodex _ _) fun _ => h.request _ _ rfl le_rfl

theorem shut (w : World) (g : Nat) : φ ((w.detach g).shutOnce g) = φ w := by
  have detached : φ (w.detach g) = φ w := h.quiet w _ rfl rfl
  unfold World.shutOnce
  split
  · exact detached
  · refine Eq.trans ?_ detached
    exact (h.settle _ _ (Task.settles_reject g _)).trans (h.quiet (w.detach g) _ rfl rfl)

/-- The released runtime has no listener, so its end is told to nobody. -/
theorem release (id : String) (g : Nat) (closing : Bool) :
    Adds φ k 2 (Service.release env id g closing) := by
  intro w
  refine wp_release ?_
  exact (h.push _ ⟨.released id g closing, _⟩ rfl).trans (by rw [h.shut]; rfl)

theorem cancel (id : String) : Adds φ k 6 (Service.cancel env id) := by
  refine .free (loadRun id) fun r => .ite (fun _ => .pure _) fun _ => ?_
  split
  · split
    · refine .free .get fun w => ?_
      split
      · exact h.request _ _ rfl le_rfl
      · exact (h.uncertain _ _).mono (by decide)
    · exact .pure _
  · exact .pure _

theorem interrupted (id : String) (result : Except Err Json) :
    Adds φ k 2 (Service.interrupted env id result) := by
  cases result with
  | ok value => exact .pure _
  | error e =>
      refine .free (h.uncertain _ _) fun _ => .free .get fun w => ?_
      split
      · exact h.release _ _ _
      · exact .pure _

theorem executeFailed (id : String) (runtime : Option Nat) (dispatched : Bool) (e : Err) :
    Adds φ k 2 (Service.executeFailed env id runtime dispatched e) := by
  cases runtime with
  | some g =>
      exact .ite (fun _ => .free (h.uncertain _ _) fun _ => h.release _ _ _)
        fun _ => .free (h.update _ _ _) fun _ => h.release _ _ _
  | none =>
      exact .ite (fun _ => .free (h.uncertain _ _) fun _ => .pure _)
        fun _ => .free (h.update _ _ _) fun _ => .pure _

theorem executeConnected (id : String) (g attempt : Nat) (directory : String)
    (result : Except Err Json) :
    Adds φ k 18 (Service.executeConnected env id g attempt directory result) := by
  cases result with
  | ok value => exact h.request _ _ rfl le_rfl
  | error e => exact (h.executeFailed id (some g) false e).mono (by decide)

theorem dispatchTurn (id : String) (g attempt : Nat) (thread : Json) :
    Adds φ k 12 (Service.dispatchTurn env id g attempt thread) := by
  refine .free (.lift _) fun _ => .free (.lift _) fun _ => .free (h.update _ _ _) fun _ => ?_
  refine .free (loadRun id) fun r => .ite (fun _ => ?_) fun _ => h.request _ _ rfl le_rfl
  exact (Adds.free (h.update _ _ _) fun _ => h.release _ _ _).mono (by decide)

theorem threadStarted (id : String) (g attempt : Nat) (result : Except Err Json) :
    Adds φ k 14 (Service.threadStarted env id g attempt result) := by
  cases result with
  | ok thread => exact .tryCatch (h.dispatchTurn _ _ _ _) fun _ => h.executeFailed _ _ _ _
  | error e => exact (h.executeFailed id (some g) true e).mono (by decide)

theorem bindReply (id : String) (g : Nat) (response : Json) :
    Adds φ k 6 (Service.bindReply env id g response) := by
  have rest : Adds φ k 6 (do
      let r ← M.loadRun id
      if r.status = .cancelling then Service.cancel env id else Pure.pure ()) :=
    .free (loadRun id) fun _ => .ite (fun _ => h.cancel _) fun _ => .pure _
  refine .free (loadRun id) fun r => .free (.lift _) fun attempt => ?_
  split
  · exact rest
  · exact .free (.lift _) fun _ => .free (.lift _) fun _ => .free (h.update _ _ _) fun _ => rest

theorem turnStarted (id : String) (g : Nat) (result : Except Err Json) :
    Adds φ k 8 (Service.turnStarted env id g result) := by
  cases result with
  | ok response => exact .tryCatch (h.bindReply _ _ _) fun _ => h.executeFailed _ _ _ _
  | error e => exact (h.executeFailed id (some g) true e).mono (by decide)

theorem reconcileUnavailable (id : String) (runtime : Option Nat) :
    Adds φ k 2 (Service.reconcileUnavailable env id runtime) := by
  refine .free (.tryCatch (m := 0) (h.update _ _ _) fun _ => .pure _) fun _ => ?_
  split
  · exact h.release _ _ _
  · exact .pure _

theorem reconcileConnected (id : String) (g : Nat) (attempt : Option Attempt)
    (result : Except Err Json) :
    Adds φ k 8 (Service.reconcileConnected env id g attempt result) := by
  unfold Service.reconcileConnected
  split
  · exact h.request _ _ rfl le_rfl
  · exact (h.reconcileUnavailable _ _).mono (by decide)

theorem finish (id : String) (turn : Option Json) (via : Via) :
    Adds φ k 0 (Service.finish env id turn via) := by
  refine .free (.lift _) fun status => .free (.lift _) fun outcome => ?_
  split
  · exact .pure _
  · exact h.update _ _ _

theorem importHistory (id : String) (g : Nat) (attempt : Attempt) (response : Json) :
    Adds φ k 0 (Service.importHistory env id g attempt response) := by
  refine .free (.lift _) fun turn => ?_
  split
  · exact .ite (fun _ => h.finish _ _ _) fun _ => h.update _ _ _
  · exact h.update _ _ _

theorem threadRead (id : String) (g : Nat) (attempt : Attempt) (result : Except Err Json) :
    Adds φ k 4 (Service.threadRead env id g attempt result) := by
  cases result with
  | error e => exact (h.reconcileUnavailable id (some g)).mono (by decide)
  | ok response =>
      refine .bind (n := 2) (m := 2) (.tryCatch (m := 2)
        (.free (h.importHistory _ _ _ _) fun _ => .pure _)
        fun _ => .bind (m := 0) (h.reconcileUnavailable _ _) fun _ => .pure _) fun imported => ?_
      exact .ite (fun _ => h.release _ _ _) fun _ => .pure _

theorem handshake (g : Nat) (caller : Caller) (result : Except Err Json) :
    Adds φ k 38 (Service.handshake env g caller result) := by
  have pushed : ∀ result, Adds φ k 19 (M.push ⟨.connected g caller, result⟩) :=
    fun _ => h.pushes rfl le_rfl
  cases result with
  | ok value =>
      exact .tryCatch (n := 19) (.free (h.send _ _) fun _ => pushed _) fun _ => pushed _
  | error e => exact (pushed _).mono (by decide)

theorem closeLive : Adds φ k 2 (Service.closeLive env) := by
  refine .free .get fun w => ?_
  split
  · exact .pure _
  · exact .free (h.uncertain _ _) fun _ => h.release _ _ _

/-- Sections that leave the live runtimes alone add less than the task has paid. -/
theorem resume {frame : Frame} (result : Except Err Json) (plain : frame.starts = false)
    (kept : ∀ id g closing, frame ≠ .released id g closing) :
    Adds φ k (frame.cost - 1) (Service.resume env result frame) := by
  cases frame with
  | schedule => cases plain
  | reconcile id => cases plain
  | released id g closing => exact absurd rfl (kept id g closing)
  | release id g => exact h.release _ _ _
  | cancel id => exact h.cancel _
  | handshake g caller => exact h.handshake _ _ _
  | connected g caller =>
      cases caller with
      | execute => exact h.executeConnected _ _ _ _ _
      | reconcile id attempt =>
          exact (h.reconcileConnected id g attempt result).mono (m := 18) (by decide)
  | threadStarted => exact h.threadStarted _ _ _ _
  | turnStarted => exact h.turnStarted _ _ _
  | interrupted => exact h.interrupted _ _
  | threadRead => exact h.threadRead _ _ _ _

end Weighs

/-! ## The three potentials -/

namespace World

/-- The tasks that start a runtime. -/
def starts (w : World) : Nat := w.tasks.countP (·.frame.starts)

/-- The live runtimes. -/
def held (w : World) : Nat := w.live.entries.length

end World

/-- What the task may still add. A release that `close` waits for has its runtime to end. -/
def Frame.weight (live : AList fun _ : String => Nat) : Frame → Nat
  | .released id g _ => if live.lookup id = some g then 1 else 2
  | frame => frame.cost

theorem Frame.weight_le_cost (live : AList fun _ : String => Nat) (frame : Frame) :
    frame.weight live ≤ frame.cost := by
  cases frame with
  | released id g closing =>
      simp only [weight, cost]
      split <;> decide
  | _ => exact le_rfl

namespace World

/-- What all tasks together may still add. -/
def load (w : World) : Nat := (w.tasks.map fun t => t.frame.weight w.live).sum

variable {w : World} {i : Nat} {t : Task}

theorem starts_take (found : w.tasks[i]? = some t) :
    w.starts = (w.take i).starts + if t.frame.starts then 1 else 0 := by
  have count := (tasks_perm found).countP_eq fun t => t.frame.starts
  rw [List.countP_cons] at count
  exact count.symm

theorem load_take (found : w.tasks[i]? = some t) :
    w.load = t.frame.weight w.live + (w.take i).load := by
  have sum := ((tasks_perm found).map fun t : Task => t.frame.weight w.live).sum_eq
  rw [List.map_cons, List.sum_cons] at sum
  exact sum.symm

end World

theorem weighs_starts : Weighs World.starts 0 where
  quiet := by
    intro w w' tasks _
    rw [World.starts, World.starts, tasks]
  settle := by
    intro w f settles
    simp only [World.starts, List.countP_map, Function.comp_def, (settles _).frame]
  push := by
    intro w t plain
    simp [World.starts, List.countP_append, plain]

theorem weighs_load : Weighs World.load 1 where
  quiet := by
    intro w w' tasks live
    rw [World.load, World.load, tasks, live]
  settle := by
    intro w f settles
    simp only [World.load, List.map_map, Function.comp_def, (settles _).frame]
  push := by
    intro w t _
    have le := t.frame.weight_le_cost w.live
    simp only [World.load, List.map_append, List.sum_append, List.map_cons, List.map_nil,
      List.sum_cons, List.sum_nil]
    omega

/-- Whatever depends on the live runtimes alone does not change with them unchanged. -/
theorem weighs_live (f : (AList fun _ : String => Nat) → Nat) : Weighs (fun w => f w.live) 0 where
  quiet := fun _ _ _ live => congrArg f live
  settle := fun _ _ _ => rfl
  push := fun _ _ _ => Nat.le_add_right _ _

/-! ## Sections that change the live runtimes -/

section Starting

variable {env : Env} {φ : World → Nat} {k : Nat} (h : Weighs φ k)
  (free : ∀ (w : World) live, φ { w with live := live } = φ w)

include h

theorem Weighs.runtimeFactory (launch : Launch) (purpose : Purpose) :
    Adds φ k 0 (Service.runtimeFactory env launch purpose) := by
  unfold Service.runtimeFactory
  split
  · exact .throw _
  · refine .free (.free .get fun _ => .free (h.unchanged fun _ => ⟨rfl, rfl⟩) fun _ => .pure _)
      fun _ => .free .get fun w => .free (h.unchanged fun _ => ⟨rfl, rfl⟩) fun _ => .pure _

theorem Weighs.nextLaunch : Adds φ k 0 (Service.nextLaunch env) :=
  .free .get fun _ => .free (h.unchanged fun _ => ⟨rfl, rfl⟩) fun _ => .pure _

theorem Weighs.prepare (id : String) (launch : Launch) :
    Adds φ k 0 (Service.prepare env id launch) := by
  refine .free (h.update _ _ _) fun _ => .free (Weighs.loadRun id) fun r => ?_
  exact .free (Weighs.workspace _ _) fun _ => .free (h.runtimeFactory _ _) fun _ => .pure _

omit h in
theorem Weighs.setLive (free : ∀ (w : World) live, φ { w with live := live } = φ w) (id : String)
    (g : Nat) : Adds φ k 0 (Service.setLive id g) := .modify fun w => (free w _).le

include free

theorem Weighs.execute (id : String) : Adds φ k 44 (Service.execute env id) := by
  refine .free h.nextLaunch fun launch => .bind (n := 2) (m := 42) (.tryCatch (n := 0) (m := 2)
    (.free (h.prepare _ _) fun _ => .pure _)
    fun _ => .bind (m := 0) (h.executeFailed _ _ _ _) fun _ => .pure _) fun started => ?_
  split
  · exact .pure _
  · refine .free (Weighs.setLive free _ _) fun _ => ?_
    exact .free (h.modifyCodex _ _) fun _ => h.connect _ _ _

theorem Weighs.scheduleJob : Adds φ k 44 (Service.scheduleJob env) := by
  refine .free .get fun w => .ite (fun _ => .pure _) fun _ => ?_
  split
  · exact h.execute free _
  · exact .pure _

theorem Weighs.reconcile (id : String) : Adds φ k 44 (Service.reconcile env id) := by
  refine .free h.nextLaunch fun launch => .free .get fun w => ?_
  split
  · exact (h.reconcileUnavailable id none).mono (by decide)
  · refine .ite (fun _ => .pure _) fun _ => .bind (n := 2) (m := 42) (.tryCatch (n := 0) (m := 2)
      (.free (h.runtimeFactory _ _) fun _ => .pure _)
      fun _ => .bind (m := 0) (h.reconcileUnavailable _ _) fun _ => .pure _) fun created => ?_
    split
    · exact .pure _
    · exact .free (Weighs.setLive free _ _) fun _ => h.connect _ _ _

theorem Weighs.released (id : String) (g : Nat) (closing : Bool) :
    Adds φ k 2 (Service.released env id g closing) :=
  .free (.modify fun w => (free w _).le) fun _ => .ite (fun _ => h.closeLive) fun _ => .pure _

end Starting

section Steps

variable {env : Env} {w w' : World}

/-- No continuation adds a task that starts a runtime. -/
theorem resume_starts (result : Except Err Json) (frame : Frame) :
    Adds World.starts 0 0 (Service.resume env result frame) := by
  have free : ∀ (w : World) live, World.starts { w with live := live } = w.starts :=
    fun _ _ => rfl
  have none : ∀ {n} {x : M Unit}, Adds World.starts 0 n x → Adds World.starts 0 0 x :=
    fun h w => by simpa using h w
  by_cases plain : frame.starts = false ∧ ∀ id g closing, frame ≠ .released id g closing
  · exact none (weighs_starts.resume result plain.1 plain.2)
  · cases frame with
    | schedule => exact none (weighs_starts.scheduleJob free)
    | reconcile id => exact none (weighs_starts.reconcile free id)
    | released id g closing => exact none (weighs_starts.released free id g closing)
    | _ => exact absurd ⟨rfl, by rintro _ _ _ ⟨⟩⟩ plain

/-- The step runs a continuation. -/
def RunsTask (env : Env) (w w' : World) : Prop := ∃ i, Step env w (.run i) w'

namespace World

/-- Each continuation lowers the rank: first the tasks that start a runtime, then the live
runtimes, then the load. -/
def rank (w : World) : Nat × Nat × Nat := (w.starts, w.held, w.load)

/-- The lexicographic order of the ranks. -/
def Lower (a b : Nat × Nat × Nat) : Prop :=
  Prod.Lex (· < ·) (Prod.Lex (· < ·) (· < ·)) a b

theorem lower_of_starts {v : World} (less : v.starts < w.starts) : Lower v.rank w.rank :=
  .left _ _ less

theorem lower_of_live {v : World} (starts : v.starts ≤ w.starts)
    (less : v.held < w.held) : Lower v.rank w.rank := by
  obtain fewer | same := starts.lt_or_eq
  · exact .left _ _ fewer
  · unfold Lower rank
    rw [same]
    exact .right _ (.left _ _ less)

theorem lower_of_load {v : World} (starts : v.starts ≤ w.starts)
    (held : v.held ≤ w.held) (less : v.load < w.load) : Lower v.rank w.rank := by
  obtain fewer | same := held.lt_or_eq
  · exact lower_of_live starts fewer
  · obtain fewer | same' := starts.lt_or_eq
    · exact .left _ _ fewer
    · unfold Lower rank
      rw [same, same']
      exact .right _ (.right _ less)

end World

theorem World.load_push (w : World) (t : Task) :
    (w.push t).load = w.load + t.frame.weight w.live := by
  simp [World.load, World.push]

/-- The first live runtime is released, and `close` waits for its end. -/
theorem closeLive_load : Adds World.load 1 1 (Service.closeLive env) := by
  intro w
  simp only [Service.closeLive, wp_bind, wp_get]
  cases entries : w.live.entries with
  | nil => exact Nat.le_add_right _ _
  | cons entry rest =>
      obtain ⟨id, g⟩ := entry
      have live : w.live.lookup id = some g := by
        refine AList.mem_lookup_iff.mpr ?_
        rw [entries]
        simp
      have kept : Keeps (fun v : World => v.tasks = w.tasks ∧ v.live = w.live)
          (Service.uncertain env id "Service stopped; reconcile before retrying") := by
        refine .bind (.bind .get fun _ => .lift _) fun _ => .ite (fun _ => .pure _) fun _ => ?_
        refine .bind .get fun v => ?_
        split
        · exact .throw _
        · exact .modify fun _ same => same
      simp only [wp_bind]
      refine wp_mono (kept w ⟨rfl, rfl⟩) ?_ ?_
      · rintro - v ⟨tasks, same⟩
        refine wp_release ?_
        have released : (v.release id g true).load = v.load + 1 := by
          refine (World.load_push _ _).trans ?_
          rw [weighs_load.shut]
          have live' : ((v.detach g).shutOnce g).live = w.live :=
            (World.shutOnce_frame (v.detach g) g).2.1.trans same
          simp [Frame.weight, live', live]
        rw [released, weighs_load.quiet w v tasks same]
      · rintro - v ⟨tasks, same⟩
        rw [weighs_load.quiet w v tasks same]
        exact Nat.le_add_right _ _

/-- The slot is free, or the task that ended had more to spend. -/
def World.Relieved (w : World) (id : String) (g : Nat) (v : World) : Prop :=
  (w.live.lookup id = some g ∧ v.held < w.held) ∨
    (w.live.lookup id ≠ some g ∧ v.held ≤ w.held ∧ v.load ≤ w.load + 1)

theorem released_relieved {id : String} {g : Nat} {closing : Bool} :
    wp (Service.released env id g closing) (fun _ => w.Relieved id g)
      (fun _ => w.Relieved id g) w := by
  have held := weighs_live fun live => live.entries.length
  simp only [Service.released, wp_bind, wp_modify]
  by_cases live : w.live.lookup id = some g
  · simp only [live, if_true]
    have less : (w.live.erase id).entries.length < w.live.entries.length := by
      have listed : id ∈ w.live.keys := AList.mem_keys.mp (AList.lookup_isSome.mp (by simp [live]))
      have length := List.length_erase_of_mem listed
      have pos := List.length_pos_of_mem listed
      rw [← AList.keys_erase] at length
      simp only [AList.keys, List.keys, List.length_map] at length pos
      omega
    rw [wp_ite]
    refine ⟨fun _ => ?_, fun _ => .inl ⟨live, less⟩⟩
    refine wp_mono (held.closeLive { w with live := w.live.erase id }) ?_ ?_ <;>
      exact fun _ v le => .inl ⟨live, (le.trans (by simp)).trans_lt less⟩
  · simp only [live, if_false]
    rw [wp_ite]
    refine ⟨fun _ => ?_, fun _ => .inr ⟨live, le_rfl, Nat.le_add_right _ _⟩⟩
    refine wp_mono (wp_and (held.closeLive w) (closeLive_load w)) ?_ ?_ <;>
      exact fun _ v both => .inr ⟨live, both.1.trans (by simp [World.held]), both.2⟩

/-- Each continuation lowers the rank. -/
theorem RunsTask.lower (runs : RunsTask env w w') : World.Lower w'.rank w.rank := by
  obtain ⟨i, taken⟩ := runs
  obtain ⟨v, done, rfl⟩ := Option.map_eq_some_iff.mp taken
  obtain ⟨frame, result, found, rfl⟩ := resumeTask_eq_some done
  have starts : ((Service.resume env result frame).after (w.take i)).starts ≤ (w.take i).starts +
    0 * 0 := (resume_starts result frame).after _
  have before := World.starts_take found
  have load := World.load_take found
  simp only [zero_mul, add_zero] at starts
  suffices lower : World.Lower ((Service.resume env result frame).after (w.take i)).rank w.rank
    from lower
  by_cases starting : frame.starts = true
  · refine World.lower_of_starts ?_
    simp only [starting, if_true] at before
    omega
  · have fewer : ((Service.resume env result frame).after (w.take i)).starts ≤ w.starts := by
      omega
    by_cases kept : ∀ id g closing, frame ≠ .released id g closing
    · have plain : frame.starts = false := by simpa using starting
      have held : ((Service.resume env result frame).after (w.take i)).held ≤ w.held +
          0 * (frame.cost - 1) :=
        ((weighs_live fun live => live.entries.length).resume result plain kept).after (w.take i)
      have added : ((Service.resume env result frame).after (w.take i)).load ≤ (w.take i).load +
          1 * (frame.cost - 1) := (weighs_load.resume result plain kept).after _
      have paid : frame.weight w.live = frame.cost ∧ 0 < frame.cost := by
        cases frame with
        | released id g closing => exact absurd rfl (kept id g closing)
        | schedule => cases plain
        | reconcile id => cases plain
        | _ => exact ⟨rfl, Nat.succ_pos _⟩
      refine World.lower_of_load fewer (by omega) ?_
      dsimp only at load
      omega
    · push Not at kept
      obtain ⟨id, g, closing, rfl⟩ := kept
      have relieved : (w.take i).Relieved id g
          ((Service.released env id g closing).after (w.take i)) := after_of_wp released_relieved
      obtain ⟨-, less⟩ | ⟨gone, held, le⟩ := relieved
      · exact World.lower_of_live fewer less
      · refine World.lower_of_load fewer held ?_
        have weight : (Frame.released id g closing).weight w.live = 2 := if_neg gone
        dsimp only at load
        rw [weight] at load
        exact lt_of_le_of_lt le (by omega)

theorem lower_wellFounded : WellFounded World.Lower :=
  WellFounded.prod_lex wellFounded_lt (WellFounded.prod_lex wellFounded_lt wellFounded_lt)

/-- A state in which no continuation can be run has none left. -/
theorem idle_of_final (final : ∀ v, ¬RunsTask env w v) : w.Idle := by
  intro t member
  by_contra ready
  obtain ⟨i, found⟩ := List.mem_iff_getElem?.mp member
  rcases t with ⟨frame, wait⟩
  cases wait with
  | ready result =>
      refine final ((Service.resume env result frame).after (w.take i)).tick ⟨i, ?_⟩
      simp [Step, step, perform, resumeTask, found, World.take]
  | reply g n => exact ready rfl
  | exit g => exact ready rfl

/-- The continuations run out: whatever the state and in whatever order they are taken, only
finitely many continuations can be run one after the other, and then none is left. -/
theorem continuations_run_out (env : Env) (w : World) :
    Acc (fun v u => RunsTask env u v) w ∧
    (∃ v, Relation.ReflTransGen (RunsTask env) w v ∧ v.Idle) ∧
    ∀ v, Relation.ReflTransGen (RunsTask env) w v → (∀ u, ¬RunsTask env v u) → v.Idle := by
  have bounded : Acc (fun v u => RunsTask env u v) w := by
    refine Subrelation.accessible (r := InvImage World.Lower World.rank) (fun runs => runs.lower) ?_
    exact (InvImage.wf World.rank lower_wellFounded).apply w
  refine ⟨bounded, ?_, fun v _ => idle_of_final⟩
  obtain ⟨v, runs, final⟩ := exists_final bounded
  exact ⟨v, runs, idle_of_final final⟩

end Steps

end Mathmodel
