import Mathmodel.Backend.Views
import Mathmodel.Backend.Script

/-!
# The execution slot

The service executes one run at a time. The slot is held in three places that
change at different moments: the durable status of a run, the map of live
runtimes, and the child processes. They agree in every reachable state, so a new
runtime never meets an earlier one that still runs.
-/

namespace Mathmodel

namespace World

/-- The live runtime is the newest one. -/
def LiveNewest (w : World) : Prop := ∀ id g, w.live.lookup id = some g → g + 1 = w.created

theorem LiveNewest.effect {env : Env} {cause : Cause} {w w' : World} (h : w.LiveNewest)
    (effect : Effect env cause w w') : w'.LiveNewest := by
  intro id g found
  obtain ⟨live, created, -⟩ | ⟨-, idle, created, -, -, other, live⟩ |
    ⟨-, created, ⟨live, -⟩ | ⟨-, other, live⟩⟩ := effect.live
  · rw [live] at found
    rw [created]
    exact h id g found
  · rw [live] at found
    rw [created]
    by_cases same : id = other
    · subst same
      rw [AList.lookup_insert, Option.some.injEq] at found
      rw [found]
    · rw [AList.lookup_insert_ne same] at found
      exact absurd found (Wired.of_live_nil idle)
  · rw [live] at found
    simp at found
  · rw [live] at found
    rw [created]
    by_cases same : id = other
    · subst same
      simp at found
    · rw [AList.lookup_erase_ne same] at found
      exact h id g found

theorem LiveNewest.reached {env : Env} {w : World} (run : Reaches (Step env) .init w) :
    w.LiveNewest := by
  refine run.keeps ?_ (fun _ _ _ h => h) (fun _ _ _ _ effect h => h.effect effect) (fun _ h => h)
  intro id g found
  simp [World.init] at found

/-- At most one run holds the slot, at most one runtime is live, a queued run
waits for none, and every runtime but the newest of this lifetime has ended. -/
structure SingleSlot (w : World) : Prop where
  occupied : ∀ id r id' r', w.db.runs.lookup id = some r → w.db.runs.lookup id' = some r' →
    r.status.isOccupied = true → r'.status.isOccupied = true → id = id'
  live : w.live.entries.length ≤ 1
  queued : ∀ id r, w.db.runs.lookup id = some r → r.status = .queued → w.live.entries = []
  exited : ∀ g g', w.lifetime ≤ g → g < g' → g' < w.created → (w.codex g).process ≠ .running

theorem Wired.live_length {w : World} (h : w.Wired) : w.live.entries.length ≤ 1 := by
  match entries : w.live.entries with
  | [] => simp
  | [_] => simp
  | a :: b :: rest =>
      have inLive : ∀ e ∈ w.live.entries, w.live.lookup e.1 = some e.2 := fun e member =>
        AList.mem_lookup_iff.mpr member
      have same := h.single a.1 a.2 b.1 b.2 (inLive a (by simp [entries]))
        (inLive b (by simp [entries]))
      have distinct := w.live.nodupKeys
      rw [entries] at distinct
      simp [List.nodupKeys_cons, same] at distinct

/-- A section that starts with a live runtime creates none. -/
theorem created_of_live {env : Env} {cause : Cause} {w w' : World} {id : String} {g : Nat}
    (effects : Relation.ReflTransGen (Effect env cause) w w') (live : w.live.lookup id = some g) :
    w'.created = w.created := by
  have kept : w'.created = w.created ∧ (cause.Opens → w'.live.lookup id = some g) := by
    induction effects with
    | refl => exact ⟨rfl, fun _ => live⟩
    | tail _ effect ih =>
        obtain ⟨live', created, -⟩ | ⟨opens, idle, -⟩ | ⟨closed, created, -⟩ := effect.live
        · rw [created, live']
          exact ih
        · exact absurd (ih.2 opens) (Wired.of_live_nil idle)
        · exact ⟨created.trans ih.1, fun opens => absurd opens closed⟩
  exact kept.1

/-- A runtime is created only when no process of this lifetime runs. -/
theorem Sound.idle_of_created {env : Env} {w w' : World} {a : Action} (h : w.Sound env)
    (taken : Step env w a w') (more : w.created < w'.created) (g : Nat) :
    (w.codex g).process ≠ .running := by
  intro running
  obtain ⟨id, live⟩ := h.wired.running g running
  obtain ⟨cause, w₀, w₁, begins, course, rfl⟩ := step_course h taken
  have begin : w₀.created = w.created ∧ w₀.live = w.live := by
    cases begins <;> exact ⟨rfl, rfl⟩
  have same := created_of_live course.effects (by rw [begin.2]; exact live)
  simp only [World.tick] at more
  omega

/-- The slot is never held twice, and a runtime is created only after the
processes of all earlier runtimes of this lifetime have ended. -/
theorem single_execution_slot {env : Env} {w : World} (run : Reaches (Step env) .init w) :
    w.SingleSlot ∧ ∀ a w', Step env w a w' → w.created < w'.created →
      ∀ g, (w.codex g).process ≠ .running := by
  have sound := Sound.reached run
  refine ⟨⟨?_, sound.wired.live_length, sound.wired.idle, ?_⟩, ?_⟩
  · intro id r id' r' found found' occupied occupied'
    exact sound.db.slot id r id' r' found found' occupied occupied'
  · intro g g' _ later created running
    obtain ⟨id, live⟩ := sound.wired.running g running
    have newest := LiveNewest.reached run id g live
    omega
  · intro a w' taken more
    exact sound.idle_of_created taken more

set_option maxRecDepth 100000 in
/-- In a script that has started a run, one runtime is live and running. -/
theorem single_execution_slot_started : ∃ w, Reaches (Step (Script.env [])) .init w ∧
    (w.live.lookup "uu" = some 0 ∧ (w.codex 0).process = .running) ∧
    w.SingleSlot ∧ ∀ a w', Step (Script.env []) w a w' → w.created < w'.created →
      ∀ g, (w.codex g).process ≠ .running := by
  obtain ⟨w, run, live⟩ := Script.reaches [] Script.started
    (fun w => w.live.lookup "uu" = some 0 ∧ (w.codex 0).process = .running) (by decide +kernel)
  exact ⟨w, run.ofNode, of_decide_eq_true live, single_execution_slot run.ofNode⟩

end World

end Mathmodel
