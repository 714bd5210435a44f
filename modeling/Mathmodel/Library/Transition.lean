import Mathlib

/-!
# Runs of a transition system

A system is a relation between a state, an action and a next state. `Reaches`
forgets the actions of a finite run; `invariant` is the induction over it. The
side condition of a run is part of the relation, so a restricted system is the
same relation with one more conjunct, and `mono` forgets the restriction.
A step that can be computed is run by `play`.
-/

namespace Mathmodel

variable {σ α : Type}

/-- Some finite run of the system leads from one state to the other. -/
def Reaches (step : σ → α → σ → Prop) : σ → σ → Prop :=
  Relation.ReflTransGen fun s t => ∃ a, step s a t

namespace Reaches

variable {step step' : σ → α → σ → Prop} {s t u : σ}

theorem refl (s : σ) : Reaches step s s := Relation.ReflTransGen.refl

theorem trans (h : Reaches step s t) (h' : Reaches step t u) : Reaches step s u :=
  Relation.ReflTransGen.trans h h'

theorem single {a : α} (h : step s a t) : Reaches step s t :=
  Relation.ReflTransGen.single ⟨a, h⟩

theorem tail {a : α} (h : Reaches step s t) (h' : step t a u) : Reaches step s u :=
  h.trans (single h')

theorem mono (sub : ∀ s a t, step s a t → step' s a t) (h : Reaches step s t) :
    Reaches step' s t :=
  Relation.ReflTransGen.mono (fun _ _ ⟨a, ha⟩ => ⟨a, sub _ _ _ ha⟩) _ _ h

/-- What holds at the start and is kept by every step holds at the end. The step
may also use that its source state is reached. -/
theorem invariant {I : σ → Prop} (h : Reaches step s t) (start : I s)
    (keep : ∀ u a v, Reaches step s u → I u → step u a v → I v) : I t := by
  induction h with
  | refl => exact start
  | tail run last ih =>
      obtain ⟨a, ha⟩ := last
      exact keep _ a _ run ih ha

end Reaches

/-- Perform the actions one after the other, as long as each is possible. -/
def play (next : σ → α → Option σ) : σ → List α → Option σ
  | s, [] => some s
  | s, a :: rest => (next s a).bind (play next · rest)

/-- A system with an executable step reaches what some sequence of actions
computes. -/
theorem reaches_iff_play {next : σ → α → Option σ} {s t : σ} :
    Reaches (fun s a t => next s a = some t) s t ↔ ∃ actions, play next s actions = some t := by
  constructor
  · intro h
    induction h using Relation.ReflTransGen.head_induction_on with
    | refl => exact ⟨[], rfl⟩
    | head first _ ih =>
        obtain ⟨a, first⟩ := first
        obtain ⟨actions, rest⟩ := ih
        exact ⟨a :: actions, by rw [play, first]; exact rest⟩
  · rintro ⟨actions, done⟩
    induction actions generalizing s with
    | nil =>
        cases done
        exact Reaches.refl _
    | cons a rest ih =>
        obtain ⟨u, first, done⟩ := Option.bind_eq_some_iff.mp done
        exact (Relation.ReflTransGen.single ⟨a, first⟩).trans (ih done)

end Mathmodel
