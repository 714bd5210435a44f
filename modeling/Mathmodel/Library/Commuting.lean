import Mathmodel.Library.Program

/-!
# Sections that do not look at a part of the state

A section that never reads what `f` changes gives the same outcome before and after
`f`, and commutes with it. `Blind f I` is that property for states with an invariant
that the section keeps. It is closed under sequencing and branching; a section that
reads the whole state is blind if what it does with it does not depend on that part.
-/

namespace Mathmodel

namespace Program

variable {ε σ α β : Type}

/-- The outcome is the same, and `f` may be applied before or after the section, which
keeps `I`. -/
def Blind (f : σ → σ) (I : σ → Prop) (x : Program ε σ α) : Prop :=
  ∀ s, I s → x.exec (f s) = ((x.exec s).1, f (x.exec s).2) ∧ I (x.exec s).2

namespace Blind

variable {f : σ → σ} {I : σ → Prop}

theorem pure (a : α) : Blind f I (Pure.pure a : Program ε σ α) := fun _ h => ⟨rfl, h⟩

theorem throw (e : ε) : Blind f I (throw e : Program ε σ α) := fun _ h => ⟨rfl, h⟩

theorem lift (x : Except ε α) : Blind f I (Program.lift x : Program ε σ α) := by
  intro s h
  cases x <;> exact ⟨rfl, h⟩

theorem modify {g : σ → σ} (commute : ∀ s, g (f s) = f (g s)) (keeps : ∀ s, I s → I (g s)) :
    Blind f I (modify g : Program ε σ PUnit) := by
  intro s h
  refine ⟨?_, keeps s h⟩
  change (_, g (f s)) = (_, f (g s))
  rw [commute]
  rfl

theorem bind {x : Program ε σ β} {next : β → Program ε σ α} (hx : Blind f I x)
    (hnext : ∀ b, Blind f I (next b)) : Blind f I (x >>= next) := by
  intro s h
  obtain ⟨same, kept⟩ := hx s h
  rw [exec_bind, exec_bind, same]
  revert kept
  rcases x.exec s with ⟨r, t⟩
  intro kept
  cases r with
  | ok b => exact hnext b t kept
  | error e => exact ⟨rfl, kept⟩

/-- What is done with the state does not depend on the part that `f` changes. -/
theorem get_bind {next : σ → Program ε σ α} (same : ∀ s, next (f s) = next s)
    (hnext : ∀ s, Blind f I (next s)) : Blind f I (get >>= next) := by
  intro s h
  change (next (f s)).exec (f s) = (((next s).exec s).1, f ((next s).exec s).2) ∧
    I ((next s).exec s).2
  rw [same]
  exact hnext s s h

theorem ite {c : Prop} [Decidable c] {x y : Program ε σ α} (hx : Blind f I x)
    (hy : Blind f I y) : Blind f I (if c then x else y) := by
  split
  · exact hx
  · exact hy

end Blind

end Program

end Mathmodel
