import Mathmodel.Library.Program

/-!
# Bounded growth of a potential

`Adds φ k n x` says that the section `x` adds at most `n` units of size `k` to the
potential `φ`, however it ends. The bounds of the parts of a section add up; with units of
size zero the same rules show that a potential does not grow at all.

A potential that every step lowers bounds the runs of a system: `exists_final` is the
state in which such a run ends.
-/

namespace Mathmodel

namespace Program

variable {ε σ α β : Type}

/-- The section adds at most `n` units of size `k` to the potential. -/
def Adds (φ : σ → Nat) (k n : Nat) (x : Program ε σ α) : Prop :=
  ∀ s, wp x (fun _ t => φ t ≤ φ s + k * n) (fun _ t => φ t ≤ φ s + k * n) s

namespace Adds

variable {φ : σ → Nat} {k n m : Nat}

theorem after {x : Program ε σ α} (h : Adds φ k n x) (s : σ) : φ (x.after s) ≤ φ s + k * n :=
  after_of_wp (P := fun t => φ t ≤ φ s + k * n) (h s)

theorem pure (a : α) : Adds φ k n (Pure.pure a : Program ε σ α) := fun _ => Nat.le_add_right _ _

theorem throw (e : ε) : Adds φ k n (throw e : Program ε σ α) := fun _ => Nat.le_add_right _ _

theorem get : Adds φ k n (get : Program ε σ σ) := fun _ => Nat.le_add_right _ _

theorem lift (x : Except ε α) : Adds φ k n (Program.lift x : Program ε σ α) := by
  intro s
  cases x <;> exact Nat.le_add_right _ _

theorem modify {f : σ → σ} (h : ∀ s, φ (f s) ≤ φ s + k * n) :
    Adds φ k n (modify f : Program ε σ PUnit) := h

theorem mono {x : Program ε σ α} (h : Adds φ k n x) (le : n ≤ m) : Adds φ k m x := by
  intro s
  have more := Nat.mul_le_mul_left k le
  refine wp_mono (h s) (fun _ t bound => ?_) (fun _ t bound => ?_) <;> omega

theorem bind {x : Program ε σ β} {f : β → Program ε σ α} (hx : Adds φ k n x)
    (hf : ∀ b, Adds φ k m (f b)) : Adds φ k (n + m) (x >>= f) := by
  intro s
  rw [wp_bind]
  have units := Nat.mul_add k n m
  refine wp_mono (hx s) (fun b t bound => ?_) (fun _ t bound => by omega)
  exact wp_mono (hf b t) (fun _ u bound' => by omega) (fun _ u bound' => by omega)

theorem tryCatch {x : Program ε σ α} {handler : ε → Program ε σ α} (hx : Adds φ k n x)
    (hh : ∀ e, Adds φ k m (handler e)) : Adds φ k (n + m) (tryCatch x handler) := by
  intro s
  rw [wp_tryCatch]
  have units := Nat.mul_add k n m
  refine wp_mono (hx s) (fun _ t bound => by omega) (fun e t bound => ?_)
  exact wp_mono (hh e t) (fun _ u bound' => by omega) (fun _ u bound' => by omega)

theorem ite {c : Prop} [Decidable c] {x y : Program ε σ α} (hx : c → Adds φ k n x)
    (hy : ¬c → Adds φ k n y) : Adds φ k n (if c then x else y) := by
  by_cases h : c
  · simpa [h] using hx h
  · simpa [h] using hy h

/-- A section that adds nothing before another one. -/
theorem free {x : Program ε σ β} {f : β → Program ε σ α} (hx : Adds φ k 0 x)
    (hf : ∀ b, Adds φ k n (f b)) : Adds φ k n (x >>= f) :=
  (hx.bind hf).mono (Nat.zero_add n).le

end Adds

end Program

/-- A run that cannot go on for ever ends in a state without a next one. -/
theorem exists_final {σ : Type} {step : σ → σ → Prop} {s : σ}
    (bounded : Acc (fun t s => step s t) s) :
    ∃ t, Relation.ReflTransGen step s t ∧ ∀ u, ¬step t u := by
  induction bounded with
  | intro s _ ih =>
      by_cases more : ∃ t, step s t
      · obtain ⟨t, first⟩ := more
        obtain ⟨u, rest, final⟩ := ih t first
        exact ⟨u, .head first rest, final⟩
      · exact ⟨s, .refl, fun u next => more ⟨u, next⟩⟩

end Mathmodel
