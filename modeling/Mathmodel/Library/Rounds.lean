import Mathlib

/-!
# Loops of a bounded number of rounds

A loop that performs numbered rounds on a state until a round leaves it with a result,
or until the rounds are used up. `entered` is the state in which a round begins; what
the loop gives is what the first round that leaves it gives.
-/

namespace Mathmodel

variable {σ ρ : Type}

/-- At most `n` rounds, numbered from `round` on. A round leaves the loop with `error`. -/
def loop (body : Nat → σ → Except ρ σ) : Nat → Nat → σ → Except ρ σ
  | 0, _, s => .ok s
  | n + 1, round, s =>
      match body round s with
      | .error result => .error result
      | .ok t => loop body n (round + 1) t

/-- The state in which the round `k` rounds after `round` begins, if there is one. -/
def entered (body : Nat → σ → Except ρ σ) : Nat → Nat → σ → Option σ
  | 0, _, s => some s
  | k + 1, round, s =>
      match body round s with
      | .error _ => none
      | .ok t => entered body k (round + 1) t

variable {body : Nat → σ → Except ρ σ}

/-- The result of a loop that was left comes from one of its rounds, and the round that
leaves the loop gives its result. -/
theorem loop_eq_error {n round : Nat} {s : σ} {result : ρ} :
    loop body n round s = .error result ↔
      ∃ k < n, ∃ t, entered body k round s = some t ∧ body (round + k) t = .error result := by
  induction n generalizing round s with
  | zero => exact ⟨nofun, fun ⟨_, h, _⟩ => absurd h (Nat.not_lt_zero _)⟩
  | succ n ih =>
      rw [loop]
      cases first : body round s with
      | error r =>
          constructor
          · intro left
            exact ⟨0, Nat.succ_pos n, s, rfl, first.trans (congrArg Except.error
              (Except.error.inj left))⟩
          · rintro ⟨k, -, t, begins, leaves⟩
            cases k with
            | zero =>
                cases begins
                exact first.symm.trans leaves
            | succ k =>
                rw [entered, first] at begins
                cases begins
      | ok t =>
          refine (@ih (round + 1) t).trans ⟨?_, ?_⟩
          · rintro ⟨k, less, u, begins, leaves⟩
            refine ⟨k + 1, Nat.succ_lt_succ less, u, ?_, ?_⟩
            · rw [entered, first]
              exact begins
            · rwa [Nat.add_right_comm] at leaves
          · rintro ⟨k, less, u, begins, leaves⟩
            cases k with
            | zero =>
                cases begins
                rw [Nat.add_zero, first] at leaves
                cases leaves
            | succ k =>
                rw [entered, first] at begins
                refine ⟨k, Nat.lt_of_succ_lt_succ less, u, begins, ?_⟩
                rwa [Nat.add_right_comm]

end Mathmodel
