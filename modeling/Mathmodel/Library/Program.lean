import Mathlib

/-!
# Programs with state and exceptions

A synchronous section of a program changes a state and may throw; what it
changed before the throw stays changed. `Program` is that effect, and its
`wp` is the weakest precondition with one postcondition for a normal return
and one for a throw.

`Keeps I program` says that the section preserves `I` however it ends. It is
closed under sequencing, branching and handlers, so an invariant that every
primitive keeps needs no reasoning about control flow. `wp` is for the places
where the order of two primitives matters.
-/

namespace Mathmodel

/-- A computation on `σ` that may throw `ε`; the state survives the throw. -/
abbrev Program (ε σ : Type) (α : Type) := ExceptT ε (StateM σ) α

namespace Program

variable {ε σ α β : Type}

/-- The outcome of running a section, with the state it leaves. -/
def exec (x : Program ε σ α) (s : σ) : Except ε α × σ := x.run.run s

/-- State after the section, whether it returned or threw. -/
def after (x : Program ε σ α) (s : σ) : σ := (x.exec s).2

/-- Weakest precondition: `post` after a return, `failed` after a throw. -/
def wp (x : Program ε σ α) (post : α → σ → Prop) (failed : ε → σ → Prop) (s : σ) : Prop :=
  match x.exec s with
  | (.ok a, t) => post a t
  | (.error e, t) => failed e t

/-- Throw what a pure computation throws. -/
def lift (x : Except ε α) : Program ε σ α :=
  match x with
  | .ok a => pure a
  | .error e => throw e

section Rules

variable {post : α → σ → Prop} {failed : ε → σ → Prop} {s : σ}

@[simp] theorem wp_pure (a : α) :
    wp (pure a : Program ε σ α) post failed s ↔ post a s := Iff.rfl

@[simp] theorem wp_throw (e : ε) :
    wp (throw e : Program ε σ α) post failed s ↔ failed e s := Iff.rfl

theorem exec_bind (x : Program ε σ β) (f : β → Program ε σ α) :
    (x >>= f).exec s =
      match x.exec s with
      | (.ok b, t) => (f b).exec t
      | (.error e, t) => (.error e, t) := by
  simp only [exec, ExceptT.run_bind, StateT.run_bind]
  rcases x.run.run s with ⟨r, t⟩
  cases r <;> rfl

@[simp] theorem wp_bind (x : Program ε σ β) (f : β → Program ε σ α) :
    wp (x >>= f) post failed s ↔ wp x (fun b => wp (f b) post failed) failed s := by
  simp only [wp, exec_bind]
  rcases x.exec s with ⟨r, t⟩
  cases r <;> rfl

/-- The outcome decides the weakest precondition. -/
theorem wp_of_exec_ok {x : Program ε σ α} {a : α} {t : σ} (done : x.exec s = (.ok a, t)) :
    wp x post failed s ↔ post a t := by
  simp only [wp, done]

theorem wp_of_exec_error {x : Program ε σ α} {e : ε} {t : σ} (thrown : x.exec s = (.error e, t)) :
    wp x post failed s ↔ failed e t := by
  simp only [wp, thrown]

@[simp] theorem wp_get (post : σ → σ → Prop) :
    wp (get : Program ε σ σ) post failed s ↔ post s s := Iff.rfl

@[simp] theorem wp_modify (f : σ → σ) (post : PUnit → σ → Prop) :
    wp (modify f : Program ε σ PUnit) post failed s ↔ post ⟨⟩ (f s) := Iff.rfl

@[simp] theorem wp_lift_ok (a : α) :
    wp (lift (.ok a) : Program ε σ α) post failed s ↔ post a s := Iff.rfl

@[simp] theorem wp_lift_error (e : ε) :
    wp (lift (.error e) : Program ε σ α) post failed s ↔ failed e s := Iff.rfl

theorem wp_lift (x : Except ε α) :
    wp (lift x : Program ε σ α) post failed s ↔
      match x with
      | .ok a => post a s
      | .error e => failed e s := by
  cases x <;> rfl

@[simp] theorem wp_tryCatch (x : Program ε σ α) (handler : ε → Program ε σ α) :
    wp (tryCatch x handler) post failed s ↔
      wp x post (fun e => wp (handler e) post failed) s := by
  have run : (tryCatch x handler : Program ε σ α).exec s =
      match x.exec s with
      | (.ok b, t) => (.ok b, t)
      | (.error e, t) => (handler e).exec t := by
    simp only [exec, tryCatch, tryCatchThe, MonadExceptOf.tryCatch, ExceptT.tryCatch,
      ExceptT.mk, ExceptT.run, StateT.run_bind]
    rcases StateT.run x s with ⟨r, t⟩
    cases r <;> rfl
  simp only [wp, run]
  rcases x.exec s with ⟨r, t⟩
  cases r <;> rfl

theorem wp_ite (c : Prop) [Decidable c] (x y : Program ε σ α) :
    wp (if c then x else y) post failed s ↔
      (c → wp x post failed s) ∧ (¬c → wp y post failed s) := by
  by_cases h : c <;> simp [h]

theorem wp_mono {x : Program ε σ α} {post' : α → σ → Prop} {failed' : ε → σ → Prop}
    (h : wp x post failed s) (ret : ∀ a t, post a t → post' a t)
    (thrown : ∀ e t, failed e t → failed' e t) : wp x post' failed' s := by
  unfold wp at *
  revert h
  rcases x.exec s with ⟨r, t⟩
  intro h
  cases r with
  | ok a => exact ret a t h
  | error e => exact thrown e t h

theorem wp_and {x : Program ε σ α} {post' : α → σ → Prop} {failed' : ε → σ → Prop}
    (h : wp x post failed s) (h' : wp x post' failed' s) :
    wp x (fun a t => post a t ∧ post' a t) (fun e t => failed e t ∧ failed' e t) s := by
  unfold wp at *
  revert h h'
  rcases x.exec s with ⟨r, t⟩
  intro h h'
  cases r <;> exact ⟨h, h'⟩

/-- A postcondition that ignores the outcome speaks about the state left behind. -/
theorem after_of_wp {x : Program ε σ α} {P : σ → Prop}
    (h : wp x (fun _ => P) (fun _ => P) s) : P (x.after s) := by
  revert h
  unfold wp after
  rcases x.exec s with ⟨r, t⟩
  intro h
  cases r <;> exact h

/-- A section that cannot throw returns in the state it leaves. -/
theorem exec_of_wp {x : Program ε σ PUnit} {post : PUnit → σ → Prop}
    (h : wp x post (fun _ _ => False) s) :
    ∃ t, x.exec s = (.ok ⟨⟩, t) ∧ post ⟨⟩ t := by
  revert h
  unfold wp
  rcases x.exec s with ⟨r, t⟩
  cases r with
  | ok a => exact fun h => ⟨t, rfl, h⟩
  | error e => exact False.elim

theorem wp_of_after {x : Program ε σ α} {P : σ → Prop}
    (h : P (x.after s)) : wp x (fun _ => P) (fun _ => P) s := by
  revert h
  unfold wp after
  rcases x.exec s with ⟨r, t⟩
  intro h
  cases r <;> exact h

end Rules

/-- The section preserves `I`, whether it returns or throws. -/
def Keeps (I : σ → Prop) (x : Program ε σ α) : Prop :=
  ∀ s, I s → wp x (fun _ => I) (fun _ => I) s

namespace Keeps

variable {I J : σ → Prop}

theorem after {x : Program ε σ α} (h : Keeps I x) {s : σ} (hs : I s) : I (x.after s) :=
  after_of_wp (h s hs)

theorem pure (a : α) : Keeps I (Pure.pure a : Program ε σ α) := fun _ hs => hs

theorem throw (e : ε) : Keeps I (throw e : Program ε σ α) := fun _ hs => hs

theorem get : Keeps I (get : Program ε σ σ) := fun _ hs => hs

theorem lift (x : Except ε α) : Keeps I (Program.lift x : Program ε σ α) := by
  intro s hs
  cases x <;> exact hs

theorem modify {f : σ → σ} (h : ∀ s, I s → I (f s)) :
    Keeps I (modify f : Program ε σ PUnit) := h

theorem bind {x : Program ε σ β} {f : β → Program ε σ α} (hx : Keeps I x)
    (hf : ∀ b, Keeps I (f b)) : Keeps I (x >>= f) := by
  intro s hs
  rw [wp_bind]
  exact wp_mono (hx s hs) (fun b t ht => hf b t ht) (fun _ _ ht => ht)

theorem tryCatch {x : Program ε σ α} {handler : ε → Program ε σ α} (hx : Keeps I x)
    (hh : ∀ e, Keeps I (handler e)) : Keeps I (tryCatch x handler) := by
  intro s hs
  rw [wp_tryCatch]
  exact wp_mono (hx s hs) (fun _ _ ht => ht) (fun e t ht => hh e t ht)

theorem ite {c : Prop} [Decidable c] {x y : Program ε σ α} (hx : c → Keeps I x)
    (hy : ¬c → Keeps I y) : Keeps I (if c then x else y) := by
  by_cases h : c
  · simpa [h] using hx h
  · simpa [h] using hy h

end Keeps

end Program

end Mathmodel
