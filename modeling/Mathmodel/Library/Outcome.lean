import Mathmodel.Library.Dialogue

/-!
# How a dialogue ends

`Ends serve x s r t` is the big-step view of a dialogue: started in `s`, it can
end with the result `r` in `t`. It is inverted at each `bind`, so what a program
that returned must have seen is read off its text.

`answered` runs a dialogue against fixed answers. A dialogue that changes nothing
and is told the truth ends with what `answered` computes.
-/

namespace Mathmodel

/-- A computation that may raise succeeds if its parts do. -/
theorem Except.bind_eq_ok {ε α β : Type} {x : Except ε α} {f : α → Except ε β} {b : β} :
    x >>= f = .ok b ↔ ∃ a, x = .ok a ∧ f a = .ok b := by
  cases x with
  | ok a =>
      constructor
      · exact fun h => ⟨a, rfl, h⟩
      · rintro ⟨_, ⟨⟩, h⟩
        exact h
  | error e =>
      constructor
      · exact nofun
      · rintro ⟨_, ⟨⟩, _⟩

theorem Except.map_eq_ok {ε α β : Type} {x : Except ε α} {f : α → β} {b : β} :
    x.map f = .ok b ↔ ∃ a, x = .ok a ∧ f a = b := by
  cases x with
  | ok a =>
      constructor
      · exact fun h => ⟨a, rfl, Except.ok.inj h⟩
      · rintro ⟨_, ⟨⟩, rfl⟩
        rfl
  | error e => exact ⟨nofun, fun ⟨_, h, _⟩ => nomatch h⟩

theorem Except.isOk_iff {ε α : Type} {x : Except ε α} : x.isOk = true ↔ ∃ a, x = .ok a := by
  cases x with
  | ok a => exact ⟨fun _ => ⟨a, rfl⟩, fun _ => rfl⟩
  | error e => exact ⟨nofun, nofun⟩

/-- A loop over computations that may raise succeeds if each of them does. -/
theorem Except.mapM_eq_ok {ε α β : Type} {f : α → Except ε β} {l : List α} {bs : List β} :
    l.mapM f = .ok bs ↔ List.Forall₂ (fun a b => f a = .ok b) l bs := by
  induction l generalizing bs with
  | nil =>
      rw [List.mapM_nil, List.forall₂_nil_left_iff]
      exact ⟨fun h => (Except.ok.inj h).symm, fun h => h ▸ rfl⟩
  | cons a rest ih =>
      rw [List.mapM_cons, bind_eq_ok, List.forall₂_cons_left_iff]
      constructor
      · rintro ⟨b, first, others⟩
        obtain ⟨more, second, done⟩ := bind_eq_ok.mp others
        exact ⟨b, more, first, ih.mp second, (Except.ok.inj done).symm⟩
      · rintro ⟨b, more, first, second, rfl⟩
        exact ⟨b, first, bind_eq_ok.mpr ⟨more, ih.mpr second, rfl⟩⟩

namespace Dialogue

variable {Q : Type} {A : Q → Type} {ε α β σ : Type}

/-- The dialogue, started in a state, can end with a result in another. -/
inductive Ends (serve : σ → (q : Q) → Except ε (A q) → σ → Prop) :
    Dialogue Q A ε α → σ → Except ε α → σ → Prop where
  | ret (a : α) (s : σ) : Ends serve (.ret a) s (.ok a) s
  | raise (e : ε) (s : σ) : Ends serve (.raise e) s (.error e) s
  | ask {q : Q} {next : Except ε (A q) → Dialogue Q A ε α} {s t u : σ} {r : Except ε (A q)}
      {result : Except ε α} (served : serve s q r t) (rest : Ends serve (next r) t result u) :
      Ends serve (.ask q next) s result u

section Ends

variable {serve : σ → (q : Q) → Except ε (A q) → σ → Prop} {s t u : σ}

/-- What a contract promises is the case at the end. -/
theorem Holds.ends {G : σ → σ → Prop} {post : α → σ → Prop} {failed : ε → σ → Prop}
    {x : Dialogue Q A ε α} {result : Except ε α} (h : Holds serve G post failed x s)
    (ends : Ends serve x s result t) :
    (∀ a, result = .ok a → post a t) ∧ ∀ e, result = .error e → failed e t := by
  induction ends with
  | ret a s =>
      refine ⟨?_, nofun⟩
      rintro _ ⟨⟩
      exact h
  | raise e s =>
      refine ⟨nofun, ?_⟩
      rintro _ ⟨⟩
      exact h
  | ask served _ ih => exact ih (h _ _ served).2

theorem ends_pure {a b : α} (ends : Ends serve (pure a : Dialogue Q A ε α) s (.ok b) t) :
    b = a ∧ t = s := by
  cases ends with
  | ret => exact ⟨rfl, rfl⟩

theorem ends_ofExcept {x : Except ε α} {result : Except ε α}
    (ends : Ends serve (ofExcept x : Dialogue Q A ε α) s result t) : result = x ∧ t = s := by
  cases x with
  | ok a =>
      cases ends with
      | ret => exact ⟨rfl, rfl⟩
  | error e =>
      cases ends with
      | raise => exact ⟨rfl, rfl⟩

theorem ends_request {q : Q} {result : Except ε (A q)}
    (ends : Ends serve (request q : Dialogue Q A ε (A q)) s result t) : serve s q result t := by
  cases ends with
  | @ask _ _ _ _ _ r _ served rest =>
      cases r with
      | ok a =>
          cases rest with
          | ret => exact served
      | error e =>
          cases rest with
          | raise => exact served

/-- A sequence that ends has gone through its first part, or has failed there. -/
theorem ends_bind {x : Dialogue Q A ε β} {f : β → Dialogue Q A ε α} {result : Except ε α}
    (ends : Ends serve (x >>= f) s result u) :
    (∃ b t, Ends serve x s (.ok b) t ∧ Ends serve (f b) t result u) ∨
    ∃ e, result = .error e ∧ Ends serve x s (.error e) u := by
  change Ends serve (x.bind f) s result u at ends
  induction x generalizing s with
  | ret b => exact .inl ⟨b, s, .ret b s, ends⟩
  | raise e =>
      cases ends with
      | raise => exact .inr ⟨e, rfl, .raise e _⟩
  | ask q next ih =>
      cases ends with
      | ask served rest =>
          obtain ⟨b, t, first, second⟩ | ⟨e, failed, first⟩ := ih _ rest
          · exact .inl ⟨b, t, .ask served first, second⟩
          · exact .inr ⟨e, failed, .ask served first⟩

theorem ends_bind_ok {x : Dialogue Q A ε β} {f : β → Dialogue Q A ε α} {a : α}
    (ends : Ends serve (x >>= f) s (.ok a) u) :
    ∃ b t, Ends serve x s (.ok b) t ∧ Ends serve (f b) t (.ok a) u := by
  obtain done | ⟨e, failed, -⟩ := ends_bind ends
  · exact done
  · cases failed

/-- A dialogue whose exceptions are handled returns by itself or through the handler. -/
theorem ends_handle {x : Dialogue Q A ε α} {handler : ε → Dialogue Q A ε α} {result : Except ε α}
    (ends : Ends serve (x.handle handler) s result u) :
    (∃ a, result = .ok a ∧ Ends serve x s (.ok a) u) ∨
    ∃ e t, Ends serve x s (.error e) t ∧ Ends serve (handler e) t result u := by
  induction x generalizing s with
  | ret a =>
      cases ends with
      | ret => exact .inl ⟨a, rfl, .ret a _⟩
  | raise e => exact .inr ⟨e, s, .raise e s, ends⟩
  | ask q next ih =>
      cases ends with
      | ask served rest =>
          obtain ⟨a, done, first⟩ | ⟨e, t, first, second⟩ := ih _ rest
          · exact .inl ⟨a, done, .ask served first⟩
          · exact .inr ⟨e, t, .ask served first, second⟩

/-- What one service allows, another one that allows more does, too. -/
theorem Ends.mono {serve' : σ → (q : Q) → Except ε (A q) → σ → Prop} {x : Dialogue Q A ε α}
    {result : Except ε α} (sub : ∀ s q r t, serve s q r t → serve' s q r t)
    (ends : Ends serve x s result t) : Ends serve' x s result t := by
  induction ends with
  | ret a s => exact .ret a s
  | raise e s => exact .raise e s
  | ask served _ ih => exact .ask (sub _ _ _ _ served) ih

/-- What every answer keeps, a run keeps. -/
theorem Ends.keeps {I : σ → Prop} {x : Dialogue Q A ε α} {result : Except ε α}
    (step : ∀ s q r t, serve s q r t → I s → I t) (ends : Ends serve x s result t) (start : I s) :
    I t := by
  induction ends with
  | ret a s => exact start
  | raise e s => exact start
  | ask served _ ih => exact ih (step _ _ _ _ served start)

theorem Ends.request {q : Q} {r : Except ε (A q)} (served : serve s q r t) :
    Ends serve (Dialogue.request q : Dialogue Q A ε (A q)) s r t := by
  refine .ask served ?_
  cases r with
  | ok a => exact .ret a t
  | error e => exact .raise e t

theorem Ends.handle {x : Dialogue Q A ε α} {handler : ε → Dialogue Q A ε α} {a : α}
    (first : Ends serve x s (.ok a) t) : Ends serve (x.handle handler) s (.ok a) t := by
  generalize same : (Except.ok a : Except ε α) = r at first
  induction first with
  | ret b s =>
      cases same
      exact .ret _ _
  | raise e s => cases same
  | ask served _ ih => exact .ask served (ih same)

theorem Ends.bind {x : Dialogue Q A ε β} {f : β → Dialogue Q A ε α} {b : β} {result : Except ε α}
    (first : Ends serve x s (.ok b) t) (second : Ends serve (f b) t result u) :
    Ends serve (x >>= f) s result u := by
  change Ends serve (x.bind f) s result u
  generalize same : (Except.ok b : Except ε β) = r at first
  induction first with
  | ret a s =>
      cases same
      exact second
  | raise e s => cases same
  | ask served _ ih => exact .ask served (ih second same)

theorem Ends.bind_error {x : Dialogue Q A ε β} {f : β → Dialogue Q A ε α} {e : ε}
    (first : Ends serve x s (.error e) t) : Ends serve (x >>= f) s (.error e) t := by
  change Ends serve (x.bind f) s (.error e) t
  generalize same : (Except.error e : Except ε β) = r at first
  induction first with
  | ret a s => cases same
  | raise e' s =>
      cases same
      exact .raise e s
  | ask served _ ih => exact .ask served (ih same)

variable {R : σ → σ → Prop} (refl : ∀ s, R s s) (trans : ∀ s t u, R s t → R t u → R s u)

include refl trans in
/-- A loop that returned has gone through every round. -/
theorem ends_mapM {f : β → Dialogue Q A ε α} {P : β → σ → α → σ → Prop}
    (round : ∀ b s a t, Ends serve (f b) s (.ok a) t → R s t ∧ P b s a t) {l : List β} {as : List α}
    (ends : Ends serve (l.mapM f) s (.ok as) u) :
    R s u ∧ List.Forall₂ (fun b a => ∃ t t', R s t ∧ P b t a t' ∧ R t' u) l as := by
  induction l generalizing s as with
  | nil =>
      obtain ⟨rfl, rfl⟩ := ends_pure ends
      exact ⟨refl _, .nil⟩
  | cons b rest ih =>
      rw [List.mapM_cons] at ends
      obtain ⟨a, t, first, ends⟩ := ends_bind_ok ends
      obtain ⟨others, t', second, ends⟩ := ends_bind_ok ends
      obtain ⟨rfl, rfl⟩ := ends_pure ends
      obtain ⟨before, known⟩ := round b s a t first
      obtain ⟨after, all⟩ := ih second
      refine ⟨trans _ _ _ before after, .cons ⟨s, t, refl s, known, after⟩ (all.imp ?_)⟩
      rintro b' a' ⟨v, v', tv, known', v'u⟩
      exact ⟨v, v', trans _ _ _ before tv, known', v'u⟩

include refl trans in
theorem ends_forM {f : β → Dialogue Q A ε PUnit} {P : β → σ → σ → Prop}
    (round : ∀ b s t, Ends serve (f b) s (.ok ⟨⟩) t → R s t ∧ P b s t) {l : List β}
    (ends : Ends serve (l.forM f) s (.ok ⟨⟩) u) :
    R s u ∧ ∀ b ∈ l, ∃ t t', R s t ∧ P b t t' ∧ R t' u := by
  induction l generalizing s with
  | nil =>
      obtain ⟨-, rfl⟩ := ends_pure ends
      exact ⟨refl _, nofun⟩
  | cons b rest ih =>
      obtain ⟨_, t, first, ends⟩ := ends_bind_ok ends
      obtain ⟨before, known⟩ := round b s t first
      obtain ⟨after, all⟩ := ih ends
      refine ⟨trans _ _ _ before after, fun b' mem => ?_⟩
      obtain rfl | mem := List.mem_cons.mp mem
      · exact ⟨s, t, refl s, known, after⟩
      · obtain ⟨v, v', tv, known', v'u⟩ := all b' mem
        exact ⟨v, v', trans _ _ _ before tv, known', v'u⟩

end Ends

/-- The result of a dialogue that gets fixed answers. -/
def answered (answer : (q : Q) → Except ε (A q)) : Dialogue Q A ε α → Except ε α
  | .ret a => .ok a
  | .raise e => .error e
  | .ask q next => (next (answer q)).answered answer

section Answered

variable {answer : (q : Q) → Except ε (A q)}

@[simp] theorem answered_pure (a : α) :
    (pure a : Dialogue Q A ε α).answered answer = .ok a := rfl

@[simp] theorem answered_raise (e : ε) :
    (raise e : Dialogue Q A ε α).answered answer = .error e := rfl

@[simp] theorem answered_ofExcept (x : Except ε α) :
    (ofExcept x : Dialogue Q A ε α).answered answer = x := by
  cases x <;> rfl

@[simp] theorem answered_request (q : Q) :
    (request q : Dialogue Q A ε (A q)).answered answer = answer q := by
  rw [request, answered]
  cases answer q <;> rfl

@[simp] theorem answered_bind (x : Dialogue Q A ε β) (f : β → Dialogue Q A ε α) :
    (x >>= f).answered answer = x.answered answer >>= fun b => (f b).answered answer := by
  change (x.bind f).answered answer = _
  induction x with
  | ret b => rfl
  | raise e => rfl
  | ask q next ih => exact ih _

theorem answered_handle (x : Dialogue Q A ε α) (handler : ε → Dialogue Q A ε α) :
    (x.handle handler).answered answer =
      match x.answered answer with
      | .ok a => .ok a
      | .error e => (handler e).answered answer := by
  induction x with
  | ret b => rfl
  | raise e => rfl
  | ask q next ih => exact ih _

/-- Only the answers to what is asked matter. -/
theorem Uses.answered {allowed : Q → Prop} {answer' : (q : Q) → Except ε (A q)}
    {x : Dialogue Q A ε α} (uses : x.Uses allowed)
    (same : ∀ q, allowed q → answer' q = answer q) : x.answered answer' = x.answered answer := by
  induction x with
  | ret a => rfl
  | raise e => rfl
  | ask q next ih =>
      change (next (answer' q)).answered answer' = (next (answer q)).answered answer
      rw [same q uses.1]
      exact ih _ (uses.2 _)

end Answered

end Dialogue

end Mathmodel
