import Mathlib
import Mathmodel.Library.Transition

/-!
# Programs that ask their surroundings

A process of an operating system changes nothing by itself: it asks, and what
it asks for is answered or refused with an exception. A `Dialogue` is such a
process as a tree of requests. It can be killed before any answer, and others
may change the state between two answers, so what is said about a dialogue is
said about every answer it gets.

`Holds serve G post failed d s` says that every answer given to `d`, from `s`
on, changes the state as the guarantee `G` allows, that `post` holds when the
dialogue returns and `failed` when it raises. The relation `serve` is what the
surroundings may do to answer a request, interference included.

`Machine` runs dialogues one after the other, each until it ends or is killed.
-/

namespace Mathmodel

section Rounds

variable {α β : Type} {R : α → β → Prop} {l : List α} {l' : List β}

/-- The rounds of a loop: each element has its result. -/
theorem forall₂_left (h : List.Forall₂ R l l') {a : α} (mem : a ∈ l) : ∃ b ∈ l', R a b := by
  induction h with
  | nil => cases mem
  | cons head _ ih =>
      obtain rfl | mem := List.mem_cons.mp mem
      · exact ⟨_, List.mem_cons_self, head⟩
      · obtain ⟨b, found, known⟩ := ih mem
        exact ⟨b, List.mem_cons_of_mem _ found, known⟩

/-- Each result is that of an element. -/
theorem forall₂_right (h : List.Forall₂ R l l') {b : β} (mem : b ∈ l') : ∃ a ∈ l, R a b :=
  forall₂_left h.flip mem

end Rounds

/-- A process that asks requests of type `Q`, with answers of type `A q`. -/
inductive Dialogue (Q : Type) (A : Q → Type) (ε α : Type) where
  | ret (a : α)
  | raise (e : ε)
  | ask (q : Q) (next : Except ε (A q) → Dialogue Q A ε α)

namespace Dialogue

variable {Q : Type} {A : Q → Type} {ε α β σ : Type}

def bind : Dialogue Q A ε α → (α → Dialogue Q A ε β) → Dialogue Q A ε β
  | .ret a, f => f a
  | .raise e, _ => .raise e
  | .ask q next, f => .ask q fun r => (next r).bind f

instance : Monad (Dialogue Q A ε) where
  pure := .ret
  bind := bind

/-- Run the handler on an exception of the first dialogue. -/
def handle : Dialogue Q A ε α → (ε → Dialogue Q A ε α) → Dialogue Q A ε α
  | .ret a, _ => .ret a
  | .raise e, handler => handler e
  | .ask q next, handler => .ask q fun r => (next r).handle handler

/-- Ask one request; a refusal is raised. -/
def request (q : Q) : Dialogue Q A ε (A q) :=
  .ask q fun
    | .ok a => .ret a
    | .error e => .raise e

/-- Raise what a pure computation raises. -/
def ofExcept : Except ε α → Dialogue Q A ε α
  | .ok a => .ret a
  | .error e => .raise e

instance : LawfulMonad (Dialogue Q A ε) := by
  refine LawfulMonad.mk' _ ?_ ?_ ?_
  · intro α x
    change x.bind .ret = x
    induction x with
    | ret => rfl
    | raise => rfl
    | ask q next ih => exact congrArg (ask q) (funext ih)
  · intro α β x f
    rfl
  · intro α β γ x f g
    change (x.bind f).bind g = x.bind fun a => (f a).bind g
    induction x with
    | ret => rfl
    | raise => rfl
    | ask q next ih => exact congrArg (ask q) (funext ih)

/-- Every answer to the dialogue keeps the guarantee, and the dialogue ends in
`post` or, with an exception, in `failed`. -/
def Holds (serve : σ → (q : Q) → Except ε (A q) → σ → Prop) (G : σ → σ → Prop)
    (post : α → σ → Prop) (failed : ε → σ → Prop) : Dialogue Q A ε α → σ → Prop
  | .ret a, s => post a s
  | .raise e, s => failed e s
  | .ask q next, s => ∀ r t, serve s q r t → G s t ∧ Holds serve G post failed (next r) t

section Rules

variable {serve : σ → (q : Q) → Except ε (A q) → σ → Prop} {G G' : σ → σ → Prop}
variable {post post' : α → σ → Prop} {failed failed' : ε → σ → Prop} {s : σ}

theorem holds_bind {x : Dialogue Q A ε β} {f : β → Dialogue Q A ε α}
    (h : Holds serve G (fun b t => Holds serve G post failed (f b) t) failed x s) :
    Holds serve G post failed (x >>= f) s := by
  change Holds serve G post failed (x.bind f) s
  induction x generalizing s with
  | ret b => exact h
  | raise e => exact h
  | ask q next ih => exact fun r t served => ⟨(h r t served).1, ih r (h r t served).2⟩

theorem holds_handle {x : Dialogue Q A ε α} {handler : ε → Dialogue Q A ε α}
    (h : Holds serve G post (fun e t => Holds serve G post failed (handler e) t) x s) :
    Holds serve G post failed (x.handle handler) s := by
  induction x generalizing s with
  | ret b => exact h
  | raise e => exact h
  | ask q next ih => exact fun r t served => ⟨(h r t served).1, ih r (h r t served).2⟩

theorem holds_request {q : Q} {post : A q → σ → Prop}
    (h : ∀ r t, serve s q r t → G s t ∧
      match r with
      | .ok a => post a t
      | .error e => failed e t) :
    Holds serve G post failed (request q : Dialogue Q A ε (A q)) s := by
  intro r t served
  obtain ⟨kept, ends⟩ := h r t served
  cases r with
  | ok a => exact ⟨kept, ends⟩
  | error e => exact ⟨kept, ends⟩

theorem Holds.mono {x : Dialogue Q A ε α} (h : Holds serve G post failed x s)
    (guarantee : ∀ s t, G s t → G' s t) (ret : ∀ a t, post a t → post' a t)
    (raised : ∀ e t, failed e t → failed' e t) : Holds serve G' post' failed' x s := by
  induction x generalizing s with
  | ret a => exact ret a s h
  | raise e => exact raised e s h
  | ask q next ih =>
      exact fun r t served => ⟨guarantee s t (h r t served).1, ih r (h r t served).2⟩

end Rules

/-- Whatever it is answered, the dialogue asks only requests that are allowed. -/
def Uses (allowed : Q → Prop) : Dialogue Q A ε α → Prop
  | .ret _ => True
  | .raise _ => True
  | .ask q next => allowed q ∧ ∀ r, (next r).Uses allowed

section Uses

variable {allowed allowed' : Q → Prop}

theorem Uses.mono {x : Dialogue Q A ε α} (h : x.Uses allowed)
    (sub : ∀ q, allowed q → allowed' q) : x.Uses allowed' := by
  induction x with
  | ret a => trivial
  | raise e => trivial
  | ask q next ih => exact ⟨sub q h.1, fun r => ih r (h.2 r)⟩

theorem uses_pure (a : α) : (pure a : Dialogue Q A ε α).Uses allowed := trivial

theorem uses_ofExcept (x : Except ε α) : (ofExcept x : Dialogue Q A ε α).Uses allowed := by
  cases x <;> trivial

theorem uses_request {q : Q} (h : allowed q) :
    (request q : Dialogue Q A ε (A q)).Uses allowed := by
  refine ⟨h, ?_⟩
  intro r
  cases r <;> trivial

theorem uses_bind {x : Dialogue Q A ε β} {f : β → Dialogue Q A ε α} (hx : x.Uses allowed)
    (hf : ∀ b, (f b).Uses allowed) : (x >>= f).Uses allowed := by
  change (x.bind f).Uses allowed
  induction x with
  | ret b => exact hf b
  | raise e => trivial
  | ask q next ih => exact ⟨hx.1, fun r => ih r (hx.2 r)⟩

theorem uses_handle {x : Dialogue Q A ε α} {handler : ε → Dialogue Q A ε α}
    (hx : x.Uses allowed) (hh : ∀ e, (handler e).Uses allowed) :
    (x.handle handler).Uses allowed := by
  induction x with
  | ret b => trivial
  | raise e => exact hh e
  | ask q next ih => exact ⟨hx.1, fun r => ih r (hx.2 r)⟩

theorem uses_mapM {f : β → Dialogue Q A ε α} (hf : ∀ b, (f b).Uses allowed) (l : List β) :
    (l.mapM f).Uses allowed := by
  induction l with
  | nil => exact uses_pure _
  | cons b rest ih =>
      rw [List.mapM_cons]
      exact uses_bind (hf b) fun _ => uses_bind ih fun _ => uses_pure _

theorem uses_forM {f : β → Dialogue Q A ε PUnit} (hf : ∀ b, (f b).Uses allowed) (l : List β) :
    (l.forM f).Uses allowed := by
  induction l with
  | nil => exact uses_pure _
  | cons b rest ih => exact uses_bind (hf b) fun _ => ih

end Uses

/-- Whatever it is answered, the dialogue returns only values with the property. -/
def Returns (P : α → Prop) : Dialogue Q A ε α → Prop
  | .ret a => P a
  | .raise _ => True
  | .ask _ next => ∀ r, (next r).Returns P

section Returns

theorem returns_true (x : Dialogue Q A ε α) : x.Returns fun _ => True := by
  induction x with
  | ret a => trivial
  | raise e => trivial
  | ask q next ih => exact ih

theorem returns_bind {P : β → Prop} {P' : α → Prop} {x : Dialogue Q A ε β}
    {f : β → Dialogue Q A ε α} (hx : x.Returns P) (hf : ∀ b, P b → (f b).Returns P') :
    (x >>= f).Returns P' := by
  change (x.bind f).Returns P'
  induction x with
  | ret b => exact hf b hx
  | raise e => trivial
  | ask q next ih => exact fun r => ih r (hx r)

theorem returns_mono {P P' : α → Prop} {x : Dialogue Q A ε α} (h : x.Returns P)
    (sub : ∀ a, P a → P' a) : x.Returns P' := by
  induction x with
  | ret a => exact sub a h
  | raise e => trivial
  | ask q next ih => exact fun r => ih r (h r)

end Returns

/-- Every answer is a step of the preorder `R`, and a dialogue that returns has learned `P`
about the states where it started and where it returns. -/
def Learns (serve : σ → (q : Q) → Except ε (A q) → σ → Prop) (R : σ → σ → Prop)
    (x : Dialogue Q A ε α) (P : σ → α → σ → Prop) : Prop :=
  ∀ s, Holds serve R (fun a t => R s t ∧ P s a t) (fun _ t => R s t) x s

namespace Learns

variable {serve : σ → (q : Q) → Except ε (A q) → σ → Prop} {R : σ → σ → Prop}
variable {P P' : σ → α → σ → Prop}

theorem mono {x : Dialogue Q A ε α} (h : Learns serve R x P)
    (sub : ∀ s a t, R s t → P s a t → P' s a t) : Learns serve R x P' := fun s =>
  (h s).mono (fun _ _ g => g) (fun a t known => ⟨known.1, sub s a t known.1 known.2⟩)
    (fun _ _ g => g)

/-- What is returned is both learned and known from the form of the dialogue. -/
theorem returns {x : Dialogue Q A ε α} {K : α → Prop} (h : Learns serve R x P)
    (known : x.Returns K) : Learns serve R x fun s a t => P s a t ∧ K a := by
  have both : ∀ {x : Dialogue Q A ε α} {post : α → σ → Prop} {failed : ε → σ → Prop} {s : σ},
      x.Returns K → Holds serve R post failed x s →
      Holds serve R (fun a t => post a t ∧ K a) failed x s := by
    intro x post failed s known holds
    induction x generalizing s with
    | ret a => exact ⟨holds, known⟩
    | raise e => exact holds
    | ask q next ih =>
        exact fun r t served => ⟨(holds r t served).1, ih r (known r) (holds r t served).2⟩
  intro s
  exact (both known (h s)).mono (fun _ _ g => g)
    (fun a t found => ⟨found.1.1, found.1.2, found.2⟩) fun _ _ g => g

section Preorder

variable (refl : ∀ s, R s s) (trans : ∀ s t u, R s t → R t u → R s u)

include refl in
theorem pure {a : α} (h : ∀ s, P s a s) : Learns serve R (Pure.pure a) P := fun s =>
  ⟨refl s, h s⟩

include refl in
theorem raise (e : ε) : Learns serve R (.raise e : Dialogue Q A ε α) P := fun s => refl s

include refl in
theorem ofExcept {x : Except ε α} (h : ∀ a s, x = .ok a → P s a s) :
    Learns serve R (Dialogue.ofExcept x) P := by
  intro s
  cases x with
  | ok a => exact ⟨refl s, h a s rfl⟩
  | error e => exact refl s

omit refl trans in
theorem request {q : Q} {P : σ → A q → σ → Prop} (step : ∀ s r t, serve s q r t → R s t)
    (h : ∀ s a t, serve s q (.ok a) t → P s a t) :
    Learns serve R (Dialogue.request q) P := by
  intro s
  refine holds_request fun r t served => ⟨step s r t served, ?_⟩
  cases r with
  | ok a => exact ⟨step s _ t served, h s a t served⟩
  | error e => exact step s _ t served

include trans in
theorem bind {x : Dialogue Q A ε β} {f : β → Dialogue Q A ε α} {P : σ → β → σ → Prop}
    {P' : β → σ → α → σ → Prop} (hx : Learns serve R x P) (hf : ∀ b, Learns serve R (f b) (P' b)) :
    Learns serve R (x >>= f) fun s a u => ∃ b t, R s t ∧ P s b t ∧ R t u ∧ P' b t a u := by
  intro s
  refine holds_bind ((hx s).mono (fun _ _ g => g) ?_ fun _ _ g => g)
  intro b t before
  refine (hf b t).mono (fun _ _ g => g) ?_ fun e u after => trans _ _ _ before.1 after
  intro a u after
  exact ⟨trans _ _ _ before.1 after.1, b, t, before.1, before.2, after.1, after.2⟩

include refl trans in
/-- A loop learns from every round, somewhere between its start and its end. -/
theorem mapM {f : β → Dialogue Q A ε α} {P : β → σ → α → σ → Prop}
    (hf : ∀ b, Learns serve R (f b) (P b)) (l : List β) :
    Learns serve R (l.mapM f) fun s as u =>
      List.Forall₂ (fun b a => ∃ t t', R s t ∧ P b t a t' ∧ R t' u) l as := by
  induction l with
  | nil => exact pure refl fun _ => .nil
  | cons b rest ih =>
      rw [List.mapM_cons]
      refine (bind trans (hf b) fun a => bind trans ih fun as =>
        pure (P := fun _ all _ => all = a :: as) refl fun _ => rfl).mono ?_
      rintro s _ u - ⟨a, t, st, ha, tu, as, t', tt', has, t'u, rfl⟩
      refine .cons ⟨s, t, refl s, ha, tu⟩ (has.imp ?_)
      rintro b' a' ⟨v, v', tv, known, v't'⟩
      exact ⟨v, v', trans _ _ _ st tv, known, trans _ _ _ v't' t'u⟩

include refl trans in
theorem forM {f : β → Dialogue Q A ε PUnit} {P : β → σ → PUnit → σ → Prop}
    (hf : ∀ b, Learns serve R (f b) (P b)) (l : List β) :
    Learns serve R (l.forM f) fun s _ u => ∀ b ∈ l, ∃ t t', R s t ∧ P b t ⟨⟩ t' ∧ R t' u := by
  induction l with
  | nil => exact pure refl fun _ => nofun
  | cons b rest ih =>
      refine (bind trans (hf b) fun _ => ih).mono ?_
      rintro s _ u - ⟨_, t, st, known, tu, others⟩ b' mem
      obtain rfl | mem := List.mem_cons.mp mem
      · exact ⟨s, t, refl s, known, tu⟩
      · obtain ⟨v, v', tv, known, v'u⟩ := others b' mem
        exact ⟨v, v', trans _ _ _ st tv, known, v'u⟩

include refl trans in
/-- A dialogue of allowed requests learns nothing, but is a walk along the preorder. -/
theorem of_uses {allowed : Q → Prop} {x : Dialogue Q A ε α} (h : x.Uses allowed)
    (step : ∀ s q r t, allowed q → serve s q r t → R s t) :
    Learns serve R x fun _ _ _ => True := by
  intro s
  induction x generalizing s with
  | ret a => exact ⟨refl s, trivial⟩
  | raise e => exact refl s
  | ask q next ih =>
      intro r t served
      have before := step s q r t h.1 served
      refine ⟨before, (ih r (h.2 r) t).mono (fun _ _ g => g) ?_ ?_⟩
      · exact fun _ _ after => ⟨trans _ _ _ before after.1, trivial⟩
      · exact fun _ _ after => trans _ _ _ before after

end Preorder

/-- Continue after a dialogue that only learned something. -/
theorem then_ {G : σ → σ → Prop} {post : α → σ → Prop} {failed : ε → σ → Prop}
    {x : Dialogue Q A ε β} {f : β → Dialogue Q A ε α} {P : σ → β → σ → Prop} {s : σ}
    (hx : Learns serve R x P) (guarantee : ∀ s t, R s t → G s t)
    (raised : ∀ e t, R s t → failed e t)
    (next : ∀ b t, R s t → P s b t → Holds serve G post failed (f b) t) :
    Holds serve G post failed (x >>= f) s := by
  refine holds_bind ((hx s).mono guarantee ?_ raised)
  exact fun b t known => next b t known.1 known.2

end Learns

end Dialogue

/-- A state and the process at work on it: its label, the state it was started
in, and what is left of it. -/
structure Machine (σ κ : Type) (Q : Type) (A : Q → Type) (ε ω : Type) where
  state : σ
  process : Option (κ × σ × Dialogue Q A ε ω)

namespace Machine

variable {σ κ : Type} {Q : Type} {A : Q → Type} {ε ω : Type}

/-- One event of the machine. Starting a process changes the state by `enter`;
answering its next request by `serve`. A process that has ended, or that is killed,
goes away without a trace. -/
inductive Step (program : κ → Dialogue Q A ε ω) (enter : κ → σ → σ)
    (serve : σ → (q : Q) → Except ε (A q) → σ → Prop) :
    Machine σ κ Q A ε ω → Machine σ κ Q A ε ω → Prop where
  | start (s : σ) (c : κ) :
      Step program enter serve ⟨s, none⟩ ⟨enter c s, some (c, enter c s, program c)⟩
  | answer {s t : σ} {c : κ} {entry : σ} {q : Q} {next : Except ε (A q) → Dialogue Q A ε ω}
      {r : Except ε (A q)} (served : serve s q r t) :
      Step program enter serve ⟨s, some (c, entry, .ask q next)⟩ ⟨t, some (c, entry, next r)⟩
  | leave (s : σ) (p : κ × σ × Dialogue Q A ε ω) :
      Step program enter serve ⟨s, some p⟩ ⟨s, none⟩

variable {program : κ → Dialogue Q A ε ω} {enter : κ → σ → σ}
variable {serve : σ → (q : Q) → Except ε (A q) → σ → Prop}

/-- What is known of a machine whose processes keep a guarantee: the invariant,
and the contract of what is left of the process. -/
structure Governed (serve : σ → (q : Q) → Except ε (A q) → σ → Prop) (I : σ → Prop)
    (G : κ → σ → σ → σ → Prop) (post : κ → σ → ω → σ → Prop) (failed : κ → σ → ε → σ → Prop)
    (m : Machine σ κ Q A ε ω) : Prop where
  invariant : I m.state
  process : ∀ c entry d, m.process = some (c, entry, d) →
    I entry ∧ d.Holds serve (G c entry) (post c entry) (failed c entry) m.state

variable {I : σ → Prop} {G : κ → σ → σ → σ → Prop}
variable {post : κ → σ → ω → σ → Prop} {failed : κ → σ → ε → σ → Prop}

/-- An invariant that starting a process and every guarantee keep, where every
program meets its contract from the invariant on, governs every run. -/
theorem Governed.reached {m m' : Machine σ κ Q A ε ω}
    (entering : ∀ c s, I s → I (enter c s))
    (kept : ∀ c entry s t, I entry → I s → G c entry s t → I t)
    (contract : ∀ c s, I (enter c s) → (program c).Holds serve (G c (enter c s))
      (post c (enter c s)) (failed c (enter c s)) (enter c s))
    (start : Governed serve I G post failed m)
    (run : Relation.ReflTransGen (Step program enter serve) m m') :
    Governed serve I G post failed m' := by
  induction run with
  | refl => exact start
  | tail _ step ih =>
      cases step with
      | start s c =>
          refine ⟨entering c s ih.invariant, ?_⟩
          rintro _ _ _ ⟨⟩
          exact ⟨entering c s ih.invariant, contract c s (entering c s ih.invariant)⟩
      | answer served =>
          obtain ⟨begun, holds⟩ := ih.process _ _ _ rfl
          obtain ⟨guarantee, rest⟩ := holds _ _ served
          refine ⟨kept _ _ _ _ begun ih.invariant guarantee, ?_⟩
          rintro _ _ _ ⟨⟩
          exact ⟨begun, rest⟩
      | leave s p => exact ⟨ih.invariant, nofun⟩

/-- A governed machine changes its state only by starting a process or by a step
that the guarantee of the process at work allows. -/
theorem Governed.step {m m' : Machine σ κ Q A ε ω} (governed : Governed serve I G post failed m)
    (step : Step program enter serve m m') :
    m'.state = m.state ∨
    (∃ c, m.process = none ∧ m'.state = enter c m.state) ∨
    ∃ c entry d, m.process = some (c, entry, d) ∧ I entry ∧ G c entry m.state m'.state := by
  cases step with
  | start s c => exact .inr (.inl ⟨c, rfl, rfl⟩)
  | answer served =>
      obtain ⟨begun, holds⟩ := governed.process _ _ _ rfl
      exact .inr (.inr ⟨_, _, _, rfl, begun, (holds _ _ served).1⟩)
  | leave s p => exact .inl rfl

end Machine

end Mathmodel
