import Mathlib

/-!
# Texts that are read in one way only

A printer that writes nested values as brackets, separators and tokens is read
back without a parser: two texts that agree, each followed by something that
cannot continue a token, were written for matching values and are followed by the
same rest. `Pins` is that statement for one pair of values, and the rules lift it
through sequencing and through lists written with a separator.
-/

namespace Mathmodel

variable {τ α : Type}

/-- Whatever follows their texts, if it may end a token, two values with the same
text are related and the same follows. -/
def Pins (text : α → List τ) (Ends : List τ → Prop) (R : α → α → Prop) (a b : α) : Prop :=
  ∀ ⦃r r' : List τ⦄, Ends r → Ends r' → text a ++ r = text b ++ r' → R a b ∧ r = r'

/-- Two runs of one class that end where the class ends are the same run. -/
theorem append_inj_of_class {Class : τ → Prop} {l l' r r' : List τ} (inside : ∀ c ∈ l, Class c)
    (inside' : ∀ c ∈ l', Class c) (ends : ∀ c ∈ r.head?, ¬ Class c)
    (ends' : ∀ c ∈ r'.head?, ¬ Class c) (same : l ++ r = l' ++ r') : l = l' ∧ r = r' := by
  induction l generalizing l' with
  | nil =>
      cases l' with
      | nil => exact ⟨rfl, same⟩
      | cons c l' =>
          subst same
          exact absurd (inside' c List.mem_cons_self) (ends c rfl)
  | cons c l ih =>
      cases l' with
      | nil =>
          change c :: (l ++ r) = r' at same
          subst same
          exact absurd (inside c List.mem_cons_self) (ends' c rfl)
      | cons c' l' =>
          obtain ⟨rfl, rest⟩ := List.cons.inj same
          obtain ⟨rfl, tail⟩ := ih (fun d mem => inside d (List.mem_cons_of_mem _ mem))
            (fun d mem => inside' d (List.mem_cons_of_mem _ mem)) rest
          exact ⟨rfl, tail⟩

/-- A run of characters of one class pins the text if no such character can follow. -/
theorem pins_of_class {text : α → List τ} {Class : τ → Prop}
    (inside : ∀ a, ∀ c ∈ text a, Class c) (injective : Function.Injective text) (a b : α) :
    Pins text (fun r => ∀ c ∈ r.head?, ¬ Class c) (· = ·) a b := by
  intro r r' ends ends' same
  obtain ⟨texts, rest⟩ := append_inj_of_class (inside a) (inside b) ends ends' same
  exact ⟨injective texts, rest⟩

/-- The texts with a separator between each two. -/
def separated (comma : τ) : List (List τ) → List τ
  | [] => []
  | [text] => text
  | text :: rest => text ++ comma :: separated comma rest

/-- What follows an element of a list: a separator and the other elements, or the rest. -/
def following (comma : τ) (texts : List (List τ)) (r : List τ) : List τ :=
  match texts with
  | [] => r
  | texts => comma :: (separated comma texts ++ r)

theorem separated_cons (comma : τ) (text : List τ) (rest : List (List τ)) (r : List τ) :
    separated comma (text :: rest) ++ r = text ++ following comma rest r := by
  cases rest with
  | nil => rfl
  | cons next rest =>
      change (text ++ comma :: separated comma (next :: rest)) ++ r = _
      rw [List.append_assoc]
      rfl

section Lists

variable {comma close : τ} {text : α → List τ} {Ends : List τ → Prop} {R : α → α → Prop}

/-- The elements of a bracketed list are pinned one after the other. -/
theorem forall₂_of_separated (ends : ∀ c r, c = comma ∨ c = close → Ends (c :: r))
    (apart : comma ≠ close) (starts : ∀ a, ∃ c rest, text a = c :: rest ∧ c ≠ close)
    {as bs : List α} (each : ∀ a ∈ as, ∀ b ∈ bs, Pins text Ends R a b) {r r' : List τ}
    (same : separated comma (as.map text) ++ close :: r =
      separated comma (bs.map text) ++ close :: r') :
    List.Forall₂ R as bs ∧ r = r' := by
  have nonempty : ∀ a l s s', separated comma (text a :: l) ++ s ≠ close :: s' := by
    intro a l s s' same
    obtain ⟨c, rest, eq, ne⟩ := starts a
    rw [separated_cons, eq] at same
    exact ne (List.cons.inj same).1
  have token : ∀ (l : List α) s, Ends (following comma (l.map text) (close :: s)) := by
    intro l s
    cases l with
    | nil => exact ends close s (.inr rfl)
    | cons a l => exact ends comma _ (.inl rfl)
  induction as generalizing bs with
  | nil =>
      cases bs with
      | nil => exact ⟨.nil, (List.cons.inj same).2⟩
      | cons b bs => exact absurd same.symm (nonempty b _ _ _)
  | cons a as ih =>
      cases bs with
      | nil => exact absurd same (nonempty a _ _ _)
      | cons b bs =>
          simp only [List.map_cons, separated_cons] at same
          obtain ⟨related, rest⟩ := each a List.mem_cons_self b List.mem_cons_self
            (token as r) (token bs r') same
          -- The separator and the closing bracket tell whether more elements follow.
          cases as with
          | nil =>
              cases bs with
              | nil => exact ⟨.cons related .nil, (List.cons.inj rest).2⟩
              | cons b' bs => exact absurd (List.cons.inj rest).1.symm apart
          | cons a' as =>
              cases bs with
              | nil => exact absurd (List.cons.inj rest).1 apart
              | cons b' bs =>
                  obtain ⟨others, rest⟩ := ih
                    (fun x mem y mem' => each x (List.mem_cons_of_mem _ mem) y
                      (List.mem_cons_of_mem _ mem'))
                    (List.cons.inj rest).2
                  exact ⟨.cons related others, rest⟩

end Lists

end Mathmodel
