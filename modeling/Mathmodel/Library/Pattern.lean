import Mathlib

/-!
# Patterns over lists

A backtracking matcher: a pattern is tried at a place of the input and gives its ways
to go on in order of preference, with what its groups captured. What a pattern takes
is said without the order by `Takes`, and `mem_alternatives` connects the two. Above
it stand the leftmost match, the successive matches of an input, and the text that is
put together again from the stretches between the matches and a text for each.
-/

namespace Mathmodel

/-- An input with a place in it. -/
structure Place (α : Type) where
  before : List α
  after : List α

namespace Place

variable {α : Type}

/-- The text between two places of one input. -/
def Through (x : Place α) (text : List α) (y : Place α) : Prop :=
  x.after = text ++ y.after ∧ y.before = x.before ++ text

@[simp]
theorem through_nil {x y : Place α} : x.Through [] y ↔ y = x := by
  cases x
  cases y
  simp only [Through, List.nil_append, List.append_nil, mk.injEq]
  exact ⟨fun h => ⟨h.2, h.1.symm⟩, fun h => ⟨h.2.symm, h.1⟩⟩

theorem through_append {x y : Place α} {t u : List α} :
    x.Through (t ++ u) y ↔ x.Through t ⟨x.before ++ t, u ++ y.after⟩ ∧
      Through ⟨x.before ++ t, u ++ y.after⟩ u y := by
  simp only [Through, List.append_assoc, and_true, true_and]

theorem Through.eq {x y : Place α} {text : List α} (h : x.Through text y) :
    y = ⟨x.before ++ text, y.after⟩ := by
  cases y
  cases h.2
  rfl

end Place

/-- What the groups of a pattern captured, `none` for one that was passed over. -/
abbrev Captures (α : Type) := List (Option (List α))

inductive Pattern (α : Type) where
  | empty
  | one (accepts : α → Bool)
  | many (accepts : α → Bool)
  | seq (first rest : Pattern α)
  | optional (body : Pattern α)
  | group (body : Pattern α)
  | atStart
  | atEnd

variable {α β : Type}

namespace Pattern

/-- Number of groups. -/
def groups : Pattern α → Nat
  | empty | one _ | many _ | atStart | atEnd => 0
  | seq p q => p.groups + q.groups
  | optional p => p.groups
  | group p => p.groups + 1

def sequence (terms : List (Pattern α)) : Pattern α := terms.foldr seq empty

/-- Ends of the runs of accepted symbols, the longest first. -/
def runs (accepts : α → Bool) : List α → List α → List (Place α)
  | before, [] => [⟨before, []⟩]
  | before, a :: after =>
      if accepts a then runs accepts (before ++ [a]) after ++ [⟨before, a :: after⟩]
      else [⟨before, a :: after⟩]

/-- The ways to take a pattern at a place, the preferred one first. An optional part is
taken only where it takes something. -/
def alternatives : Pattern α → Place α → List (Captures α × Place α)
  | empty, x => [([], x)]
  | one accepts, x =>
      match x.after with
      | a :: after => if accepts a then [([], ⟨x.before ++ [a], after⟩)] else []
      | [] => []
  | many accepts, x => (runs accepts x.before x.after).map fun y => ([], y)
  | seq p q, x =>
      (p.alternatives x).flatMap fun taken =>
        (q.alternatives taken.2).map fun next => (taken.1 ++ next.1, next.2)
  | optional p, x =>
      (p.alternatives x).filter (fun taken => taken.2.after.length < x.after.length) ++
        [(List.replicate p.groups none, x)]
  | group p, x =>
      (p.alternatives x).map fun taken =>
        (some (taken.2.before.drop x.before.length) :: taken.1, taken.2)
  | atStart, x => if x.before.isEmpty then [([], x)] else []
  | atEnd, x => if x.after.isEmpty then [([], x)] else []

/-- Between what stands before and after it, a text that a pattern takes, with the captures. -/
def Takes : Pattern α → List α → List α → Captures α → List α → Prop
  | empty, _, text, captures, _ => text = [] ∧ captures = []
  | one accepts, _, text, captures, _ => ∃ a, accepts a = true ∧ text = [a] ∧ captures = []
  | many accepts, _, text, captures, _ => (∀ a ∈ text, accepts a = true) ∧ captures = []
  | seq p q, before, text, captures, after =>
      ∃ t u c d, text = t ++ u ∧ captures = c ++ d ∧ p.Takes before t c (u ++ after) ∧
        q.Takes (before ++ t) u d after
  | optional p, before, text, captures, after =>
      (text ≠ [] ∧ p.Takes before text captures after) ∨
        (text = [] ∧ captures = List.replicate p.groups none)
  | group p, before, text, captures, after =>
      ∃ c, captures = some text :: c ∧ p.Takes before text c after
  | atStart, before, text, captures, _ => before = [] ∧ text = [] ∧ captures = []
  | atEnd, _, text, captures, after => after = [] ∧ text = [] ∧ captures = []

@[simp]
theorem mem_runs {accepts : α → Bool} {before after : List α} {y : Place α} :
    y ∈ runs accepts before after ↔
      ∃ text, Place.Through ⟨before, after⟩ text y ∧ ∀ a ∈ text, accepts a = true := by
  induction after generalizing before with
  | nil =>
      rw [runs, List.mem_singleton]
      constructor
      · rintro rfl
        exact ⟨[], Place.through_nil.mpr rfl, by simp⟩
      · rintro ⟨text, way, -⟩
        obtain ⟨rfl, -⟩ := List.append_eq_nil_iff.mp way.1.symm
        exact Place.through_nil.mp way
  | cons a after ih =>
      by_cases ok : accepts a = true
      · rw [runs, if_pos ok, List.mem_append, List.mem_singleton, ih]
        constructor
        · rintro (⟨text, ⟨rest, place⟩, all⟩ | rfl)
          · refine ⟨a :: text, ⟨congrArg (a :: ·) rest, ?_⟩, ?_⟩
            · rw [place, List.append_assoc]; rfl
            · exact List.forall_mem_cons.mpr ⟨ok, all⟩
          · exact ⟨[], Place.through_nil.mpr rfl, by simp⟩
        · rintro ⟨text, way, all⟩
          cases text with
          | nil => exact .inr (Place.through_nil.mp way)
          | cons b text =>
              obtain ⟨rfl, rest⟩ := List.cons.inj way.1
              refine .inl ⟨text, ⟨rest, ?_⟩, (List.forall_mem_cons.mp all).2⟩
              rw [way.2, List.append_assoc]; rfl
      · rw [runs, if_neg ok, List.mem_singleton]
        constructor
        · rintro rfl
          exact ⟨[], Place.through_nil.mpr rfl, by simp⟩
        · rintro ⟨text, way, all⟩
          cases text with
          | nil => exact Place.through_nil.mp way
          | cons b text =>
              obtain ⟨rfl, -⟩ := List.cons.inj way.1
              exact absurd (all a List.mem_cons_self) ok

/-- A pattern goes on from a place exactly where it takes the text in between. -/
@[simp]
theorem mem_alternatives {p : Pattern α} {x y : Place α} {captures : Captures α} :
    (captures, y) ∈ p.alternatives x ↔
      ∃ text, x.Through text y ∧ p.Takes x.before text captures y.after := by
  induction p generalizing x y captures with
  | empty =>
      simp only [alternatives, Takes, List.mem_singleton, Prod.mk.injEq]
      constructor
      · rintro ⟨rfl, rfl⟩
        exact ⟨[], Place.through_nil.mpr rfl, rfl, rfl⟩
      · rintro ⟨text, way, rfl, rfl⟩
        exact ⟨rfl, Place.through_nil.mp way⟩
  | one accepts =>
      rcases x with ⟨before, _ | ⟨a, after⟩⟩
      · simp only [alternatives, List.not_mem_nil, Takes, false_iff]
        rintro ⟨text, way, b, -, rfl, -⟩
        exact List.cons_ne_nil _ _ way.1.symm
      · by_cases ok : accepts a = true
        · simp only [alternatives, if_pos ok, List.mem_singleton, Prod.mk.injEq, Takes]
          constructor
          · rintro ⟨rfl, rfl⟩
            exact ⟨[a], ⟨rfl, rfl⟩, a, ok, rfl, rfl⟩
          · rintro ⟨text, way, b, -, rfl, rfl⟩
            obtain ⟨rfl, rfl⟩ := List.cons.inj way.1
            exact ⟨rfl, way.eq⟩
        · simp only [alternatives, if_neg ok, List.not_mem_nil, Takes, false_iff]
          rintro ⟨text, way, b, ok', rfl, -⟩
          obtain ⟨rfl, -⟩ := List.cons.inj way.1
          exact ok ok'
  | many accepts =>
      simp only [alternatives, Takes, List.mem_map, Prod.mk.injEq]
      constructor
      · rintro ⟨z, mem, rfl, rfl⟩
        obtain ⟨text, way, all⟩ := mem_runs.mp mem
        exact ⟨text, way, all, rfl⟩
      · rintro ⟨text, way, all, rfl⟩
        exact ⟨y, mem_runs.mpr ⟨text, way, all⟩, rfl, rfl⟩
  | seq p q ihp ihq =>
      simp only [alternatives, Takes, List.mem_flatMap, List.mem_map, Prod.mk.injEq, Prod.exists]
      constructor
      · rintro ⟨c, z, first, d, w, second, rfl, rfl⟩
        obtain ⟨t, way, takes⟩ := ihp.mp first
        obtain ⟨u, way', takes'⟩ := ihq.mp second
        obtain rfl : z = ⟨x.before ++ t, u ++ w.after⟩ := by
          rw [way.eq, way'.1]
        exact ⟨t ++ u, Place.through_append.mpr ⟨way, way'⟩, t, u, c, d, rfl, rfl, takes, takes'⟩
      · rintro ⟨text, way, t, u, c, d, rfl, rfl, takes, takes'⟩
        obtain ⟨first, second⟩ := Place.through_append.mp way
        exact ⟨c, _, ihp.mpr ⟨t, first, takes⟩, d, y, ihq.mpr ⟨u, second, takes'⟩, rfl, rfl⟩
  | optional p ih =>
      simp only [alternatives, Takes, List.mem_append, List.mem_filter, List.mem_singleton,
        Prod.mk.injEq, decide_eq_true_eq, ih]
      constructor
      · rintro (⟨⟨text, way, takes⟩, shorter⟩ | ⟨rfl, rfl⟩)
        · refine ⟨text, way, .inl ⟨?_, takes⟩⟩
          rintro rfl
          rw [Place.through_nil.mp way] at shorter
          exact Nat.lt_irrefl _ shorter
        · exact ⟨[], Place.through_nil.mpr rfl, .inr ⟨rfl, rfl⟩⟩
      · rintro ⟨text, way, ⟨some, takes⟩ | ⟨rfl, rfl⟩⟩
        · refine .inl ⟨⟨text, way, takes⟩, ?_⟩
          have := List.length_pos_of_ne_nil some
          rw [way.1, List.length_append]
          omega
        · exact .inr ⟨rfl, Place.through_nil.mp way⟩
  | group p ih =>
      have captured : ∀ {text : List α}, x.Through text y →
          y.before.drop x.before.length = text := fun way => by
        rw [way.2, List.drop_left]
      simp only [alternatives, Takes, List.mem_map, Prod.mk.injEq, Prod.exists]
      constructor
      · rintro ⟨c, z, mem, rfl, rfl⟩
        obtain ⟨text, way, takes⟩ := ih.mp mem
        exact ⟨text, way, c, by rw [captured way], takes⟩
      · rintro ⟨text, way, c, rfl, takes⟩
        exact ⟨c, y, ih.mpr ⟨text, way, takes⟩, by rw [captured way], rfl⟩
  | atStart =>
      simp only [alternatives, Takes]
      by_cases front : x.before = []
      · rw [if_pos (List.isEmpty_iff.mpr front), List.mem_singleton, Prod.mk.injEq]
        constructor
        · rintro ⟨rfl, rfl⟩
          exact ⟨[], Place.through_nil.mpr rfl, front, rfl, rfl⟩
        · rintro ⟨text, way, -, rfl, rfl⟩
          exact ⟨rfl, Place.through_nil.mp way⟩
      · rw [if_neg (fun h => front (List.isEmpty_iff.mp h))]
        exact ⟨nofun, fun ⟨_, _, front', _⟩ => absurd front' front⟩
  | atEnd =>
      simp only [alternatives, Takes]
      by_cases back : x.after = []
      · rw [if_pos (List.isEmpty_iff.mpr back), List.mem_singleton, Prod.mk.injEq]
        constructor
        · rintro ⟨rfl, rfl⟩
          exact ⟨[], Place.through_nil.mpr rfl, back, rfl, rfl⟩
        · rintro ⟨text, way, -, rfl, rfl⟩
          exact ⟨rfl, Place.through_nil.mp way⟩
      · rw [if_neg (fun h => back (List.isEmpty_iff.mp h))]
        refine ⟨nofun, ?_⟩
        rintro ⟨text, way, back', rfl, -⟩
        rw [way.1, back'] at back
        exact absurd rfl back

end Pattern

/-- A match: what stands before it, the text matched, the captures and what stands after. -/
structure Match (α : Type) where
  before : List α
  text : List α
  captures : Captures α
  after : List α

namespace Match

/-- Where the match begins and where it stops. -/
def start (m : Match α) : Nat := m.before.length

def stop (m : Match α) : Nat := m.before.length + m.text.length

/-- The place from which the next match is looked for: a symbol is passed over after a
match that took none. -/
def next (m : Match α) : Option (Place α) :=
  match m.text, m.after with
  | [], [] => none
  | [], a :: after => some ⟨m.before ++ [a], after⟩
  | _ :: _, after => some ⟨m.before ++ m.text, after⟩

/-- A match of the pattern in the input. -/
structure Of (m : Match α) (p : Pattern α) (input : List α) : Prop where
  input : input = m.before ++ (m.text ++ m.after)
  takes : p.Takes m.before m.text m.captures m.after

end Match

namespace Pattern

/-- The preferred way to take the pattern at a place. -/
def exec (p : Pattern α) (x : Place α) : Option (Match α) :=
  (p.alternatives x).head?.map fun taken =>
    ⟨x.before, taken.2.before.drop x.before.length, taken.1, taken.2.after⟩

/-- The leftmost match from a place on. -/
def firstMatch (p : Pattern α) : List α → List α → Option (Match α)
  | before, [] => p.exec ⟨before, []⟩
  | before, a :: after =>
      match p.exec ⟨before, a :: after⟩ with
      | some m => some m
      | none => firstMatch p (before ++ [a]) after

def search (p : Pattern α) (input : List α) : Option (Match α) := p.firstMatch [] input

def test (p : Pattern α) (input : List α) : Bool := (p.search input).isSome

/-- The successive matches from a place on, at most as many as the first argument says. -/
def matchesFrom (p : Pattern α) : Nat → Place α → List (Match α)
  | 0, _ => []
  | n + 1, x =>
      match p.firstMatch x.before x.after with
      | none => []
      | some m => m :: match m.next with
          | none => []
          | some y => matchesFrom p n y

/-- The successive matches in an input, none of which overlap. -/
def matchAll (p : Pattern α) (input : List α) : List (Match α) :=
  p.matchesFrom (input.length + 1) ⟨[], input⟩

theorem exec_eq_some {p : Pattern α} {x : Place α} {m : Match α} (found : p.exec x = some m) :
    m.before = x.before ∧ m.Of p (x.before ++ x.after) := by
  obtain ⟨⟨captures, y⟩, preferred, rfl⟩ := Option.map_eq_some_iff.mp found
  obtain ⟨text, way, takes⟩ := mem_alternatives.mp (List.mem_of_mem_head? preferred)
  have taken : y.before.drop x.before.length = text := by rw [way.2, List.drop_left]
  refine ⟨rfl, ?_, ?_⟩
  · change _ = x.before ++ (_ ++ y.after)
    rw [taken, way.1]
  · change p.Takes x.before (y.before.drop x.before.length) captures y.after
    rwa [taken]

theorem exec_eq_none {p : Pattern α} {x : Place α} :
    p.exec x = none ↔ ∀ text captures after, x.after = text ++ after →
      ¬ p.Takes x.before text captures after := by
  rw [exec, Option.map_eq_none_iff, List.head?_eq_none_iff, List.eq_nil_iff_forall_not_mem]
  constructor
  · intro none text captures after rest takes
    exact none (captures, ⟨x.before ++ text, after⟩)
      (mem_alternatives.mpr ⟨text, ⟨rest, rfl⟩, takes⟩)
  · rintro none ⟨captures, y⟩ mem
    obtain ⟨text, way, takes⟩ := mem_alternatives.mp mem
    exact none text captures y.after way.1 takes

theorem firstMatch_eq_some {p : Pattern α} {before after : List α} {m : Match α}
    (found : p.firstMatch before after = some m) :
    before.length ≤ m.start ∧ m.Of p (before ++ after) := by
  induction after generalizing before with
  | nil =>
      obtain ⟨same, sound⟩ := exec_eq_some found
      exact ⟨Nat.le_of_eq (congrArg List.length same).symm, sound⟩
  | cons a after ih =>
      rw [firstMatch] at found
      split at found
      case h_1 m' here =>
        cases found
        obtain ⟨same, sound⟩ := exec_eq_some here
        exact ⟨Nat.le_of_eq (congrArg List.length same).symm, sound⟩
      case h_2 =>
        obtain ⟨later, sound⟩ := ih found
        rw [List.length_append, List.length_singleton] at later
        rw [List.append_assoc] at sound
        exact ⟨by omega, sound⟩

theorem firstMatch_eq_none {p : Pattern α} {before after : List α} :
    p.firstMatch before after = none ↔ ∀ passed text captures rest,
      after = passed ++ (text ++ rest) → ¬ p.Takes (before ++ passed) text captures rest := by
  induction after generalizing before with
  | nil =>
      rw [firstMatch, exec_eq_none]
      constructor
      · intro none passed text captures rest split
        obtain ⟨rfl, stays⟩ := List.append_eq_nil_iff.mp split.symm
        rw [List.append_nil]
        exact none text captures rest stays.symm
      · intro none text captures rest split
        have := none [] text captures rest split
        rwa [List.append_nil] at this
  | cons a after ih =>
      rw [firstMatch]
      constructor
      · intro none passed text captures rest split
        split at none
        case h_1 => cases none
        case h_2 here =>
          cases passed with
          | nil =>
              rw [List.append_nil]
              exact exec_eq_none.mp here text captures rest split
          | cons b passed =>
              obtain ⟨rfl, later⟩ := List.cons.inj split
              have := ih.mp none passed text captures rest later
              rwa [List.append_assoc] at this
      · intro none
        have here : p.exec ⟨before, a :: after⟩ = Option.none := by
          refine exec_eq_none.mpr fun text captures rest split => ?_
          have := none [] text captures rest split
          rwa [List.append_nil] at this
        rw [here]
        refine ih.mpr fun passed text captures rest split => ?_
        have := none (a :: passed) text captures rest (congrArg (a :: ·) split)
        rwa [List.append_assoc]

/-! ### Sequences of terms -/

theorem takes_sequence_cons {p : Pattern α} {ps : List (Pattern α)}
    {before text after : List α} {captures : Captures α} :
    (sequence (p :: ps)).Takes before text captures after ↔
      ∃ t u c d, text = t ++ u ∧ captures = c ++ d ∧ p.Takes before t c (u ++ after) ∧
        (sequence ps).Takes (before ++ t) u d after :=
  Iff.rfl

theorem takes_sequence_append {ps qs : List (Pattern α)} {before text after : List α}
    {captures : Captures α} :
    (sequence (ps ++ qs)).Takes before text captures after ↔
      ∃ t u c d, text = t ++ u ∧ captures = c ++ d ∧
        (sequence ps).Takes before t c (u ++ after) ∧
          (sequence qs).Takes (before ++ t) u d after := by
  induction ps generalizing before text captures with
  | nil =>
      constructor
      · intro takes
        exact ⟨[], text, [], captures, rfl, rfl, ⟨rfl, rfl⟩, by rwa [List.append_nil]⟩
      · rintro ⟨t, u, c, d, rfl, rfl, ⟨rfl, rfl⟩, takes⟩
        rwa [List.append_nil] at takes
  | cons p ps ih =>
      rw [List.cons_append, takes_sequence_cons]
      constructor
      · rintro ⟨t, w, c, e, rfl, rfl, first, rest⟩
        obtain ⟨u, v, d, f, rfl, rfl, middle, last⟩ := ih.mp rest
        refine ⟨t ++ u, v, c ++ d, f, (List.append_assoc ..).symm, (List.append_assoc ..).symm,
          takes_sequence_cons.mpr ⟨t, u, c, d, rfl, rfl, ?_, middle⟩, ?_⟩
        · rwa [List.append_assoc] at first
        · rwa [List.append_assoc] at last
      · rintro ⟨_, v, _, f, rfl, rfl, front, last⟩
        obtain ⟨t, u, c, d, rfl, rfl, first, middle⟩ := takes_sequence_cons.mp front
        refine ⟨t, u ++ v, c, d ++ f, List.append_assoc .., List.append_assoc .., ?_,
          ih.mpr ⟨u, v, d, f, rfl, rfl, middle, ?_⟩⟩
        · rwa [List.append_assoc]
        · rwa [List.append_assoc]

/-- Symbols in a row take themselves. -/
theorem takes_symbols [BEq α] [LawfulBEq α] {symbols before text after : List α}
    {captures : Captures α} :
    (sequence (symbols.map fun a => one (· == a))).Takes before text captures after ↔
      text = symbols ∧ captures = [] := by
  induction symbols generalizing before text captures with
  | nil => exact Iff.rfl
  | cons a symbols ih =>
      rw [List.map_cons, takes_sequence_cons]
      constructor
      · rintro ⟨t, u, c, d, rfl, rfl, ⟨b, same, rfl, rfl⟩, rest⟩
        obtain ⟨rfl, rfl⟩ := ih.mp rest
        rw [eq_of_beq same]
        exact ⟨rfl, rfl⟩
      · rintro ⟨rfl, rfl⟩
        exact ⟨[a], symbols, [], [], rfl, rfl, ⟨a, beq_self_eq_true a, rfl, rfl⟩,
          ih.mpr ⟨rfl, rfl⟩⟩

/-- Where each term takes the words of a language, among the texts of admitted symbols, terms
after one another take the words of the product. -/
theorem takes_sequence_prod {ι : Type} {term : ι → Pattern α} {language : ι → Language α}
    {admitted : α → Prop}
    (each : ∀ i before text after, (∀ a ∈ text, admitted a) →
      ((∃ c, (term i).Takes before text c after) ↔ text ∈ language i))
    (is : List ι) {before text after : List α} (plain : ∀ a ∈ text, admitted a) :
    (∃ c, (sequence (is.map term)).Takes before text c after) ↔
      text ∈ (is.map language).prod := by
  induction is generalizing before text with
  | nil =>
      rw [List.map_nil, List.map_nil, List.prod_nil, Language.mem_one]
      exact ⟨fun ⟨_, takes⟩ => takes.1, fun nothing => ⟨[], nothing, rfl⟩⟩
  | cons i is ih =>
      rw [List.map_cons, List.map_cons, List.prod_cons, Language.mem_mul]
      constructor
      · rintro ⟨captures, takes⟩
        obtain ⟨t, u, c, d, rfl, -, first, rest⟩ := takes_sequence_cons.mp takes
        obtain ⟨plain_t, plain_u⟩ := List.forall_mem_append.mp plain
        exact ⟨t, (each i _ _ _ plain_t).mp ⟨c, first⟩, u, (ih plain_u).mp ⟨d, rest⟩, rfl⟩
      · rintro ⟨t, first, u, rest, rfl⟩
        obtain ⟨plain_t, plain_u⟩ := List.forall_mem_append.mp plain
        obtain ⟨c, first⟩ := (each i before t (u ++ after) plain_t).mpr first
        obtain ⟨d, rest⟩ := (@ih (before ++ t) u plain_u).mpr rest
        exact ⟨c ++ d, takes_sequence_cons.mpr ⟨t, u, c, d, rfl, rfl, first, rest⟩⟩

/-- Terms between both ends of the input are tested against the whole of it. -/
theorem test_anchored {ps : List (Pattern α)} {input : List α} :
    (sequence (atStart :: (ps ++ [atEnd]))).test input = true ↔
      ∃ captures, (sequence ps).Takes [] input captures [] := by
  rw [test, Option.isSome_iff_ne_none, search, ne_eq, firstMatch_eq_none]
  simp only [not_forall, not_not]
  constructor
  · rintro ⟨passed, text, captures, rest, split, whole⟩
    obtain ⟨_, _, _, _, rfl, rfl, ⟨front, rfl, rfl⟩, inner⟩ := takes_sequence_cons.mp whole
    obtain ⟨t, _, c, _, rfl, rfl, takes, _, _, _, _, rfl, rfl, ⟨back, rfl, rfl⟩, rfl, rfl⟩ :=
      takes_sequence_append.mp inner
    obtain ⟨-, rfl⟩ := List.append_eq_nil_iff.mp front
    obtain rfl : rest = [] := back
    simp only [List.nil_append, List.append_nil] at split takes
    exact ⟨c, split ▸ takes⟩
  · rintro ⟨captures, takes⟩
    refine ⟨[], input, captures, [], ?_, takes_sequence_cons.mpr
      ⟨[], input, [], captures, rfl, rfl, ⟨rfl, rfl, rfl⟩, takes_sequence_append.mpr
        ⟨input, [], captures, [], ?_, ?_, takes, [], [], [], [], rfl, rfl, ⟨rfl, rfl, rfl⟩,
          rfl, rfl⟩⟩⟩
    all_goals simp

/-- No assertion about the ends of the input. -/
def floats : Pattern α → Bool
  | empty | one _ | many _ => true
  | seq p q => p.floats && q.floats
  | optional p => p.floats
  | group p => p.floats
  | atStart | atEnd => false

/-- Such a pattern takes a text wherever it stands. -/
theorem Takes.anywhere {p : Pattern α} (floating : p.floats = true)
    {before before' text after after' : List α} {captures : Captures α}
    (takes : p.Takes before text captures after) : p.Takes before' text captures after' := by
  induction p generalizing before before' text after after' captures with
  | empty => exact takes
  | one => exact takes
  | many => exact takes
  | seq p q ihp ihq =>
      obtain ⟨floatsp, floatsq⟩ := (Bool.and_eq_true _ _).mp floating
      obtain ⟨t, u, c, d, rfl, rfl, first, rest⟩ := takes
      exact ⟨t, u, c, d, rfl, rfl, ihp floatsp first, ihq floatsq rest⟩
  | optional p ih =>
      exact takes.imp_left fun ⟨taken, takes⟩ => ⟨taken, ih floating takes⟩
  | group p ih =>
      obtain ⟨c, rfl, takes⟩ := takes
      exact ⟨c, rfl, ih floating takes⟩
  | atStart => cases floating
  | atEnd => cases floating

end Pattern

/-! ## Putting a text together again -/

/-- Matches that follow one another in the input from an index on. -/
def Successive (p : Pattern α) (input : List α) : Nat → List (Match α) → Prop
  | i, [] => i ≤ input.length
  | i, m :: ms => i ≤ m.start ∧ m.Of p input ∧ Successive p input m.stop ms

theorem Successive.mono {p : Pattern α} {input : List α} {i j : Nat} {ms : List (Match α)}
    (h : Successive p input i ms) (le : j ≤ i) : Successive p input j ms := by
  cases ms with
  | nil => exact Nat.le_trans le (show i ≤ input.length from h)
  | cons m ms => exact ⟨Nat.le_trans le h.1, h.2⟩

theorem Successive.of_mem {p : Pattern α} {input : List α} {i : Nat} {ms : List (Match α)}
    (h : Successive p input i ms) : ∀ m ∈ ms, m.Of p input := by
  induction ms generalizing i with
  | nil => nofun
  | cons m ms ih => exact List.forall_mem_cons.mpr ⟨h.2.1, ih h.2.2⟩

namespace Pattern

theorem matchesFrom_successive {p : Pattern α} {n : Nat} {x : Place α} :
    Successive p (x.before ++ x.after) x.before.length (p.matchesFrom n x) := by
  have ends : ∀ {x : Place α}, Successive p (x.before ++ x.after) x.before.length [] := by
    intro x
    rw [Successive, List.length_append]
    omega
  induction n generalizing x with
  | zero => exact ends
  | succ n ih =>
      rw [matchesFrom]
      split
      case h_1 => exact ends
      case h_2 m found =>
        obtain ⟨later, sound⟩ := firstMatch_eq_some found
        refine ⟨later, sound, ?_⟩
        have stops : m.stop ≤ (x.before ++ x.after).length := by
          rw [sound.input, Match.stop]
          simp only [List.length_append]
          omega
        split
        case h_1 => exact stops
        case h_2 y next =>
          -- the next place lies at or behind the end of the match, in the same input
          have same : y.before ++ y.after = x.before ++ x.after ∧ m.stop ≤ y.before.length := by
            rw [sound.input, Match.stop]
            rw [Match.next] at next
            split at next
            case h_1 => cases next
            case h_2 none rest => cases next; simp [none, rest]
            case h_3 => cases next; simp_all
          rw [← same.1]
          exact ih.mono same.2

theorem matchAll_successive (p : Pattern α) (input : List α) :
    Successive p input 0 (p.matchAll input) :=
  matchesFrom_successive (x := ⟨[], input⟩)

end Pattern

/-- From an index on, the stretches of the input between the matches, each passed through
`gap`, and a text in the place of each match. -/
def stitch (gap : List α → List β) (input : List α) : Nat → List (Match α × List β) → List β
  | i, [] => gap (input.drop i)
  | i, (m, text) :: rest =>
      gap ((input.drop i).take (m.start - i)) ++ (text ++ stitch gap input m.stop rest)

/-- The input with a text in the place of each match. -/
def Pattern.replaceAll (p : Pattern α) (input : List α) (text : Match α → List α) : List α :=
  stitch id input 0 ((p.matchAll input).map fun m => (m, text m))

/-- Every match replaced by its own text gives the input. -/
theorem stitch_text {p : Pattern α} {input : List α} {i : Nat} {ms : List (Match α)}
    (h : Successive p input i ms) :
    stitch id input i (ms.map fun m => (m, m.text)) = input.drop i := by
  induction ms generalizing i with
  | nil => rfl
  | cons m ms ih =>
      obtain ⟨later, sound, rest⟩ := h
      have gap : input.drop m.start = m.text ++ input.drop m.stop := by
        rw [sound.input, Match.start, Match.stop, List.drop_left, ← List.append_assoc,
          ← List.length_append, List.drop_left]
      rw [List.map_cons, stitch, ih rest, ← gap, id]
      conv_rhs => rw [← List.take_append_drop (m.start - i) (input.drop i), List.drop_drop]
      rw [Nat.add_sub_cancel' later]

/-- With one match, the texts put in its place can be told from the results. -/
@[simp]
theorem stitch_single_inj {input : List α} {i : Nat} {m : Match α} {t u : List α} :
    stitch id input i [(m, t)] = stitch id input i [(m, u)] ↔ t = u := by
  simp only [stitch, List.append_cancel_left_eq, List.append_cancel_right_eq]

end Mathmodel
