import Mathmodel.Json.Canonical
import Mathmodel.Library.Pattern

/-!
# Regular expressions as the gates write them

The gates put regular expressions together as text, so the text is what has to be
right: `RegExp.read` reads the part of the syntax they use, without the `u` flag, as a
pattern over code units, and refuses everything else. `Reads` collects what a text put
together from pieces is read as. `getSubstitution` is what `String.prototype.replace`
makes of a replacement given as a string.
-/

namespace Mathmodel.RegExp

/-- Characters with a meaning of their own in a regular expression. -/
def isSyntax (c : Nat) : Bool := (asciiUnits "^$\\.*+?()[]\x7b\x7d|").elem c

def isDigit (c : Nat) : Bool := decide (48 ≤ c ∧ c ≤ 57)

/-- White space and line terminators, the class `\s`. -/
def isSpace (c : Nat) : Bool :=
  decide ((9 ≤ c ∧ c ≤ 13) ∨ (0x2000 ≤ c ∧ c ≤ 0x200a)) ||
    [0x20, 0xa0, 0x1680, 0x2028, 0x2029, 0x202f, 0x205f, 0x3000, 0xfeff].elem c

def isLineTerminator (c : Nat) : Bool := [0x0a, 0x0d, 0x2028, 0x2029].elem c

/-- What a backslash and a character stand for. -/
def escaped (c : Nat) : Option (Nat → Bool) :=
  if c = 100 then some isDigit
  else if c = 115 then some isSpace
  else if c = 110 then some (· == 0x0a)
  else if isSyntax c || c == 0x2f then some (· == c)
  else none

/-- The rest of a class behind its opening bracket. -/
def readClass : JsString → Option ((Nat → Bool) × JsString)
  | [] => none
  | 0x5d :: s => some (fun _ => false, s)
  | 0x5c :: c :: s => do
      let accepts ← escaped c
      let (others, s) ← readClass s
      some (fun u => accepts u || others u, s)
  | low :: 0x2d :: high :: s =>
      -- a hyphen that stands last in the class stands for itself
      if high = 0x5d then some (fun u => u == low || u == 0x2d, s)
      else do
        let (others, s) ← readClass s
        some (fun u => decide (low ≤ u ∧ u ≤ high) || others u, s)
  | c :: s => do
      let (others, s) ← readClass s
      some (fun u => u == c || others u, s)

/-- An atom or an assertion, where `terms` reads what stands between parentheses. -/
def readAtom (terms : JsString → Option (List (Pattern Nat) × JsString)) :
    JsString → Option (Pattern Nat × JsString)
  | [] => none
  | 0x5c :: c :: s => (escaped c).map fun accepts => (.one accepts, s)
  | 0x28 :: 0x3f :: 0x3a :: s =>
      match terms s with
      | some (ps, 0x29 :: s) => some (.sequence ps, s)
      | _ => none
  | 0x28 :: s =>
      match terms s with
      | some (ps, 0x29 :: s) => some (.group (.sequence ps), s)
      | _ => none
  | 0x5b :: 0x5e :: s => (readClass s).map fun (accepts, s) => (.one fun u => !accepts u, s)
  | 0x5b :: s => (readClass s).map fun (accepts, s) => (.one accepts, s)
  | 0x2e :: s => some (.one fun u => !isLineTerminator u, s)
  | 0x5e :: s => some (.atStart, s)
  | 0x24 :: s => some (.atEnd, s)
  | c :: s => if isSyntax c then none else some (.one (· == c), s)

/-- An atom with the quantifier behind it. A quantifier that is left standing is refused
as the next atom. -/
def quantified : Pattern Nat → JsString → Pattern Nat × JsString
  | .one accepts, 0x2a :: s => (.many accepts, s)
  | .one accepts, 0x2b :: s => (.seq (.one accepts) (.many accepts), s)
  | .atStart, s => (.atStart, s)
  | .atEnd, s => (.atEnd, s)
  | p, 0x3f :: s => (.optional p, s)
  | p, s => (p, s)

/-- The terms up to the end of the text or a closing parenthesis. -/
def readTerms : Nat → JsString → Option (List (Pattern Nat) × JsString)
  | 0, _ => none
  | _ + 1, [] => some ([], [])
  | n + 1, c :: s =>
      if c = 0x29 then some ([], c :: s)
      else do
        let (atom, s) ← readAtom (readTerms n) (c :: s)
        let (term, s) := quantified atom s
        let (terms, s) ← readTerms n s
        some (term :: terms, s)

/-- `new RegExp(text)`, where the syntax is one the gates use. -/
def read (text : JsString) : Option (Pattern Nat) :=
  match readTerms (text.length + 1) text with
  | some (terms, []) => some (.sequence terms)
  | _ => none

/-- The text is read as these terms, whatever the number of steps allowed above its length. -/
def Reads (text : JsString) (terms : List (Pattern Nat)) : Prop :=
  ∀ n, text.length < n → readTerms n text = some (terms, [])

namespace Reads

variable {text : JsString} {terms : List (Pattern Nat)}

theorem nil : Reads [] [] := by
  intro n h
  cases n with
  | zero => exact absurd h (Nat.not_lt_zero _)
  | succ n => rfl

theorem read (h : Reads text terms) : RegExp.read text = some (.sequence terms) := by
  rw [RegExp.read, h _ (Nat.lt_succ_self _)]

/-- No quantifier stands at the front of a text that is read. -/
theorem quantified (h : Reads text terms) (p : Pattern Nat) :
    RegExp.quantified p text = (p, text) := by
  have refused : ∀ c ∈ [0x2a, 0x2b, 0x3f], ∀ s, text ≠ c :: s := by
    rintro c mem s rfl
    have none : readTerms (s.length + 2) (c :: s) = none := by
      simp only [List.mem_cons, List.not_mem_nil, or_false] at mem
      rcases mem with rfl | rfl | rfl <;> rfl
    rw [h _ (by simp)] at none
    cases none
  unfold RegExp.quantified
  split
  case h_1 => exact absurd rfl (refused 0x2a (by decide) _)
  case h_2 => exact absurd rfl (refused 0x2b (by decide) _)
  case h_5 => exact absurd rfl (refused 0x3f (by decide) _)
  all_goals rfl

/-- A term in front of a text that is read. -/
theorem term (h : Reads text terms) {c : Nat} {s r : JsString} {p q : Pattern Nat}
    (unclosed : c ≠ 0x29) (read : ∀ n, (s ++ text).length < n + 1 →
      readAtom (readTerms n) (c :: (s ++ text)) = some (p, r))
    (quantifier : RegExp.quantified p r = (q, text)) :
    Reads (c :: s ++ text) (q :: terms) := by
  intro n long
  cases n with
  | zero => exact absurd long (Nat.not_lt_zero _)
  | succ n =>
      rw [List.cons_append, List.length_cons] at long
      rw [List.cons_append, readTerms, if_neg unclosed, read n (by omega)]
      simp only [Option.bind_eq_bind, Option.bind_some, quantifier]
      rw [h n (by rw [List.length_append] at long; omega)]
      rfl

/-- An atom without a quantifier in front of a text that is read. -/
theorem atom (h : Reads text terms) {c : Nat} {s : JsString} {p : Pattern Nat}
    (unclosed : c ≠ 0x29) (read : ∀ n, (s ++ text).length < n + 1 →
      readAtom (readTerms n) (c :: (s ++ text)) = some (p, text)) :
    Reads (c :: s ++ text) (p :: terms) :=
  h.term unclosed read (h.quantified p)

theorem unit (h : Reads text terms) (c : Nat) :
    Reads ((if isSyntax c then [0x5c, c] else [c]) ++ text) (.one (· == c) :: terms) := by
  by_cases special : isSyntax c = true
  · rw [if_pos special]
    have stands : escaped c = some (· == c) := by
      have other : ∀ d, isSyntax d = false → c ≠ d :=
        fun d plain same => by rw [same, plain] at special; cases special
      rw [escaped, if_neg (other 100 (by decide)), if_neg (other 115 (by decide)),
        if_neg (other 110 (by decide)), if_pos (by rw [special]; rfl)]
    refine h.atom (c := 0x5c) (s := [c]) (by decide) fun n _ => ?_
    change (escaped c).map (fun accepts => (Pattern.one accepts, text)) = _
    rw [stands]
    rfl
  · rw [if_neg special]
    have plain : ∀ d, isSyntax d = true → c ≠ d := fun d h same => special (same ▸ h)
    refine h.atom (c := c) (s := []) (plain 0x29 (by decide)) fun n _ => ?_
    rw [readAtom, if_neg special]
    · rfl
    case x_1 => exact fun _ _ same _ => plain _ (by decide) same
    case x_2 => exact fun _ same _ => plain _ (by decide) same
    case x_4 => exact fun _ same _ => plain _ (by decide) same
    all_goals exact fun same => plain _ (by decide) same

end Reads

/-- The replacement for a match, from what stands behind a dollar sign in the template,
with the rest of the template. With `none` the dollar sign stands for itself. -/
def reference (m : Match Nat) : JsString → Option (JsString × JsString)
  | [] => none
  | c :: s =>
      let capture (n : Nat) : Option JsString :=
        if 1 ≤ n then (m.captures[n - 1]?).map (·.getD []) else none
      if c = 0x24 then some ([0x24], s)
      else if c = 0x26 then some (m.text, s)
      else if c = 0x60 then some (m.before, s)
      else if c = 0x27 then some (m.after, s)
      else if isDigit c then
        match s with
        | d :: s' =>
            -- two digits that name no group are one digit and a character
            if isDigit d ∧ 10 * (c - 48) + (d - 48) ≤ m.captures.length then
              (capture (10 * (c - 48) + (d - 48))).map (·, s')
            else (capture (c - 48)).map (·, s)
        | [] => (capture (c - 48)).map (·, [])
      else none

/-- The text a template stands for at a match, in at most as many steps as the first
argument says. -/
def substitute (m : Match Nat) : Nat → JsString → JsString
  | 0, template => template
  | _ + 1, [] => []
  | n + 1, c :: s =>
      if c = 0x24 then
        match reference m s with
        | some (text, rest) => text ++ substitute m n rest
        | none => c :: substitute m n s
      else c :: substitute m n s

def getSubstitution (m : Match Nat) (template : JsString) : JsString :=
  substitute m template.length template

/-- Whether what follows a dollar sign makes it a reference, at a match with so many groups. -/
def refers (groups : Nat) : JsString → Bool
  | [] => false
  | c :: s =>
      let names (n : Nat) : Bool := decide (1 ≤ n ∧ n ≤ groups)
      if c = 0x24 ∨ c = 0x26 ∨ c = 0x60 ∨ c = 0x27 then true
      else if isDigit c then
        match s with
        | d :: _ =>
            if isDigit d ∧ 10 * (c - 48) + (d - 48) ≤ groups then names (10 * (c - 48) + (d - 48))
            else names (c - 48)
        | [] => names (c - 48)
      else false

/-- Some dollar sign of the template is a reference. -/
def hasReference (groups : Nat) : JsString → Bool
  | [] => false
  | c :: s => (c == 0x24 && refers groups s) || hasReference groups s

theorem reference_eq_none {m : Match Nat} {s : JsString}
    (plain : refers m.captures.length s = false) : reference m s = none := by
  have unnamed : ∀ n rest, decide (1 ≤ n ∧ n ≤ m.captures.length) = false →
      Option.map (fun text : JsString => (text, rest)) (if 1 ≤ n then
        (m.captures[n - 1]?).map (·.getD []) else none) =
          (none : Option (JsString × JsString)) := by
    intro n rest outside
    rw [decide_eq_false_iff_not] at outside
    split
    case isTrue positive =>
        rw [List.getElem?_eq_none (by omega)]
        rfl
    case isFalse => rfl
  cases s with
  | nil => rfl
  | cons c s =>
      rw [refers.eq_def] at plain
      dsimp only at plain
      split at plain
      case isTrue => cases plain
      case isFalse ordinary =>
          obtain ⟨dollar, whole, before, after⟩ := by simpa only [not_or] using ordinary
          rw [reference.eq_def]
          simp only [if_neg dollar, if_neg whole, if_neg before, if_neg after]
          split
          case isFalse => rfl
          case isTrue digit =>
              rw [if_pos digit] at plain
              cases s with
              | nil => exact unnamed _ _ plain
              | cons d s =>
                  dsimp only at plain ⊢
                  split
                  case isTrue two =>
                      rw [if_pos two] at plain
                      exact unnamed _ _ plain
                  case isFalse one =>
                      rw [if_neg one] at plain
                      exact unnamed _ _ plain

/-- A template without references stands for itself. -/
theorem getSubstitution_plain {m : Match Nat} {template : JsString}
    (plain : hasReference m.captures.length template = false) :
    getSubstitution m template = template := by
  have all : ∀ n, substitute m n template = template := by
    induction template with
    | nil => intro n; cases n <;> rfl
    | cons c s ih =>
        intro n
        rw [hasReference, Bool.or_eq_false_iff, Bool.and_eq_false_iff] at plain
        obtain ⟨here, rest⟩ := plain
        cases n with
        | zero => rfl
        | succ n =>
            rw [substitute, ih rest n]
            split
            case isTrue sign =>
                rw [sign, beq_self_eq_true] at here
                rw [reference_eq_none (here.resolve_left Bool.noConfusion)]
            case isFalse => rfl
  exact all _

end Mathmodel.RegExp
