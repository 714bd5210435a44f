import Mathmodel.Tools.Markdown

/-!
# Fenced blocks

A block is opened by a fence and closed by the next fence of its kind that is as long as
the opening one, and one that is not closed extends to the end of the document. The
scanner keeps one bit and turns it over at every fence. A fence inside a block that does
not close it therefore inverts everything below, until another such fence inverts it back.
-/

namespace Mathmodel.Markdown

/-- The symbol of a fence and how many of them it has. -/
structure Marker where
  symbol : Nat
  length : Nat

def marker (line : JsString) : Option Marker :=
  let rest := line.dropWhile RegExp.isSpace
  if (asciiUnits "```").isPrefixOf rest then some ⟨0x60, (rest.takeWhile (· == 0x60)).length⟩
  else if (asciiUnits "~~~").isPrefixOf rest then some ⟨0x7e, (rest.takeWhile (· == 0x7e)).length⟩
  else none

@[simp]
theorem isSome_marker (line : JsString) : (marker line).isSome = fence line := by
  dsimp only [marker, fence]
  split
  case isTrue ticks => rw [ticks]; rfl
  case isFalse ticks =>
      rw [Bool.not_eq_true] at ticks
      rw [ticks, Bool.false_or]
      split
      case isTrue tildes => rw [tildes]; rfl
      case isFalse tildes => rw [Bool.not_eq_true] at tildes; rw [tildes]; rfl

/-- A fence of the same kind, and at least as long. -/
def closes (opening : Marker) (line : JsString) : Bool :=
  (marker line).any fun m => m.symbol == opening.symbol && opening.length ≤ m.length

theorem fence_of_closes {opening : Marker} {line : JsString} (h : closes opening line = true) :
    fence line = true := by
  rw [← isSome_marker]
  cases found : marker line with
  | none => rw [closes, found] at h; exact h
  | some m => rfl

/-- The lines of a document, each with whether it belongs to a fenced block. -/
inductive Blocks : List JsString → List Bool → Prop
  | nil : Blocks [] []
  | prose {line : JsString} {rest : List JsString} {marks : List Bool} :
      marker line = none → Blocks rest marks → Blocks (line :: rest) (false :: marks)
  | closed {first last : JsString} {inside rest : List JsString} {opening : Marker}
      {marks : List Bool} :
      marker first = some opening → (∀ line ∈ inside, closes opening line = false) →
        closes opening last = true → Blocks rest marks →
        Blocks (first :: (inside ++ last :: rest))
          (true :: (inside.map (fun _ => true) ++ true :: marks))
  | unclosed {first : JsString} {inside : List JsString} {opening : Marker} :
      marker first = some opening → (∀ line ∈ inside, closes opening line = false) →
        Blocks (first :: inside) (true :: inside.map fun _ => true)

/-- The block that is open after a line. -/
def next (block : Option Marker) (line : JsString) : Option Marker :=
  match block with
  | none => marker line
  | some opening => if closes opening line then none else some opening

/-- Line by line, whether a block is open before the line or after it. -/
def fenced : Option Marker → List JsString → List Bool
  | _, [] => []
  | block, line :: rest =>
      (block.isSome || (next block line).isSome) :: fenced (next block line) rest

section Spec

variable {opening : Marker} {inside rest lines : List JsString} {marks : List Bool}

theorem fenced_inside (unbroken : ∀ line ∈ inside, closes opening line = false) :
    fenced (some opening) (inside ++ rest) =
      inside.map (fun _ => true) ++ fenced (some opening) rest := by
  induction inside with
  | nil => rfl
  | cons line inside ih =>
      obtain ⟨here, later⟩ := List.forall_mem_cons.mp unbroken
      rw [List.cons_append, fenced, next, here, if_neg Bool.false_ne_true, ih later]
      rfl

theorem fenced_closed {last : JsString} (unbroken : ∀ line ∈ inside, closes opening line = false)
    (close : closes opening last = true) :
    fenced (some opening) (inside ++ last :: rest) =
      inside.map (fun _ => true) ++ true :: fenced none rest := by
  rw [fenced_inside unbroken, fenced, next, close]
  rfl

theorem fenced_unclosed (unbroken : ∀ line ∈ inside, closes opening line = false) :
    fenced (some opening) inside = inside.map fun _ => true := by
  have all : fenced (some opening) (inside ++ []) = _ := fenced_inside unbroken
  rwa [fenced, List.append_nil, List.append_nil] at all

/-- There is one division into blocks. -/
theorem Blocks.eq_fenced (blocks : Blocks lines marks) : marks = fenced none lines := by
  induction blocks with
  | nil => rfl
  | prose plain _ ih => rw [fenced, next, plain, ih]; rfl
  | closed opens unbroken close _ ih =>
      rw [fenced, next, opens, fenced_closed unbroken close, ih]
      rfl
  | unclosed opens unbroken =>
      rw [fenced, next, opens, fenced_unclosed unbroken]
      rfl

/-- The marks of `fenced` are those of a division into blocks. -/
theorem blocks_fenced (lines : List JsString) : Blocks lines (fenced none lines) := by
  induction n : lines.length using Nat.strong_induction_on generalizing lines with
  | h n ih =>
      subst n
      cases lines with
      | nil => exact .nil
      | cons line rest =>
          cases opens : marker line with
          | none =>
              rw [fenced, next, opens]
              exact .prose opens (ih rest.length (Nat.lt_succ_self _) rest rfl)
          | some opening =>
              rw [fenced, next, opens]
              -- the block ends at the first line that closes it
              cases found : rest.find? (closes opening) with
              | none =>
                  have unbroken : ∀ line ∈ rest, closes opening line = false := fun line mem =>
                    Bool.eq_false_iff.mpr (List.find?_eq_none.mp found line mem)
                  rw [fenced_unclosed unbroken]
                  exact .unclosed opens unbroken
              | some last =>
                  obtain ⟨close, inside, after, rfl, before⟩ :=
                    List.find?_eq_some_iff_append.mp found
                  have unbroken : ∀ line ∈ inside, closes opening line = false := fun line mem =>
                    by simpa using before line mem
                  rw [fenced_closed unbroken close]
                  refine .closed opens unbroken close (ih after.length ?_ after rfl)
                  rw [List.length_cons, List.length_append, List.length_cons]
                  omega

/-- Every document has its blocks in exactly one way. -/
theorem blocks_iff : Blocks lines marks ↔ marks = fenced none lines :=
  ⟨Blocks.eq_fenced, fun same => same ▸ blocks_fenced lines⟩

end Spec

/-- A fence that stands inside a block and does not close it. -/
def strays (block : Option Marker) (line : JsString) : Bool :=
  block.any fun opening => fence line && !closes opening line

/-- How many fences stand inside a block and do not close it. -/
def strayFences : Option Marker → List JsString → Nat
  | _, [] => 0
  | block, line :: rest =>
      (if strays block line then 1 else 0) + strayFences (next block line) rest

/-- A fence opens or closes a block, unless it is a stray one. -/
@[simp]
theorem next_isSome (block : Option Marker) (line : JsString) :
    (next block line).isSome = ((block.isSome != fence line) != strays block line) := by
  cases block with
  | none =>
      show (marker line).isSome = ((false != fence line) != false)
      rw [isSome_marker, Bool.bne_false, Bool.false_bne]
  | some opening =>
      cases close : closes opening line with
      | true => simp [next, strays, close, fence_of_closes close]
      | false => simp [next, strays, close]

/-- A line is marked as it belongs to a block, unless it has no fence and the bit of the
scanner is out of step. -/
theorem mark_eq_iff {block : Option Marker} {line : JsString} {inFence : Bool} :
    (((inFence != fence line) || fence line) = (block.isSome || (next block line).isSome)) ↔
      (fence line = false → (inFence = block.isSome)) := by
  rw [next_isSome]
  cases plain : fence line with
  | false =>
      have stray : strays block line = false := by
        cases block with
        | none => rfl
        | some opening => rw [strays, Option.any_some, plain, Bool.false_and]
      rw [stray]
      cases inFence <;> cases block.isSome <;> decide
  | true =>
      cases inFence <;> cases block with
      | none => simp [strays]
      | some opening => simp

/-- The bit goes out of step, or into step again, at the stray fences and at no other line. -/
theorem toggle_eq_iff {block : Option Marker} {line : JsString} {inFence : Bool} :
    ((inFence != fence line) = (next block line).isSome) ↔
      ((inFence = block.isSome) ↔ strays block line = false) := by
  rw [next_isSome]
  cases inFence <;> cases block.isSome <;> cases fence line <;> cases strays block line <;> decide

theorem even_strayFences_cons {block : Option Marker} {line : JsString}
    {rest : List JsString} :
    Even (strayFences block (line :: rest)) ↔
      (strays block line = false ↔ Even (strayFences (next block line) rest)) := by
  rw [strayFences]
  cases strays block line with
  | false => rw [if_neg Bool.false_ne_true, Nat.zero_add, eq_self, true_iff]
  | true =>
      rw [if_pos rfl, Nat.even_add]
      simp

/-- The scanner marks the lines of the blocks exactly where its bit is in step at every line
without a fence, as it is after an even number of stray fences if it is at the start. -/
theorem scanLines_eq_fenced {number : Nat} {inFence : Bool} {block : Option Marker}
    {lines : List JsString} :
    (scanLines number inFence lines).map Record.inFence = fenced block lines ↔
      ∀ above line below, lines = above ++ line :: below → fence line = false →
        (inFence = block.isSome ↔ Even (strayFences block above)) := by
  induction lines generalizing number inFence block with
  | nil =>
      refine ⟨fun _ above line below split => ?_, fun _ => rfl⟩
      exact absurd split.symm (by simp)
  | cons first rest ih =>
      rw [scanLines, fenced, List.map_cons, List.cons.injEq, ih, mark_eq_iff]
      constructor
      · rintro ⟨here, later⟩ above line below whole plain
        cases above with
        | nil =>
            obtain ⟨rfl, rfl⟩ := List.cons.inj whole
            exact iff_of_true (here plain) Even.zero
        | cons a above =>
            obtain ⟨rfl, deeper⟩ := List.cons.inj whole
            have after := later above line below deeper plain
            rw [toggle_eq_iff, iff_assoc] at after
            rw [even_strayFences_cons]
            exact after
      · intro all
        refine ⟨fun plain => (all [] first rest rfl plain).mpr Even.zero, ?_⟩
        intro above line below whole plain
        have after := all (first :: above) line below (congrArg (first :: ·) whole) plain
        rw [even_strayFences_cons] at after
        rw [toggle_eq_iff, iff_assoc]
        exact after

/-- The scan is right exactly if the stray fences above each line that is no fence come in pairs. -/
theorem map_inFence_scanDocument {text : JsString} :
    (scanDocument text).map Record.inFence = fenced none (text.splitOn 0x0a) ↔
      ∀ above line below, text.splitOn 0x0a = above ++ line :: below → fence line = false →
        Even (strayFences none above) := by
  rw [scanDocument, scanLines_eq_fenced]
  simp only [Option.isSome_none, true_iff]

/-- The marks of a document are those of its fenced blocks exactly where every line without a
fence has an even number of stray fences above it. -/
theorem scanDocument_blocks (text : JsString) :
    Blocks (text.splitOn 0x0a) ((scanDocument text).map Record.inFence) ↔
      ∀ above line below, text.splitOn 0x0a = above ++ line :: below → fence line = false →
        Even (strayFences none above) := by
  rw [blocks_iff, map_inFence_scanDocument]

/-- A tilde fence in a backtick block: the code below it is read as rules, and the rules below
the block as code. -/
theorem tilde_fence_inverts_marks :
    (scanDocument (asciiUnits "```\n~~~\ncode\n```\nrule")).map Record.inFence =
        [true, true, false, true, true] ∧
      Blocks ((asciiUnits "```\n~~~\ncode\n```\nrule").splitOn 0x0a)
        [true, true, true, true, false] ∧
      ¬ ∀ text : JsString,
        Blocks (text.splitOn 0x0a) ((scanDocument text).map Record.inFence) := by
  refine ⟨by decide, blocks_iff.mpr (by decide), fun all => ?_⟩
  have marks := (all (asciiUnits "```\n~~~\ncode\n```\nrule")).eq_fenced
  revert marks
  decide

end Mathmodel.Markdown
