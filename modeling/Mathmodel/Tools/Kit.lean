import Mathmodel.Tools.RegExp

/-!
# Globs of the gates

The one glob dialect of the gates is translated to a regular expression as text. The
translation is one that can be read for every pattern, and what it is read as is given
piece by piece.
-/

namespace Mathmodel.Kit

/-- Characters that are escaped in a pattern, beside the two that are translated. -/
def needsEscape (c : Nat) : Bool := (asciiUnits ".+^$\x7b\x7d()|[]\\").elem c

/-- The text of the regular expression between its anchors. -/
def globSource : JsString → JsString
  | [] => []
  | 0x2a :: 0x2a :: 0x2f :: rest => asciiUnits "(?:.*/)?" ++ globSource rest
  | 0x2a :: 0x2a :: rest => asciiUnits ".*" ++ globSource rest
  | 0x2a :: rest => asciiUnits "[^/]*" ++ globSource rest
  | 0x3f :: rest => asciiUnits "[^/]" ++ globSource rest
  | c :: rest => (if needsEscape c then [0x5c, c] else [c]) ++ globSource rest

/-- The class `.` -/
def dot (c : Nat) : Bool := !RegExp.isLineTerminator c

/-- The class `[^/]` -/
def notSlash (c : Nat) : Bool := !(c == 0x2f || false)

/-- The terms the text is read as. -/
def globTerms : JsString → List (Pattern Nat)
  | [] => []
  | 0x2a :: 0x2a :: 0x2f :: rest =>
      .optional (.sequence [.many dot, .one (· == 0x2f)]) :: globTerms rest
  | 0x2a :: 0x2a :: rest => .many dot :: globTerms rest
  | 0x2a :: rest => .many notSlash :: globTerms rest
  | 0x3f :: rest => .one notSlash :: globTerms rest
  | c :: rest => .one (· == c) :: globTerms rest

/-- Everything with a meaning in a regular expression is translated or escaped. -/
theorem needsEscape_eq {c : Nat} (star : c ≠ 0x2a) (mark : c ≠ 0x3f) :
    needsEscape c = RegExp.isSyntax c := by
  have here : asciiUnits ".+^$\x7b\x7d()|[]\\" =
      [0x2e, 0x2b, 0x5e, 0x24, 0x7b, 0x7d, 0x28, 0x29, 0x7c, 0x5b, 0x5d, 0x5c] := by decide
  have there : asciiUnits "^$\\.*+?()[]\x7b\x7d|" =
      [0x5e, 0x24, 0x5c, 0x2e, 0x2a, 0x2b, 0x3f, 0x28, 0x29, 0x5b, 0x5d, 0x7b, 0x7d, 0x7c] := by
    decide
  rw [Bool.eq_iff_iff, needsEscape, RegExp.isSyntax, here, there, List.elem_iff, List.elem_iff]
  simp only [List.mem_cons, List.not_mem_nil, or_false]
  omega

theorem reads_globSource {text : JsString} {terms : List (Pattern Nat)}
    (after : RegExp.Reads text terms) (pattern : JsString) :
    RegExp.Reads (globSource pattern ++ text) (globTerms pattern ++ terms) := by
  fun_induction globSource pattern with
  | case1 => exact after
  | case2 rest ih =>
      have units : asciiUnits "(?:.*/)?" = [0x28, 0x3f, 0x3a, 0x2e, 0x2a, 0x2f, 0x29, 0x3f] := by
        decide
      rw [units, List.append_assoc, globTerms, List.cons_append]
      refine ih.term (c := 0x28) (s := [0x3f, 0x3a, 0x2e, 0x2a, 0x2f, 0x29, 0x3f])
        (r := 0x3f :: (globSource rest ++ text))
        (p := .sequence [.many dot, .one (· == 0x2f)]) (by decide) (fun n long => ?_) rfl
      -- the group holds fewer terms than its text has characters
      obtain ⟨k, rfl⟩ : ∃ k, n = k + 4 := ⟨n - 4, by
        simp only [List.cons_append, List.length_cons] at long
        omega⟩
      rfl
  | case3 rest longer ih =>
      have units : asciiUnits ".*" = [0x2e, 0x2a] := by decide
      rw [units, List.append_assoc, globTerms, List.cons_append]
      · exact ih.term (c := 0x2e) (s := [0x2a]) (by decide) (fun _ _ => rfl) rfl
      · exact longer
  | case4 rest longer long ih =>
      have units : asciiUnits "[^/]*" = [0x5b, 0x5e, 0x2f, 0x5d, 0x2a] := by decide
      rw [units, List.append_assoc, globTerms, List.cons_append]
      · exact ih.term (c := 0x5b) (s := [0x5e, 0x2f, 0x5d, 0x2a]) (by decide)
          (fun _ _ => rfl) rfl
      · exact longer
      · exact long
  | case5 rest ih =>
      have units : asciiUnits "[^/]" = [0x5b, 0x5e, 0x2f, 0x5d] := by decide
      rw [units, List.append_assoc, globTerms, List.cons_append]
      exact ih.atom (c := 0x5b) (s := [0x5e, 0x2f, 0x5d]) (by decide) (fun _ _ => rfl)
  | case6 c rest _ _ star mark ih =>
      have same := needsEscape_eq star mark
      rw [same, List.append_assoc, globTerms, List.cons_append]
      · exact ih.unit c
      all_goals assumption

theorem reads_glob (pattern : JsString) :
    RegExp.Reads (asciiUnits "^" ++ (globSource pattern ++ asciiUnits "$"))
      (.atStart :: (globTerms pattern ++ [.atEnd])) := by
  have last : RegExp.Reads (asciiUnits "$") [.atEnd] :=
    RegExp.Reads.nil.atom (c := 0x24) (s := []) (by decide) (fun _ _ => rfl)
  exact (reads_globSource last pattern).atom (c := 0x5e) (s := []) (by decide) (fun _ _ => rfl)

/-- The translation of a glob is a regular expression, whatever the glob. -/
def globToRegExp (pattern : JsString) : Pattern Nat :=
  (RegExp.read (asciiUnits "^" ++ (globSource pattern ++ asciiUnits "$"))).get
    (by rw [(reads_glob pattern).read]; rfl)

def matchesAny (relative : JsString) (patterns : List JsString) : Bool :=
  patterns.any fun pattern => (globToRegExp pattern).test relative

theorem globToRegExp_test (pattern relative : JsString) :
    (globToRegExp pattern).test relative = true ↔
      ∃ captures, (Pattern.sequence (globTerms pattern)).Takes [] relative captures [] := by
  have read : globToRegExp pattern =
      .sequence (.atStart :: (globTerms pattern ++ [.atEnd])) := by
    rw [globToRegExp, Option.get_of_eq_some]
    exact (reads_glob pattern).read
  rw [read, Pattern.test_anchored]

/-! ## What the shapes of globs in use match -/

end Mathmodel.Kit
