import Mathmodel.Tools.Kit

/-!
# The language of a glob

What a glob is meant to match is said without regular expressions: its tokens stand for
languages, and the glob for their product. The translation is one term for each token,
and on one line it matches exactly the words of that product.
-/

namespace Mathmodel.Kit

/-- What a glob is made of. -/
inductive Token where
  | directories
  | any
  | segment
  | unit
  | literal (c : Nat)
  deriving DecidableEq

/-- The tokens of a glob, the longest one first at every place. -/
def tokens : JsString → List Token
  | [] => []
  | 0x2a :: 0x2a :: 0x2f :: rest => .directories :: tokens rest
  | 0x2a :: 0x2a :: rest => .any :: tokens rest
  | 0x2a :: rest => .segment :: tokens rest
  | 0x3f :: rest => .unit :: tokens rest
  | c :: rest => .literal c :: tokens rest

namespace Token

/-- What a token stands for. -/
def language : Token → Language Nat
  | directories => {word | word = [] ∨ ∃ path, word = path ++ [0x2f]}
  | any => {_word | True}
  | segment => {word | 0x2f ∉ word}
  | unit => {word | ∃ c, c ≠ 0x2f ∧ word = [c]}
  | literal c => {word | word = [c]}

/-- What a token is read as, once it is translated. -/
def term : Token → Pattern Nat
  | directories => .optional (.sequence [.many dot, .one (· == 0x2f)])
  | any => .many dot
  | segment => .many notSlash
  | unit => .one notSlash
  | literal c => .one (· == c)

end Token

@[simp]
theorem globTerms_eq (pattern : JsString) :
    globTerms pattern = (tokens pattern).map Token.term := by
  fun_induction tokens pattern with
  | case1 => rfl
  | case2 rest ih => rw [globTerms, ih]; rfl
  | case3 rest longer ih =>
      rw [globTerms, ih]
      · rfl
      · exact longer
  | case4 rest longer long ih =>
      rw [globTerms, ih]
      · rfl
      · exact longer
      · exact long
  | case5 rest ih => rw [globTerms, ih]; rfl
  | case6 c rest _ _ star mark ih =>
      rw [globTerms, ih]
      · rfl
      all_goals assumption

@[simp]
theorem notSlash_iff {c : Nat} : notSlash c = true ↔ c ≠ 0x2f := by
  simp [notSlash]

/-- On one line a token takes the words it stands for. -/
theorem Token.takes_iff (token : Token) (before text after : JsString)
    (one_line : ∀ c ∈ text, RegExp.isLineTerminator c = false) :
    (∃ captures, token.term.Takes before text captures after) ↔ text ∈ token.language := by
  have dotted : ∀ c ∈ text, dot c = true := fun c mem => by
    rw [dot, one_line c mem]
    rfl
  cases token with
  | directories =>
      constructor
      · rintro ⟨_, ⟨-, takes⟩ | ⟨rfl, -⟩⟩
        · obtain ⟨path, last, _, _, rfl, -, -, rest⟩ := Pattern.takes_sequence_cons.mp takes
          obtain ⟨slash, tail, _, _, rfl, -, ⟨c, same, rfl, -⟩, rfl, -⟩ :=
            Pattern.takes_sequence_cons.mp rest
          rw [eq_of_beq same]
          exact .inr ⟨path, rfl⟩
        · exact .inl rfl
      · rintro (rfl | ⟨path, rfl⟩)
        · exact ⟨_, .inr ⟨rfl, rfl⟩⟩
        · have all := (List.forall_mem_append.mp dotted).1
          refine ⟨[], .inl ⟨by simp, Pattern.takes_sequence_cons.mpr ⟨path, [0x2f], [], [], rfl,
            rfl, ⟨all, rfl⟩, Pattern.takes_sequence_cons.mpr ⟨[0x2f], [], [], [], rfl, rfl,
              ⟨0x2f, rfl, rfl, rfl⟩, rfl, rfl⟩⟩⟩⟩
  | any => exact ⟨fun _ => trivial, fun _ => ⟨[], dotted, rfl⟩⟩
  | segment =>
      constructor
      · rintro ⟨_, all, -⟩ mem
        exact notSlash_iff.mp (all 0x2f mem) rfl
      · intro free
        refine ⟨[], fun c mem => notSlash_iff.mpr ?_, rfl⟩
        rintro rfl
        exact free mem
  | unit =>
      constructor
      · rintro ⟨_, c, other, rfl, -⟩
        exact ⟨c, notSlash_iff.mp other, rfl⟩
      · rintro ⟨c, other, rfl⟩
        exact ⟨[], c, notSlash_iff.mpr other, rfl, rfl⟩
  | literal c =>
      constructor
      · rintro ⟨_, a, same, rfl, -⟩
        rw [eq_of_beq same]
        rfl
      · rintro rfl
        exact ⟨[], c, beq_self_eq_true c, rfl, rfl⟩

/-- The paths a glob is meant to match. -/
def globLanguage (pattern : JsString) : Language Nat := ((tokens pattern).map Token.language).prod

/-- The expression built for a glob matches its language. -/
theorem test_iff_mem_globLanguage (pattern : JsString) {path : JsString}
    (one_line : ∀ c ∈ path, RegExp.isLineTerminator c = false) :
    (globToRegExp pattern).test path = true ↔ path ∈ globLanguage pattern := by
  rw [globToRegExp_test, globTerms_eq, globLanguage]
  exact Pattern.takes_sequence_prod Token.takes_iff _ one_line

/-- Some glob of a list matches. -/
theorem matchesAny_iff {path : JsString} {patterns : List JsString}
    (one_line : ∀ c ∈ path, RegExp.isLineTerminator c = false) :
    matchesAny path patterns = true ↔ ∃ pattern ∈ patterns, path ∈ globLanguage pattern := by
  rw [matchesAny, List.any_eq_true]
  simp only [test_iff_mem_globLanguage _ one_line]

/-- The text a glob is translated to is read with one term for each of its tokens, and matches
the paths the glob is meant to match. -/
theorem globToRegExp_matches (pattern : JsString) :
    RegExp.read (asciiUnits "^" ++ (globSource pattern ++ asciiUnits "$")) =
        some (.sequence (.atStart :: ((tokens pattern).map Token.term ++ [.atEnd]))) ∧
      ∀ path, (∀ c ∈ path, RegExp.isLineTerminator c = false) →
        ((globToRegExp pattern).test path = true ↔ path ∈ globLanguage pattern) := by
  refine ⟨?_, fun path one_line => test_iff_mem_globLanguage pattern one_line⟩
  rw [← globTerms_eq]
  exact (reads_glob pattern).read

theorem globToRegExp_matches_nested :
    asciiUnits "lib/kit.mjs" ∈ globLanguage (asciiUnits "**/kit.mjs") :=
  ((globToRegExp_matches (asciiUnits "**/kit.mjs")).2 (asciiUnits "lib/kit.mjs")
    (by decide)).mp (by decide)

end Mathmodel.Kit
