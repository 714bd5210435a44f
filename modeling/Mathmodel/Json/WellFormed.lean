import Mathmodel.Json.Indented

/-!
# Surrogates in printed texts

A text is written to a file in UTF-8 and read back unchanged if every surrogate in it belongs
to a pair. What is printed for a value has no other surrogates, whatever the strings in it.
-/

namespace Mathmodel

namespace JsString

/-- Every surrogate belongs to a pair. -/
inductive Paired : JsString → Prop where
  | nil : Paired []
  | unit {u : Nat} {rest : JsString} (high : isHigh u = false) (low : isLow u = false) :
      Paired rest → Paired (u :: rest)
  | pair {u v : Nat} {rest : JsString} (high : isHigh u = true) (low : isLow v = true) :
      Paired rest → Paired (u :: v :: rest)

/-- No surrogate at all. -/
def isPlain (s : JsString) : Bool := s.all fun u => !isHigh u && !isLow u

theorem paired_of_isPlain {s : JsString} (plain : s.isPlain = true) : Paired s := by
  induction s with
  | nil => exact .nil
  | cons u rest ih =>
      rw [isPlain, List.all_cons, Bool.and_eq_true, Bool.and_eq_true, Bool.not_eq_true',
        Bool.not_eq_true'] at plain
      exact .unit plain.1.1 plain.1.2 (ih plain.2)

/-- Two texts without lone surrogates make one without. -/
theorem Paired.append {s t : JsString} (first : Paired s) (second : Paired t) :
    Paired (s ++ t) := by
  induction first with
  | nil => exact second
  | unit high low _ ih => exact .unit high low ih
  | pair high low _ ih => exact .pair high low ih

theorem isPlain_of_lt {s : JsString} (small : ∀ u ∈ s, u < 0xD800) : s.isPlain = true := by
  refine List.all_eq_true.mpr fun u mem => ?_
  have bound := small u mem
  simp only [isHigh, isLow, Bool.and_eq_true, Bool.not_eq_true', decide_eq_false_iff_not]
  omega

theorem hexUnit_lt {n : Nat} (digit : n < 16) : hexUnit n < 0xD800 := by
  unfold hexUnit
  split <;> omega

/-- What an escape writes is plain. -/
@[simp]
theorem isPlain_escapeUnit (u : Nat) : isPlain (escapeUnit u) = true := by
  unfold escapeUnit
  split_ifs with quote backslash backspace tab newline feed return_ code
  iterate 7 rfl
  · have bound : u < 0xE000 := by
      simp only [isHigh, isLow, decide_eq_true_eq] at code
      omega
    have first := hexUnit_lt (n := u / 0x1000) (by omega)
    have second := hexUnit_lt (n := u / 0x100 % 16) (by omega)
    have third := hexUnit_lt (n := u / 16 % 16) (by omega)
    have fourth := hexUnit_lt (n := u % 16) (by omega)
    apply isPlain_of_lt
    simp only [List.mem_cons, List.not_mem_nil, or_false]
    rintro v (rfl | rfl | rfl | rfl | rfl | rfl) <;> omega
  · rw [not_or, not_or, Bool.not_eq_true, Bool.not_eq_true] at code
    rw [isPlain, List.all_cons, code.2.1, code.2.2]
    rfl

@[simp]
theorem paired_escape (s : JsString) : Paired (escape s) := by
  fun_induction escape s with
  | case1 => exact .nil
  | case2 u => exact paired_of_isPlain (isPlain_escapeUnit u)
  | case3 u v rest both ih =>
      rw [Bool.and_eq_true] at both
      exact .pair both.1 both.2 ih
  | case4 u v rest apart ih => exact (paired_of_isPlain (isPlain_escapeUnit u)).append ih

/-- A quoted string has no lone surrogates, whatever the string has. -/
@[simp]
theorem paired_quoted (s : JsString) : Paired (quoted s) :=
  .unit rfl rfl ((paired_escape s).append (.unit rfl rfl .nil))

end JsString

namespace JsValue

open JsString (Paired paired_of_isPlain isPlain_of_lt)

@[simp]
theorem paired_number (m : Number) : Paired (asciiUnits m.text) := by
  apply paired_of_isPlain
  apply isPlain_of_lt
  intro u mem
  obtain ⟨c, there, rfl⟩ := List.mem_map.mp mem
  have digit := m.printed.2 c there
  simp only [isNumberChar, Char.isDigit, Bool.or_eq_true, Bool.and_eq_true, decide_eq_true_eq,
    beq_iff_eq] at digit
  rcases digit with (((digit | rfl) | rfl) | rfl) | rfl
  · have upper := UInt32.le_iff_toNat_le.mp digit.2
    exact lt_of_le_of_lt upper (by decide)
  all_goals decide

theorem paired_separated {texts : List (List Nat)} (each : ∀ t ∈ texts, Paired t) :
    Paired (separated 0x2c texts) := by
  induction texts with
  | nil => exact .nil
  | cons t rest ih =>
      obtain ⟨first, others⟩ := List.forall_mem_cons.mp each
      cases rest with
      | nil => exact first
      | cons u rest => exact first.append (.unit rfl rfl (ih others))

@[simp]
theorem paired_newline (indent : Nat) : Paired (newline indent) := by
  apply paired_of_isPlain
  apply isPlain_of_lt
  intro u mem
  rw [newline, List.mem_cons, List.mem_replicate] at mem
  omega

/-- Brackets around texts without lone surrogates bring in none. -/
theorem paired_bracketed {left right indent : Nat} {texts : List (List Nat)}
    (opens : Paired [left]) (closes : Paired [right]) (each : ∀ t ∈ texts, Paired t) :
    Paired (bracketed left right indent texts) := by
  unfold bracketed
  split
  · exact opens.append closes
  · refine opens.append ((paired_separated ?_).append ((paired_newline indent).append closes))
    intro t mem
    obtain ⟨inner, there, rfl⟩ := List.mem_map.mp mem
    exact (paired_newline _).append (each inner there)

/-- What is printed for a value has no surrogate outside a pair. -/
theorem paired_pretty (v : JsValue) (indent : Nat) : Paired (pretty indent v) :=
  match v with
  | .null => by rw [pretty]; exact paired_of_isPlain (by decide)
  | .bool true => by rw [pretty]; exact paired_of_isPlain (by decide)
  | .bool false => by rw [pretty]; exact paired_of_isPlain (by decide)
  | .num m => by rw [pretty]; exact paired_number m
  | .str s => by rw [pretty]; exact JsString.paired_quoted s
  | .arr items => by
      rw [pretty, prettyItems_eq_map]
      refine paired_bracketed (.unit rfl rfl .nil) (.unit rfl rfl .nil) fun t mem => ?_
      obtain ⟨v, there, rfl⟩ := List.mem_map.mp mem
      exact paired_pretty v (indent + 2)
  | .obj fields => by
      rw [pretty, prettyFields_eq_map]
      refine paired_bracketed (.unit rfl rfl .nil) (.unit rfl rfl .nil) fun t mem => ?_
      obtain ⟨⟨key, v⟩, there, rfl⟩ := List.mem_map.mp mem
      exact (JsString.paired_quoted key).append
        (.unit rfl rfl (.unit rfl rfl (paired_pretty v (indent + 2))))
termination_by sizeOf v
decreasing_by
  · have := List.sizeOf_lt_of_mem there
    simp only [JsValue.arr.sizeOf_spec]
    omega
  · have := List.sizeOf_lt_of_mem there
    simp only [JsValue.obj.sizeOf_spec, Prod.mk.sizeOf_spec] at *
    omega

end JsValue

end Mathmodel
