import Mathmodel.Json.Canonical

/-!
# Indented JSON and reading it back

A manifest is written as indented JSON and read again by another run. What is read
back from the text of a value is the value: the reader passes over white space, takes
a string up to its closing quotation mark and a number as far as number characters go,
and a value is followed by something that ends it. The induction is on the number of
steps the reader is allowed, which the length of the text bounds.
-/

namespace Mathmodel.JsValue

def newline (indent : Nat) : List Nat := 0x0a :: List.replicate indent 0x20

/-- Texts between brackets, each on a line of its own. -/
def bracketed (left right indent : Nat) (texts : List (List Nat)) : List Nat :=
  if texts = [] then [left, right]
  else
    left :: (separated 0x2c (texts.map fun text => newline (indent + 2) ++ text) ++
      (newline indent ++ [right]))

def memberText (key : JsString) (text : List Nat) : List Nat :=
  JsString.quoted key ++ 0x3a :: 0x20 :: text

mutual

/-- `JSON.stringify(value, null, 2)`, in the middle of a text with this indentation. -/
def pretty (indent : Nat) : JsValue → List Nat
  | .null => asciiUnits "null"
  | .bool true => asciiUnits "true"
  | .bool false => asciiUnits "false"
  | .num n => asciiUnits n.text
  | .str s => JsString.quoted s
  | .arr items => bracketed 0x5b 0x5d indent (prettyItems (indent + 2) items)
  | .obj fields => bracketed 0x7b 0x7d indent (prettyFields (indent + 2) fields)

def prettyItems (indent : Nat) : List JsValue → List (List Nat)
  | [] => []
  | v :: rest => pretty indent v :: prettyItems indent rest

def prettyFields (indent : Nat) : List (JsString × JsValue) → List (List Nat)
  | [] => []
  | (key, v) :: rest => memberText key (pretty indent v) :: prettyFields indent rest

end

@[simp]
theorem prettyItems_eq_map (indent : Nat) (items : List JsValue) :
    prettyItems indent items = items.map (pretty indent) := by
  induction items with
  | nil => rfl
  | cons v items ih => rw [prettyItems, ih, List.map_cons]

@[simp]
theorem prettyFields_eq_map (indent : Nat) (fields : List (JsString × JsValue)) :
    prettyFields indent fields =
      fields.map fun field => memberText field.1 (pretty indent field.2) := by
  induction fields with
  | nil => rfl
  | cons field fields ih => rw [prettyFields, ih, List.map_cons]

/-! ## Reading -/

def isBlank (c : Nat) : Bool := c == 0x20 || c == 0x0a || c == 0x0d || c == 0x09

def skipSpace (s : List Nat) : List Nat := s.dropWhile isBlank

/-- A number, in the form in which numbers are printed. -/
def readNumber (s : List Nat) : Option (JsValue × List Nat) :=
  let text := String.ofList ((s.takeWhile isNumberUnit).map Char.ofNat)
  if printed : text.toList ≠ [] ∧ ∀ c ∈ text.toList, isNumberChar c = true then
    some (.num ⟨text, printed⟩, s.dropWhile isNumberUnit)
  else none

def readScalar (s : List Nat) : Option (JsValue × List Nat) :=
  if (asciiUnits "null").isPrefixOf s then some (.null, s.drop 4)
  else if (asciiUnits "true").isPrefixOf s then some (.bool true, s.drop 4)
  else if (asciiUnits "false").isPrefixOf s then some (.bool false, s.drop 5)
  else readNumber s

/-- Items up to the closing bracket. -/
def readList {β : Type} (item : List Nat → Option (β × List Nat)) (right : Nat) :
    Nat → List Nat → Option (List β × List Nat)
  | 0, _ => none
  | n + 1, s =>
      match item s with
      | none => none
      | some (x, s) =>
          match skipSpace s with
          | [] => none
          | c :: s =>
              if c = 0x2c then (readList item right n s).map fun (xs, s) => (x :: xs, s)
              else if c = right then some ([x], s)
              else none

def readMember (value : List Nat → Option (JsValue × List Nat)) (s : List Nat) :
    Option ((JsString × JsValue) × List Nat) :=
  match skipSpace s with
  | 0x22 :: s =>
      match JsString.readString s with
      | some (key, s) =>
          match skipSpace s with
          | 0x3a :: s => (value s).map fun (v, s) => ((key, v), s)
          | _ => none
      | none => none
  | _ => none

def readValue : Nat → List Nat → Option (JsValue × List Nat)
  | 0, _ => none
  | n + 1, s =>
      match skipSpace s with
      | 0x22 :: s => (JsString.readString s).map fun (text, s) => (.str text, s)
      | 0x5b :: s =>
          match skipSpace s with
          | 0x5d :: s => some (.arr [], s)
          | _ => (readList (readValue n) 0x5d n s).map fun (items, s) => (.arr items, s)
      | 0x7b :: s =>
          match skipSpace s with
          | 0x7d :: s => some (.obj [], s)
          | _ =>
              (readList (readMember (readValue n)) 0x7d n s).map
                fun (fields, s) => (.obj fields, s)
      | s => readScalar s

/-- `JSON.parse(text)`, for texts in which numbers are as they are printed. -/
def parse (text : List Nat) : Option JsValue :=
  match readValue (text.length + 1) text with
  | some (v, rest) => if skipSpace rest = [] then some v else none
  | none => none

/-! ## What is written is read back -/

/-- A line break and the indentation after it are skipped. -/
@[simp]
theorem skipSpace_newline (indent : Nat) (s : List Nat) :
    skipSpace (newline indent ++ s) = skipSpace s := by
  have blanks : skipSpace (List.replicate indent 0x20 ++ s) = skipSpace s := by
    induction indent with
    | zero => rfl
    | succ n ih => exact ih
  exact blanks

/-- White space in front of a value is passed over. -/
@[simp]
theorem readValue_newline (n indent : Nat) (s : List Nat) :
    readValue n (newline indent ++ s) = readValue n s := by
  cases n with
  | zero => rfl
  | succ n => rw [readValue, readValue, skipSpace_newline]

@[simp]
theorem readValue_space (n : Nat) (s : List Nat) : readValue n (0x20 :: s) = readValue n s := by
  cases n with
  | zero => rfl
  | succ n => rfl

@[simp]
theorem readMember_newline (value : List Nat → Option (JsValue × List Nat)) (indent : Nat)
    (s : List Nat) : readMember value (newline indent ++ s) = readMember value s := by
  rw [readMember, readMember, skipSpace_newline]

theorem stops_cons {c : Nat} (plain : isNumberUnit c = false) (rest : List Nat) :
    Stops (c :: rest) := by
  intro d mem
  cases mem
  rw [plain]
  exact Bool.false_ne_true

/-- A list is read back if each of its items is. -/
theorem readList_separated {β : Type} (item : List Nat → Option (β × List Nat))
    {right : Nat} (bracket : right = 0x5d ∨ right = 0x7d) (text : β → List Nat) (indent : Nat)
    {xs : List β} (some_ : xs ≠ [])
    (reads : ∀ x ∈ xs, ∀ rest, Stops rest →
      item (newline (indent + 2) ++ text x ++ rest) = some (x, rest))
    {n : Nat} (enough : xs.length ≤ n) (rest : List Nat) :
    readList item right n
      (separated 0x2c ((xs.map text).map fun text => newline (indent + 2) ++ text) ++
        (newline indent ++ right :: rest)) = some (xs, rest) := by
  have close : isBlank right = false ∧ right ≠ 0x2c := by
    rcases bracket with rfl | rfl <;> exact ⟨rfl, by decide⟩
  induction xs generalizing n with
  | nil => exact absurd rfl some_
  | cons x xs ih =>
      obtain ⟨k, rfl⟩ : ∃ k, n = k + 1 := ⟨n - 1, by rw [List.length_cons] at enough; omega⟩
      obtain ⟨first, others⟩ := List.forall_mem_cons.mp reads
      rw [List.map_cons, List.map_cons, separated_cons, readList]
      cases xs with
      | nil =>
          have ends : Stops (newline indent ++ right :: rest) := stops_cons rfl _
          have closes : skipSpace (newline indent ++ right :: rest) = right :: rest := by
            rw [skipSpace_newline, skipSpace, List.dropWhile_cons_of_neg]
            rw [close.1]
            exact Bool.false_ne_true
          rw [List.map_nil, List.map_nil, following, first _ ends]
          dsimp only
          rw [closes]
          dsimp only
          rw [if_neg close.2, if_pos rfl]
      | cons y ys =>
          have ends : Stops (following 0x2c
              (((y :: ys).map text).map fun text => newline (indent + 2) ++ text)
              (newline indent ++ right :: rest)) := stops_cons rfl _
          rw [first _ ends]
          dsimp only
          have more := ih (List.cons_ne_nil y ys) others (n := k) (by
            simp only [List.length_cons] at enough ⊢
            omega)
          have comma : skipSpace (following 0x2c
              (((y :: ys).map text).map fun text => newline (indent + 2) ++ text)
              (newline indent ++ right :: rest)) =
            0x2c :: (separated 0x2c
              (((y :: ys).map text).map fun text => newline (indent + 2) ++ text) ++
                (newline indent ++ right :: rest)) := rfl
          rw [comma]
          dsimp only
          rw [if_pos rfl, more]
          rfl

/-- A number is read back where something follows that cannot continue it. -/
theorem readNumber_number (m : Number) {rest : List Nat} (ends : Stops rest) :
    readNumber (asciiUnits m.text ++ rest) = some (.num m, rest) := by
  have inside : ∀ c ∈ asciiUnits m.text, isNumberUnit c = true := by
    intro c mem
    obtain ⟨char, used, rfl⟩ := List.mem_map.mp mem
    rw [isNumberUnit, Char.ofNat_toNat]
    exact m.printed.2 char used
  have run : (asciiUnits m.text ++ rest).takeWhile isNumberUnit = asciiUnits m.text ∧
      (asciiUnits m.text ++ rest).dropWhile isNumberUnit = rest := by
    rw [List.takeWhile_append_of_pos inside, List.dropWhile_append_of_pos inside]
    cases rest with
    | nil => simp
    | cons c rest =>
        have out : isNumberUnit c = false := Bool.eq_false_iff.mpr (ends c rfl)
        simp [out]
  have text : String.ofList ((asciiUnits m.text).map Char.ofNat) = m.text := by
    rw [asciiUnits, List.map_map]
    have same : (Char.ofNat ∘ Char.toNat) = id := funext Char.ofNat_toNat
    rw [same, List.map_id, String.ofList_toList]
  rw [readNumber, run.1, run.2]
  simp only [text]
  exact dif_pos m.printed

/-- A scalar is read back. -/
theorem readScalar_number (m : Number) {rest : List Nat} (ends : Stops rest) :
    readScalar (asciiUnits m.text ++ rest) = some (.num m, rest) := by
  obtain ⟨c, tail, text⟩ := List.exists_cons_of_ne_nil m.printed.1
  have number : isNumberChar c = true := m.printed.2 c (text ▸ List.mem_cons_self)
  have other : ∀ word : List Nat, ∀ d ∈ word.head?, isNumberUnit d = false →
      word.isPrefixOf (asciiUnits m.text ++ rest) = false := by
    intro word d first plain
    obtain ⟨word, rfl⟩ := List.head?_eq_some_iff.mp first
    rw [asciiUnits, text]
    simp only [List.map_cons, List.cons_append, List.isPrefixOf_cons_cons, Bool.and_eq_false_imp,
      beq_iff_eq]
    rintro rfl
    rw [isNumberUnit, Char.ofNat_toNat, number] at plain
    cases plain
  rw [readScalar, other (asciiUnits "null") 110 rfl rfl, other (asciiUnits "true") 116 rfl rfl,
    other (asciiUnits "false") 102 rfl rfl]
  exact readNumber_number m ends

theorem separated_length (comma : Nat) {texts : List (List Nat)} (long : ∀ t ∈ texts, t ≠ []) :
    texts.length ≤ (separated comma texts).length ∧
      ∀ t ∈ texts, t.length ≤ (separated comma texts).length := by
  induction texts with
  | nil => exact ⟨Nat.le_refl _, nofun⟩
  | cons text texts ih =>
      obtain ⟨first, others⟩ := List.forall_mem_cons.mp long
      obtain ⟨count, each⟩ := ih others
      have positive := List.length_pos_of_ne_nil first
      have whole := separated_cons comma text texts []
      rw [List.append_nil] at whole
      have rest : (separated comma texts).length ≤ (following comma texts []).length := by
        cases texts with
        | nil => exact Nat.le_refl _
        | cons next texts =>
            change _ ≤ (comma :: (separated comma (next :: texts) ++ [])).length
            rw [List.append_nil, List.length_cons]
            omega
      rw [whole, List.forall_mem_cons, List.length_append, List.length_cons]
      exact ⟨by omega, by omega, fun t mem => by have := each t mem; omega⟩

/-- A bracketed list has more characters than items, and more than any of its items. -/
theorem bracketed_length (left right indent : Nat) (texts : List (List Nat)) :
    texts.length < (bracketed left right indent texts).length ∧
      ∀ text ∈ texts, text.length < (bracketed left right indent texts).length := by
  rw [bracketed]
  split
  case isTrue empty => rw [empty]; exact ⟨Nat.succ_pos _, nofun⟩
  case isFalse =>
      have long : ∀ t ∈ texts.map fun text => newline (indent + 2) ++ text, t ≠ [] := by
        intro t mem
        obtain ⟨text, -, rfl⟩ := List.mem_map.mp mem
        exact List.cons_ne_nil _ _
      obtain ⟨count, each⟩ := separated_length 0x2c long
      rw [List.length_map] at count
      rw [List.length_cons, List.length_append]
      refine ⟨by omega, fun text mem => ?_⟩
      have := each _ (List.mem_map_of_mem mem)
      rw [List.length_append] at this
      omega

/-- What lies in an array or object is shorter. -/
theorem length_lt_pretty_arr {items : List JsValue} {v : JsValue} {indent : Nat} (mem : v ∈ items) :
    (pretty (indent + 2) v).length < (pretty indent (.arr items)).length := by
  rw [pretty.eq_6, prettyItems_eq_map]
  exact (bracketed_length _ _ _ _).2 _ (List.mem_map_of_mem mem)

theorem length_lt_pretty_obj {fields : List (JsString × JsValue)} {key : JsString} {v : JsValue}
    {indent : Nat} (mem : (key, v) ∈ fields) :
    (pretty (indent + 2) v).length < (pretty indent (.obj fields)).length := by
  rw [pretty.eq_7, prettyFields_eq_map]
  have shorter : (memberText key (pretty (indent + 2) v)).length < (bracketed 0x7b 0x7d indent
      (fields.map fun field => memberText field.1 (pretty (indent + 2) field.2))).length :=
    (bracketed_length 0x7b 0x7d indent _).2 _ (List.mem_map.mpr ⟨_, mem, rfl⟩)
  rw [memberText, List.length_append, List.length_cons, List.length_cons] at shorter
  omega

/-- A number does not begin like anything else. -/
theorem number_plain {c : Nat} (number : isNumberUnit c = true) :
    isBlank c = false ∧ c ≠ 0x5d ∧ c ≠ 0x22 ∧ c ≠ 0x5b ∧ c ≠ 0x7b := by
  have other : ∀ d, isNumberUnit d = false → c ≠ d := by
    rintro d plain rfl
    rw [plain] at number
    cases number
  refine ⟨Bool.eq_false_iff.mpr fun blank => ?_, other _ rfl, other _ rfl, other _ rfl,
    other _ rfl⟩
  simp only [isBlank, Bool.or_eq_true, beq_iff_eq] at blank
  rcases blank with ((h | h) | h) | h
  · exact other 0x20 rfl h
  · exact other 0x0a rfl h
  · exact other 0x0d rfl h
  · exact other 0x09 rfl h

theorem number_head (m : Number) :
    ∃ c tail, asciiUnits m.text = c :: tail ∧ isNumberUnit c = true := by
  obtain ⟨c, tail, text⟩ := List.exists_cons_of_ne_nil m.printed.1
  refine ⟨c.toNat, tail.map Char.toNat, by rw [asciiUnits, text, List.map_cons], ?_⟩
  rw [isNumberUnit, Char.ofNat_toNat]
  exact m.printed.2 c (text ▸ List.mem_cons_self)

/-- The text of a value begins with a character that is neither blank nor a closing bracket. -/
theorem pretty_head (v : JsValue) (indent : Nat) :
    ∃ c rest, pretty indent v = c :: rest ∧ isBlank c = false ∧ c ≠ 0x5d := by
  have list : ∀ left right texts, ∃ rest, bracketed left right indent texts = left :: rest := by
    intro left right texts
    rw [bracketed]
    split <;> exact ⟨_, rfl⟩
  cases v with
  | null => exact ⟨110, _, rfl, rfl, by decide⟩
  | bool value =>
      cases value
      · exact ⟨102, _, rfl, rfl, by decide⟩
      · exact ⟨116, _, rfl, rfl, by decide⟩
  | num m =>
      obtain ⟨c, tail, text, number⟩ := number_head m
      exact ⟨c, tail, by rw [pretty, text], (number_plain number).1, (number_plain number).2.1⟩
  | str s => exact ⟨0x22, _, rfl, rfl, by decide⟩
  | arr items =>
      obtain ⟨rest, text⟩ := list 0x5b 0x5d (prettyItems (indent + 2) items)
      exact ⟨0x5b, rest, by rw [pretty, text], rfl, by decide⟩
  | obj fields =>
      obtain ⟨rest, text⟩ := list 0x7b 0x7d (prettyFields (indent + 2) fields)
      exact ⟨0x7b, rest, by rw [pretty, text], rfl, by decide⟩

/-- The first item of a list comes next behind the opening bracket. -/
theorem skipSpace_first {β : Type} (text : β → List Nat) (indent : Nat) {x : β} (xs : List β)
    {c : Nat} {tail : List Nat} (head : text x = c :: tail) (shown : isBlank c = false)
    (r : List Nat) :
    ∃ rest, skipSpace (separated 0x2c
      (((x :: xs).map text).map fun text => newline indent ++ text) ++ r) = c :: rest := by
  rw [List.map_cons, List.map_cons, head, separated_cons, List.append_assoc, skipSpace_newline,
    List.cons_append, skipSpace, List.dropWhile_cons_of_neg]
  · exact ⟨_, rfl⟩
  · rw [shown]
    exact Bool.false_ne_true

theorem readValue_scalar {c : Nat} (rest : List Nat) (n : Nat) (shown : isBlank c = false)
    (plain : c ≠ 0x22 ∧ c ≠ 0x5b ∧ c ≠ 0x7b) :
    readValue (n + 1) (c :: rest) = readScalar (c :: rest) := by
  have here : skipSpace (c :: rest) = c :: rest := by
    rw [skipSpace, List.dropWhile_cons_of_neg]
    rw [shown]
    exact Bool.false_ne_true
  rw [readValue, here]
  split
  case h_1 same => exact absurd (List.cons.inj same).1 plain.1
  case h_2 same => exact absurd (List.cons.inj same).1 plain.2.1
  case h_3 same => exact absurd (List.cons.inj same).1 plain.2.2
  case h_4 => rfl

theorem readValue_items (n : Nat) {s tail : List Nat} {c : Nat} (first : skipSpace s = c :: tail)
    (open_ : c ≠ 0x5d) :
    readValue (n + 1) (0x5b :: s) =
      (readList (readValue n) 0x5d n s).map fun (items, s) => (.arr items, s) := by
  change (match skipSpace s with
    | 0x5d :: s => some (JsValue.arr [], s)
    | _ => _) = _
  rw [first]
  split
  case h_1 same => exact absurd (List.cons.inj same).1 open_
  case h_2 => rfl

theorem readValue_fields (n : Nat) {s tail : List Nat} {c : Nat} (first : skipSpace s = c :: tail)
    (open_ : c ≠ 0x7d) :
    readValue (n + 1) (0x7b :: s) =
      (readList (readMember (readValue n)) 0x7d n s).map fun (fields, s) => (.obj fields, s) := by
  change (match skipSpace s with
    | 0x7d :: s => some (JsValue.obj [], s)
    | _ => _) = _
  rw [first]
  split
  case h_1 same => exact absurd (List.cons.inj same).1 open_
  case h_2 => rfl

theorem bracketed_append {β : Type} {left right indent : Nat} (text : β → List Nat) {xs : List β}
    (some_ : xs ≠ []) (rest : List Nat) :
    bracketed left right indent (xs.map text) ++ rest =
      left :: (separated 0x2c ((xs.map text).map fun text => newline (indent + 2) ++ text) ++
        (newline indent ++ right :: rest)) := by
  rw [bracketed, if_neg (fun h => some_ (List.map_eq_nil_iff.mp h)), List.cons_append,
    List.append_assoc, List.append_assoc]
  rfl

theorem readMember_quoted (value : List Nat → Option (JsValue × List Nat)) (s : List Nat) :
    readMember value (0x22 :: s) = match JsString.readString s with
      | some (key, s) =>
          match skipSpace s with
          | 0x3a :: s => (value s).map fun (v, s) => ((key, v), s)
          | _ => none
      | none => none := rfl

/-- A member is read back if its value is. -/
theorem readMember_memberText {n : Nat} {key : JsString} {v : JsValue} {text rest : List Nat}
    (reads : readValue n (text ++ rest) = some (v, rest)) :
    readMember (readValue n) (memberText key text ++ rest) = some ((key, v), rest) := by
  have quoted : memberText key text ++ rest =
      0x22 :: (JsString.escape key ++ 0x22 :: (0x3a :: 0x20 :: (text ++ rest))) := by
    rw [memberText, JsString.quoted]
    simp only [List.cons_append, List.append_assoc, List.nil_append]
  have name := JsString.readString_escape key (0x3a :: 0x20 :: (text ++ rest))
  rw [quoted, readMember_quoted, name]
  change (readValue n (0x20 :: (text ++ rest))).map _ = _
  rw [readValue_space, reads]
  rfl

/-- What is written for a value is read as the value, whatever ends it. -/
theorem readValue_pretty (n : Nat) : ∀ (v : JsValue) (indent : Nat) (rest : List Nat),
    (pretty indent v).length < n → Stops rest →
      readValue n (pretty indent v ++ rest) = some (v, rest) := by
  induction n with
  | zero => exact fun _ _ _ h => absurd h (Nat.not_lt_zero _)
  | succ n ih =>
      intro v indent rest enough ends
      cases v with
      | null => rfl
      | bool value => cases value <;> rfl
      | num m =>
          obtain ⟨c, tail, text, number⟩ := number_head m
          obtain ⟨shown, -, plain⟩ := number_plain number
          rw [pretty, text, List.cons_append, readValue_scalar (tail ++ rest) n shown plain,
            ← List.cons_append, ← text]
          exact readScalar_number m ends
      | str s =>
          change (JsString.readString ((JsString.escape s ++ [0x22]) ++ rest)).map _ = _
          rw [List.append_assoc]
          change (JsString.readString (JsString.escape s ++ 0x22 :: rest)).map _ = _
          rw [JsString.readString_escape]
          rfl
      | arr items =>
          have bound := bracketed_length 0x5b 0x5d indent (prettyItems (indent + 2) items)
          rw [pretty] at enough ⊢
          rw [prettyItems_eq_map] at bound enough ⊢
          rw [List.length_map] at bound
          cases items with
          | nil => rfl
          | cons v items =>
              obtain ⟨c, tail, text, shown, open_⟩ := pretty_head v (indent + 2)
              have reads := readList_separated (readValue n) (.inl rfl)
                (pretty (indent + 2)) indent (List.cons_ne_nil v items) (fun w mem rest ends => by
                  have := bound.2 _ (List.mem_map_of_mem mem)
                  rw [List.append_assoc, readValue_newline]
                  exact ih w (indent + 2) rest (by omega) ends) (n := n) (by omega) rest
              obtain ⟨_, first⟩ := skipSpace_first (pretty (indent + 2)) (indent + 2) items text
                shown (newline indent ++ 0x5d :: rest)
              rw [bracketed_append _ (List.cons_ne_nil _ _), readValue_items n first open_, reads]
              rfl
      | obj fields =>
          have bound := bracketed_length 0x7b 0x7d indent (prettyFields (indent + 2) fields)
          rw [pretty] at enough ⊢
          rw [prettyFields_eq_map] at bound enough ⊢
          rw [List.length_map] at bound
          cases fields with
          | nil => rfl
          | cons field fields =>
              have reads := readList_separated (readMember (readValue n)) (.inr rfl)
                (fun field => memberText field.1 (pretty (indent + 2) field.2))
                indent (List.cons_ne_nil field fields) (fun other mem rest ends => by
                  have := bound.2 _ (List.mem_map_of_mem mem)
                  rw [memberText, List.length_append, List.length_cons, List.length_cons] at this
                  rw [List.append_assoc, readMember_newline]
                  exact readMember_memberText (ih other.2 (indent + 2) rest (by omega) ends))
                (n := n) (by omega) rest
              obtain ⟨_, first⟩ := skipSpace_first
                (fun field => memberText field.1 (pretty (indent + 2) field.2)) (indent + 2)
                fields (c := 0x22) rfl rfl (newline indent ++ 0x7d :: rest)
              rw [bracketed_append _ (List.cons_ne_nil _ _),
                readValue_fields n first (by decide), reads]
              rfl

/-- What is written is read back. -/
theorem parse_pretty (v : JsValue) (blank : List Nat) (spaces : skipSpace blank = [])
    (ends : Stops blank) : parse (pretty 0 v ++ blank) = some v := by
  rw [parse, readValue_pretty _ v 0 blank _ ends]
  · exact if_pos spaces
  · rw [List.length_append]
    omega

end Mathmodel.JsValue
