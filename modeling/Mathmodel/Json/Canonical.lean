import Mathmodel.Json.Text
import Mathmodel.Library.Dialogue
import Mathmodel.Library.Separated

/-!
# Canonical text decides equality

A command is identified by the digest of its canonical text, so the text has to be
the same for equal bodies and different for different ones. Values are taken here as
JavaScript holds them: strings are sequences of UTF-16 code units, surrogates that
belong to no pair included, and the members of an object have distinct names in
some order.

That equal texts come from equal values is an argument about reading the text back:
no scalar is followed by a character that could continue it, so each value is pinned
by its text, by induction on the value.
-/

namespace Mathmodel

/-- A string by its UTF-16 code units. -/
abbrev JsString := List Nat

namespace JsString

def isHigh (u : Nat) : Bool := decide (0xD800 ≤ u ∧ u < 0xDC00)

def isLow (u : Nat) : Bool := decide (0xDC00 ≤ u ∧ u < 0xE000)

/-- Code unit of a hexadecimal digit. -/
def hexUnit (n : Nat) : Nat := if n < 10 then 48 + n else 87 + n

/-- A code unit that belongs to no surrogate pair, between quotation marks. -/
def escapeUnit (u : Nat) : List Nat :=
  if u = 0x22 then [0x5c, 0x22]
  else if u = 0x5c then [0x5c, 0x5c]
  else if u = 0x08 then [0x5c, 98]
  else if u = 0x09 then [0x5c, 116]
  else if u = 0x0a then [0x5c, 110]
  else if u = 0x0c then [0x5c, 102]
  else if u = 0x0d then [0x5c, 114]
  else if u < 0x20 ∨ isHigh u ∨ isLow u then
    [0x5c, 117, hexUnit (u / 0x1000), hexUnit (u / 0x100 % 16), hexUnit (u / 16 % 16),
      hexUnit (u % 16)]
  else [u]

/-- The code units between the quotation marks. Surrogate pairs are written as they are,
other surrogates are escaped. -/
def escape : JsString → List Nat
  | [] => []
  | [u] => escapeUnit u
  | u :: v :: rest =>
      if isHigh u && isLow v then u :: v :: escape rest
      else escapeUnit u ++ escape (v :: rest)

/-- The text `JSON.stringify` gives for a string. -/
def quoted (s : JsString) : List Nat := 0x22 :: (escape s ++ [0x22])

theorem length_escapeUnit (u : Nat) : 1 ≤ (escapeUnit u).length := by
  unfold escapeUnit
  split_ifs <;> simp

theorem length_le_escape (s : JsString) : s.length ≤ (escape s).length := by
  fun_induction escape s with
  | case1 => exact Nat.le_refl _
  | case2 u => exact length_escapeUnit u
  | case3 u v rest pair ih =>
      rw [List.length_cons, List.length_cons, List.length_cons, List.length_cons]
      omega
  | case4 u v rest other ih =>
      have first := length_escapeUnit u
      simp only [List.length_cons, List.length_append] at ih ⊢
      omega

/-- A quoted string is at least as long as the string. -/
theorem length_le_quoted (s : JsString) : s.length ≤ (quoted s).length := by
  have inner := length_le_escape s
  rw [quoted, List.length_cons, List.length_append]
  omega

end JsString

/-- A JSON value in memory. -/
inductive JsValue where
  | null
  | bool (value : Bool)
  | num (value : Number)
  | str (value : JsString)
  | arr (items : List JsValue)
  | obj (fields : List (JsString × JsValue))

/-- The code units of a text of ASCII characters. -/
def asciiUnits (text : String) : List Nat := text.toList.map Char.toNat

namespace JsValue

/-- The order of `Array.prototype.sort` on strings. -/
def sortKeys (keys : List JsString) : List JsString := keys.insertionSort (· ≤ ·)

mutual

/-- The function `canonical`. `value[key]` is looked up among the texts of the members. -/
def canonical : JsValue → List Nat
  | .null => asciiUnits "null"
  | .bool true => asciiUnits "true"
  | .bool false => asciiUnits "false"
  | .num n => asciiUnits n.text
  | .str s => JsString.quoted s
  | .arr items => 0x5b :: (separated 0x2c (canonicalItems items) ++ [0x5d])
  | .obj fields =>
      0x7b :: (separated 0x2c ((sortKeys (fields.map Prod.fst)).map fun key =>
        JsString.quoted key ++ 0x3a ::
          ((canonicalFields fields).lookup key).getD (asciiUnits "undefined")) ++ [0x7d])

def canonicalItems : List JsValue → List (List Nat)
  | [] => []
  | v :: rest => canonical v :: canonicalItems rest

def canonicalFields : List (JsString × JsValue) → List (JsString × List Nat)
  | [] => []
  | (k, v) :: rest => (k, canonical v) :: canonicalFields rest

end

/-- An object has each name at most once, at every depth. -/
inductive Distinct : JsValue → Prop where
  | null : Distinct .null
  | bool (b : Bool) : Distinct (.bool b)
  | num (n : Number) : Distinct (.num n)
  | str (s : JsString) : Distinct (.str s)
  | arr {items : List JsValue} (each : ∀ v ∈ items, Distinct v) : Distinct (.arr items)
  | obj {fields : List (JsString × JsValue)} (names : (fields.map Prod.fst).Nodup)
      (each : ∀ field ∈ fields, Distinct field.2) : Distinct (.obj fields)

/-- Equality of JSON values: the order of object members does not matter. -/
inductive Same : JsValue → JsValue → Prop where
  | null : Same .null .null
  | bool (b : Bool) : Same (.bool b) (.bool b)
  | num (n : Number) : Same (.num n) (.num n)
  | str (s : JsString) : Same (.str s) (.str s)
  | arr {as bs : List JsValue} (length : as.length = bs.length)
      (each : ∀ (i : Nat) a b, as[i]? = some a → bs[i]? = some b → Same a b) :
      Same (.arr as) (.arr bs)
  | obj {as bs : List (JsString × JsValue)}
      (names : ∀ key, key ∈ as.map Prod.fst ↔ key ∈ bs.map Prod.fst)
      (each : ∀ key a b, as.lookup key = some a → bs.lookup key = some b → Same a b) :
      Same (.obj as) (.obj bs)

end JsValue

namespace JsString

section Reading

def hexValue (c : Nat) : Nat := if c < 58 then c - 48 else c - 87

/-- The code unit that a letter after a backslash stands for. -/
def letterUnit (c : Nat) : Nat :=
  if c = 98 then 0x08 else if c = 116 then 0x09 else if c = 110 then 0x0a
  else if c = 102 then 0x0c else if c = 114 then 0x0d else c

/-- One more code unit has been read. -/
def push (u : Nat) (read : JsString × List Nat) : JsString × List Nat := (u :: read.1, read.2)

/-- Read a string after its opening quotation mark, up to the closing one. -/
def readString : List Nat → Option (JsString × List Nat)
  | [] => none
  | u :: rest =>
      if u = 0x22 then some ([], rest)
      else if u = 0x5c then
        match rest with
        | 117 :: a :: b :: c :: d :: rest =>
            (readString rest).map
              (push (hexValue a * 0x1000 + hexValue b * 0x100 + hexValue c * 16 + hexValue d))
        | c :: rest => (readString rest).map (push (letterUnit c))
        | [] => none
      else (readString rest).map (push u)

/-- A hexadecimal digit is read back as its value. -/
theorem hexValue_hexUnit {n : Nat} (h : n < 16) : hexValue (hexUnit n) = n := by
  unfold hexValue hexUnit
  split <;> split <;> omega

theorem readString_raw {u : Nat} (mark : u ≠ 0x22) (slash : u ≠ 0x5c) (rest : List Nat) :
    readString (u :: rest) = (readString rest).map (push u) := by
  rw [readString.eq_def]
  exact (if_neg mark).trans (if_neg slash)

theorem readString_letter {c : Nat} (letter : c ≠ 117) (rest : List Nat) :
    readString (0x5c :: c :: rest) = (readString rest).map (push (letterUnit c)) := by
  rw [readString, if_neg (by decide), if_pos rfl]
  intro _ _ _ _ _ eq
  exact absurd eq letter

theorem readString_hex {u : Nat} (small : u < 0x10000) (rest : List Nat) :
    readString (0x5c :: 117 :: hexUnit (u / 0x1000) :: hexUnit (u / 0x100 % 16) ::
      hexUnit (u / 16 % 16) :: hexUnit (u % 16) :: rest) = (readString rest).map (push u) := by
  have digits : hexValue (hexUnit (u / 0x1000)) * 0x1000 +
      hexValue (hexUnit (u / 0x100 % 16)) * 0x100 + hexValue (hexUnit (u / 16 % 16)) * 16 +
      hexValue (hexUnit (u % 16)) = u := by
    rw [hexValue_hexUnit (by omega), hexValue_hexUnit (by omega), hexValue_hexUnit (by omega),
      hexValue_hexUnit (by omega)]
    omega
  rw [readString, if_neg (by decide), if_pos rfl]
  simp only [digits]

/-- An escaped unit is read back as the unit. -/
@[simp]
theorem readString_escapeUnit (u : Nat) (rest : List Nat) :
    readString (escapeUnit u ++ rest) = (readString rest).map (push u) := by
  unfold escapeUnit
  split_ifs with mark slash b t n f r special
  iterate 7
    subst u
    exact readString_letter (by decide) rest
  · apply readString_hex
    simp only [isHigh, isLow, decide_eq_true_eq] at special
    omega
  · exact readString_raw mark slash rest

/-- An escaped string is read back up to its closing quote. -/
@[simp]
theorem readString_escape (s : JsString) (rest : List Nat) :
    readString (escape s ++ 0x22 :: rest) = some (s, rest) := by
  have close : readString (0x22 :: rest) = some ([], rest) := by
    rw [readString.eq_def]
    exact if_pos rfl
  induction s using escape.induct with
  | case1 => exact close
  | case2 u =>
      rw [escape, readString_escapeUnit, close]
      rfl
  | case3 u v units pair ih =>
      have surrogates := pair
      simp only [isHigh, isLow, Bool.and_eq_true, decide_eq_true_eq] at surrogates
      rw [escape, if_pos pair]
      change readString (u :: v :: (escape units ++ 0x22 :: rest)) = _
      rw [readString_raw (by omega) (by omega), readString_raw (by omega) (by omega), ih]
      rfl
  | case4 u v units pair ih =>
      rw [escape, if_neg pair, List.append_assoc, readString_escapeUnit, ih]
      rfl

/-- A quoted string is read back whatever follows it. -/
theorem quoted_pins (s t : JsString) {r r' : List Nat} (same : quoted s ++ r = quoted t ++ r') :
    s = t ∧ r = r' := by
  have back : ∀ (s : JsString) r, readString ((quoted s ++ r).drop 1) = some (s, r) := by
    intro s r
    change readString ((escape s ++ [0x22]) ++ r) = _
    rw [List.append_assoc]
    exact readString_escape s r
  have both := back s r
  rw [same, back t r'] at both
  cases both
  exact ⟨rfl, rfl⟩

end Reading

end JsString

/-- In a table with distinct keys the value of a key is looked up. -/
theorem mem_iff_lookup {κ ν : Type} [BEq κ] [LawfulBEq κ] {table : List (κ × ν)}
    (distinct : (table.map Prod.fst).Nodup) {k : κ} {v : ν} :
    (k, v) ∈ table ↔ table.lookup k = some v := by
  induction table with
  | nil => exact ⟨nofun, nofun⟩
  | cons e rest ih =>
      obtain ⟨key, value⟩ := e
      rw [List.map_cons, List.nodup_cons] at distinct
      rw [List.lookup_cons, List.mem_cons]
      by_cases same : k = key
      · subst same
        have absent : (k, v) ∉ rest := fun mem =>
          distinct.1 (List.mem_map.mpr ⟨(k, v), mem, rfl⟩)
        simp [absent, eq_comm]
      · simp [same, ih distinct.2, beq_eq_false_iff_ne.mpr same]

/-- The keys of a table are those that are found. -/
theorem mem_keys_iff_lookup {κ ν : Type} [BEq κ] [LawfulBEq κ] {table : List (κ × ν)} {k : κ} :
    k ∈ table.map Prod.fst ↔ ∃ v, table.lookup k = some v := by
  rw [← Option.isSome_iff_exists, List.lookup_isSome_iff, List.mem_map]
  simp only [beq_iff_eq, @eq_comm _ k]

namespace JsValue

variable {a b : JsValue} {fields as bs : List (JsString × JsValue)}

/-- Induction on the nesting of a value. -/
@[elab_as_elim]
theorem nesting {P : JsValue → Prop} (null : P .null) (bool : ∀ b, P (.bool b))
    (num : ∀ n, P (.num n)) (str : ∀ s, P (.str s))
    (arr : ∀ items, (∀ v ∈ items, P v) → P (.arr items))
    (obj : ∀ fields, (∀ field ∈ fields, P field.2) → P (.obj fields)) : ∀ v, P v
  | .null => null
  | .bool b => bool b
  | .num n => num n
  | .str s => str s
  | .arr items => arr items fun v _ => nesting null bool num str arr obj v
  | .obj fields => obj fields fun field _ => nesting null bool num str arr obj field.2
termination_by v => sizeOf v
decreasing_by
  · have := List.sizeOf_lt_of_mem ‹v ∈ items›
    simp only [JsValue.arr.sizeOf_spec]
    omega
  · have := List.sizeOf_lt_of_mem ‹field ∈ fields›
    obtain ⟨key, value⟩ := field
    simp only [JsValue.obj.sizeOf_spec, Prod.mk.sizeOf_spec] at *
    omega

section Text

@[simp]
theorem canonicalItems_eq (items : List JsValue) : canonicalItems items = items.map canonical := by
  induction items with
  | nil => rfl
  | cons v rest ih => rw [canonicalItems, ih, List.map_cons]

@[simp]
theorem lookup_canonicalFields (fields : List (JsString × JsValue)) (key : JsString) :
    (canonicalFields fields).lookup key = (fields.lookup key).map canonical := by
  induction fields with
  | nil => rfl
  | cons field rest ih =>
      rw [canonicalFields, List.lookup_cons, List.lookup_cons, ih]
      split <;> rfl

/-- The members of an object in the order in which they are written. -/
def members (fields : List (JsString × JsValue)) : List (JsString × JsValue) :=
  fields.insertionSort fun a b => a.1 ≤ b.1

def memberUnits (field : JsString × JsValue) : List Nat :=
  JsString.quoted field.1 ++ 0x3a :: field.2.canonical

@[simp]
theorem mem_members {field : JsString × JsValue} : field ∈ members fields ↔ field ∈ fields :=
  List.mem_insertionSort _

/-- The members are written in the order of their names. -/
theorem members_names : (members fields).map Prod.fst = sortKeys (fields.map Prod.fst) :=
  List.map_insertionSort _ _ Prod.fst fields fun _ _ _ _ => Iff.rfl

theorem canonical_arr (items : List JsValue) (r : List Nat) :
    canonical (.arr items) ++ r = 0x5b :: (separated 0x2c (items.map canonical) ++ 0x5d :: r) := by
  rw [canonical, canonicalItems_eq, List.cons_append, List.append_assoc]
  rfl

/-- The value of a name is the one of its member. -/
theorem canonical_obj (names : (fields.map Prod.fst).Nodup) (r : List Nat) :
    canonical (.obj fields) ++ r =
      0x7b :: (separated 0x2c ((members fields).map memberUnits) ++ 0x7d :: r) := by
  rw [canonical, List.cons_append, List.append_assoc, ← members_names, List.map_map]
  congr 3
  apply List.map_congr_left
  intro field mem
  have found : fields.lookup field.1 = some field.2 :=
    (mem_iff_lookup names).mp (mem_members.mp mem)
  rw [Function.comp_apply, lookup_canonicalFields, found]
  rfl

end Text

section Pinned

/-- A character that numbers are written with. -/
def isNumberUnit (c : Nat) : Bool := isNumberChar (Char.ofNat c)

/-- What may follow a value: the end, or anything that does not continue a number. -/
def Stops (r : List Nat) : Prop := ∀ c ∈ r.head?, ¬ isNumberUnit c = true

theorem asciiUnits_pins (m n : Number) :
    Pins (fun n : Number => asciiUnits n.text) Stops (· = ·) m n := by
  refine pins_of_class (fun n c mem => ?_) (fun m n same => ?_) m n
  · obtain ⟨char, inside, rfl⟩ := List.mem_map.mp mem
    rw [isNumberUnit, Char.ofNat_toNat]
    exact n.printed.2 char inside
  · have texts : m.text = n.text := String.ext (List.map_injective_iff.mpr
      (fun c d eq => Char.ext (UInt32.toNat_inj.mp eq)) same)
    obtain ⟨text, printed⟩ := m
    subst texts
    rfl

/-- What the first character of a text tells: the kind of the value, and which truth value. -/
def kindOf (c : Nat) : Nat :=
  if c = 110 then 0 else if c = 116 then 1 else if c = 102 then 2 else if c = 0x22 then 3
  else if c = 0x5b then 4 else if c = 0x7b then 5 else if isNumberUnit c then 6 else 7

def kind : JsValue → Nat
  | .null => 0
  | .bool true => 1
  | .bool false => 2
  | .str _ => 3
  | .arr _ => 4
  | .obj _ => 5
  | .num _ => 6

theorem kindOf_number {c : Nat} (number : isNumberUnit c = true) : kindOf c = 6 := by
  unfold kindOf
  split_ifs with h h h h h h <;> first | rfl | (subst h; revert number; decide)

theorem canonical_cons (v : JsValue) : ∃ c rest, v.canonical = c :: rest ∧ kindOf c = v.kind := by
  cases v with
  | null | str | arr | obj => exact ⟨_, _, rfl, rfl⟩
  | bool b => cases b <;> exact ⟨_, _, rfl, rfl⟩
  | num n =>
      obtain ⟨some_, inside⟩ := n.printed
      change ∃ c rest, n.text.toList.map Char.toNat = c :: rest ∧ kindOf c = 6
      cases chars : n.text.toList with
      | nil => exact absurd chars some_
      | cons c rest =>
          refine ⟨_, _, rfl, kindOf_number ?_⟩
          rw [isNumberUnit, Char.ofNat_toNat]
          exact inside c (chars ▸ List.mem_cons_self)

/-- No value starts like the end of an array. -/
theorem canonical_starts (v : JsValue) : ∃ c rest, v.canonical = c :: rest ∧ c ≠ 0x5d := by
  obtain ⟨c, rest, eq, kind⟩ := canonical_cons v
  refine ⟨c, rest, eq, ?_⟩
  rintro rfl
  have none_ : kindOf 0x5d = 7 := by decide
  rw [none_] at kind
  rcases v with _ | (_ | _) | _ | _ | _ | _ <;> cases kind

/-- The shapes of two values whose texts start with the same character. -/
inductive Like : JsValue → JsValue → Prop where
  | null : Like .null .null
  | bool (b : Bool) : Like (.bool b) (.bool b)
  | num (m n : Number) : Like (.num m) (.num n)
  | str (s t : JsString) : Like (.str s) (.str t)
  | arr (as bs : List JsValue) : Like (.arr as) (.arr bs)
  | obj (as bs : List (JsString × JsValue)) : Like (.obj as) (.obj bs)

/-- The first unit of a text tells the kind of the value. -/
theorem like_of_kind (same : a.kind = b.kind) : Like a b := by
  rcases a with _ | (_ | _) | _ | _ | _ | _ <;> rcases b with _ | (_ | _) | _ | _ | _ | _ <;>
    first | constructor | cases same

theorem like_of_text {r r' : List Nat} (same : a.canonical ++ r = b.canonical ++ r') :
    Like a b := by
  obtain ⟨c, rest, eq, kind⟩ := canonical_cons a
  obtain ⟨c', rest', eq', kind'⟩ := canonical_cons b
  rw [eq, eq'] at same
  obtain ⟨rfl, -⟩ := List.cons.inj same
  exact like_of_kind (kind.symm.trans kind')

theorem memberUnits_pins {m m' : JsString × JsValue}
    (value : Pins canonical Stops Same m.2 m'.2) :
    Pins memberUnits Stops (fun m m' => m.1 = m'.1 ∧ Same m.2 m'.2) m m' := by
  intro r r' stops stops' same
  simp only [memberUnits, List.append_assoc, List.cons_append] at same
  obtain ⟨names, rest⟩ := JsString.quoted_pins _ _ same
  obtain ⟨values, rest⟩ := value stops stops' (List.cons.inj rest).2
  exact ⟨⟨names, values⟩, rest⟩

/-- Members that agree one by one, in the order of their names. -/
theorem same_obj (distinct : (as.map Prod.fst).Nodup) (distinct' : (bs.map Prod.fst).Nodup)
    (agree : List.Forall₂ (fun m m' => m.1 = m'.1 ∧ Same m.2 m'.2) (members as) (members bs)) :
    Same (.obj as) (.obj bs) := by
  have names : (members as).map Prod.fst = (members bs).map Prod.fst := by
    rw [← List.forall₂_eq_eq_eq, List.forall₂_map_left_iff, List.forall₂_map_right_iff]
    exact agree.imp fun _ _ h => h.1
  have sorted : ∀ (fields : List (JsString × JsValue)) key,
      key ∈ fields.map Prod.fst ↔ key ∈ (members fields).map Prod.fst := by
    intro fields key
    simp only [List.mem_map, mem_members]
  refine .obj (fun key => by rw [sorted as, sorted bs, names]) ?_
  intro key a b found found'
  have first := mem_members.mpr ((mem_iff_lookup distinct).mpr found)
  obtain ⟨⟨key', b'⟩, mem, rfl, same⟩ := forall₂_left agree first
  rw [(mem_iff_lookup distinct').mp (mem_members.mp mem)] at found'
  cases found'
  exact same

/-- No text belongs to two different values, whatever follows. -/
theorem canonical_pins (distinct : a.Distinct) (distinct' : b.Distinct) :
    Pins canonical Stops Same a b := by
  have stops : ∀ c r, c = 0x2c ∨ c = 0x5d ∨ c = 0x7d → Stops (c :: r) := by
    rintro c r closes _ ⟨⟩
    rcases closes with rfl | rfl | rfl <;> decide
  induction a using nesting generalizing b with
  | null =>
      intro r r' _ _ same
      cases like_of_text same
      exact ⟨.null, List.append_cancel_left same⟩
  | bool truth =>
      intro r r' _ _ same
      cases like_of_text same
      exact ⟨.bool truth, List.append_cancel_left same⟩
  | num n =>
      intro r r' ends ends' same
      cases like_of_text same with
      | num _ n' =>
          obtain ⟨rfl, rest⟩ := asciiUnits_pins n n' ends ends' same
          exact ⟨.num n, rest⟩
  | str s =>
      intro r r' _ _ same
      cases like_of_text same with
      | str _ t =>
          obtain ⟨rfl, rest⟩ := JsString.quoted_pins s t same
          exact ⟨.str s, rest⟩
  | arr items ih =>
      intro r r' _ _ same
      cases like_of_text same with
      | arr _ items' =>
          cases distinct with
          | arr each =>
              cases distinct' with
              | arr each' =>
                  simp only [canonical_arr, List.cons.injEq, true_and] at same
                  obtain ⟨agree, rest⟩ := forall₂_of_separated (R := Same)
                    (fun c r h => stops c r (h.imp_right .inl)) (by decide)
                    canonical_starts (fun v mem v' mem' => ih v mem (each v mem) (each' v' mem'))
                      same
                  obtain ⟨length, related⟩ := List.forall₂_iff_get.mp agree
                  refine ⟨.arr length fun i v v' at_ at' => ?_, rest⟩
                  obtain ⟨inside, rfl⟩ := List.getElem?_eq_some_iff.mp at_
                  obtain ⟨inside', rfl⟩ := List.getElem?_eq_some_iff.mp at'
                  exact related i inside inside'
  | obj fields ih =>
      intro r r' _ _ same
      cases like_of_text same with
      | obj _ fields' =>
          cases distinct with
          | obj names each =>
              cases distinct' with
              | obj names' each' =>
                  simp only [canonical_obj names, canonical_obj names', List.cons.injEq,
                    true_and] at same
                  obtain ⟨agree, rest⟩ := forall₂_of_separated
                    (fun c r h => stops c r (h.imp_right .inr)) (by decide)
                    (fun m => ⟨0x22, _, rfl, by decide⟩)
                    (fun m mem m' mem' => memberUnits_pins
                      (ih m (mem_members.mp mem) (each m (mem_members.mp mem))
                        (each' m' (mem_members.mp mem')))) same
                  exact ⟨same_obj names names' agree, rest⟩

end Pinned

section Equality

/-- Equal sets of distinct names are written in one order. -/
theorem sortKeys_congr {names names' : List JsString} (distinct : names.Nodup)
    (distinct' : names'.Nodup) (same : ∀ key, key ∈ names ↔ key ∈ names') :
    sortKeys names = sortKeys names' := by
  have perm : (sortKeys names).Perm (sortKeys names') :=
    (List.perm_insertionSort _ _).trans
      (((List.perm_ext_iff_of_nodup distinct distinct').mpr same).trans
        (List.perm_insertionSort _ _).symm)
  exact perm.eq_of_pairwise' (List.pairwise_insertionSort _ _) (List.pairwise_insertionSort _ _)

/-- Equal values have the same text. -/
theorem Same.canonical_eq (same : Same a b) (distinct : a.Distinct) (distinct' : b.Distinct) :
    a.canonical = b.canonical := by
  induction same with
  | null | bool | num | str => rfl
  | arr length each ih =>
      cases distinct with
      | arr distinct =>
          cases distinct' with
          | arr distinct' =>
              rw [canonical, canonical, canonicalItems_eq, canonicalItems_eq]
              congr 3
              refine List.ext_getElem (by simpa using length) fun i inside inside' => ?_
              rw [List.length_map] at inside inside'
              rw [List.getElem_map, List.getElem_map]
              exact ih i _ _ (List.getElem?_eq_getElem inside) (List.getElem?_eq_getElem inside')
                (distinct _ (List.getElem_mem inside)) (distinct' _ (List.getElem_mem inside'))
  | obj names each ih =>
      cases distinct with
      | obj distinct eachDistinct =>
          cases distinct' with
          | obj distinct' eachDistinct' =>
              rw [canonical, canonical, sortKeys_congr distinct distinct' names]
              congr 3
              apply List.map_congr_left
              intro key mem
              have known : key ∈ _ := (List.mem_insertionSort _).mp mem
              obtain ⟨v', found'⟩ := mem_keys_iff_lookup.mp known
              obtain ⟨v, found⟩ := mem_keys_iff_lookup.mp ((names key).mpr known)
              have values := ih key v v' found found'
                (eachDistinct _ ((mem_iff_lookup distinct).mpr found))
                (eachDistinct' _ ((mem_iff_lookup distinct').mpr found'))
              simp only [lookup_canonicalFields, found, found', Option.map_some, values]

end Equality

end JsValue

/-- A JSON value whose objects have distinct names. -/
abbrev JsonValue := { v : JsValue // v.Distinct }

/-- Two values have the same canonical text exactly if they are equal as JSON values. -/
theorem canonical_decides_equality (a b : JsonValue) :
    a.val.canonical = b.val.canonical ↔ a.val.Same b.val := by
  constructor
  · intro same
    have ends : JsValue.Stops [] := nofun
    refine (JsValue.canonical_pins a.property b.property ends ends ?_).1
    rw [same]
  · exact fun same => same.canonical_eq a.property b.property

example : JsValue.canonical (.obj [([98], .arr [.null, .bool true]), ([97], .str [0xd800, 9])]) =
    asciiUnits "\x7b\"a\":\"\\ud800\\t\",\"b\":[null,true]\x7d" := by decide

/-! ## Command bodies -/

section Bodies

/-- Code units of the character are distinct from those of every other, whatever follows. -/
theorem utf16Char_append_inj {c d : Char} {r r' : List Nat}
    (same : utf16Char c ++ r = utf16Char d ++ r') : c = d ∧ r = r' := by
  have valid : ∀ c : Char, c.toNat < 0xD800 ∨ 0xDFFF < c.toNat ∧ c.toNat < 0x110000 :=
    fun c => c.valid
  have first := valid c
  have second := valid d
  unfold utf16Char at same
  split at same <;> split at same
  all_goals
    simp only [List.cons_append, List.nil_append, List.cons.injEq] at same
  · exact ⟨Char.toNat_inj.mp same.1, same.2⟩
  · omega
  · omega
  · exact ⟨Char.toNat_inj.mp (by omega), same.2.2⟩

/-- Different texts have different units. -/
theorem utf16Chars_injective {cs ds : List Char}
    (same : cs.flatMap utf16Char = ds.flatMap utf16Char) : cs = ds := by
  have nonempty : ∀ c, utf16Char c ≠ [] := by
    intro c
    unfold utf16Char
    split <;> exact nofun
  induction cs generalizing ds with
  | nil =>
      cases ds with
      | nil => rfl
      | cons d ds => exact absurd (List.append_eq_nil_iff.mp same.symm).1 (nonempty d)
  | cons c cs ih =>
      cases ds with
      | nil => exact absurd (List.append_eq_nil_iff.mp same).1 (nonempty c)
      | cons d ds =>
          obtain ⟨rfl, rest⟩ := utf16Char_append_inj same
          rw [ih rest]

/-- Text without characters above the basic plane. -/
theorem utf16Chars_ascii {cs : List Char} (small : ∀ c ∈ cs, c.toNat < 0x10000) :
    cs.flatMap utf16Char = cs.map Char.toNat := by
  induction cs with
  | nil => rfl
  | cons c cs ih =>
      rw [List.flatMap_cons, ih fun d mem => small d (List.mem_cons_of_mem _ mem), utf16Char,
        if_pos (small c List.mem_cons_self)]
      rfl

theorem digitChar_toNat {n : Nat} (h : n < 16) : (Nat.digitChar n).toNat = JsString.hexUnit n := by
  have all : ∀ n : Fin 16, (Nat.digitChar n).toNat = JsString.hexUnit n := by decide
  exact all ⟨n, h⟩

theorem escapeUnit_toNat {c : Char} (small : c.toNat < 0x10000) :
    JsString.escapeUnit c.toNat = (escapeChar c).flatMap utf16Char := by
  have valid : c.toNat < 0xD800 ∨ 0xDFFF < c.toNat ∧ c.toNat < 0x110000 := c.valid
  have named : ∀ d : Char, c = d ↔ c.toNat = d.toNat := fun d => Char.toNat_inj.symm
  have marks : quoteMark.toNat = 0x22 ∧ backslash.toNat = 0x5c := ⟨rfl, rfl⟩
  have surrogate : ¬ (JsString.isHigh c.toNat = true ∨ JsString.isLow c.toNat = true) := by
    simp only [JsString.isHigh, JsString.isLow, decide_eq_true_eq]
    omega
  unfold JsString.escapeUnit escapeChar
  simp only [named, marks.1, marks.2, surrogate, or_false]
  split_ifs with mark slash b t n f r control
  iterate 7 rfl
  · -- Control characters have two digits after the two zeros.
    have small_ : ∀ n < 16, utf16Char (Nat.digitChar n) = [JsString.hexUnit n] := by
      intro n h
      rw [← digitChar_toNat h, utf16Char, if_pos]
      have all : ∀ n : Fin 16, (Nat.digitChar n).toNat < 0x10000 := by decide
      exact all ⟨n, h⟩
    have zeros : c.toNat / 0x1000 = 0 ∧ c.toNat / 0x100 % 16 = 0 ∧
        c.toNat / 16 % 16 = c.toNat / 16 := by omega
    rw [zeros.1, zeros.2.1, zeros.2.2]
    simp only [List.flatMap_cons, small_ (c.toNat / 16) (by omega),
      small_ (c.toNat % 16) (by omega)]
    rfl
  · rw [List.flatMap_cons, utf16Char, if_pos small]
    rfl

/-- The quoted text of a string, by code units. -/
theorem quoted_utf16 (text : String) :
    JsString.quoted (utf16 text) = (quote text).flatMap utf16Char := by
  have one : ∀ c us, JsString.escape (utf16Char c ++ us) =
      (escapeChar c).flatMap utf16Char ++ JsString.escape us := by
    intro c us
    have valid : c.toNat < 0xD800 ∨ 0xDFFF < c.toNat ∧ c.toNat < 0x110000 := c.valid
    by_cases small : c.toNat < 0x10000
    · rw [utf16Char, if_pos small, ← escapeUnit_toNat small]
      cases us with
      | nil => rw [List.append_nil, JsString.escape, JsString.escape, List.append_nil]
      | cons u us =>
          have lone : ¬ (JsString.isHigh c.toNat && JsString.isLow u) = true := by
            simp only [JsString.isHigh, Bool.and_eq_true, decide_eq_true_eq]
            omega
          rw [List.cons_append, List.nil_append, JsString.escape, if_neg lone]
    · have pair : (JsString.isHigh (0xD800 + (c.toNat - 0x10000) / 0x400) &&
          JsString.isLow (0xDC00 + (c.toNat - 0x10000) % 0x400)) = true := by
        simp only [JsString.isHigh, JsString.isLow, Bool.and_eq_true, decide_eq_true_eq]
        omega
      have raw : escapeChar c = [c] := by
        have named : ∀ d : Char, c = d ↔ c.toNat = d.toNat := fun d => Char.toNat_inj.symm
        have marks : quoteMark.toNat = 0x22 ∧ backslash.toNat = 0x5c := ⟨rfl, rfl⟩
        unfold escapeChar
        simp only [named, marks.1, marks.2]
        split_ifs <;> first | omega | rfl
      rw [raw, List.flatMap_singleton, utf16Char, if_neg small, List.cons_append,
        List.cons_append, List.nil_append, JsString.escape, if_pos pair]
      rfl
  have all : ∀ cs : List Char, JsString.escape (cs.flatMap utf16Char) =
      (cs.flatMap escapeChar).flatMap utf16Char := by
    intro cs
    induction cs with
    | nil => rfl
    | cons c cs ih => rw [List.flatMap_cons, one, ih, List.flatMap_cons, List.flatMap_append]
  rw [JsString.quoted, quote, List.flatMap_cons, List.flatMap_append, utf16, all]
  rfl

/-- Code units of a list of characters. -/
def flat (cs : List Char) : List Nat := cs.flatMap utf16Char

@[simp]
theorem flat_cons (c : Char) (cs : List Char) : flat (c :: cs) = utf16Char c ++ flat cs := rfl

@[simp]
theorem flat_append (cs ds : List Char) : flat (cs ++ ds) = flat cs ++ flat ds :=
  List.flatMap_append

@[simp]
theorem flat_commaJoin (texts : List (List Char)) :
    flat (commaJoin texts) = separated 0x2c (texts.map flat) := by
  induction texts with
  | nil => rfl
  | cons text rest ih =>
      cases rest with
      | nil => rfl
      | cons next rest =>
          rw [commaJoin, flat_append, flat_cons, ih]
          · rfl
          · exact nofun

@[simp]
theorem flat_memberText (field : String × List Char) :
    flat (memberText field) = JsString.quoted (utf16 field.1) ++ 0x3a :: flat field.2 := by
  rw [memberText, flat_append, flat_cons, quoted_utf16]
  rfl

theorem numberChar_small {c : Char} (h : isNumberChar c = true) : c.toNat < 0x10000 := by
  simp only [isNumberChar, Char.isDigit, Bool.or_eq_true, Bool.and_eq_true, decide_eq_true_eq,
    beq_iff_eq] at h
  rcases h with ((((⟨-, below⟩ | rfl) | rfl) | rfl) | rfl)
  · have := UInt32.le_iff_toNat_le.mp below
    exact Nat.lt_of_le_of_lt this (by decide)
  all_goals decide

namespace Json

mutual

/-- The value with its strings given by their code units. What is written as `null` is
`null`. -/
def units : Json → JsValue
  | .null => .null
  | .bool b => .bool b
  | .num n => .num n
  | .infinite _ => .null
  | .str s => .str (utf16 s)
  | .arr items => .arr (unitsItems items)
  | .obj fields => .obj (unitsFields fields)

def unitsItems : List Json → List JsValue
  | [] => []
  | v :: rest => units v :: unitsItems rest

def unitsFields : List (String × Json) → List (JsString × JsValue)
  | [] => []
  | (k, v) :: rest => (utf16 k, units v) :: unitsFields rest

end

mutual

theorem canonical_units : ∀ v : Json, v.units.Distinct →
    v.units.canonical = flat (v.write (List.insertionSort memberLe))
  | .null, _ => rfl
  | .bool true, _ => rfl
  | .bool false, _ => rfl
  | .num n, _ => by
      symm
      exact utf16Chars_ascii fun c mem => numberChar_small (n.printed.2 c mem)
  | .infinite _, _ => rfl
  | .str s, _ => quoted_utf16 s
  | .arr items, .arr each => by
      have inside := JsValue.canonical_arr (unitsItems items) []
      rw [List.append_nil, canonical_unitsItems items each] at inside
      rw [units, inside, write, flat_cons, flat_append, flat_commaJoin]
      rfl
  | .obj fields, .obj names each => by
      have inside := JsValue.canonical_obj names []
      have sorted : (JsValue.members (unitsFields fields)).map
          (fun field => (field.1, field.2.canonical)) =
          ((writeFields (List.insertionSort memberLe) fields).insertionSort memberLe).map
            fun field => (utf16 field.1, flat field.2) := by
        have first := List.map_insertionSort (fun a b => a.1 ≤ b.1)
          (fun a b : JsString × List Nat => a.1 ≤ b.1)
          (fun field : JsString × JsValue => (field.1, field.2.canonical)) (unitsFields fields)
          fun _ _ _ _ => Iff.rfl
        have second := List.map_insertionSort memberLe
          (fun a b : JsString × List Nat => a.1 ≤ b.1)
          (fun field : String × List Char => (utf16 field.1, flat field.2))
          (writeFields (List.insertionSort memberLe) fields) fun _ _ _ _ => Iff.rfl
        rw [JsValue.members, first, second, canonical_unitsFields fields each]
      have texts : (JsValue.members (unitsFields fields)).map JsValue.memberUnits =
          ((writeFields (List.insertionSort memberLe) fields).insertionSort memberLe).map
            fun field => flat (memberText field) := by
        have both := congrArg (List.map fun field : JsString × List Nat =>
          JsString.quoted field.1 ++ 0x3a :: field.2) sorted
        rw [List.map_map, List.map_map] at both
        exact both.trans (List.map_congr_left fun field _ => (flat_memberText field).symm)
      rw [List.append_nil, texts] at inside
      rw [units, inside, write, flat_cons, flat_append, flat_commaJoin, List.map_map]
      rfl

theorem canonical_unitsItems : ∀ items : List Json, (∀ v ∈ unitsItems items, v.Distinct) →
    (unitsItems items).map JsValue.canonical =
      (writeItems (List.insertionSort memberLe) items).map flat
  | [], _ => rfl
  | v :: rest, each => by
      rw [unitsItems, List.map_cons, canonical_units v (each _ List.mem_cons_self),
        canonical_unitsItems rest fun v mem => each v (List.mem_cons_of_mem _ mem)]
      rfl

theorem canonical_unitsFields : ∀ fields : List (String × Json),
    (∀ field ∈ unitsFields fields, field.2.Distinct) →
    (unitsFields fields).map (fun field => (field.1, field.2.canonical)) =
      (writeFields (List.insertionSort memberLe) fields).map fun field =>
        (utf16 field.1, flat field.2)
  | [], _ => rfl
  | (k, v) :: rest, each => by
      rw [unitsFields, List.map_cons, canonical_units v (each _ List.mem_cons_self),
        canonical_unitsFields rest fun field mem => each field (List.mem_cons_of_mem _ mem)]
      rfl

end

/-- The texts whose digests identify commands are equal exactly for equal bodies. -/
theorem canonical_eq_iff {a b : Json} (distinct : a.units.Distinct) (distinct' : b.units.Distinct) :
    a.canonical = b.canonical ↔ a.units.Same b.units := by
  rw [← canonical_decides_equality ⟨a.units, distinct⟩ ⟨b.units, distinct'⟩]
  change String.ofList _ = String.ofList _ ↔ a.units.canonical = b.units.canonical
  rw [canonical_units a distinct, canonical_units b distinct', String.ofList_inj]
  exact ⟨fun same => congrArg flat same, fun same => utf16Chars_injective same⟩

end Json

end Bodies

end Mathmodel
