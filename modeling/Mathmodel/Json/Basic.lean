import Mathlib

/-!
# JSON values as JavaScript handles them

The service reads two kinds of JSON: command bodies from its clients and
frames from the runtime process. Frames are untrusted, so the operations below
follow JavaScript on every value: property reads of scalars are `undefined`,
property reads of `null` throw, and a lookup in a plain object coerces its key
to a string and also finds the members of `Object.prototype`.

`undefined` is `none`; a JSON value is `some`. A finite number is represented
by the text ECMAScript prints for it, which determines it up to the sign of
zero. A numeral out of range, such as `1e999`, is read as an infinite number,
for which `JSON.stringify` writes `null`. Composite values are compared by
identity in JavaScript, so two separately parsed arrays or objects are never
strictly equal.
-/

namespace Mathmodel

/-- Codes of `DomainError` raised by the modelled functions. -/
inductive ErrorCode where
  | invalidRequest | notFound | conflict | runtimeUnavailable
  deriving DecidableEq, Repr

/-- A thrown value: a `DomainError` with its code, or any other `Error`. -/
inductive Err where
  | domain (code : ErrorCode) (message : String)
  | error (message : String)
  deriving DecidableEq, Repr

def Err.message : Err → String
  | .domain _ message => message
  | .error message => message

def isNumberChar (c : Char) : Bool :=
  c.isDigit || c == '-' || c == '+' || c == '.' || c == 'e'

/-- A finite number, as `Number::toString` prints it. -/
structure Number where
  text : String
  printed : text.toList ≠ [] ∧ ∀ c ∈ text.toList, isNumberChar c = true
  deriving DecidableEq

namespace Number

/-- The exponent form with `e+` only appears from `1e21` on, where every
double is an integer. -/
def isInteger (n : Number) : Bool :=
  if 'e' ∈ n.text.toList then '+' ∈ n.text.toList else '.' ∉ n.text.toList

def isPositive (n : Number) : Bool :=
  n.text.toList.head? != some '-' && n.text != "0"

/-- A natural number is printed with characters of a number, at least one. -/
theorem printed_ofNat (n : Nat) :
    (toString n).toList ≠ [] ∧ ∀ c ∈ (toString n).toList, isNumberChar c = true := by
  have digits : (toString n).toList = Nat.toDigits 10 n := by
    simp [Nat.repr]
  rw [digits]
  refine ⟨Nat.toDigits_ne_nil, ?_⟩
  intro c hc
  have := Nat.isDigit_of_mem_toDigits (b := 10) (by decide) (by decide) hc
  simp [isNumberChar, this]

def ofNat (n : Nat) : Number := ⟨toString n, printed_ofNat n⟩

/-- The code of an unsupported method. -/
theorem printed_unsupported :
    "-32601".toList ≠ [] ∧ ∀ c ∈ "-32601".toList, isNumberChar c = true := by
  simp [isNumberChar]

/-- Different natural numbers are different JSON numbers. -/
theorem ofNat_injective : Function.Injective ofNat := by
  intro a b h
  have text : (toString a).toList = (toString b).toList :=
    congrArg (fun n : Number => n.text.toList) h
  have digits : Nat.toDigits 10 a = Nat.toDigits 10 b := by
    simpa [Nat.repr] using text
  have values := congrArg (fun ds => Nat.ofDigitChars 10 ds 0) digits
  simpa using values

end Number

inductive Json where
  | null
  | bool (value : Bool)
  | num (value : Number)
  | infinite (negative : Bool)
  | str (value : String)
  | arr (items : List Json)
  | obj (fields : List (String × Json))

namespace Json

mutual

/-- Decidable equality, following the nesting of values in lists and fields. -/
def decEq : (a b : Json) → Decidable (a = b)
  | .null, .null => isTrue rfl
  | .bool a, .bool b => decidable_of_iff (a = b) (by simp)
  | .num a, .num b => decidable_of_iff (a = b) (by simp)
  | .infinite a, .infinite b => decidable_of_iff (a = b) (by simp)
  | .str a, .str b => decidable_of_iff (a = b) (by simp)
  | .arr a, .arr b =>
      match decEqItems a b with
      | isTrue h => isTrue (by rw [h])
      | isFalse h => isFalse (by simpa using h)
  | .obj a, .obj b =>
      match decEqFields a b with
      | isTrue h => isTrue (by rw [h])
      | isFalse h => isFalse (by simpa using h)
  | .null, .bool _ | .null, .num _ | .null, .infinite _
  | .null, .str _ | .null, .arr _ | .null, .obj _
  | .bool _, .null | .bool _, .num _ | .bool _, .infinite _
  | .bool _, .str _ | .bool _, .arr _ | .bool _, .obj _
  | .num _, .null | .num _, .bool _ | .num _, .infinite _
  | .num _, .str _ | .num _, .arr _ | .num _, .obj _
  | .infinite _, .null | .infinite _, .bool _ | .infinite _, .num _
  | .infinite _, .str _ | .infinite _, .arr _ | .infinite _, .obj _
  | .str _, .null | .str _, .bool _ | .str _, .num _
  | .str _, .infinite _ | .str _, .arr _ | .str _, .obj _
  | .arr _, .null | .arr _, .bool _ | .arr _, .num _
  | .arr _, .infinite _ | .arr _, .str _ | .arr _, .obj _
  | .obj _, .null | .obj _, .bool _ | .obj _, .num _
  | .obj _, .infinite _ | .obj _, .str _ | .obj _, .arr _ =>
      isFalse (by simp)

def decEqItems : (a b : List Json) → Decidable (a = b)
  | [], [] => isTrue rfl
  | a :: as, b :: bs =>
      match decEq a b, decEqItems as bs with
      | isTrue h, isTrue hs => isTrue (by rw [h, hs])
      | isFalse h, _ => isFalse (by simp [h])
      | _, isFalse hs => isFalse (by simp [hs])
  | [], _ :: _ | _ :: _, [] => isFalse (by simp)

def decEqFields : (a b : List (String × Json)) → Decidable (a = b)
  | [], [] => isTrue rfl
  | (k, a) :: as, (l, b) :: bs =>
      match decEq a b, decEqFields as bs with
      | isTrue h, isTrue hs => decidable_of_iff (k = l) (by simp [h, hs])
      | isFalse h, _ => isFalse (by simp [h])
      | _, isFalse hs => isFalse (by simp [hs])
  | [], _ :: _ | _ :: _, [] => isFalse (by simp)

end

instance : DecidableEq Json := decEq

/-- The own property `name`, or `undefined`. Scalars and arrays have no own
property under any of the names the service reads. -/
def get : Json → String → Option Json
  | .obj fields, name => fields.lookup name
  | _, _ => none

/-- Falsy are `null`, `false`, `0`, the empty string and `undefined`. -/
def truthy : Option Json → Bool
  | none | some .null => false
  | some (.bool b) => b
  | some (.num n) => n.text != "0"
  | some (.infinite _) => true
  | some (.str s) => s != ""
  | some (.arr _) | some (.obj _) => true

/-- The read `value.name`, which throws on `undefined` and `null`. -/
def read (value : Option Json) (name : String) : Except Err (Option Json) :=
  match value with
  | none => throw (.error ("Cannot read properties of undefined (reading '" ++ name ++ "')"))
  | some .null => throw (.error ("Cannot read properties of null (reading '" ++ name ++ "')"))
  | some v => pure (v.get name)

/-- The read `value?.name`. -/
def chain (value : Option Json) (name : String) : Option Json :=
  value.bind (get · name)

/-- The value of `value ?? fallback`. -/
def orElse (value : Option Json) (fallback : Json) : Json :=
  match value with
  | none | some .null => fallback
  | some v => v

/-- Strict equality with a field that is a string or `null`. -/
def sameNullable : Option Json → Option String → Bool
  | some .null, none => true
  | some (.str a), some b => a == b
  | _, _ => false

/-- Scalars are strictly equal when they are the same value; composite values
from different frames never are. -/
def isScalar : Json → Bool
  | .arr _ | .obj _ => false
  | _ => true

mutual

/-- The text `String(value)`, or `none` where the conversion throws: an object that has
its own `toString` member, which is never callable in parsed JSON. -/
def toText : Json → Option String
  | .null => some "null"
  | .bool b => some (if b then "true" else "false")
  | .num n => some n.text
  | .infinite negative => some (if negative then "-Infinity" else "Infinity")
  | .str s => some s
  | .arr items => (elementTexts items).map (",".intercalate ·)
  | .obj fields => if (fields.lookup "toString").isSome then none else some "[object Object]"

/-- The texts that `Array.prototype.join` concatenates. -/
def elementTexts : List Json → Option (List String)
  | [] => some []
  | .null :: rest => (elementTexts rest).map ("" :: ·)
  | v :: rest =>
      match toText v with
      | none => none
      | some s => (elementTexts rest).map (s :: ·)

end

mutual

/-- The value that is read from what `JSON.stringify` writes. -/
def stored : Json → Json
  | .infinite _ => .null
  | .arr items => .arr (storedItems items)
  | .obj fields => .obj (storedFields fields)
  | v => v

def storedItems : List Json → List Json
  | [] => []
  | v :: rest => stored v :: storedItems rest

def storedFields : List (String × Json) → List (String × Json)
  | [] => []
  | (k, v) :: rest => (k, stored v) :: storedFields rest

end

mutual

/-- No number in the value is infinite. -/
def isFinite : Json → Bool
  | .infinite _ => false
  | .arr items => isFiniteItems items
  | .obj fields => isFiniteFields fields
  | _ => true

def isFiniteItems : List Json → Bool
  | [] => true
  | v :: rest => isFinite v && isFiniteItems rest

def isFiniteFields : List (String × Json) → Bool
  | [] => true
  | (_, v) :: rest => isFinite v && isFiniteFields rest

end

mutual

/-- Exactly what has no infinite number in it is read back as it was. -/
@[simp] theorem stored_eq_self : ∀ v : Json, v.stored = v ↔ v.isFinite = true
  | .infinite _ => by simp [stored, isFinite]
  | .arr items => by simp [stored, isFinite, storedItems_eq_self items]
  | .obj fields => by simp [stored, isFinite, storedFields_eq_self fields]
  | .null | .bool _ | .num _ | .str _ => by simp [stored, isFinite]

theorem storedItems_eq_self : ∀ items : List Json,
    storedItems items = items ↔ isFiniteItems items = true
  | [] => by simp [storedItems, isFiniteItems]
  | v :: rest => by simp [storedItems, isFiniteItems, stored_eq_self v, storedItems_eq_self rest]

theorem storedFields_eq_self : ∀ fields : List (String × Json),
    storedFields fields = fields ↔ isFiniteFields fields = true
  | [] => by simp [storedFields, isFiniteFields]
  | (_, v) :: rest => by
      simp [storedFields, isFiniteFields, stored_eq_self v, storedFields_eq_self rest]

end

/-- The fields of a stored object are those of the object, stored. -/
@[simp]
theorem lookup_storedFields (fields : List (String × Json)) (name : String) :
    (storedFields fields).lookup name = (fields.lookup name).map stored := by
  induction fields with
  | nil => rfl
  | cons field rest ih =>
      rw [storedFields, List.lookup_cons, List.lookup_cons, ih]
      split <;> rfl

@[simp] theorem get_stored (v : Json) (name : String) :
    v.stored.get name = (v.get name).map stored := by
  cases v with
  | obj fields => exact lookup_storedFields fields name
  | _ => rfl

/-- The text of a value in a template literal or as a property key. -/
def coerce (value : Option Json) : Except Err String :=
  match value with
  | none => pure "undefined"
  | some v =>
      match v.toText with
      | some s => pure s
      | none => throw (.error "Cannot convert object to primitive value")

end Json

/-- What `table[key]` finds: nothing, an own entry, or a (truthy) member of
`Object.prototype`. -/
inductive Lookup (α : Type) where
  | missing
  | own (value : α)
  | inherited
  deriving DecidableEq, Repr

def objectPrototype : List String :=
  ["constructor", "__defineGetter__", "__defineSetter__", "hasOwnProperty",
    "__lookupGetter__", "__lookupSetter__", "isPrototypeOf", "propertyIsEnumerable",
    "toString", "valueOf", "__proto__", "toLocaleString"]

/-- The lookup `table[key]` in a plain object written as a literal. -/
def plainLookup {α : Type} (table : List (String × α)) (key : Option Json) :
    Except Err (Lookup α) := do
  let name ← Json.coerce key
  match table.lookup name with
  | some value => pure (.own value)
  | none => pure (if name ∈ objectPrototype then .inherited else .missing)

/-- A value used as a key of a `Map`. Scalars are keys by value; a composite
value is a key by identity, given by the frame it was parsed from. -/
inductive MapKey where
  | scalar (value : Json)
  | object (frame : Nat) (value : Json)
  deriving DecidableEq

namespace MapKey

def ofJson (frame : Nat) (value : Json) : MapKey :=
  if value.isScalar then .scalar value else .object frame value

/-- The JSON value that is the key. -/
def value : MapKey → Json
  | .scalar v => v
  | .object _ v => v

@[simp] theorem value_ofJson (frame : Nat) (value : Json) :
    (ofJson frame value).value = value := by
  unfold ofJson
  split <;> rfl

end MapKey

/-- Code units of a character in UTF-16. -/
def utf16Size (c : Char) : Nat := if c.toNat < 0x10000 then 1 else 2

def sliceChars : Nat → List Char → List Char
  | _, [] => []
  | n, c :: cs => if utf16Size c ≤ n then c :: sliceChars (n - utf16Size c) cs else []

/-- The prefix `text.slice(0, n)`, counted in code units. The half of a pair that the code
keeps where the cut goes through a character is left out: no `String` ends in one. -/
def slice (text : String) (n : Nat) : String := String.ofList (sliceChars n text.toList)

theorem sliceChars_length_le (n : Nat) (cs : List Char) : (sliceChars n cs).length ≤ n := by
  induction cs generalizing n with
  | nil => simp [sliceChars]
  | cons c cs ih =>
      have one : 1 ≤ utf16Size c := by
        unfold utf16Size
        split <;> omega
      unfold sliceChars
      split
      · have := ih (n - utf16Size c)
        simp only [List.length_cons]
        omega
      · simp

/-- A slice is no longer than asked for. -/
theorem slice_length_le (text : String) (n : Nat) : (slice text n).length ≤ n := by
  simpa [slice] using sliceChars_length_le n text.toList

end Mathmodel
