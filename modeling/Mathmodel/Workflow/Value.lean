import Mathlib

/-!
# Python values

The workflow script reads JSON that its user wrote, so the operations below
follow Python on every value that `json.loads` can return: which operation
raises which exception, what counts as true, and when two values are equal
(`True == 1 == 1.0`). A dictionary keeps the order in which its keys were
first set; keys of a parsed object are strings.

The exceptions are kept apart by class, since `main` reports only four of them.
-/

namespace Mathmodel.Workflow

/-- An exception, by the classes that some handler of the script distinguishes. -/
inductive PyErr where
  | value (message : String)
  | os (message : String)
  | key (message : String)
  | type (message : String)
  | attribute (message : String)
  | runtime (message : String)
  deriving DecidableEq, Repr

def PyErr.message : PyErr → String
  | .value m | .os m | .key m | .type m | .attribute m | .runtime m => m

/-- The classes that `except (ValueError, OSError)` catches. -/
def PyErr.isValueOrOs : PyErr → Bool
  | .value _ | .os _ => true
  | _ => false

/-- The classes that `main` turns into an error report. -/
def PyErr.isReported : PyErr → Bool
  | .value _ | .os _ | .key _ | .type _ => true
  | .attribute _ | .runtime _ => false

/-- The condition that `require` and `need` check. -/
def require (condition : Bool) (message : String) : Except PyErr Unit :=
  if condition then .ok () else .error (.value message)

/-- A Python `float`: a finite value, an infinity by its sign, or not a number. -/
inductive Double where
  | finite (value : Rat)
  | infinite (negative : Bool)
  | nan
  deriving DecidableEq, Repr

namespace Double

/-- The test `math.isfinite(x)`. -/
def isFinite : Double → Bool
  | .finite _ => true
  | _ => false

def isPositive : Double → Bool
  | .finite q => decide (0 < q)
  | .infinite negative => !negative
  | .nan => false

/-- The comparison `x == y`; `nan` is not equal to itself. -/
def beq : Double → Double → Bool
  | .finite p, .finite q => p == q
  | .infinite a, .infinite b => a == b
  | _, _ => false

end Double

/-- What `json.loads` returns. -/
inductive Value where
  | none
  | bool (b : Bool)
  | int (i : Int)
  | float (x : Double)
  | str (s : String)
  | list (items : List Value)
  | dict (fields : List (String × Value))

/-- White space, as `str.strip` removes it. -/
def isSpace (c : Char) : Bool :=
  let n := c.toNat
  (9 ≤ n && n ≤ 13) || (0x1c ≤ n && n ≤ 0x20) || n == 0x85 || n == 0xa0 || n == 0x1680 ||
    (0x2000 ≤ n && n ≤ 0x200a) || n == 0x2028 || n == 0x2029 || n == 0x202f || n == 0x205f ||
    n == 0x3000

/-- The truth value of `text.strip()`. -/
def isSubstantive (text : String) : Bool := text.toList.any fun c => !isSpace c

def endsWith (text suffix : String) : Bool := suffix.toList.isSuffixOf text.toList

namespace Value

/-- The number behind a value that compares as one. -/
def number : Value → Option Double
  | .bool b => some (.finite (if b then 1 else 0))
  | .int i => some (.finite i)
  | .float x => some x
  | _ => Option.none

def sameNumber (a b : Value) : Bool :=
  match a.number, b.number with
  | some x, some y => x.beq y
  | _, _ => false

def isNan : Value → Bool
  | .float .nan => true
  | _ => false

mutual

/-- The comparison `a == b`. Dictionaries are compared without their order; members of lists
and values of dictionaries are equal also if they are one object, which `json.loads` makes
of every `NaN`. -/
def beq : Value → Value → Bool
  | .none, .none => true
  | .str a, .str b => a == b
  | .list a, .list b => beqItems a b
  | .dict a, .dict b => a.length == b.length && beqFields a b
  | .bool a, v => sameNumber (.bool a) v
  | .int a, v => sameNumber (.int a) v
  | .float a, v => sameNumber (.float a) v
  | _, _ => false

def beqItems : List Value → List Value → Bool
  | [], [] => true
  | a :: as, b :: bs => (a.isNan && b.isNan || beq a b) && beqItems as bs
  | _, _ => false

/-- Each field is found in the other dictionary with an equal value. -/
def beqFields : List (String × Value) → List (String × Value) → Bool
  | [], _ => true
  | (k, a) :: rest, other =>
      (match other.lookup k with
        | some b => a.isNan && b.isNan || beq a b
        | Option.none => false) && beqFields rest other

end

/-- The comparison `a is b or a == b`, by which members and keys are found. -/
def same (a b : Value) : Bool := a.isNan && b.isNan || beq a b

def truthy : Value → Bool
  | .none => false
  | .bool b => b
  | .int i => i != 0
  | .float x => !x.beq (.finite 0)
  | .str s => s != ""
  | .list items => !items.isEmpty
  | .dict fields => !fields.isEmpty

def isDict : Value → Bool
  | .dict _ => true
  | _ => false

/-- The test `isinstance(v, str) and v.strip()`. -/
def isProse : Value → Bool
  | .str s => isSubstantive s
  | _ => false

/-- The method call `v.get(key, default)`. -/
def get (v : Value) (key : String) (default : Value) : Except PyErr Value :=
  match v with
  | .dict fields => .ok ((fields.lookup key).getD default)
  | _ => .error (.attribute "object has no attribute 'get'")

/-- The subscript `v[key]` with a string key. -/
def item (v : Value) (key : String) : Except PyErr Value :=
  match v with
  | .dict fields =>
      match fields.lookup key with
      | some value => .ok value
      | Option.none => .error (.key key)
  | .list _ => .error (.type "list indices must be integers or slices, not str")
  | .str _ => .error (.type "string indices must be integers, not 'str'")
  | _ => .error (.type "object is not subscriptable")

/-- What iterating over a value yields. -/
def iter : Value → Except PyErr (List Value)
  | .list items => .ok items
  | .dict fields => .ok (fields.map fun f => .str f.1)
  | .str s => .ok (s.toList.map fun c => .str (String.ofList [c]))
  | _ => .error (.type "object is not iterable")

def len : Value → Except PyErr Nat
  | .list items => .ok items.length
  | .dict fields => .ok fields.length
  | .str s => .ok s.length
  | _ => .error (.type "object has no len()")

/-- A key of a dictionary or a member of a set has to be hashable. -/
def hashable : Value → Except PyErr Unit
  | .list _ => .error (.type "unhashable type: 'list'")
  | .dict _ => .error (.type "unhashable type: 'dict'")
  | _ => .ok ()

/-- The method call `v.endswith(suffix)`, for any of the suffixes. -/
def endswith (v : Value) (suffixes : List String) : Except PyErr Bool :=
  match v with
  | .str s => .ok (suffixes.any (endsWith s))
  | _ => .error (.attribute "object has no attribute 'endswith'")

/-- The lookup of a key of any type in a dictionary whose keys are strings. -/
def lookupIn (key : Value) (table : List (String × String)) : Except PyErr (Option String) := do
  key.hashable
  match key with
  | .str s => .ok (table.lookup s)
  | _ => .ok Option.none

/-- The test `value in items` for a list. -/
def isIn (value : Value) (items : List Value) : Bool := items.any (same value)

/-- The argument of `Path(value)`. -/
def pathName : Value → Except PyErr String
  | .str s => .ok s
  | _ => .error (.type "expected str, bytes or os.PathLike object")

/-- The test `any(p.endswith(suffixes) for p in values)`, which stops at the first match. -/
def anyEndswith (suffixes : List String) : List Value → Except PyErr Bool
  | [] => .ok false
  | v :: rest => do
      if ← v.endswith suffixes then return true else anyEndswith suffixes rest

mutual

/-- The text of a value in an error message. -/
def text (floatText : Double → String) : Value → String
  | .none => "None"
  | .bool b => if b then "True" else "False"
  | .int i => toString i
  | .float x => floatText x
  | .str s => s
  | .list items => "[" ++ ", ".intercalate (texts floatText items) ++ "]"
  | .dict fields => "\x7b" ++ ", ".intercalate (fieldTexts floatText fields) ++ "\x7d"

def texts (floatText : Double → String) : List Value → List String
  | [] => []
  | v :: rest => text floatText v :: texts floatText rest

def fieldTexts (floatText : Double → String) : List (String × Value) → List String
  | [] => []
  | (k, v) :: rest => (k ++ ": " ++ text floatText v) :: fieldTexts floatText rest

end

end Value

/-- A relative path by its components, without empty ones and dots. -/
abbrev Path := List String

def splitSlash : List Char → List (List Char)
  | [] => [[]]
  | c :: cs =>
      if c = '/' then [] :: splitSlash cs
      else
        match splitSlash cs with
        | [] => [[c]]
        | part :: rest => (c :: part) :: rest

/-- The components of `Path(name)`. -/
def parts (name : String) : Path :=
  ((splitSlash name.toList).filter fun p => !(p.isEmpty || p == ['.'])).map String.ofList

def isAbsolute (name : String) : Bool := name.toList.head? == some '/'

/-- The text `str(Path(name))` of a relative path. -/
def pathText (path : Path) : String :=
  if path.isEmpty then "." else "/".intercalate path

/-- Later values of a repeated key win, at the place of the first. -/
def assign {κ ν : Type} [DecidableEq κ] (table : List (κ × ν)) (key : κ) (value : ν) :
    List (κ × ν) :=
  if table.any fun e => e.1 = key then
    table.map fun e => if e.1 = key then (key, value) else e
  else table ++ [(key, value)]

/-- The dictionary `{k: v for ...}`. -/
def dictOf {κ ν : Type} [DecidableEq κ] (entries : List (κ × ν)) : List (κ × ν) :=
  entries.foldl (fun table e => assign table e.1 e.2) []

end Mathmodel.Workflow
