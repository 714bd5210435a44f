import Mathmodel.Json.Basic

/-!
# JSON text

The text of a value as `JSON.stringify` writes it, and the text `canonical`
writes for the digest of a command. Both agree on scalars and arrays; they
differ in the order of object members, which `canonical` sorts by the UTF-16
code units of their names, the order of `Array.prototype.sort`.
-/

namespace Mathmodel

/-- UTF-16 code units of a character; characters above the basic plane are
surrogate pairs. -/
def utf16Char (c : Char) : List Nat :=
  if c.toNat < 0x10000 then [c.toNat]
  else [0xD800 + (c.toNat - 0x10000) / 0x400, 0xDC00 + (c.toNat - 0x10000) % 0x400]

def utf16 (text : String) : List Nat := text.toList.flatMap utf16Char

def quoteMark : Char := Char.ofNat 0x22
def backslash : Char := Char.ofNat 0x5c

/-- How one character of a string is written between the quotation marks. -/
def escapeChar (c : Char) : List Char :=
  if c = quoteMark then [backslash, quoteMark]
  else if c = backslash then [backslash, backslash]
  else if c.toNat = 0x08 then [backslash, 'b']
  else if c.toNat = 0x09 then [backslash, 't']
  else if c.toNat = 0x0a then [backslash, 'n']
  else if c.toNat = 0x0c then [backslash, 'f']
  else if c.toNat = 0x0d then [backslash, 'r']
  else if c.toNat < 0x20 then
    [backslash, 'u', '0', '0', Nat.digitChar (c.toNat / 16), Nat.digitChar (c.toNat % 16)]
  else [c]

def quote (text : String) : List Char :=
  quoteMark :: (text.toList.flatMap escapeChar ++ [quoteMark])

/-- The texts with a comma between each two. -/
def commaJoin : List (List Char) → List Char
  | [] => []
  | [text] => text
  | text :: rest => text ++ ',' :: commaJoin rest

def memberText (field : String × List Char) : List Char := quote field.1 ++ ':' :: field.2

/-- Member names in the order of their code units. -/
def memberLe (a b : String × List Char) : Prop := utf16 a.1 ≤ utf16 b.1

instance : DecidableRel memberLe := fun a b => inferInstanceAs (Decidable (utf16 a.1 ≤ utf16 b.1))

namespace Json

mutual

/-- Text of a value, with the members of each object arranged by `arrange`. -/
def write (arrange : List (String × List Char) → List (String × List Char)) : Json → List Char
  | .null => "null".toList
  | .bool true => "true".toList
  | .bool false => "false".toList
  | .num n => n.text.toList
  | .infinite _ => "null".toList
  | .str s => quote s
  | .arr items => '[' :: (commaJoin (writeItems arrange items) ++ [']'])
  | .obj fields =>
      '\x7b' :: (commaJoin ((arrange (writeFields arrange fields)).map memberText) ++ ['\x7d'])

def writeItems (arrange : List (String × List Char) → List (String × List Char)) :
    List Json → List (List Char)
  | [] => []
  | v :: rest => write arrange v :: writeItems arrange rest

def writeFields (arrange : List (String × List Char) → List (String × List Char)) :
    List (String × Json) → List (String × List Char)
  | [] => []
  | (k, v) :: rest => (k, write arrange v) :: writeFields arrange rest

end

/-- The text whose SHA-256 identifies a command. -/
def canonical (v : Json) : String := String.ofList (v.write (List.insertionSort memberLe))

end Json

end Mathmodel
