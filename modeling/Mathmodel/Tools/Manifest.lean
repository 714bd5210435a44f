import Mathmodel.Json.WellFormed
import Mathmodel.Tools.Writing

/-!
# The content manifest

A package is enumerated file by file, with size and digest, and the enumeration is written to a
manifest that a later run compares with the files it finds. The digest, the encoding of texts
and what is read out of `package.json` are parameters. `package.json` and the manifest are read
through links, and the manifest is written through one.
-/

namespace Mathmodel.Kit

open JsString (Paired)

/-- A property of a parsed object. A number too large for a double is read as infinite. What is
shown of an array or object has no such number in it: it is written as `null`. -/
inductive Property where
  | undefined
  | infinite (negative : Bool)
  | value (shown : JsValue)

namespace Property

/-- What `JSON.stringify` writes, `none` where the member is left out. -/
def shown : Property → Option JsValue
  | undefined => none
  | infinite _ => some .null
  | value shown => some shown

/-- `===` between the properties of two separately parsed objects. -/
def strictEq : Property → Property → Bool
  | undefined, undefined => true
  | infinite a, infinite b => a == b
  | value .null, value .null => true
  | value (.bool a), value (.bool b) => a == b
  | value (.num a), value (.num b) => a == b
  | value (.str a), value (.str b) => a == b
  | _, _ => false

/-- A property that is strictly equal to what is read back of it. -/
def isPlain : Property → Bool
  | undefined | value .null | value (.bool _) | value (.num _) | value (.str _) => true
  | _ => false

/-- What is read back of a property that was written. -/
def readBack (p : Property) : Property := p.shown.elim undefined value

/-- A property is the same when it is read back exactly if it is plain. -/
@[simp]
theorem readBack_strictEq (p : Property) : p.readBack.strictEq p = p.isPlain := by
  cases p with
  | undefined | infinite => rfl
  | value shown => cases shown <;> simp [readBack, Property.shown, strictEq, isPlain]

theorem isPlain_readBack {p : Property} (plain : p.isPlain = true) : p.readBack.isPlain = true := by
  cases p with
  | undefined | value => exact plain
  | infinite => cases plain

@[simp] theorem readBack_readBack (p : Property) : p.readBack.readBack = p.readBack := by
  cases p with
  | undefined | infinite | value => rfl

end Property

/-- `value[key]`, which throws for `null`. -/
def get : JsValue → JsString → Option Property
  | .null, _ => none
  | .obj fields, key => some ((fields.lookup key).elim .undefined .value)
  | _, _ => some .undefined

structure Package where
  name : Property
  version : Property

namespace Package

/-- What is read back of a package that was written. -/
def readBack (p : Package) : Package := ⟨p.name.readBack, p.version.readBack⟩

def isPlain (p : Package) : Bool := p.name.isPlain && p.version.isPlain

/-- The name and version that are recorded are those of the package. -/
def matches_ (recorded live : Package) : Bool :=
  recorded.version.strictEq live.version && recorded.name.strictEq live.name

@[simp] theorem readBack_matches (p : Package) : p.readBack.matches_ p = p.isPlain := by
  rw [matches_, readBack, Property.readBack_strictEq, Property.readBack_strictEq, Bool.and_comm]
  rfl

theorem isPlain_readBack {p : Package} (plain : p.isPlain = true) : p.readBack.isPlain = true := by
  rw [isPlain, Bool.and_eq_true] at plain ⊢
  exact ⟨Property.isPlain_readBack plain.1, Property.isPlain_readBack plain.2⟩

@[simp] theorem readBack_readBack (p : Package) : p.readBack.readBack = p.readBack := by
  rw [readBack, readBack, Property.readBack_readBack, Property.readBack_readBack]

end Package

structure FileEntry where
  path : JsString
  bytes : Nat
  sha256 : JsString

structure Manifest where
  name : Property
  version : Property
  files : List FileEntry

def manifestName : JsString := asciiUnits "MANIFEST.json"

def packageName : JsString := asciiUnits "package.json"

def neverEnumerated : List JsString :=
  [asciiUnits ".git", asciiUnits ".git/**", asciiUnits "node_modules",
    asciiUnits "node_modules/**", manifestName, asciiUnits "*.tgz", asciiUnits "**/.DS_Store"]

def skip (relative : JsString) : Bool := matchesAny relative neverEnumerated

namespace FileEntry

def toJs (e : FileEntry) : JsValue :=
  .obj [(asciiUnits "path", .str e.path), (asciiUnits "bytes", .num (.ofNat e.bytes)),
    (asciiUnits "sha256", .str e.sha256)]

end FileEntry

namespace Manifest

def fileCount (m : Manifest) : Nat := m.files.length

def byteTotal (m : Manifest) : Nat := (m.files.map FileEntry.bytes).sum

/-- The package that the manifest names. -/
def package (m : Manifest) : Package := ⟨m.name, m.version⟩

/-- A member of an object that is written. -/
def member (key : JsString) (p : Property) : List (JsString × JsValue) :=
  p.shown.elim [] fun v => [(key, v)]

def toJs (m : Manifest) : JsValue :=
  .obj (member (asciiUnits "name") m.name ++ (member (asciiUnits "version") m.version ++
    [(asciiUnits "algorithm", .str (asciiUnits "sha256")),
      (asciiUnits "selfExcluded", .str manifestName),
      (asciiUnits "regenerate", .str (asciiUnits "node tools/build-content-manifest.mjs --print")),
      (asciiUnits "verify", .str (asciiUnits "node tools/build-content-manifest.mjs --check")),
      (asciiUnits "fileCount", .num (.ofNat m.fileCount)),
      (asciiUnits "byteTotal", .num (.ofNat m.byteTotal)),
      (asciiUnits "files", .arr (m.files.map FileEntry.toJs))]))

/-- The entries stand in the manifest under `files`. -/
theorem files_mem_toJs (m : Manifest) :
    (asciiUnits "files", JsValue.arr (m.files.map FileEntry.toJs)) ∈
      member (asciiUnits "name") m.name ++ (member (asciiUnits "version") m.version ++
        [(asciiUnits "algorithm", .str (asciiUnits "sha256")),
          (asciiUnits "selfExcluded", .str manifestName),
          (asciiUnits "regenerate",
            .str (asciiUnits "node tools/build-content-manifest.mjs --print")),
          (asciiUnits "verify", .str (asciiUnits "node tools/build-content-manifest.mjs --check")),
          (asciiUnits "fileCount", .num (.ofNat m.fileCount)),
          (asciiUnits "byteTotal", .num (.ofNat m.byteTotal)),
          (asciiUnits "files", .arr (m.files.map FileEntry.toJs))]) := by
  simp

def serialise (m : Manifest) : JsString := m.toJs.pretty 0 ++ [0x0a]

end Manifest

/-- An entry of a recorded manifest. -/
structure RecordedEntry where
  path : JsString
  bytes : Property
  sha256 : Property

/-- An entry without a path that is a string is refused here at once. The tool reports it as
removed, or stops at it. -/
def readEntry (v : JsValue) : Option RecordedEntry := do
  let path ← get v (asciiUnits "path")
  let bytes ← get v (asciiUnits "bytes")
  let sha256 ← get v (asciiUnits "sha256")
  match path with
  | .value (.str path) => some ⟨path, bytes, sha256⟩
  | _ => none

/-- `(recorded.files ?? []).map(…)` -/
def readFiles (recorded : JsValue) : Option (List RecordedEntry) := do
  match ← get recorded (asciiUnits "files") with
  | .undefined | .value .null => some []
  | .value (.arr items) => items.mapM readEntry
  | _ => none

inductive Finding where
  | noManifest
  | added (path : JsString)
  | removed (path : JsString)
  | changed (path : JsString)
  | identity
  | fileCount
  | byteTotal

/-- The entry with a path, the last one if there are several. -/
def byPath {β : Type} (path : β → JsString) (entries : List β) (relative : JsString) : Option β :=
  entries.reverse.find? fun e => path e == relative

def numberProperty (n : Nat) : Property := .value (.num (.ofNat n))

def comparePath (recorded : List RecordedEntry) (live : List FileEntry) (relative : JsString) :
    Option Finding :=
  match byPath RecordedEntry.path recorded relative, byPath FileEntry.path live relative with
  | none, _ => some (.added relative)
  | some _, none => some (.removed relative)
  | some before, some after =>
      if before.sha256.strictEq (.value (.str after.sha256)) &&
          before.bytes.strictEq (numberProperty after.bytes) then none
      else some (.changed relative)

def comparePaths (recorded : List RecordedEntry) (live : List FileEntry) : List Finding :=
  ((recorded.map RecordedEntry.path ++ live.map FileEntry.path).dedup.insertionSort
    (· ≤ ·)).filterMap (comparePath recorded live)

section Tool

variable (sha256 : Bytes → JsString) (encode : JsString → Bytes) (decode : Bytes → JsString)
  (readPackage : Bytes → Option Package)

/-- The regular files, by code point. -/
def filesOf (root : Tree) : List JsString := (root.listTree skip).insertionSort (· ≤ ·)

def entryOf (root : Tree) (relative : JsString) : Option FileEntry :=
  (root.read relative).map fun content => ⟨relative, content.length, sha256 content⟩

def enumerate (root : Tree) : Option Manifest := do
  let files ← (filesOf root).mapM (entryOf sha256 root)
  let packageJson ← readPackage (← root.read packageName)
  some ⟨packageJson.name, packageJson.version, files⟩

/-- The findings of a comparison with a recorded manifest, `none` where it throws. -/
def compare (manifest : Manifest) (recorded : JsValue) : Option (List Finding) := do
  let files ← readFiles recorded
  let version ← get recorded (asciiUnits "version")
  let name ← get recorded (asciiUnits "name")
  let fileCount ← get recorded (asciiUnits "fileCount")
  let byteTotal ← get recorded (asciiUnits "byteTotal")
  some (comparePaths files manifest.files ++
    ((if version.strictEq manifest.version && name.strictEq manifest.name then []
      else [.identity]) ++
    ((if fileCount.strictEq (numberProperty manifest.fileCount) then [] else [.fileCount]) ++
    (if byteTotal.strictEq (numberProperty manifest.byteTotal) then [] else [.byteTotal]))))

/-- `existsSync` of a path below the root: what a link leads to counts. -/
def fileExists (root : Tree) (relative : JsString) : Bool :=
  match root.top.find ((relative.splitOn 0x2f).map named) with
  | none | some (.link .nowhere) => false
  | some (.link (.outside place)) => (root.contents place).isSome
  | some (.link (.inside names)) => (root.top.find names).isSome
  | some _ => true

/-- `--check` -/
def check (root : Tree) : Option (List Finding) := do
  let manifest ← enumerate sha256 readPackage root
  if fileExists root manifestName then
    let content ← root.read manifestName
    let recorded ← JsValue.parse (decode content)
    compare manifest recorded
  else some [.noManifest]

end Tool

/-! ## Writing the manifest -/

/-- What a file is written to: a place, or names at which it is created. -/
inductive Destination where
  | place (place : Nat)
  | names (names : List EntryName)

/-- `writeFileSync` of the manifest follows a link. Directories, sockets and the like are not
written. -/
def destination (root : Tree) : Option Destination :=
  match root.entries.lookup (named manifestName) with
  | none => some (.names [named manifestName])
  | some node =>
      match root.follow node, node with
      | some place, _ => some (.place place)
      | none, .link (.inside names) => some (.names names)
      | none, _ => none

/-- `--write` -/
def write (sha256 : Bytes → JsString) (encode : JsString → Bytes)
    (readPackage : Bytes → Option Package) (root : Tree) : Option Tree := do
  let manifest ← enumerate sha256 readPackage root
  match ← destination root with
  | .place place => some (root.update place (encode manifest.serialise))
  | .names names =>
      if vacant : root.Vacant names then some (root.create names vacant (encode manifest.serialise))
      else none

end Mathmodel.Kit
