import Mathmodel.Library.Tabled
import Mathmodel.Tools.Overwriting

/-!
# Writing a manifest and checking it

What `--check` finds in a tree that holds a written manifest depends on the enumerated files,
and on the name and version being values that are equal to what is read back of them. Files
in a directory that has the name of an archive, of the manifest or of a folder setting are not
enumerated, so they may differ. A manifest that is written over an enumerated file, through a link
or another name of it, is never right.
-/

namespace Mathmodel.Kit

open JsString (Paired)

section Check

variable {sha256 : Bytes → JsString} {encode : JsString → Bytes} {decode : Bytes → JsString}
  {readPackage : Bytes → Option Package} {root later : Tree} {m : Manifest}

/-- What the comparison with a written manifest comes to. -/
theorem compare_toJs (live recorded : Manifest) :
    compare live recorded.toJs = some (
      comparePaths (recorded.files.map FileEntry.recorded) live.files ++
      ((if recorded.package.readBack.matches_ live.package then [] else [.identity]) ++
      ((if recorded.fileCount = live.fileCount then [] else [.fileCount]) ++
      (if recorded.byteTotal = live.byteTotal then [] else [.byteTotal])))) := by
  rw [compare, readFiles_toJs, get_version, get_name, get_fileCount, get_byteTotal]
  simp only [Option.bind_eq_bind, Option.bind_some, numberProperty_strictEq]
  rfl

/-- A tree that holds a written manifest passes where the enumerated files are the same, and the
name and version are those that were written. -/
theorem check_eq_nil (collision_free : Function.Injective sha256)
    (utf8 : ∀ s, Paired s → decode (encode s) = s)
    (made : enumerate sha256 readPackage root = some m)
    (holds : later.read manifestName = some (encode m.serialise)) :
    check sha256 decode readPackage later = some [] ↔
      Agree root later ∧ ∃ p, packageOf readPackage later = some p ∧
        m.package.readBack.matches_ p = true := by
  obtain ⟨legible, p, -, rfl⟩ := enumerate_eq_some.mp made
  have reads : ∀ live, enumerate sha256 readPackage later = some live →
      check sha256 decode readPackage later =
        compare live (Manifest.toJs ⟨p.name, p.version, entriesOf sha256 root⟩) := by
    intro live found
    rw [check, found, holds]
    simp only [Option.bind_eq_bind, Option.bind_some, fileExists_of_read holds, if_true,
      utf8 _ (paired_serialise _), parse_serialise]
  constructor
  · intro passes
    cases found : enumerate sha256 readPackage later with
    | none =>
        rw [check, found] at passes
        cases passes
    | some live =>
        rw [reads live found, compare_toJs, Option.some.injEq, List.append_eq_nil_iff,
          List.append_eq_nil_iff] at passes
        obtain ⟨legible', p', package', rfl⟩ := enumerate_eq_some.mp found
        obtain ⟨paths, identity, -⟩ := passes
        refine ⟨agree_of_comparePaths collision_free legible legible' paths, p', package', ?_⟩
        split at identity
        case isTrue same => exact same
        case isFalse => cases identity
  · rintro ⟨agree, p', package', same⟩
    have found : enumerate sha256 readPackage later =
        some ⟨p'.name, p'.version, entriesOf sha256 root⟩ :=
      enumerate_eq_some.mpr ⟨agree.legible legible, p', package', by rw [agree.entriesOf_eq]⟩
    have paths : comparePaths ((entriesOf sha256 root).map FileEntry.recorded) _ = [] :=
      comparePaths_of_agree agree
    rw [← agree.entriesOf_eq] at paths
    have identity : (Manifest.package ⟨p.name, p.version, entriesOf sha256 root⟩).readBack.matches_
        (Manifest.package ⟨p'.name, p'.version, entriesOf sha256 root⟩) = true := same
    rw [reads _ found, compare_toJs, paths, if_pos identity]
    simp [Manifest.fileCount, Manifest.byteTotal]

end Check

/-! ## The round trip -/

/-- A file that is not part of the content of a package: the manifest itself, what lies in the
folders of version control and of dependencies, archives at the top and folder settings. -/
def Excepted (names : List JsString) : Prop :=
  (∃ first ∈ names.head?, first = gitName ∨ first = modulesName) ∨ names = [manifestName] ∨
    (∃ t, names = [t ++ tgzEnding]) ∨ names.getLast? = some storeName

theorem Excepted.pruned {names : List JsString} (excepted : Excepted names) : Pruned names := by
  rcases excepted with ⟨first, head, kind⟩ | rfl | ⟨t, rfl⟩ | last
  · exact .inl ⟨first, head, kind.imp_right .inl⟩
  · exact .inl ⟨manifestName, rfl, .inr (.inr (.inl rfl))⟩
  · exact .inl ⟨t ++ tgzEnding, rfl, .inr (.inr (.inr ⟨t, rfl⟩))⟩
  · exact .inr (List.mem_of_getLast? last)

/-- The same content, byte for byte. -/
def SameContent (root later : Tree) : Prop :=
  ∀ names : List EntryName, ¬ Excepted (names.map shown) → root.fileAt names = later.fileAt names

/-- The same files in directories that are passed over: those that have the name of an archive, of
the manifest or of a folder setting, and those whose name is no text. -/
def SameHidden (root later : Tree) : Prop :=
  ∀ names, ¬ Seen names → ¬ Excepted (names.map shown) → root.fileAt names = later.fileAt names

/-- The same content is the same enumerated files, and the same hidden ones. -/
theorem sameContent_iff {root later : Tree} :
    SameContent root later ↔ Agree root later ∧ SameHidden root later := by
  constructor
  · intro same
    exact ⟨fun names seen => same names fun excepted => seen.kept excepted.pruned,
      fun names _ kept => same names kept⟩
  · rintro ⟨agree, hidden⟩ names kept
    by_cases seen : Seen names
    · exact agree names seen
    · exact hidden names seen kept

section RoundTrip

variable (sha256 : Bytes → JsString) (encode : JsString → Bytes) (decode : Bytes → JsString)
  (readPackage : Bytes → Option Package)

/-- The manifest can be written, and not over a file that is enumerated. -/
def Writable (root : Tree) : Prop :=
  ∃ d, destination root = some d ∧ d.Open root ∧ ¬ d.Enumerated root

/-- The manifest is written over what `package.json` leads to. -/
def Overwritten (root : Tree) : Prop := ∃ d, destination root = some d ∧ d.IsPackage root

/-- Name and version are absent or values, not arrays, objects or numbers out of range. The
numbers do not matter where the manifest takes the place of `package.json`. -/
def PlainPackage (root : Tree) : Prop :=
  ∃ p, packageOf readPackage root = some p ∧
    (p.isPlain = true ∨ Overwritten root ∧ p.readBack.isPlain = true)

/-- The name and version of a package are strictly those that are read back of another's. -/
def SameIdentity (root later : Tree) : Prop :=
  ∃ p p', packageOf readPackage root = some p ∧ packageOf readPackage later = some p' ∧
    p.readBack.matches_ p' = true

/-- `--write`, then `--check` on the tree as it is left. -/
def writeThenCheck (root : Tree) : Option (List Finding) := do
  let written ← write sha256 encode readPackage root
  check sha256 decode readPackage written

variable {sha256 encode decode readPackage}

/-- A later tree that still holds the written manifest passes exactly if it agrees
with the one it was written for and has the same identity. -/
theorem check_written (collision_free : Function.Injective sha256)
    (utf8 : ∀ s, Paired s → decode (encode s) = s) {root written later : Tree}
    (wrote : write sha256 encode readPackage root = some written)
    (holds : later.read manifestName = written.read manifestName) :
    check sha256 decode readPackage later = some [] ↔
      Agree root later ∧ SameIdentity readPackage root later := by
  obtain ⟨m, d, made, goes, stored⟩ := write_eq_some.mp wrote
  rw [stored.read goes] at holds
  rw [check_eq_nil collision_free utf8 made holds]
  obtain ⟨-, p, package, rfl⟩ := enumerate_eq_some.mp made
  refine and_congr_right fun _ => ⟨fun ⟨p', package', same⟩ => ⟨p, p', package, package', same⟩, ?_⟩
  rintro ⟨q, p', package', there, same⟩
  cases package.symm.trans package'
  exact ⟨p', there, same⟩

/-- A manifest that is written over an enumerated file lists a digest that the file does not
have. -/
theorem not_agree_of_enumerated
    (no_own_digest : ∀ m : Manifest, ∀ e ∈ m.files, e.sha256 ≠ sha256 (encode m.serialise))
    {root written : Tree} {m : Manifest} {d : Destination}
    (made : enumerate sha256 readPackage root = some m)
    (stored : Stored root (encode m.serialise) d written) (enumerated : d.Enumerated root) :
    ¬ Agree root written := by
  intro agree
  obtain ⟨legible, p, -, rfl⟩ := enumerate_eq_some.mp made
  obtain ⟨names, seen, holds⟩ := stored.holds enumerated
  have before := (agree names seen).trans holds
  have listed : _ ∈ entriesOf sha256 root :=
    mem_entriesOf.mpr ⟨names, _, before, seen, legible names _ before seen, rfl⟩
  exact no_own_digest ⟨p.name, p.version, entriesOf sha256 root⟩ _ listed rfl

/-- The name and version are right after the manifest was written if they are plain. -/
theorem sameIdentity_written
    (reads_back : ∀ m : Manifest, readPackage (encode m.serialise) = some m.package.readBack)
    {root written : Tree} {m : Manifest} {d : Destination}
    (made : enumerate sha256 readPackage root = some m) (goes : destination root = some d)
    (stored : Stored root (encode m.serialise) d written) :
    SameIdentity readPackage root written ↔ PlainPackage readPackage root := by
  obtain ⟨-, p, package, rfl⟩ := enumerate_eq_some.mp made
  by_cases is : d.IsPackage root
  · have after : packageOf readPackage written = some p.readBack := by
      rw [packageOf, stored.package is]
      exact reads_back _
    have plain : p.readBack.matches_ p.readBack = p.readBack.isPlain := by
      rw [← Package.readBack_matches, Package.readBack_readBack]
    constructor
    · rintro ⟨q, p', there, there', same⟩
      cases package.symm.trans there
      cases after.symm.trans there'
      exact ⟨p, package, .inr ⟨⟨d, goes, is⟩, plain ▸ same⟩⟩
    · rintro ⟨q, there, either⟩
      cases package.symm.trans there
      refine ⟨p, p.readBack, package, after, plain.trans ?_⟩
      exact either.elim Package.isPlain_readBack And.right
  · have after : packageOf readPackage written = some p := by
      obtain ⟨text, reads, parsed⟩ := Option.bind_eq_some_iff.mp package
      rw [packageOf, stored.package_other is reads]
      exact parsed
    constructor
    · rintro ⟨q, p', there, there', same⟩
      cases package.symm.trans there
      cases after.symm.trans there'
      exact ⟨p, package, .inl (Package.readBack_matches p ▸ same)⟩
    · rintro ⟨q, there, either⟩
      cases package.symm.trans there
      refine ⟨p, p, package, after, (Package.readBack_matches p).trans (either.resolve_right ?_)⟩
      rintro ⟨⟨d', goes', is'⟩, -⟩
      cases goes.symm.trans goes'
      exact is is'

/-- Writing and then checking reports nothing exactly under these conditions. -/
theorem writeThenCheck_eq_nil (collision_free : Function.Injective sha256)
    (no_own_digest : ∀ m : Manifest, ∀ e ∈ m.files, e.sha256 ≠ sha256 (encode m.serialise))
    (utf8 : ∀ s, Paired s → decode (encode s) = s)
    (reads_back : ∀ m : Manifest, readPackage (encode m.serialise) = some m.package.readBack)
    {root : Tree} :
    writeThenCheck sha256 encode decode readPackage root = some [] ↔
      Legible root ∧ Writable root ∧ PlainPackage readPackage root := by
  rw [writeThenCheck]
  cases wrote : write sha256 encode readPackage root with
  | none =>
      refine ⟨fun passes => (by cases passes), ?_⟩
      rintro ⟨legible, ⟨d, goes, may, -⟩, p, package, -⟩
      have made : enumerate sha256 readPackage root = some _ :=
        enumerate_eq_some.mpr ⟨legible, p, package, rfl⟩
      obtain ⟨written, stored⟩ := may.stored (encode (Manifest.serialise
        ⟨p.name, p.version, entriesOf sha256 root⟩))
      have some_ := write_eq_some.mpr ⟨_, d, made, goes, stored⟩
      rw [wrote] at some_
      cases some_
  | some written =>
      rw [Option.bind_eq_bind, Option.bind_some, check_written collision_free utf8 wrote rfl]
      obtain ⟨m, d, made, goes, stored⟩ := write_eq_some.mp wrote
      rw [sameIdentity_written reads_back made goes stored]
      constructor
      · rintro ⟨agree, plain⟩
        refine ⟨(enumerate_eq_some.mp made).1, ⟨d, goes, stored.open_, fun enumerated => ?_⟩, plain⟩
        exact not_agree_of_enumerated no_own_digest made stored enumerated agree
      · rintro ⟨-, ⟨d', goes', -, apart⟩, plain⟩
        cases goes.symm.trans goes'
        exact ⟨stored.agree apart, plain⟩

/-- The order of the entries does not matter to a check. -/
theorem check_relisted {root relisted : Tree} (h : root.Relisted relisted) :
    check sha256 decode readPackage root = check sha256 decode readPackage relisted := by
  rw [check, check, enumerate_relisted h, fileExists_relisted h, h.read]

end RoundTrip

/-! ## Instances -/

section Instances

/-- Name and version of a parsed `package.json`. -/
def parsePackage (text : Bytes) : Option Package := do
  let packageJson ← JsValue.parse text
  some ⟨← get packageJson (asciiUnits "name"), ← get packageJson (asciiUnits "version")⟩

/-- The name and the version are found in the text of a manifest. -/
@[simp]
theorem parsePackage_serialise (m : Manifest) :
    parsePackage m.serialise = some m.package.readBack := by
  rw [parsePackage, parse_serialise, Option.bind_eq_bind, Option.bind_some, get_name, get_version]
  rfl

/-- A `package.json`. -/
def packageValue (version : JsValue) : JsValue :=
  .obj [(asciiUnits "name", .str (asciiUnits "p")), (asciiUnits "version", version)]

/-- The text of a `package.json`. -/
def packageText (version : JsValue) : Bytes := (packageValue version).pretty 0

@[simp]
theorem parse_packageText (version : JsValue) :
    JsValue.parse (packageText version) = some (packageValue version) := by
  have parsed := JsValue.parse_pretty (packageValue version) [] rfl fun c mem => by cases mem
  rwa [List.append_nil] at parsed

@[simp]
theorem parsePackage_packageText (version : JsValue) :
    parsePackage (packageText version) =
      some ⟨.value (.str (asciiUnits "p")), .value version⟩ := by
  have other : (asciiUnits "version" == asciiUnits "name") = false := by decide
  simp [parsePackage, parse_packageText, packageValue, get, List.lookup, other]

theorem isName_package : IsName packageName := by decide

/-- A package that consists of its `package.json`. -/
def single (version : JsValue) : Tree where
  entries := [(named packageName, .file 0)]
  contents _ := some (packageText version)
  sound := .directory (List.nodup_singleton _)
    (List.forall_mem_singleton.mpr (by rw [shown_named]; exact isName_package))
    (List.forall_mem_singleton.mpr (.file rfl))

theorem packageOf_single (version : JsValue) :
    packageOf parsePackage (single version) =
      some ⟨.value (.str (asciiUnits "p")), .value version⟩ := by
  have there : (single version).read packageName = some (packageText version) := by
    rw [Tree.read, Tree.resolve, find_top split_packageName, single, List.lookup_cons,
      beq_self_eq_true]
    rfl
  rw [packageOf, there, Option.bind_some, parsePackage_packageText]

theorem legible_single (version : JsValue) : Legible (single version) := by
  intro names content found _
  obtain ⟨place, leads, -⟩ := Tree.fileAt_eq_some.mp found
  cases names with
  | nil => cases leads
  | cons name rest =>
      obtain ⟨node, there, onward⟩ := Option.bind_eq_some_iff.mp leads
      have mem : (name, node) ∈ [(named packageName, Node.file 0)] := mem_of_lookup there
      obtain ⟨rfl, rfl⟩ := Prod.mk.inj (List.mem_singleton.mp mem)
      cases rest with
      | nil => exact List.forall_mem_singleton.mpr (isLegible_named _)
      | cons second rest => cases onward

theorem vacant_single (version : JsValue) : (single version).Vacant [named manifestName] where
  free := by
    have other : takes [named manifestName] [(named packageName, .file 0)] = true := by decide
    exact other
  proper := by decide

theorem destination_single (version : JsValue) :
    destination (single version) = some (.names [named manifestName]) := by
  have other : (named manifestName == named packageName) = false := by decide
  rw [destination, single, List.lookup_cons, other]
  rfl

theorem not_seen_manifest : ¬ Seen [named manifestName] := fun seen =>
  seen.kept (.inl ⟨manifestName, by simp, .inr (.inr (.inl rfl))⟩)

theorem writable_single (version : JsValue) : Writable (single version) :=
  ⟨_, destination_single version, vacant_single version, not_seen_manifest⟩

def ordinary : JsValue := .str (asciiUnits "1.0.0")

/-- The digest of the `package.json` of an ordinary package. -/
def digests : List (Bytes × JsString) :=
  [(packageText ordinary,
    asciiUnits "35e45b4af4d1e12007c87214ca77a201706dc9cc32429d96743eb74805a541bd")]

def digest : Bytes → JsString := tabled digests (0 :: ·)

theorem digest_injective : Function.Injective digest := by
  refine tabled_injective (List.nodup_singleton _) (List.cons_injective (a := 0)) ?_
  intro content e listed same
  obtain rfl := List.mem_singleton.mp listed
  have heads := congrArg List.head? same
  rw [List.head?_cons] at heads
  exact absurd heads (by decide)

/-- A digest that is listed is shorter than the manifest. -/
theorem length_lt_serialise {m : Manifest} {e : FileEntry} (mem : e ∈ m.files) :
    e.sha256.length < m.serialise.length := by
  have text : e.sha256.length ≤ (JsValue.pretty 6 (.str e.sha256)).length := by
    rw [JsValue.pretty]
    exact JsString.length_le_quoted _
  have member : (asciiUnits "sha256", JsValue.str e.sha256) ∈ [(asciiUnits "path", .str e.path),
      (asciiUnits "bytes", .num (.ofNat e.bytes)), (asciiUnits "sha256", .str e.sha256)] := by
    simp
  have entry : (JsValue.pretty 6 (.str e.sha256)).length < (JsValue.pretty 4 e.toJs).length :=
    JsValue.length_lt_pretty_obj member
  have files : (JsValue.pretty 4 e.toJs).length <
      (JsValue.pretty 2 (.arr (m.files.map FileEntry.toJs))).length :=
    JsValue.length_lt_pretty_arr (List.mem_map_of_mem mem)
  have whole : (JsValue.pretty 2 (.arr (m.files.map FileEntry.toJs))).length <
      (JsValue.pretty 0 m.toJs).length :=
    JsValue.length_lt_pretty_obj (Manifest.files_mem_toJs m)
  rw [Manifest.serialise, List.length_append]
  omega

/-- A manifest is not the `package.json`. -/
theorem serialise_ne_packageText (m : Manifest) : m.serialise ≠ packageText ordinary := by
  intro same
  have parsed := parse_serialise m
  rw [same, parse_packageText, Option.some.injEq] at parsed
  have files := get_fileCount m
  rw [← parsed] at files
  have absent : get (packageValue ordinary) (asciiUnits "fileCount") = some .undefined := rfl
  rw [absent] at files
  cases files

theorem no_own_digest (m : Manifest) : ∀ e ∈ m.files, e.sha256 ≠ digest (id m.serialise) := by
  intro e mem same
  have shorter := length_lt_serialise mem
  have unlisted : digest m.serialise = 0 :: m.serialise := by
    refine tabled_of_not_mem fun listed => serialise_ne_packageText m ?_
    exact List.mem_singleton.mp listed
  rw [same, id, unlisted, List.length_cons] at shorter
  omega

def archiveName : JsString := asciiUnits "x.tgz"

/-- A package with a file in a folder that has the name of an archive. -/
def archived (content : Bytes) : Tree where
  entries := [(named packageName, .file 0),
    (named archiveName, .directory [(named (asciiUnits "a"), .file 1)])]
  contents i := some (if i = 0 then packageText ordinary else content)
  sound := by
    have distinct : [packageName, archiveName].Nodup := by decide
    refine .directory distinct ?_ ?_
    · exact List.forall_mem_cons.mpr
        ⟨isName_package, List.forall_mem_singleton.mpr (by decide)⟩
    · refine List.forall_mem_cons.mpr ⟨.file rfl, List.forall_mem_singleton.mpr ?_⟩
      exact .directory (List.nodup_singleton _)
        (List.forall_mem_singleton.mpr (by decide))
        (List.forall_mem_singleton.mpr (.file rfl))

/-- A file in a directory with the name of an archive is not enumerated. -/
theorem agree_archived (content : Bytes) : Agree (single ordinary) (archived content) := by
  intro names seen
  cases names with
  | nil => rfl
  | cons name rest =>
      have other : name ≠ named archiveName := by
        rintro rfl
        refine seen.kept (.inl ⟨archiveName, ?_, .inr (.inr (.inr ⟨asciiUnits "x", by decide⟩))⟩)
        rw [List.map_cons, shown_named]
        rfl
      have skips : (name == named archiveName) = false := beq_false_of_ne other
      rw [Tree.fileAt, Tree.fileAt, Tree.top, Tree.top, archived, single, Node.find_directory,
        Node.find_directory, List.lookup_cons, List.lookup_cons, List.lookup_cons, skips]
      cases name == named packageName with
      | false => rfl
      | true => cases rest <;> rfl

theorem fileAt_archived (content : Bytes) :
    (archived content).fileAt [named archiveName, named (asciiUnits "a")] = some content := by
  have first : (named archiveName == named packageName) = false := by decide
  rw [Tree.fileAt, Tree.top, archived, Node.find_directory, List.lookup_cons, first,
    List.lookup_cons, beq_self_eq_true, Option.bind_some, Node.find_single, List.lookup_cons,
    beq_self_eq_true]
  rfl

theorem not_excepted_archived :
    ¬ Excepted ([named archiveName, named (asciiUnits "a")].map shown) := by
  simp only [List.map_cons, List.map_nil, shown_named]
  rintro (⟨first, head, kind⟩ | same | ⟨t, same⟩ | last)
  · cases head
    rcases kind with same | same
    · exact absurd same (by decide)
    · exact absurd same (by decide)
  · exact List.cons_ne_nil _ _ (List.cons.inj same).2
  · exact List.cons_ne_nil _ _ (List.cons.inj same).2
  · exact absurd last (by decide)

theorem read_archived (content : Bytes) :
    (archived content).read packageName = some (packageText ordinary) := by
  rw [Tree.read, Tree.resolve, find_top split_packageName, archived, List.lookup_cons,
    beq_self_eq_true]
  rfl

theorem packageOf_of_read {root : Tree}
    (reads : root.read packageName = some (packageText ordinary)) :
    packageOf parsePackage root = some ⟨.value (.str (asciiUnits "p")), .value ordinary⟩ := by
  rw [packageOf, reads, Option.bind_some, parsePackage_packageText]

theorem vacant_archived (content : Bytes) : (archived content).Vacant [named manifestName] where
  free := by
    have other : takes [named manifestName] [(named packageName, .file 0),
      (named archiveName, .directory [(named (asciiUnits "a"), .file 1)])] = true := by decide
    exact other
  proper := by decide

theorem destination_archived (content : Bytes) :
    destination (archived content) = some (.names [named manifestName]) := by
  have first : (named manifestName == named packageName) = false := by decide
  have second : (named manifestName == named archiveName) = false := by decide
  rw [destination, archived, List.lookup_cons, first, List.lookup_cons, second]
  rfl

end Instances

end Mathmodel.Kit
