import Mathmodel.Tools.Enumeration

/-!
# Checking a recorded manifest

A manifest that was written is read back member by member, so the comparison with another tree
comes down to the enumerated files and to the name and version of the package. The latter are
part of an enumerated file. They are compared as values, though, and an object is never equal
to what is read back of it.
-/

namespace Mathmodel.Kit

open JsString (Paired)

/-! ## Reading back -/

def FileEntry.recorded (e : FileEntry) : RecordedEntry :=
  ⟨e.path, numberProperty e.bytes, .value (.str e.sha256)⟩

@[simp]
theorem readEntry_toJs (e : FileEntry) : readEntry e.toJs = some e.recorded := by
  have path : (asciiUnits "bytes" == asciiUnits "path") = false := by decide
  have digest : (asciiUnits "sha256" == asciiUnits "path") = false := by decide
  have digest' : (asciiUnits "sha256" == asciiUnits "bytes") = false := by decide
  simp [readEntry, FileEntry.toJs, get, List.lookup, path, digest, digest', FileEntry.recorded,
    numberProperty]

section Members

variable {key key' : JsString} {p : Property} {rest : List (JsString × JsValue)}

theorem lookup_member_ne (other : (key' == key) = false) :
    (Manifest.member key p ++ rest).lookup key' = rest.lookup key' := by
  rw [Manifest.member]
  cases p.shown with
  | none => rfl
  | some v => rw [Option.elim_some, List.singleton_append, List.lookup_cons, other]

/-- A member is read back as its property is. -/
theorem lookup_member_self (absent : rest.lookup key = none) :
    ((Manifest.member key p ++ rest).lookup key).elim .undefined .value = p.readBack := by
  rw [Manifest.member, Property.readBack]
  cases p.shown with
  | none => rw [Option.elim_none, List.nil_append, absent]
  | some v => rw [Option.elim_some, List.singleton_append, List.lookup_cons, beq_self_eq_true]

end Members

@[simp]
theorem get_name (m : Manifest) : get m.toJs (asciiUnits "name") = some m.name.readBack := by
  refine congrArg some (lookup_member_self ?_)
  rw [lookup_member_ne (by decide)]
  rfl

@[simp]
theorem get_version (m : Manifest) :
    get m.toJs (asciiUnits "version") = some m.version.readBack := by
  rw [Manifest.toJs, get, lookup_member_ne (by decide)]
  exact congrArg some (lookup_member_self rfl)

@[simp]
theorem get_fileCount (m : Manifest) :
    get m.toJs (asciiUnits "fileCount") = some (numberProperty m.fileCount) := by
  rw [Manifest.toJs, get, lookup_member_ne (by decide), lookup_member_ne (by decide)]
  rfl

@[simp]
theorem get_byteTotal (m : Manifest) :
    get m.toJs (asciiUnits "byteTotal") = some (numberProperty m.byteTotal) := by
  rw [Manifest.toJs, get, lookup_member_ne (by decide), lookup_member_ne (by decide)]
  rfl

/-- The entries of a manifest are read back as they were recorded. -/
@[simp]
theorem readFiles_toJs (m : Manifest) :
    readFiles m.toJs = some (m.files.map FileEntry.recorded) := by
  have listed : get m.toJs (asciiUnits "files") =
      some (.value (.arr (m.files.map FileEntry.toJs))) := by
    rw [Manifest.toJs, get, lookup_member_ne (by decide), lookup_member_ne (by decide)]
    rfl
  rw [readFiles, listed]
  show (m.files.map FileEntry.toJs).mapM readEntry = _
  induction m.files with
  | nil => rfl
  | cons e rest ih => rw [List.map_cons, List.mapM_cons, readEntry_toJs, ih]; rfl

theorem paired_serialise (m : Manifest) : Paired m.serialise :=
  (JsValue.paired_pretty m.toJs 0).append (.unit rfl rfl .nil)

/-- The text of a manifest is read back as the manifest. -/
@[simp]
theorem parse_serialise (m : Manifest) : JsValue.parse m.serialise = some m.toJs :=
  JsValue.parse_pretty m.toJs [0x0a] rfl (by
    intro c mem
    cases mem
    decide)

/-! ## Comparing -/

@[simp]
theorem numberProperty_strictEq {a b : Nat} :
    (numberProperty a).strictEq (numberProperty b) = true ↔ a = b := by
  rw [numberProperty, numberProperty, Property.strictEq, beq_iff_eq]
  exact Number.ofNat_injective.eq_iff

@[simp]
theorem byPath_recorded (entries : List FileEntry) (relative : JsString) :
    byPath RecordedEntry.path (entries.map FileEntry.recorded) relative =
      (byPath FileEntry.path entries relative).map FileEntry.recorded := by
  rw [byPath, byPath, ← List.map_reverse, List.find?_map]
  rfl

theorem byPath_eq_some {entries : List FileEntry} {relative : JsString} {e : FileEntry}
    (found : byPath FileEntry.path entries relative = some e) :
    e ∈ entries ∧ e.path = relative := by
  rw [byPath] at found
  have named := List.find?_some found
  exact ⟨List.mem_reverse.mp (List.mem_of_find?_eq_some found), eq_of_beq named⟩

theorem byPath_of_mem {entries : List FileEntry} {e : FileEntry} (mem : e ∈ entries) :
    ∃ e', byPath FileEntry.path entries e.path = some e' := by
  refine Option.isSome_iff_exists.mp (List.find?_isSome.mpr ⟨e, List.mem_reverse.mpr mem, ?_⟩)
  exact beq_self_eq_true _

/-- Nothing is reported for a path that is listed both times, with the same digest and size. -/
theorem comparePath_eq_none {before after : List FileEntry} {relative : JsString} :
    comparePath (before.map FileEntry.recorded) after relative = none ↔
      ∃ b a, byPath FileEntry.path before relative = some b ∧
        byPath FileEntry.path after relative = some a ∧ b.sha256 = a.sha256 ∧
          b.bytes = a.bytes := by
  rw [comparePath, byPath_recorded]
  cases byPath FileEntry.path before relative with
  | none => simp
  | some b =>
      cases byPath FileEntry.path after relative with
      | none => simp
      | some a =>
          have digests : b.recorded.sha256.strictEq (.value (.str a.sha256)) = true ↔
              b.sha256 = a.sha256 := by
            rw [FileEntry.recorded, Property.strictEq, beq_iff_eq]
          have sizes : b.recorded.bytes.strictEq (numberProperty a.bytes) = true ↔
              b.bytes = a.bytes := numberProperty_strictEq
          simp [← digests, ← sizes, Bool.and_eq_true]

@[simp]
theorem comparePaths_eq_nil {before after : List FileEntry} :
    comparePaths (before.map FileEntry.recorded) after = [] ↔
      ∀ e, e ∈ before ∨ e ∈ after →
        comparePath (before.map FileEntry.recorded) after e.path = none := by
  have paths : (before.map FileEntry.recorded).map RecordedEntry.path =
      before.map FileEntry.path := by
    rw [List.map_map]
    rfl
  rw [comparePaths, List.filterMap_eq_nil_iff, paths]
  simp only [List.mem_insertionSort, List.mem_dedup, List.mem_append, List.mem_map]
  constructor
  · rintro all e (mem | mem)
    · exact all _ (.inl ⟨e, mem, rfl⟩)
    · exact all _ (.inr ⟨e, mem, rfl⟩)
  · rintro all _ (⟨e, mem, rfl⟩ | ⟨e, mem, rfl⟩)
    · exact all e (.inl mem)
    · exact all e (.inr mem)

section Trees

variable {sha256 : Bytes → JsString} {root later : Tree}

/-- One path is listed for one file. -/
theorem listed_inj {a b : Tree} {names names' : List EntryName} {content content' : Bytes}
    (found : a.fileAt names = some content) (found' : b.fileAt names' = some content')
    (legible : ∀ n ∈ names, isLegible n = true) (legible' : ∀ n ∈ names', isLegible n = true)
    (same : joined (names.map shown) = joined (names'.map shown)) : names = names' := by
  obtain ⟨some_, proper⟩ := Tree.fileAt_names found
  obtain ⟨some_', proper'⟩ := Tree.fileAt_names found'
  have shownSame := (joined_inj proper proper' (mt List.map_eq_nil_iff.mp some_)
    (mt List.map_eq_nil_iff.mp some_')).mp same
  rw [← map_named_shown legible, shownSame, map_named_shown legible']

/-- If nothing is reported, the trees agree on what is enumerated. -/
theorem agree_of_comparePaths (collision_free : Function.Injective sha256)
    (legible : Legible root) (legible' : Legible later)
    (same : comparePaths ((entriesOf sha256 root).map FileEntry.recorded)
      (entriesOf sha256 later) = []) : Agree root later := by
  rw [comparePaths_eq_nil] at same
  have meets : ∀ e, e ∈ entriesOf sha256 root ∨ e ∈ entriesOf sha256 later →
      ∃ names content, e.path = joined (names.map shown) ∧ root.fileAt names = some content ∧
        later.fileAt names = some content ∧ ∀ n ∈ names, isLegible n = true := by
    intro e mem
    obtain ⟨b, a, before, after, digests, -⟩ := comparePath_eq_none.mp (same e mem)
    obtain ⟨memB, pathB⟩ := byPath_eq_some before
    obtain ⟨memA, pathA⟩ := byPath_eq_some after
    obtain ⟨names, content, found, -, texts, rfl⟩ := mem_entriesOf.mp memB
    obtain ⟨names', content', found', -, texts', rfl⟩ := mem_entriesOf.mp memA
    obtain rfl := listed_inj found found' texts texts' (pathB.trans pathA.symm)
    obtain rfl := collision_free digests
    exact ⟨names, content, pathB.symm, found, found', texts⟩
  intro names seen
  cases here : root.fileAt names with
  | some content =>
      have texts := legible names content here seen
      obtain ⟨names', content', path, found, found', texts'⟩ :=
        meets _ (.inl (mem_entriesOf.mpr ⟨names, content, here, seen, texts, rfl⟩))
      obtain rfl := listed_inj here found texts texts' path
      rw [found']
      exact here.symm.trans found
  | none =>
      cases there : later.fileAt names with
      | none => rfl
      | some content =>
          have texts := legible' names content there seen
          obtain ⟨names', content', path, found, -, texts'⟩ :=
            meets _ (.inr (mem_entriesOf.mpr ⟨names, content, there, seen, texts, rfl⟩))
          obtain rfl := listed_inj there found texts texts' path
          rw [here] at found
          cases found

/-- Trees that agree have no difference to report. -/
theorem comparePaths_of_agree (agree : Agree root later) :
    comparePaths ((entriesOf sha256 root).map FileEntry.recorded) (entriesOf sha256 later) =
      [] := by
  rw [← agree.entriesOf_eq, comparePaths_eq_nil]
  intro e mem
  rw [or_self] at mem
  obtain ⟨e', found⟩ := byPath_of_mem mem
  exact comparePath_eq_none.mpr ⟨e', e', found, found, rfl, rfl⟩

end Trees

end Mathmodel.Kit
