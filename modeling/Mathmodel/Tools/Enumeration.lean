import Mathmodel.Tools.Manifest

/-!
# What is enumerated

The globs that are never enumerated skip single entries. A file is missing from the manifest
if it is such an entry or lies in a directory that is one, which is said here by the names
that lead to it. It is missing, too, if it lies in a directory whose name is no text; and a file
whose own name is no text stops the enumeration.
-/

namespace Mathmodel.Kit

/-! ## The globs of the list -/

section Globs

variable {word path : JsString}

@[simp]
theorem mem_literals :
    path ∈ ((word.map Token.literal).map Token.language).prod ↔ path = word := by
  induction word generalizing path with
  | nil => exact Language.mem_one path
  | cons c word ih =>
      rw [List.map_cons, List.map_cons, List.prod_cons, Language.mem_mul]
      constructor
      · rintro ⟨first, rfl, rest, mem, rfl⟩
        rw [ih.mp mem]
        rfl
      · rintro rfl
        exact ⟨[c], rfl, word, ih.mpr rfl, rfl⟩

/-- A glob without a wildcard stands for itself. -/
theorem mem_literal_glob (word : JsString) (plain : tokens word = word.map Token.literal) :
    path ∈ globLanguage word ↔ path = word := by
  rw [globLanguage, plain, mem_literals]

theorem mem_below_glob {pattern : JsString} (word : JsString)
    (shape : tokens pattern = word.map Token.literal ++ [.any]) :
    path ∈ globLanguage pattern ↔ ∃ t, path = word ++ t := by
  rw [globLanguage, shape, List.map_append, List.prod_append, Language.mem_mul]
  constructor
  · rintro ⟨first, mem, rest, -, rfl⟩
    exact ⟨rest, by rw [mem_literals.mp mem]⟩
  · rintro ⟨t, rfl⟩
    refine ⟨word, mem_literals.mpr rfl, t, ?_, rfl⟩
    rw [List.map_singleton, List.prod_singleton]
    exact trivial

theorem mem_suffix_glob {pattern : JsString} (word : JsString)
    (shape : tokens pattern = .segment :: word.map Token.literal) :
    path ∈ globLanguage pattern ↔ ∃ t, 0x2f ∉ t ∧ path = t ++ word := by
  rw [globLanguage, shape, List.map_cons, List.prod_cons, Language.mem_mul]
  constructor
  · rintro ⟨t, plain, rest, mem, rfl⟩
    exact ⟨t, plain, by rw [mem_literals.mp mem]⟩
  · rintro ⟨t, plain, rfl⟩
    exact ⟨t, plain, word, mem_literals.mpr rfl, rfl⟩

/-- A glob `**/word` stands for the word, at the top or below any directory. -/
theorem mem_anywhere_glob {pattern : JsString} (word : JsString)
    (shape : tokens pattern = .directories :: word.map Token.literal) :
    path ∈ globLanguage pattern ↔ path = word ∨ ∃ t, path = t ++ 0x2f :: word := by
  rw [globLanguage, shape, List.map_cons, List.prod_cons, Language.mem_mul]
  constructor
  · rintro ⟨t, rfl | ⟨u, rfl⟩, rest, mem, rfl⟩
    · exact .inl (mem_literals.mp mem)
    · exact .inr ⟨u, by rw [mem_literals.mp mem, List.append_assoc]; rfl⟩
  · rintro (rfl | ⟨t, rfl⟩)
    · exact ⟨[], .inl rfl, path, mem_literals.mpr rfl, rfl⟩
    · exact ⟨t ++ [0x2f], .inr ⟨t, rfl⟩, word, mem_literals.mpr rfl, by
        rw [List.append_assoc]; rfl⟩

end Globs

/-! ## Joined names -/

section Joined

variable {names : List JsString} {word first last t u : JsString}

@[simp]
theorem joined_cons_cons (first second : JsString) (rest : List JsString) :
    joined (first :: second :: rest) = first ++ 0x2f :: joined (second :: rest) := by
  rw [joined, joined, List.intercalate_cons_cons, List.append_assoc]
  rfl

/-- Up to its first slash a text is pinned. -/
theorem slash_inj (plain : 0x2f ∉ first) (plain' : 0x2f ∉ word)
    (same : first ++ 0x2f :: t = word ++ 0x2f :: u) : first = word ∧ t = u := by
  have inside : ∀ c ∈ first, c ≠ 0x2f := fun c mem is => plain (is ▸ mem)
  have inside' : ∀ c ∈ word, c ≠ 0x2f := fun c mem is => plain' (is ▸ mem)
  obtain ⟨heads, tails⟩ := append_inj_of_class inside inside'
    (fun c mem other => by cases mem; exact other rfl)
    (fun c mem other => by cases mem; exact other rfl) same
  exact ⟨heads, (List.cons.inj tails).2⟩

theorem joined_eq_name (proper : ∀ n ∈ names, IsName n) (some_ : names ≠ [])
    (plain : 0x2f ∉ word) : joined names = word ↔ names = [word] := by
  constructor
  · intro same
    have split := splitOn_joined proper some_
    rw [same] at split
    cases names with
    | nil => exact absurd rfl some_
    | cons first rest =>
        cases rest with
        | nil => rw [joined, List.intercalate_singleton] at same; rw [same]
        | cons second rest =>
            rw [joined_cons_cons] at same
            exact absurd (by rw [← same]; simp) plain
  · rintro rfl
    exact List.intercalate_singleton

theorem joined_eq_below (proper : ∀ n ∈ names, IsName n) (some_ : names ≠ [])
    (plain : 0x2f ∉ word) :
    (∃ t, joined names = word ++ 0x2f :: t) ↔ ∃ second rest, names = word :: second :: rest := by
  constructor
  · rintro ⟨t, same⟩
    cases names with
    | nil => exact absurd rfl some_
    | cons first rest =>
        have head := (proper first List.mem_cons_self).plain
        cases rest with
        | nil =>
            rw [joined, List.intercalate_singleton] at same
            exact absurd (by rw [same]; simp) head
        | cons second rest =>
            rw [joined_cons_cons] at same
            obtain ⟨rfl, -⟩ := slash_inj head plain same
            exact ⟨second, rest, rfl⟩
  · rintro ⟨second, rest, rfl⟩
    exact ⟨joined (second :: rest), joined_cons_cons word second rest⟩

theorem joined_eq_suffix (proper : ∀ n ∈ names, IsName n) (some_ : names ≠ [])
    (plain : 0x2f ∉ word) :
    (∃ t, 0x2f ∉ t ∧ joined names = t ++ word) ↔ ∃ t, names = [t ++ word] := by
  constructor
  · rintro ⟨t, free, same⟩
    refine ⟨t, (joined_eq_name proper some_ ?_).mp same⟩
    rw [List.mem_append, not_or]
    exact ⟨free, plain⟩
  · rintro ⟨t, rfl⟩
    have head := (proper (t ++ word) List.mem_cons_self).plain
    rw [List.mem_append, not_or] at head
    exact ⟨t, head.1, List.intercalate_singleton⟩

theorem joined_eq_last (proper : ∀ n ∈ names, IsName n) (some_ : names ≠ [])
    (plain : 0x2f ∉ word) :
    (joined names = word ∨ ∃ t, joined names = t ++ 0x2f :: word) ↔
      names.getLast? = some word := by
  obtain ⟨init, last, rfl⟩ : ∃ init last, names = init ++ [last] :=
    ⟨names.dropLast, names.getLast some_, (List.dropLast_append_getLast some_).symm⟩
  have tail := (proper last (by simp)).plain
  rw [List.getLast?_concat, Option.some.injEq]
  cases init with
  | nil =>
      have alone : joined ([] ++ [last]) = last := List.intercalate_singleton
      rw [alone]
      refine ⟨fun either => either.resolve_right ?_, .inl⟩
      rintro ⟨t, same⟩
      exact tail (by rw [same]; simp)
  | cons first rest =>
      rw [joined_concat (List.cons_ne_nil first rest)]
      constructor
      · rintro (same | ⟨t, same⟩)
        · exact absurd (by rw [← same]; simp) plain
        · have backwards := congrArg List.reverse same
          simp only [List.reverse_append, List.reverse_cons, List.append_assoc,
            List.singleton_append] at backwards
          have words := (slash_inj (by rwa [List.mem_reverse]) (by rwa [List.mem_reverse])
            backwards).1
          exact List.reverse_injective words
      · rintro rfl
        exact .inr ⟨_, rfl⟩

end Joined

/-! ## Skipped entries -/

def gitName : JsString := asciiUnits ".git"

def modulesName : JsString := asciiUnits "node_modules"

def tgzEnding : JsString := asciiUnits ".tgz"

def storeName : JsString := asciiUnits ".DS_Store"

/-- An entry that is not enumerated, nor anything in it. -/
def Skipped (names : List JsString) : Prop :=
  (names = [gitName] ∨ ∃ second rest, names = gitName :: second :: rest) ∨
    (names = [modulesName] ∨ ∃ second rest, names = modulesName :: second :: rest) ∨
      names = [manifestName] ∨ (∃ t, names = [t ++ tgzEnding]) ∨ names.getLast? = some storeName

/-- The globs of what is never enumerated, on the names of a path. -/
theorem skip_joined {names : List JsString} (proper : ∀ n ∈ names, IsName n)
    (some_ : names ≠ []) : skip (joined names) = true ↔ Skipped names := by
  have git : ∀ t, asciiUnits ".git/" ++ t = gitName ++ 0x2f :: t := fun t => rfl
  have modules : ∀ t, asciiUnits "node_modules/" ++ t = modulesName ++ 0x2f :: t := fun t => rfl
  rw [skip, matchesAny_iff (joined_oneLine proper)]
  simp only [neverEnumerated, List.mem_cons, List.not_mem_nil, or_false, exists_eq_or_imp,
    exists_eq_left]
  rw [mem_literal_glob (asciiUnits ".git") (by decide),
    mem_below_glob (asciiUnits ".git/") (by decide),
    mem_literal_glob (asciiUnits "node_modules") (by decide),
    mem_below_glob (asciiUnits "node_modules/") (by decide),
    mem_literal_glob manifestName (by decide),
    mem_suffix_glob tgzEnding (by decide),
    mem_anywhere_glob storeName (by decide)]
  simp only [git, modules]
  rw [joined_eq_name proper some_ (by decide), joined_eq_below proper some_ (by decide),
    joined_eq_name proper some_ (by decide), joined_eq_below proper some_ (by decide),
    joined_eq_name proper some_ (by decide), joined_eq_suffix proper some_ (by decide),
    joined_eq_last proper some_ (by decide), Skipped, or_assoc, or_assoc]
  rfl

/-- A file that is itself skipped, or lies in a directory that is. -/
def Pruned (names : List JsString) : Prop :=
  (∃ first ∈ names.head?, first = gitName ∨ first = modulesName ∨ first = manifestName ∨
    ∃ t, first = t ++ tgzEnding) ∨ storeName ∈ names

theorem Skipped.pruned {taken names : List JsString} (skipped : Skipped taken)
    (within : taken <+: names) : Pruned names := by
  obtain ⟨rest, rfl⟩ := within
  rcases skipped with (rfl | ⟨_, _, rfl⟩) | (rfl | ⟨_, _, rfl⟩) | rfl | ⟨t, rfl⟩ | last
  · exact .inl ⟨gitName, rfl, .inl rfl⟩
  · exact .inl ⟨gitName, rfl, .inl rfl⟩
  · exact .inl ⟨modulesName, rfl, .inr (.inl rfl)⟩
  · exact .inl ⟨modulesName, rfl, .inr (.inl rfl)⟩
  · exact .inl ⟨manifestName, rfl, .inr (.inr (.inl rfl))⟩
  · exact .inl ⟨t ++ tgzEnding, rfl, .inr (.inr (.inr ⟨t, rfl⟩))⟩
  · exact .inr (List.mem_append_left _ (List.mem_of_getLast? last))

theorem Pruned.skipped {names : List JsString} (pruned : Pruned names) :
    ∃ taken, taken ≠ [] ∧ taken <+: names ∧ Skipped taken := by
  rcases pruned with ⟨first, head, kind⟩ | store
  · cases names with
    | nil => cases head
    | cons _ rest =>
        cases head
        refine ⟨[first], List.cons_ne_nil _ _, ⟨rest, rfl⟩, ?_⟩
        rcases kind with rfl | rfl | rfl | ⟨t, rfl⟩
        · exact .inl (.inl rfl)
        · exact .inr (.inl (.inl rfl))
        · exact .inr (.inr (.inl rfl))
        · exact .inr (.inr (.inr (.inl ⟨t, rfl⟩)))
  · obtain ⟨before, after, rfl⟩ := List.append_of_mem store
    refine ⟨before ++ [storeName], by simp, ⟨after, by rw [List.append_assoc]; rfl⟩, ?_⟩
    exact .inr (.inr (.inr (.inr List.getLast?_concat)))

/-- What the listing reaches is what no such name prunes. -/
theorem reached_skip {names : List JsString} (proper : ∀ n ∈ names, IsName n) :
    Reached skip [] names ↔ ¬ Pruned names := by
  constructor
  · intro all pruned
    obtain ⟨taken, some_, within, skipped⟩ := pruned.skipped
    have entered := all taken some_ within
    rw [List.nil_append, Bool.eq_false_iff] at entered
    exact entered ((skip_joined (fun n mem => proper n (within.subset mem)) some_).mpr skipped)
  · intro kept taken some_ within
    rw [List.nil_append, Bool.eq_false_iff]
    intro skipped
    exact kept (((skip_joined (fun n mem => proper n (within.subset mem)) some_).mp
      skipped).pruned within)

/-! ## The enumeration -/

/-- Names that the enumeration comes to. -/
structure Seen (names : List EntryName) : Prop where
  kept : ¬ Pruned (names.map shown)
  followed : Followed names

section Files

variable {root root' : Tree} {path : JsString}

/-- The listing has the paths of the files that are seen. -/
@[simp]
theorem mem_filesOf :
    path ∈ filesOf root ↔ ∃ names content, root.fileAt names = some content ∧
      path = joined (names.map shown) ∧ Seen names := by
  rw [filesOf, List.mem_insertionSort, Tree.mem_listTree]
  refine exists_congr fun names => exists_congr fun content => and_congr_right fun found =>
    and_congr_right fun _ => ?_
  rw [reached_skip (Tree.fileAt_names found).2]
  exact ⟨fun h => ⟨h.1, h.2⟩, fun h => ⟨h.kept, h.followed⟩⟩

/-- Every file that is come to has a name that is a text. -/
def Legible (root : Tree) : Prop :=
  ∀ names content, root.fileAt names = some content → Seen names →
    ∀ n ∈ names, isLegible n = true

/-- What is enumerated of two trees is the same. -/
def Agree (root root' : Tree) : Prop :=
  ∀ names, Seen names → root.fileAt names = root'.fileAt names

theorem Agree.symm (agree : Agree root root') : Agree root' root :=
  fun names seen => (agree names seen).symm

theorem Agree.trans {root'' : Tree} (agree : Agree root root') (agree' : Agree root' root'') :
    Agree root root'' :=
  fun names seen => (agree names seen).trans (agree' names seen)

theorem Agree.legible (agree : Agree root root') (legible : Legible root) : Legible root' :=
  fun names content found seen => legible names content ((agree names seen).trans found) seen

theorem Agree.legible_iff (agree : Agree root root') : Legible root ↔ Legible root' :=
  ⟨agree.legible, agree.symm.legible⟩

/-- Trees that agree have the same listing. -/
theorem Agree.filesOf_eq (agree : Agree root root') : filesOf root = filesOf root' := by
  have within : ∀ {a b : Tree}, Agree a b → ∀ path, path ∈ filesOf a → path ∈ filesOf b := by
    intro a b same path mem
    obtain ⟨names, content, found, rfl, seen⟩ := mem_filesOf.mp mem
    exact mem_filesOf.mpr ⟨names, content, same names seen ▸ found, rfl, seen⟩
  have nodup : ∀ a : Tree, (filesOf a).Nodup := fun a =>
    (List.perm_insertionSort _ _).nodup_iff.mpr (a.nodup_listTree skip)
  have perm : (filesOf root).Perm (filesOf root') :=
    (List.perm_ext_iff_of_nodup (nodup root) (nodup root')).mpr fun path =>
      ⟨within agree path, within agree.symm path⟩
  exact perm.eq_of_pairwise' (List.pairwise_insertionSort _ _) (List.pairwise_insertionSort _ _)

end Files

section Entries

variable (sha256 : Bytes → JsString) {readPackage : Bytes → Option Package} {root root' : Tree}

/-- The entries of a manifest, by path. -/
def entriesOf (root : Tree) : List FileEntry := (filesOf root).filterMap (entryOf sha256 root)

variable {sha256} {names : List EntryName} {content : Bytes} {path : JsString}

/-- A file is digested if its names are texts. -/
theorem entryOf_joined (found : root.fileAt names = some content)
    (legible : ∀ n ∈ names, isLegible n = true) :
    entryOf sha256 root (joined (names.map shown)) =
      some ⟨joined (names.map shown), content.length, sha256 content⟩ := by
  rw [entryOf, Tree.read_joined found legible]
  rfl

/-- A path with a name that is not UTF-8 cannot be read. -/
theorem entryOf_stray (found : root.fileAt names = some content)
    (stray : ¬ ∀ n ∈ names, isLegible n = true) :
    entryOf sha256 root (joined (names.map shown)) = none := by
  rw [entryOf, Tree.read_stray found stray]
  rfl

/-- The entries are those of the files that are seen and can be read. -/
@[simp]
theorem mem_entriesOf {e : FileEntry} :
    e ∈ entriesOf sha256 root ↔ ∃ names content, root.fileAt names = some content ∧
      Seen names ∧ (∀ n ∈ names, isLegible n = true) ∧
        e = ⟨joined (names.map shown), content.length, sha256 content⟩ := by
  rw [entriesOf, List.mem_filterMap]
  constructor
  · rintro ⟨path, mem, made⟩
    obtain ⟨names, content, found, rfl, seen⟩ := mem_filesOf.mp mem
    by_cases legible : ∀ n ∈ names, isLegible n = true
    · rw [entryOf_joined found legible] at made
      cases made
      exact ⟨names, content, found, seen, legible, rfl⟩
    · rw [entryOf_stray found legible] at made
      cases made
  · rintro ⟨names, content, found, seen, legible, rfl⟩
    exact ⟨_, mem_filesOf.mpr ⟨names, content, found, rfl, seen⟩, entryOf_joined found legible⟩

theorem mapM_eq_filterMap {α β : Type} {f : α → Option β} {xs : List α}
    (each : ∀ x ∈ xs, (f x).isSome = true) : xs.mapM f = some (xs.filterMap f) := by
  induction xs with
  | nil => rfl
  | cons x rest ih =>
      obtain ⟨first, others⟩ := List.forall_mem_cons.mp each
      obtain ⟨y, made⟩ := Option.isSome_iff_exists.mp first
      rw [List.mapM_cons, List.filterMap_cons, made, ih others]
      rfl

theorem mapM_eq_none {α β : Type} {f : α → Option β} {xs : List α} {x : α} (mem : x ∈ xs)
    (fails : f x = none) : xs.mapM f = none := by
  induction xs with
  | nil => cases mem
  | cons first rest ih =>
      rw [List.mapM_cons]
      cases made : f first with
      | none => rfl
      | some y =>
          have later : x ∈ rest := by
            refine (List.mem_cons.mp mem).resolve_left ?_
            rintro rfl
            rw [fails] at made
            cases made
          rw [ih later]
          rfl

theorem mapM_entryOf (legible : Legible root) :
    (filesOf root).mapM (entryOf sha256 root) = some (entriesOf sha256 root) := by
  refine mapM_eq_filterMap fun path mem => ?_
  obtain ⟨names, content, found, rfl, seen⟩ := mem_filesOf.mp mem
  rw [entryOf_joined found (legible names content found seen)]
  rfl

/-- An enumeration stops at a file whose name is no text. -/
theorem mapM_entryOf_stray (stray : ¬ Legible root) :
    (filesOf root).mapM (entryOf sha256 root) = none := by
  rw [Legible] at stray
  push Not at stray
  obtain ⟨names, content, found, seen, n, mem, odd⟩ := stray
  refine mapM_eq_none (mem_filesOf.mpr ⟨names, content, found, rfl, seen⟩)
    (entryOf_stray found fun all => odd (all n mem))

/-- The package that a tree is. -/
def packageOf (readPackage : Bytes → Option Package) (root : Tree) : Option Package :=
  (root.read packageName).bind readPackage

/-- An enumeration ends where every name is a text and `package.json` can be read. -/
theorem enumerate_eq_some {m : Manifest} :
    enumerate sha256 readPackage root = some m ↔
      Legible root ∧ ∃ p, packageOf readPackage root = some p ∧
        m = ⟨p.name, p.version, entriesOf sha256 root⟩ := by
  rw [enumerate, packageOf]
  by_cases legible : Legible root
  · rw [mapM_entryOf legible]
    cases root.read packageName with
    | none => simp
    | some text =>
        cases parsed : readPackage text with
        | none => simp [parsed]
        | some p => simp [parsed, legible, eq_comm]
  · rw [mapM_entryOf_stray legible]
    exact iff_of_false (fun h => by cases h) fun h => legible h.1

/-- Trees that agree have the same entries. -/
theorem Agree.entriesOf_eq (agree : Agree root root') :
    entriesOf sha256 root = entriesOf sha256 root' := by
  rw [entriesOf, entriesOf, ← agree.filesOf_eq]
  refine List.filterMap_congr fun path mem => ?_
  obtain ⟨names, content, found, rfl, seen⟩ := mem_filesOf.mp mem
  have found' : root'.fileAt names = some content := agree names seen ▸ found
  by_cases legible : ∀ n ∈ names, isLegible n = true
  · rw [entryOf_joined found legible, entryOf_joined found' legible]
  · rw [entryOf_stray found legible, entryOf_stray found' legible]

end Entries

end Mathmodel.Kit
