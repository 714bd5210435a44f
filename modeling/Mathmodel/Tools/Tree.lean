import Mathmodel.Tools.Globs

/-!
# File trees and their listing

A tree is listed depth first, in each directory by name. What is skipped is not listed, and a
directory that is skipped is not entered, so what is listed are the regular files that no
skipped entry leads to. The order in which a directory gives its entries plays no part.

Names are bytes, and not all of them are texts. A file whose name is no text is listed under
another name and cannot be read by it, and a directory of that kind is not entered. A file has
a place of its own, so that the links and the other names that lead to it share its bytes.
-/

namespace Mathmodel.Kit

/-- The bytes of a file. -/
abbrev Bytes := List Nat

/-! ## Names -/

/-- A piece of a name: a unit of what decodes as text, or bytes that do not decode. -/
inductive Piece where
  | unit (u : Nat)
  | stray (bytes : Bytes)
  deriving DecidableEq

/-- The name that an entry has on disk. -/
abbrev EntryName := List Piece

def Piece.shown : Piece → Nat
  | unit u => u
  | stray _ => 0xFFFD

/-- The name as the program is given it, with a replacement character where bytes do not
decode. -/
def shown (name : EntryName) : JsString := name.map Piece.shown

/-- The name that a text is looked up by. -/
def named (text : JsString) : EntryName := text.map .unit

/-- A name that is found again by what is shown of it. -/
def isLegible (name : EntryName) : Bool := decide (named (shown name) = name)

@[simp] theorem shown_named (text : JsString) : shown (named text) = text := by
  rw [shown, named, List.map_map]
  exact List.map_id text

@[simp] theorem isLegible_named (text : JsString) : isLegible (named text) = true := by
  rw [isLegible, shown_named]
  exact decide_eq_true rfl

theorem isLegible_iff {name : EntryName} : isLegible name = true ↔ named (shown name) = name :=
  decide_eq_true_iff

theorem map_named_shown {names : List EntryName} (legible : ∀ n ∈ names, isLegible n = true) :
    (names.map shown).map named = names := by
  rw [List.map_map]
  exact (List.map_congr_left fun n mem => isLegible_iff.mp (legible n mem)).trans (List.map_id _)

/-- The name of an entry, without a line terminator. -/
structure IsName (name : JsString) : Prop where
  nonempty : name ≠ []
  plain : 0x2f ∉ name
  oneLine : ∀ c ∈ name, RegExp.isLineTerminator c = false

instance (name : JsString) : Decidable (IsName name) :=
  decidable_of_iff (name ≠ [] ∧ 0x2f ∉ name ∧ ∀ c ∈ name, RegExp.isLineTerminator c = false)
    ⟨fun h => ⟨h.1, h.2.1, h.2.2⟩, fun h => ⟨h.nonempty, h.plain, h.oneLine⟩⟩

/-! ## Entries -/

/-- What a symbolic link leads to in the end: a place outside the tree where a file is or can be
created, names in the tree, a directory outside, or nothing that could be created. -/
inductive Target where
  | outside (place : Nat)
  | inside (names : List EntryName)
  | directory
  | nowhere

/-- An entry of a file system. A file is given by its place, which it shares with its other
names. Sockets, pipes and the like are neither files nor directories. -/
inductive Node where
  | file (place : Nat)
  | directory (entries : List (EntryName × Node))
  | link (target : Target)
  | other

namespace Node

/-- Every file has content. A directory has each name at most once, at every depth, and no two
of its names are shown alike. -/
inductive Sound (contents : Nat → Option Bytes) : Node → Prop where
  | file {place : Nat} (held : (contents place).isSome = true) : Sound contents (.file place)
  | directory {entries : List (EntryName × Node)}
      (distinct : (entries.map fun e => shown e.1).Nodup)
      (proper : ∀ e ∈ entries, IsName (shown e.1)) (each : ∀ e ∈ entries, Sound contents e.2) :
      Sound contents (.directory entries)
  | link (target : Target) : Sound contents (.link target)
  | other : Sound contents .other

/-- The place of a regular file. -/
def place : Node → Option Nat
  | file place => some place
  | _ => none

def isDirectory : Node → Bool
  | directory _ => true
  | _ => false

def entryNames : Node → List EntryName
  | directory entries => entries.map Prod.fst
  | _ => []

def child : Node → EntryName → Option Node
  | directory entries, name => entries.lookup name
  | _, _ => none

/-- What names lead to, where no link is followed. -/
def find : List EntryName → Node → Option Node
  | [], node => some node
  | name :: rest, node => (node.child name).bind (find rest)

@[simp] theorem find_nil (node : Node) : node.find [] = some node := rfl

@[simp] theorem find_directory (name : EntryName) (rest : List EntryName)
    (entries : List (EntryName × Node)) :
    (directory entries).find (name :: rest) = (entries.lookup name).bind (find rest) := rfl

@[simp] theorem find_single (name : EntryName) (entries : List (EntryName × Node)) :
    (directory entries).find [name] = entries.lookup name := by
  rw [find_directory]
  cases entries.lookup name <;> rfl

@[simp]
theorem place_eq_some {node : Node} {i : Nat} : node.place = some i ↔ node = .file i := by
  cases node with
  | file j => rw [place, Option.some.injEq, file.injEq]
  | directory | link | other => exact iff_of_false (fun h => (by cases h)) fun h => (by cases h)

end Node

/-- Names that are shown apart are apart. -/
theorem nodup_names {entries : List (EntryName × Node)}
    (distinct : (entries.map fun e => shown e.1).Nodup) : (entries.map Prod.fst).Nodup := by
  have shownNames : (entries.map fun e => shown e.1) = (entries.map Prod.fst).map shown := by
    rw [List.map_map]
    rfl
  rw [shownNames] at distinct
  exact distinct.of_map shown

/-- A file tree by the entries of its root and by what the places hold. A place that holds nothing
is outside and can be created. -/
structure Tree where
  entries : List (EntryName × Node)
  contents : Nat → Option Bytes
  sound : (Node.directory entries).Sound contents

/-! ## Paths -/

def joined (names : List JsString) : JsString := [0x2f].intercalate names

/-- ``current === "" ? entry.name : `${current}/${entry.name}` `` -/
def childPath (current name : JsString) : JsString :=
  if current = [] then name else current ++ 0x2f :: name

section Paths

variable {names names' : List JsString} {name : JsString}

/-- The names of a path are found in it again. -/
theorem splitOn_joined (proper : ∀ n ∈ names, IsName n) (some_ : names ≠ []) :
    (joined names).splitOn 0x2f = names :=
  List.splitOn_intercalate 0x2f (fun n mem => (proper n mem).plain) some_

theorem joined_ne_nil (proper : ∀ n ∈ names, IsName n) (some_ : names ≠ []) :
    joined names ≠ [] := by
  intro empty
  have same := splitOn_joined proper some_
  rw [empty] at same
  obtain rfl : names = [[]] := same.symm
  exact (proper [] List.mem_cons_self).nonempty rfl

/-- A path has its names. -/
theorem joined_inj (proper : ∀ n ∈ names, IsName n) (proper' : ∀ n ∈ names', IsName n)
    (some_ : names ≠ []) (some_' : names' ≠ []) :
    joined names = joined names' ↔ names = names' := by
  refine ⟨fun same => ?_, congrArg joined⟩
  rw [← splitOn_joined proper some_, same, splitOn_joined proper' some_']

theorem joined_concat (some_ : names ≠ []) :
    joined (names ++ [name]) = joined names ++ 0x2f :: name := by
  induction names with
  | nil => exact absurd rfl some_
  | cons first rest ih =>
      cases rest with
      | nil =>
          show [0x2f].intercalate [first, name] = [0x2f].intercalate [first] ++ 0x2f :: name
          rw [List.intercalate_cons_cons, List.intercalate_singleton, List.intercalate_singleton,
            List.append_assoc]
          rfl
      | cons second rest =>
          have after := ih (List.cons_ne_nil second rest)
          rw [joined, List.cons_append] at after ⊢
          rw [List.cons_append, List.intercalate_cons_cons, after, joined, joined,
            List.intercalate_cons_cons]
          simp only [List.append_assoc]

theorem childPath_joined (proper : ∀ n ∈ names, IsName n) :
    childPath (joined names) name = joined (names ++ [name]) := by
  cases names with
  | nil => exact List.intercalate_singleton.symm
  | cons first rest =>
      have some_ := List.cons_ne_nil first rest
      rw [childPath, if_neg (joined_ne_nil proper some_), joined_concat some_]

theorem joined_oneLine (proper : ∀ n ∈ names, IsName n) :
    ∀ c ∈ joined names, RegExp.isLineTerminator c = false := by
  induction names with
  | nil => exact fun c mem => by cases mem
  | cons first rest ih =>
      have head := (proper first List.mem_cons_self).oneLine
      cases rest with
      | nil =>
          rw [joined, List.intercalate_singleton]
          exact head
      | cons second rest =>
          have tail := ih fun n mem => proper n (List.mem_cons_of_mem _ mem)
          rw [joined, List.intercalate_cons_cons]
          intro c mem
          rcases List.mem_append.mp mem with mem | mem
          · exact (List.mem_append.mp mem).elim (head c) fun slash => by
              rw [List.mem_singleton.mp slash]
              decide
          · exact tail c mem

end Paths

/-! ## The walk -/

mutual

/-- What is listed of an entry that is not skipped. Sorting what the entries contribute by their
names sorts the entries. -/
def Node.walk (skip : JsString → Bool) (current : JsString) : Node → List JsString
  | .file _ => [current]
  | .directory entries =>
      ((walkEntries skip current entries).insertionSort fun a b => a.1 ≤ b.1).flatMap Prod.snd
  | .link _ | .other => []

/-- The path of a directory whose name is no text leads nowhere, so nothing is listed there. -/
def walkEntries (skip : JsString → Bool) (current : JsString) :
    List (EntryName × Node) → List (JsString × List JsString)
  | [] => []
  | (name, node) :: rest =>
      (shown name,
        if skip (childPath current (shown name)) then []
        else if node.isDirectory && !isLegible name then []
        else node.walk skip (childPath current (shown name))) ::
        walkEntries skip current rest

end

namespace Tree

/-- The root, as an entry. -/
def top (root : Tree) : Node := .directory root.entries

def listTree (root : Tree) (skip : JsString → Bool) : List JsString := root.top.walk skip []

/-- The regular file that names lead to. -/
def fileAt (root : Tree) (names : List EntryName) : Option Bytes :=
  ((root.top.find names).bind Node.place).bind root.contents

/-- The place of the file that an entry is or, as a link, leads to. -/
def follow (root : Tree) : Node → Option Nat
  | .file place | .link (.outside place) => some place
  | .link (.inside names) => (root.top.find names).bind Node.place
  | _ => none

/-- The place of the file that a path below the root leads to. -/
def resolve (root : Tree) (relative : JsString) : Option Nat :=
  (root.top.find ((relative.splitOn 0x2f).map named)).bind root.follow

/-- `readFileSync` of a path below the root. -/
def read (root : Tree) (relative : JsString) : Option Bytes :=
  (root.resolve relative).bind root.contents

end Tree

/-- Neither the entry itself nor a directory on the way to it is skipped. -/
def Reached (skip : JsString → Bool) (names rest : List JsString) : Prop :=
  ∀ taken, taken ≠ [] → taken <+: rest → skip (joined (names ++ taken)) = false

/-- The directories on the way can be entered by what is shown of them. -/
def Followed (names : List EntryName) : Prop := ∀ n ∈ names.dropLast, isLegible n = true

@[simp]
theorem followed_cons {name : EntryName} {rest : List EntryName} :
    Followed (name :: rest) ↔ (rest ≠ [] → isLegible name = true) ∧ Followed rest := by
  cases rest with
  | nil => simp [Followed]
  | cons next rest =>
      rw [Followed, List.dropLast_cons_of_ne_nil (List.cons_ne_nil _ _), List.forall_mem_cons,
        Followed]
      simp

/-- What leads to a file leads through a directory unless it ends there. -/
theorem isDirectory_iff_of_find {node : Node} {rest : List EntryName} {place : Nat}
    (found : node.find rest = some (.file place)) : node.isDirectory = true ↔ rest ≠ [] := by
  cases rest with
  | nil =>
      cases found
      exact iff_of_false Bool.false_ne_true fun some_ => some_ rfl
  | cons name rest =>
      cases node with
      | directory entries => exact iff_of_true rfl (List.cons_ne_nil _ _)
      | file | link | other => cases found

@[simp]
theorem reached_cons {skip : JsString → Bool} {names rest : List JsString} {name : JsString} :
    Reached skip names (name :: rest) ↔
      skip (joined (names ++ [name])) = false ∧ Reached skip (names ++ [name]) rest := by
  constructor
  · intro all
    refine ⟨all [name] (List.cons_ne_nil _ _) ⟨rest, rfl⟩, fun taken _ within => ?_⟩
    rw [List.append_assoc]
    exact all (name :: taken) (List.cons_ne_nil _ _) (List.cons_prefix_cons.mpr ⟨rfl, within⟩)
  · rintro ⟨here, below⟩ taken some_ within
    cases taken with
    | nil => exact absurd rfl some_
    | cons first taken =>
        obtain ⟨rfl, deeper⟩ := List.cons_prefix_cons.mp within
        cases taken with
        | nil => exact here
        | cons second taken =>
            have later := below (second :: taken) (List.cons_ne_nil _ _) deeper
            rwa [List.append_assoc] at later

theorem walkEntries_eq_map (skip : JsString → Bool) (current : JsString)
    (entries : List (EntryName × Node)) :
    walkEntries skip current entries = entries.map fun e =>
      (shown e.1,
        if skip (childPath current (shown e.1)) then []
        else if e.2.isDirectory && !isLegible e.1 then []
        else e.2.walk skip (childPath current (shown e.1))) := by
  induction entries with
  | nil => rfl
  | cons e rest ih => rw [walkEntries, ih, List.map_cons]

/-- The walk of a directory goes through its entries, and into the directories whose names can be
read. -/
theorem mem_walk_directory {skip : JsString → Bool} {current path : JsString}
    {entries : List (EntryName × Node)} :
    path ∈ (Node.directory entries).walk skip current ↔
      ∃ e ∈ entries, skip (childPath current (shown e.1)) = false ∧
        (e.2.isDirectory = true → isLegible e.1 = true) ∧
          path ∈ e.2.walk skip (childPath current (shown e.1)) := by
  rw [Node.walk, List.mem_flatMap]
  simp only [List.mem_insertionSort, walkEntries_eq_map, List.mem_map]
  constructor
  · rintro ⟨_, ⟨e, mem, rfl⟩, listed⟩
    dsimp only at listed
    split at listed
    case isTrue => cases listed
    case isFalse entered =>
        split at listed
        case isTrue => cases listed
        case isFalse opened =>
            refine ⟨e, mem, Bool.eq_false_iff.mpr entered, fun is => ?_, listed⟩
            rwa [is, Bool.true_and, Bool.not_eq_true', Bool.not_eq_false] at opened
  · rintro ⟨e, mem, entered, opened, listed⟩
    refine ⟨_, ⟨e, mem, rfl⟩, ?_⟩
    have passed : ¬ (e.2.isDirectory && !isLegible e.1) = true := by
      rw [Bool.and_eq_true, Bool.not_eq_true']
      rintro ⟨is, stray⟩
      rw [opened is] at stray
      cases stray
    rw [if_neg (by rw [entered]; exact Bool.false_ne_true), if_neg passed]
    exact listed

/-- The walk lists the regular files below an entry that no skipped entry leads to, and none that
lies in a directory whose name is no text. -/
theorem mem_walk {contents : Nat → Option Bytes} {node : Node} (sound : node.Sound contents)
    {skip : JsString → Bool} {names : List JsString} (proper : ∀ n ∈ names, IsName n)
    {path : JsString} :
    path ∈ node.walk skip (joined names) ↔
      ∃ rest place, node.find rest = some (.file place) ∧
        path = joined (names ++ rest.map shown) ∧ Reached skip names (rest.map shown) ∧
          Followed rest := by
  induction sound generalizing names with
  | @file place held =>
      rw [Node.walk, List.mem_singleton]
      constructor
      · rintro rfl
        refine ⟨[], place, rfl, by rw [List.map_nil, List.append_nil], fun taken some_ within => ?_,
          List.forall_mem_nil _⟩
        exact absurd (List.prefix_nil.mp within) some_
      · rintro ⟨rest, place', found, rfl, -⟩
        cases rest with
        | nil => rw [List.map_nil, List.append_nil]
        | cons name rest => cases found
  | link | other =>
      rw [Node.walk]
      refine ⟨fun mem => (by cases mem), ?_⟩
      rintro ⟨rest, place, found, -, -⟩
      cases rest <;> cases found
  | @directory entries distinct shownProper each ih =>
      have lookup := @mem_iff_lookup _ _ _ _ entries (nodup_names distinct)
      rw [mem_walk_directory]
      constructor
      · rintro ⟨e, mem, entered, opened, listed⟩
        have proper' : ∀ n ∈ names ++ [shown e.1], IsName n :=
          List.forall_mem_append.mpr ⟨proper, List.forall_mem_singleton.mpr (shownProper e mem)⟩
        rw [childPath_joined proper] at entered listed
        obtain ⟨rest, place, found, same, reached, followed⟩ := (ih e mem proper').mp listed
        refine ⟨e.1 :: rest, place, ?_, ?_, reached_cons.mpr ⟨entered, reached⟩, ?_⟩
        · rw [Node.find_directory, lookup.mp mem]
          exact found
        · rw [same, List.append_assoc]
          rfl
        · refine followed_cons.mpr ⟨fun some_ => opened ?_, followed⟩
          exact (isDirectory_iff_of_find found).mpr some_
      · rintro ⟨rest, place, found, rfl, reached, followed⟩
        cases rest with
        | nil => cases found
        | cons name rest =>
            obtain ⟨entered, reached⟩ := reached_cons.mp reached
            obtain ⟨node, there, found⟩ := Option.bind_eq_some_iff.mp found
            have mem : (name, node) ∈ entries := lookup.mpr there
            have proper' : ∀ n ∈ names ++ [shown name], IsName n :=
              List.forall_mem_append.mpr ⟨proper, List.forall_mem_singleton.mpr (shownProper _ mem)⟩
            refine ⟨(name, node), mem, ?_⟩
            rw [childPath_joined proper]
            obtain ⟨inner, followed⟩ := followed_cons.mp followed
            refine ⟨entered, fun is => inner ((isDirectory_iff_of_find found).mp is),
              (ih _ mem proper').mpr ⟨rest, place, found, ?_, reached, followed⟩⟩
            rw [List.append_assoc]
            rfl

/-- What leads anywhere are names. -/
theorem Node.Sound.names {contents : Nat → Option Bytes} {node found : Node}
    (sound : node.Sound contents) {names : List EntryName} (leads : node.find names = some found) :
    ∀ n ∈ names.map shown, IsName n := by
  induction names generalizing node with
  | nil => exact List.forall_mem_nil _
  | cons name rest ih =>
      obtain ⟨inner, there, onward⟩ := Option.bind_eq_some_iff.mp leads
      cases sound with
      | file | link | other => cases there
      | directory distinct proper each =>
          have mem := (mem_iff_lookup (nodup_names distinct)).mpr there
          rw [List.map_cons]
          exact List.forall_mem_cons.mpr ⟨proper _ mem, ih (each _ mem) onward⟩

/-- What is found holds what it should. -/
theorem Node.Sound.found {contents : Nat → Option Bytes} {node found : Node}
    (sound : node.Sound contents) {names : List EntryName} (leads : node.find names = some found) :
    found.Sound contents := by
  induction names generalizing node with
  | nil =>
      cases leads
      exact sound
  | cons name rest ih =>
      obtain ⟨inner, there, onward⟩ := Option.bind_eq_some_iff.mp leads
      cases sound with
      | file | link | other => cases there
      | directory distinct proper each =>
          exact ih (each _ ((mem_iff_lookup (nodup_names distinct)).mpr there)) onward

/-- Names that are shown alike lead to one entry, if they lead anywhere. -/
theorem Node.Sound.find_inj {contents : Nat → Option Bytes} {node found found' : Node}
    (sound : node.Sound contents) {names names' : List EntryName}
    (leads : node.find names = some found) (leads' : node.find names' = some found')
    (alike : names.map shown = names'.map shown) : names = names' := by
  induction names generalizing node names' with
  | nil => exact (List.map_eq_nil_iff.mp alike.symm).symm
  | cons name rest ih =>
      obtain ⟨name', rest', rfl, first, others⟩ := List.map_eq_cons_iff.mp alike.symm
      obtain ⟨inner, there, onward⟩ := Option.bind_eq_some_iff.mp leads
      obtain ⟨inner', there', onward'⟩ := Option.bind_eq_some_iff.mp leads'
      cases sound with
      | file | link | other => cases there
      | directory distinct proper each =>
          have mem := (mem_iff_lookup (nodup_names distinct)).mpr there
          have mem' := (mem_iff_lookup (nodup_names distinct)).mpr there'
          cases List.inj_on_of_nodup_map distinct mem mem' first.symm
          rw [ih (each _ mem) onward onward' others.symm]

/-- No path is listed twice. -/
theorem nodup_walk {contents : Nat → Option Bytes} {node : Node} (sound : node.Sound contents)
    (skip : JsString → Bool) {names : List JsString} (proper : ∀ n ∈ names, IsName n) :
    (node.walk skip (joined names)).Nodup := by
  induction sound generalizing names with
  | file => exact List.nodup_singleton _
  | link | other => exact List.nodup_nil
  | @directory entries distinct shownProper each ih =>
      have below : ∀ e ∈ entries, ∀ n ∈ names ++ [shown e.1], IsName n := fun e mem =>
        List.forall_mem_append.mpr ⟨proper, List.forall_mem_singleton.mpr (shownProper e mem)⟩
      rw [Node.walk, ((List.perm_insertionSort _ _).flatMap_right _).nodup_iff,
        walkEntries_eq_map, List.flatMap_map, List.nodup_flatMap]
      constructor
      · intro e mem
        dsimp only
        split
        case isTrue => exact List.nodup_nil
        case isFalse =>
            split
            case isTrue => exact List.nodup_nil
            case isFalse =>
                rw [childPath_joined proper]
                exact ih e mem (below e mem)
      · have apart := List.pairwise_map.mp distinct
        refine (List.Pairwise.and_mem.mp apart).imp fun {a b} pair path left right => ?_
        obtain ⟨memA, memB, different⟩ := pair
        have at_ : ∀ e ∈ entries, path ∈ (if skip (childPath (joined names) (shown e.1)) then []
            else if e.2.isDirectory && !isLegible e.1 then []
            else e.2.walk skip (childPath (joined names) (shown e.1))) →
              ∃ rest, (∀ n ∈ names ++ shown e.1 :: rest, IsName n) ∧
                path = joined (names ++ shown e.1 :: rest) := by
          intro e mem listed
          split at listed
          · cases listed
          · split at listed
            · cases listed
            · rw [childPath_joined proper] at listed
              obtain ⟨rest, place, found, same, -⟩ :=
                (mem_walk (each e mem) (below e mem)).mp listed
              rw [List.append_assoc] at same
              refine ⟨rest.map shown, List.forall_mem_append.mpr ⟨proper,
                List.forall_mem_cons.mpr ⟨shownProper e mem, (each e mem).names found⟩⟩, same⟩
        obtain ⟨rest, properA, rfl⟩ := at_ a memA left
        obtain ⟨rest', properB, same⟩ := at_ b memB right
        have lists := (joined_inj properA properB (by simp) (by simp)).mp same
        exact different (List.cons.inj (List.append_cancel_left lists)).1

namespace Tree

variable {root : Tree} {names : List EntryName} {content : Bytes} {place : Nat}

/-- A regular file has content. -/
theorem fileAt_of_find (found : root.top.find names = some (.file place)) :
    ∃ content, root.contents place = some content ∧ root.fileAt names = some content := by
  cases root.sound.found found with
  | file held =>
      obtain ⟨content, holds⟩ := Option.isSome_iff_exists.mp held
      exact ⟨content, holds, by rw [fileAt, found]; exact holds⟩

/-- A file is found at its place, which holds its content. -/
theorem fileAt_eq_some :
    root.fileAt names = some content ↔
      ∃ place, root.top.find names = some (.file place) ∧ root.contents place = some content := by
  rw [fileAt, Option.bind_eq_some_iff]
  refine exists_congr fun place => and_congr_left fun _ => ?_
  rw [Option.bind_eq_some_iff]
  simp only [Node.place_eq_some, exists_eq_right]

theorem fileAt_names (found : root.fileAt names = some content) :
    names ≠ [] ∧ ∀ n ∈ names.map shown, IsName n := by
  obtain ⟨place, leads, -⟩ := fileAt_eq_some.mp found
  refine ⟨?_, root.sound.names leads⟩
  rintro rfl
  cases leads

/-- A file is read by the path that is listed if its names are texts. -/
theorem read_joined (found : root.fileAt names = some content)
    (legible : ∀ n ∈ names, isLegible n = true) :
    root.read (joined (names.map shown)) = some content := by
  obtain ⟨some_, proper⟩ := fileAt_names found
  obtain ⟨place, leads, holds⟩ := fileAt_eq_some.mp found
  rw [read, resolve, splitOn_joined proper (mt List.map_eq_nil_iff.mp some_),
    map_named_shown legible, leads]
  exact holds

/-- Otherwise its path leads nowhere. -/
theorem read_stray (found : root.fileAt names = some content)
    (stray : ¬ ∀ n ∈ names, isLegible n = true) :
    root.read (joined (names.map shown)) = none := by
  obtain ⟨some_, proper⟩ := fileAt_names found
  obtain ⟨place, leads, holds⟩ := fileAt_eq_some.mp found
  rw [read, resolve, splitOn_joined proper (mt List.map_eq_nil_iff.mp some_)]
  cases leads' : root.top.find ((names.map shown).map named) with
  | none => rfl
  | some node =>
      have same := root.sound.find_inj leads' leads (by simp [Function.comp_def])
      refine absurd (fun n mem => ?_) stray
      rw [← same] at mem
      obtain ⟨text, -, rfl⟩ := List.mem_map.mp mem
      exact isLegible_named text

/-- The listing has the paths of the files that it reaches and can follow. -/
@[simp]
theorem mem_listTree {skip : JsString → Bool} {path : JsString} :
    path ∈ root.listTree skip ↔
      ∃ names content, root.fileAt names = some content ∧ path = joined (names.map shown) ∧
        Reached skip [] (names.map shown) ∧ Followed names := by
  have outside : ∀ n ∈ ([] : List JsString), IsName n := List.forall_mem_nil _
  have walk : path ∈ root.top.walk skip (joined []) ↔ _ := mem_walk root.sound outside
  simp only [List.nil_append] at walk
  refine walk.trans (exists_congr fun names => ?_)
  constructor
  · rintro ⟨place, found, rest⟩
    obtain ⟨content, -, there⟩ := fileAt_of_find found
    exact ⟨content, there, rest⟩
  · rintro ⟨content, there, rest⟩
    obtain ⟨place, found, -⟩ := fileAt_eq_some.mp there
    exact ⟨place, found, rest⟩

/-- No path is listed twice. -/
theorem nodup_listTree (root : Tree) (skip : JsString → Bool) : (root.listTree skip).Nodup :=
  nodup_walk root.sound skip (List.forall_mem_nil IsName)

end Tree

/-! ## Orders of listing -/

/-- The same directories, with their entries in another order. -/
inductive Relisted : Node → Node → Prop where
  | refl (node : Node) : Relisted node node
  | trans {a b c : Node} : Relisted a b → Relisted b c → Relisted a c
  | order {entries entries' : List (EntryName × Node)} :
      entries.Perm entries' → Relisted (.directory entries) (.directory entries')
  | inside {before after : List (EntryName × Node)} {name : EntryName} {node node' : Node} :
      Relisted node node' → Relisted (.directory (before ++ (name, node) :: after))
        (.directory (before ++ (name, node') :: after))

namespace Relisted

variable {contents : Nat → Option Bytes} {a b : Node}

theorem sound (relisted : Relisted a b) (h : a.Sound contents) : b.Sound contents := by
  induction relisted with
  | refl => exact h
  | trans _ _ first second => exact second (first h)
  | order perm =>
      cases h with
      | directory distinct proper each =>
          refine .directory ((perm.map _).nodup_iff.mp distinct) ?_ ?_
          · exact fun e mem => proper e (perm.mem_iff.mpr mem)
          · exact fun e mem => each e (perm.mem_iff.mpr mem)
  | @inside before after name node node' _ ih =>
      cases h with
      | directory distinct proper each =>
          rw [List.forall_mem_append, List.forall_mem_cons] at proper each
          refine .directory (by simpa using distinct) ?_ ?_
          · exact List.forall_mem_append.mpr ⟨proper.1, List.forall_mem_cons.mpr proper.2⟩
          · exact List.forall_mem_append.mpr
              ⟨each.1, List.forall_mem_cons.mpr ⟨ih each.2.1, each.2.2⟩⟩

theorem lookup_perm {entries entries' : List (EntryName × Node)}
    (distinct : (entries.map Prod.fst).Nodup) (perm : entries.Perm entries') (name : EntryName) :
    entries.lookup name = entries'.lookup name := by
  refine Option.ext fun node => ?_
  rw [← mem_iff_lookup distinct, ← mem_iff_lookup ((perm.map _).nodup_iff.mp distinct),
    perm.mem_iff]

theorem rel_trans {x y z : Option Node} (first : Option.Rel Relisted x y)
    (second : Option.Rel Relisted y z) : Option.Rel Relisted x z := by
  cases first with
  | none => exact second
  | some ab =>
      cases second with
      | some bc => exact .some (.trans ab bc)

/-- Names lead to the same in every order. -/
theorem find (relisted : Relisted a b) (h : a.Sound contents) (names : List EntryName) :
    Option.Rel Relisted (a.find names) (b.find names) := by
  have same : ∀ x : Option Node, Option.Rel Relisted x x := fun x => by
    cases x with
    | none => exact .none
    | some node => exact .some (.refl node)
  induction relisted generalizing names with
  | refl => exact same _
  | trans first _ ih ih' => exact rel_trans (ih h names) (ih' (first.sound h) names)
  | order perm =>
      cases names with
      | nil => exact .some (.order perm)
      | cons name rest =>
          cases h with
          | directory distinct proper each =>
              rw [Node.find_directory, Node.find_directory,
                lookup_perm (nodup_names distinct) perm]
              exact same _
  | @inside before after name node node' inner ih =>
      cases names with
      | nil => exact .some (.inside inner)
      | cons first rest =>
          cases h with
          | directory distinct proper each =>
              rw [Node.find_directory, Node.find_directory]
              by_cases this : first = name
              · subst this
                have mem : (first, node) ∈ before ++ (first, node) :: after := by simp
                have mem' : (first, node') ∈ before ++ (first, node') :: after := by simp
                rw [(mem_iff_lookup (nodup_names distinct)).mp mem,
                  (mem_iff_lookup (by simpa using nodup_names distinct)).mp mem']
                exact ih (each _ mem) rest
              · have skips : (first == name) = false := beq_false_of_ne this
                rw [List.lookup_append, List.lookup_append, List.lookup_cons, List.lookup_cons,
                  skips]
                exact same _

/-- Only directories are listed. -/
theorem kind (relisted : Relisted a b) :
    a = b ∨ ∃ entries entries', a = .directory entries ∧ b = .directory entries' := by
  induction relisted with
  | refl => exact .inl rfl
  | trans _ _ first second =>
      obtain rfl | ⟨entries, entries', rfl, rfl⟩ := first
      · exact second
      · obtain rfl | ⟨_, entries'', -, rfl⟩ := second
        · exact .inr ⟨entries, entries', rfl, rfl⟩
        · exact .inr ⟨entries, entries'', rfl, rfl⟩
  | order => exact .inr ⟨_, _, rfl, rfl⟩
  | inside => exact .inr ⟨_, _, rfl, rfl⟩

theorem place (relisted : Relisted a b) : a.place = b.place := by
  obtain rfl | ⟨_, _, rfl, rfl⟩ := relisted.kind
  · rfl
  · rfl

end Relisted

namespace Tree

variable {root root' : Tree}

/-- Another listing of the same tree. -/
structure Relisted (root root' : Tree) : Prop where
  top : Kit.Relisted root.top root'.top
  contents : root.contents = root'.contents

theorem Relisted.find (h : root.Relisted root') (names : List EntryName) :
    Option.Rel Kit.Relisted (root.top.find names) (root'.top.find names) :=
  Kit.Relisted.find h.top root.sound names

theorem Relisted.place (h : root.Relisted root') (names : List EntryName) :
    (root.top.find names).bind Node.place = (root'.top.find names).bind Node.place := by
  have found := h.find names
  revert found
  generalize root.top.find names = x
  generalize root'.top.find names = y
  intro found
  cases found with
  | none => rfl
  | some same => exact same.place

theorem Relisted.fileAt (h : root.Relisted root') (names : List EntryName) :
    root.fileAt names = root'.fileAt names := by
  rw [Tree.fileAt, Tree.fileAt, h.place, h.contents]

theorem Relisted.follow (h : root.Relisted root') {a b : Node} (same : Kit.Relisted a b) :
    root.follow a = root'.follow b := by
  obtain rfl | ⟨_, _, rfl, rfl⟩ := same.kind
  · cases a with
    | file | directory | other => rfl
    | link target =>
        cases target with
        | outside | directory | nowhere => rfl
        | inside names => exact h.place names
  · rfl

theorem Relisted.resolve (h : root.Relisted root') (relative : JsString) :
    root.resolve relative = root'.resolve relative := by
  rw [Tree.resolve, Tree.resolve]
  have found := h.find ((relative.splitOn 0x2f).map named)
  revert found
  generalize root.top.find _ = x
  generalize root'.top.find _ = y
  intro found
  cases found with
  | none => rfl
  | some same => exact h.follow same

/-- The same contents are read, whatever the order of the entries. -/
theorem Relisted.read (h : root.Relisted root') (relative : JsString) :
    root.read relative = root'.read relative := by
  rw [Tree.read, Tree.read, h.resolve, h.contents]

end Tree

end Mathmodel.Kit
