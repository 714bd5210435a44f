import Mathmodel.Tools.Tree

/-!
# Writing to a file tree

A file is overwritten at its place, so under every name and link it has, or it is created at names
that lead to nothing yet, at a place that nothing in the tree speaks of. What was there stays as it
was.
-/

namespace Mathmodel.Kit

/-- Whether a file can be created at names: they lead through directories to an entry that is not
there. A name that would be shown like another one beside it does not count as free, since no tree
here has such names. -/
def takes : List EntryName → List (EntryName × Node) → Bool
  | [], _ => false
  | name :: rest, entries =>
      match entries.lookup name with
      | some (.directory inner) => takes rest inner
      | some _ => false
      | none => rest.isEmpty && !(entries.map fun e => shown e.1).contains (shown name)

/-- The entries with a new one at names. It may be listed anywhere. -/
def putEntries (new : Node) : List EntryName → List (EntryName × Node) → List (EntryName × Node)
  | [], entries => entries
  | name :: rest, entries =>
      match entries.lookup name with
      | some (.directory inner) => entries.map fun e =>
          if e.1 = name then (name, .directory (putEntries new rest inner)) else e
      | some _ => entries
      | none => (name, new) :: entries

mutual

/-- A bound on the places that an entry speaks of. -/
def Node.bound : Node → Nat
  | .file place | .link (.outside place) => place + 1
  | .directory entries => boundEntries entries
  | .link _ | .other => 0

def boundEntries : List (EntryName × Node) → Nat
  | [] => 0
  | (_, node) :: rest => max node.bound (boundEntries rest)

end

theorem boundEntries_of_mem {entries : List (EntryName × Node)} {e : EntryName × Node}
    (mem : e ∈ entries) : e.2.bound ≤ boundEntries entries := by
  induction entries with
  | nil => cases mem
  | cons first rest ih =>
      rw [boundEntries]
      rcases List.mem_cons.mp mem with rfl | mem
      · exact le_max_left _ _
      · exact (ih mem).trans (le_max_right _ _)

theorem mem_of_lookup {entries : List (EntryName × Node)} {name : EntryName} {node : Node}
    (there : entries.lookup name = some node) : (name, node) ∈ entries := by
  induction entries with
  | nil => cases there
  | cons first rest ih =>
      rw [List.lookup_cons] at there
      cases same : name == first.1 with
      | true =>
          rw [same] at there
          cases there
          rw [eq_of_beq same]
          exact List.mem_cons_self
      | false =>
          rw [same] at there
          exact List.mem_cons_of_mem _ (ih there)

theorem Node.bound_find {node found : Node} {names : List EntryName}
    (leads : node.find names = some found) : found.bound ≤ node.bound := by
  induction names generalizing node with
  | nil =>
      cases leads
      exact le_rfl
  | cons name rest ih =>
      cases node with
      | file | link | other => cases leads
      | directory entries =>
          obtain ⟨inner, there, onward⟩ := Option.bind_eq_some_iff.mp leads
          exact (ih onward).trans (boundEntries_of_mem (mem_of_lookup there))

section Put

variable {entries : List (EntryName × Node)} {name other : EntryName} {node new found : Node}
  {names others : List EntryName} {contents : Nat → Option Bytes} {place : Nat}

theorem lookup_replace_ne (different : other ≠ name) :
    (entries.map fun e => if e.1 = name then (name, new) else e).lookup other =
      entries.lookup other := by
  induction entries with
  | nil => rfl
  | cons first rest ih =>
      rw [List.map_cons, List.lookup_cons, List.lookup_cons, ih]
      by_cases here : first.1 = name
      · have skips : (other == name) = false := beq_false_of_ne different
        rw [if_pos here, here, skips]
      · rw [if_neg here]

theorem lookup_replace_self (there : entries.lookup name = some node) :
    (entries.map fun e => if e.1 = name then (name, new) else e).lookup name = some new := by
  induction entries with
  | nil => cases there
  | cons first rest ih =>
      rw [List.map_cons, List.lookup_cons]
      by_cases here : first.1 = name
      · rw [if_pos here, beq_self_eq_true]
      · have skips : (name == first.1) = false := beq_false_of_ne (Ne.symm here)
        rw [List.lookup_cons, skips] at there
        rw [if_neg here, skips]
        exact ih there

/-- Names are free if they lead to a directory, and are not there. -/
theorem takes_cons {rest : List EntryName} (free : takes (name :: rest) entries = true) :
    (entries.lookup name = none ∧ rest = [] ∧ shown name ∉ entries.map fun e => shown e.1) ∨
      ∃ inner, entries.lookup name = some (.directory inner) ∧ takes rest inner = true := by
  rw [takes] at free
  cases there : entries.lookup name with
  | none =>
      rw [there, Bool.and_eq_true, List.isEmpty_iff, Bool.not_eq_true', ← Bool.not_eq_true,
        List.contains_iff_mem] at free
      exact .inl ⟨rfl, free⟩
  | some node =>
      rw [there] at free
      cases node with
      | file | link | other => cases free
      | directory inner => exact .inr ⟨inner, rfl, free⟩

theorem putEntries_new {rest : List EntryName} (vacant : entries.lookup name = none) :
    putEntries new (name :: rest) entries = (name, new) :: entries := by
  rw [putEntries, vacant]

theorem putEntries_inside {rest : List EntryName} {inner : List (EntryName × Node)}
    (there : entries.lookup name = some (.directory inner)) :
    putEntries new (name :: rest) entries = entries.map fun e =>
      if e.1 = name then (name, .directory (putEntries new rest inner)) else e := by
  rw [putEntries, there]

theorem sound_put (free : takes names entries = true)
    (proper : ∀ n ∈ names.map shown, IsName n) (fits : new.Sound contents)
    (sound : (Node.directory entries).Sound contents) :
    (Node.directory (putEntries new names entries)).Sound contents := by
  induction names generalizing entries with
  | nil => cases free
  | cons name rest ih =>
      rw [List.map_cons, List.forall_mem_cons] at proper
      cases sound with
      | directory distinct names each =>
          obtain ⟨vacant, -, fresh⟩ | ⟨inner, there, free⟩ := takes_cons free
          · rw [putEntries_new vacant]
            refine .directory (List.nodup_cons.mpr ⟨fresh, distinct⟩) ?_ ?_
            · exact List.forall_mem_cons.mpr ⟨proper.1, names⟩
            · exact List.forall_mem_cons.mpr ⟨fits, each⟩
          · rw [putEntries_inside there]
            have same : ∀ e ∈ entries, shown (if e.1 = name then
                (name, Node.directory (putEntries new rest inner)) else e).1 = shown e.1 := by
              intro e _
              split
              case isTrue here => rw [here]
              case isFalse => rfl
            refine .directory ?_ ?_ ?_
            · have alike : (entries.map fun e => shown (if e.1 = name then
                  (name, Node.directory (putEntries new rest inner)) else e).1) =
                    entries.map fun e => shown e.1 := List.map_congr_left same
              rw [List.map_map]
              exact (congrArg List.Nodup alike).mpr distinct
            · intro e mem
              obtain ⟨e', mem', rfl⟩ := List.mem_map.mp mem
              rw [same e' mem']
              exact names e' mem'
            · intro e mem
              obtain ⟨e', mem', rfl⟩ := List.mem_map.mp mem
              split
              case isTrue => exact ih free proper.2 (each _ (mem_of_lookup there))
              case isFalse => exact each e' mem'

theorem find_of_takes (free : takes names entries = true) :
    (Node.directory entries).find names = none := by
  induction names generalizing entries with
  | nil => cases free
  | cons name rest ih =>
      rw [Node.find_directory]
      obtain ⟨vacant, -, -⟩ | ⟨inner, there, free⟩ := takes_cons free
      · rw [vacant]
        rfl
      · rw [there]
        exact ih free

/-- A new entry is found where it was put. -/
theorem find_put_self (free : takes names entries = true) :
    (Node.directory (putEntries new names entries)).find names = some new := by
  induction names generalizing entries with
  | nil => cases free
  | cons name rest ih =>
      rw [Node.find_directory]
      obtain ⟨vacant, rfl, -⟩ | ⟨inner, there, free⟩ := takes_cons free
      · rw [putEntries_new vacant, List.lookup_cons, beq_self_eq_true]
        rfl
      · rw [putEntries_inside there, lookup_replace_self there]
        exact ih free

/-- What is there stays. -/
theorem find_put_of_leaf (free : takes names entries = true)
    (leads : (Node.directory entries).find others = some found)
    (leaf : found.isDirectory = false) :
    (Node.directory (putEntries new names entries)).find others = some found := by
  induction names generalizing entries others with
  | nil => cases free
  | cons name rest ih =>
      cases others with
      | nil =>
          cases leads
          cases leaf
      | cons other others =>
          rw [Node.find_directory] at leads ⊢
          obtain ⟨vacant, -, -⟩ | ⟨inner, there, onward⟩ := takes_cons free
          · have skips : (other == name) = false := by
              refine beq_false_of_ne ?_
              rintro rfl
              rw [vacant] at leads
              cases leads
            rw [putEntries_new vacant, List.lookup_cons, skips]
            exact leads
          · rw [putEntries_inside there]
            by_cases same : other = name
            · subst same
              rw [there] at leads
              rw [lookup_replace_self there]
              exact ih onward leads
            · rw [lookup_replace_ne same]
              exact leads

/-- Only the new file is added. -/
theorem place_put_ne (free : takes names entries = true) (different : others ≠ names) :
    ((Node.directory (putEntries (.file place) names entries)).find others).bind Node.place =
      ((Node.directory entries).find others).bind Node.place := by
  induction names generalizing entries others with
  | nil => cases free
  | cons name rest ih =>
      cases others with
      | nil => rfl
      | cons other others =>
          rw [Node.find_directory, Node.find_directory]
          by_cases same : other = name
          · subst same
            have below : others ≠ rest := fun same => different (congrArg _ same)
            obtain ⟨vacant, rfl, -⟩ | ⟨inner, there, onward⟩ := takes_cons free
            · rw [putEntries_new vacant, List.lookup_cons, beq_self_eq_true, vacant]
              cases others with
              | nil => exact absurd rfl below
              | cons => rfl
            · rw [putEntries_inside there, lookup_replace_self there, there]
              exact ih onward below
          · have skips : (other == name) = false := beq_false_of_ne same
            obtain ⟨vacant, -, -⟩ | ⟨inner, there, -⟩ := takes_cons free
            · rw [putEntries_new vacant, List.lookup_cons, skips]
            · rw [putEntries_inside there, lookup_replace_ne same]

end Put

theorem Node.Sound.mono {contents contents' : Nat → Option Bytes} {node : Node}
    (sound : node.Sound contents)
    (holds : ∀ i, (contents i).isSome = true → (contents' i).isSome = true) :
    node.Sound contents' := by
  induction sound with
  | file held => exact .file (holds _ held)
  | directory distinct proper _ ih => exact .directory distinct proper ih
  | link target => exact .link target
  | other => exact .other

theorem isSome_update {contents : Nat → Option Bytes} {place i : Nat} {content : Bytes}
    (held : (contents i).isSome = true) :
    (Function.update contents place (some content) i).isSome = true := by
  by_cases here : i = place
  · rw [here, Function.update_self]
    rfl
  · rw [Function.update_of_ne here]
    exact held

namespace Tree

/-- The tree with a file overwritten, under all its names. -/
def update (root : Tree) (place : Nat) (content : Bytes) : Tree where
  entries := root.entries
  contents := Function.update root.contents place (some content)
  sound := root.sound.mono fun _ => isSome_update

/-- Names at which a file can be created. -/
structure Vacant (root : Tree) (names : List EntryName) : Prop where
  free : takes names root.entries = true
  proper : ∀ n ∈ names.map shown, IsName n

instance (root : Tree) (names : List EntryName) : Decidable (root.Vacant names) :=
  decidable_of_iff (takes names root.entries = true ∧ ∀ n ∈ names.map shown, IsName n)
    ⟨fun h => ⟨h.1, h.2⟩, fun h => ⟨h.free, h.proper⟩⟩

/-- The tree with a new file, at a place of its own. -/
def create (root : Tree) (names : List EntryName) (vacant : root.Vacant names)
    (content : Bytes) : Tree where
  entries := putEntries (.file root.top.bound) names root.entries
  contents := Function.update root.contents root.top.bound (some content)
  sound := sound_put vacant.free vacant.proper
    (.file (by rw [Function.update_self]; rfl)) (root.sound.mono fun _ => isSome_update)

end Tree

namespace Tree

variable {root : Tree} {names others : List EntryName} {place : Nat} {content other : Bytes}

@[simp]
theorem update_other (elsewhere : (root.top.find others).bind Node.place ≠ some place) :
    (root.update place content).fileAt others = root.fileAt others := by
  rw [fileAt, fileAt]
  show ((root.top.find others).bind Node.place).bind _ = _
  cases found : (root.top.find others).bind Node.place with
  | none => rfl
  | some i =>
      have apart : i ≠ place := fun same => elsewhere (by rw [found, same])
      exact Function.update_of_ne apart _ _

/-- Every path to the place leads to the new content. -/
@[simp]
theorem update_self (here : (root.top.find others).bind Node.place = some place) :
    (root.update place content).fileAt others = some content := by
  rw [fileAt]
  show ((root.top.find others).bind Node.place).bind _ = _
  rw [here]
  exact Function.update_self _ _ _

theorem place_create_ne (vacant : root.Vacant names) (different : others ≠ names) :
    ((root.create names vacant content).top.find others).bind Node.place =
      (root.top.find others).bind Node.place :=
  place_put_ne vacant.free different

@[simp]
theorem find_create_self (vacant : root.Vacant names) :
    (root.create names vacant content).top.find names = some (.file root.top.bound) :=
  find_put_self vacant.free

/-- A place that is spoken of is not new. -/
theorem place_lt_bound (found : (root.top.find others).bind Node.place = some place) :
    place < root.top.bound := by
  obtain ⟨node, leads, is⟩ := Option.bind_eq_some_iff.mp found
  rw [Node.place_eq_some] at is
  rw [is] at leads
  exact Node.bound_find leads

theorem create_other (vacant : root.Vacant names) (different : others ≠ names) :
    (root.create names vacant content).fileAt others = root.fileAt others := by
  rw [fileAt, fileAt, place_create_ne vacant different]
  cases found : (root.top.find others).bind Node.place with
  | none => rfl
  | some i => exact Function.update_of_ne (place_lt_bound found).ne _ _

/-- A new file has its content. -/
@[simp]
theorem create_self (vacant : root.Vacant names) :
    (root.create names vacant content).fileAt names = some content := by
  rw [fileAt, find_create_self vacant]
  exact Function.update_self _ _ _

/-- What a path leads to stays when a file is created, and it is not at the new place. -/
theorem resolve_create (vacant : root.Vacant names) {relative : JsString}
    (leads : root.resolve relative = some place) :
    (root.create names vacant content).resolve relative = some place ∧ place < root.top.bound := by
  obtain ⟨node, found, follows⟩ := Option.bind_eq_some_iff.mp leads
  have stays : node.isDirectory = false →
      (root.create names vacant content).top.find ((relative.splitOn 0x2f).map named) =
        some node := find_put_of_leaf vacant.free found
  have bounded : node.bound ≤ root.top.bound := Node.bound_find found
  rw [resolve]
  cases node with
  | directory | other => cases follows
  | file i =>
      cases follows
      rw [stays rfl]
      exact ⟨rfl, bounded⟩
  | link target =>
      rw [stays rfl]
      cases target with
      | directory | nowhere => cases follows
      | outside i =>
          cases follows
          exact ⟨rfl, bounded⟩
      | inside others =>
          rw [follow] at follows
          refine ⟨?_, place_lt_bound follows⟩
          have different : others ≠ names := by
            rintro rfl
            have nothing : root.top.find others = none := find_of_takes vacant.free
            rw [nothing] at follows
            cases follows
          exact (place_create_ne vacant different).trans follows

/-- What could be read is still read beside a new file. -/
theorem read_create (vacant : root.Vacant names) {relative : JsString}
    (reads : root.read relative = some other) :
    (root.create names vacant content).read relative = some other := by
  obtain ⟨place, leads, holds⟩ := Option.bind_eq_some_iff.mp reads
  have created : (root.create names vacant content).resolve relative = some place ∧
      place < root.top.bound := resolve_create vacant leads
  obtain ⟨leads', new⟩ := created
  rw [read, leads']
  exact (Function.update_of_ne new.ne _ _).trans holds

@[simp]
theorem follow_update (node : Node) :
    (root.update place content).follow node = root.follow node := by
  cases node with
  | file | directory | other => rfl
  | link target => cases target <;> rfl

@[simp]
theorem resolve_update (relative : JsString) :
    (root.update place content).resolve relative = root.resolve relative := by
  have same : (root.update place content).follow = root.follow := funext follow_update
  rw [resolve, resolve, same]
  rfl

/-- A path that leads to the place reads the new content. -/
theorem read_update_self {relative : JsString} (leads : root.resolve relative = some place) :
    (root.update place content).read relative = some content := by
  rw [read, resolve_update, leads]
  exact Function.update_self _ _ _

/-- A path that leads elsewhere reads what it did. -/
theorem read_update_ne {relative : JsString} (elsewhere : root.resolve relative ≠ some place) :
    (root.update place content).read relative = root.read relative := by
  rw [read, read, resolve_update]
  cases found : root.resolve relative with
  | none => rfl
  | some i =>
      have apart : i ≠ place := fun same => elsewhere (by rw [found, same])
      exact Function.update_of_ne apart _ _

end Tree

/-! ## Orders of listing -/

namespace Relisted

theorem names {a b : Node} (relisted : Relisted a b) :
    (a.entryNames).Perm b.entryNames := by
  induction relisted with
  | refl => exact .refl _
  | trans _ _ first second => exact first.trans second
  | order perm => exact perm.map _
  | inside => simp [Node.entryNames]

/-- Whether a file can be created does not depend on the order either. -/
theorem takes_eq {contents : Nat → Option Bytes} {entries entries' : List (EntryName × Node)}
    (relisted : Relisted (.directory entries) (.directory entries'))
    (sound : (Node.directory entries).Sound contents) (names : List EntryName) :
    takes names entries = takes names entries' := by
  induction names generalizing entries entries' with
  | nil => rfl
  | cons name rest ih =>
      have entry := relisted.find sound [name]
      rw [Node.find_single, Node.find_single] at entry
      have beside : (entries.map fun e => shown e.1).contains (shown name) =
          (entries'.map fun e => shown e.1).contains (shown name) := by
        have perm := relisted.names.map shown
        rw [Node.entryNames, Node.entryNames, List.map_map, List.map_map] at perm
        exact perm.contains_eq
      rw [takes, takes, beside]
      cases there : entries.lookup name with
      | none =>
          rw [there] at entry
          cases there' : entries'.lookup name with
          | none => rfl
          | some => rw [there'] at entry; cases entry
      | some node =>
          rw [there] at entry
          cases there' : entries'.lookup name with
          | none => rw [there'] at entry; cases entry
          | some node' =>
              rw [there'] at entry
              cases entry with
              | some same =>
                  obtain rfl | ⟨inner, inner', rfl, rfl⟩ := same.kind
                  · rfl
                  · cases sound with
                    | directory _ _ each => exact ih same (each _ (mem_of_lookup there))

end Relisted

theorem Tree.Relisted.vacant_iff {root root' : Tree} (h : root.Relisted root')
    {names : List EntryName} : root.Vacant names ↔ root'.Vacant names := by
  have same : takes names root.entries = takes names root'.entries :=
    Kit.Relisted.takes_eq h.top root.sound names
  exact ⟨fun v => ⟨same ▸ v.free, v.proper⟩, fun v => ⟨same ▸ v.free, v.proper⟩⟩

end Mathmodel.Kit
