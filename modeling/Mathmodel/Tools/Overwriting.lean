import Mathmodel.Tools.Recorded

/-!
# The manifest in its place

The manifest is written through whatever `MANIFEST.json` is: over a file, through a link, or as a
new file. Nothing that is enumerated changes unless the file that is written is itself enumerated,
under another name. `package.json` may be a link to the same file, and is then overwritten too.
-/

namespace Mathmodel.Kit

section Paths

variable {root root' : Tree} {word relative : JsString} {content : Bytes}

theorem find_top (plain : word.splitOn 0x2f = [word]) :
    root.top.find ((word.splitOn 0x2f).map named) = root.entries.lookup (named word) := by
  rw [plain]
  exact Node.find_single _ _

@[simp]
theorem split_manifestName : manifestName.splitOn 0x2f = [manifestName] := by decide

@[simp]
theorem split_packageName : packageName.splitOn 0x2f = [packageName] := by decide

/-- What can be read is there. -/
theorem fileExists_of_read (reads : root.read relative = some content) :
    fileExists root relative = true := by
  obtain ⟨place, leads, holds⟩ := Option.bind_eq_some_iff.mp reads
  obtain ⟨node, found, follows⟩ := Option.bind_eq_some_iff.mp leads
  rw [fileExists, found]
  cases node with
  | file | directory | other => rfl
  | link target =>
      cases target with
      | directory => rfl
      | nowhere => cases follows
      | outside i =>
          cases follows
          exact Option.isSome_iff_exists.mpr ⟨content, holds⟩
      | inside names =>
          obtain ⟨node, there, -⟩ := Option.bind_eq_some_iff.mp follows
          exact Option.isSome_iff_exists.mpr ⟨node, there⟩

theorem fileExists_relisted (h : root.Relisted root') (relative : JsString) :
    fileExists root relative = fileExists root' relative := by
  have found := h.find ((relative.splitOn 0x2f).map named)
  rw [fileExists, fileExists]
  revert found
  generalize root.top.find _ = x
  generalize root'.top.find _ = y
  intro found
  cases found with
  | none => rfl
  | @some a b same =>
      obtain rfl | ⟨_, _, rfl, rfl⟩ := same.kind
      · cases a with
        | file | directory | other => rfl
        | link target =>
            cases target with
            | directory | nowhere => rfl
            | outside place =>
                dsimp only
                rw [h.contents]
            | inside names =>
                have inner := h.find names
                revert inner
                dsimp only
                generalize root.top.find names = x
                generalize root'.top.find names = y
                intro inner
                cases inner with
                | none => rfl
                | some => rfl
      · rfl

end Paths

/-! ## What is overwritten -/

section Stored

/-- A text is stored where it should be. -/
inductive Stored (root : Tree) (content : Bytes) : Destination → Tree → Prop where
  | place (place : Nat) : Stored root content (.place place) (root.update place content)
  | names {names : List EntryName} (vacant : root.Vacant names) :
      Stored root content (.names names) (root.create names vacant content)

/-- The text can be stored. -/
def Destination.Open (root : Tree) : Destination → Prop
  | .place _ => True
  | .names free => root.Vacant free

/-- What is written is enumerated. -/
def Destination.Enumerated (root : Tree) : Destination → Prop
  | .place i => ∃ others, Seen others ∧ (root.top.find others).bind Node.place = some i
  | .names free => Seen free

/-- What is written is what `package.json` leads to. -/
def Destination.IsPackage (root : Tree) : Destination → Prop
  | .place i => root.resolve packageName = some i
  | .names _ => False

variable {root written : Tree} {content other : Bytes} {d : Destination}

theorem Destination.Open.stored (may : d.Open root) (content : Bytes) :
    ∃ written, Stored root content d written := by
  cases d with
  | place i => exact ⟨_, .place i⟩
  | names names => exact ⟨_, .names may⟩

theorem Stored.open_ (stored : Stored root content d written) : d.Open root := by
  cases stored with
  | place => exact trivial
  | names vacant => exact vacant

/-- Nothing that is enumerated changes, if what is written is not. -/
theorem Stored.agree (stored : Stored root content d written) (apart : ¬ d.Enumerated root) :
    Agree root written := by
  intro names seen
  cases stored with
  | place i => exact (Tree.update_other fun same => apart ⟨names, seen, same⟩).symm
  | names vacant =>
      refine (Tree.create_other vacant ?_).symm
      rintro rfl
      exact apart seen

/-- What is enumerated of it otherwise is the text that was written. -/
theorem Stored.holds (stored : Stored root content d written) (enumerated : d.Enumerated root) :
    ∃ names, Seen names ∧ written.fileAt names = some content := by
  cases stored with
  | place i =>
      obtain ⟨names, seen, here⟩ := enumerated
      exact ⟨names, seen, Tree.update_self here⟩
  | names vacant => exact ⟨_, enumerated, Tree.create_self vacant⟩

/-- The manifest overwrites what its name leads to. -/
@[simp]
theorem destination_eq_place {i : Nat} :
    destination root = some (.place i) ↔ root.resolve manifestName = some i := by
  rw [destination, Tree.resolve, find_top split_manifestName]
  cases root.entries.lookup (named manifestName) with
  | none => exact iff_of_false (by rintro ⟨⟩) (by rintro ⟨⟩)
  | some node =>
      dsimp only [Option.bind_some]
      split
      case h_1 place follows =>
          rw [follows, Option.some.injEq, Destination.place.injEq, Option.some.injEq]
      case h_2 follows =>
          rw [follows]
          exact iff_of_false (by rintro ⟨⟩) (by rintro ⟨⟩)
      case h_3 follows =>
          rw [follows]
          exact iff_of_false (by rintro ⟨⟩) (by rintro ⟨⟩)

/-- A new file is made at the name of the manifest, or at the end of a link there. -/
theorem destination_names {names : List EntryName} (goes : destination root = some (.names names)) :
    root.entries.lookup (named manifestName) = none ∧ names = [named manifestName] ∨
      root.entries.lookup (named manifestName) = some (.link (.inside names)) := by
  rw [destination] at goes
  cases there : root.entries.lookup (named manifestName) with
  | none =>
      rw [there] at goes
      cases goes
      exact .inl ⟨rfl, rfl⟩
  | some node =>
      rw [there] at goes
      dsimp only at goes
      split at goes
      case h_1 => cases goes
      case h_2 =>
          cases goes
          exact .inr rfl
      case h_3 => cases goes

/-- The manifest is read back. -/
theorem Stored.read (stored : Stored root content d written) (goes : destination root = some d) :
    written.read manifestName = some content := by
  cases stored with
  | place i => exact Tree.read_update_self (destination_eq_place.mp goes)
  | @names names vacant =>
      have new : (root.create names vacant content).contents root.top.bound = some content :=
        Function.update_self _ _ _
      have self : (root.create names vacant content).top.find names =
          some (.file root.top.bound) := Tree.find_create_self vacant
      rw [Tree.read, Tree.resolve]
      obtain ⟨-, rfl⟩ | there := destination_names goes
      · rw [split_manifestName, List.map_singleton, self]
        exact new
      · have link : (root.create names vacant content).top.find
            ((manifestName.splitOn 0x2f).map named) = some (.link (.inside names)) := by
          refine find_put_of_leaf vacant.free ?_ rfl
          exact (find_top split_manifestName).trans there
        rw [link, Option.bind_some, Tree.follow, self]
        exact new

/-- `package.json` is read as before, or is the manifest. -/
theorem Stored.package (stored : Stored root content d written) :
    d.IsPackage root → written.read packageName = some content := by
  intro is
  cases stored with
  | place i => exact Tree.read_update_self is
  | names vacant => exact is.elim

/-- The `package.json` is what it was, unless the manifest went there. -/
theorem Stored.package_other (stored : Stored root content d written) (apart : ¬ d.IsPackage root)
    (reads : root.read packageName = some other) : written.read packageName = some other := by
  cases stored with
  | place i => exact (Tree.read_update_ne apart).trans reads
  | names vacant => exact Tree.read_create vacant reads

variable {sha256 : Bytes → JsString} {encode : JsString → Bytes}
  {readPackage : Bytes → Option Package}

/-- What it takes to write a manifest, and where it goes. -/
theorem write_eq_some :
    write sha256 encode readPackage root = some written ↔
      ∃ m d, enumerate sha256 readPackage root = some m ∧ destination root = some d ∧
        Stored root (encode m.serialise) d written := by
  rw [write]
  constructor
  · intro wrote
    obtain ⟨m, made, rest⟩ := Option.bind_eq_some_iff.mp wrote
    obtain ⟨d, goes, rest⟩ := Option.bind_eq_some_iff.mp rest
    refine ⟨m, d, made, goes, ?_⟩
    cases d with
    | place i =>
        cases rest
        exact .place i
    | names names =>
        dsimp only at rest
        split at rest
        case isTrue vacant =>
            cases rest
            exact .names vacant
        case isFalse => cases rest
  · rintro ⟨m, d, made, goes, stored⟩
    rw [made, goes]
    cases stored with
    | place => rfl
    | names vacant => exact dif_pos vacant

end Stored

/-! ## Orders of listing -/

section Listing

variable {root relisted : Tree}

theorem destination_relisted (h : root.Relisted relisted) :
    destination root = destination relisted := by
  have entry := h.find [named manifestName]
  rw [Tree.top, Tree.top, Node.find_single, Node.find_single] at entry
  rw [destination, destination]
  revert entry
  generalize root.entries.lookup (named manifestName) = x
  generalize relisted.entries.lookup (named manifestName) = y
  intro entry
  cases entry with
  | none => rfl
  | @some a b same =>
      obtain rfl | ⟨_, _, rfl, rfl⟩ := same.kind
      · dsimp only
        rw [h.follow same]
      · rfl

theorem open_relisted (h : root.Relisted relisted) (d : Destination) :
    d.Open root ↔ d.Open relisted := by
  cases d with
  | place => exact Iff.rfl
  | names names => exact h.vacant_iff

theorem agree_of_relisted (h : root.Relisted relisted) : Agree root relisted :=
  fun names _ => h.fileAt names

variable {sha256 : Bytes → JsString} {encode : JsString → Bytes}
  {readPackage : Bytes → Option Package}

theorem enumerate_relisted (h : root.Relisted relisted) :
    enumerate sha256 readPackage root = enumerate sha256 readPackage relisted := by
  have agree := agree_of_relisted h
  refine Option.ext fun m => ?_
  rw [enumerate_eq_some, enumerate_eq_some, packageOf, packageOf, h.read, agree.legible_iff,
    agree.entriesOf_eq]

/-- What is written can be read, in any order of listing. -/
theorem written_eq_some {text : Option Bytes} :
    (write sha256 encode readPackage root).map (·.read manifestName) = some text ↔
      ∃ m d, enumerate sha256 readPackage root = some m ∧ destination root = some d ∧
        d.Open root ∧ some (encode m.serialise) = text := by
  rw [Option.map_eq_some_iff]
  simp only [write_eq_some]
  constructor
  · rintro ⟨_, ⟨m, d, made, goes, stored⟩, rfl⟩
    exact ⟨m, d, made, goes, stored.open_, (stored.read goes).symm⟩
  · rintro ⟨m, d, made, goes, may, rfl⟩
    obtain ⟨written, stored⟩ := may.stored (encode m.serialise)
    exact ⟨written, ⟨m, d, made, goes, stored⟩, stored.read goes⟩

/-- What is written does not depend on the order of listing. -/
theorem write_relisted (h : root.Relisted relisted) :
    (write sha256 encode readPackage root).map (·.read manifestName) =
      (write sha256 encode readPackage relisted).map (·.read manifestName) := by
  refine Option.ext fun text => ?_
  rw [written_eq_some, written_eq_some, enumerate_relisted h, destination_relisted h]
  simp only [open_relisted h]

end Listing

end Mathmodel.Kit
