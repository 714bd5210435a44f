import Mathmodel.Workflow.Integrity

/-!
# Documents that pass a gate

A gate reads JSON of any shape, and each access either raises or says something
about the shape. The lemmas below invert the accesses one by one, so a gate that
was passed tells what its documents look like.

`Passes` is the run of a gate against the true answers, with the list of paths
before and after it; the helpers `load`, `file` and `generated` are then described
by what has to be the case for them to pass.
-/

namespace Mathmodel.Workflow

open Dialogue

namespace Value

variable {v w : Value} {key s : String}

/-- A field is read off a dictionary, with its default. -/
@[simp] theorem get_eq_ok {default : Value} :
    v.get key default = .ok w ↔
      ∃ fields, v = .dict fields ∧ w = (fields.lookup key).getD default := by
  cases v with
  | dict fields => simp [get, eq_comm]
  | _ => simp [get]

@[simp] theorem item_eq_ok :
    v.item key = .ok w ↔ ∃ fields, v = .dict fields ∧ fields.lookup key = some w := by
  cases v with
  | dict fields =>
      unfold item
      cases found : fields.lookup key <;> simp [found]
  | _ => simp [item]

@[simp] theorem isDict_eq_true : v.isDict = true ↔ ∃ fields, v = .dict fields := by
  cases v <;> simp [isDict]

/-- Prose is a string with something to say in it. -/
@[simp] theorem isProse_eq_true :
    v.isProse = true ↔ ∃ s, v = .str s ∧ isSubstantive s = true := by
  cases v <;> simp [isProse]

theorem sameNumber_str (v : Value) : v.sameNumber (.str s) = false := by
  unfold sameNumber
  cases v.number <;> rfl

/-- Only the same text is equal to a text. -/
@[simp] theorem beq_str : v.beq (.str s) = true ↔ v = .str s := by
  cases v with
  | str a => simp [beq]
  | bool | int | float => simp [beq, sameNumber_str]
  | _ => simp [beq]

/-- A string equals no value but itself. -/
@[simp] theorem str_beq : (Value.str s).beq v = true ↔ v = .str s := by
  cases v with
  | str a =>
      rw [beq, beq_iff_eq, Value.str.injEq]
      exact eq_comm
  | _ => simp [beq]

/-- Being one object makes a difference for `NaN` only. -/
@[simp] theorem same_str : v.same (.str s) = true ↔ v = .str s := by
  simp [same, isNan]

@[simp] theorem str_same : (Value.str s).same v = true ↔ v = .str s := by
  simp [same, isNan]

/-- For an integer, `in` compares as `==` does. -/
@[simp] theorem same_int {i : Int} : v.same (.int i) = v.beq (.int i) := by
  simp [same, isNan]

@[simp] theorem getD_none_eq_str {fields : List (String × Value)} :
    (fields.lookup key).getD .none = .str s ↔ fields.lookup key = some (.str s) := by
  cases fields.lookup key <;> simp

@[simp] theorem getD_none_eq_list {fields : List (String × Value)} {items : List Value} :
    (fields.lookup key).getD .none = .list items ↔ fields.lookup key = some (.list items) := by
  cases fields.lookup key <;> simp

@[simp] theorem pathName_eq_ok {text : String} : v.pathName = .ok text ↔ v = .str text := by
  cases v <;> simp [pathName, eq_comm]

@[simp] theorem endswith_eq_ok {suffixes : List String} {b : Bool} :
    v.endswith suffixes = .ok b ↔ ∃ s, v = .str s ∧ b = suffixes.any (endsWith s) := by
  cases v <;> simp [endswith, eq_comm]

@[simp] theorem str_lookupIn {table : List (String × String)} :
    (Value.str s).lookupIn table = .ok (table.lookup s) := rfl

/-- The test for a list that is not empty, as the gates write it. -/
theorem isNonemptyList_eq_true :
    (match v with | .list items => !items.isEmpty | _ => false) = true ↔
      ∃ items, v = .list items ∧ items ≠ [] := by
  cases v <;> simp

theorem isList_eq_true :
    (match v with | .list _ => true | _ => false) = true ↔ ∃ items, v = .list items := by
  cases v <;> simp

end Value

/-- A run of a gate against the true answers. -/
def Gate.Passes {α : Type} (host : Host) (links : Path → Alias) (d : Disk) (x : Gate α)
    (paths : List String) (a : α) (paths' : List String) : Prop :=
  (x.run paths).answered (look host links d) = .ok (a, paths')

section Passes

variable {host : Host} {links : Path → Alias} {d : Disk} {α β : Type} {paths paths' : List String}

open Gate

/-- Two checks in a row pass if the first does and the second does after it. -/
@[simp] theorem passes_bind {x : Gate β} {f : β → Gate α} {a : α} :
    Passes host links d (x >>= f) paths a paths' ↔
      ∃ b between, Passes host links d x paths b between ∧
        Passes host links d (f b) between a paths' := by
  unfold Passes
  rw [StateT.run_bind, answered_bind, bind_eq_ok]
  simp only [Prod.exists]

@[simp] theorem passes_task {x : Task α} {a : α} :
    Passes host links d (Gate.task x) paths a paths' ↔
      x.answered (look host links d) = .ok a ∧ paths' = paths := by
  unfold Passes
  change (x >>= fun a => pure (a, paths)).answered _ = _ ↔ _
  rw [answered_bind, bind_eq_ok]
  simp only [answered_pure, Except.ok.injEq, Prod.mk.injEq]
  constructor
  · rintro ⟨_, done, rfl, rfl⟩
    exact ⟨done, rfl⟩
  · rintro ⟨done, rfl⟩
    exact ⟨a, done, rfl, rfl⟩

-- In the gates `eval` is the operation of tasks, lifted.
@[simp] theorem passes_eval {x : Except PyErr α} {a : α} :
    Passes host links d (liftM (eval x) : Gate α) paths a paths' ↔ x = .ok a ∧ paths' = paths := by
  change Passes host links d (Gate.task (Workflow.eval x)) paths a paths' ↔ _
  rw [passes_task, answered_eval]

/-- A condition passes exactly if it holds, and notes nothing. -/
@[simp] theorem passes_need {condition : Bool} {message : String} {u : Unit} :
    Passes host links d (Gate.need condition message) paths u paths' ↔
      condition = true ∧ paths' = paths := by
  rw [Gate.need, passes_task, answered_check, require_eq_ok]

@[simp] theorem passes_note {name : String} {u : Unit} :
    Passes host links d (Gate.note name) paths u paths' ↔ paths' = paths ++ [name] := by
  change (Except.ok ((), paths ++ [name]) : Except PyErr _) = .ok (u, paths') ↔ _
  simp [eq_comm]

@[simp] theorem passes_pure {a b : α} :
    Passes host links d (pure a : Gate α) paths b paths' ↔ b = a ∧ paths' = paths := by
  change (Except.ok (a, paths) : Except PyErr _) = .ok (b, paths') ↔ _
  simp [eq_comm]

theorem passes_task_bind {x : Task β} {f : β → Gate α} {a : α} :
    Passes host links d (Gate.task x >>= f) paths a paths' ↔
      ∃ b, x.answered (look host links d) = .ok b ∧ Passes host links d (f b) paths a paths' := by
  simp only [passes_bind, passes_task]
  exact exists_congr fun b =>
    ⟨fun ⟨_, ⟨h, rfl⟩, rest⟩ => ⟨h, rest⟩, fun ⟨h, rest⟩ => ⟨_, ⟨h, rfl⟩, rest⟩⟩

theorem passes_eval_bind {x : Except PyErr β} {f : β → Gate α} {a : α} :
    Passes host links d ((liftM (eval x) : Gate β) >>= f) paths a paths' ↔
      ∃ b, x = .ok b ∧ Passes host links d (f b) paths a paths' := by
  simp only [passes_bind, passes_eval]
  exact exists_congr fun b =>
    ⟨fun ⟨_, ⟨h, rfl⟩, rest⟩ => ⟨h, rest⟩, fun ⟨h, rest⟩ => ⟨_, ⟨h, rfl⟩, rest⟩⟩

theorem passes_need_bind {condition : Bool} {message : String} {f : Unit → Gate α} {a : α} :
    Passes host links d (Gate.need condition message >>= f) paths a paths' ↔
      condition = true ∧ Passes host links d (f ()) paths a paths' := by
  simp only [passes_bind, passes_need]
  exact ⟨fun ⟨_, _, ⟨h, rfl⟩, rest⟩ => ⟨h, rest⟩, fun ⟨h, rest⟩ => ⟨(), _, ⟨h, rfl⟩, rest⟩⟩

/-- What each round of a loop makes sure of, and the paths that it notes. -/
theorem passes_forM_imp {f : β → Gate PUnit} {C : β → Prop} {N : β → List String} {l : List β}
    (round : ∀ b paths paths', Passes host links d (f b) paths ⟨⟩ paths' →
      C b ∧ paths' = paths ++ N b) {u : PUnit}
    (passed : Passes host links d (l.forM f) paths u paths') :
    (∀ b ∈ l, C b) ∧ paths' = paths ++ l.flatMap N := by
  induction l generalizing paths with
  | nil =>
      obtain ⟨-, rfl⟩ := passes_pure.mp passed
      exact ⟨nofun, (List.append_nil _).symm⟩
  | cons b rest ih =>
      change Passes host links d (f b >>= fun _ => rest.forM f) paths u paths' at passed
      obtain ⟨_, between, first, others⟩ := passes_bind.mp passed
      obtain ⟨here, rfl⟩ := round b _ _ first
      obtain ⟨there, rfl⟩ := ih others
      refine ⟨?_, ?_⟩
      · rintro b' mem
        obtain rfl | mem := List.mem_cons.mp mem
        · exact here
        · exact there b' mem
      · rw [List.flatMap_cons, List.append_assoc]

/-- A loop passes if each round does, and the paths are noted in order. -/
theorem passes_forM {f : β → Gate PUnit} {C : β → Prop} {N : β → List String} {l : List β}
    (round : ∀ b ∈ l, ∀ paths paths', Passes host links d (f b) paths ⟨⟩ paths' ↔
      C b ∧ paths' = paths ++ N b) {u : PUnit} :
    Passes host links d (l.forM f) paths u paths' ↔
      (∀ b ∈ l, C b) ∧ paths' = paths ++ l.flatMap N := by
  induction l generalizing paths with
  | nil =>
      change Passes host links d (pure ⟨⟩ : Gate PUnit) paths u paths' ↔ _
      simp
  | cons b rest ih =>
      have others : ∀ b ∈ rest, ∀ paths paths', Passes host links d (f b) paths ⟨⟩ paths' ↔
          C b ∧ paths' = paths ++ N b := fun b mem => round b (List.mem_cons_of_mem _ mem)
      change Passes host links d (f b >>= fun _ => rest.forM f) paths u paths' ↔ _
      rw [passes_bind]
      simp only [round b List.mem_cons_self, ih others, List.forall_mem_cons, List.flatMap_cons]
      constructor
      · rintro ⟨_, _, ⟨here, rfl⟩, there, rfl⟩
        exact ⟨⟨here, there⟩, List.append_assoc _ _ _⟩
      · rintro ⟨⟨here, there⟩, rfl⟩
        exact ⟨⟨⟩, _, ⟨here, rfl⟩, there, (List.append_assoc _ _ _).symm⟩

/-- A loop of checks passes if every element does, noting the names of each in order. -/
theorem passes_forM_bind {f : β → Gate PUnit} {C : β → Prop} {N : β → List String}
    (round : ∀ b paths paths', Passes host links d (f b) paths ⟨⟩ paths' ↔
      C b ∧ paths' = paths ++ N b) {l : List β} {g : PUnit → Gate α} {a : α} :
    Passes host links d (l.forM f >>= g) paths a paths' ↔
      (∀ b ∈ l, C b) ∧ Passes host links d (g ⟨⟩) (paths ++ l.flatMap N) a paths' := by
  simp only [passes_bind, passes_forM fun b _ => round b]
  exact ⟨fun ⟨_, _, ⟨all, rfl⟩, rest⟩ => ⟨all, rest⟩, fun ⟨all, rest⟩ => ⟨⟨⟩, _, ⟨all, rfl⟩, rest⟩⟩

end Passes

section Helpers

variable {host : Host} {links : Path → Alias} {d : Disk} {paths paths' : List String}

open Gate

/-- The file holds the JSON value. -/
def Disk.Contains (host : Host) (disk : Disk) (name : String) (value : Value) : Prop :=
  ∃ content, disk.content host (parts name) = some content ∧ host.loads content = .ok value

/-- A file contains one document. -/
theorem Disk.Contains.unique {name : String} {v w : Value} (h : d.Contains host name v)
    (h' : d.Contains host name w) : v = w := by
  obtain ⟨content, there, loaded⟩ := h
  obtain ⟨content', there', loaded'⟩ := h'
  obtain rfl := Option.some.inj (there.symm.trans there')
  exact Except.ok.inj (loaded.symm.trans loaded')

/-- The file is there and not empty. -/
def Disk.Substantial (host : Host) (disk : Disk) (path : Path) : Prop :=
  ∃ content, disk.content host path = some content ∧ content ≠ []

/-- A file of the project that is not empty. -/
structure Evident (host : Host) (d : Disk) (name : String) : Prop where
  located : Located d name false
  substantial : d.Substantial host (parts name)

/-- A document is loaded exactly if the file is in the directory and holds a dictionary. -/
theorem passes_load {name : String} {value : Value} :
    Passes host links d (load host name) paths value paths' ↔
      Located d name false ∧ d.Contains host name value ∧ (∃ fields, value = .dict fields) ∧
        paths' = paths ++ [name] := by
  unfold load
  simp only [passes_bind, passes_task, localPath_ok, answered_read, found_eq_ok, passes_eval,
    passes_need, Value.isDict_eq_true, passes_note, passes_pure]
  constructor
  · rintro ⟨_, _, ⟨⟨rfl, located⟩, rfl⟩, content, _, ⟨there, rfl⟩, _, _, ⟨loaded, rfl⟩, _, _,
      ⟨object, rfl⟩, _, _, rfl, rfl, rfl⟩
    exact ⟨located, ⟨content, there, loaded⟩, object, rfl⟩
  · rintro ⟨located, ⟨content, there, loaded⟩, object, rfl⟩
    exact ⟨_, _, ⟨⟨rfl, located⟩, rfl⟩, content, _, ⟨there, rfl⟩, _, _, ⟨loaded, rfl⟩, (), _,
      ⟨object, rfl⟩, (), _, rfl, rfl, rfl⟩

theorem passes_load_bind {name : String} {α : Type} {f : Value → Gate α} {a : α} :
    Passes host links d (load host name >>= f) paths a paths' ↔
      ∃ fields, (Located d name false ∧ d.Contains host name (.dict fields)) ∧
        Passes host links d (f (.dict fields)) (paths ++ [name]) a paths' := by
  simp only [passes_bind, passes_load]
  constructor
  · rintro ⟨_, _, ⟨located, contains, ⟨fields, rfl⟩, rfl⟩, rest⟩
    exact ⟨fields, ⟨located, contains⟩, rest⟩
  · rintro ⟨fields, ⟨located, contains⟩, rest⟩
    exact ⟨_, _, ⟨located, contains, ⟨fields, rfl⟩, rfl⟩, rest⟩

/-- `isSubstantial` finds exactly the files that are there and not empty. -/
theorem isSubstantial_ok {path : Path} :
    (isSubstantial path).answered (look host links d) = .ok true ↔ d.Substantial host path := by
  unfold isSubstantial isNonempty Disk.Substantial
  simp only [answered_bind, answered_isFile, bind_eq_ok, Except.ok.injEq, exists_eq_left']
  cases there : d.content host path with
  | none => simp
  | some content =>
      simp only [Option.isSome_some, if_true, answered_bind, answered_size, answered_pure, there,
        Option.map_some, bind_eq_ok, found_eq_ok, Option.some.injEq, exists_eq_left',
        Except.ok.injEq, decide_eq_true_eq, List.length_pos_iff]

/-- What `file` requires of a name and an expected digest; a false one is not compared. -/
def Matches (host : Host) (d : Disk) (name : String) (expected : Value) : Prop :=
  Evident host d name ∧
    (expected.truthy = true → ∃ sha, expected = .str sha ∧ d.HasDigest host (parts name) sha)

/-- A file passes exactly if it is what its entry declares, and its name is noted. -/
theorem passes_file {name expected : Value} {p : Path} :
    Passes host links d (file host name expected) paths p paths' ↔
      ∃ text, name = .str text ∧ Matches host d text expected ∧ p = parts text ∧
        paths' = paths ++ [text] := by
  unfold file Matches
  simp only [passes_bind, passes_eval, Value.pathName_eq_ok, passes_task, localPath_ok, passes_need]
  constructor
  · rintro ⟨text, _, ⟨rfl, rfl⟩, _, _, ⟨⟨rfl, located⟩, rfl⟩, there, _, ⟨substantial, rfl⟩, _, _,
      ⟨rfl, rfl⟩, rest⟩
    refine ⟨text, rfl, ⟨⟨located, isSubstantial_ok.mp substantial⟩, ?_⟩, ?_⟩
    · intro compared
      rw [if_pos compared] at rest
      simp only [passes_bind, passes_task, digest_ok, passes_need, Value.str_beq] at rest
      obtain ⟨sha, _, ⟨current, -⟩, _, _, ⟨same, -⟩, -⟩ := rest
      exact ⟨sha, same, current⟩
    · split at rest
      · simp only [passes_bind, passes_task, passes_need, passes_note, passes_pure] at rest
        obtain ⟨_, _, ⟨-, rfl⟩, _, _, ⟨-, rfl⟩, _, _, rfl, rfl, rfl⟩ := rest
        exact ⟨rfl, rfl⟩
      · simp only [passes_bind, passes_note, passes_pure] at rest
        obtain ⟨_, _, rfl, rfl, rfl⟩ := rest
        exact ⟨rfl, rfl⟩
  · rintro ⟨text, rfl, ⟨⟨located, substantial⟩, compared⟩, rfl, rfl⟩
    refine ⟨text, _, ⟨rfl, rfl⟩, _, _, ⟨⟨rfl, located⟩, rfl⟩, true, _,
      ⟨isSubstantial_ok.mpr substantial, rfl⟩, (), _, ⟨rfl, rfl⟩, ?_⟩
    split
    next truthy =>
      obtain ⟨sha, rfl, current⟩ := compared truthy
      simp only [passes_bind, passes_task, digest_ok, passes_need, Value.str_beq, passes_note,
        passes_pure]
      exact ⟨sha, _, ⟨current, rfl⟩, (), _, ⟨rfl, rfl⟩, (), _, rfl, trivial, rfl⟩
    next =>
      simp only [passes_bind, passes_note, passes_pure]
      exact ⟨(), _, rfl, trivial, rfl⟩

theorem passes_file_bind {name expected : Value} {α : Type} {f : Path → Gate α} {a : α} :
    Passes host links d (file host name expected >>= f) paths a paths' ↔
      ∃ text, name = .str text ∧ Matches host d text expected ∧
        Passes host links d (f (parts text)) (paths ++ [text]) a paths' := by
  simp only [passes_bind, passes_file]
  constructor
  · rintro ⟨_, _, ⟨text, rfl, matched, rfl, rfl⟩, rest⟩
    exact ⟨text, rfl, matched, rest⟩
  · rintro ⟨text, rfl, matched, rest⟩
    exact ⟨_, _, ⟨text, rfl, matched, rfl, rfl⟩, rest⟩

/-- A generated file passes exactly if a cited execution produced it as it is. -/
theorem passes_generated {produced : List (String × String)} {name : Value} {p : Path} :
    Passes host links d (generated host produced name) paths p paths' ↔
      ∃ text sha, name = .str text ∧ produced.lookup text = some sha ∧
        Matches host d text (.str sha) ∧ p = parts text ∧ paths' = paths ++ [text] := by
  unfold generated
  simp only [passes_bind, passes_eval, passes_need, passes_file]
  constructor
  · rintro ⟨made, _, ⟨found, rfl⟩, _, _, ⟨known, rfl⟩, text, rfl, matched, rfl, rfl⟩
    obtain ⟨sha, rfl⟩ := Option.isSome_iff_exists.mp known
    exact ⟨text, sha, rfl, Except.ok.inj found, matched, rfl, rfl⟩
  · rintro ⟨text, sha, rfl, made, matched, rfl, rfl⟩
    exact ⟨some sha, _, ⟨congrArg Except.ok made, rfl⟩, (), _, ⟨rfl, rfl⟩,
      text, rfl, matched, rfl, rfl⟩

theorem passes_generated_bind {produced : List (String × String)} {name : Value} {α : Type}
    {f : Path → Gate α} {a : α} :
    Passes host links d (generated host produced name >>= f) paths a paths' ↔
      ∃ text, name = .str text ∧
        ∃ sha, (produced.lookup text = some sha ∧ Matches host d text (.str sha)) ∧
          Passes host links d (f (parts text)) (paths ++ [text]) a paths' := by
  simp only [passes_bind, passes_generated]
  constructor
  · rintro ⟨_, _, ⟨text, sha, rfl, made, matched, rfl, rfl⟩, rest⟩
    exact ⟨text, rfl, sha, ⟨made, matched⟩, rest⟩
  · rintro ⟨text, rfl, sha, ⟨made, matched⟩, rest⟩
    exact ⟨_, _, ⟨text, sha, rfl, made, matched, rfl, rfl⟩, rest⟩

end Helpers

section Tables

/-- The digest that a dictionary of references gives for a path is that of one of them. -/
theorem lookup_digests {refs : List Ref} {path sha : String}
    (found : (digests refs).lookup path = some sha) :
    ∃ ref ∈ refs, ref.path = path ∧ ref.sha256 = sha := by
  have all : ∀ (entries table : List (String × String)),
      (entries.foldl (fun table e => assign table e.1 e.2) table).lookup path = some sha →
      (path, sha) ∈ entries ∨ table.lookup path = some sha := by
    intro entries
    induction entries with
    | nil => exact fun table found => .inr found
    | cons e rest ih =>
        intro table found
        obtain mem | found := ih _ found
        · exact .inl (List.mem_cons_of_mem _ mem)
        · by_cases same : path = e.1
          · rw [same, lookup_assign_self, Option.some.injEq] at found
            refine .inl ?_
            rw [same, ← found]
            exact List.mem_cons_self
          · rw [lookup_assign_of_ne same] at found
            exact .inr found
  obtain mem | absent := all _ [] found
  · obtain ⟨ref, listed, same⟩ := List.mem_map.mp mem
    obtain ⟨rfl, rfl⟩ := Prod.mk.inj same
    exact ⟨ref, listed, rfl, rfl⟩
  · cases absent

end Tables

end Mathmodel.Workflow
