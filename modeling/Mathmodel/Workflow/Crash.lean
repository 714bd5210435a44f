import Mathmodel.Workflow.Paper

/-!
# Exceptions that are not reported

`main` reports exceptions of four classes and lets every other one through. A gate
crashes in one of its steps after it has passed the steps before, so the lemmas below
go along a gate as those for passing do: what a step raises that is not reported, and
otherwise what it was passed with.
-/

namespace Mathmodel.Workflow

open Dialogue
open Gate (Passes)

/-- An exception comes out that `main` does not report. -/
def Raises {α : Type} (x : Except PyErr α) : Prop := ∃ e, x = .error e ∧ e.isReported = false

/-- An element that stops a search, behind elements that are passed. -/
inductive Until {α : Type} (passed stops : α → Prop) : List α → Prop where
  | here {a : α} {rest : List α} (h : stops a) : Until passed stops (a :: rest)
  | later {a : α} {rest : List α} (h : passed a) (more : Until passed stops rest) :
      Until passed stops (a :: rest)

section Until

variable {α : Type} {passed stops : α → Prop}

@[simp] theorem until_nil : ¬ Until passed stops [] := by
  intro h
  cases h

/-- A loop stops at its first element, or passes it and stops later. -/
@[simp] theorem until_cons {a : α} {rest : List α} :
    Until passed stops (a :: rest) ↔ stops a ∨ passed a ∧ Until passed stops rest := by
  constructor
  · intro h
    cases h with
    | here h => exact .inl h
    | later h more => exact .inr ⟨h, more⟩
  · rintro (h | ⟨h, more⟩)
    · exact .here h
    · exact .later h more

theorem Until.exists_mem {l : List α} (h : Until passed stops l) : ∃ a ∈ l, stops a := by
  induction h with
  | here h => exact ⟨_, List.mem_cons_self, h⟩
  | later _ _ ih =>
      obtain ⟨a, mem, h⟩ := ih
      exact ⟨a, List.mem_cons_of_mem _ mem, h⟩

end Until

section Raises

variable {α β : Type}

@[simp] theorem raises_ok (a : α) : ¬ Raises (.ok a) := by
  rintro ⟨_, same, -⟩
  cases same

@[simp] theorem raises_pure (a : α) : ¬ Raises (pure a) := raises_ok a

@[simp] theorem raises_error (e : PyErr) :
    Raises (.error e : Except PyErr α) ↔ e.isReported = false := by
  constructor
  · rintro ⟨_, same, unreported⟩
    cases same
    exact unreported
  · exact fun unreported => ⟨e, rfl, unreported⟩

/-- Two computations in a row raise where the first does, or where the second does after it. -/
@[simp] theorem raises_bind {x : Except PyErr β} {f : β → Except PyErr α} :
    Raises (x >>= f) ↔ Raises x ∨ ∃ b, x = .ok b ∧ Raises (f b) := by
  cases x with
  | ok b =>
      rw [or_iff_right (raises_ok b)]
      constructor
      · exact fun h => ⟨b, rfl, h⟩
      · rintro ⟨_, same, h⟩
        cases same
        exact h
  | error e =>
      rw [raises_error]
      constructor
      · rintro ⟨_, same, unreported⟩
        cases same
        exact .inl unreported
      · rintro (unreported | ⟨_, same, -⟩)
        · exact ⟨e, rfl, unreported⟩
        · cases same

@[simp] theorem raises_require (condition : Bool) (message : String) :
    ¬ Raises (require condition message) := by
  unfold require
  split <;> simp [PyErr.isReported]

@[simp] theorem raises_found (x : Option α) : ¬ Raises (found x) := by
  cases x <;> simp [found, missing, PyErr.isReported]

namespace Value

variable {v : Value} {key : String}

/-- The value has no fields. -/
def IsFieldless (v : Value) : Prop := ∀ fields, v ≠ .dict fields

/-- The value is no text. -/
def IsForeign (v : Value) : Prop := ∀ s, v ≠ .str s

@[simp] theorem not_isFieldless_dict (fields : List (String × Value)) :
    ¬ (Value.dict fields).IsFieldless := fun h => h fields rfl

@[simp] theorem not_isForeign_str (s : String) : ¬ (Value.str s).IsForeign := fun h => h s rfl

/-- Only a dictionary has the method `get`. -/
@[simp] theorem raises_get {default : Value} : Raises (v.get key default) ↔ v.IsFieldless := by
  cases v <;> simp [get, PyErr.isReported, IsFieldless]

@[simp] theorem raises_item (v : Value) (key : String) : ¬ Raises (v.item key) := by
  cases v with
  | dict fields =>
      unfold item
      dsimp only
      split <;> simp [PyErr.isReported]
  | _ => simp [item, PyErr.isReported]

@[simp] theorem raises_iter (v : Value) : ¬ Raises v.iter := by
  cases v <;> simp [iter, PyErr.isReported]

@[simp] theorem raises_len (v : Value) : ¬ Raises v.len := by
  cases v <;> simp [len, PyErr.isReported]

@[simp] theorem raises_hashable (v : Value) : ¬ Raises v.hashable := by
  cases v <;> simp [hashable, PyErr.isReported]

@[simp] theorem raises_pathName (v : Value) : ¬ Raises v.pathName := by
  cases v <;> simp [pathName, PyErr.isReported]

@[simp] theorem raises_lookupIn (v : Value) (table : List (String × String)) :
    ¬ Raises (v.lookupIn table) := by
  unfold lookupIn
  rw [raises_bind]
  cases v <;> simp [hashable, PyErr.isReported]

/-- Only a text has the method `endswith`. -/
@[simp] theorem raises_endswith {suffixes : List String} :
    Raises (v.endswith suffixes) ↔ v.IsForeign := by
  cases v <;> simp [endswith, PyErr.isReported, IsForeign]

/-- A text without one of the suffixes. -/
def Lacks (suffixes : List String) (v : Value) : Prop :=
  ∃ s, v = .str s ∧ suffixes.any (endsWith s) = false

/-- A step of a search by suffixes. -/
theorem raises_search {suffixes : List String} {keep : Bool → Bool} {a : α}
    {next : Except PyErr α} :
    Raises (do if keep (← v.endswith suffixes) then return a else next) ↔
      IsForeign v ∨ (∃ s, v = .str s ∧ keep (suffixes.any (endsWith s)) = false) ∧ Raises next := by
  rw [raises_bind, raises_endswith]
  refine or_congr Iff.rfl ?_
  simp only [endswith_eq_ok]
  constructor
  · rintro ⟨b, ⟨s, rfl, rfl⟩, h⟩
    split at h
    next => exact absurd h (raises_pure _)
    next other => exact ⟨⟨s, rfl, Bool.not_eq_true _ ▸ other⟩, h⟩
  · rintro ⟨⟨s, rfl, other⟩, more⟩
    refine ⟨_, ⟨s, rfl, rfl⟩, ?_⟩
    rw [if_neg (by rw [other]; exact Bool.false_ne_true)]
    exact more

/-- The search for a suffix comes to a value that is no text. -/
theorem raises_anyEndswith {suffixes : List String} {values : List Value} :
    Raises (anyEndswith suffixes values) ↔ Until (Lacks suffixes) IsForeign values := by
  induction values with
  | nil => simp [anyEndswith]
  | cons v rest ih =>
      rw [anyEndswith, until_cons, ← ih]
      exact raises_search

end Value

open Value (IsFieldless IsForeign Lacks)

/-- Looking for the reviews of an id fails at a review without fields. -/
theorem raises_matching {id : Value} {reviews : List Value} :
    Raises (matching id reviews) ↔ ∃ r ∈ reviews, IsFieldless r := by
  induction reviews with
  | nil => simp [matching]
  | cons r rest ih =>
      rw [matching, raises_bind, Value.raises_get, List.exists_mem_cons_iff]
      refine or_congr_right' fun object => ?_
      obtain ⟨fields, rfl⟩ : ∃ fields, r = .dict fields := by
        simpa [IsFieldless] using object
      rw [← ih]
      simp only [Value.get_eq_ok, Value.dict.injEq, exists_eq_left', raises_bind, raises_pure,
        and_false, exists_false, or_false, exists_eq_left]

/-- Looking for a PNG fails at an output that is no string, unless a PNG comes before it. -/
theorem raises_firstPng {outputs : List Value} :
    Raises (firstPng outputs) ↔ Until (Lacks [".png"]) IsForeign outputs := by
  induction outputs with
  | nil => simp [firstPng]
  | cons v rest ih =>
      rw [firstPng, until_cons, ← ih]
      exact Value.raises_search

/-- A text that is no vector export among the files of the paper. -/
def Unlisted (files : List Value) (v : Value) : Prop :=
  ∃ s, v = .str s ∧ ([".pdf", ".svg"].any (endsWith s) && v.isIn files) = false

/-- Looking for a listed export fails at one that is no string, unless a listed one comes first. -/
theorem raises_anyListed {files exports : List Value} :
    Raises (anyListed files exports) ↔ Until (Unlisted files) IsForeign exports := by
  induction exports with
  | nil => simp [anyListed]
  | cons v rest ih =>
      rw [anyListed, until_cons, ← ih]
      exact Value.raises_search

@[simp] theorem raises_column (key : String) (values : List Value) :
    ¬ Raises (column key values) := by
  induction values with
  | nil => simp [column]
  | cons v rest ih => simp [column, -bind_pure_comp, ih]

@[simp] theorem raises_allReturned (entries : List Value) : ¬ Raises (allReturned entries) := by
  induction entries with
  | nil => simp [allReturned]
  | cons c rest ih =>
      rw [allReturned, raises_bind, or_iff_right (Value.raises_item _ _)]
      rintro ⟨code, -, h⟩
      split at h
      · exact ih h
      · exact raises_pure _ h

@[simp] theorem raises_sourceDigests (table : List (Value × Value)) (sources : List Value) :
    ¬ Raises (sourceDigests table sources) := by
  induction sources generalizing table with
  | nil => simp [sourceDigests]
  | cons r rest ih => simp [sourceDigests, ih]

@[simp] theorem raises_allHashable (values : List Value) : ¬ Raises (allHashable values) := by
  induction values with
  | nil => simp [allHashable]
  | cons v rest ih => simp [allHashable, ih]

end Raises

/-- The gate ends with an exception that is not reported, against the true answers. -/
def Gate.Crashes {α : Type} (host : Host) (links : Path → Alias) (d : Disk) (x : Gate α)
    (paths : List String) : Prop :=
  Raises ((x.run paths).answered (look host links d))

open Gate (Crashes)

variable {host : Host} {links : Path → Alias} {d : Disk} {paths paths' : List String}

section Steps

variable {α β : Type}

/-- Two checks in a row crash where the first does, or where the second does after the first has
passed. -/
theorem crashes_bind {x : Gate β} {f : β → Gate α} :
    Crashes host links d (x >>= f) paths ↔
      Crashes host links d x paths ∨
        ∃ b between, Passes host links d x paths b between ∧
          Crashes host links d (f b) between := by
  unfold Crashes Passes
  rw [StateT.run_bind, answered_bind, raises_bind, Prod.exists]

theorem crashes_task {x : Task α} :
    Crashes host links d (Gate.task x) paths ↔ Raises (x.answered (look host links d)) := by
  unfold Crashes
  change Raises ((x >>= fun a => pure (a, paths)).answered _) ↔ _
  rw [answered_bind, raises_bind, or_iff_left]
  rintro ⟨a, -, h⟩
  exact raises_ok _ h

theorem crashes_eval {x : Except PyErr α} :
    Crashes host links d (liftM (eval x) : Gate α) paths ↔ Raises x := by
  change Crashes host links d (Gate.task (Workflow.eval x)) paths ↔ _
  rw [crashes_task, answered_eval]

/-- A condition that fails is reported. -/
@[simp] theorem crashes_need (condition : Bool) (message : String) :
    ¬ Crashes host links d (Gate.need condition message) paths := by
  rw [Gate.need, crashes_task, answered_check]
  exact raises_require _ _

@[simp] theorem crashes_pure (a : α) : ¬ Crashes host links d (pure a : Gate α) paths :=
  raises_ok _

theorem crashes_task_bind {x : Task β} {f : β → Gate α} :
    Crashes host links d (Gate.task x >>= f) paths ↔
      Raises (x.answered (look host links d)) ∨
        ∃ b, x.answered (look host links d) = .ok b ∧ Crashes host links d (f b) paths := by
  rw [crashes_bind, crashes_task]
  refine or_congr_right (exists_congr fun b => ?_)
  simp only [passes_task]
  constructor
  · rintro ⟨_, ⟨h, rfl⟩, rest⟩
    exact ⟨h, rest⟩
  · rintro ⟨h, rest⟩
    exact ⟨_, ⟨h, rfl⟩, rest⟩

theorem crashes_eval_bind {x : Except PyErr β} {f : β → Gate α} :
    Crashes host links d ((liftM (eval x) : Gate β) >>= f) paths ↔
      Raises x ∨ ∃ b, x = .ok b ∧ Crashes host links d (f b) paths := by
  change Crashes host links d (Gate.task (Workflow.eval x) >>= f) paths ↔ _
  rw [crashes_task_bind, answered_eval]

theorem crashes_need_bind {condition : Bool} {message : String} {f : Unit → Gate α} :
    Crashes host links d (Gate.need condition message >>= f) paths ↔
      condition = true ∧ Crashes host links d (f ()) paths := by
  rw [crashes_bind, or_iff_right (crashes_need _ _)]
  simp only [passes_need]
  constructor
  · rintro ⟨_, _, ⟨h, rfl⟩, rest⟩
    exact ⟨h, rest⟩
  · rintro ⟨h, rest⟩
    exact ⟨(), _, ⟨h, rfl⟩, rest⟩

theorem crashes_note_bind {name : String} {f : Unit → Gate α} :
    Crashes host links d (Gate.note name >>= f) paths ↔
      Crashes host links d (f ()) (paths ++ [name]) := by
  have silent : ¬ Crashes host links d (Gate.note name) paths := raises_ok _
  rw [crashes_bind, or_iff_right silent]
  simp only [passes_note]
  constructor
  · rintro ⟨_, _, rfl, rest⟩
    exact rest
  · exact fun rest => ⟨(), _, rfl, rest⟩

section Loops

variable {f : β → Gate PUnit} {C B : β → Prop}
variable (round : ∀ b paths, (∃ paths', Passes host links d (f b) paths ⟨⟩ paths') ↔ C b)

include round in
/-- A loop is passed if each round is, whatever was noted before it. -/
theorem passes_forM_exists {l : List β} (paths : List String) :
    (∃ paths', Passes host links d (l.forM f) paths ⟨⟩ paths') ↔ ∀ b ∈ l, C b := by
  induction l generalizing paths with
  | nil =>
      change (∃ paths', Passes host links d (pure ⟨⟩ : Gate PUnit) paths ⟨⟩ paths') ↔ _
      simp
  | cons b rest ih =>
      change (∃ paths', Passes host links d (f b >>= fun _ => rest.forM f) paths ⟨⟩ paths') ↔ _
      simp only [passes_bind]
      rw [List.forall_mem_cons, ← round b paths]
      constructor
      · rintro ⟨paths', _, between, first, others⟩
        exact ⟨⟨between, first⟩, (ih _).mp ⟨paths', others⟩⟩
      · rintro ⟨⟨between, first⟩, others⟩
        obtain ⟨paths', rest⟩ := (ih _).mpr others
        exact ⟨paths', ⟨⟩, between, first, rest⟩

variable (stops : ∀ b paths, Crashes host links d (f b) paths ↔ B b)

include round stops in
/-- A loop crashes in the first round that does, if the rounds before it are passed. -/
theorem crashes_forM {l : List β} : Crashes host links d (l.forM f) paths ↔ Until C B l := by
  induction l generalizing paths with
  | nil =>
      change Crashes host links d (pure ⟨⟩ : Gate PUnit) paths ↔ _
      simp
  | cons b rest ih =>
      change Crashes host links d (f b >>= fun _ => rest.forM f) paths ↔ _
      rw [crashes_bind, until_cons, stops, ← round b paths]
      refine or_congr_right ?_
      constructor
      · rintro ⟨_, between, first, more⟩
        exact ⟨⟨between, first⟩, ih.mp more⟩
      · rintro ⟨⟨between, first⟩, more⟩
        exact ⟨⟨⟩, between, first, ih.mpr more⟩

include round stops in
/-- A loop of checks crashes at an element that is reached, or after all have passed. -/
theorem crashes_forM_bind {l : List β} {g : PUnit → Gate α} {After : Prop}
    (after : (∀ b ∈ l, C b) → ∀ paths, Crashes host links d (g ⟨⟩) paths ↔ After) :
    Crashes host links d (l.forM f >>= g) paths ↔ Until C B l ∨ (∀ b ∈ l, C b) ∧ After := by
  rw [crashes_bind, crashes_forM round stops]
  refine or_congr_right ?_
  constructor
  · rintro ⟨_, between, passed, rest⟩
    have all := (passes_forM_exists round _).mp ⟨between, passed⟩
    exact ⟨all, (after all _).mp rest⟩
  · rintro ⟨all, rest⟩
    obtain ⟨between, passed⟩ := (passes_forM_exists round _).mpr all
    exact ⟨⟨⟩, between, passed, (after all _).mpr rest⟩

end Loops

end Steps

section Helpers

variable {α : Type}

/-- A name that `local` does not refuse, which runs into a loop of symbolic links. -/
structure Endless (links : Path → Alias) (d : Disk) (name : String) : Prop where
  admitted : Admitted name false
  linked : d.isLinked (parts name) = true
  endless : links (parts name) = .endless

theorem Located.not_endless {name : String} (h : Located d name false) : ¬ Endless links d name :=
  fun endless => Bool.false_ne_true (h.plain.symm.trans endless.linked)

/-- Loading the document raises an exception that is not reported. -/
def Unloadable (host : Host) (links : Path → Alias) (d : Disk) (name : String) : Prop :=
  Endless links d name ∨ Located d name false ∧
    ∃ content, d.content host (parts name) = some content ∧ Raises (host.loads content)

/-- Resolving a name fails unreported exactly at a loop of symbolic links. -/
theorem raises_localPath {name : String} :
    Raises ((localPath name false).answered (look host links d)) ↔ Endless links d name := by
  unfold localPath
  simp only [answered_bind, answered_check, answered_resolve, answered_eval, answered_pure,
    raises_bind, raises_require, raises_ok, require_eq_ok, Bool.and_eq_true,
    Bool.not_eq_true', List.contains_eq_mem, decide_eq_false_iff_not, List.isEmpty_eq_false_iff,
    Bool.or_eq_true, Except.ok.injEq, false_or, or_false, and_false, exists_false, exists_eq_left',
    exists_const]
  constructor
  · rintro ⟨⟨relative, inside⟩, ⟨nonempty, free⟩, looping⟩
    by_cases linked : d.isLinked (parts name) = true
    · rw [if_pos linked] at looping
      refine ⟨⟨relative, inside, nonempty, free⟩, linked, ?_⟩
      cases leads : links (parts name) with
      | endless => rfl
      | outside | inside => simp [leads, Alias.resolution] at looping
    · simp [if_neg linked] at looping
  · rintro ⟨⟨relative, inside, nonempty, free⟩, linked, endless⟩
    refine ⟨⟨relative, inside⟩, ⟨nonempty, free⟩, ?_⟩
    rw [if_pos linked, endless]
    simp [Alias.resolution, PyErr.isReported]

/-- Loading a document crashes exactly if its name runs into a loop or its text is nested too
deeply. -/
theorem crashes_load {name : String} :
    Crashes host links d (load host name) paths ↔ Unloadable host links d name := by
  unfold load
  simp only [crashes_task_bind, crashes_eval_bind, crashes_need_bind, crashes_note_bind,
    crashes_pure, raises_localPath, answered_read, raises_found, found_eq_ok, localPath_ok,
    and_false, exists_false, or_false, false_or, and_assoc, exists_eq_left]
  exact Iff.rfl

theorem raises_isSubstantial {path : Path} :
    ¬ Raises ((isSubstantial path).answered (look host links d)) := by
  unfold isSubstantial isNonempty
  simp only [answered_bind, answered_isFile, raises_bind, raises_ok, false_or, Except.ok.injEq,
    exists_eq_left']
  split
  · simp [-bind_pure_comp]
  · simp

theorem raises_digest {path : Path} :
    ¬ Raises ((digest host path).answered (look host links d)) := by
  unfold digest
  simp [-bind_pure_comp]

/-- Comparing a file with its digest crashes only at a loop. -/
theorem crashes_file {name expected : Value} :
    Crashes host links d (file host name expected) paths ↔
      ∃ text, name = .str text ∧ Endless links d text := by
  unfold file
  simp only [crashes_task_bind, crashes_eval_bind, crashes_need_bind, raises_localPath,
    localPath_ok, Value.raises_pathName, false_or, Value.pathName_eq_ok]
  refine exists_congr fun text => and_congr_right fun _ => or_iff_left ?_
  rintro ⟨_, -, substantial | ⟨_, -, -, compared⟩⟩
  · exact raises_isSubstantial substantial
  · split at compared
    · simp [-bind_pure_comp, crashes_task_bind, crashes_need_bind, crashes_note_bind,
        raises_digest] at compared
    · simp [-bind_pure_comp, crashes_note_bind] at compared

theorem crashes_generated {produced : List (String × String)} {name : Value} :
    Crashes host links d (generated host produced name) paths ↔
      ∃ text, name = .str text ∧ (produced.lookup text).isSome = true ∧ Endless links d text := by
  unfold generated
  simp only [crashes_eval_bind, crashes_need_bind, crashes_file, Value.raises_lookupIn, false_or]
  constructor
  · rintro ⟨made, found_, known, text, rfl, endless⟩
    rw [Value.str_lookupIn, Except.ok.injEq] at found_
    exact ⟨text, rfl, found_ ▸ known, endless⟩
  · rintro ⟨text, rfl, known, endless⟩
    exact ⟨_, rfl, known, text, rfl, endless⟩

theorem crashes_load_bind {name : String} {f : Value → Gate α} :
    Crashes host links d (load host name >>= f) paths ↔
      Unloadable host links d name ∨
        ∃ fields, (Located d name false ∧ d.Contains host name (.dict fields)) ∧
          Crashes host links d (f (.dict fields)) (paths ++ [name]) := by
  rw [crashes_bind, crashes_load]
  refine or_congr_right ?_
  simp only [passes_load]
  constructor
  · rintro ⟨_, _, ⟨located, contains, ⟨fields, rfl⟩, rfl⟩, rest⟩
    exact ⟨fields, ⟨located, contains⟩, rest⟩
  · rintro ⟨fields, ⟨located, contains⟩, rest⟩
    exact ⟨_, _, ⟨located, contains, ⟨fields, rfl⟩, rfl⟩, rest⟩

theorem crashes_file_bind {name expected : Value} {f : Path → Gate α} :
    Crashes host links d (file host name expected >>= f) paths ↔
      ∃ text, name = .str text ∧ (Endless links d text ∨
        Matches host d text expected ∧
          Crashes host links d (f (parts text)) (paths ++ [text])) := by
  rw [crashes_bind, crashes_file]
  simp only [passes_file]
  constructor
  · rintro (⟨text, rfl, endless⟩ | ⟨_, _, ⟨text, rfl, matched, rfl, rfl⟩, rest⟩)
    · exact ⟨text, rfl, .inl endless⟩
    · exact ⟨text, rfl, .inr ⟨matched, rest⟩⟩
  · rintro ⟨text, rfl, endless | ⟨matched, rest⟩⟩
    · exact .inl ⟨text, rfl, endless⟩
    · exact .inr ⟨_, _, ⟨text, rfl, matched, rfl, rfl⟩, rest⟩

theorem crashes_generated_bind {produced : List (String × String)} {text : String}
    {f : Path → Gate α} :
    Crashes host links d (generated host produced (.str text) >>= f) paths ↔
      ∃ sha, produced.lookup text = some sha ∧ (Endless links d text ∨
        Matches host d text (.str sha) ∧
          Crashes host links d (f (parts text)) (paths ++ [text])) := by
  rw [crashes_bind, crashes_generated]
  simp only [passes_generated, Value.str.injEq, exists_eq_left', Option.isSome_iff_exists]
  constructor
  · rintro (⟨⟨sha, made⟩, endless⟩ | ⟨_, _, ⟨_, sha, rfl, made, matched, rfl, rfl⟩, rest⟩)
    · exact ⟨sha, made, .inl endless⟩
    · exact ⟨sha, made, .inr ⟨matched, rest⟩⟩
  · rintro ⟨sha, made, endless | ⟨matched, rest⟩⟩
    · exact .inl ⟨⟨sha, made⟩, endless⟩
    · exact .inr ⟨_, _, ⟨text, sha, rfl, made, matched, rfl, rfl⟩, rest⟩

end Helpers

end Mathmodel.Workflow
