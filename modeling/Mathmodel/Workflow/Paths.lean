import Mathmodel.Workflow.Value

/-!
# Path names

`parts` is `Path(name).parts` and `pathText` is `str` of it. A name that was
printed from its components is read back as the same components, so references,
which keep the printed name, lead to the file they were made from.
-/

namespace Mathmodel.Workflow

section Split

theorem splitSlash_ne_nil (l : List Char) : splitSlash l ≠ [] := by
  cases l with
  | nil => exact nofun
  | cons c cs =>
      unfold splitSlash
      split
      · exact nofun
      · split
        · exact nofun
        · exact nofun

theorem splitSlash_plain {l : List Char} (plain : '/' ∉ l) : splitSlash l = [l] := by
  induction l with
  | nil => rfl
  | cons c cs ih =>
      rw [List.mem_cons, not_or] at plain
      rw [splitSlash, if_neg (Ne.symm plain.1), ih plain.2]

theorem splitSlash_append {l : List Char} (plain : '/' ∉ l) (rest : List Char) :
    splitSlash (l ++ '/' :: rest) = l :: splitSlash rest := by
  induction l with
  | nil => rw [List.nil_append, splitSlash, if_pos rfl]
  | cons c cs ih =>
      rw [List.mem_cons, not_or] at plain
      rw [List.cons_append, splitSlash, if_neg (Ne.symm plain.1), ih plain.2]

theorem not_mem_of_mem_splitSlash {l part : List Char} (mem : part ∈ splitSlash l) :
    '/' ∉ part := by
  induction l generalizing part with
  | nil =>
      obtain rfl := List.mem_singleton.mp mem
      exact nofun
  | cons c cs ih =>
      rw [splitSlash] at mem
      split at mem
      next =>
        obtain rfl | mem := List.mem_cons.mp mem
        · exact nofun
        · exact ih mem
      next other =>
        split at mem
        next => exact absurd ‹_› (splitSlash_ne_nil cs)
        next first rest split_ =>
          obtain rfl | mem := List.mem_cons.mp mem
          · rw [List.mem_cons, not_or]
            exact ⟨Ne.symm other, ih (split_ ▸ List.mem_cons_self)⟩
          · exact ih (split_ ▸ List.mem_cons_of_mem _ mem)

end Split

/-- What a component of a path can be. -/
structure IsComponent (part : String) : Prop where
  nonempty : part ≠ ""
  proper : part ≠ "."
  plain : '/' ∉ part.toList

/-- A list of components names a file below the project. -/
def IsPath (path : Path) : Prop := path ≠ [] ∧ ∀ part ∈ path, IsComponent part

theorem isComponent_of_mem {name part : String} (mem : part ∈ parts name) : IsComponent part := by
  obtain ⟨chars, found, rfl⟩ := List.mem_map.mp mem
  obtain ⟨split_, keep⟩ := List.mem_filter.mp found
  rw [Bool.not_eq_true', Bool.or_eq_false_iff, List.isEmpty_eq_false_iff,
    beq_eq_false_iff_ne] at keep
  refine ⟨fun same => keep.1 ?_, fun same => keep.2 ?_, ?_⟩
  · rw [← String.toList_ofList (l := chars), same]
    rfl
  · rw [← String.toList_ofList (l := chars), same]
    rfl
  · rw [String.toList_ofList]
    exact not_mem_of_mem_splitSlash split_

/-- The path that a name spells has proper components. -/
theorem isPath_parts {name : String} (nonempty : parts name ≠ []) : IsPath (parts name) :=
  ⟨nonempty, fun _ mem => isComponent_of_mem mem⟩

theorem IsComponent.filter_cons {part : String} (component : IsComponent part)
    (rest : List (List Char)) :
    ((part.toList :: rest).filter fun p => !(p.isEmpty || p == ['.'])) =
      part.toList :: rest.filter fun p => !(p.isEmpty || p == ['.']) := by
  refine List.filter_cons_of_pos ?_
  rw [Bool.not_eq_true', Bool.or_eq_false_iff, List.isEmpty_eq_false_iff, beq_eq_false_iff_ne]
  refine ⟨fun none => component.nonempty ?_, fun dot => component.proper ?_⟩
  · exact String.toList_inj.mp none
  · exact String.toList_inj.mp dot

/-- The components of a name that begins with one of them. -/
theorem parts_cons {name part : String} {rest : List Char} (component : IsComponent part)
    (text : name.toList = part.toList ++ '/' :: rest) :
    parts name = part :: parts (String.ofList rest) := by
  unfold parts
  rw [text, splitSlash_append component.plain, component.filter_cons, List.map_cons,
    String.ofList_toList, String.toList_ofList]

theorem parts_singleton {part : String} (component : IsComponent part) : parts part = [part] := by
  unfold parts
  rw [splitSlash_plain component.plain, component.filter_cons, List.map_cons, String.ofList_toList]
  rfl

theorem pathText_cons {part next : String} {rest : Path} :
    (pathText (part :: next :: rest)).toList =
      part.toList ++ '/' :: (pathText (next :: rest)).toList := by
  simp [pathText, String.intercalate_cons_cons]

/-- A printed path is read back as it was. -/
theorem parts_pathText {path : Path} (isPath : IsPath path) : parts (pathText path) = path := by
  obtain ⟨nonempty, components⟩ := isPath
  induction path with
  | nil => exact absurd rfl nonempty
  | cons part rest ih =>
      have component := components part List.mem_cons_self
      cases rest with
      | nil =>
          have text : pathText [part] = part := by simp [pathText]
          rw [text, parts_singleton component]
      | cons next more =>
          rw [parts_cons component pathText_cons, String.ofList_toList,
            ih nofun fun p mem => components p (List.mem_cons_of_mem _ mem)]

/-- Writing a path out and reading it again gives the path. -/
theorem parts_pathText_parts {name : String} (nonempty : parts name ≠ []) :
    parts (pathText (parts name)) = parts name :=
  parts_pathText (isPath_parts nonempty)

/-- A printed path is relative. -/
theorem isAbsolute_pathText {path : Path} (isPath : IsPath path) :
    isAbsolute (pathText path) = false := by
  obtain ⟨nonempty, components⟩ := isPath
  cases path with
  | nil => exact absurd rfl nonempty
  | cons part rest =>
      have component := components part List.mem_cons_self
      have starts : ∃ more, (pathText (part :: rest)).toList = part.toList ++ more := by
        cases rest with
        | nil => exact ⟨[], by simp [pathText]⟩
        | cons next others => exact ⟨_, pathText_cons⟩
      obtain ⟨more, text⟩ := starts
      unfold isAbsolute
      rw [text]
      cases chars : part.toList with
      | nil => exact absurd (String.toList_inj.mp chars) component.nonempty
      | cons c cs =>
          have plain := component.plain
          rw [chars, List.mem_cons, not_or] at plain
          simpa using Ne.symm plain.1

end Mathmodel.Workflow
