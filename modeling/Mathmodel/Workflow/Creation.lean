import Mathmodel.Workflow.Delivery

/-!
# The creation of a project

`init` looks at its arguments, makes sure that the directory is vacant, and then
fills it: the bundle, the directories, the inputs one after the other, and
`state.json` at the very end. Nothing is removed if a later step fails, and such a
step is not always an I/O error: a file that is there but empty is only refused by
its snapshot, when it lies in the project already.

The copies have names of their own, because each begins with its number. So a copy
leaves the earlier ones as they are, and their references stay intact.
-/

namespace Mathmodel.Workflow

open Dialogue

section Names

/-- The number of an input as its name begins with it, `{i:02d}`. -/
def numeral (i : Nat) : List Char := (if i < 10 then ['0'] else []) ++ Nat.toDigits 10 i

theorem ofDigitChars_numeral (i : Nat) : Nat.ofDigitChars 10 (numeral i) 0 = i := by
  unfold numeral
  rw [Nat.ofDigitChars_append]
  split
  · exact Nat.ofDigitChars_ten_toDigits
  · exact Nat.ofDigitChars_ten_toDigits

theorem isDigit_of_mem_numeral {i : Nat} {c : Char} (mem : c ∈ numeral i) : c.isDigit = true := by
  obtain zero | digit := List.mem_append.mp mem
  · split at zero
    · obtain rfl := List.mem_singleton.mp zero
      rfl
    · cases zero
  · exact Nat.isDigit_of_mem_toDigits (by decide) (by decide) digit

theorem inputName_toList (i : Nat) (source : Source) :
    (inputName i source).toList =
      "inputs".toList ++ '/' :: (numeral i ++ '-' :: source.name.text.toList) := by
  unfold inputName numeral
  split
  · simp
  · simp

/-- The name of a file below `inputs`. -/
theorem parts_inputName {i : Nat} {source : Source} (plain : '/' ∉ source.name.text.toList) :
    parts (inputName i source) =
      ["inputs", String.ofList (numeral i ++ '-' :: source.name.text.toList)] := by
  have first : IsComponent "inputs" := ⟨by decide, by decide, by decide⟩
  have second : IsComponent (String.ofList (numeral i ++ '-' :: source.name.text.toList)) := by
    have dash : '-' ∈ (String.ofList (numeral i ++ '-' :: source.name.text.toList)).toList := by
      rw [String.toList_ofList]
      simp
    refine ⟨fun same => ?_, fun same => ?_, ?_⟩
    · rw [same] at dash
      exact absurd dash (by decide)
    · rw [same] at dash
      exact absurd dash (by decide)
    · rw [String.toList_ofList, List.mem_append, List.mem_cons]
      rintro (digit | dash | other)
      · exact absurd (isDigit_of_mem_numeral digit) (by decide)
      · exact absurd dash (by decide)
      · exact plain other
  rw [parts_cons first (inputName_toList i source), parts_singleton second]

/-- Inputs with different numbers are copied to different files. -/
theorem parts_inputName_ne {i j : Nat} {source other : Source} (apart : i ≠ j)
    (plain : '/' ∉ source.name.text.toList) (plain' : '/' ∉ other.name.text.toList) :
    parts (inputName i source) ≠ parts (inputName j other) := by
  rw [parts_inputName plain, parts_inputName plain']
  intro same
  have chars := String.ofList_injective (List.cons.inj (List.cons.inj same).2).1
  have digits : ∀ {k : Nat} {rest : List Char},
      (numeral k ++ '-' :: rest).takeWhile Char.isDigit = numeral k := by
    intro k rest
    rw [List.takeWhile_append_of_pos fun c mem => isDigit_of_mem_numeral mem,
      List.takeWhile_cons_of_neg (by decide), List.append_nil]
  have numerals := congrArg (List.takeWhile Char.isDigit) chars
  rw [digits, digits] at numerals
  apply apart
  rw [← ofDigitChars_numeral i, numerals, ofDigitChars_numeral]

theorem admitted_inputName {i : Nat} {source : Source} (plain : '/' ∉ source.name.text.toList) :
    Admitted (inputName i source) false := by
  have path := parts_inputName (i := i) plain
  refine ⟨?_, ?_, ?_, .inr ?_⟩
  · unfold isAbsolute
    rw [inputName_toList]
    rfl
  · rw [path]
    simp only [List.mem_cons, List.not_mem_nil, or_false, not_or]
    refine ⟨by decide, fun same => ?_⟩
    have dash : '-' ∈ "..".toList := by
      rw [same]
      simp
    exact absurd dash (by decide)
  · rw [path]
    exact nofun
  · rw [path, List.headD_cons]
    decide

end Names

variable {host : Host} {links : Path → Alias} {d d' t : Disk}

section Files

/-- The keys of a table of files are compared as lists; the general lemmas decide equality. -/
theorem lookup_path {ν : Type} (table : List (Path × ν)) (path : Path) :
    List.lookup path table = @List.lookup Path ν instBEqOfDecidableEq path table := by
  have same : (List.instBEq : BEq Path) = instBEqOfDecidableEq := lawful_beq_subsingleton _ _
  rw [same]

/-- There is no receipt and no symbolic link. -/
structure Disk.Clear (d : Disk) : Prop where
  receipts : d.receipts = []
  plain : ∀ e ∈ d.files, e.2 ≠ .link

namespace Disk.Clear

theorem isLinked (h : d.Clear) (path : Path) : d.isLinked path = false := by
  refine List.any_eq_false.mpr fun p _ => ?_
  rw [decide_eq_true_iff, lookup_path]
  exact fun there => h.plain _ (mem_of_lookup there) rfl

theorem put (h : d.Clear) (path : Path) {node : Node} (other : node ≠ .link) :
    (d.put path node).Clear := by
  refine ⟨h.receipts, fun e mem => ?_⟩
  obtain old | rfl := mem_assign mem
  · exact h.plain e old
  · exact other

theorem makeDirectories (h : d.Clear) (path : Path) : (d.makeDirectories path).Clear := by
  unfold Disk.makeDirectories
  induction path.inits generalizing d with
  | nil => exact h
  | cons p rest ih =>
      rw [List.foldl_cons]
      split
      · exact ih h
      · exact ih (h.put p nofun)

theorem alike (h : d.Clear) (alike : d.Alike d') : d'.Clear := by
  refine ⟨alike.receipts.trans h.receipts, ?_⟩
  rw [alike.files]
  exact h.plain

theorem content (h : d.Clear) (path : Path) :
    d.content host path = match d.files.lookup path with
      | some (.file content) => some content
      | _ => none := by
  unfold Disk.content
  rw [h.receipts]
  rfl

theorem content_put_self (h : d.Clear) (path : Path) (content : Content) :
    (d.put path (.file content)).content host path = some content := by
  have clear : (d.put path (.file content)).Clear := h.put path nofun
  rw [clear.content, Disk.put, lookup_path, lookup_assign_self]

theorem content_put_of_ne (h : d.Clear) {path other : Path} (apart : other ≠ path)
    (content : Content) :
    (d.put path (.file content)).content host other = d.content host other := by
  have clear : (d.put path (.file content)).Clear := h.put path nofun
  rw [clear.content, h.content, Disk.put, lookup_path, lookup_assign_of_ne apart, lookup_path]

theorem located (h : d.Clear) {name : String} {internal : Bool}
    (admitted : Admitted name internal) :
    Located d name internal :=
  ⟨admitted, h.isLinked _⟩

/-- Another file leaves a reference intact. -/
theorem intact_put (h : d.Clear) {ref : Ref} (intact : d.Intact host ref) {path : Path}
    (apart : parts ref.path ≠ path) (content : Content) :
    (d.put path (.file content)).Intact host ref := by
  have clear : (d.put path (.file content)).Clear := h.put path nofun
  refine ⟨clear.located intact.located.admitted, ?_, intact.stored⟩
  obtain ⟨found_, there, right⟩ := intact.current
  exact ⟨found_, (h.content_put_of_ne apart content).trans there, right⟩

end Disk.Clear

end Files

section Requests

/-- The requests by which `init` fills the directory, and the one before them. -/
def Request.isSetup : Request → Bool
  | .isVacant | .prepare | .copyBundle _ | .copyIn _ _ | .writeText _ _ | .makeDirectory _
  | .saveState _ => true
  | _ => false

theorem smooth_setup {q : Request} (setup : q.isSetup = true) {r r' : Except PyErr q.Answer}
    (done : q.perform host d .proceed = some (r, t)) (served : smooth host links d q r' d') :
    r' = r ∧ d' = t := by
  obtain ⟨choice, answer, lets, -⟩ := served
  have proceeds : choice = .proceed := by
    cases choice with
    | proceed => rfl
    | refuse message => exact absurd rfl (lets.allowed message)
    | cut written => exact absurd rfl (lets.whole written)
    | _ =>
        cases q with
        | isVacant | prepare | copyBundle | copyIn | writeText | makeDirectory | saveState =>
            cases answer
        | _ => cases setup
  rw [proceeds, done] at answer
  cases answer
  exact ⟨rfl, rfl⟩

theorem smooth_setup_bind {q : Request} (setup : q.isSetup = true) {a : q.Answer} {α : Type}
    {f : q.Answer → Task α} {result : Except PyErr α}
    (done : q.perform host d .proceed = some (.ok a, t))
    (ends : Ends (smooth host links) (ask q >>= f) d result d') :
    Ends (smooth host links) (f a) t result d' := by
  obtain ⟨b, u, first, rest⟩ | ⟨e, -, first⟩ := ends_bind ends
  · obtain ⟨same, rfl⟩ := smooth_setup setup done (ends_request first)
    cases same
    exact rest
  · obtain ⟨failed, -⟩ := smooth_setup setup done (ends_request first)
    cases failed

theorem smooth_check_fails {condition : Bool} {message : String} {α : Type} {f : Unit → Task α}
    {result : Except PyErr α} (fails : condition = false)
    (ends : Ends (smooth host links) (check condition message >>= f) d result d') :
    (∃ e, result = .error e) ∧ d' = d := by
  have refused : (check condition message).answered (look host links d) =
      .error (.value message) := by
    rw [answered_check, fails]
    rfl
  have uses : (check condition message).Uses fun q => q.isLook = true := uses_ofExcept _
  obtain ⟨u, t, first, -⟩ | ⟨e, failed, first⟩ := ends_bind ends
  · obtain ⟨-, done⟩ := smooth_answered uses first
    cases done.trans refused
  · obtain ⟨rfl, -⟩ := smooth_answered uses first
    exact ⟨⟨e, failed⟩, rfl⟩

theorem smooth_calm {q : Request} {r : Except PyErr q.Answer}
    (served : smooth host links d q r d') : calm host links d q r d' := by
  obtain ⟨choice, done, -, same⟩ := served
  exact ⟨choice, done, same⟩

theorem assign_ne_nil {κ ν : Type} [DecidableEq κ] (table : List (κ × ν)) (key : κ) (value : ν) :
    assign table key value ≠ [] := by
  intro empty
  have found : (assign table key value).lookup key = some value := lookup_assign_self ..
  rw [empty] at found
  cases found

theorem files_makeDirectories (files : d.files ≠ []) (path : Path) :
    (d.makeDirectories path).files ≠ [] := by
  unfold Disk.makeDirectories
  induction path.inits generalizing d with
  | nil => exact files
  | cons p rest ih =>
      rw [List.foldl_cons]
      split
      · exact ih files
      · exact ih (assign_ne_nil _ _ _)

/-- The directory of the bundle is made with those above it. -/
theorem files_bundle (d : Disk) : (d.makeDirectories bundleTarget).files ≠ [] := by
  by_cases none : d.files = []
  · have made : d.makeDirectories bundleTarget =
        (d.put [".agents"] .directory).makeDirectories bundleTarget := by
      simp [Disk.makeDirectories, bundleTarget, none, Disk.put, assign]
    rw [made]
    exact files_makeDirectories (assign_ne_nil _ _ _) _
  · exact files_makeDirectories none _

/-- No request takes the last file away. -/
theorem Request.perform_files {q : Request} {r : Except PyErr q.Answer} {choice : Choice}
    (done : q.perform host d choice = some (r, d')) (files : d.files ≠ []) : d'.files ≠ [] := by
  unfold Request.perform at done
  split at done
  all_goals repeat' split at done
  all_goals cases done
  all_goals first
    | exact files
    | exact files_makeDirectories files _
    | exact assign_ne_nil _ _ _
    | exact List.append_ne_nil_of_right_ne_nil _ (List.cons_ne_nil _ _)

/-- The copy of the bundle does not begin, or the directories are made. -/
theorem Request.perform_copyBundle {target : Path} {r : Except PyErr Unit} {choice : Choice}
    (done : Request.perform host d (.copyBundle target) choice = some (r, d')) :
    (∃ message, choice = .refuse message ∧ d' = d) ∨
      d' = d.makeDirectories target ∧ ∀ message, choice ≠ .refuse message := by
  cases choice with
  | refuse message =>
      cases done
      exact .inl ⟨message, rfl, rfl⟩
  | proceed | cut =>
      cases done
      refine .inr ⟨rfl, ?_⟩
      rintro _ ⟨⟩
  | _ => cases done

theorem Disk.isVacant_of_files (files : d.files ≠ []) : d.isVacant = false := by
  simp [Disk.isVacant, files]

end Requests

section Copies

/-- The reference is that of a copied input whose number is not below the given one. -/
def Copied (i : Nat) (ref : Ref) : Prop :=
  ∃ j source, i ≤ j ∧ '/' ∉ source.name.text.toList ∧ parts ref.path = parts (inputName j source)

/-- The inputs are copied before the snapshots are taken, so none of them was empty. -/
theorem copyInputs_filled {sources : List Source} {i : Nat} {refs : List Ref}
    (clear : d.Clear) (plain : ∀ source ∈ sources, '/' ∉ source.name.text.toList)
    (ends : Ends (smooth host links) (copyInputs host i sources) d (.ok refs) d') :
    ∀ source ∈ sources, source.content ≠ some [] := by
  induction sources generalizing i d d' refs with
  | nil => rintro _ ⟨⟩
  | cons source rest ih =>
      obtain ⟨_, t, copying, r₁⟩ := ends_bind_ok ends
      obtain ⟨ref, u, snapping, r₂⟩ := ends_bind_ok r₁
      obtain ⟨others, v, following, -⟩ := ends_bind_ok r₂
      obtain ⟨grown, snapped⟩ := snapshot_ends (snapping.mono fun _ _ _ _ => smooth_calm)
      cases there : source.content with
      | none =>
          have absent : Request.perform host d (.copyIn source (parts (inputName i source)))
              .proceed = some (.error missing, d) := by
            simp only [Request.perform, there]
          obtain ⟨⟨⟩, -⟩ := smooth_setup rfl absent (ends_request copying)
      | some content =>
          have put : Request.perform host d (.copyIn source (parts (inputName i source)))
              .proceed = some (.ok (), d.put (parts (inputName i source)) (.file content)) := by
            simp only [Request.perform, there]
          obtain ⟨-, rfl⟩ := smooth_setup rfl put (ends_request copying)
          intro other mem
          obtain rfl | mem := List.mem_cons.mp mem
          · rintro empty
            apply snapped.nonempty rfl
            rw [clear.content_put_self, ← there, empty]
          · have clear' : (d.put (parts (inputName i source)) (.file content)).Clear :=
              clear.put _ (by rintro ⟨⟩)
            exact ih (clear'.alike grown.alike) (fun s mem => plain s (List.mem_cons_of_mem _ mem))
              following other mem

/-- If nothing fails, an input that is not empty is copied and its reference is intact; references
to other paths stay intact, and the next inputs follow. -/
theorem copyInput_smooth {source : Source} {rest : List Source} {i : Nat} {content : Content}
    {result : Except PyErr (List Ref)} (clear : d.Clear) (right : d.Right host)
    (named : '/' ∉ source.name.text.toList) (there : source.content = some content)
    (some_ : content ≠ [])
    (ends : Ends (smooth host links) (copyInputs host i (source :: rest)) d result d') :
    ∃ ref t, t.Clear ∧ t.Right host ∧ t.Intact host ref ∧
      parts ref.path = parts (inputName i source) ∧
      (∀ other, d.Intact host other → parts other.path ≠ parts (inputName i source) →
        t.Intact host other) ∧
      Ends (smooth host links)
        (copyInputs host (i + 1) rest >>= fun refs => pure (ref :: refs)) t result d' := by
  have put : Request.perform host d (.copyIn source (parts (inputName i source)))
      .proceed = some (.ok (), d.put (parts (inputName i source)) (.file content)) := by
    simp only [Request.perform, there]
  replace ends := smooth_setup_bind rfl put ends
  have clear' : (d.put (parts (inputName i source)) (.file content)).Clear :=
    clear.put _ (by rintro ⟨⟩)
  have right' : (d.put (parts (inputName i source)) (.file content)).Right host := right
  have succeeds : ∀ result u, Ends (smooth host links)
      (snapshot host (inputName i source) false true) _ result u → _ := fun result u ends =>
    snapshot_smooth right' (clear'.located (admitted_inputName named))
      (clear.content_put_self _ content) (fun _ => some_) ends
  obtain ⟨ref, u, snapping, following⟩ | ⟨e, -, snapping⟩ := ends_bind ends
  · obtain ⟨_, -, -, alike, right''⟩ := succeeds _ _ snapping
    obtain ⟨grown, snapped⟩ := snapshot_ends (snapping.mono fun _ _ _ _ => smooth_calm)
    refine ⟨ref, u, clear'.alike alike, right'', snapped.intact alike, ?_, ?_, following⟩
    · rw [snapped.path, parts_pathText_parts (admitted_inputName named).nonempty]
    · intro other intact apart
      exact (clear.intact_put intact apart content).keep alike grown.blobs
  · obtain ⟨_, ⟨⟩, -⟩ := succeeds _ _ snapping

/-- If nothing fails, inputs that are not empty are copied, and their references are intact. -/
theorem copyInputs_smooth {sources : List Source} {i : Nat} {result : Except PyErr (List Ref)}
    (clear : d.Clear) (right : d.Right host)
    (plain : ∀ source ∈ sources, '/' ∉ source.name.text.toList)
    (filled : ∀ source ∈ sources, ∃ content, source.content = some content ∧ content ≠ [])
    (ends : Ends (smooth host links) (copyInputs host i sources) d result d') :
    ∃ refs, result = .ok refs ∧ d'.Clear ∧ (∀ ref ∈ refs, d'.Intact host ref ∧ Copied i ref) ∧
      ∀ ref, d.Intact host ref → (∀ j source, i ≤ j → '/' ∉ source.name.text.toList →
        parts ref.path ≠ parts (inputName j source)) → d'.Intact host ref := by
  induction sources generalizing i d d' result with
  | nil =>
      cases ends with
      | ret => exact ⟨[], rfl, clear, (by rintro _ ⟨⟩), fun ref intact _ => intact⟩
  | cons source rest ih =>
      obtain ⟨content, there, some_⟩ := filled source List.mem_cons_self
      have named := plain source List.mem_cons_self
      obtain ⟨ref, t, clear', right', intact, path, kept, following⟩ :=
        copyInput_smooth clear right named there some_ ends
      have rounds : ∀ result v, Ends (smooth host links) (copyInputs host (i + 1) rest) t
          result v → _ := fun result v ends =>
        ih clear' right' (fun s mem => plain s (List.mem_cons_of_mem _ mem))
          (fun s mem => filled s (List.mem_cons_of_mem _ mem)) ends
      obtain ⟨refs, v, following, last⟩ | ⟨e, -, following⟩ := ends_bind following
      · obtain ⟨_, ⟨⟩, clear'', each, kept'⟩ := rounds _ _ following
        obtain ⟨rfl, rfl⟩ : result = .ok (ref :: refs) ∧ d' = v := by
          cases last with
          | ret => exact ⟨rfl, rfl⟩
        refine ⟨_, rfl, clear'', ?_, ?_⟩
        · intro other mem
          obtain rfl | mem := List.mem_cons.mp mem
          · refine ⟨kept' _ intact fun j s above plain' => ?_, i, source, le_refl i, named, path⟩
            rw [path]
            exact parts_inputName_ne (by omega) named plain'
          · obtain ⟨intact', j, s, above, rest_⟩ := each other mem
            exact ⟨intact', j, s, by omega, rest_⟩
        · intro other intact' apart
          exact kept' other (kept other intact' (apart i source (le_refl i) named))
            fun j s above => apart j s (by omega)
      · obtain ⟨_, ⟨⟩, -⟩ := rounds _ _ following

end Copies

section Fresh

/-- The project is as `init` should leave it: `status` reports no integrity issues, no
unresolved executions, and `understand` as the next stage. -/
structure Fresh (host : Host) (links : Path → Alias) (d : Disk) : Prop where
  reports : ∃ report, Ends (smooth host links) (main host .status) d (.ok (.report report)) d
  clean : ∀ result d', Ends (smooth host links) (main host .status) d result d' →
    ∃ report, result = .ok (.report report) ∧ report.integrityIssues = [] ∧
      report.unresolvedExecutions = [] ∧ report.next.map (·.id) = some .understand

theorem fresh_of_intact {state : State} (saved : d.state = some state) (clear : d.Clear)
    (intact : ∀ ref ∈ state.references, d.Intact host ref) (none : state.stages = []) :
    Fresh host links d := by
  have next : state.current.map (·.id) = some .understand := by
    obtain ⟨format, _, _, _, pdf, _, _, _, stages, _⟩ := state
    obtain rfl : stages = [] := none
    cases format <;> cases pdf <;> rfl
  have runs : (inspect host false state).answered (look host links d) = .ok (.report
      { title := state.title, revision := state.revision, kind := state.kind, next := state.current,
        stages := [], integrityIssues := [], unresolvedExecutions := [],
        runsRemaining := (state.maxRuns : Int) - 0, complete := state.current.isNone }) := by
    have count : (ask .countReceipts).answered (look host links d) = .ok d.receipts.length :=
      answered_request (A := Request.Answer) Request.countReceipts
    unfold inspect pending
    simp only [answered_bind, problems_answered intact, answered_loadReceipts, answered_pure,
      answered_check, bind_eq_ok, Except.ok.injEq, exists_eq_left', count, clear.receipts, none]
    exact ⟨(), by simp, by simp⟩
  have uses : (inspect host false state).Uses fun q => q.isLook = true := by
    refine uses_bind (uses_problems state) fun _ => uses_bind uses_pending fun _ => ?_
    exact uses_bind (uses_request rfl) fun _ => uses_bind (uses_ofExcept _) fun _ => uses_pure _
  have same : ∀ result d', Ends (smooth host links) (main host .status) d result d' ↔
      Ends (smooth host links) (inspect host false state) d result d' := fun result d' =>
    smooth_main_iff.trans (smooth_locked_iff saved ⟨clear.isLinked _, clear.isLinked _⟩)
  have run : Ends (smooth host links) (inspect host false state) d
      ((inspect host false state).answered (look host links d)) d := smooth_runs uses
  rw [runs] at run
  refine ⟨⟨_, (same _ _).mpr run⟩, fun result d' ends => ?_⟩
  obtain ⟨-, done⟩ := smooth_answered uses ((same _ _).mp ends)
  exact ⟨_, done.trans runs, rfl, rfl, next⟩

end Fresh

section Watched

/-- A directory with a note of the first request that was refused or cut short, and how. -/
structure Watch where
  disk : Disk
  failed : Option (Request × Choice)

/-- The service of an undisturbed directory, with that note. -/
def watched (host : Host) (links : Path → Alias) (w : Watch) (q : Request)
    (r : Except PyErr q.Answer) (w' : Watch) : Prop :=
  ∃ choice, q.perform host w.disk choice = some (r, w'.disk) ∧
    (∀ path reading, q = .resolve path → choice = .resolution reading →
      reading = (links path).resolution) ∧
    (choice.Lets q ∧ w'.failed = w.failed ∨
      ¬ choice.Lets q ∧ w'.failed = some (w.failed.getD (q, choice)))

variable {w w' : Watch} {α : Type}

/-- What is refused or cut short raises an exception. -/
theorem Request.perform_fails {q : Request} {r : Except PyErr q.Answer} {choice : Choice}
    (done : q.perform host d choice = some (r, d')) (fails : ¬ choice.Lets q) :
    ∃ e, r = .error e := by
  cases choice with
  | refuse message =>
      cases q <;> cases done <;> exact ⟨_, rfl⟩
  | cut written =>
      cases q with
      | copyBundle | copyIn | copyBlob =>
          cases done
          exact ⟨_, rfl⟩
      | copyOut =>
          simp only [Request.perform] at done
          split at done <;> cases done <;> exact ⟨_, rfl⟩
      | _ => cases done
  | flag reading =>
      cases q with
      | lock =>
          cases done
          exact ⟨_, rfl⟩
      | print => cases done
      | _ => exact absurd (lets_other rfl rfl) fails
  | text message =>
      cases q with
      | print =>
          cases done
          exact ⟨_, rfl⟩
      | lock => cases done
      | _ => exact absurd (lets_other rfl rfl) fails
  | proceed => exact absurd (lets_proceed q) fails
  | _ =>
      cases q with
      | lock | print => cases done
      | _ => exact absurd (lets_other rfl rfl) fails

/-- Without a note, nothing has failed. -/
theorem watched_smooth {x : Task α} {result : Except PyErr α}
    (ends : Ends (watched host links) x w result w') (none : w'.failed = none) :
    w.failed = .none ∧ Ends (smooth host links) x w.disk result w'.disk := by
  induction ends with
  | ret a s => exact ⟨none, .ret a _⟩
  | raise e s => exact ⟨none, .raise e _⟩
  | ask served _ ih =>
      obtain ⟨clean, rest⟩ := ih none
      obtain ⟨choice, done, same, ⟨lets, kept⟩ | ⟨-, noted⟩⟩ := served
      · exact ⟨kept.symm.trans clean, .ask ⟨choice, done, lets, same⟩ rest⟩
      · cases noted.symm.trans clean

theorem smooth_watched {x : Task α} {result : Except PyErr α}
    (ends : Ends (smooth host links) x d result d') (note : Option (Request × Choice)) :
    Ends (watched host links) x ⟨d, note⟩ result ⟨d', note⟩ := by
  induction ends with
  | ret a s => exact .ret a _
  | raise e s => exact .raise e _
  | ask served _ ih =>
      obtain ⟨choice, done, lets, same⟩ := served
      exact .ask (t := ⟨_, note⟩) ⟨choice, done, same, .inl ⟨lets, rfl⟩⟩ ih

variable {f : Request × Choice}

/-- A request is the first that fails, or it is carried out. -/
theorem watched_ask {q : Request} {g : q.Answer → Task α} {result : Except PyErr α}
    (ends : Ends (watched host links) (ask q >>= g) w result w') (clean : w.failed = none)
    (failed : w'.failed = some f) :
    (∃ choice e, f = (q, choice) ∧ q.perform host w.disk choice = some (.error e, w'.disk)) ∨
    ∃ choice a t, t.failed = none ∧ choice.Lets q ∧
      q.perform host w.disk choice = some (.ok a, t.disk) ∧
      Ends (watched host links) (g a) t result w' := by
  obtain ⟨a, t, first, rest⟩ | ⟨e, -, first⟩ := Dialogue.ends_bind ends
  · obtain ⟨choice, done, -, ⟨lets, kept⟩ | ⟨fails, -⟩⟩ := ends_request first
    · exact .inr ⟨choice, a, t, kept.trans clean, lets, done, rest⟩
    · obtain ⟨_, ⟨⟩⟩ := Request.perform_fails done fails
  · obtain ⟨choice, done, -, ⟨-, kept⟩ | ⟨-, noted⟩⟩ := ends_request first
    · cases (kept.trans clean).symm.trans failed
    · rw [clean] at noted
      exact .inl ⟨choice, e, (Option.some.inj (noted.symm.trans failed)).symm, done⟩

/-- A check asks nothing, so it is not what failed. -/
theorem watched_check {condition : Bool} {message : String} {g : Unit → Task α}
    {result : Except PyErr α}
    (ends : Ends (watched host links) (check condition message >>= g) w result w')
    (clean : w.failed = none) (failed : w'.failed = some f) :
    Ends (watched host links) (g ()) w result w' := by
  obtain ⟨_, t, first, rest⟩ | ⟨e, -, first⟩ := Dialogue.ends_bind ends
  · obtain ⟨-, rfl⟩ := ends_ofExcept first
    exact rest
  · obtain ⟨-, rfl⟩ := ends_ofExcept first
    cases clean.symm.trans failed

/-- A task that catches nothing stops at the first failure, which is one of a request it asks. -/
theorem Straight.stops {allowed : Request → Bool} {x : Task α} (h : Straight allowed x)
    {result : Except PyErr α} (ends : Ends (watched host links) x w result w')
    (clean : w.failed = none) (failed : w'.failed = some f) :
    (∃ e, result = .error e) ∧ allowed f.1 = true := by
  induction h generalizing w w' f with
  | pure a =>
      cases ends with
      | ret => cases clean.symm.trans failed
  | eval y =>
      obtain ⟨-, rfl⟩ := ends_ofExcept ends
      cases clean.symm.trans failed
  | ask permitted =>
      obtain ⟨choice, done, -, ⟨-, kept⟩ | ⟨fails, noted⟩⟩ := ends_request ends
      · cases (kept.trans clean).symm.trans failed
      · refine ⟨Request.perform_fails done fails, ?_⟩
        rw [noted, clean] at failed
        obtain rfl := Option.some.inj failed
        exact permitted
  | bind _ _ hx hf =>
      obtain ⟨b, v, first, rest⟩ | ⟨e, error, first⟩ := Dialogue.ends_bind ends
      · cases note : v.failed with
        | none => exact hf b rest note failed
        | some _ =>
            obtain ⟨⟨_, ⟨⟩⟩, -⟩ := hx first clean note
      · exact ⟨⟨e, error⟩, (hx first clean failed).2⟩

end Watched

section Creation

/-- All or nothing: the project is created and in order, or the directory is still vacant. -/
def AllOrNothing (host : Host) (links : Path → Alias) (result : Except PyErr Output) (d : Disk) :
    Prop :=
  (∃ out, result = .ok out) ∧ Fresh host links d ∨ (∃ e, result = .error e) ∧ d.isVacant = true

/-- Some file is missing or the budget is not positive, which `init` finds out before it writes;
or no file is empty, and `state.json` can be written with their names and the title. -/
def InitArgs.Harmless (args : InitArgs) : Prop :=
  (∃ source ∈ args.problem :: args.data, source.content = none) ∨ args.maxRuns ≤ 0 ∨
    (∀ source ∈ args.problem :: args.data, source.content ≠ some []) ∧ args.isEncodable = true

/-- The failure comes before anything is written: the directory cannot be looked at, or the copy
of the bundle cannot begin. -/
inductive BeforeWriting : Request × Choice → Prop
  | look (message : String) : BeforeWriting (.isVacant, .refuse message)
  | bundle (message : String) : BeforeWriting (.copyBundle bundleTarget, .refuse message)

variable {args : InitArgs} {result : Except PyErr Output}

/-- The requests that `init` asks when the bundle is copied. -/
def Request.isLater : Request → Bool
  | .isVacant | .copyBundle _ => false
  | _ => true

theorem straight_snapshot (name : String) (internal nonempty : Bool) :
    Straight Request.isLater (snapshot host name internal nonempty) := by
  have views : ∀ {α : Type} {x : Task α}, Views x → Straight Request.isLater x := by
    refine fun h => h.mono fun q view => ?_
    cases q <;> first | rfl | cases view
  refine .bind (views (views_localPath _ _)) fun p => .bind (.ask rfl) fun _ => ?_
  refine .bind (.check _ _) fun _ => .bind (views (views_isAcceptable nonempty p)) fun _ => ?_
  refine .bind (.check _ _) fun _ => .bind (views (views_digest host p)) fun sha => ?_
  refine .bind (.bind (.ask rfl) fun _ => .ite (.pure _) (.ask rfl)) fun _ => ?_
  refine .bind (.bind (.ask rfl) fun _ => .pure _) fun _ => .bind (.check _ _) fun _ => ?_
  exact .bind (.ask rfl) fun _ => .pure _

theorem straight_copyInputs (i : Nat) (sources : List Source) :
    Straight Request.isLater (copyInputs host i sources) := by
  induction sources generalizing i with
  | nil => exact .pure _
  | cons source rest ih =>
      exact .bind (.ask rfl) fun _ => .bind (straight_snapshot _ _ _) fun _ => .bind (ih _) fun _ =>
        .pure _

/-- What is left of `init` once the directory has been prepared. -/
def initRest (host : Host) (args : InitArgs) : Task Output := do
  let refs ← copyInputs host 0 (args.problem :: args.data)
  ask (.writeText ["AGENTS.md"] agentsText)
  let time ← ask .now
  check args.isEncodable "'utf-8' codec can't encode character: surrogates not allowed"
  ask (.saveState
    { format := args.workflowVersion, title := (title args).text, createdAt := time,
      kind := args.kind, requirePdf := args.pdf, maxRuns := args.maxRuns.toNat, revision := 1,
      inputs := refs, stages := [], history := [] })
  return .initialized .understand

/-- What is left of the command once the bundle has been copied. -/
def initFilling (host : Host) (args : InitArgs) : Task Output := do
  ask (.makeDirectory ["inputs"])
  ask .prepare
  let output ← initRest host args
  shown output

theorem straight_initFilling (args : InitArgs) :
    Straight Request.isLater (initFilling host args) := by
  refine .bind (.ask rfl) fun _ => .bind (.ask rfl) fun _ => .bind ?_ fun output => ?_
  · refine .bind (straight_copyInputs 0 _) fun _ => .bind (.ask rfl) fun _ => ?_
    exact .bind (.ask rfl) fun _ => .bind (.check _ _) fun _ => .bind (.ask rfl) fun _ => .pure _
  · exact .bind (.ask rfl) fun _ => .pure _

/-- The command before and after the copy of the bundle. -/
theorem main_init (args : InitArgs) :
    main host (.init args) = (do
      check ((args.problem :: args.data).all (·.content.isSome))
        "Problem/data must be existing files."
      check (decide (0 < args.maxRuns)) "--max-runs must be positive."
      let vacant ← ask .isVacant
      check vacant "init requires a new or empty project directory."
      ask (.copyBundle bundleTarget)
      initFilling host args) := by
  simp only [main, Workflow.result, init, initFilling, initRest, bind_assoc]

theorem straight_main (args : InitArgs) : Straight (fun _ => true) (main host (.init args)) := by
  rw [main_init]
  refine .bind (.check _ _) fun _ => .bind (.check _ _) fun _ => .bind (.ask rfl) fun _ => ?_
  refine .bind (.check _ _) fun _ => .bind (.ask rfl) fun _ => ?_
  exact (straight_initFilling args).mono fun _ _ => rfl

/-- The directory is vacant after the first failure exactly if that came before any writing. -/
theorem vacant_iff_beforeWriting {w : Watch} {f : Request × Choice} (vacant : d.isVacant = true)
    (ends : Ends (watched host links) (main host (.init args)) ⟨d, none⟩ result w)
    (failed : w.failed = some f) : w.disk.isVacant = true ↔ BeforeWriting f := by
  rw [main_init] at ends
  replace ends := watched_check (watched_check ends rfl failed) rfl failed
  obtain ⟨choice, e, rfl, done⟩ | ⟨choice, a, t, clean, -, done, ends⟩ :=
    watched_ask ends rfl failed
  · cases choice <;> cases done
    exact iff_of_true vacant (.look _)
  · have same : t.disk = d := by
      cases choice <;> cases done
      rfl
    replace ends := watched_check ends clean failed
    obtain ⟨choice, e, rfl, done⟩ | ⟨choice, a, u, clean, -, done, ends⟩ :=
      watched_ask ends clean failed
    · obtain ⟨message, rfl, kept⟩ | ⟨made, other⟩ := Request.perform_copyBundle done
      · exact iff_of_true (kept.trans same ▸ vacant) (.bundle message)
      · refine iff_of_false ?_ ?_
        · rw [made, Disk.isVacant_of_files (files_bundle _)]
          simp
        · intro before
          cases before with
          | bundle message => exact other message rfl
    · have filled : u.disk.files ≠ [] := by
        obtain ⟨message, rfl, -⟩ | ⟨made, -⟩ := Request.perform_copyBundle done
        · cases done
        · rw [made]
          exact files_bundle _
      have files : w.disk.files ≠ [] := by
        refine ends.keeps (I := fun w : Watch => w.disk.files ≠ []) ?_ filled
        rintro s q r t ⟨choice, done, -⟩ files
        exact Request.perform_files done files
      have later := ((straight_initFilling args).stops ends clean failed).2
      refine iff_of_false (by rw [Disk.isVacant_of_files files]; simp) fun before => ?_
      cases before with
      | look | bundle => cases later

theorem initRest_smooth (clear : d.Clear) (right : d.Right host)
    (plain : ∀ source ∈ args.problem :: args.data, '/' ∉ source.name.text.toList)
    (filled : ∀ source ∈ args.problem :: args.data, ∃ content, source.content = some content ∧
      content ≠ [])
    (encodable : args.isEncodable = true)
    (ends : Ends (smooth host links) (initRest host args) d result d') :
    (∃ out, result = .ok out) ∧ Fresh host links d' := by
  obtain ⟨refs, t, copying, r₁⟩ | ⟨e, -, copying⟩ := ends_bind ends
  · obtain ⟨_, ⟨⟩, clear', each, -⟩ := copyInputs_smooth clear right plain filled copying
    replace r₁ := smooth_setup_bind (q := .writeText _ _) rfl rfl r₁
    obtain ⟨time, r₂⟩ := smooth_now_iff.mp r₁
    replace r₂ := smooth_check encodable r₂
    replace r₂ := smooth_setup_bind (q := .saveState _) rfl rfl r₂
    cases r₂ with
    | ret =>
        have clear'' : (t.put ["AGENTS.md"] (.file agentsText.toUTF8.toList)).Clear :=
          clear'.put _ nofun
        refine ⟨⟨_, rfl⟩, fresh_of_intact rfl ⟨clear''.receipts, clear''.plain⟩ ?_ rfl⟩
        intro ref mem
        obtain ⟨intact, j, source, -, plain', same⟩ := each ref (by
          simpa [State.references] using mem)
        have other : parts ref.path ≠ ["AGENTS.md"] := by
          rw [same, parts_inputName plain']
          exact fun equal => absurd (List.cons.inj equal).1 (by decide)
        exact (clear'.intact_put intact other _).keep ⟨rfl, rfl⟩ fun _ _ h => h
  · obtain ⟨_, ⟨⟩, -⟩ := copyInputs_smooth clear right plain filled copying

/-- If the rest succeeds, no input was empty, and the state could be encoded. -/
theorem initRest_harmless {out : Output} (clear : d.Clear)
    (plain : ∀ source ∈ args.problem :: args.data, '/' ∉ source.name.text.toList)
    (ends : Ends (smooth host links) (initRest host args) d (.ok out) d') :
    (∀ source ∈ args.problem :: args.data, source.content ≠ some []) ∧
      args.isEncodable = true := by
  obtain ⟨refs, _, copying, r₁⟩ := ends_bind_ok ends
  obtain ⟨_, _, -, r₂⟩ := ends_bind_ok r₁
  obtain ⟨_, _, -, r₃⟩ := ends_bind_ok r₂
  refine ⟨copyInputs_filled clear plain copying, ?_⟩
  by_contra unfit
  rw [Bool.not_eq_true] at unfit
  obtain ⟨⟨_, ⟨⟩⟩, -⟩ := smooth_check_fails unfit r₃

/-- The directories are made in a vacant directory; the inputs are next. -/
theorem prepares (vacant : d.isVacant = true)
    (ends : Ends (smooth host links)
      (ask (.copyBundle bundleTarget) >>= fun _ => initFilling host args) d result d') :
    ∃ t, t.Clear ∧ t.Right host ∧ t.files ≠ [] ∧
      Ends (smooth host links) (initRest host args) t result d' := by
  simp only [Disk.isVacant, Bool.and_eq_true, List.isEmpty_iff] at vacant
  obtain ⟨⟨⟨⟨-, receipts⟩, blobs⟩, -⟩, files⟩ := vacant
  have clear : d.Clear := by
    refine ⟨receipts, ?_⟩
    rw [files]
    intro e listed
    cases listed
  have directories := (clear.makeDirectories bundleTarget).makeDirectories ["inputs"]
  have none : ((d.makeDirectories bundleTarget).makeDirectories ["inputs"]).blobs = [] := by
    rw [blobs_makeDirectories, blobs_makeDirectories, blobs]
  have some_ := files_makeDirectories (files_bundle d) ["inputs"]
  replace ends := smooth_setup_bind (q := .copyBundle bundleTarget) rfl rfl ends
  replace ends := smooth_setup_bind (q := .makeDirectory ["inputs"]) rfl rfl ends
  generalize (d.makeDirectories bundleTarget).makeDirectories ["inputs"] = t
    at directories none some_ ends
  replace ends := smooth_setup_bind (q := .prepare) rfl rfl ends
  refine ⟨{ t with prepared := true }, ⟨directories.receipts, directories.plain⟩, ?_, some_,
    smooth_shown_iff.mp ends⟩
  intro e mem
  rw [none] at mem
  cases mem

/-- If nothing fails, `init` is all or nothing exactly for harmless arguments. -/
theorem init_smooth_iff (vacant : d.isVacant = true)
    (plain : ∀ source ∈ args.problem :: args.data, '/' ∉ source.name.text.toList)
    (ends : Ends (smooth host links) (main host (.init args)) d result d') :
    AllOrNothing host links result d' ↔ args.Harmless := by
  rw [main_init] at ends
  by_cases there : ((args.problem :: args.data).all (·.content.isSome)) = true
  · replace ends := smooth_check there ends
    by_cases positive : 0 < args.maxRuns
    · replace ends := smooth_check (decide_eq_true positive) ends
      replace ends := smooth_setup_bind (q := .isVacant) rfl rfl ends
      replace ends := smooth_check vacant ends
      obtain ⟨t, clear, right, files, rest⟩ := prepares vacant ends
      have occupied : d'.isVacant = false := by
        refine Disk.isVacant_of_files (rest.keeps (I := fun d => d.files ≠ []) ?_ files)
        rintro s q r t ⟨choice, done, -⟩ files
        exact Request.perform_files done files
      constructor
      · rintro (⟨⟨out, rfl⟩, -⟩ | ⟨-, empty⟩)
        · exact .inr (.inr (initRest_harmless clear plain rest))
        · cases occupied.symm.trans empty
      · rintro (⟨source, mem, absent⟩ | negative | ⟨filled, encodable⟩)
        · have some_ := List.all_eq_true.mp there source mem
          rw [absent] at some_
          cases some_
        · omega
        · refine .inl (initRest_smooth clear right plain (fun source mem => ?_) encodable rest)
          obtain ⟨content, found_⟩ :=
            Option.isSome_iff_exists.mp (List.all_eq_true.mp there source mem)
          exact ⟨content, found_, fun empty => filled source mem (found_.trans (by rw [empty]))⟩
    · obtain ⟨failed, rfl⟩ := smooth_check_fails (decide_eq_false positive) ends
      exact ⟨fun _ => .inr (.inl (by omega)), fun _ => .inr ⟨failed, vacant⟩⟩
  · rw [Bool.not_eq_true] at there
    obtain ⟨failed, rfl⟩ := smooth_check_fails there ends
    refine ⟨fun _ => .inl ?_, fun _ => .inr ⟨failed, vacant⟩⟩
    obtain ⟨source, mem, absent⟩ := List.all_eq_false.mp there
    exact ⟨source, mem, by simpa using absent⟩

/-- `init` is all or nothing exactly if no request fails and the arguments are harmless, or the
first request that fails comes before anything is written. -/
theorem init_atomic_iff {w : Watch} (vacant : d.isVacant = true)
    (plain : ∀ source ∈ args.problem :: args.data, '/' ∉ source.name.text.toList)
    (ends : Ends (watched host links) (main host (.init args)) ⟨d, none⟩ result w) :
    AllOrNothing host links result w.disk ↔
      w.failed = none ∧ args.Harmless ∨ ∃ f, w.failed = some f ∧ BeforeWriting f := by
  cases failed : w.failed with
  | none =>
      rw [init_smooth_iff vacant plain (watched_smooth ends failed).2]
      simp
  | some f =>
      obtain ⟨⟨e, rfl⟩, -⟩ := (straight_main args).stops ends rfl failed
      have first := vacant_iff_beforeWriting vacant ends failed
      simp [AllOrNothing, first]

end Creation

namespace Scenario

/-- The arguments for a problem with the given content. -/
def creating (content : Content) : InitArgs :=
  { initArgs .v2 with problem := ⟨"a.md", "a", some content⟩ }

/-- Nothing is refused while the project is created. -/
def plainly : Request → Choice
  | .now => .text "t"
  | _ => .proceed

theorem plainly_lets (q : Request) : (plainly q).Lets q := by
  cases q with
  | now => exact lets_other rfl rfl
  | _ => exact lets_proceed _

theorem plain_creating (content : Content) :
    ∀ source ∈ (creating content).problem :: (creating content).data,
      '/' ∉ source.name.text.toList := by
  intro source mem
  obtain rfl := List.mem_singleton.mp mem
  rw [creating, OsString.text_ofString]
  decide

theorem creates {content : Content} {result : Except PyErr Output} {d : Disk}
    (done : follow host plainly 100 Disk.empty (main host (.init (creating content))) =
      some (result, d)) :
    Ends (watched host fun _ => .inside) (main host (.init (creating content)))
      ⟨Disk.empty, none⟩ result ⟨d, none⟩ :=
  smooth_watched (follow_smooth _ (fun _ => rfl) plainly_lets done) none

end Scenario

/-- A problem that is there but empty makes `init` fail when it has copied everything. -/
theorem init_leaves_copies : ∃ args d e d', d.isVacant = true ∧
    (∀ source ∈ args.problem :: args.data, source.content.isSome = true ∧
      '/' ∉ source.name.text.toList) ∧ 0 < args.maxRuns ∧
    Ends (watched Scenario.host fun _ => .inside) (main Scenario.host (.init args)) ⟨d, none⟩
      (.error e) ⟨d', none⟩ ∧
    ¬ AllOrNothing Scenario.host (fun _ => .inside) (.error e) d' := by
  have done : ((follow Scenario.host Scenario.plainly 100 Disk.empty
      (main Scenario.host (.init (Scenario.creating [])))).any fun r =>
        !r.1.isOk && !r.2.isVacant) = true := by decide +kernel
  obtain ⟨⟨result, d'⟩, run, shape⟩ := (Option.any_eq_true _ _).mp done
  rw [Bool.and_eq_true, Bool.not_eq_true', Bool.not_eq_true'] at shape
  obtain ⟨failed, occupied⟩ := shape
  cases result with
  | ok out => cases failed
  | error e =>
      refine ⟨Scenario.creating [], Disk.empty, e, d', rfl, ?_, by decide, Scenario.creates run, ?_⟩
      · refine fun source mem => ⟨?_, Scenario.plain_creating [] source mem⟩
        obtain rfl := List.mem_singleton.mp mem
        rfl
      · rintro (⟨⟨_, ⟨⟩⟩, -⟩ | ⟨-, empty⟩)
        cases occupied.symm.trans empty

/-- A project is created from a problem that is not empty. -/
theorem init_atomic_created : ∃ out d',
    Ends (watched Scenario.host fun _ => .inside) (main Scenario.host
      (.init (Scenario.creating [1]))) ⟨Disk.empty, none⟩ (.ok out) ⟨d', none⟩ ∧
    AllOrNothing Scenario.host (fun _ => .inside) (.ok out) d' := by
  have done : ((follow Scenario.host Scenario.plainly 100 Disk.empty
      (main Scenario.host (.init (Scenario.creating [1])))).any fun r => r.1.isOk) = true := by
    decide +kernel
  obtain ⟨⟨result, d'⟩, run, shape⟩ := (Option.any_eq_true _ _).mp done
  obtain ⟨out, rfl⟩ := Except.isOk_iff.mp shape
  have ends := Scenario.creates run
  refine ⟨out, d', ends, (init_atomic_iff rfl (Scenario.plain_creating [1]) ends).mpr ?_⟩
  refine .inl ⟨rfl, .inr (.inr ⟨fun source mem => ?_, by decide +kernel⟩)⟩
  obtain rfl := List.mem_singleton.mp mem
  exact nofun

end Mathmodel.Workflow
