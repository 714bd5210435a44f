import Mathmodel.Workflow.Crash

/-!
# What the gates leave unreported

A gate that reads a document of the user checks some values for their type and takes
others as they come. The exception of a missing method is not among the four classes
that `main` reports, nor are those of a loop of symbolic links and of a document that
is nested too deeply. The predicates below list, stage by stage, the values at which
this happens, each behind what the gate has made sure of before.
-/

namespace Mathmodel.Workflow

open Dialogue
open Gate (Passes Crashes)
open Value (IsFieldless IsForeign Lacks)

variable {host : Host} {links : Path → Alias} {d : Disk} {paths paths' : List String}
variable {produced supplied : List (String × String)}

section Inspect

/-- A page as the gate has looked at it before the review. -/
structure PageShown (host : Host) (d : Disk) (page : Value) (path : String) (sha : Value) :
    Prop where
  fields : ∃ fields, page = .dict fields ∧ fields.lookup "path" = some (.str path) ∧
    fields.lookup "sha256" = some sha
  image : Matches host d path sha

/-- The image of a page runs into a loop, or its review has no fields. -/
inductive PageCrash (host : Host) (links : Path → Alias) (d : Disk) (pair : Value × Value) :
    Prop where
  | image {fields : List (String × Value)} {path : String} {sha : Value}
      (object : pair.1 = .dict fields) (named : fields.lookup "path" = some (.str path))
      (declared : fields.lookup "sha256" = some sha) (endless : Endless links d path)
  | review {path : String} {sha : Value} (shown : PageShown host d pair.1 path sha)
      (fieldless : pair.2.IsFieldless)

/-- The check of one page crashes at an image inside a loop or at a review without fields. -/
theorem crashes_pageGate {pair : Value × Value} :
    Crashes host links d (pageGate host pair) paths ↔ PageCrash host links d pair := by
  unfold pageGate
  simp only [crashes_eval_bind, crashes_file_bind, crashes_need, Value.raises_item,
    Value.raises_get, Value.item_eq_ok, Value.get_eq_ok, false_or, and_false, exists_false,
    or_false]
  constructor
  · rintro ⟨_, ⟨fields, object, named⟩, sha, ⟨fields', object', declared⟩, path, rfl, rest⟩
    obtain rfl := Value.dict.inj (object.symm.trans object')
    obtain endless | ⟨matched, rest⟩ := rest
    · exact .image object named declared endless
    · refine .review ⟨⟨fields, object, named, declared⟩, matched⟩ ?_
      obtain fieldless | ⟨_, -, _, -, fieldless | ⟨_, -, fieldless | ⟨_, -, fieldless⟩⟩⟩ := rest
      all_goals exact fieldless
  · rintro (⟨object, named, declared, endless⟩ | ⟨⟨⟨fields, object, named, declared⟩, matched⟩,
      fieldless⟩)
    · exact ⟨_, ⟨_, object, named⟩, _, ⟨_, object, declared⟩, _, rfl, .inl endless⟩
    · exact ⟨_, ⟨_, object, named⟩, _, ⟨_, object, declared⟩, _, rfl,
        .inr ⟨matched, .inl fieldless⟩⟩

/-- The check of one page passes exactly if the page and its review agree with the image. -/
theorem passes_pageGate_iff (pair : Value × Value) (paths : List String) :
    (∃ paths', Passes host links d (pageGate host pair) paths ⟨⟩ paths') ↔
      ∃ path sha, PagePasses host d pair.1 pair.2 path sha := by
  constructor
  · rintro ⟨_, passed⟩
    exact passes_pageGate passed
  · rintro ⟨path, sha, ⟨fields, object, named, declared, number, numbered, entry, object', same,
      reviewed, status, text, said, substantive⟩, matched⟩
    refine ⟨paths ++ [path], ?_⟩
    unfold pageGate
    simp only [passes_eval_bind, passes_file_bind, passes_need, Value.item_eq_ok, Value.get_eq_ok,
      Bool.and_eq_true, Value.beq_str, Value.isProse_eq_true]
    refine ⟨_, ⟨fields, object, named⟩, sha, ⟨fields, object, declared⟩, path, rfl, matched, _,
      ⟨entry, object', rfl⟩, number, ⟨fields, object, numbered⟩, _, ⟨entry, object', rfl⟩, _,
      ⟨entry, object', rfl⟩, _, ⟨entry, object', rfl⟩, ⟨⟨⟨same, reviewed⟩, ?_⟩, text, ?_,
      substantive⟩, rfl⟩
    · rw [status]
      rfl
    · rw [said]
      rfl

/-- The render manifest, as far as the gate has read it before the review. -/
structure RenderRead (host : Host) (d : Disk) (produced : List (String × String))
    (manifest pdf : List (String × Value)) (sha : Value) : Prop where
  recorded : ∃ s, produced.lookup "render-manifest.json" = some s ∧
    Matches host d "render-manifest.json" (.str s)
  contains : d.Contains host "render-manifest.json" (.dict manifest)
  hasPdf : manifest.lookup "pdf" = some (.dict pdf)
  declared : pdf.lookup "sha256" = some sha

/-- The render manifest that the review has to cover. -/
structure RenderPasses (host : Host) (d : Disk) (produced : List (String × String))
    (manifest : List (String × Value)) (sha : Value) (pages : List Value) : Prop where
  read : ∃ pdf, RenderRead host d produced manifest pdf sha ∧
    pdf.lookup "path" = some (.str "report.pdf")
  rendered : Matches host d "report.pdf" sha
  listed : manifest.lookup "pages" = some (.list pages)
  nonempty : pages ≠ []
  numbered : ∃ numbers, column "number" pages = .ok numbers ∧
    Value.beqItems numbers ((List.range pages.length).map fun i : Nat => .int (i + 1)) = true

/-- The review as it is before the pages are gone through. -/
structure ReviewRead (host : Host) (d : Disk) (sha : Value) (pages items : List Value) : Prop where
  current : ∃ review, d.Contains host "render-review.json" (.dict review) ∧
    review.lookup "status" = some (.str "pass") ∧
    ((review.lookup "pdf_sha256").getD .none).beq sha = true ∧
    ((review.lookup "pages").getD (.list [])).len = .ok pages.length ∧
    ((review.lookup "pages").getD (.list [])).iter = .ok items
  located : Located d "render-review.json" false

/-- The review cannot be loaded, or one of its pages crashes. -/
inductive ReviewCrash (host : Host) (links : Path → Alias) (d : Disk) (sha : Value)
    (pages : List Value) : Prop where
  | review (unloadable : Unloadable host links d "render-review.json")
  | page {items : List Value} (read : ReviewRead host d sha pages items)
      (crash : Until (fun pair => ∃ path sha, PagePasses host d pair.1 pair.2 path sha)
        (PageCrash host links d) (pages.zip items))

/-- The gate of the stage `inspect` crashes. -/
inductive InspectCrash (host : Host) (links : Path → Alias) (d : Disk)
    (produced : List (String × String)) : Prop where
  | recorded {s : String} (made : produced.lookup "render-manifest.json" = some s)
      (endless : Endless links d "render-manifest.json")
  | manifest {s : String} (made : produced.lookup "render-manifest.json" = some s)
      (unchanged : Matches host d "render-manifest.json" (.str s))
      (unloadable : Unloadable host links d "render-manifest.json")
  | pdf {manifest pdf : List (String × Value)} {sha : Value}
      (read : RenderRead host d produced manifest pdf sha) (endless : Endless links d "report.pdf")
  | reviewed {manifest : List (String × Value)} {sha : Value} {pages : List Value}
      (passes : RenderPasses host d produced manifest sha pages)
      (crash : ReviewCrash host links d sha pages)

/-- The gate of the inspection crashes exactly at the values listed in `InspectCrash`. -/
theorem crashes_inspectGate :
    Crashes host links d (inspectGate host produced) paths ↔
      InspectCrash host links d produced := by
  unfold inspectGate
  simp only [crashes_generated_bind, crashes_load_bind, crashes_eval_bind, crashes_need_bind,
    crashes_file_bind, crashes_forM passes_pageGate_iff (fun _ _ => crashes_pageGate),
    Value.raises_get, Value.raises_item, Value.raises_iter, Value.raises_len, raises_column,
    Value.not_isFieldless_dict, Value.get_eq_ok, Value.item_eq_ok, Value.dict.injEq,
    Value.str.injEq, exists_eq_left', exists_eq_left, false_or, Bool.and_eq_true, Value.beq_str,
    beq_iff_eq]
  constructor
  · rintro ⟨s, made,
      endless | ⟨unchanged, unloadable | ⟨manifest, ⟨located, contains⟩, _, hasPdf, sha,
      ⟨pdf, rfl, declared⟩, rest⟩⟩⟩
    · exact .recorded made endless
    · exact .manifest made unchanged unloadable
    · have read : RenderRead host d produced manifest pdf sha :=
        ⟨⟨s, made, unchanged⟩, contains, hasPdf, declared⟩
      obtain endless |
        ⟨rendered, _, ⟨_, ⟨⟩, path⟩, rfl, someList, pages', iterated, numbers, column_,
        numbered, rest⟩ := rest
      · exact .pdf read endless
      · obtain ⟨pages, listed, some_⟩ := Value.isNonemptyList_eq_true.mp someList
        rw [listed] at iterated
        obtain rfl := Except.ok.inj iterated
        rw [Value.getD_none_eq_list] at listed
        refine .reviewed ⟨⟨pdf, read, path⟩, rendered, listed, some_, numbers, column_, numbered⟩ ?_
        obtain unloadable |
          ⟨review, ⟨located', contains'⟩, ⟨status, current⟩, _, length, rfl, items,
          iterated, crash⟩ := rest
        · exact .review unloadable
        · rw [Value.getD_none_eq_str] at status
          exact .page ⟨⟨review, contains', status, current, length, iterated⟩, located'⟩ crash
  · rintro (⟨made, endless⟩ | ⟨made, unchanged, unloadable⟩ | ⟨read, endless⟩ | ⟨passes, crash⟩)
    · exact ⟨_, made, .inl endless⟩
    · exact ⟨_, made, .inr ⟨unchanged, .inl unloadable⟩⟩
    · obtain ⟨s, made, unchanged⟩ := read.recorded
      exact ⟨s, made, .inr
        ⟨unchanged, .inr ⟨_, ⟨unchanged.1.located, read.contains⟩, _, read.hasPdf,
        _, ⟨_, rfl, read.declared⟩, .inl endless⟩⟩⟩
    · obtain ⟨pdf, read, path⟩ := passes.read
      obtain ⟨s, made, unchanged⟩ := read.recorded
      obtain ⟨numbers, column_, numbered⟩ := passes.numbered
      have listed := Value.getD_none_eq_list.mpr passes.listed
      refine ⟨s, made, .inr
        ⟨unchanged, .inr ⟨_, ⟨unchanged.1.located, read.contains⟩, _, read.hasPdf,
        _, ⟨_, rfl, read.declared⟩, .inr ⟨passes.rendered, _, ⟨_, rfl, path⟩, rfl,
        Value.isNonemptyList_eq_true.mpr ⟨_, listed, passes.nonempty⟩, _,
        congrArg Value.iter listed, numbers, column_, numbered, ?_⟩⟩⟩⟩
      obtain unloadable |
          ⟨⟨⟨review, contains, status, current, length, iterated⟩, located⟩, crash⟩ :=
        crash
      · exact .inl unloadable
      · exact .inr ⟨review, ⟨located, contains⟩, ⟨Value.getD_none_eq_str.mpr status, current⟩, _,
          length, rfl, _, iterated, crash⟩

end Inspect

section Compile

/-- A source of the paper that passes. -/
def SourcePasses (host : Host) (d : Disk) (record : Record) (e : Value × Value) : Prop :=
  ∃ p, e.1 = .str p ∧ (frozenValue record p).beq e.2 = true ∧ Matches host d p e.2

/-- A command with its log. -/
def LogPasses (host : Host) (d : Disk) (entry : Value) : Prop :=
  ∃ fields log, entry = .dict fields ∧ fields.lookup "log" = some (.str log) ∧ Evident host d log

/-- A source of the compilation passes exactly if it is the file the report froze. -/
theorem passes_frozenSource_iff (record : Record) (e : Value × Value) (paths : List String) :
    (∃ paths', Passes host links d (frozenSource host (digests record.files) e) paths ⟨⟩ paths') ↔
      SourcePasses host d record e := by
  constructor
  · rintro ⟨_, passed⟩
    exact (passes_frozenSource.mp passed).1
  · exact fun passes => ⟨_, passes_frozenSource.mpr ⟨passes, rfl⟩⟩

theorem passes_commandLog_iff (entry : Value) (paths : List String) :
    (∃ paths', Passes host links d (do
        let log ← (liftM (eval (entry.item "log")) : Gate Value)
        let _ ← file host log .none
        pure ()) paths ⟨⟩ paths') ↔ LogPasses host d entry := by
  constructor
  · rintro ⟨_, passed⟩
    exact (passes_commandLog.mp passed).1
  · exact fun passes => ⟨_, passes_commandLog.mpr ⟨passes, rfl⟩⟩

/-- A source whose declared digest is the frozen one, but which runs into a loop. -/
def SourceCrash (links : Path → Alias) (d : Disk) (record : Record) (e : Value × Value) : Prop :=
  ∃ p, e.1 = .str p ∧ (frozenValue record p).beq e.2 = true ∧ Endless links d p

/-- A command whose log runs into a loop. -/
def LogCrash (links : Path → Alias) (d : Disk) (entry : Value) : Prop :=
  ∃ fields log, entry = .dict fields ∧ fields.lookup "log" = some (.str log) ∧ Endless links d log

/-- The check of a source crashes only at a name inside a loop. -/
theorem crashes_frozenSource (record : Record) (e : Value × Value) (paths : List String) :
    Crashes host links d (frozenSource host (digests record.files) e) paths ↔
      SourceCrash links d record e := by
  unfold frozenSource
  simp only [crashes_eval_bind, crashes_need_bind, crashes_file_bind, crashes_pure,
    Value.raises_lookupIn, false_or, and_false, or_false]
  constructor
  · rintro ⟨found_, looked, equal, p, text, endless⟩
    rw [text] at looked
    obtain rfl := Except.ok.inj looked
    exact ⟨p, text, equal, endless⟩
  · rintro ⟨p, text, equal, endless⟩
    refine ⟨(digests record.files).lookup p, ?_, equal, p, text, endless⟩
    rw [text]
    rfl

/-- The check of a command crashes only at a log inside a loop. -/
theorem crashes_commandLog (entry : Value) (paths : List String) :
    Crashes host links d (do
        let log ← (liftM (eval (entry.item "log")) : Gate Value)
        let _ ← file host log .none
        pure ()) paths ↔ LogCrash links d entry := by
  simp only [crashes_eval_bind, crashes_file_bind, crashes_pure, Value.raises_item,
    Value.item_eq_ok, false_or, and_false, or_false]
  constructor
  · rintro ⟨_, ⟨fields, rfl, listed⟩, log, rfl, endless⟩
    exact ⟨fields, log, rfl, listed, endless⟩
  · rintro ⟨fields, log, rfl, listed, endless⟩
    exact ⟨_, ⟨fields, rfl, listed⟩, log, rfl, endless⟩

/-- One of the files that the compile report names runs into a loop. -/
inductive NamedCrash (host : Host) (links : Path → Alias) (d : Disk) (record : Record)
    (report : List (String × Value)) (table : List (Value × Value)) (entries : List Value) :
    Prop where
  | source (crash : Until (SourcePasses host d record) (SourceCrash links d record) table)
  | log (sources : ∀ e ∈ table, SourcePasses host d record e)
      (crash : Until (LogPasses host d) (LogCrash links d) entries)
  | latexLog (sources : ∀ e ∈ table, SourcePasses host d record e)
      (logs : ∀ entry ∈ entries, LogPasses host d entry) {log : String}
      (named : report.lookup "latex_log" = some (.str log)) (endless : Endless links d log)

theorem crashes_named {record : Record} {report : List (String × Value)}
    {table : List (Value × Value)} {entries : List Value} (paths : List String) :
    Crashes host links d (do
        table.forM (frozenSource host (digests record.files))
        entries.forM fun command => do
          let log ← (liftM (eval (command.item "log")) : Gate Value)
          let _ ← file host log .none
        let log ← (liftM (eval ((Value.dict report).item "latex_log")) : Gate Value)
        let _ ← file host log .none) paths ↔
      NamedCrash host links d record report table entries := by
  have last : ∀ paths, Crashes host links d (do
      let log ← (liftM (eval ((Value.dict report).item "latex_log")) : Gate Value)
      let _ ← file host log .none
      pure ()) paths ↔
        ∃ log, report.lookup "latex_log" = some (.str log) ∧ Endless links d log := by
    intro paths
    simp only [crashes_eval_bind, crashes_file_bind, crashes_pure, Value.raises_item,
      Value.item_eq_ok, Value.dict.injEq, exists_eq_left', false_or, and_false, or_false]
    constructor
    · rintro ⟨_, named, log, rfl, endless⟩
      exact ⟨log, named, endless⟩
    · rintro ⟨log, named, endless⟩
      exact ⟨_, named, log, rfl, endless⟩
  rw [crashes_forM_bind (passes_frozenSource_iff record) (crashes_frozenSource record) fun _ _ =>
    crashes_forM_bind passes_commandLog_iff crashes_commandLog fun _ => last]
  constructor
  · rintro (crash | ⟨sources, crash | ⟨logs, log, named, endless⟩⟩)
    · exact .source crash
    · exact .log sources crash
    · exact .latexLog sources logs named endless
  · rintro (crash | ⟨sources, crash⟩ | ⟨sources, logs, named, endless⟩)
    · exact .inl crash
    · exact .inr ⟨sources, .inl crash⟩
    · exact .inr ⟨sources, .inr ⟨logs, _, named, endless⟩⟩

/-- The compile report, as far as the gate has read it before the manifest of the paper. -/
structure ReportRead (host : Host) (d : Disk) (produced : List (String × String))
    (report : List (String × Value)) (entries : List Value) : Prop where
  reported : ∃ s, produced.lookup "compile-report.json" = some s ∧
    Matches host d "compile-report.json" (.str s)
  printed : ∃ s, produced.lookup "report.pdf" = some s ∧ Matches host d "report.pdf" (.str s)
  contains : d.Contains host "compile-report.json" (.dict report)
  status : report.lookup "status" = some (.str "succeeded")
  errors : ((report.lookup "errors").getD .none).truthy = false
  pdf : ∃ pdf sha, report.lookup "pdf" = some (.dict pdf) ∧ pdf.lookup "sha256" = some sha ∧
    Matches host d "report.pdf" sha ∧ pdf.lookup "path" = some (.str "report.pdf")
  commands : report.lookup "commands" = some (.list entries)
  nonempty : entries ≠ []
  returned : ∀ entry ∈ entries, Returned entry

/-- The sources of the compile report are those of the manifest. -/
structure SourcesRead (host : Host) (d : Disk) (report : List (String × Value))
    (table : List (Value × Value)) : Prop where
  located : Located d "paper-manifest.json" false
  contains : ∃ paper v files, d.Contains host "paper-manifest.json" (.dict paper) ∧
    paper.lookup "files" = some v ∧ v.iter = .ok files ∧ allHashable files = .ok () ∧
    sameMembers (table.map (·.1)) files = true
  sources : ∃ v sources, report.lookup "sources" = some v ∧ v.iter = .ok sources ∧
    sourceDigests [] sources = .ok table

/-- The manifest of the paper cannot be loaded, or the files of the compile report crash. -/
inductive PaperedCrash (host : Host) (links : Path → Alias) (d : Disk) (record : Record)
    (report : List (String × Value)) (entries : List Value) : Prop where
  | paper (unloadable : Unloadable host links d "paper-manifest.json")
  | named {table : List (Value × Value)} (sources : SourcesRead host d report table)
      (crash : NamedCrash host links d record report table entries)

/-- The gate of the stage `compile` crashes. -/
inductive CompileCrash (host : Host) (links : Path → Alias) (d : Disk)
    (produced : List (String × String)) (registered : Option Record) : Prop where
  | reported {s : String} (made : produced.lookup "compile-report.json" = some s)
      (endless : Endless links d "compile-report.json")
  | printed {s t : String} (made : produced.lookup "compile-report.json" = some s)
      (unchanged : Matches host d "compile-report.json" (.str s))
      (made' : produced.lookup "report.pdf" = some t) (endless : Endless links d "report.pdf")
  | document {s t : String} (made : produced.lookup "compile-report.json" = some s)
      (unchanged : Matches host d "compile-report.json" (.str s))
      (made' : produced.lookup "report.pdf" = some t)
      (unchanged' : Matches host d "report.pdf" (.str t))
      (unloadable : Unloadable host links d "compile-report.json")
  | papered {report : List (String × Value)} {entries : List Value} {record : Record}
      (read : ReportRead host d produced report entries) (known : registered = some record)
      (crash : PaperedCrash host links d record report entries)

theorem registered_eq_ok {registered : Option Record} {record : Record} :
    (match registered with | some r => .ok r | none => .error (PyErr.key "report")) =
      Except.ok record ↔ registered = some record := by
  cases registered <;> simp

theorem raises_registered {registered : Option Record} :
    ¬ Raises (match registered with | some r => .ok r | none => .error (PyErr.key "report")) := by
  cases registered <;> simp [PyErr.isReported]

/-- The gate of the compilation crashes exactly at the values listed in `CompileCrash`. -/
theorem crashes_compileGate {registered : Option Record} :
    Crashes host links d (compileGate host produced registered) paths ↔
      CompileCrash host links d produced registered := by
  unfold compileGate
  simp only [crashes_generated_bind, crashes_load_bind, crashes_eval_bind, crashes_need_bind,
    crashes_file_bind, Value.raises_get, Value.raises_item, Value.raises_iter,
    raises_allReturned, raises_sourceDigests, raises_allHashable, Value.not_isFieldless_dict,
    Value.get_eq_ok, Value.item_eq_ok, Value.dict.injEq, Value.str.injEq, exists_eq_left',
    exists_eq_left, false_or, Value.beq_str, Bool.not_eq_true']
  constructor
  · rintro ⟨s, made, endless | ⟨unchanged, t, made', endless | ⟨unchanged', unloadable | ⟨report,
      ⟨-, contains⟩, status, errors, _, hasPdf, sha, ⟨pdf, rfl, declared⟩, rest⟩⟩⟩⟩
    · exact .reported made endless
    · exact .printed made unchanged made' endless
    · exact .document made unchanged made' unchanged' unloadable
    · obtain endless |
        ⟨rendered, _, ⟨_, ⟨⟩, path⟩, rfl, truthy, entries, iterated, _, returned, rfl,
        rest⟩ := rest
      · exact absurd endless unchanged'.1.located.not_endless
      · obtain ⟨commands, some_, returned⟩ :=
          commands_list.mp ⟨truthy, iterated, allReturned_eq_true.mp returned⟩
        rw [Value.getD_none_eq_str] at status
        rw [Value.getD_none_eq_list] at commands
        have read : ReportRead host d produced report entries :=
          ⟨⟨s, made, unchanged⟩, ⟨t, made', unchanged'⟩, contains, status, errors,
            ⟨pdf, sha, hasPdf, declared, rendered, path⟩, commands, some_, returned⟩
        obtain raises | ⟨record, known, rest⟩ := rest
        · exact absurd raises raises_registered
        · have known := registered_eq_ok.mp known
          obtain unloadable | ⟨paper, ⟨located, contains'⟩, v, hasSources, sources, listed, table,
            collected, w, hasFiles, files, listed', _, hashable, same, crash⟩ := rest
          · exact .papered read known (.paper unloadable)
          · exact .papered read known (.named ⟨located, ⟨paper, w, files, contains', hasFiles,
              listed', hashable, same⟩, v, sources, hasSources, listed, collected⟩
              ((crashes_named _).mp crash))
  · rintro (⟨made, endless⟩ | ⟨made, unchanged, made', endless⟩ |
      ⟨made, unchanged, made', unchanged', unloadable⟩ | ⟨read, known, crash⟩)
    · exact ⟨_, made, .inl endless⟩
    · exact ⟨_, made, .inr ⟨unchanged, _, made', .inl endless⟩⟩
    · exact ⟨_, made, .inr ⟨unchanged, _, made', .inr ⟨unchanged', .inl unloadable⟩⟩⟩
    · obtain ⟨s, made, unchanged⟩ := read.reported
      obtain ⟨t, made', unchanged'⟩ := read.printed
      obtain ⟨pdf, sha, hasPdf, declared, rendered, path⟩ := read.pdf
      obtain ⟨truthy, iterated, returned⟩ :=
        commands_list.mpr ⟨Value.getD_none_eq_list.mpr read.commands, read.nonempty, read.returned⟩
      refine ⟨s, made, .inr ⟨unchanged, t, made', .inr ⟨unchanged', .inr ⟨_,
        ⟨unchanged.1.located, read.contains⟩, Value.getD_none_eq_str.mpr read.status,
        read.errors, _,
        hasPdf, sha, ⟨pdf, rfl, declared⟩, .inr ⟨rendered, _, ⟨pdf, rfl, path⟩, rfl, truthy, _,
        iterated, true, allReturned_eq_true.mpr returned, rfl, .inr ⟨_,
        registered_eq_ok.mpr known, ?_⟩⟩⟩⟩⟩⟩
      obtain unloadable | ⟨⟨located, ⟨paper, w, files, contains, hasFiles, listed, hashable, same⟩,
        v, sources, hasSources, listed', collected⟩, crash⟩ := crash
      · exact .inl unloadable
      · exact .inr ⟨paper, ⟨located, contains⟩, v, hasSources, sources, listed', _, collected, w,
          hasFiles, files, listed, (), hashable, same, (crashes_named _).mpr crash⟩

end Compile

section Paper

/-- A source file of the paper, or what the gate takes for one. -/
def FilePasses (host : Host) (d : Disk) (v : Value) : Prop :=
  ∃ name, v = .str name ∧ Evident host d name

/-- A name that runs into a loop. -/
def FileCrash (links : Path → Alias) (d : Disk) (v : Value) : Prop :=
  ∃ name, v = .str name ∧ Endless links d name

theorem passes_source_iff (v : Value) (paths : List String) :
    (∃ paths', Passes host links d (do
        let _ ← file host v .none
        pure ()) paths ⟨⟩ paths') ↔ FilePasses host d v := by
  simp only [passes_file_bind, passes_pure, matches_none]
  constructor
  · rintro ⟨_, name, text, evident, -⟩
    exact ⟨name, text, evident⟩
  · rintro ⟨name, text, evident⟩
    exact ⟨_, name, text, evident, trivial, rfl⟩

theorem crashes_source (v : Value) (paths : List String) :
    Crashes host links d (do
        let _ ← file host v .none
        pure ()) paths ↔ FileCrash links d v := by
  simp only [crashes_file_bind, crashes_pure, and_false, or_false]
  exact Iff.rfl

/-- A claim of the paper with its evidence. -/
def ClaimPasses (host : Host) (d : Disk) (claim : Value) : Prop :=
  ∃ fields text name, claim = .dict fields ∧ fields.lookup "text" = some (.str text) ∧
    isSubstantive text = true ∧ fields.lookup "evidence" = some (.str name) ∧ Evident host d name

/-- A claim without fields, or with evidence that runs into a loop. -/
inductive ClaimCrash (links : Path → Alias) (d : Disk) (claim : Value) : Prop where
  | claim (fieldless : claim.IsFieldless)
  | evidence {fields : List (String × Value)} {text name : String} (object : claim = .dict fields)
      (said : fields.lookup "text" = some (.str text)) (substantive : isSubstantive text = true)
      (named : fields.lookup "evidence" = some (.str name)) (endless : Endless links d name)

theorem passes_claimGate_iff (claim : Value) (paths : List String) :
    (∃ paths', Passes host links d (claimGate host claim) paths ⟨⟩ paths') ↔
      ClaimPasses host d claim := by
  unfold claimGate
  simp only [passes_eval_bind, passes_need_bind, passes_file_bind, passes_pure, matches_none,
    Value.get_eq_ok, Value.item_eq_ok, Value.isProse_eq_true]
  constructor
  · rintro ⟨_, _, ⟨fields, rfl, rfl⟩, ⟨text, said, substantive⟩, _, ⟨_, ⟨⟩, named⟩, name, rfl,
      evident, -⟩
    exact ⟨fields, text, name, rfl, Value.getD_none_eq_str.mp said, substantive, named, evident⟩
  · rintro ⟨fields, text, name, rfl, said, substantive, named, evident⟩
    exact ⟨_, _, ⟨fields, rfl, rfl⟩, ⟨text, Value.getD_none_eq_str.mpr said, substantive⟩, _,
      ⟨fields, rfl, named⟩, name, rfl, evident, trivial, rfl⟩

/-- The check of a claim crashes exactly at the values listed in `ClaimCrash`. -/
theorem crashes_claimGate (claim : Value) (paths : List String) :
    Crashes host links d (claimGate host claim) paths ↔ ClaimCrash links d claim := by
  unfold claimGate
  simp only [crashes_eval_bind, crashes_need_bind, crashes_file_bind, crashes_pure,
    Value.raises_get, Value.raises_item, Value.get_eq_ok, Value.item_eq_ok, Value.isProse_eq_true,
    false_or, and_false, or_false]
  constructor
  · rintro (fieldless | ⟨_, ⟨fields, rfl, rfl⟩, ⟨text, said, substantive⟩, _, ⟨_, ⟨⟩, named⟩, name,
      rfl, endless⟩)
    · exact .claim fieldless
    · exact .evidence rfl (Value.getD_none_eq_str.mp said) substantive named endless
  · rintro (fieldless | ⟨rfl, said, substantive, named, endless⟩)
    · exact .inl fieldless
    · exact .inr ⟨_, ⟨_, rfl, rfl⟩, ⟨_, Value.getD_none_eq_str.mpr said, substantive⟩, _,
        ⟨_, rfl, named⟩, _, rfl, endless⟩

/-- A figure that has a vector export among the files of the paper. -/
def ExportPasses (files : List Value) (fig : Value) : Prop :=
  ∃ fields v exports id, fig = .dict fields ∧ fields.lookup "outputs" = some v ∧
    v.iter = .ok exports ∧ anyListed files exports = .ok true ∧ fields.lookup "id" = some id

/-- A figure where the search for an export comes to a value that is no text. -/
def ExportCrash (files : List Value) (fig : Value) : Prop :=
  ∃ fields v exports, fig = .dict fields ∧ fields.lookup "outputs" = some v ∧
    v.iter = .ok exports ∧ Until (Unlisted files) IsForeign exports

theorem passes_paperFigure_iff (files : List Value) (fig : Value) (paths : List String) :
    (∃ paths', Passes host links d (paperFigure host files fig) paths ⟨⟩ paths') ↔
      ExportPasses files fig := by
  unfold paperFigure
  simp only [passes_eval_bind, passes_need, Value.item_eq_ok]
  constructor
  · rintro ⟨_, v, ⟨fields, rfl, made⟩, exports, iterated, _, listed, id, ⟨_, ⟨⟩, named⟩, rfl, -⟩
    exact ⟨fields, v, exports, id, rfl, made, iterated, listed, named⟩
  · rintro ⟨fields, v, exports, id, rfl, made, iterated, listed, named⟩
    exact ⟨_, v, ⟨fields, rfl, made⟩, exports, iterated, true, listed, id, ⟨fields, rfl, named⟩,
      rfl,
      rfl⟩

/-- The check of an exported figure crashes exactly at the values listed in `ExportCrash`. -/
theorem crashes_paperFigure (files : List Value) (fig : Value) (paths : List String) :
    Crashes host links d (paperFigure host files fig) paths ↔ ExportCrash files fig := by
  unfold paperFigure
  simp only [crashes_eval_bind, crashes_need, Value.raises_item, Value.raises_iter,
    raises_anyListed, Value.item_eq_ok, false_or, and_false, exists_false, or_false]
  constructor
  · rintro ⟨v, ⟨fields, rfl, made⟩, exports, iterated, crash⟩
    exact ⟨fields, v, exports, rfl, made, iterated, crash⟩
  · rintro ⟨fields, v, exports, rfl, made, iterated, crash⟩
    exact ⟨v, ⟨fields, rfl, made⟩, exports, iterated, crash⟩

/-- The manifest of the figures cannot be loaded, or one of the figures crashes. -/
inductive ExportsCrash (host : Host) (links : Path → Alias) (d : Disk) (files : List Value) :
    Prop where
  | manifest (unloadable : Unloadable host links d "figure-manifest.json")
  | figure {manifest : List (String × Value)} {v : Value} {figures : List Value}
      (located : Located d "figure-manifest.json" false)
      (contains : d.Contains host "figure-manifest.json" (.dict manifest))
      (listed : manifest.lookup "figures" = some v) (iterated : v.iter = .ok figures)
      (crash : Until (ExportPasses files) (ExportCrash files) figures)

theorem crashes_exports (files : List Value) (paths : List String) :
    Crashes host links d (do
        let document ← load host "figure-manifest.json"
        let figures ← (liftM (eval (document.item "figures")) : Gate Value)
        (← (liftM (eval figures.iter) : Gate (List Value))).forM (paperFigure host files)) paths ↔
      ExportsCrash host links d files := by
  simp only [crashes_load_bind, crashes_eval_bind, crashes_forM (passes_paperFigure_iff files)
    (crashes_paperFigure files), Value.raises_item, Value.raises_iter, Value.item_eq_ok,
    Value.dict.injEq, exists_eq_left', false_or]
  constructor
  · rintro (unloadable | ⟨manifest, ⟨located, contains⟩, v, listed, figures, iterated, crash⟩)
    · exact .manifest unloadable
    · exact .figure located contains listed iterated crash
  · rintro (unloadable | ⟨located, contains, listed, iterated, crash⟩)
    · exact .inl unloadable
    · exact .inr ⟨_, ⟨located, contains⟩, _, listed, _, iterated, crash⟩

/-- A source or a claim of the paper crashes, or what comes behind them. -/
inductive ClaimsCrash (host : Host) (links : Path → Alias) (d : Disk)
    (manifest : List (String × Value)) (files : List Value) : Prop where
  | source (crash : Until (FilePasses host d) (FileCrash links d) files)
  | claim {claims : List Value} (sources : ∀ v ∈ files, FilePasses host d v)
      (listed : manifest.lookup "claims" = some (.list claims)) (nonempty : claims ≠ [])
      (crash : Until (ClaimPasses host d) (ClaimCrash links d) claims)
  | exports {claims : List Value} (sources : ∀ v ∈ files, FilePasses host d v)
      (listed : manifest.lookup "claims" = some (.list claims)) (nonempty : claims ≠ [])
      (each : ∀ claim ∈ claims, ClaimPasses host d claim) (crash : ExportsCrash host links d files)

theorem crashes_claims (manifest : List (String × Value)) (files : List Value)
    (paths : List String) :
    Crashes host links d (do
        files.forM fun name => do
          let _ ← file host name .none
        let claims ← (liftM (eval ((Value.dict manifest).get "claims" .none)) : Gate Value)
        Gate.need (match claims with | .list items => !items.isEmpty | _ => false)
          "Paper needs result-to-claim references"
        (← (liftM (eval claims.iter) : Gate (List Value))).forM (claimGate host)
        let document ← load host "figure-manifest.json"
        let figures ← (liftM (eval (document.item "figures")) : Gate Value)
        (← (liftM (eval figures.iter) : Gate (List Value))).forM (paperFigure host files)) paths ↔
      ClaimsCrash host links d manifest files := by
  have behind : ∀ claims paths, Crashes host links d (do
      claims.forM (claimGate host)
      let document ← load host "figure-manifest.json"
      let figures ← (liftM (eval (document.item "figures")) : Gate Value)
      (← (liftM (eval figures.iter) : Gate (List Value))).forM (paperFigure host files)) paths ↔
        Until (ClaimPasses host d) (ClaimCrash links d) claims ∨
          (∀ claim ∈ claims, ClaimPasses host d claim) ∧ ExportsCrash host links d files :=
    fun claims paths => crashes_forM_bind passes_claimGate_iff crashes_claimGate fun _ =>
      crashes_exports files
  rw [crashes_forM_bind passes_source_iff crashes_source fun _ paths => by
    simp only [crashes_eval_bind, crashes_need_bind, Value.raises_get, Value.raises_iter,
      Value.not_isFieldless_dict, Value.get_eq_ok, Value.dict.injEq, exists_eq_left',
      exists_eq_left, false_or, behind]
    exact Iff.rfl]
  constructor
  · rintro (crash | ⟨sources, someList, claims', iterated, rest⟩)
    · exact .source crash
    · obtain ⟨claims, listed, some_⟩ := Value.isNonemptyList_eq_true.mp someList
      rw [listed] at iterated
      obtain rfl := Except.ok.inj iterated
      rw [Value.getD_none_eq_list] at listed
      obtain crash | ⟨each, crash⟩ := rest
      · exact .claim sources listed some_ crash
      · exact .exports sources listed some_ each crash
  · rintro (crash | ⟨sources, listed, some_, crash⟩ | ⟨sources, listed, some_, each, crash⟩)
    · exact .inl crash
    · have found_ := Value.getD_none_eq_list.mpr listed
      exact .inr ⟨sources, Value.isNonemptyList_eq_true.mpr ⟨_, found_, some_⟩, _,
        congrArg Value.iter found_, .inl crash⟩
    · have found_ := Value.getD_none_eq_list.mpr listed
      exact .inr ⟨sources, Value.isNonemptyList_eq_true.mpr ⟨_, found_, some_⟩, _,
        congrArg Value.iter found_, .inr ⟨each, crash⟩⟩

/-- The manifest of the paper, as far as the gate has read it before the entry point. -/
structure PaperRead (host : Host) (d : Disk) (manifest : List (String × Value)) (files : List Value)
    (entry : Value) : Prop where
  located : Located d "paper-manifest.json" false
  contains : d.Contains host "paper-manifest.json" (.dict manifest)
  listed : manifest.lookup "files" = some (.list files)
  nonempty : files ≠ []
  main : manifest.lookup "main" = some entry
  declared : entry.isIn files = true

/-- The gate of the paper crashes. -/
inductive PaperCrash (host : Host) (links : Path → Alias) (d : Disk) : Prop where
  | manifest (unloadable : Unloadable host links d "paper-manifest.json")
  | entry {manifest : List (String × Value)} {files : List Value} {entry : Value}
      (read : PaperRead host d manifest files entry) (foreign : entry.IsForeign)
  | claims {manifest : List (String × Value)} {files : List Value} {main : String}
      (read : PaperRead host d manifest files (.str main)) (suffix : endsWith main ".tex" = true)
      (bibliography : ((manifest.lookup "bibliography").getD .none).isIn
        [.str "none", .str "bibtex", .str "biber"] = true)
      (crash : ClaimsCrash host links d manifest files)

/-- The gate of the paper crashes exactly at the values listed in `PaperCrash`. -/
theorem crashes_paperGate :
    Crashes host links d (paperGate host) paths ↔ PaperCrash host links d := by
  unfold paperGate
  simp only [crashes_load_bind, crashes_eval_bind, crashes_need_bind, Value.raises_get,
    Value.raises_item, Value.raises_iter, Value.not_isFieldless_dict, Value.raises_endswith,
    Value.endswith_eq_ok, Value.get_eq_ok, Value.item_eq_ok, Value.dict.injEq, exists_eq_left',
    exists_eq_left, false_or, List.any_cons, List.any_nil, Bool.or_false]
  constructor
  · rintro (unloadable |
      ⟨manifest, ⟨located, contains⟩, someList, files', iterated, declared, entry,
      main, rest⟩)
    · exact .manifest unloadable
    · obtain ⟨files, listed, some_⟩ := Value.isNonemptyList_eq_true.mp someList
      rw [listed] at iterated
      obtain rfl := Except.ok.inj iterated
      rw [Value.getD_none_eq_list] at listed
      rw [main, Option.getD_some] at declared
      have read : PaperRead host d manifest files entry :=
        ⟨located, contains, listed, some_, main, declared⟩
      obtain foreign | ⟨_, ⟨name, rfl, suffix⟩, rfl, bibliography, crash⟩ := rest
      · exact .entry read foreign
      · exact .claims read suffix.symm bibliography ((crashes_claims _ _ _).mp crash)
  · rintro (unloadable | ⟨read, foreign⟩ | ⟨read, suffix, bibliography, crash⟩)
    · exact .inl unloadable
    · have listed := Value.getD_none_eq_list.mpr read.listed
      have declared := read.declared
      refine .inr ⟨_, ⟨read.located, read.contains⟩, Value.isNonemptyList_eq_true.mpr ⟨_, listed,
        read.nonempty⟩, _, congrArg Value.iter listed, ?_, _, read.main, .inl foreign⟩
      rw [read.main]
      exact declared
    · have listed := Value.getD_none_eq_list.mpr read.listed
      have declared := read.declared
      refine .inr ⟨_, ⟨read.located, read.contains⟩, Value.isNonemptyList_eq_true.mpr ⟨_, listed,
        read.nonempty⟩, _, congrArg Value.iter listed, ?_, _, read.main, .inr ⟨_, ⟨_, rfl, rfl⟩,
        suffix, bibliography, (crashes_claims _ _ _).mpr crash⟩⟩
      rw [read.main]
      exact declared

end Paper

section Figures

/-- A recorded name that runs into a loop. -/
def RecordedCrash (links : Path → Alias) (d : Disk) (recorded : String → Option String)
    (v : Value) :
    Prop :=
  ∃ name, v = .str name ∧ (recorded name).isSome = true ∧ Endless links d name

/-- The digest that some execution recorded for an output or an input. -/
def recordedIn (produced supplied : List (String × String)) (name : String) : Option String :=
  (produced.lookup name).or (supplied.lookup name)

theorem passes_figureSource_iff (v : Value) (paths : List String) :
    (∃ paths', Passes host links d (figureSource host produced supplied v) paths ⟨⟩ paths') ↔
      Backed host d (recordedIn produced supplied) v := by
  constructor
  · rintro ⟨_, passed⟩
    exact (passes_figureSource passed).1
  · rintro ⟨name, sha, rfl, recorded, matched⟩
    refine ⟨paths ++ [name], ?_⟩
    unfold figureSource
    simp only [passes_eval_bind, passes_need_bind, passes_file_bind, passes_pure,
      Value.str_lookupIn, Except.ok.injEq, exists_eq_left', Value.str.injEq]
    change (produced.lookup name).or (supplied.lookup name) = some sha at recorded
    rw [recorded]
    exact ⟨rfl, matched, trivial, trivial⟩

/-- The check of a source of a figure crashes only at a recorded name inside a loop. -/
theorem crashes_figureSource (v : Value) (paths : List String) :
    Crashes host links d (figureSource host produced supplied v) paths ↔
      RecordedCrash links d (recordedIn produced supplied) v := by
  unfold figureSource
  simp only [crashes_eval_bind, crashes_need_bind, crashes_file_bind, crashes_pure,
    Value.raises_lookupIn, false_or, and_false, or_false]
  constructor
  · rintro ⟨made, found_, given, found_', known, name, rfl, endless⟩
    obtain rfl := Except.ok.inj found_
    obtain rfl := Except.ok.inj found_'
    exact ⟨name, rfl, known, endless⟩
  · rintro ⟨name, rfl, known, endless⟩
    exact ⟨_, rfl, _, rfl, known, name, rfl, endless⟩

/-- An output of a figure that passes: recorded, with the header of its format. -/
structure OutputPasses (host : Host) (d : Disk) (produced : List (String × String)) (v : Value) :
    Prop where
  backed : Backed host d (fun name => produced.lookup name) v
  headed : ∃ name content, v = .str name ∧ d.content host (parts name) = some content ∧
    (endsWith name ".png" = true → (content.take 8 == pngHeader) = true) ∧
    (endsWith name ".pdf" = true → pdfHeader.isPrefixOf content = true)

section Header

variable {name : String} {content : Content}

/-- The comparison of the header of a PDF. -/
theorem passes_pdf {message : String} {u : Unit} :
    Passes host links d (do
        if ← (liftM (eval ((Value.str name).endswith [".pdf"])) : Gate Bool) then
          Gate.need (pdfHeader.isPrefixOf content) message) paths u paths' ↔
      (endsWith name ".pdf" = true → pdfHeader.isPrefixOf content = true) ∧ paths' = paths := by
  simp only [passes_eval_bind, Value.endswith_eq_ok, Value.str.injEq, exists_eq_left',
    exists_eq_left, List.any_cons, List.any_nil, Bool.or_false]
  split
  next suffix =>
    rw [passes_need]
    exact and_congr_left fun _ => ⟨fun h _ => h, fun h => h suffix⟩
  next other =>
    rw [passes_pure]
    exact and_congr_left fun _ => ⟨fun _ suffix => absurd suffix other, fun _ => rfl⟩

theorem crashes_pdf {message : String} :
    ¬ Crashes host links d (do
        if ← (liftM (eval ((Value.str name).endswith [".pdf"])) : Gate Bool) then
          Gate.need (pdfHeader.isPrefixOf content) message) paths := by
  rw [crashes_eval_bind, or_iff_right]
  · rintro ⟨isPdf, -, crash⟩
    split at crash
    · exact crashes_need _ _ crash
    · exact crashes_pure _ crash
  · simp

end Header

theorem passes_figureOutput_iff (v : Value) (paths : List String) :
    (∃ paths', Passes host links d (figureOutput host produced v) paths ⟨⟩ paths') ↔
      OutputPasses host d produced v := by
  unfold figureOutput
  simp only [passes_generated_bind, passes_task_bind, passes_eval_bind, answered_read, found_eq_ok]
  constructor
  · rintro ⟨_, name, rfl, sha, ⟨made, matched⟩, content, there, png, isPng, rest⟩
    obtain ⟨_, ⟨⟩, rfl⟩ := Value.endswith_eq_ok.mp isPng
    refine ⟨⟨name, sha, rfl, made, matched⟩, name, content, rfl, there, ?_⟩
    rw [List.any_cons, List.any_nil, Bool.or_false] at rest
    split at rest
    next suffix =>
      rw [passes_need_bind, passes_pdf] at rest
      exact ⟨fun _ => rest.1, rest.2.1⟩
    next other => exact ⟨fun suffix => absurd suffix other, (passes_pdf.mp rest).1⟩
  · rintro ⟨⟨name, sha, rfl, made, matched⟩, _, content, ⟨⟩, there, png, pdf⟩
    refine ⟨paths ++ [name], name, rfl, sha, ⟨made, matched⟩, content, there, _, rfl, ?_⟩
    rw [List.any_cons, List.any_nil, Bool.or_false]
    split
    next suffix =>
      rw [passes_need_bind, passes_pdf]
      exact ⟨png suffix, pdf, rfl⟩
    next other => exact passes_pdf.mpr ⟨pdf, rfl⟩

/-- The check of an output of a figure crashes only at a recorded name inside a loop. -/
theorem crashes_figureOutput (v : Value) (paths : List String) :
    Crashes host links d (figureOutput host produced v) paths ↔
      RecordedCrash links d (fun name => produced.lookup name) v := by
  unfold figureOutput
  rw [crashes_bind, crashes_generated]
  refine or_iff_left ?_
  rintro ⟨_, _, passed, rest⟩
  obtain ⟨name, sha, rfl, -⟩ := passes_generated.mp passed
  simp only [crashes_task_bind, answered_read, raises_found, false_or] at rest
  obtain ⟨content, -, rest⟩ := rest
  rw [crashes_eval_bind, or_iff_right (by simp)] at rest
  obtain ⟨isPng, -, rest⟩ := rest
  split at rest
  next =>
    rw [crashes_need_bind] at rest
    exact crashes_pdf rest.2
  next => exact crashes_pdf rest

/-- The review of a figure that passes, by the searches that find it and the PNG file. -/
structure ReviewHolds (host : Host) (d : Disk) (reviews : List Value) (id : Value)
    (outputs : List Value) : Prop where
  review : ∃ entry png sha text, matching id reviews = .ok [.dict entry] ∧
    entry.lookup "status" = some (.str "pass") ∧
    entry.lookup "observations" = some (.str text) ∧ isSubstantive text = true ∧
    firstPng outputs = .ok (some (.str png)) ∧ Evident host d png ∧
    entry.lookup "sha256" = some (.str sha) ∧ d.HasDigest host (parts png) sha

theorem passes_figureReview_iff {reviews outputs : List Value} {id : Value} :
    (∃ paths', Passes host links d (figureReview host reviews id outputs) paths () paths') ↔
      ReviewHolds host d reviews id outputs := by
  unfold figureReview
  simp only [passes_eval_bind, passes_need_bind, passes_file_bind, passes_task_bind, passes_need,
    Value.isDict_eq_true, Value.get_eq_ok, Bool.and_eq_true, Value.beq_str,
    Value.isProse_eq_true, beq_iff_eq, digest_ok, matches_none]
  constructor
  · rintro ⟨_, found_, matched, single, ⟨entry, object⟩, rest⟩
    obtain ⟨review, rfl⟩ := List.length_eq_one_iff.mp single
    change review = .dict entry at object
    subst object
    obtain ⟨_, ⟨_, ⟨⟩, rfl⟩, _, ⟨_, ⟨⟩, rfl⟩, ⟨status, text, said, substantive⟩, rest⟩ := rest
    obtain ⟨_, ⟨_, ⟨⟩, rfl⟩, png, first, name, named, evident, sha, current, bound, -⟩ := rest
    rw [Value.getD_none_eq_str] at status said bound
    refine ⟨entry, name, sha, text, matched, status, said, substantive, ?_, evident, bound, current⟩
    rw [first]
    cases png with
    | none => cases named
    | some v => exact congrArg (fun v => Except.ok (some v)) named
  · rintro ⟨entry, png, sha, text, matched, status, said, substantive, first, evident, bound,
      current⟩
    rw [← Value.getD_none_eq_str] at status said bound
    exact ⟨_, _, matched, rfl, ⟨entry, rfl⟩, _, ⟨entry, rfl, rfl⟩, _, ⟨entry, rfl, rfl⟩,
      ⟨status, text, said, substantive⟩, _, ⟨entry, rfl, rfl⟩, _, first, png, rfl, evident, sha,
      current, bound, rfl⟩

/-- The review of a figure crashes exactly if one of the reviews has no fields: the outputs have
passed by then. -/
theorem crashes_figureReview {reviews outputs : List Value} {id : Value}
    (each : ∀ v ∈ outputs, OutputPasses host d produced v) :
    Crashes host links d (figureReview host reviews id outputs) paths ↔
      ∃ r ∈ reviews, r.IsFieldless := by
  unfold figureReview
  simp only [crashes_eval_bind, crashes_need_bind, crashes_file_bind, crashes_task_bind,
    crashes_need, raises_matching, Value.raises_get, raises_digest, raises_firstPng, and_false,
    exists_false, or_false, Value.isDict_eq_true]
  refine or_iff_left ?_
  rintro ⟨found_, matched, single, ⟨entry, object⟩, rest⟩
  rw [object] at rest
  simp only [Value.not_isFieldless_dict, false_or] at rest
  obtain ⟨_, -, _, -, -, _, -, stops | ⟨png, first, name, named, endless⟩⟩ := rest
  · obtain ⟨v, mem, foreign⟩ := stops.exists_mem
    obtain ⟨name, content, rfl, -⟩ := (each v mem).headed
    exact Value.not_isForeign_str name foreign
  · cases png with
    | none => cases named
    | some v =>
        change v = .str name at named
        have mem := List.mem_of_find?_eq_some (firstPng_ok first).symm
        obtain ⟨_, _, same, -, matched⟩ := (each v mem).backed
        obtain rfl := Value.str.inj (named.symm.trans same)
        exact matched.1.located.not_endless endless

/-- The field is a list with something in it. -/
def Lists (fields : List (String × Value)) (key : String) (items : List Value) : Prop :=
  fields.lookup key = some (.list items) ∧ items ≠ []

theorem lists_iff {fields : List (String × Value)} {key : String} {items : List Value} :
    ((match (fields.lookup key).getD .none with
      | .list items => !items.isEmpty
      | _ => false) = true ∧
      ((fields.lookup key).getD .none).iter = .ok items) ↔ Lists fields key items := by
  constructor
  · rintro ⟨someList, iterated⟩
    obtain ⟨found_, listed, some_⟩ := Value.isNonemptyList_eq_true.mp someList
    rw [listed] at iterated
    obtain rfl := Except.ok.inj iterated
    exact ⟨Value.getD_none_eq_list.mp listed, some_⟩
  · rintro ⟨listed, some_⟩
    have found_ := Value.getD_none_eq_list.mpr listed
    exact ⟨Value.isNonemptyList_eq_true.mpr ⟨_, found_, some_⟩, congrArg Value.iter found_⟩

/-- The fields that the loop over the keys makes sure of. -/
def Prosaic (fields : List (String × Value)) : Prop :=
  ∀ key ∈ figureKeys, ∃ s, fields.lookup key = some (.str s) ∧ isSubstantive s = true

/-- A figure as far as the gate has read it before its sources. -/
structure FigureRead (supplied : List (String × String)) (seen : List Value) (fig : Value)
    (fields : List (String × Value)) (id script : String) (data : List Value) : Prop where
  object : fig = .dict fields
  prose : Prosaic fields
  named : fields.lookup "id" = some (.str id)
  fresh : (Value.str id).isIn seen = false
  listed : Lists fields "data" data
  scripted : fields.lookup "script" = some (.str script)
  known : (supplied.lookup script).isSome = true

/-- Its outputs crash, or the reviews do behind them. -/
inductive OutputsCrash (host : Host) (links : Path → Alias) (d : Disk)
    (produced : List (String × String)) (reviews outputs : List Value) : Prop where
  | preview (crash : Until (Lacks [".png"]) IsForeign outputs)
  | vector (preview : Value.anyEndswith [".png"] outputs = .ok true)
      (crash : Until (Lacks [".pdf", ".svg"]) IsForeign outputs)
  | output (preview : Value.anyEndswith [".png"] outputs = .ok true)
      (vector : Value.anyEndswith [".pdf", ".svg"] outputs = .ok true)
      (crash : Until (OutputPasses host d produced)
        (RecordedCrash links d fun name => produced.lookup name) outputs)
  | review (preview : Value.anyEndswith [".png"] outputs = .ok true)
      (vector : Value.anyEndswith [".pdf", ".svg"] outputs = .ok true)
      (each : ∀ v ∈ outputs, OutputPasses host d produced v)
      (fieldless : ∃ r ∈ reviews, r.IsFieldless)

/-- What has to hold of the outputs. -/
structure OutputsHold (host : Host) (d : Disk) (produced : List (String × String))
    (reviews : List Value) (id : Value) (outputs : List Value) : Prop where
  preview : Value.anyEndswith [".png"] outputs = .ok true
  vector : Value.anyEndswith [".pdf", ".svg"] outputs = .ok true
  each : ∀ v ∈ outputs, OutputPasses host d produced v
  review : ReviewHolds host d reviews id outputs

section Outputs

variable {reviews outputs : List Value} {id : Value}

theorem crashes_outputs (paths : List String) :
    Crashes host links d (do
        Gate.need (← (liftM (eval (Value.anyEndswith [".png"] outputs)) : Gate Bool))
          "Figure needs a PNG preview"
        Gate.need (← (liftM (eval (Value.anyEndswith [".pdf", ".svg"] outputs)) : Gate Bool))
          "Figure needs a vector export"
        outputs.forM (figureOutput host produced)
        figureReview host reviews id outputs
        return id) paths ↔ OutputsCrash host links d produced reviews outputs := by
  have behind : (∀ v ∈ outputs, OutputPasses host d produced v) → ∀ paths,
      Crashes host links d (do
        figureReview host reviews id outputs
        return id) paths ↔ ∃ r ∈ reviews, r.IsFieldless := by
    intro each paths
    rw [crashes_bind, crashes_figureReview each, or_iff_left]
    rintro ⟨_, _, -, crash⟩
    exact crashes_pure _ crash
  have made : ∀ paths, Crashes host links d (do
      outputs.forM (figureOutput host produced)
      figureReview host reviews id outputs
      return id) paths ↔
        Until (OutputPasses host d produced)
          (RecordedCrash links d fun name => produced.lookup name) outputs ∨
          (∀ v ∈ outputs, OutputPasses host d produced v) ∧ ∃ r ∈ reviews, r.IsFieldless :=
    fun paths => crashes_forM_bind passes_figureOutput_iff crashes_figureOutput behind
  simp only [crashes_eval_bind, crashes_need_bind, Value.raises_anyEndswith, made]
  constructor
  · rintro (crash | ⟨_, preview, rfl, crash | ⟨_, vector, rfl, crash | ⟨each, fieldless⟩⟩⟩)
    · exact .preview crash
    · exact .vector preview crash
    · exact .output preview vector crash
    · exact .review preview vector each fieldless
  · rintro (crash | ⟨preview, crash⟩ | ⟨preview, vector, crash⟩ |
      ⟨preview, vector, each, fieldless⟩)
    · exact .inl crash
    · exact .inr ⟨_, preview, rfl, .inl crash⟩
    · exact .inr ⟨_, preview, rfl, .inr ⟨_, vector, rfl, .inl crash⟩⟩
    · exact .inr ⟨_, preview, rfl, .inr ⟨_, vector, rfl, .inr ⟨each, fieldless⟩⟩⟩

theorem passes_outputs {id' : Value} (paths : List String) :
    (∃ paths', Passes host links d (do
        Gate.need (← (liftM (eval (Value.anyEndswith [".png"] outputs)) : Gate Bool))
          "Figure needs a PNG preview"
        Gate.need (← (liftM (eval (Value.anyEndswith [".pdf", ".svg"] outputs)) : Gate Bool))
          "Figure needs a vector export"
        outputs.forM (figureOutput host produced)
        figureReview host reviews id outputs
        return id) paths id' paths') ↔
      id' = id ∧ OutputsHold host d produced reviews id outputs := by
  simp only [passes_eval_bind, passes_need_bind]
  simp only [passes_bind, passes_pure]
  constructor
  · rintro ⟨_, _, preview, rfl, _, vector, rfl, _, _, made, _, _, reviewed, rfl, -⟩
    exact ⟨rfl, preview, vector, (passes_forM_exists passes_figureOutput_iff _).mp ⟨_, made⟩,
      passes_figureReview_iff.mp ⟨_, reviewed⟩⟩
  · rintro ⟨rfl, preview, vector, each, review⟩
    obtain ⟨between, made⟩ := (passes_forM_exists passes_figureOutput_iff paths).mpr each
    obtain ⟨after, reviewed⟩ := passes_figureReview_iff.mpr review
    exact ⟨after, true, preview, rfl, true, vector, rfl, _, between, made, _, after, reviewed, rfl,
      rfl⟩

end Outputs

/-- One round of the loop over the figures crashes. -/
inductive FigureCrash (host : Host) (links : Path → Alias) (d : Disk)
    (produced supplied : List (String × String)) (reviews seen : List Value) (fig : Value) :
    Prop where
  | source {fields : List (String × Value)} {id script : String} {data : List Value}
      (read : FigureRead supplied seen fig fields id script data)
      (crash : Until (Backed host d (recordedIn produced supplied))
        (RecordedCrash links d (recordedIn produced supplied)) (.str script :: data))
  | outputs {fields : List (String × Value)} {id script : String} {data outputs : List Value}
      (read : FigureRead supplied seen fig fields id script data)
      (sources : ∀ v ∈ .str script :: data, Backed host d (recordedIn produced supplied) v)
      (made : Lists fields "outputs" outputs)
      (crash : OutputsCrash host links d produced reviews outputs)

/-- One round of the loop over the figures is passed. -/
structure FigureHolds (host : Host) (d : Disk) (produced supplied : List (String × String))
    (reviews seen : List Value) (fig : Value) (id : String) : Prop where
  figure : ∃ fields script data outputs, FigureRead supplied seen fig fields id script data ∧
    (∀ v ∈ .str script :: data, Backed host d (recordedIn produced supplied) v) ∧
    Lists fields "outputs" outputs ∧ OutputsHold host d produced reviews (.str id) outputs

section Figure

variable {reviews seen : List Value} {fig : Value}

/-- The fields that the loop over the keys has looked at. -/
theorem passes_keys_iff (fields : List (String × Value)) (key : String) (paths : List String) :
    (∃ paths', Passes host links d (do
        let value ← (liftM (eval ((Value.dict fields).get key .none)) : Gate Value)
        Gate.need value.isProse ("Figure needs " ++ key)) paths ⟨⟩ paths') ↔
      ∃ s, fields.lookup key = some (.str s) ∧ isSubstantive s = true := by
  simp only [passes_eval_bind, passes_need, Value.get_eq_ok, Value.dict.injEq, exists_eq_left',
    exists_eq_left, Value.isProse_eq_true, Value.getD_none_eq_str]
  constructor
  · rintro ⟨_, prose, -⟩
    exact prose
  · exact fun prose => ⟨_, prose, rfl⟩

theorem crashes_keys (fields : List (String × Value)) (key : String) (paths : List String) :
    Crashes host links d (do
        let value ← (liftM (eval ((Value.dict fields).get key .none)) : Gate Value)
        Gate.need value.isProse ("Figure needs " ++ key)) paths ↔ False := by
  simp [crashes_eval_bind]

/-- Where nothing stops the loop, it is never stopped. -/
theorem until_false {α : Type} {passed : α → Prop} {l : List α} :
    ¬ Until passed (fun _ => False) l := fun h => by
  obtain ⟨_, _, h⟩ := h.exists_mem
  exact h

/-- The last part of a round: the outputs and the review. -/
def drawn (host : Host) (produced : List (String × String)) (reviews : List Value)
    (fields : List (String × Value)) (id : Value) : Gate Value := do
  let outputs ← eval ((Value.dict fields).get "outputs" .none)
  Gate.need (match outputs with | .list items => !items.isEmpty | _ => false)
    "Figure outputs are required"
  let names ← eval outputs.iter
  Gate.need (← eval (Value.anyEndswith [".png"] names)) "Figure needs a PNG preview"
  Gate.need (← eval (Value.anyEndswith [".pdf", ".svg"] names)) "Figure needs a vector export"
  names.forM (figureOutput host produced)
  figureReview host reviews id names
  return id

theorem crashes_drawn (fields : List (String × Value)) (id : Value) (paths : List String) :
    Crashes host links d (drawn host produced reviews fields id) paths ↔
      ∃ outputs, Lists fields "outputs" outputs ∧
        OutputsCrash host links d produced reviews outputs := by
  unfold drawn
  rw [crashes_eval_bind]
  simp only [Value.raises_get, Value.not_isFieldless_dict, Value.get_eq_ok, Value.dict.injEq,
    exists_eq_left', exists_eq_left, false_or]
  rw [crashes_need_bind, crashes_eval_bind]
  simp only [Value.raises_iter, false_or]
  constructor
  · rintro ⟨someList, outputs, iterated, crash⟩
    exact ⟨outputs, lists_iff.mp ⟨someList, iterated⟩, (crashes_outputs _).mp crash⟩
  · rintro ⟨outputs, listed, crash⟩
    obtain ⟨someList, iterated⟩ := lists_iff.mpr listed
    exact ⟨someList, outputs, iterated, (crashes_outputs _).mpr crash⟩

theorem passes_drawn (fields : List (String × Value)) (id id' : Value) (paths : List String) :
    (∃ paths', Passes host links d (drawn host produced reviews fields id) paths id' paths') ↔
      id' = id ∧ ∃ outputs, Lists fields "outputs" outputs ∧
        OutputsHold host d produced reviews id outputs := by
  unfold drawn
  constructor
  · rintro ⟨paths', passed⟩
    rw [passes_eval_bind] at passed
    obtain ⟨_, ⟨⟩, passed⟩ := passed
    rw [passes_need_bind, passes_eval_bind] at passed
    obtain ⟨someList, outputs, iterated, rest⟩ := passed
    obtain ⟨rfl, holds⟩ := (passes_outputs _).mp ⟨paths', rest⟩
    exact ⟨rfl, outputs, lists_iff.mp ⟨someList, iterated⟩, holds⟩
  · rintro ⟨same, outputs, listed, holds⟩
    obtain ⟨someList, iterated⟩ := lists_iff.mpr listed
    obtain ⟨paths', rest⟩ := (passes_outputs paths).mpr ⟨same, holds⟩
    refine ⟨paths', ?_⟩
    rw [passes_eval_bind]
    refine ⟨_, rfl, ?_⟩
    rw [passes_need_bind, passes_eval_bind]
    exact ⟨someList, outputs, iterated, rest⟩

/-- The part before it: the fields and the sources. -/
def scripted (host : Host) (produced supplied : List (String × String)) (reviews seen : List Value)
    (fields : List (String × Value)) : Gate Value := do
  let id ← eval ((Value.dict fields).item "id")
  Gate.need (!id.isIn seen) "Duplicate figure id"
  let data ← eval ((Value.dict fields).get "data" .none)
  Gate.need (match data with | .list items => !items.isEmpty | _ => false)
    "Figure needs actual data sources"
  let script ← eval ((Value.dict fields).item "script")
  let known ← eval (script.lookupIn supplied)
  Gate.need known.isSome "Figure script must be a recorded execution input"
  let sources ← eval data.iter
  (script :: sources).forM (figureSource host produced supplied)
  drawn host produced reviews fields id

/-- A figure is checked key by key, and then for what it was drawn from. -/
theorem figure_eq (fields : List (String × Value)) :
    figure host produced supplied reviews seen (.dict fields) = (do
      figureKeys.forM fun key => do
        let value ← eval ((Value.dict fields).get key .none)
        Gate.need value.isProse ("Figure needs " ++ key)
      scripted host produced supplied reviews seen fields) := rfl

theorem crashes_scripted {fields : List (String × Value)} (prose : Prosaic fields) :
    Crashes host links d (scripted host produced supplied reviews seen fields) paths ↔
      FigureCrash host links d produced supplied reviews seen (.dict fields) := by
  obtain ⟨id, named, -⟩ := prose "id" (by decide)
  obtain ⟨script, scripted_, -⟩ := prose "script" (by decide)
  unfold scripted
  simp only [crashes_eval_bind, crashes_need_bind, Value.raises_item, Value.raises_get,
    Value.raises_iter, Value.raises_lookupIn, Value.not_isFieldless_dict, Value.item_eq_ok,
    Value.get_eq_ok, Value.dict.injEq, exists_eq_left', exists_eq_left, false_or, named, scripted_,
    Option.some.injEq, Bool.not_eq_true', Value.str_lookupIn, Except.ok.injEq]
  have sourced : ∀ data, Crashes host links d (do
      (Value.str script :: data).forM (figureSource host produced supplied)
      drawn host produced reviews fields (.str id)) paths ↔
        Until (Backed host d (recordedIn produced supplied))
          (RecordedCrash links d (recordedIn produced supplied)) (.str script :: data) ∨
          (∀ v ∈ .str script :: data, Backed host d (recordedIn produced supplied) v) ∧
            ∃ outputs, Lists fields "outputs" outputs ∧
              OutputsCrash host links d produced reviews outputs := fun data =>
    crashes_forM_bind passes_figureSource_iff crashes_figureSource fun _ =>
      crashes_drawn fields (.str id)
  constructor
  · rintro ⟨fresh, someList, known, data, iterated, crash⟩
    have read : FigureRead supplied seen (.dict fields) fields id script data :=
      ⟨rfl, prose, named, fresh, lists_iff.mp ⟨someList, iterated⟩, scripted_, known⟩
    obtain crash | ⟨sources, outputs, made, crash⟩ := (sourced data).mp crash
    · exact .source read crash
    · exact .outputs read sources made crash
  · intro crash
    obtain ⟨data, read, behind⟩ :
        ∃ data, FigureRead supplied seen (.dict fields) fields id script data ∧
        (Until (Backed host d (recordedIn produced supplied))
          (RecordedCrash links d (recordedIn produced supplied)) (.str script :: data) ∨
          (∀ v ∈ .str script :: data, Backed host d (recordedIn produced supplied) v) ∧
            ∃ outputs, Lists fields "outputs" outputs ∧
              OutputsCrash host links d produced reviews outputs) := by
      obtain ⟨read, crash⟩ | ⟨read, sources, made, crash⟩ := crash
      all_goals
        obtain rfl := Value.dict.inj read.object
        obtain rfl := Value.str.inj (Option.some.inj (named.symm.trans read.named))
        obtain rfl := Value.str.inj (Option.some.inj (scripted_.symm.trans read.scripted))
      · exact ⟨_, read, .inl crash⟩
      · exact ⟨_, read, .inr ⟨sources, _, made, crash⟩⟩
    obtain ⟨someList, iterated⟩ := lists_iff.mpr read.listed
    exact ⟨read.fresh, someList, read.known, data, iterated, (sourced data).mpr behind⟩

/-- The check of a figure crashes exactly at the values listed in `FigureCrash`. -/
theorem crashes_figure :
    Crashes host links d (figure host produced supplied reviews seen fig) paths ↔
      FigureCrash host links d produced supplied reviews seen fig := by
  have keys : ∀ fields, Crashes host links d
      (figure host produced supplied reviews seen (.dict fields)) paths ↔ Prosaic fields ∧
        FigureCrash host links d produced supplied reviews seen (.dict fields) := by
    intro fields
    rw [figure_eq, crashes_forM_bind (passes_keys_iff fields) (crashes_keys fields) fun prose _ =>
      crashes_scripted prose, or_iff_right until_false]
    exact Iff.rfl
  constructor
  · intro crash
    have object := crash
    unfold figure at object
    rw [crashes_need_bind, Value.isDict_eq_true] at object
    obtain ⟨⟨fields, rfl⟩, -⟩ := object
    exact ((keys fields).mp crash).2
  · intro crash
    obtain ⟨fields, object, prose⟩ : ∃ fields, fig = .dict fields ∧ Prosaic fields := by
      obtain ⟨read, -⟩ | ⟨read, -⟩ := crash
      all_goals exact ⟨_, read.object, read.prose⟩
    subst object
    exact (keys fields).mpr ⟨prose, crash⟩

theorem passes_scripted {fields : List (String × Value)} (prose : Prosaic fields) (id' : Value) :
    (∃ paths', Passes host links d (scripted host produced supplied reviews seen fields) paths id'
      paths') ↔ ∃ id, id' = .str id ∧
        FigureHolds host d produced supplied reviews seen (.dict fields) id := by
  obtain ⟨id, named, -⟩ := prose "id" (by decide)
  obtain ⟨script, scripted_, -⟩ := prose "script" (by decide)
  unfold scripted
  simp only [passes_eval_bind, passes_need_bind, Value.item_eq_ok, Value.get_eq_ok,
    Value.dict.injEq, exists_eq_left', exists_eq_left, named, scripted_, Option.some.injEq,
    Bool.not_eq_true', Value.str_lookupIn, Except.ok.injEq]
  constructor
  · rintro ⟨paths', fresh, someList, known, data, iterated, passed⟩
    obtain ⟨_, between, sourced, rest⟩ := passes_bind.mp passed
    obtain ⟨rfl, outputs, made, holds⟩ := (passes_drawn fields (.str id) id' _).mp ⟨paths', rest⟩
    exact ⟨id, rfl, ⟨fields, script, data, outputs, ⟨rfl, prose, named, fresh,
      lists_iff.mp ⟨someList, iterated⟩, scripted_, known⟩,
      (passes_forM_exists passes_figureSource_iff _).mp ⟨between, sourced⟩, made, holds⟩⟩
  · rintro ⟨id₀, rfl, ⟨_, script', data, outputs, read, sources, made, holds⟩⟩
    obtain rfl := Value.dict.inj read.object
    obtain rfl := Value.str.inj (Option.some.inj (named.symm.trans read.named))
    obtain rfl := Value.str.inj (Option.some.inj (scripted_.symm.trans read.scripted))
    obtain ⟨someList, iterated⟩ := lists_iff.mpr read.listed
    obtain ⟨between, sourced⟩ :=
      (passes_forM_exists passes_figureSource_iff paths).mpr sources
    obtain ⟨paths', rest⟩ :=
      (passes_drawn fields (.str id) (.str id) between).mpr ⟨rfl, outputs, made, holds⟩
    exact ⟨paths', read.fresh, someList, read.known, data, iterated,
      passes_bind.mpr ⟨_, between, sourced, rest⟩⟩

/-- The check of a figure passes exactly if the figure holds up, and returns its id. -/
theorem passes_figure_iff (id' : Value) :
    (∃ paths', Passes host links d (figure host produced supplied reviews seen fig) paths id'
      paths') ↔ ∃ id, id' = .str id ∧ FigureHolds host d produced supplied reviews seen fig id := by
  constructor
  · rintro ⟨paths', passed⟩
    have object := passed
    unfold figure at object
    rw [passes_need_bind, Value.isDict_eq_true] at object
    obtain ⟨⟨fields, rfl⟩, -⟩ := object
    rw [figure_eq, passes_bind] at passed
    obtain ⟨_, between, keys, rest⟩ := passed
    have prose : Prosaic fields :=
      (passes_forM_exists (passes_keys_iff fields) _).mp ⟨between, keys⟩
    exact (passes_scripted prose id').mp ⟨paths', rest⟩
  · rintro ⟨id, rfl, holds⟩
    obtain ⟨fields, script, data, outputs, read, more⟩ := holds.figure
    obtain rfl := read.object
    obtain ⟨between, keys⟩ := (passes_forM_exists (passes_keys_iff fields) paths).mpr read.prose
    obtain ⟨paths', rest⟩ := (passes_scripted read.prose _).mpr ⟨id, rfl, holds⟩
    refine ⟨paths', ?_⟩
    rw [figure_eq]
    exact passes_bind.mpr ⟨_, between, keys, rest⟩

end Figure

/-- The loop over the figures crashes in one round, behind rounds that are passed. -/
inductive RoundsCrash (host : Host) (links : Path → Alias) (d : Disk)
    (produced supplied : List (String × String)) (reviews : List Value) :
    List Value → List Value → Prop where
  | here {seen : List Value} {fig : Value} {rest : List Value}
      (crash : FigureCrash host links d produced supplied reviews seen fig) :
      RoundsCrash host links d produced supplied reviews seen (fig :: rest)
  | later {seen : List Value} {fig : Value} {rest : List Value} {id : String}
      (holds : FigureHolds host d produced supplied reviews seen fig id)
      (more : RoundsCrash host links d produced supplied reviews (.str id :: seen) rest) :
      RoundsCrash host links d produced supplied reviews seen (fig :: rest)

/-- The figures are checked in order, each against the ids that came before it. -/
theorem crashes_figureLoop {reviews seen figures : List Value} :
    Crashes host links d (figureLoop host produced supplied reviews seen figures) paths ↔
      RoundsCrash host links d produced supplied reviews seen figures := by
  induction figures generalizing seen paths with
  | nil =>
      refine iff_of_false (crashes_pure _) ?_
      intro crash
      cases crash
  | cons fig rest ih =>
      unfold figureLoop
      rw [crashes_bind, crashes_figure]
      constructor
      · rintro (crash | ⟨_, between, passed, more⟩)
        · exact .here crash
        · obtain ⟨id, rfl, holds⟩ := (passes_figure_iff _).mp ⟨between, passed⟩
          exact .later holds (ih.mp more)
      · rintro (crash | ⟨holds, more⟩)
        · exact .inl crash
        · obtain ⟨between, passed⟩ := (passes_figure_iff _).mpr ⟨_, rfl, holds⟩
          exact .inr ⟨_, between, passed, ih.mpr more⟩

/-- The gate of the figures crashes. -/
inductive FiguresCrash (host : Host) (links : Path → Alias) (d : Disk)
    (produced supplied : List (String × String)) : Prop where
  | manifest (unloadable : Unloadable host links d "figure-manifest.json")
  | reviews {manifest : List (String × Value)} {figures : List Value}
      (located : Located d "figure-manifest.json" false)
      (contains : d.Contains host "figure-manifest.json" (.dict manifest))
      (listed : Lists manifest "figures" figures)
      (unloadable : Unloadable host links d "figure-review.json")
  | figure {manifest review : List (String × Value)} {figures reviews : List Value}
      (located : Located d "figure-manifest.json" false)
      (contains : d.Contains host "figure-manifest.json" (.dict manifest))
      (listed : Lists manifest "figures" figures)
      (located' : Located d "figure-review.json" false)
      (contains' : d.Contains host "figure-review.json" (.dict review))
      (reviewed : (review.lookup "figures").getD (.list []) = .list reviews)
      (covers : reviews.length = figures.length)
      (crash : RoundsCrash host links d produced supplied reviews [] figures)

theorem reviews_eq_ok {v : Value} {reviews : List Value} {message : String} :
    (match v with | .list items => .ok items | _ => .error (PyErr.value message)) =
      Except.ok reviews ↔ v = .list reviews := by
  cases v <;> simp

theorem raises_reviews {v : Value} {message : String} :
    ¬ Raises (match v with | .list items => .ok items | _ => .error (PyErr.value message)) := by
  cases v <;> simp [PyErr.isReported]

theorem crashes_reviewed {figures : List Value} (v : Value) (paths : List String) :
    Crashes host links d (do
        let reviews ← (liftM (eval (match v with
          | .list items => .ok items
          | _ => .error (.value "Review must cover every figure"))) : Gate (List Value))
        Gate.need (reviews.length == figures.length) "Review must cover every figure"
        figureLoop host produced supplied reviews [] figures) paths ↔
      ∃ reviews, v = .list reviews ∧ reviews.length = figures.length ∧
        RoundsCrash host links d produced supplied reviews [] figures := by
  rw [crashes_eval_bind]
  constructor
  · rintro (raises | ⟨reviews, isList, crash⟩)
    · exact absurd raises raises_reviews
    · rw [crashes_need_bind, crashes_figureLoop, beq_iff_eq] at crash
      exact ⟨reviews, reviews_eq_ok.mp isList, crash⟩
  · rintro ⟨reviews, isList, crash⟩
    refine .inr ⟨reviews, reviews_eq_ok.mpr isList, ?_⟩
    rw [crashes_need_bind, crashes_figureLoop, beq_iff_eq]
    exact crash

theorem crashes_reviews {figures : List Value} :
    Crashes host links d (do
        let reviewed ← reviewsOf host figures
        let reviews ← (liftM (eval (match reviewed with
          | .list items => .ok items
          | _ => .error (.value "Review must cover every figure"))) : Gate (List Value))
        Gate.need (reviews.length == figures.length) "Review must cover every figure"
        figureLoop host produced supplied reviews [] figures) paths ↔
      figures ≠ [] ∧ (Unloadable host links d "figure-review.json" ∨ ∃ review reviews,
        Located d "figure-review.json" false ∧
          d.Contains host "figure-review.json" (.dict review) ∧
          (review.lookup "figures").getD (.list []) = .list reviews ∧
          reviews.length = figures.length ∧
          RoundsCrash host links d produced supplied reviews [] figures) := by
  rw [crashes_bind]
  simp only [crashes_reviewed]
  unfold reviewsOf
  cases figures with
  | nil =>
      refine iff_of_false ?_ fun h => h.1 rfl
      rw [List.isEmpty_nil, if_pos rfl, or_iff_right (crashes_pure _)]
      rintro ⟨_, between, -, reviews, -, -, crash⟩
      cases crash
  | cons fig rest =>
      rw [List.isEmpty_cons, if_neg Bool.false_ne_true, and_iff_right (List.cons_ne_nil _ _),
        crashes_load_bind]
      simp only [crashes_eval, passes_load_bind, passes_eval, Value.raises_get,
        Value.not_isFieldless_dict, and_false, exists_false, or_false, Value.get_eq_ok,
        Value.dict.injEq, exists_eq_left']
      refine or_congr_right ?_
      constructor
      · rintro ⟨_, _, ⟨review, ⟨located, contains⟩, rfl, -⟩, reviews, reviewed, covers, crash⟩
        exact ⟨review, reviews, located, contains, reviewed, covers, crash⟩
      · rintro ⟨review, reviews, located, contains, reviewed, covers, crash⟩
        exact ⟨_, _, ⟨review, ⟨located, contains⟩, rfl, rfl⟩, reviews, reviewed, covers, crash⟩

/-- The gate of the figures crashes exactly at the values listed in `FiguresCrash`. -/
theorem crashes_figuresGate :
    Crashes host links d (figuresGate host produced supplied) paths ↔
      FiguresCrash host links d produced supplied := by
  unfold figuresGate
  simp only [crashes_load_bind, crashes_eval_bind, crashes_need_bind, Value.raises_get,
    Value.raises_iter, Value.not_isFieldless_dict, Value.get_eq_ok, Value.dict.injEq,
    exists_eq_left', exists_eq_left, false_or]
  constructor
  · rintro (unloadable |
      ⟨manifest, ⟨located, contains⟩, isList, figures', iterated, reasoned, crash⟩)
    · exact .manifest unloadable
    · obtain ⟨figures, listed⟩ := Value.isList_eq_true.mp isList
      rw [listed] at iterated
      obtain rfl := Except.ok.inj iterated
      obtain ⟨some_, crash⟩ := crashes_reviews.mp crash
      have lists : Lists manifest "figures" figures := ⟨Value.getD_none_eq_list.mp listed, some_⟩
      obtain unloadable | ⟨review, reviews, located', contains', reviewed, covers, crash⟩ := crash
      · exact .reviews located contains lists unloadable
      · exact .figure located contains lists located' contains' reviewed covers crash
  · intro crash
    obtain unloadable | ⟨manifest, figures, located, contains, ⟨listed, some_⟩, crash⟩ :
        Unloadable host links d "figure-manifest.json" ∨ ∃ manifest figures,
          Located d "figure-manifest.json" false ∧
          d.Contains host "figure-manifest.json" (.dict manifest) ∧
          Lists manifest "figures" figures ∧ (Unloadable host links d "figure-review.json" ∨
            ∃ review reviews, Located d "figure-review.json" false ∧
              d.Contains host "figure-review.json" (.dict review) ∧
              (review.lookup "figures").getD (.list []) = .list reviews ∧
              reviews.length = figures.length ∧
              RoundsCrash host links d produced supplied reviews [] figures) := by
      cases crash with
      | manifest unloadable => exact .inl unloadable
      | reviews located contains listed unloadable =>
          exact .inr ⟨_, _, located, contains, listed, .inl unloadable⟩
      | figure located contains listed located' contains' reviewed covers crash =>
          exact .inr ⟨_, _, located, contains, listed,
            .inr ⟨_, _, located', contains', reviewed, covers, crash⟩⟩
    · exact .inl unloadable
    · have found_ := Value.getD_none_eq_list.mpr listed
      refine .inr ⟨manifest, ⟨located, contains⟩, Value.isList_eq_true.mpr ⟨_, found_⟩, figures,
        congrArg Value.iter found_, ?_, crashes_reviews.mpr ⟨some_, crash⟩⟩
      rw [List.isEmpty_eq_false_iff.mpr some_]
      rfl

end Figures

section Publication

variable {state : State} {stage : StageId} {executions : List Receipt}

/-- The gate of the stage crashes on the documents of the project. -/
inductive PublicationCrash (host : Host) (links : Path → Alias) (d : Disk) (state : State)
    (executions : List Receipt) : StageId → Prop where
  | figures (current : state.format = .v2)
      (crash : FiguresCrash host links d (outputDigests executions) (inputDigests executions)) :
      PublicationCrash host links d state executions .figures
  | report (current : state.format = .v2) (pdf : state.requirePdf = true)
      (crash : PaperCrash host links d) : PublicationCrash host links d state executions .report
  | compile (current : state.format = .v2)
      (crash : CompileCrash host links d (outputDigests executions) (state.stages.lookup .report)) :
      PublicationCrash host links d state executions .compile
  | inspect (current : state.format = .v2)
      (crash : InspectCrash host links d (outputDigests executions)) :
      PublicationCrash host links d state executions .inspect

/-- On an undisturbed disk `publication_files` ends unreported exactly if the gate of its stage
crashes. -/
theorem raises_publicationFiles :
    Raises ((publicationFiles host state stage executions).answered (look host links d)) ↔
      PublicationCrash host links d state executions stage := by
  unfold publicationFiles
  cases version : state.format with
  | v1 =>
      refine iff_of_false (raises_ok _) ?_
      rintro (⟨current, -⟩ | ⟨current, -⟩ | ⟨current, -⟩ | ⟨current, -⟩)
      all_goals
        rw [version] at current
        cases current
  | v2 =>
      simp only [answered_bind, answered_pure, raises_bind, raises_ok, and_false, exists_false,
        or_false]
      cases stage with
      | figures =>
          refine crashes_figuresGate.trans ⟨.figures version, ?_⟩
          intro crash
          cases crash with
          | figures _ crash => exact crash
      | report =>
          cases pdf : state.requirePdf with
          | true =>
              refine crashes_paperGate.trans ⟨.report version pdf, ?_⟩
              intro crash
              cases crash with
              | report _ _ crash => exact crash
          | false =>
              refine iff_of_false (crashes_pure ()) ?_
              intro crash
              cases crash with
              | report _ wanted _ =>
                  rw [pdf] at wanted
                  cases wanted
      | compile =>
          refine crashes_compileGate.trans ⟨.compile version, ?_⟩
          intro crash
          cases crash with
          | compile _ crash => exact crash
      | inspect =>
          refine crashes_inspectGate.trans ⟨.inspect version, ?_⟩
          intro crash
          cases crash with
          | inspect _ crash => exact crash
      | _ =>
          refine iff_of_false (crashes_pure ()) ?_
          intro crash
          cases crash

end Publication

end Mathmodel.Workflow
