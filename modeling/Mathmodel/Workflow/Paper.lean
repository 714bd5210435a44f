import Mathmodel.Workflow.Gates

/-!
# The compiled paper is the frozen one

The gate of the stage `compile` compares the sources that the compile report names
with the manifest of the paper and with the files that the report stage registered.
A path that is spelled in another way than the registered one is not found there,
and what is not found equals `null`; so the paper is bound to its sources exactly if
no source, taken by its last entry, declares `null` as its digest.
-/

namespace Mathmodel.Workflow

open Dialogue
open Gate (Passes)

variable {host : Host} {links : Path → Alias} {d d' : Disk} {paths paths' : List String}

/-- Only receipts are looked up under their names; every other file is the user's. -/
theorem content_of_user {path : Path} (outside : path.headD "" ≠ ".workflow") :
    d.content host path = match d.files.lookup path with
      | some (.file content) => some content
      | _ => none := by
  have absent : (d.receipts.find? fun r => parts (receiptName r.id) = path) = none := by
    refine List.find?_eq_none.mpr fun r _ same => outside ?_
    rw [← of_decide_eq_true same]
    exact headD_receiptName r.id
  unfold Disk.content
  split
  case h_1 r found =>
      rw [absent] at found
      cases found
  case h_2 => rfl

section Sources

/-- A source that the compile report names. -/
def Names (entry : Value) (path sha : Value) : Prop :=
  ∃ fields, entry = .dict fields ∧ fields.lookup "path" = some path ∧
    fields.lookup "sha256" = some sha

theorem sourceDigests_cons {table table' : List (Value × Value)} {r : Value} {rest : List Value} :
    sourceDigests table (r :: rest) = .ok table' ↔
      ∃ path sha, Names r path sha ∧ path.hashable = .ok () ∧
        sourceDigests (setSource table path sha) rest = .ok table' := by
  rw [sourceDigests]
  simp only [bind_eq_ok, Value.item_eq_ok, Names]
  constructor
  · rintro ⟨path, ⟨fields, rfl, named⟩, sha, ⟨_, ⟨⟩, declared⟩, _, hashable, rest⟩
    exact ⟨path, sha, ⟨fields, rfl, named, declared⟩, hashable, rest⟩
  · rintro ⟨path, sha, ⟨fields, rfl, named, declared⟩, hashable, rest⟩
    exact ⟨path, ⟨fields, rfl, named⟩, sha, ⟨fields, rfl, declared⟩, (), hashable, rest⟩

/-- The source is in the table after it is set. -/
theorem mem_setSource_self (table : List (Value × Value)) (p : String) (sha : Value) :
    (.str p, sha) ∈ setSource table (.str p) sha := by
  unfold setSource
  split
  next known =>
    obtain ⟨e, mem, same⟩ := List.any_eq_true.mp known
    refine List.mem_map.mpr ⟨e, mem, ?_⟩
    rw [if_pos same, Value.same_str.mp same]
  next => exact List.mem_append_right _ (List.mem_singleton.mpr rfl)

/-- Setting a source replaces its entry. -/
theorem eq_of_mem_setSource {table : List (Value × Value)} {p : String} {sha v : Value}
    (mem : (.str p, v) ∈ setSource table (.str p) sha) : v = sha := by
  unfold setSource at mem
  have itself : (Value.str p).same (.str p) = true := Value.same_str.mpr rfl
  split at mem
  next =>
    obtain ⟨e, -, same⟩ := List.mem_map.mp mem
    split at same
    · exact (Prod.mk.inj same).2.symm
    next other =>
      rw [same] at other
      exact absurd itself other
  next absent =>
    obtain mem | mem := List.mem_append.mp mem
    · exact absurd (List.any_eq_true.mpr ⟨_, mem, itself⟩) absent
    · exact (Prod.mk.inj (List.mem_singleton.mp mem)).2

/-- Setting another source changes nothing. -/
theorem mem_setSource_of_ne {table : List (Value × Value)} {p : String} {path sha v : Value}
    (other : path ≠ .str p) :
    (.str p, v) ∈ setSource table path sha ↔ (.str p, v) ∈ table := by
  have apart : ((Value.str p).same path) ≠ true := fun same => other (Value.str_same.mp same)
  unfold setSource
  split
  next =>
    constructor
    · intro mem
      obtain ⟨e, there, same⟩ := List.mem_map.mp mem
      split at same
      next equal =>
        rw [(Prod.mk.inj same).1] at equal
        exact absurd equal apart
      next => exact same ▸ there
    · intro mem
      refine List.mem_map.mpr ⟨_, mem, ?_⟩
      rw [if_neg apart]
  next =>
    rw [List.mem_append, List.mem_singleton, Prod.mk.injEq, or_iff_left]
    exact fun same => other same.1.symm

/-- No entry behind speaks of the path. -/
def Last (rest : List Value) (p : String) : Prop := ∀ r ∈ rest, ∀ sha, ¬ Names r (.str p) sha

/-- What the dictionary holds for a path is what the last entry of the path declares. -/
theorem mem_sourceDigests {sources : List Value} {table table' : List (Value × Value)} {p : String}
    {v : Value} (done : sourceDigests table sources = .ok table') :
    (.str p, v) ∈ table' ↔
      (∃ before r after, sources = before ++ r :: after ∧ Names r (.str p) v ∧ Last after p) ∨
        (.str p, v) ∈ table ∧ Last sources p := by
  induction sources generalizing table with
  | nil =>
      cases done
      simp [Last]
  | cons r rest ih =>
      obtain ⟨path, sha, names, -, done⟩ := sourceDigests_cons.mp done
      have unique : ∀ path' sha', Names r path' sha' → path' = path ∧ sha' = sha := by
        obtain ⟨fields, rfl, named, declared⟩ := names
        rintro path' sha' ⟨_, ⟨⟩, named', declared'⟩
        exact ⟨Option.some.inj (named'.symm.trans named),
          Option.some.inj (declared'.symm.trans declared)⟩
      rw [ih done]
      constructor
      · rintro (⟨before, r', after, rfl, names', last⟩ | ⟨mem, last⟩)
        · exact .inl ⟨r :: before, r', after, rfl, names', last⟩
        · by_cases same : path = .str p
          · subst same
            obtain rfl := eq_of_mem_setSource mem
            exact .inl ⟨[], r, rest, rfl, names, last⟩
          · refine .inr ⟨(mem_setSource_of_ne same).mp mem, ?_⟩
            intro r' mem' sha' names'
            obtain rfl | mem' := List.mem_cons.mp mem'
            · exact same (unique _ _ names').1.symm
            · exact last r' mem' sha' names'
      · rintro (⟨before, r', after, split_, names', last⟩ | ⟨mem, last⟩)
        · cases before with
          | nil =>
              obtain ⟨rfl, rfl⟩ := List.cons.inj split_
              obtain ⟨rfl, rfl⟩ := unique _ _ names'
              exact .inr ⟨mem_setSource_self table p _, last⟩
          | cons _ before =>
              obtain ⟨-, rfl⟩ := List.cons.inj split_
              exact .inl ⟨before, r', after, rfl, names', last⟩
        · have other : path ≠ .str p := by
            rintro rfl
            exact last r List.mem_cons_self sha names
          exact .inr ⟨(mem_setSource_of_ne other).mpr mem,
            fun r' mem' => last r' (List.mem_cons_of_mem _ mem')⟩

/-- A path that some entry speaks of has a last entry. -/
theorem exists_last {sources : List Value} {p : String} {r sha : Value} (mem : r ∈ sources)
    (names : Names r (.str p) sha) : ∃ before r after sha,
      sources = before ++ r :: after ∧ Names r (.str p) sha ∧ Last after p := by
  induction sources generalizing r sha with
  | nil => cases mem
  | cons first rest ih =>
      by_cases last : Last rest p
      · obtain rfl | mem := List.mem_cons.mp mem
        · exact ⟨[], r, rest, sha, rfl, names, last⟩
        · exact absurd names (last r mem sha)
      · simp only [Last, not_forall, not_not] at last
        obtain ⟨r', mem', sha', names'⟩ := last
        obtain ⟨before, r'', after, sha'', rfl, known⟩ := ih mem' names'
        exact ⟨first :: before, r'', after, sha'', rfl, known⟩

/-- Where all keys of the dictionary are texts, so are all paths. -/
theorem sourceDigests_texts {sources : List Value} {table table' : List (Value × Value)}
    (done : sourceDigests table sources = .ok table') (texts : ∀ e ∈ table', ∃ p, e.1 = .str p) :
    (∀ e ∈ table, ∃ p, e.1 = .str p) ∧ ∀ r ∈ sources, ∃ p sha, Names r (.str p) sha := by
  induction sources generalizing table with
  | nil =>
      cases done
      exact ⟨texts, nofun⟩
  | cons r rest ih =>
      obtain ⟨path, sha, names, -, done⟩ := sourceDigests_cons.mp done
      obtain ⟨keys, others⟩ := ih done
      have isText : ∃ p, path = .str p := by
        unfold setSource at keys
        split at keys
        next known =>
          obtain ⟨e, mem, same⟩ := List.any_eq_true.mp known
          obtain ⟨p, text⟩ := keys (e.1, sha)
            (List.mem_map.mpr ⟨e, mem, if_pos same⟩)
          change e.1 = .str p at text
          rw [text, Value.str_same] at same
          exact ⟨p, same⟩
        next => exact keys (path, sha) (List.mem_append_right _ (List.mem_singleton.mpr rfl))
      obtain ⟨p, rfl⟩ := isText
      refine ⟨?_, ?_⟩
      · intro e mem
        unfold setSource at keys
        split at keys
        next =>
          by_cases same : e.1.same (.str p) = true
          · exact ⟨p, Value.same_str.mp same⟩
          · exact keys e (List.mem_map.mpr ⟨e, mem, if_neg same⟩)
        next => exact keys e (List.mem_append_left _ mem)
      · intro r' mem
        obtain rfl | mem := List.mem_cons.mp mem
        · exact ⟨p, sha, names⟩
        · exact others r' mem

end Sources

section Compile

@[simp] theorem matches_none {name : String} : Matches host d name .none ↔ Evident host d name :=
  ⟨fun h => h.1, fun h => ⟨h, nofun⟩⟩

/-- A command that returned 0, as Python compares it. -/
def Returned (entry : Value) : Prop :=
  ∃ fields code, entry = .dict fields ∧ fields.lookup "returncode" = some code ∧
    code.beq (.int 0) = true

theorem allReturned_eq_true {entries : List Value} :
    allReturned entries = .ok true ↔ ∀ entry ∈ entries, Returned entry := by
  induction entries with
  | nil => exact ⟨fun _ => nofun, fun _ => rfl⟩
  | cons entry rest ih =>
      rw [allReturned, List.forall_mem_cons, ← ih]
      simp only [bind_eq_ok, Value.item_eq_ok, Returned]
      constructor
      · rintro ⟨code, ⟨fields, rfl, returned⟩, done⟩
        split at done
        next zero => exact ⟨⟨fields, code, rfl, returned, zero⟩, done⟩
        next => cases done
      · rintro ⟨⟨fields, code, rfl, returned, zero⟩, done⟩
        refine ⟨code, ⟨fields, rfl, returned⟩, ?_⟩
        rw [if_pos zero]
        exact done

/-- Only a list has entries with a return code. -/
theorem commands_list {commands : Value} {entries : List Value} :
    (commands.truthy = true ∧ commands.iter = .ok entries ∧ ∀ entry ∈ entries, Returned entry) ↔
      commands = .list entries ∧ entries ≠ [] ∧ ∀ entry ∈ entries, Returned entry := by
  have texts : ∀ {α : Type} {l : List α} {f : α → String}, l ≠ [] →
      entries = l.map (fun a => .str (f a)) → ¬ ∀ entry ∈ entries, Returned entry := by
    rintro α l f some_ rfl returned
    obtain ⟨a, rest, rfl⟩ := List.exists_cons_of_ne_nil some_
    obtain ⟨_, _, object, -⟩ := returned (.str (f a)) (by simp)
    cases object
  constructor
  · rintro ⟨truthy, iterated, returned⟩
    cases commands with
    | list items =>
        obtain rfl := Except.ok.inj iterated
        exact ⟨rfl, by simpa [Value.truthy] using truthy, returned⟩
    | dict fields =>
        exact absurd returned (texts (by simpa [Value.truthy] using truthy)
          (Except.ok.inj iterated).symm)
    | str s =>
        refine absurd returned (texts (l := s.toList) ?_ (Except.ok.inj iterated).symm)
        intro none
        rw [Value.truthy, bne_iff_ne] at truthy
        exact truthy (String.toList_inj.mp none)
    | _ => cases iterated
  · rintro ⟨rfl, some_, returned⟩
    exact ⟨by simpa [Value.truthy] using some_, rfl, returned⟩

/-- What the report of a compilation consists of. -/
structure Compilation where
  report : List (String × Value)
  pdf : List (String × Value)
  sha : Value
  entries : List Value
  record : Record
  paper : List (String × Value)
  sources : List Value
  table : List (Value × Value)
  files : List Value
  latexLog : String

/-- The log that a command names. -/
def logOf : Value → List String
  | .dict fields => (fields.lookup "log").elim [] noted
  | _ => []

/-- The paths that the gate notes, in order. -/
def Compilation.names (x : Compilation) : List String :=
  ["compile-report.json", "report.pdf", "compile-report.json", "report.pdf",
    "paper-manifest.json"] ++
    x.table.flatMap (fun e => noted e.1) ++ x.entries.flatMap logOf ++ [x.latexLog]

/-- The digest that the report stage registered, as the value that is compared. -/
def frozenValue (record : Record) (p : String) : Value :=
  match (digests record.files).lookup p with
  | some sha => .str sha
  | none => .none

/-- A compilation that passes its gate. -/
structure CompilePasses (host : Host) (d : Disk) (produced : List (String × String))
    (report : Option Record) (x : Compilation) : Prop where
  reported : ∃ sha, produced.lookup "compile-report.json" = some sha ∧
    Matches host d "compile-report.json" (.str sha)
  printed : ∃ sha, produced.lookup "report.pdf" = some sha ∧ Matches host d "report.pdf" (.str sha)
  document : d.Contains host "compile-report.json" (.dict x.report)
  status : x.report.lookup "status" = some (.str "succeeded")
  errors : ((x.report.lookup "errors").getD .none).truthy = false
  pdf : x.report.lookup "pdf" = some (.dict x.pdf)
  sha : x.pdf.lookup "sha256" = some x.sha
  rendered : Matches host d "report.pdf" x.sha
  path : x.pdf.lookup "path" = some (.str "report.pdf")
  commands : x.report.lookup "commands" = some (.list x.entries)
  some_ : x.entries ≠ []
  returned : ∀ entry ∈ x.entries, Returned entry
  record : report = some x.record
  manifest : Located d "paper-manifest.json" false
  paper : d.Contains host "paper-manifest.json" (.dict x.paper)
  sources : ∃ v, x.report.lookup "sources" = some v ∧ v.iter = .ok x.sources
  table : sourceDigests [] x.sources = .ok x.table
  files : ∃ v, x.paper.lookup "files" = some v ∧ v.iter = .ok x.files
  hashable : allHashable x.files = .ok ()
  same : sameMembers (x.table.map (·.1)) x.files = true
  frozen : ∀ e ∈ x.table, ∃ p, e.1 = .str p ∧ (frozenValue x.record p).beq e.2 = true ∧
    Matches host d p e.2
  logs : ∀ entry ∈ x.entries, ∃ fields log, entry = .dict fields ∧
    fields.lookup "log" = some (.str log) ∧ Evident host d log
  latexLog : x.report.lookup "latex_log" = some (.str x.latexLog)
  latexLogged : Evident host d x.latexLog

theorem passes_frozenSource {record : Record} {e : Value × Value} {u : Unit} :
    Passes host links d (frozenSource host (digests record.files) e) paths u paths' ↔
      (∃ p, e.1 = .str p ∧ (frozenValue record p).beq e.2 = true ∧ Matches host d p e.2) ∧
        paths' = paths ++ noted e.1 := by
  unfold frozenSource
  simp only [passes_eval_bind, passes_need_bind, passes_file_bind, passes_pure]
  constructor
  · rintro ⟨found_, looked, equal, p, text, matched, -, rfl⟩
    rw [text] at looked
    obtain rfl := Except.ok.inj looked
    refine ⟨⟨p, text, equal, matched⟩, ?_⟩
    rw [text]
    rfl
  · rintro ⟨⟨p, text, equal, matched⟩, rfl⟩
    refine ⟨(digests record.files).lookup p, ?_, equal, p, text, matched, trivial, ?_⟩
    · rw [text]
      rfl
    · rw [text]
      rfl

theorem passes_commandLog {entry : Value} {u : Unit} :
    Passes host links d (do
        let log ← (liftM (eval (entry.item "log")) : Gate Value)
        let _ ← file host log .none
        pure ()) paths u paths' ↔
      (∃ fields log, entry = .dict fields ∧ fields.lookup "log" = some (.str log) ∧
        Evident host d log) ∧ paths' = paths ++ logOf entry := by
  simp only [passes_eval_bind, passes_file_bind, passes_pure, Value.item_eq_ok, matches_none]
  constructor
  · rintro ⟨_, ⟨fields, rfl, listed⟩, log, rfl, evident, -, rfl⟩
    refine ⟨⟨fields, log, rfl, listed, evident⟩, ?_⟩
    rw [logOf, listed]
    rfl
  · rintro ⟨⟨fields, log, rfl, listed, evident⟩, rfl⟩
    refine ⟨_, ⟨fields, rfl, listed⟩, log, rfl, evident, trivial, ?_⟩
    rw [logOf, listed]
    rfl

theorem passes_compileGate {produced : List (String × String)} {report : Option Record} :
    Passes host links d (compileGate host produced report) paths () paths' ↔
      ∃ x, CompilePasses host d produced report x ∧ paths' = paths ++ x.names := by
  unfold compileGate
  simp only [passes_generated_bind, passes_load_bind, passes_eval_bind, passes_need_bind,
    passes_file_bind, Value.str.injEq, exists_eq_left', exists_eq_left, Value.get_eq_ok,
    Value.item_eq_ok, Value.dict.injEq, Value.beq_str, Bool.not_eq_true', passes_pure,
    passes_forM_bind fun _ _ _ => passes_frozenSource,
    passes_forM_bind fun _ _ _ => passes_commandLog]
  constructor
  · rintro ⟨s₁, reported, s₂, printed, fields, ⟨-, document⟩, status, errors, _, hasPdf, sha,
      ⟨pdf, rfl, hasSha⟩, rendered, _, ⟨_, ⟨⟩, hasPath⟩, rfl, truthy, entries, iterated,
      _, returned, rfl, rest⟩
    obtain ⟨record, registered, paper, ⟨manifest, contains⟩, _, hasSources, sources, listed, table,
      collected, _, hasFiles, files, listed', _, hashable, same, frozen, logs, _, hasLog, log, rfl,
      logged, -, rfl⟩ := rest
    have known : report = some record := by
      cases report with
      | none => cases registered
      | some r => exact congrArg some (Except.ok.inj registered)
    obtain ⟨commands, some_, returned⟩ :=
      commands_list.mp ⟨truthy, iterated, allReturned_eq_true.mp returned⟩
    rw [Value.getD_none_eq_str] at status
    rw [Value.getD_none_eq_list] at commands
    refine ⟨⟨fields, pdf, sha, entries, record, paper, sources, table, files, log⟩,
      ⟨⟨s₁, reported⟩, ⟨s₂, printed⟩, document, status, errors, hasPdf, hasSha, rendered, hasPath,
        commands, some_, returned, known, manifest, contains, ⟨_, hasSources, listed⟩, collected,
        ⟨_, hasFiles, listed'⟩, hashable, same, frozen, logs, hasLog, matches_none.mp logged⟩, ?_⟩
    simp [Compilation.names]
  · rintro ⟨x, h, rfl⟩
    obtain ⟨s₁, reported⟩ := h.reported
    obtain ⟨s₂, printed⟩ := h.printed
    obtain ⟨sources, hasSources, listed⟩ := h.sources
    obtain ⟨files, hasFiles, listed'⟩ := h.files
    obtain ⟨truthy, iterated, returned⟩ := commands_list.mpr ⟨rfl, h.some_, h.returned⟩
    refine ⟨s₁, reported, s₂, printed, x.report, ⟨reported.2.1.located, h.document⟩, ?_, h.errors,
      _, h.pdf, x.sha, ⟨x.pdf, rfl, h.sha⟩, h.rendered, _, ⟨x.pdf, rfl, h.path⟩, rfl, ?_, x.entries,
      ?_, true, allReturned_eq_true.mpr returned, rfl, x.record, ?_, x.paper, ⟨h.manifest, h.paper⟩,
      sources, hasSources, x.sources, listed, x.table, h.table, files, hasFiles, x.files, listed',
      (), h.hashable, h.same, h.frozen, h.logs, _, h.latexLog, x.latexLog, rfl,
      matches_none.mpr h.latexLogged, trivial, ?_⟩
    · exact Value.getD_none_eq_str.mpr h.status
    · rw [h.commands]
      exact truthy
    · rw [h.commands]
      exact iterated
    · rw [h.record]
    · simp [Compilation.names]

end Compile

section Papered

/-- The report of a project that wants a PDF was registered with the manifest of the paper. -/
def Papered (s : Site) : Prop :=
  ∀ state, s.disk.state = some state → ∀ record, (.report, record) ∈ state.stages →
    record.Covers state .report

theorem Papered.wrote {s t : Site} {new : State} (wrote : Wrote s new t)
    (covers : ∀ record, (.report, record) ∈ new.stages → record.Covers new .report) :
    Papered t := by
  intro state found_
  obtain rfl := Option.some.inj (wrote.state.symm.trans found_)
  exact covers

theorem Papered.unchanged {s t : Site} (same : t.disk.state = s.disk.state) (h : Papered s) :
    Papered t := fun state found_ => h state (same ▸ found_)

theorem Deed.papered {c : Command} {entry s t : Site} (deed : Deed host c entry s t)
    (h : Papered s) : Papered t := by
  cases deed with
  | still still => exact h.unchanged still.disk.state
  | created args state command vacant unused stages history revision inputs wrote =>
      refine .wrote wrote fun record mem => ?_
      rw [stages] at mem
      cases mem
  | registered state stage step record found_ ready justified covers wrote =>
      rw [← ready.id] at wrote covers
      refine .wrote wrote fun other mem => ?_
      rw [State.keys_register (State.current_not_mem ready.current)] at mem
      obtain mem | mem := List.mem_append.mp mem
      · exact h state found_ other mem
      · obtain ⟨same, rfl⟩ := Prod.mk.inj (List.mem_singleton.mp mem)
        rw [← same] at covers
        exact covers
  | reopened state stage time reason found_ resolved enabled wrote =>
      exact .wrote wrote fun record mem => h state found_ record (List.mem_of_mem_filter mem)
  | refreshed state time reason refs found_ resolved inputs wrote =>
      exact .wrote wrote fun record mem => h _ found_ record mem
  | upgraded state time reason legacy found_ resolved wrote =>
      refine .wrote wrote fun record mem => ?_
      have apart := state.not_mem_since_reopened .report time reason .report
        (List.mem_map_of_mem (f := (·.1)) mem)
      exact absurd ((State.since_legacy legacy _).mpr (.inl rfl)) apart
  | opened _ _ _ _ _ _ _ _ _ _ _ _ _ filed => exact h.unchanged filed.state
  | updated _ _ _ _ _ _ _ _ _ filed _ => exact h.unchanged filed.state
  | abandoned _ _ _ _ _ _ _ _ _ filed => exact h.unchanged filed.state

theorem Session.papered {m : Session} (reachable : Session.Reachable host m) : Papered m.state :=
  Session.induction (I := Papered) nofun (fun _ _ h => h) (fun _ _ _ _ _ h deed => deed.papered h)
    reachable

end Papered

section Frozen

/-- An output of a cited execution of the stage `compile`, which has the recorded digest. -/
def CompiledBy (host : Host) (d : Disk) (args : CompleteArgs) (state : State) (name : String) :
    Prop :=
  ∃ id ∈ args.execution, ∃ r ∈ d.receipts, r.id = id ∧ r.status = .succeeded ∧
    r.stage = .compile ∧ r.revision = state.revision ∧
    ∃ ref ∈ r.outputs, ref.path = name ∧ d.HasDigest host (parts name) ref.sha256

/-- The documents of a compilation: its report, the sources that it names, the manifest of the
paper and the files that it lists. -/
structure Compiled (host : Host) (d : Disk) (report paper : List (String × Value))
    (sources files : List Value) : Prop where
  reported : d.Contains host "compile-report.json" (.dict report)
  named : ∃ v, report.lookup "sources" = some v ∧ v.iter = .ok sources
  manifest : d.Contains host "paper-manifest.json" (.dict paper)
  listed : ∃ v, paper.lookup "files" = some v ∧ v.iter = .ok files

/-- The accepted PDF comes from the frozen paper. -/
structure CompileBound (host : Host) (d : Disk) (args : CompleteArgs) (state : State)
    (record : Record) (report : List (String × Value)) (sources files : List Value) : Prop where
  registered : ∃ frozen, state.stages.lookup .report = some frozen ∧
    (∃ ref ∈ frozen.files, ref.path = "paper-manifest.json" ∧
      d.HasDigest host (parts "paper-manifest.json") ref.sha256) ∧
    ∀ p, .str p ∈ files → ∃ entry sha, entry ∈ sources ∧ Names entry (.str p) (.str sha) ∧
      (∃ ref ∈ frozen.files, ref.path = p ∧ ref.sha256 = sha) ∧ d.HasDigest host (parts p) sha
  texts : (∀ entry ∈ sources, ∃ p sha, Names entry (.str p) sha) ∧ ∀ v ∈ files, ∃ p, v = .str p
  same : ∀ p, (∃ entry ∈ sources, ∃ sha, Names entry (.str p) sha) ↔ .str p ∈ files
  outputs : CompiledBy host d args state "report.pdf" ∧
    CompiledBy host d args state "compile-report.json"
  commands : ∃ commands, report.lookup "commands" = some (.list commands) ∧
    ∀ entry ∈ commands, Returned entry ∧ ∃ fields log, entry = .dict fields ∧
      fields.lookup "log" = some (.str log) ∧ Registered host d record log
  latexLog : ∃ log, report.lookup "latex_log" = some (.str log) ∧ Registered host d record log

/-- No source, taken by its last entry, declares `null` as its digest. -/
def SourcesDeclared (sources : List Value) : Prop :=
  ∀ before entry after p sha, sources = before ++ entry :: after → Names entry (.str p) sha →
    Last after p → sha ≠ .none

theorem isIn_eq_true {v : Value} {items : List Value} :
    v.isIn items = true ↔ ∃ w ∈ items, v.same w = true := by
  rw [Value.isIn, List.any_eq_true]

theorem lookup_digests_ne_none {refs : List Ref} {ref : Ref} (mem : ref ∈ refs) :
    (digests refs).lookup ref.path ≠ none := by
  have all : ∀ (entries table : List (String × String)),
      (ref.path ∈ entries.map (·.1) ∨ table.lookup ref.path ≠ none) →
      (entries.foldl (fun table e => assign table e.1 e.2) table).lookup ref.path ≠ none := by
    intro entries
    induction entries with
    | nil => exact fun table known => known.resolve_left nofun
    | cons e rest ih =>
        intro table known
        refine ih _ ?_
        rw [List.map_cons, List.mem_cons] at known
        by_cases same : ref.path = e.1
        · rw [same, lookup_assign_self]
          exact .inr nofun
        · rw [lookup_assign_of_ne same]
          exact known.imp_left fun either => either.resolve_left same
  exact all _ [] (.inl (List.mem_map.mpr ⟨_, List.mem_map_of_mem mem, rfl⟩))

section Passed

variable {args : CompleteArgs} {state : State} {c : Completion} {x : Compilation}
variable {produced : List (String × String)} {report : Option Record}

/-- The paths of the dictionary and the files of the manifest are the same texts. -/
theorem CompilePasses.mem_files (h : CompilePasses host d produced report x) (p : String) :
    .str p ∈ x.files ↔ ∃ v, (.str p, v) ∈ x.table := by
  have same := h.same
  rw [sameMembers, Bool.and_eq_true, List.all_eq_true, List.all_eq_true] at same
  constructor
  · intro mem
    obtain ⟨k, listed, equal⟩ := isIn_eq_true.mp (same.2 _ mem)
    obtain ⟨⟨_, v⟩, there, rfl⟩ := List.mem_map.mp listed
    obtain rfl := Value.str_same.mp equal
    exact ⟨v, there⟩
  · rintro ⟨v, there⟩
    obtain ⟨w, mem, equal⟩ := isIn_eq_true.mp (same.1 _ (List.mem_map_of_mem (f := (·.1)) there))
    obtain rfl := Value.str_same.mp equal
    exact mem

theorem CompilePasses.files_texts (h : CompilePasses host d produced report x) :
    ∀ v ∈ x.files, ∃ p, v = .str p := by
  intro v mem
  have same := h.same
  rw [sameMembers, Bool.and_eq_true, List.all_eq_true, List.all_eq_true] at same
  obtain ⟨k, listed, equal⟩ := isIn_eq_true.mp (same.2 _ mem)
  obtain ⟨e, there, rfl⟩ := List.mem_map.mp listed
  obtain ⟨p, text, -⟩ := h.frozen e there
  rw [text] at equal
  exact ⟨p, Value.same_str.mp equal⟩

theorem CompilePasses.mem_table (h : CompilePasses host d produced report x) {p : String}
    {v : Value} : (.str p, v) ∈ x.table ↔ ∃ before r after, x.sources = before ++ r :: after ∧
      Names r (.str p) v ∧ Last after p := by
  rw [mem_sourceDigests h.table]
  exact ⟨fun either => either.resolve_right (nomatch ·.1), .inl⟩

theorem CompilePasses.same_paths (h : CompilePasses host d produced report x) (p : String) :
    (∃ entry ∈ x.sources, ∃ sha, Names entry (.str p) sha) ↔ .str p ∈ x.files := by
  rw [h.mem_files]
  constructor
  · rintro ⟨entry, mem, sha, names⟩
    obtain ⟨before, r, after, sha', split_, names', last⟩ := exists_last mem names
    exact ⟨sha', h.mem_table.mpr ⟨before, r, after, split_, names', last⟩⟩
  · rintro ⟨v, there⟩
    obtain ⟨before, r, after, split_, names, -⟩ := h.mem_table.mp there
    exact ⟨r, split_ ▸ by simp, v, names⟩

/-- A declared digest is that of the report stage. -/
theorem CompilePasses.registered (h : CompilePasses host d produced report x) {p : String}
    {v : Value} (there : (.str p, v) ∈ x.table) (declared : v ≠ .none) :
    ∃ ref ∈ x.record.files, ref.path = p ∧ v = .str ref.sha256 := by
  obtain ⟨_, same, equal, -⟩ := h.frozen _ there
  obtain rfl := Value.str.inj same
  unfold frozenValue at equal
  split at equal
  next sha found_ =>
    obtain ⟨ref, mem, path, rfl⟩ := lookup_digests found_
    exact ⟨ref, mem, path, Value.str_beq.mp equal⟩
  next =>
    cases v with
    | none => exact absurd rfl declared
    | _ => simp [Value.beq] at equal

/-- Where `null` is declared, nothing is registered. -/
theorem CompilePasses.unregistered (h : CompilePasses host d produced report x) {p : String}
    (there : (.str p, .none) ∈ x.table) : ∀ ref ∈ x.record.files, ref.path ≠ p := by
  rintro ref mem rfl
  obtain ⟨_, same, equal, -⟩ := h.frozen _ there
  rw [← Value.str.inj same] at equal
  unfold frozenValue at equal
  split at equal
  next => simp [Value.beq] at equal
  next found_ => exact lookup_digests_ne_none mem found_

end Passed

section Completed

variable {args : CompleteArgs} {state : State} {c : Completion} {x : Compilation}

theorem publicationFiles_compile {executions : List Receipt} {names : List String}
    (current : state.format = .v2) :
    (publicationFiles host state .compile executions).answered (look host links d) = .ok names ↔
      ∃ x, CompilePasses host d (outputDigests executions) (state.stages.lookup .report) x ∧
        names = x.names.eraseDups := by
  unfold publicationFiles
  rw [current]
  simp only [answered_bind, bind_eq_ok, answered_pure, Except.ok.injEq]
  constructor
  · rintro ⟨⟨_, noted⟩, passed, rfl⟩
    obtain ⟨x, passes, rfl⟩ := passes_compileGate.mp passed
    exact ⟨x, passes, rfl⟩
  · rintro ⟨x, passes, rfl⟩
    exact ⟨((), x.names), passes_compileGate.mpr ⟨x, passes, rfl⟩, rfl⟩

theorem Completed.registered_extra (h : Completed host links args state d c d') {name : String}
    (mem : name ∈ c.extra) : Registered host d' (c.record args state) name := by
  obtain ⟨ref, listed, known⟩ := forall₂_left h.more mem
  exact ⟨known.evident.alike h.alike, ref, List.mem_append_right _ listed, known.path,
    known.current.alike h.alike⟩

theorem Completed.compiledBy (h : Completed host links args state d c d')
    (stage : args.stage = .compile) {name sha : String}
    (made : (outputDigests c.executions).lookup name = some sha) :
    CompiledBy host d' args state name := by
  obtain ⟨_, listed, ref, mem, path, -⟩ := lookup_outputDigests made
  obtain ⟨found_, cited, rfl⟩ := List.mem_map.mp listed
  obtain ⟨id, named, cites⟩ := forall₂_right h.evidence cited
  refine ⟨id, named, found_.2, h.alike.receipts ▸ cites.mem.1, cites.mem.2, cites.status,
    cites.stage.trans stage, cites.revision, ref, mem, path, ?_⟩
  rw [← path]
  exact (cites.unchanged ref (List.mem_append_right _ mem)).2.alike h.alike

theorem CompilePasses.declared (h : CompilePasses host d (outputDigests c.executions)
      (state.stages.lookup .report) x) {record : Record} {report : List (String × Value)}
    (bound : CompileBound host d' args state record report x.sources x.files) :
    SourcesDeclared x.sources := by
  rintro before entry after p _ split_ names last rfl
  obtain ⟨frozen, registered, -, each⟩ := bound.registered
  obtain rfl := Option.some.inj (h.record.symm.trans registered)
  have there : (.str p, .none) ∈ x.table :=
    h.mem_table.mpr ⟨before, entry, after, split_, names, last⟩
  obtain ⟨_, _, -, -, ⟨ref, mem, path, -⟩, -⟩ := each p ((h.mem_files p).mpr ⟨_, there⟩)
  exact h.unregistered there ref mem path

/-- A file that the report stage registered has its digest. -/
theorem Completed.frozen (h : Completed host links args state d c d') {record : Record}
    (registered : state.stages.lookup .report = some record) {ref : Ref}
    (mem : ref ∈ record.files) : d'.HasDigest host (parts ref.path) ref.sha256 := by
  have known : ref ∈ state.references :=
    List.mem_append_right _ (List.mem_flatMap.mpr ⟨_, mem_of_lookup registered, mem⟩)
  exact (h.admits.intact ref known).current.alike h.alike

theorem Completed.bound (h : Completed host links args state d c d') (stage : args.stage = .compile)
    (passes : CompilePasses host d (outputDigests c.executions) (state.stages.lookup .report) x)
    (names : c.extra = x.names.eraseDups)
    (covers : ∀ record, (.report, record) ∈ state.stages →
      ∃ ref ∈ record.files, ref.path = "paper-manifest.json")
    (declared : SourcesDeclared x.sources) :
    CompileBound host d' args state (c.record args state) x.report x.sources x.files := by
  have registers : ∀ name ∈ x.names, Registered host d' (c.record args state) name := by
    intro name mem
    refine h.registered_extra ?_
    rw [names]
    exact List.mem_eraseDups.mpr mem
  obtain ⟨sha, made, -⟩ := passes.reported
  obtain ⟨sha', made', -⟩ := passes.printed
  refine ⟨⟨x.record, passes.record, ?_, ?_⟩, ⟨?_, passes.files_texts⟩, passes.same_paths,
    ⟨h.compiledBy stage made', h.compiledBy stage made⟩, ⟨x.entries, passes.commands, ?_⟩,
    x.latexLog, passes.latexLog, registers _ (by simp [Compilation.names])⟩
  · obtain ⟨ref, mem, path⟩ := covers x.record (mem_of_lookup passes.record)
    have current := h.frozen passes.record mem
    rw [path] at current
    exact ⟨ref, mem, path, current⟩
  · intro p mem
    obtain ⟨v, there⟩ := (passes.mem_files p).mp mem
    obtain ⟨before, entry, after, split_, named, last⟩ := passes.mem_table.mp there
    obtain ⟨ref, listed, rfl, rfl⟩ :=
      passes.registered there (declared before entry after p v split_ named last)
    exact ⟨entry, ref.sha256, split_ ▸ by simp, named, ⟨ref, listed, rfl, rfl⟩,
      h.frozen passes.record listed⟩
  · refine (sourceDigests_texts passes.table fun e there => ?_).2
    obtain ⟨p, text, -⟩ := passes.frozen e there
    exact ⟨p, text⟩
  · intro entry mem
    obtain ⟨fields, log, rfl, listed, -⟩ := passes.logs entry mem
    refine ⟨passes.returned _ mem, fields, log, rfl, listed, registers log ?_⟩
    have noted_ : log ∈ x.entries.flatMap logOf := by
      refine List.mem_flatMap.mpr ⟨_, mem, ?_⟩
      rw [logOf, listed]
      exact List.mem_singleton.mpr rfl
    simp [Compilation.names, noted_]

theorem Compiled.alike {report paper : List (String × Value)} {sources files : List Value}
    (h : Compiled host d report paper sources files) (alike : d.Alike d') :
    Compiled host d' report paper sources files :=
  ⟨h.reported.alike alike, h.named, h.manifest.alike alike, h.listed⟩

end Completed

/-- What a completed stage `compile` has passed. -/
theorem compile_ends {state : State} {args : CompleteArgs} {out : Output}
    (ends : Ends (calm host links) (main host (.complete args)) d (.ok out) d')
    (saved : d.state = some state) (current : state.format = .v2)
    (stage : args.stage = .compile) :
    ∃ c x, out = .registered args.stage (c.record args state) ∧
      Completed host links args state d c d' ∧
      CompilePasses host d (outputDigests c.executions) (state.stages.lookup .report) x ∧
      c.extra = x.names.eraseDups ∧ Compiled host d' x.report x.paper x.sources x.files := by
  obtain ⟨_, found_, rest⟩ := main_ends ends fun _ => nofun
  obtain rfl := Option.some.inj (saved.symm.trans found_)
  obtain ⟨c, completed, rfl⟩ := complete_ends rest
  have extra := completed.extra
  rw [stage, publicationFiles_compile current] at extra
  obtain ⟨x, passes, names⟩ := extra
  exact ⟨c, x, rfl, completed, passes, names, Compiled.alike
    ⟨passes.document, passes.sources, passes.paper, passes.files⟩ completed.alike⟩

/-- Where the stage `compile` of a project that wants a PDF is completed, the accepted PDF comes
from the frozen paper exactly if no source, taken by its last entry, declares `null` as its
digest. -/
theorem compile_bound_iff {m : Session} {state : State} {args : CompleteArgs} {out : Output}
    {files : List (Path × Node)} (reachable : Session.Reachable host m)
    (saved : m.state.disk.state = some state) (current : state.format = .v2)
    (pdf : state.requirePdf = true) (stage : args.stage = .compile)
    (ends : Ends (calm host links) (main host (.complete args))
      { m.state.disk with files := files } (.ok out) d') :
    ∃ record report paper sources files, out = .registered .compile record ∧
      d'.state = some (state.register .compile record) ∧
      Compiled host d' report paper sources files ∧
      (CompileBound host d' args state record report sources files ↔ SourcesDeclared sources) := by
  obtain ⟨c, x, rfl, completed, passes, names, compiled⟩ := compile_ends ends saved current stage
  have covers : ∀ record, (.report, record) ∈ state.stages →
      ∃ ref ∈ record.files, ref.path = "paper-manifest.json" := fun record mem =>
    Session.papered reachable state saved record mem rfl current pdf
  refine ⟨c.record args state, x.report, x.paper, x.sources, x.files, by rw [stage], ?_, compiled,
    fun bound => passes.declared bound, completed.bound stage passes names covers⟩
  rw [completed.saved, stage]

namespace Showcase

def paperFiles : List (Path × Node) :=
  [(["figure-manifest.json"], .file [11]), (["paper-manifest.json"], .file [12]),
    (["compile-report.json"], .file [13]), (["main.tex"], .file [14]),
    (["report.pdf"], .file pdfHeader), (["build", "command-1.log"], .file [15]),
    (["build", "main.log"], .file [16])]

/-- The report of a compilation with one source, by its path and the digest it declares. -/
def compileReport (path : String) (sha : Value) : List (String × Value) :=
  [("status", .str "succeeded"), ("errors", .list []),
    ("pdf", .dict [("path", .str "report.pdf"),
      ("sha256", .str ((hostWith []).sha256 pdfHeader))]),
    ("commands", .list [.dict [("returncode", .int 0), ("log", .str "build/command-1.log")]]),
    ("sources", .list [.dict [("path", .str path), ("sha256", sha)]]),
    ("latex_log", .str "build/main.log")]

def paperDocuments (path : String) (sha : Value) : List (Content × Value) :=
  [(verificationContent, verificationDocument),
    ([11], .dict [("figures", .list []), ("reason", .str "a proof")]),
    ([12], .dict [("files", .list [.str path]), ("main", .str path), ("bibliography", .str "none"),
      ("claims", .list [.dict [("text", .str "it holds"), ("evidence", .str "problem.md")]])]),
    ([13], .dict (compileReport path sha))]

/-- A theory up to the execution that compiles its paper. -/
def compiling : List (Command × Oracle × Nat) :=
  [created paperFiles .theory true .v2, completed paperFiles .understand [],
    completed paperFiles .data [], completed paperFiles .baseline [], skipped paperFiles .improve,
    completed paperFiles .verify [], completed paperFiles .figures [],
    completed paperFiles .report [],
    executed paperFiles .compile 'a' ["main.tex"] ["compile-report.json", "report.pdf"]]

def compileArgs : CompleteArgs :=
  { stage := .compile, artifact := [], execution := [ident 'a'], note := "" }

/-- The stage `compile` is completed, for these documents. -/
def compileRun (path : String) (sha : Value) : Option (Except PyErr Output × Disk) :=
  follow (hostWith (paperDocuments path sha)) (fun q => (oracle paperFiles 'a' q).2) 1000
    (disk paperFiles (paperDocuments path sha) compiling)
    (main (hostWith (paperDocuments path sha)) (.complete compileArgs))

/-- The run succeeds on a project of format 2 that wants a PDF. -/
def accepts (path : String) (sha : Value) : Bool :=
  (compileRun path sha).any fun r =>
    r.1.isOk && r.2.state.any fun state => state.format = .v2 ∧ state.requirePdf = true

theorem accepts_iff {path : String} {sha : Value} (h : accepts path sha = true) :
    ∃ state out d', (site (paperDocuments path sha) compiling).disk.state = some state ∧
      state.format = .v2 ∧ state.requirePdf = true ∧
      d'.files = files paperFiles ∧
      Ends (calm (hostWith (paperDocuments path sha)) fun _ => .inside)
        (main (hostWith (paperDocuments path sha)) (.complete compileArgs))
        (disk paperFiles (paperDocuments path sha) compiling) (.ok out) d' := by
  obtain ⟨⟨result, d'⟩, run, shape⟩ := (Option.any_eq_true _ _).mp h
  rw [Bool.and_eq_true] at shape
  obtain ⟨out, rfl⟩ := Except.isOk_iff.mp shape.1
  have ends := follow_ends (fun _ => .inside) (fun _ => rfl) run
  obtain ⟨state, saved, rest⟩ := main_ends ends fun _ => nofun
  obtain ⟨c, completed, -⟩ := complete_ends rest
  have kinds := shape.2
  rw [completed.saved] at kinds
  simp only [Option.any_some, decide_eq_true_eq] at kinds
  rw [disk_state] at saved
  exact ⟨state, out, d', saved, kinds.1, kinds.2, completed.alike.files, ends⟩

/-- The report names the one source. -/
theorem compile_sources {path : String} {sha : Value} {d : Disk}
    {report paper : List (String × Value)} {sources listed : List Value}
    (compiled : Compiled (hostWith (paperDocuments path sha)) d report paper sources listed)
    (same : d.files = files paperFiles) :
    sources = [.dict [("path", .str path), ("sha256", sha)]] := by
  have there : d.content (hostWith (paperDocuments path sha)) (parts "compile-report.json") =
      some [13] := by
    rw [content_of_user (by decide +kernel), same]
    have found_ : (files paperFiles).lookup (parts "compile-report.json") = some (.file [13]) := by
      decide +kernel
    rw [found_]
  obtain ⟨content, there', loaded⟩ := compiled.reported
  obtain rfl := Option.some.inj (there.symm.trans there')
  obtain rfl : compileReport path sha = report := Value.dict.inj (Except.ok.inj loaded)
  obtain ⟨v, named, iterated⟩ := compiled.named
  obtain rfl := Option.some.inj named
  exact (Except.ok.inj iterated).symm

end Showcase

set_option maxRecDepth 100000 in
/-- A source with another spelling of its path and `null` as its digest is accepted. -/
theorem compile_accepts_null : ∃ host state out d' record report paper sources files,
    (Showcase.site (Showcase.paperDocuments "./main.tex" .none)
      Showcase.compiling).disk.state = some state ∧
    state.format = .v2 ∧ state.requirePdf = true ∧
    Ends (calm host fun _ => .inside) (main host (.complete Showcase.compileArgs))
      (Showcase.disk Showcase.paperFiles (Showcase.paperDocuments "./main.tex" .none)
        Showcase.compiling) (.ok out) d' ∧
    out = .registered .compile record ∧ Compiled host d' report paper sources files ∧
    ¬ CompileBound host d' Showcase.compileArgs state record report sources files := by
  have accepted : Showcase.accepts "./main.tex" .none = true := by decide +kernel
  obtain ⟨state, out, d', saved, current, pdf, same, ends⟩ := Showcase.accepts_iff accepted
  obtain ⟨c, x, registered, -, passes, -, compiled⟩ := compile_ends ends saved current rfl
  refine ⟨_, state, out, d', _, x.report, x.paper, x.sources, x.files, saved, current, pdf, ends,
    registered, compiled, fun bound => ?_⟩
  have declared := passes.declared bound
  rw [Showcase.compile_sources compiled same] at declared
  exact declared [] _ [] "./main.tex" .none rfl ⟨_, rfl, rfl, rfl⟩ nofun rfl

set_option maxRecDepth 100000 in
/-- A source with its registered path and digest is accepted, and the paper is bound to it. -/
theorem compile_bound_iff_declared : ∃ host state d' record report sources files,
    (Showcase.site (Showcase.paperDocuments "main.tex"
      (.str ((Showcase.hostWith []).sha256 [14]))) Showcase.compiling).disk.state = some state ∧
    d'.state = some (state.register .compile record) ∧
    CompileBound host d' Showcase.compileArgs state record report sources files := by
  have accepted : Showcase.accepts "main.tex" (.str ((Showcase.hostWith []).sha256 [14])) =
      true := by decide +kernel
  obtain ⟨state, out, d', saved, current, pdf, same, ends⟩ := Showcase.accepts_iff accepted
  obtain ⟨record, report, paper, sources, files, -, saved', compiled, iff⟩ :=
    compile_bound_iff (Showcase.reachable _ Showcase.compiling) saved current pdf rfl ends
  refine ⟨_, state, d', record, report, sources, files, saved, saved', iff.mpr ?_⟩
  rw [Showcase.compile_sources compiled same]
  rintro before entry after p sha split_ ⟨fields, rfl, -, declared⟩ - rfl
  have mem : Value.dict fields ∈ before ++ .dict fields :: after := by simp
  rw [← split_, List.mem_singleton, Value.dict.injEq] at mem
  rw [mem] at declared
  cases declared

end Frozen

end Mathmodel.Workflow
