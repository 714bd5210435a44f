import Mathmodel.Workflow.Deeds

/-!
# Each command keeps to its deeds

One contract for each command: from a project whose receipts refer to blobs
that are there, whatever the answers, every write is a `Deed`. A command that
was refused because of an unresolved execution does not return; what a command
that returns has found is its postcondition.
-/

namespace Mathmodel.Workflow

open Dialogue
open Site (Still)

/-- Every reference of a receipt has its blob, and the logs are in their place. -/
def Disk.Kept (host : Host) (disk : Disk) : Prop :=
  ∀ r ∈ disk.receipts, disk.Holds host r.inputs ∧ disk.Holds host r.outputs ∧ r.LogsInside

/-- What the receipts name stays kept as long as receipts and blobs are the same. -/
theorem Disk.Kept.mono {host : Host} {d d' : Disk} (h : d.Kept host) (same : Disk.Same d d') :
    d'.Kept host := by
  intro r mem
  obtain ⟨inputs, outputs, logs⟩ := h r (same.receipts ▸ mem)
  exact ⟨inputs.mono same, outputs.mono same, logs⟩

theorem headD_parts_workflow (rest : String) :
    (parts (".workflow/executions/" ++ rest)).headD "" = ".workflow" := by
  have text : (".workflow/executions/" ++ rest).toList =
      ".workflow".toList ++ '/' :: ("executions/".toList ++ rest.toList) := by
    have literal : ".workflow/executions/".toList =
        ".workflow".toList ++ '/' :: "executions/".toList := by decide
    rw [String.toList_append, literal, List.append_assoc, List.cons_append]
  rw [parts_cons ⟨by decide, by decide, by decide⟩ text]
  rfl

theorem headD_receiptName (id : String) : (parts (receiptName id)).headD "" = ".workflow" := by
  have shape : receiptName id = ".workflow/executions/" ++ (id ++ ".json") := String.append_assoc
  rw [shape]
  exact headD_parts_workflow _

variable (host : Host) {c : Command} {entry s : Site}

section Init

/-- The inputs that `init` has copied are blobs of the new project. -/
theorem finds_copyInputs (i : Nat) (sources : List Source) :
    Finds host (copyInputs host i sources) fun _ refs u => u.disk.Holds host refs := by
  induction sources generalizing i with
  | nil => exact finds_pure fun _ => nofun
  | cons source rest ih =>
      refine (finds_bind (Reads.ask rfl).finds fun _ =>
        finds_bind (finds_snapshot host (inputName i source) false true) fun ref =>
        finds_bind (ih (i + 1)) fun refs =>
        finds_pure (P := fun _ all _ => all = ref :: refs) fun _ => rfl).mono ?_
      rintro s all u - ⟨_, _, -, -, -, ref, s₁, -, captured, after, refs, s₂, -, held, r₂, rfl⟩
      intro other mem
      obtain rfl | mem := List.mem_cons.mp mem
      · exact captured.backs_external.mono after.disk
      · exact (held other mem).mono r₂.disk

/-- `init` begins a project in which nothing has run. -/
theorem keeps_init (args : InitArgs) :
    Keeps host (.init args) entry (fun _ _ => s.disk.receipts = []) (init host args) s := by
  refine (finds_check _ _).then_ fun _ s₁ a₁ _ => (finds_check _ _).then_ fun _ s₂ a₂ _ => ?_
  refine (finds_ask (P := fun s vacant _ => vacant = true → s.disk.state = none ∧
    s.disk.receipts = []) rfl ?_).then_ fun vacant s₃ a₃ unused => ?_
  · rintro s vacant t served rfl
    exact ⟨(serve_isVacant served).1, (serve_isVacant served).2.1⟩
  refine (finds_check _ _).then_ fun _ s₄ a₄ empty => ?_
  refine (Reads.ask rfl).finds.then_ fun _ s₅ a₅ _ =>
    (Reads.ask rfl).finds.then_ fun _ s₆ a₆ _ => ?_
  refine (Reads.ask rfl).finds.then_ fun _ s₇ a₇ _ => ?_
  refine (finds_copyInputs host 0 _).then_ fun refs s₈ a₈ held => ?_
  refine (Reads.ask rfl).finds.then_ fun _ s₉ a₉ _ => ?_
  refine (Reads.ask rfl).finds.then_ fun time s₁₀ a₁₀ _ => ?_
  refine (finds_check _ _).then_ fun _ s₁₁ a₁₁ _ => ?_
  have last := (a₉.trans a₁₀).trans a₁₁
  have since := (((((a₃.trans a₄).trans a₅).trans a₆).trans a₇).trans a₈).trans last
  obtain ⟨none, nothing⟩ := unused empty
  refine keeps_saveState fun t wrote => ⟨?_, ?_⟩
  · exact .created args _ rfl (since.disk.state.trans none) (since.disk.receipts.trans nothing)
      rfl rfl rfl (held.mono last.disk) wrote
  · exact (a₁.trans a₂).disk.receipts ▸ nothing

end Init

section Complete

/-- The paths of a stage are gathered by looking. -/
theorem views_stagePaths (args : CompleteArgs) (state : State) (step : Stage) :
    Views (stagePaths host args state step) := by
  refine .bind (.ite ?_ (.pure _)) fun _ => .bind (.ite ?_ (.pure _)) fun _ => .pure _
  · refine .bind (views_localPath _ _) fun _ => .bind (.ask rfl) fun _ => ?_
    exact .bind (.eval _) fun _ => .eval _
  · refine .bind (views_localPath _ _) fun _ => .bind (.ask rfl) fun _ => ?_
    exact .bind (.check _ _) fun _ => .pure _

/-- What citing an execution finds: its receipt is that of a success in this stage at
this revision, and the files have blobs if those of the receipt have. -/
structure Cited (host : Host) (stage : StageId) (state : State) (id : String) (s : Site)
    (found : List Ref × Receipt) (t : Site) : Prop where
  receipt : found.2 ∈ s.disk.receipts
  id : found.2.id = id
  status : found.2.status = .succeeded
  stage : found.2.stage = stage
  revision : found.2.revision = state.revision
  files : s.disk.Kept host → t.disk.Holds host found.1

/-- A cited execution is one on the disk that may be cited for the stage. -/
theorem finds_evidenceOf (stage : StageId) (state : State) (id : String) :
    Finds host (evidenceOf host stage state id) (Cited host stage state id) := by
  unfold evidenceOf
  refine (finds_bind (finds_check _ _) fun _ => finds_bind (finds_ask (q := .loadReceipt id) rfl
      fun s r t served => serve_loadReceipt served) fun r =>
    finds_bind (finds_check _ _) fun _ =>
    finds_bind (finds_forM (finds_checkInput host _) _) fun _ =>
    finds_bind (finds_snapshot host (receiptName id) true true) fun own =>
    finds_bind (finds_mapM (fun p => finds_snapshot host p true false) r.logs) fun logs =>
    finds_pure (P := fun _ found _ => found = (r.inputs ++ r.outputs ++ own :: logs, r))
      fun _ => rfl).mono ?_
  rintro s found u - ⟨_, s₁, a₁, -, -, r, s₂, a₂, ⟨mem, same⟩, -, _, s₃, a₃, checked, -, _, s₄, a₄,
    -, -, own, s₅, a₅, captured, r₅, logs, s₆, a₆, logged, r₆, rfl⟩
  simp only [Bool.and_eq_true, decide_eq_true_eq] at checked
  refine ⟨a₁.disk.receipts ▸ mem, same, checked.1.1, checked.1.2, checked.2, ?_⟩
  intro kept
  have all : s₆.disk.Kept host :=
    kept.mono (((((a₁.trans a₂).trans a₃).trans a₄).trans a₅).trans a₆).disk
  have here : r ∈ s₆.disk.receipts := by
    rw [((((a₂.trans a₃).trans a₄).trans a₅).trans a₆).disk.receipts]
    exact mem
  obtain ⟨inputs, outputs, inside⟩ := all r here
  refine ((inputs.append outputs).append ?_).mono r₆.disk
  intro ref mem
  obtain rfl | mem := List.mem_cons.mp mem
  · refine (captured.backs ?_).mono a₆.disk
    rw [headD_receiptName]
    decide
  · exact Captured.holds_internal (Captured.all logged) inside ref mem

/-- The files of all cited executions have blobs. -/
theorem cited_holds {stage : StageId} {state : State} {ids : List String}
    {found : List (List Ref × Receipt)} {s u : Site} (kept : s.disk.Kept host)
    (cited : List.Forall₂ (fun id f => ∃ t t', Still s t ∧ Cited host stage state id t f t' ∧
      Still t' u) ids found) : u.disk.Holds host (found.flatMap (·.1)) := by
  induction cited with
  | nil => exact nofun
  | cons head _ ih =>
      obtain ⟨t, t', before, known, after⟩ := head
      rw [List.flatMap_cons]
      exact ((known.files (kept.mono before.disk)).mono after.disk).append ih

theorem cited_receipts {stage : StageId} {state : State} {ids : List String}
    {found : List (List Ref × Receipt)} {s u : Site}
    (cited : List.Forall₂ (fun id f => ∃ t t', Still s t ∧ Cited host stage state id t f t' ∧
      Still t' u) ids found) :
    ∀ id ∈ ids, ∃ r ∈ s.disk.receipts, r.id = id ∧ r.status = .succeeded ∧ r.stage = stage ∧
      r.revision = state.revision := by
  induction cited with
  | nil => exact nofun
  | cons head _ ih =>
      obtain ⟨t, t', before, known, -⟩ := head
      intro id mem
      obtain rfl | mem := List.mem_cons.mp mem
      · exact ⟨_, before.disk.receipts ▸ known.receipt, known.id, known.status, known.stage,
          known.revision⟩
      · exact ih id mem

/-- `complete` keeps the project in order, and needs every execution ended. -/
theorem keeps_complete {state : State} (args : CompleteArgs) (found : s.disk.state = some state)
    (kept : s.disk.Kept host) :
    Keeps host c entry (fun _ _ => s.disk.Resolved) (complete host args state) s := by
  refine (finds_ready host state args.stage).then_ fun step s₁ a₁ ready => ?_
  refine (views_stagePaths host args state step).looks.reads.finds.then_ fun paths s₂ a₂ _ => ?_
  refine (finds_mapM (fun p => finds_snapshot host p false true) paths).then_
    fun files s₃ a₃ captured => ?_
  refine (finds_mapM (finds_evidenceOf host args.stage state) args.execution).then_
    fun evidence s₄ a₄ cited => ?_
  refine (finds_check _ _).then_ fun _ s₅ a₅ _ => (finds_check _ _).then_ fun _ s₆ a₆ _ => ?_
  refine Finds.then_ ((views_publicationFiles host state args.stage _).looks.reads.finds.returns
    (notes_publicationFiles host state args.stage _)) fun extra s₇ a₇ noted => ?_
  refine (finds_mapM (fun p => finds_snapshot host p false true) extra).then_
    fun more s₈ a₈ captured' => ?_
  refine (Reads.ask rfl).finds.then_ fun time s₉ a₉ _ => ?_
  have early := (a₁.trans a₂).trans a₃
  have late := (((a₅.trans a₆).trans a₇).trans a₈).trans a₉
  have since := (early.trans a₄).trans late
  refine keeps_saveState fun t wrote => ⟨?_, ready.resolved⟩
  refine .registered state args.stage step (.done time state.revision _ args.execution args.note)
    (since.disk.state.trans found)
    ⟨ready.resolved.mono since.disk.receipts, ready.current, ready.id⟩
    ⟨rfl, ?_, ?_⟩ ?_ wrote
  · refine Disk.Holds.append (Disk.Holds.append ?_ ?_) ?_
    · exact (Captured.holds (Captured.all captured)).mono (a₄.trans late).disk
    · exact (cited_holds host (kept.mono early.disk) cited).mono late.disk
    · exact (Captured.holds (Captured.all captured')).mono a₉.disk
  · rw [since.disk.receipts, ready.id, ← early.disk.receipts]
    exact cited_receipts host cited
  · intro report current pdf
    obtain ⟨ref, mem, path⟩ := Captured.paths captured' (noted.2 report current pdf)
    refine ⟨ref, List.mem_append_right _ mem, path.trans ?_⟩
    decide

/-- The report cannot be skipped. -/
theorem optional_ne_report {state : State} {step : Stage} (current : state.current = some step)
    (optional : step.optional = true) : step.id ≠ .report := by
  have all : ∀ s ∈ legacyStages ++ currentStages, s.optional = true → s.id ≠ .report := by decide
  have mem : step ∈ state.active := List.mem_of_find?_eq_some current
  refine all step ?_ optional
  unfold State.active stagesOf at mem
  split at mem
  · exact List.mem_append_left _ (List.mem_of_mem_filter mem)
  · exact List.mem_append_right _ (List.mem_of_mem_filter mem)

/-- `skip` keeps the project in order, and needs every execution ended. -/
theorem keeps_skip {state : State} (stage : StageId) (reason : String)
    (found : s.disk.state = some state) :
    Keeps host c entry (fun _ _ => s.disk.Resolved) (skip host stage reason state) s := by
  refine (finds_ready host state stage).then_ fun step s₁ a₁ ready => ?_
  refine (finds_check _ _).then_ fun _ s₂ a₂ allowed => ?_
  refine (Reads.ask rfl).finds.then_ fun time s₃ a₃ _ => ?_
  have since := (a₁.trans a₂).trans a₃
  rw [Bool.and_eq_true] at allowed
  refine keeps_saveState fun t wrote => ⟨?_, ready.resolved⟩
  exact .registered state stage step (.skipped reason time) (since.disk.state.trans found)
    ⟨ready.resolved.mono since.disk.receipts, ready.current, ready.id⟩ allowed.1
    (fun report _ _ => absurd (ready.id.trans report) (optional_ne_report ready.current allowed.1))
    wrote

end Complete

section Rework

/-- What `reopen` leaves behind: the reopened state, with everything else as it was. -/
structure Reopened (state : State) (stage : StageId) (reason : String) (s : Site) (new : State)
    (t : Site) : Prop where
  made : ∃ time, new = state.reopened stage time reason
  resolved : s.disk.Resolved
  state : t.disk.state = some new
  receipts : t.disk.receipts = s.disk.receipts
  blobs : ∀ sha content, s.disk.blobs.lookup sha = some content →
    t.disk.blobs.lookup sha = some content

/-- `reopen` keeps the project in order, and leaves the receipts and blobs as they were. -/
theorem keeps_reopen {state : State} (stage : StageId) (reason : String)
    (found : s.disk.state = some state) :
    Keeps host c entry (fun new t => Reopened state stage reason s new t)
      (reopen stage reason state) s := by
  refine (finds_check _ _).then_ fun _ s₁ a₁ _ =>
    (finds_pending host).then_ fun active s₂ a₂ now => ?_
  refine (finds_check _ _).then_ fun _ s₃ a₃ none =>
    (finds_check _ _).then_ fun _ s₄ a₄ enabled => ?_
  refine (Reads.ask rfl).finds.then_ fun time s₅ a₅ _ => ?_
  have since := (((a₁.trans a₂).trans a₃).trans a₄).trans a₅
  have resolved : s.disk.Resolved := by
    rw [now, a₁.disk.receipts] at none
    exact resolved_of_filter none
  refine keeps_saveState fun t wrote => ⟨?_, ?_⟩
  · exact .reopened state stage time reason (since.disk.state.trans found)
      (resolved.mono since.disk.receipts) (by simpa using enabled) wrote
  · refine ⟨⟨time, rfl⟩, resolved, wrote.state, wrote.receipts.trans since.disk.receipts, ?_⟩
    intro sha content stored
    rw [wrote.blobs]
    exact since.disk.blobs sha content stored

theorem keeps_refreshInputs {state : State} (reason : String)
    (found : s.disk.state = some state) :
    Keeps host c entry (fun _ _ => s.disk.Resolved) (refreshInputs host reason state) s := by
  refine (finds_mapM (fun r : Ref => finds_snapshot host r.path false true) state.inputs).then_
    fun refs s₁ a₁ captured => ?_
  have held : s₁.disk.Holds host refs := Captured.holds (Captured.all captured)
  refine holds_bind ((keeps_reopen host .understand reason (a₁.disk.state.trans found)).mono
    (fun _ _ deed => deed) ?_ fun _ _ _ => trivial)
  rintro new t ⟨⟨time, rfl⟩, resolved, saved, receipts, blobs⟩
  refine keeps_saveState fun u wrote => ⟨?_, resolved.mono a₁.disk.receipts.symm⟩
  exact .refreshed state time reason refs saved (resolved.mono receipts)
    (held.of_blobs blobs) wrote

theorem reads_replaceBundle : Reads (replaceBundle host) := by
  refine .ite (.pure _) (.bind (.ask rfl) fun _ => .bind (.ask rfl) fun _ => ?_)
  refine .bind (.ask rfl) fun _ => .ite ?_ (.ask rfl)
  exact .bind (.ask rfl) fun _ => .bind (.ask rfl) fun _ => .ask rfl

/-- `upgrade` keeps the project in order, and only upgrades the first format. -/
theorem keeps_upgrade {state : State} (reason : String) (found : s.disk.state = some state) :
    Keeps host c entry (fun _ t => s.disk.Resolved ∧ state.format = .v1 ∧
      ∃ time, t.disk.state = some (state.upgraded time reason)) (upgrade host reason state) s := by
  refine (finds_check _ _).then_ fun _ s₁ a₁ legacy => ?_
  refine (reads_problems host state).finds.then_ fun _ s₂ a₂ _ => ?_
  refine (finds_check _ _).then_ fun _ s₃ a₃ _ => ?_
  have before := (a₁.trans a₂).trans a₃
  have old : state.format = .v1 := by simpa using legacy
  refine holds_bind ((keeps_reopen host .report reason (before.disk.state.trans found)).mono
    (fun _ _ deed => deed) ?_ fun _ _ _ => trivial)
  rintro new t ⟨⟨time, rfl⟩, resolved, saved, receipts, blobs⟩
  refine (reads_replaceBundle host).finds.then_ fun _ s₄ a₄ _ => ?_
  refine keeps_saveState fun u wrote => ⟨?_, resolved.mono before.disk.receipts.symm, old, time,
    wrote.state⟩
  exact .upgraded state time reason old (a₄.disk.state.trans saved)
    (resolved.mono (a₄.disk.receipts.trans receipts)) wrote

end Rework

section Deliver

theorem reads_discard (directory : Path) : Reads (discard directory) :=
  .bind (.ask rfl) fun _ => .ite (.ask rfl) (.pure _)

theorem reads_fill (state : State) (refs : List (String × Ref)) (directory destination : Path) :
    Reads (fill state refs directory destination) :=
  .bind (.forM (fun _ => .ask rfl) _) fun _ => .bind (.ask rfl) fun _ => .bind (.ask rfl) fun _ =>
    .ask rfl

theorem reads_finally {α : Type} {x : Task α} {y : Task Unit} (hx : Reads x) (hy : Reads y) :
    Reads (finally_ x y) :=
  .bind (.handle hx fun _ => .bind hy fun _ => trivial) fun _ => .bind hy fun _ => .pure _

/-- A project that is found intact has no running execution. -/
theorem finds_isIntact (state : State) :
    Finds host (isIntact host state) fun s intact _ => intact = true → s.disk.Resolved := by
  refine (finds_bind (R := fun _ s intact _ => intact = true → s.disk.Resolved)
    (reads_problems host state).finds fun issues => ?_).mono ?_
  · split
    · refine (finds_bind (finds_pending host) fun active =>
        finds_pure (P := fun _ intact _ => intact = active.isEmpty) fun _ => rfl).mono ?_
      rintro s intact u - ⟨active, t, -, rfl, -, rfl⟩ none
      exact resolved_of_filter none
    · exact finds_pure nofun
  · rintro s intact u - ⟨issues, t, before, -, -, known⟩ holds
    exact (known holds).mono before.disk.receipts.symm

/-- `export` keeps the project in order, whatever becomes of the destination. -/
theorem keeps_export {state : State} (destination : Path) :
    Keeps host c entry (fun _ _ => s.disk.Resolved) (export_ host destination state) s := by
  refine (finds_check _ _).then_ fun _ s₁ a₁ _ => ?_
  refine (finds_isIntact host state).then_ fun intact s₂ a₂ resolved => ?_
  refine (finds_check _ _).then_ fun _ s₃ a₃ holds => ?_
  refine Finds.keeps (P := fun _ _ _ => True) (Reads.finds ?_) fun _ _ _ _ =>
    (resolved holds).mono a₁.disk.receipts.symm
  refine .bind (.check _ _) fun _ => .bind (.ask rfl) fun _ => .bind (.check _ _) fun _ => ?_
  refine .bind (.ask rfl) fun _ => .bind (reads_finally (reads_fill _ _ _ _) (reads_discard _)) ?_
  exact fun _ => .pure _

end Deliver

end Mathmodel.Workflow
