import Mathmodel.Workflow.Quiet

/-!
# Tasks that only look

The integrity check and the export write neither the state nor a receipt nor a
blob, whatever they are answered; `Reads` says so of a task, and is closed under
everything a task is made of. The gates do less: they look at the directory and
stop at the first exception. `Straight` says so; what such a task returns depends
on nothing but what it saw.
-/

namespace Mathmodel.Workflow

open Dialogue

/-- The task asks quiet requests only. -/
def Reads {α : Type} (x : Task α) : Prop := x.Uses fun q => q.isQuiet = true

namespace Reads

variable {α β : Type}

theorem ask {q : Request} (quiet : q.isQuiet = true) : Reads (Workflow.ask q) := uses_request quiet

theorem eval (x : Except PyErr α) : Reads (Workflow.eval x) := uses_ofExcept x

theorem check (condition : Bool) (message : String) : Reads (Workflow.check condition message) :=
  uses_ofExcept _

theorem pure (a : α) : Reads (Pure.pure a : Task α) := uses_pure a

theorem bind {x : Task β} {f : β → Task α} (hx : Reads x) (hf : ∀ b, Reads (f b)) :
    Reads (x >>= f) := uses_bind hx hf

theorem handle {x : Task α} {handler : PyErr → Task α} (hx : Reads x)
    (hh : ∀ e, Reads (handler e)) : Reads (x.handle handler) := uses_handle hx hh

theorem mapM {f : β → Task α} (hf : ∀ b, Reads (f b)) (l : List β) : Reads (l.mapM f) :=
  uses_mapM hf l

theorem forM {f : β → Task PUnit} (hf : ∀ b, Reads (f b)) (l : List β) : Reads (l.forM f) :=
  uses_forM hf l

theorem ite {c : Prop} [Decidable c] {x y : Task α} (hx : Reads x) (hy : Reads y) :
    Reads (if c then x else y) := by
  split
  · exact hx
  · exact hy

end Reads

/-- Requests that change nothing at all. -/
def Request.isLook : Request → Bool
  | .isInitialized | .loadState | .loadReceipts | .countReceipts | .loadReceipt _ | .resolve _
  | .isFile _ | .exists _ | .size _ | .read _ | .hasBlob _ | .readBlob _
  | .destinationExists _ => true
  | _ => false

/-- Requests that see nothing but the files and the receipts. -/
def Request.isView : Request → Bool
  | .loadReceipts | .countReceipts | .loadReceipt _ | .resolve _ | .isFile _ | .exists _ | .size _
  | .read _ => true
  | _ => false

/-- The task asks only requests that are allowed, and catches no exception. -/
inductive Straight (allowed : Request → Bool) : {α : Type} → Task α → Prop where
  | pure {α : Type} (a : α) : Straight allowed (Pure.pure a : Task α)
  | eval {α : Type} (x : Except PyErr α) : Straight allowed (Workflow.eval x)
  | ask {q : Request} (permitted : allowed q = true) : Straight allowed (Workflow.ask q)
  | bind {α β : Type} {x : Task β} {f : β → Task α} (hx : Straight allowed x)
      (hf : ∀ b, Straight allowed (f b)) : Straight allowed (x >>= f)

/-- The task looks at the directory. -/
abbrev Looks {α : Type} (x : Task α) : Prop := Straight Request.isLook x

/-- The task looks at the files and the receipts. -/
abbrev Views {α : Type} (x : Task α) : Prop := Straight Request.isView x

namespace Straight

variable {α β : Type} {allowed : Request → Bool}

theorem check (condition : Bool) (message : String) :
    Straight allowed (Workflow.check condition message) :=
  .eval _

theorem ite {c : Prop} [Decidable c] {x y : Task α} (hx : Straight allowed x)
    (hy : Straight allowed y) : Straight allowed (if c then x else y) := by
  split
  · exact hx
  · exact hy

theorem uses {x : Task α} (h : Straight allowed x) : x.Uses fun q => allowed q = true := by
  induction h with
  | pure a => exact uses_pure a
  | eval y => exact uses_ofExcept y
  | ask permitted => exact uses_request permitted
  | bind _ _ hx hf => exact uses_bind hx hf

/-- A straight task stays straight when more requests are allowed. -/
theorem mono {allowed' : Request → Bool} {x : Task α} (h : Straight allowed x)
    (sub : ∀ q, allowed q = true → allowed' q = true) : Straight allowed' x := by
  induction h with
  | pure a => exact .pure a
  | eval y => exact .eval y
  | ask permitted => exact .ask (sub _ permitted)
  | bind _ _ hx hf => exact .bind hx hf

/-- A task that sees files and receipts changes nothing. -/
theorem looks {x : Task α} (h : Views x) : Looks x := by
  refine h.mono fun q view => ?_
  cases q <;> first | rfl | cases view

theorem reads {x : Task α} (h : Looks x) : Reads x := by
  induction h with
  | pure a => exact .pure a
  | eval y => exact .eval y
  | @ask q look =>
      refine .ask ?_
      cases q <;> first | rfl | cases look
  | bind _ _ hx hf => exact .bind hx hf

end Straight

section Files

variable (host : Host)

/-- Resolving a name looks at the directory and stops at a name that leaves it. -/
theorem views_localPath (name : String) (internal : Bool) : Views (localPath name internal) := by
  refine .bind (.check _ _) fun _ => .bind (.check _ _) fun _ => .bind (.ask rfl) fun _ => ?_
  exact .bind (.eval _) fun _ => .bind (.check _ _) fun _ => .bind (.check _ _) fun _ => .pure _

theorem views_digest (path : Path) : Views (digest host path) :=
  .bind (.ask rfl) fun _ => .pure _

theorem looks_digestBlob (sha : String) : Looks (digestBlob host sha) :=
  .bind (.ask rfl) fun _ => .pure _

theorem views_isNonempty (path : Path) : Views (isNonempty path) :=
  .bind (.ask rfl) fun _ => .pure _

/-- Comparing a file with a digest reads the file at most. -/
theorem views_hasDigest (path : Path) (sha : String) : Views (hasDigest host path sha) :=
  .bind (.ask rfl) fun _ => .ite (.bind (views_digest host path) fun _ => .pure _) (.pure _)

theorem looks_blobHasDigest (sha : String) : Looks (blobHasDigest host sha) :=
  .bind (.ask rfl) fun _ => .ite (.bind (looks_digestBlob host sha) fun _ => .pure _) (.pure _)

/-- The check of one reference writes nothing, and reports what it cannot read. -/
theorem reads_problem (ref : Ref) : Reads (problem host ref) := by
  refine .handle ?_ fun e => .ite (.pure _) trivial
  refine .bind (views_localPath _ _).looks.reads fun p =>
    .bind (views_hasDigest host p _).looks.reads fun _ => ?_
  refine .bind (.check _ _) fun _ => .bind (looks_blobHasDigest host _).reads fun _ => ?_
  exact .bind (.check _ _) fun _ => .pure _

/-- The integrity check writes nothing, whatever it is answered. -/
theorem reads_problems (state : State) : Reads (problems host state) :=
  .bind (.mapM (reads_problem host) _) fun _ => .pure _

/-- Listing the executions that are running writes nothing. -/
theorem reads_pending : Reads pending := .bind (.ask rfl) fun _ => .pure _

end Files

/-- The gate looks at the directory, notes names and catches no exception. -/
inductive Gate.Checks : {α : Type} → Gate α → Prop where
  | task {α : Type} {x : Task α} (h : Views x) : Gate.Checks (Gate.task x)
  | note (name : String) : Gate.Checks (Gate.note name)
  | pure {α : Type} (a : α) : Gate.Checks (Pure.pure a : Gate α)
  | bind {α β : Type} {x : Gate β} {f : β → Gate α} (hx : Gate.Checks x)
      (hf : ∀ b, Gate.Checks (f b)) : Gate.Checks (x >>= f)

namespace Gate.Checks

variable {α β : Type}

theorem eval (x : Except PyErr α) : Gate.Checks (Gate.eval x) := task (.eval x)

theorem need (condition : Bool) (message : String) : Gate.Checks (Gate.need condition message) :=
  task (.check _ _)

theorem ite {c : Prop} [Decidable c] {x y : Gate α} (hx : Gate.Checks x) (hy : Gate.Checks y) :
    Gate.Checks (if c then x else y) := by
  split
  · exact hx
  · exact hy

theorem forM {f : β → Gate PUnit} (hf : ∀ b, Gate.Checks (f b)) (l : List β) :
    Gate.Checks (l.forM f) := by
  induction l with
  | nil => exact pure _
  | cons b rest ih => exact bind (hf b) fun _ => ih

/-- Whatever names have been noted before, a check of a gate only looks. -/
theorem views {x : Gate α} (h : Gate.Checks x) (paths : List String) : Views (x.run paths) := by
  induction h generalizing paths with
  | task h => exact .bind h fun _ => .pure _
  | note name => exact .pure _
  | pure a => exact .pure _
  | bind _ _ hx hf => exact .bind (hx paths) fun r => hf r.1 r.2

/-- What a gate has noted stays noted. -/
theorem grows {x : Gate α} (h : Gate.Checks x) (paths : List String) :
    (x.run paths).Returns fun r => paths <+: r.2 := by
  induction h generalizing paths with
  | @task _ x _ => exact returns_bind (returns_true x) fun _ _ => List.prefix_rfl
  | note name => exact List.prefix_append paths [name]
  | pure a => exact List.prefix_rfl
  | bind _ _ hx hf =>
      refine returns_bind (hx paths) fun r before => ?_
      exact returns_mono (hf r.1 r.2) fun _ after => before.trans after

end Gate.Checks

section Gates

variable (host : Host) (produced supplied : List (String × String))

/-- A document is loaded by looking at one file. -/
theorem checks_load (name : String) : Gate.Checks (load host name) := by
  refine .bind (.task (views_localPath _ _)) fun _ => .bind (.task (.ask rfl)) fun _ => ?_
  exact .bind (.eval _) fun _ => .bind (.need _ _) fun _ => .bind (.note _) fun _ => .pure _

theorem views_isSubstantial (path : Path) : Views (isSubstantial path) :=
  .bind (.ask rfl) fun _ => .ite (views_isNonempty path) (.pure _)

/-- A file is compared with its declared digest by looking at it. -/
theorem checks_file (name expected : Value) : Gate.Checks (file host name expected) := by
  refine .bind (.eval _) fun _ => .bind (.task (views_localPath _ _)) fun p => ?_
  refine .bind (.task (views_isSubstantial p)) fun _ => .bind (.need _ _) fun _ => ?_
  refine .ite ?_ (.bind (.note _) fun _ => .pure _)
  refine .bind (.task (views_digest host p)) fun _ => .bind (.need _ _) fun _ => ?_
  exact .bind (.note _) fun _ => .pure _

theorem checks_generated (name : Value) : Gate.Checks (generated host produced name) :=
  .bind (.eval _) fun _ => .bind (.need _ _) fun _ => checks_file host name _

theorem checks_figureSource (name : Value) :
    Gate.Checks (figureSource host produced supplied name) :=
  .bind (.eval _) fun _ => .bind (.eval _) fun _ => .bind (.need _ _) fun _ =>
    .bind (checks_file host name _) fun _ => .pure _

theorem checks_figureOutput (name : Value) : Gate.Checks (figureOutput host produced name) := by
  refine .bind (checks_generated host produced name) fun _ => .bind (.task (.ask rfl)) fun _ => ?_
  refine .bind (.eval _) fun _ => ?_
  refine .ite (.bind (.need _ _) fun _ => ?_) ?_
  · exact .bind (.eval _) fun _ => .ite (.need _ _) (.pure _)
  · exact .bind (.eval _) fun _ => .ite (.need _ _) (.pure _)

theorem checks_figureReview (reviews : List Value) (id : Value) (outputs : List Value) :
    Gate.Checks (figureReview host reviews id outputs) := by
  refine .bind (.eval _) fun _ => .bind (.need _ _) fun _ => .bind (.need _ _) fun _ => ?_
  refine .bind (.eval _) fun _ => .bind (.eval _) fun _ => .bind (.need _ _) fun _ => ?_
  refine .bind (.eval _) fun _ => .bind (.eval _) fun _ => .bind (checks_file host _ _) fun p => ?_
  exact .bind (.task (views_digest host p)) fun _ => .need _ _

/-- The gate of one figure looks at its sources, outputs and review. -/
theorem checks_figure (reviews seen : List Value) (fig : Value) :
    Gate.Checks (figure host produced supplied reviews seen fig) := by
  refine .bind (.need _ _) fun _ => .bind (.forM (fun _ => ?_) _) fun _ => ?_
  · exact .bind (.eval _) fun _ => .need _ _
  refine .bind (.eval _) fun _ => .bind (.need _ _) fun _ => .bind (.eval _) fun _ => ?_
  refine .bind (.need _ _) fun _ => .bind (.eval _) fun _ => .bind (.eval _) fun _ => ?_
  refine .bind (.need _ _) fun _ => .bind (.eval _) fun _ => ?_
  refine .bind (.forM (checks_figureSource host produced supplied) _) fun _ => ?_
  refine .bind (.eval _) fun _ => .bind (.need _ _) fun _ => .bind (.eval _) fun _ => ?_
  refine .bind (.eval _) fun _ => .bind (.need _ _) fun _ => .bind (.eval _) fun _ => ?_
  refine .bind (.need _ _) fun _ => .bind (.forM (checks_figureOutput host produced) _) fun _ => ?_
  exact .bind (checks_figureReview host reviews _ _) fun _ => .pure _

theorem checks_figureLoop (reviews seen figures : List Value) :
    Gate.Checks (figureLoop host produced supplied reviews seen figures) := by
  induction figures generalizing seen with
  | nil => exact .pure _
  | cons fig rest ih =>
      exact .bind (checks_figure host produced supplied reviews seen fig) fun id => ih _

theorem checks_reviewsOf (figures : List Value) : Gate.Checks (reviewsOf host figures) :=
  .ite (.pure _) (.bind (checks_load host _) fun _ => .eval _)

/-- The gate of the figures only looks. -/
theorem checks_figuresGate : Gate.Checks (figuresGate host produced supplied) := by
  refine .bind (checks_load host _) fun _ => .bind (.eval _) fun _ => .bind (.need _ _) fun _ => ?_
  refine .bind (.eval _) fun _ => .bind (.eval _) fun _ => .bind (.need _ _) fun _ => ?_
  refine .bind (checks_reviewsOf host _) fun _ => ?_
  refine .bind (.eval _) fun _ => .bind (.need _ _) fun _ => ?_
  exact checks_figureLoop host produced supplied _ _ _

theorem checks_claimGate (claim : Value) : Gate.Checks (claimGate host claim) :=
  .bind (.eval _) fun _ => .bind (.need _ _) fun _ => .bind (.eval _) fun _ =>
    .bind (checks_file host _ _) fun _ => .pure _

theorem checks_paperFigure (files : List Value) (fig : Value) :
    Gate.Checks (paperFigure host files fig) :=
  .bind (.eval _) fun _ => .bind (.eval _) fun _ => .bind (.eval _) fun _ =>
    .bind (.eval _) fun _ => .need _ _

/-- The gate of a paper starts from its manifest. -/
theorem paperGate_eq : ∃ rest : Value → Gate Unit,
    paperGate host = load host "paper-manifest.json" >>= rest ∧ ∀ m, Gate.Checks (rest m) := by
  refine ⟨_, rfl, fun _ => .bind (.eval _) fun _ => .bind (.need _ _) fun _ => ?_⟩
  refine .bind (.eval _) fun _ => .bind (.eval _) fun _ => .bind (.need _ _) fun _ => ?_
  refine .bind (.eval _) fun _ => .bind (.eval _) fun _ => .bind (.need _ _) fun _ => ?_
  refine .bind (.eval _) fun _ => .bind (.need _ _) fun _ => ?_
  refine .bind (.forM (fun _ => .bind (checks_file host _ _) fun _ => .pure _) _) fun _ => ?_
  refine .bind (.eval _) fun _ => .bind (.need _ _) fun _ => .bind (.eval _) fun _ => ?_
  refine .bind (.forM (checks_claimGate host) _) fun _ => .bind (checks_load host _) fun _ => ?_
  exact .bind (.eval _) fun _ => .bind (.eval _) fun _ => .forM (checks_paperFigure host _) _

/-- The gate of the paper only looks. -/
theorem checks_paperGate : Gate.Checks (paperGate host) := by
  obtain ⟨rest, same, checks⟩ := paperGate_eq host
  rw [same]
  exact .bind (checks_load host _) checks

theorem checks_frozenSource (frozen : List (String × String)) (source : Value × Value) :
    Gate.Checks (frozenSource host frozen source) :=
  .bind (.eval _) fun _ => .bind (.need _ _) fun _ => .bind (checks_file host _ _) fun _ => .pure _

/-- The gate of the compilation only looks. -/
theorem checks_compileGate (report : Option Record) :
    Gate.Checks (compileGate host produced report) := by
  refine .bind (checks_generated host produced _) fun _ => ?_
  refine .bind (checks_generated host produced _) fun _ => .bind (checks_load host _) fun _ => ?_
  refine .bind (.eval _) fun _ => .bind (.need _ _) fun _ => .bind (.eval _) fun _ => ?_
  refine .bind (.need _ _) fun _ => .bind (.eval _) fun _ => .bind (.eval _) fun _ => ?_
  refine .bind (checks_file host _ _) fun _ => .bind (.eval _) fun _ =>
    .bind (.need _ _) fun _ => ?_
  refine .bind (.eval _) fun _ => .bind (.need _ _) fun _ => .bind (.eval _) fun _ => ?_
  refine .bind (.eval _) fun _ => .bind (.need _ _) fun _ => .bind (.eval _) fun _ => ?_
  refine .bind (checks_load host _) fun _ => .bind (.eval _) fun _ => .bind (.eval _) fun _ => ?_
  refine .bind (.eval _) fun _ => .bind (.eval _) fun _ => .bind (.eval _) fun _ => ?_
  refine .bind (.eval _) fun _ => .bind (.need _ _) fun _ => ?_
  refine .bind (.forM (checks_frozenSource host _) _) fun _ => ?_
  refine .bind (.forM (fun _ => ?_) _) fun _ => ?_
  · exact .bind (.eval _) fun _ => .bind (checks_file host _ _) fun _ => .pure _
  · exact .bind (.eval _) fun _ => .bind (checks_file host _ _) fun _ => .pure _

theorem checks_pageGate (pair : Value × Value) : Gate.Checks (pageGate host pair) := by
  refine .bind (.eval _) fun _ => .bind (.eval _) fun _ => .bind (checks_file host _ _) fun _ => ?_
  refine .bind (.eval _) fun _ => .bind (.eval _) fun _ => .bind (.eval _) fun _ => ?_
  exact .bind (.eval _) fun _ => .bind (.eval _) fun _ => .need _ _

/-- The gate of the inspection only looks. -/
theorem checks_inspectGate : Gate.Checks (inspectGate host produced) := by
  refine .bind (checks_generated host produced _) fun _ => .bind (checks_load host _) fun _ => ?_
  refine .bind (.eval _) fun _ => .bind (.eval _) fun _ => .bind (checks_file host _ _) fun _ => ?_
  refine .bind (.eval _) fun _ => .bind (.need _ _) fun _ => .bind (.eval _) fun _ => ?_
  refine .bind (.need _ _) fun _ => .bind (.eval _) fun _ => .bind (.eval _) fun _ => ?_
  refine .bind (.need _ _) fun _ => .bind (checks_load host _) fun _ => .bind (.eval _) fun _ => ?_
  refine .bind (.eval _) fun _ => .bind (.need _ _) fun _ => .bind (.eval _) fun _ => ?_
  refine .bind (.eval _) fun _ => .bind (.need _ _) fun _ => .bind (.eval _) fun _ => ?_
  exact .forM (checks_pageGate host) _

/-- Whichever the stage is, the gate of `publication_files` only looks at the directory. -/
theorem views_publicationFiles (state : State) (stage : StageId) (executions : List Receipt) :
    Views (publicationFiles host state stage executions) := by
  unfold publicationFiles
  split
  · exact .pure _
  · refine .bind ?_ fun _ => .pure _
    cases stage with
    | figures => exact (checks_figuresGate host _ _).views _
    | report => exact (Gate.Checks.ite (checks_paperGate host) (.pure _)).views _
    | compile => exact (checks_compileGate host _ _).views _
    | inspect => exact (checks_inspectGate host _).views _
    | _ => exact .pure _

end Gates

section Noted

variable (host : Host)

/-- A document that is loaded is noted, so it is registered with the stage. -/
theorem notes_load (name : String) (paths : List String) :
    ((load host name).run paths).Returns fun r => name ∈ r.2 := by
  refine returns_bind (returns_true _) fun _ _ => returns_bind (returns_true _) fun _ _ => ?_
  refine returns_bind (returns_true _) fun _ _ => returns_bind (returns_true _) fun _ _ => ?_
  exact List.mem_append_right _ (List.mem_singleton.mpr rfl)

/-- The files behind a report that is to become a PDF include the manifest of the paper. -/
theorem notes_publicationFiles (state : State) (stage : StageId) (executions : List Receipt) :
    (publicationFiles host state stage executions).Returns fun paths => stage = .report →
      state.format = .v2 → state.requirePdf = true → "paper-manifest.json" ∈ paths := by
  unfold publicationFiles
  split
  next legacy => exact fun _ current => nomatch legacy.symm.trans current
  next =>
    by_cases paper : stage = .report ∧ state.requirePdf = true
    · obtain ⟨rfl, pdf⟩ := paper
      obtain ⟨rest, same, checks⟩ := paperGate_eq host
      simp only [pdf, if_true, same]
      refine returns_bind (P := fun r => "paper-manifest.json" ∈ r.2) ?_ fun r noted => ?_
      · refine returns_bind (notes_load host "paper-manifest.json" []) fun r noted => ?_
        exact returns_mono ((checks r.1).grows r.2) fun _ more => more.subset noted
      · exact fun _ _ _ => List.mem_eraseDups.mpr noted
    · refine returns_bind (returns_true _) fun r _ => ?_
      exact fun report _ pdf => absurd ⟨report, pdf⟩ paper

end Noted

end Mathmodel.Workflow
