import Mathmodel.Workflow.Value

/-!
# The state of a workflow

`state.json` holds the registered stages, the references of the inputs and the
history of invalidated work; a receipt under `.workflow/executions` records one
execution. The stage list in force depends on the format of the state and on
whether a PDF was asked for. `state['stages']` is a dictionary, kept here as the
list of its items in the order they were set.
-/

namespace Mathmodel.Workflow

/-- Identifiers of `assets/stages.json`; format 1 uses seven of them. -/
inductive StageId where
  | understand | data | baseline | improve | verify | figures | report | compile | inspect | deliver
  deriving DecidableEq, Repr

def StageId.name : StageId → String
  | .understand => "understand"
  | .data => "data"
  | .baseline => "baseline"
  | .improve => "improve"
  | .verify => "verify"
  | .figures => "figures"
  | .report => "report"
  | .compile => "compile"
  | .inspect => "inspect"
  | .deliver => "deliver"

structure Stage where
  id : StageId
  reference : String
  outputs : List String
  execution : Bool
  optional : Bool
  pdfOnly : Bool
  deriving DecidableEq, Repr

/-- The table `assets/stages.json`. -/
def currentStages : List Stage :=
  [⟨.understand, "problem.md", ["problem.md"], false, false, false⟩,
   ⟨.data, "data.md", ["data-report.md"], false, false, false⟩,
   ⟨.baseline, "model.md", ["baseline.md"], true, false, false⟩,
   ⟨.improve, "model.md", ["model.md"], true, true, false⟩,
   ⟨.verify, "verify.md", ["verification.json"], true, false, false⟩,
   ⟨.figures, "figures.md", ["figure-manifest.json"], false, false, false⟩,
   ⟨.report, "report.md", ["report.md"], false, false, false⟩,
   ⟨.compile, "latex.md", ["compile-report.json", "report.pdf"], true, false, true⟩,
   ⟨.inspect, "latex.md", ["render-manifest.json", "render-review.json"], true, false, true⟩,
   ⟨.deliver, "report.md", ["REPRODUCE.md"], true, false, false⟩]

/-- The table `assets/stages-v1.json`. -/
def legacyStages : List Stage :=
  [⟨.understand, "problem.md", ["problem.md"], false, false, false⟩,
   ⟨.data, "data.md", ["data-report.md"], false, false, false⟩,
   ⟨.baseline, "model.md", ["baseline.md"], true, false, false⟩,
   ⟨.improve, "model.md", ["model.md"], true, true, false⟩,
   ⟨.verify, "verify.md", ["verification.json"], true, false, false⟩,
   ⟨.report, "report.md", ["report.md"], false, false, false⟩,
   ⟨.deliver, "report.md", ["REPRODUCE.md"], true, false, false⟩]

inductive Format where
  | v1 | v2
  deriving DecidableEq, Repr

inductive Kind where
  | general | optimization | prediction | simulation | evaluation | theory
  deriving DecidableEq, Repr

/-- A file as it was registered. -/
structure Ref where
  path : String
  sha256 : String
  bytes : Nat
  deriving DecidableEq, Repr

/-- The record of a stage. A skipped stage has no files and no revision. -/
inductive Record where
  | done (time : String) (revision : Nat) (files : List Ref) (executions : List String)
      (note : String)
  | skipped (reason : String) (time : String)
  deriving DecidableEq, Repr

def Record.files : Record → List Ref
  | .done _ _ files _ _ => files
  | .skipped _ _ => []

def Record.status : Record → String
  | .done .. => "done"
  | .skipped .. => "skipped"

/-- What one rework invalidated, with the inputs of that time. -/
structure Entry where
  revision : Nat
  time : String
  reason : String
  start : StageId
  stages : List (StageId × Record)
  inputs : List Ref
  deriving DecidableEq, Repr

structure State where
  format : Format
  title : String
  createdAt : String
  kind : Kind
  requirePdf : Bool
  maxRuns : Nat
  revision : Nat
  inputs : List Ref
  stages : List (StageId × Record)
  history : List Entry
  deriving DecidableEq, Repr

/-- The stages of a format, with those for the PDF only where one is asked for. -/
def stagesOf (format : Format) (requirePdf : Bool) : List Stage :=
  (match format with
    | .v1 => legacyStages
    | .v2 => currentStages).filter fun s => !s.pdfOnly || requirePdf

namespace State

/-- The function `stages(state)`. -/
def active (state : State) : List Stage := stagesOf state.format state.requirePdf

def activeIds (state : State) : List StageId := state.active.map (·.id)

/-- The keys of `state['stages']`. -/
def keys (state : State) : List StageId := state.stages.map (·.1)

def current (state : State) : Option Stage :=
  state.active.find? fun s => s.id ∉ state.keys

def references (state : State) : List Ref :=
  state.inputs ++ state.stages.flatMap fun e => e.2.files

/-- The assignment `state['stages'][stage] = record`. -/
def register (state : State) (stage : StageId) (record : Record) : State :=
  { state with stages := assign state.stages stage record }

/-- The stages that `reopen` invalidates: the given one and all that follow it. -/
def since (state : State) (stage : StageId) : List StageId :=
  state.activeIds.drop (state.activeIds.idxOf stage)

/-- The change that `reopen` makes to the state. -/
def reopened (state : State) (stage : StageId) (time reason : String) : State :=
  { state with
    stages := state.stages.filter fun e => e.1 ∉ state.since stage
    history := state.history ++
      [{ revision := state.revision, time, reason, start := stage,
         stages := (state.since stage).filterMap fun s => (state.stages.lookup s).map (s, ·),
         inputs := state.inputs }]
    revision := state.revision + 1 }

/-- The state that a successful upgrade leaves. -/
def upgraded (state : State) (time reason : String) : State :=
  { state.reopened .report time reason with format := .v2 }

end State

inductive Status where
  | running | succeeded | failed
  deriving DecidableEq, Repr

/-- The receipt of one execution. -/
structure Receipt where
  id : String
  stage : StageId
  revision : Nat
  argv : List String
  startedAt : String
  status : Status
  inputs : List Ref
  outputs : List Ref
  pid : Option Nat
  timeoutSeconds : Double
  platform : String
  python : String
  logs : List String
  exitCode : Option Int
  error : Option String
  endedAt : Option String
  deriving DecidableEq, Repr

/-- The report of `status`, `next` and `check`. -/
structure Report where
  title : String
  revision : Nat
  kind : Kind
  next : Option Stage
  stages : List (StageId × String)
  integrityIssues : List String
  unresolvedExecutions : List Receipt
  runsRemaining : Int
  complete : Bool
  deriving DecidableEq, Repr

/-- What a command prints when it succeeds. -/
inductive Output where
  | initialized (next : StageId)
  | report (value : Report)
  | executed (receipt : Receipt)
  | registered (stage : StageId) (record : Record)
  | reopened (next : Option StageId) (invalidated : List StageId) (revision : Nat)
  | exported (destination : Path) (files : Nat)
  | abandoned (receipt : Receipt)
  deriving DecidableEq, Repr

end Mathmodel.Workflow
