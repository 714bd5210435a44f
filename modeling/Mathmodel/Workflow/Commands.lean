import Mathmodel.Workflow.Publication

/-!
# The commands

Each command of `main` as a dialogue with the project directory. The state that
a command works on is the one it read under the lock; it is written back only
by `saveState`. A receipt is written when the execution starts, when the process
identifier is known and when the outcome is, so a command that is killed on the
way leaves a running receipt behind.
-/

namespace Mathmodel.Workflow

structure InitArgs where
  problem : Source
  data : List Source
  title : Option OsString
  kind : Kind
  maxRuns : Int
  pdf : Bool
  workflowVersion : Format
  deriving DecidableEq, Repr

structure RunArgs where
  stage : StageId
  input : List String
  output : List String
  timeout : Double
  argv : List String
  deriving DecidableEq, Repr

structure CompleteArgs where
  stage : StageId
  artifact : List String
  execution : List String
  note : String
  deriving DecidableEq, Repr

inductive Command where
  | init (args : InitArgs)
  | status
  | next
  | check
  | run (args : RunArgs)
  | complete (args : CompleteArgs)
  | skip (stage : StageId) (reason : String)
  | reopen (stage : StageId) (reason : String)
  | refreshInputs (reason : String)
  | export (destination : Path)
  | abandon (execution reason : String)
  | upgrade (reason : String)
  deriving DecidableEq, Repr

variable (host : Host)

section Init

/-- The name of a copied input, `inputs/{i:02d}-{name}`. -/
def inputName (i : Nat) (source : Source) : String :=
  "inputs/" ++ (if i < 10 then "0" else "") ++ toString i ++ "-" ++ source.name.text

def copyInputs (i : Nat) : List Source → Task (List Ref)
  | [] => return []
  | source :: rest => do
      ask (.copyIn source (parts (inputName i source)))
      let ref ← snapshot host (inputName i source) false true
      let refs ← copyInputs (i + 1) rest
      return ref :: refs

def bundleTarget : Path := [".agents", "skills", "mathmodel-workflow"]

def agentsText : String :=
  "# 建模任务工作区\n\n读取 `.agents/skills/mathmodel-workflow/SKILL.md`。\n" ++
  "先运行 `python3 .agents/skills/mathmodel-workflow/scripts/workflow.py status --project .`\n" ++
  "和 `next --project .`，从当前阶段继续。实际执行计算、验证和交付，不只写计划。\n" ++
  "阶段登记不是用户验收；沿用用户授权与宿主权限，不修改原始 inputs 或状态文件绕过检查。\n"

def title (args : InitArgs) : OsString :=
  match args.title with
  | some t => if t.units = [] then args.problem.stem else t
  | none => args.problem.stem

/-- The texts that the new state has from outside can be written to `state.json`. -/
def InitArgs.isEncodable (args : InitArgs) : Bool :=
  (Workflow.title args).isEncodable && (args.problem :: args.data).all (·.name.isEncodable)

def init (args : InitArgs) : Task Output := do
  let sources := args.problem :: args.data
  check (sources.all (·.content.isSome)) "Problem/data must be existing files."
  check (decide (0 < args.maxRuns)) "--max-runs must be positive."
  let vacant ← ask .isVacant
  check vacant "init requires a new or empty project directory."
  ask (.copyBundle bundleTarget)
  ask (.makeDirectory ["inputs"])
  ask .prepare
  let refs ← copyInputs host 0 sources
  ask (.writeText ["AGENTS.md"] agentsText)
  let time ← ask .now
  -- the encoder of `json.dump`, within the save
  check args.isEncodable "'utf-8' codec can't encode character: surrogates not allowed"
  ask (.saveState
    { format := args.workflowVersion, title := (title args).text, createdAt := time,
      kind := args.kind, requirePdf := args.pdf, maxRuns := args.maxRuns.toNat, revision := 1,
      inputs := refs, stages := [], history := [] })
  return .initialized .understand

end Init

section Run

/-- Turn an exception of the classes that `run` catches into the outcome of the receipt. -/
def settle (receipt : Receipt) (x : Task Receipt) : Task Receipt :=
  x.handle fun e =>
    if e.isValueOrOs then pure { receipt with status := .failed, error := some e.message }
    else .raise e

/-- An output that a command declares must not exist yet. -/
def checkOutput (name : String) : Task Unit := do
  let target ← localPath name false
  let there ← ask (.exists target)
  check (!there) ("Output already exists; use a new output path: " ++ name)
  ask (.makeDirectory target.dropLast)

/-- An input that an execution used still has its recorded digest. -/
def checkInput (message : String) (ref : Ref) : Task Unit := do
  let p ← localPath ref.path false
  let sha ← digest host p
  check (sha == ref.sha256) (message ++ ref.path)

/-- Wait for the process; one that takes too long or is interrupted is killed. -/
def await (pid : Nat) (timeout : Double) : Task (Int × Option String) := do
  match ← ask (.wait pid timeout) with
  | .exited code => return (code, none)
  | .expired => do
      ask (.killGroup pid)
      return (← ask (.reap pid), some "timeout")
  | .interrupted => do
      ask (.killGroup pid)
      return (← ask (.reap pid), some "interrupted")

/-- The verdict on a process that has ended. -/
def judge (args : RunArgs) (receipt : Receipt) (code : Int) (failure : Option String) :
    Task Receipt := do
  check (code == 0 && failure.isNone) (failure.getD ("Process exited " ++ toString code))
  receipt.inputs.forM (checkInput host "Input changed during execution: ")
  let outputs ← args.output.mapM fun p => snapshot host p false true
  return { receipt with outputs, status := .succeeded }

/-- Run the process of an execution whose receipt is on the disk. -/
def supervise (args : RunArgs) (receipt : Receipt) : Task Receipt :=
  settle receipt do
    receipt.logs.forM fun name => ask (.openLog (parts name))
    let pid ← ask (.popen receipt.argv)
    let receipt := { receipt with pid := some pid }
    settle receipt do
      ask (.saveReceipt receipt)
      let (code, failure) ← await pid args.timeout
      let receipt := { receipt with exitCode := some code }
      settle receipt (judge host args receipt code failure)

/-- The arguments without the separator before them. -/
def commandLine (argv : List String) : List String :=
  if argv.head? = some "--" then argv.tail else argv

def receiptPrefix (id : String) : String := ".workflow/executions/" ++ id

def run (args : RunArgs) (state : State) : Task Output := do
  let _ ← ready host state args.stage
  let argv := commandLine args.argv
  check (!argv.isEmpty) "Supply a command after --."
  check (args.timeout.isFinite && args.timeout.isPositive) "Timeout must be finite and positive."
  let count ← ask .countReceipts
  check (decide (count < state.maxRuns))
    "Execution budget exhausted. Deliver partial results; do not erase history."
  let inputs ← args.input.mapM fun p => snapshot host p false true
  args.output.forM checkOutput
  let id ← ask .uuid4
  let time ← ask .now
  let receipt : Receipt :=
    { id, stage := args.stage, revision := state.revision, argv, startedAt := time,
      status := .running, inputs, outputs := [], pid := none, timeoutSeconds := args.timeout,
      platform := host.platform, python := host.python,
      logs := [receiptPrefix id ++ ".stdout", receiptPrefix id ++ ".stderr"],
      exitCode := none, error := none, endedAt := none }
  ask (.saveReceipt receipt)
  let receipt ← supervise host args receipt
  let ended ← ask .now
  let receipt := { receipt with endedAt := some ended }
  ask (.saveReceipt receipt)
  return .executed receipt

end Run

section Complete

/-- The evidence that one check of `verification.json` names. -/
def verificationCheck (entry : Value) : Except PyErr (List String) := do
  require entry.isDict "Each check needs name, pass status and substantive detail."
  let status ← entry.get "status" .none
  let name ← entry.get "name" .none
  let detail ← entry.get "detail" .none
  require (status.beq (.str "pass") && name.isProse && detail.isProse)
    "Each check needs name, pass status and substantive detail."
  let evidence ← entry.get "evidence" .none
  match evidence with
  | .list (first :: rest) =>
      (first :: rest).mapM fun p =>
        match p with
        | .str s => .ok s
        | _ => .error (.value "Each check needs evidence file paths.")
  | _ => .error (.value "Each check needs evidence file paths.")

/-- The content of `verification.json` passes. -/
def verificationReport (report : Value) : Except PyErr (List String) := do
  require report.isDict "Verification report must be an object."
  let verdict ← report.get "verdict" .none
  require (verdict.beq (.str "pass")) "Verification verdict is not pass."
  let checks ← report.get "checks" .none
  let limitations ← report.get "limitations" .none
  match checks with
  | .list (first :: rest) => do
      require (match limitations with | .list _ => true | _ => false)
        "Verification must declare limitations (possibly [])."
      let evidence ← (first :: rest).mapM verificationCheck
      return evidence.flatten
  | _ => .error (.value "Verification needs substantive checks.")

def verification : Task (List String) := do
  let p ← localPath "verification.json" false
  let content ← ask (.read p)
  let report ← eval (host.loads content)
  eval (verificationReport report)

/-- The report of a format 1 project is a PDF if one was asked for. -/
def legacyReport : Task (List String) := do
  let p ← localPath "report.pdf" false
  let content ← ask (.read p)
  check (pdfHeader.isPrefixOf content) "report.pdf is not a PDF."
  return ["report.pdf", "render-review.md"]

/-- The evidence that the stage `verify` registers. -/
def verified (stage : StageId) : Task (List String) :=
  if stage = .verify then verification host else return []

/-- The files that a format 1 report adds. -/
def legacyFiles (stage : StageId) (state : State) : Task (List String) :=
  if state.format = .v1 ∧ stage = .report ∧ state.requirePdf then legacyReport else return []

/-- The paths that a stage registers, each once. -/
def stagePaths (args : CompleteArgs) (state : State) (step : Stage) : Task (List String) := do
  let paths := (step.outputs ++ args.artifact).eraseDups
  let evidence ← verified host args.stage
  let legacy ← legacyFiles args.stage state
  return (paths ++ evidence ++ legacy).eraseDups

/-- The files behind one named execution, with its receipt. -/
def evidenceOf (stage : StageId) (state : State) (id : String) : Task (List Ref × Receipt) := do
  check (isIdentifier id) "Invalid execution ID."
  let receipt ← ask (.loadReceipt id)
  check (receipt.status = .succeeded && receipt.stage = stage && receipt.revision = state.revision)
    "Execution is failed, stale or belongs to another stage."
  (receipt.inputs ++ receipt.outputs).forM (checkInput host "Execution file changed: ")
  let own ← snapshot host (receiptName id) true true
  let logs ← receipt.logs.mapM fun p => snapshot host p true false
  return (receipt.inputs ++ receipt.outputs ++ own :: logs, receipt)

def complete (args : CompleteArgs) (state : State) : Task Output := do
  let step ← ready host state args.stage
  let paths ← stagePaths host args state step
  let files ← paths.mapM fun p => snapshot host p false true
  let evidence ← args.execution.mapM (evidenceOf host args.stage state)
  let executions := evidence.map (·.2)
  check (!step.execution ||
      (state.kind = .theory && !(args.stage = .compile || args.stage = .inspect)) ||
      !executions.isEmpty)
    "This stage needs a successful, recorded execution (--execution ID)."
  check (!(args.stage = .verify && state.kind ≠ .theory) ||
      executions.any fun e => e.outputs.any fun r => r.path == "verification.json")
    "verification.json must be produced by a recorded verification command."
  let extra ← publicationFiles host state args.stage executions
  let more ← extra.mapM fun p => snapshot host p false true
  let time ← ask .now
  let record := Record.done time state.revision (files ++ (evidence.flatMap (·.1)) ++ more)
    args.execution args.note
  ask (.saveState (state.register args.stage record))
  return .registered args.stage record

def skip (stage : StageId) (reason : String) (state : State) : Task Output := do
  let step ← ready host state stage
  check (step.optional && isSubstantive reason)
    "Only optional stages may be skipped, with a reason."
  let time ← ask .now
  let record := Record.skipped reason time
  ask (.saveState (state.register stage record))
  return .registered stage record

end Complete

section Rework

/-- The function `reopen`, with the state it leaves. -/
def reopen (stage : StageId) (reason : String) (state : State) : Task State := do
  check (isSubstantive reason) "A reason is required."
  check (← pending).isEmpty "Resolve the interrupted execution first."
  check (decide (stage ∈ state.activeIds)) "Stage is not enabled for this project."
  let time ← ask .now
  ask (.saveState (state.reopened stage time reason))
  return state.reopened stage time reason

/-- The report of `reopen`. -/
def reopening (stage : StageId) (state : State) : Output :=
  .reopened (some stage) ((state.history.getLast?.map (·.stages)).getD [] |>.map (·.1))
    state.revision

def refreshInputs (reason : String) (state : State) : Task Output := do
  let refs ← state.inputs.mapM fun r => snapshot host r.path false true
  let state ← reopen .understand reason state
  ask (.saveState { state with inputs := refs })
  return reopening .understand state

/-- Replace the project's copy of the bundle, unless the script runs from it. -/
def replaceBundle : Task Unit := do
  if host.bundled then return ()
  let id ← ask .uuid4
  let staging : Path := [".workflow", "bundle-" ++ id]
  ask (.copyBundle staging)
  if ← ask (.exists bundleTarget) then
    let previous ← ask .uuid4
    ask (.rename bundleTarget [".workflow", "previous-bundle-" ++ previous])
  ask (.rename staging bundleTarget)

def upgrade (reason : String) (state : State) : Task Output := do
  check (state.format = .v1) "Project already uses workflow v2."
  check (← problems host state).isEmpty "Repair drift before upgrading."
  let state ← reopen .report reason state
  replaceBundle host
  let state := { state with format := .v2 }
  ask (.saveState state)
  return .reopened (state.current.map (·.id))
    ((state.history.getLast?.map (·.stages)).getD [] |>.map (·.1)) state.revision

end Rework

section Deliver

/-- Remove the temporary directory if it is still there. -/
def discard (directory : Path) : Task Unit := do
  if ← ask (.destinationExists directory) then ask (.removeTree directory)

/-- The statement `try: x finally: y`. -/
def finally_ {α : Type} (x : Task α) (y : Task Unit) : Task α := do
  let result ← x.handle fun e => do
    y
    .raise e
  y
  return result

def fill (state : State) (refs : List (String × Ref)) (directory destination : Path) :
    Task Unit := do
  refs.forM fun ref => ask (.copyOut directory (parts ref.1) ref.2.sha256)
  let time ← ask .now
  ask (.writeManifest directory
    { title := state.title, revision := state.revision, createdAt := time,
      files := refs.map (·.2) })
  ask (.renameDirectory directory destination)

/-- The test `not problems(root, state) and not pending(root)`. -/
def isIntact (state : State) : Task Bool := do
  let issues ← problems host state
  if issues.isEmpty then return (← pending).isEmpty else return false

def export_ (destination : Path) (state : State) : Task Output := do
  check state.current.isNone "Required stages are not finished."
  check (← isIntact host state) "Integrity or unresolved-execution failure."
  check (!host.root.isPrefixOf destination && !destination.isPrefixOf host.root)
    "Export to a separate directory."
  check (!(← ask (.destinationExists destination))) "Export destination already exists."
  let refs := dictOf (state.references.map fun r => (r.path, r))
  let directory ← ask (.makeTemporary destination.dropLast)
  finally_ (fill state refs directory destination) (discard directory)
  return .exported destination refs.length

end Deliver

section Main

/-- The report of `status`, `next` and `check`; only `check` fails on what it finds. -/
def inspect (strict : Bool) (state : State) : Task Output := do
  let issues ← problems host state
  let active ← pending
  let count ← ask .countReceipts
  let report : Report :=
    { title := state.title, revision := state.revision, kind := state.kind, next := state.current,
      stages := state.stages.map fun e => (e.1, e.2.status), integrityIssues := issues,
      unresolvedExecutions := active, runsRemaining := (state.maxRuns : Int) - count,
      complete := state.current.isNone && issues.isEmpty && active.isEmpty }
  check (!strict || (issues.isEmpty && active.isEmpty)) (host.reportText report)
  return .report report

/-- A recorded process that still exists keeps its receipt from being abandoned. -/
def checkStopped (pid : Option Nat) : Task Unit := do
  match pid with
  | none | some 0 => return ()
  | some pid => do
      let alive ← ask (.isAlive pid)
      check (!alive) "Recorded PID still exists; inspect/stop it before abandoning."

def abandon (execution reason : String) : Task Output := do
  check (isSubstantive reason) "A reason is required."
  let active ← pending
  match active.filter (·.id = execution) with
  | [receipt] => do
      checkStopped receipt.pid
      let ended ← ask .now
      let receipt := { receipt with
        status := .failed, error := some ("Operator abandoned: " ++ reason),
        endedAt := some ended }
      ask (.saveReceipt receipt)
      return .abandoned receipt
  | _ => eval (.error (.value "No matching unresolved execution."))

/-- The context manager `locked`, up to the state it yields. -/
def locked : Task State := do
  let _ ← localPath ".workflow/state.json" true
  let there ← ask .isInitialized
  check there "Not initialized; run init first."
  let _ ← localPath ".workflow/lock" true
  ask .lock
  ask .loadState

/-- The branch of `main` for a command, on the state read under the lock. -/
def perform (command : Command) (state : State) : Task Output :=
  match command with
  | .init args => init host args
  | .status | .next => inspect host false state
  | .check => inspect host true state
  | .run args => run host args state
  | .complete args => complete host args state
  | .skip stage reason => skip host stage reason state
  | .reopen stage reason => do
      let state ← reopen stage reason state
      return reopening stage state
  | .refreshInputs reason => refreshInputs host reason state
  | .export destination => export_ host destination state
  | .abandon execution reason => abandon execution reason
  | .upgrade reason => upgrade host reason state

/-- What a command does with the project. All of them but `init` work under the lock. -/
def result (command : Command) : Task Output :=
  match command with
  | .init args => init host args
  | command => do
      let state ← locked
      perform host command state

/-- `print(json.dumps(result))` -/
def shown (output : Output) : Task Output := do
  ask (.print output)
  return output

/-- The result is printed when the lock is free again. -/
def main (command : Command) : Task Output := do
  let output ← result host command
  shown output

end Main

end Mathmodel.Workflow
