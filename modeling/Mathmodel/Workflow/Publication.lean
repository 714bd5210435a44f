import Mathmodel.Workflow.Files

/-!
# The publication gates

`publication_files` decides whether the figures, the paper, its compilation and
its inspection are backed by evidence, and returns the files that travel with
the stage. The documents it reads are the user's, so every access may raise.

The list `paths` that the helpers extend is the state of `Gate`.
-/

namespace Mathmodel.Workflow

/-- A gate extends the list of paths it has looked at. -/
abbrev Gate := StateT (List String) Task

namespace Gate

def task {α : Type} (x : Task α) : Gate α := StateT.lift x

def eval {α : Type} (x : Except PyErr α) : Gate α := task (Workflow.eval x)

def need (condition : Bool) (message : String) : Gate Unit := task (check condition message)

def note (name : String) : Gate Unit := modify (· ++ [name])

end Gate

open Gate

/-- The dictionary of the paths and digests of some references. -/
def digests (refs : List Ref) : List (String × String) :=
  dictOf (refs.map fun r => (r.path, r.sha256))

section Helpers

variable (host : Host)

/-- The helper `load`: a JSON object of the project. -/
def load (name : String) : Gate Value := do
  let p ← task (localPath name false)
  let content ← task (ask (.read p))
  let value ← eval (host.loads content)
  need value.isDict (name ++ " must be an object")
  note name
  return value

def isSubstantial (path : Path) : Task Bool := do
  let isFile ← ask (.isFile path)
  if isFile then isNonempty path else return false

/-- The helper `file`. An expected digest that is false is not compared. -/
def file (name expected : Value) : Gate Path := do
  let text ← eval name.pathName
  let p ← task (localPath text false)
  let there ← task (isSubstantial p)
  need there ("Missing/empty publication file: " ++ text)
  if expected.truthy then
    let sha ← task (digest host p)
    need ((Value.str sha).beq expected) ("Publication hash mismatch: " ++ text)
  note text
  return p

/-- The helper `generated`: a file that a recorded execution produced. -/
def generated (produced : List (String × String)) (name : Value) : Gate Path := do
  let sha ← eval (name.lookupIn produced)
  need sha.isSome ("No recorded execution produced " ++ name.text host.floatText)
  file host name (.str (sha.getD ""))

/-- Two sets of values with the same members. -/
def sameMembers (a b : List Value) : Bool := a.all (·.isIn b) && b.all (·.isIn a)

end Helpers

section Figures

variable (host : Host) (produced supplied : List (String × String)) (reviews : List Value)

/-- A source of a figure is recorded as an input or output of an execution. -/
def figureSource (name : Value) : Gate Unit := do
  let made ← eval (name.lookupIn produced)
  let given ← eval (name.lookupIn supplied)
  let sha := made.or given
  need sha.isSome ("Figure source not recorded in execution: " ++ name.text host.floatText)
  let _ ← file host name (.str (sha.getD ""))

def pngHeader : Content := [0x89, 0x50, 0x4e, 0x47, 0x0d, 0x0a, 0x1a, 0x0a]
def pdfHeader : Content := [0x25, 0x50, 0x44, 0x46, 0x2d]

def figureOutput (name : Value) : Gate Unit := do
  let p ← generated host produced name
  let content ← task (ask (.read p))
  if ← eval (name.endswith [".png"]) then
    need (content.take 8 == pngHeader) ("Not PNG: " ++ name.text host.floatText)
  if ← eval (name.endswith [".pdf"]) then
    need (pdfHeader.isPrefixOf content) ("Not PDF: " ++ name.text host.floatText)

/-- The reviews with the identifier of a figure. -/
def matching (id : Value) : List Value → Except PyErr (List Value)
  | [] => .ok []
  | r :: rest => do
      let own ← r.get "id" .none
      let others ← matching id rest
      return if own.beq id then r :: others else others

/-- The first name with the suffix of a PNG file. -/
def firstPng : List Value → Except PyErr (Option Value)
  | [] => .ok none
  | v :: rest => do
      if ← v.endswith [".png"] then return some v else firstPng rest

def figureReview (id : Value) (outputs : List Value) : Gate Unit := do
  let found ← eval (matching id reviews)
  need (found.length == 1) "Missing or duplicate figure review"
  let review := found.headD .none
  need review.isDict "Figure needs actual visual-review observations"
  let status ← eval (review.get "status" .none)
  let observations ← eval (review.get "observations" .none)
  need (status.beq (.str "pass") && observations.isProse)
    "Figure needs actual visual-review observations"
  let sha ← eval (review.get "sha256" .none)
  let png ← eval (firstPng outputs)
  let p ← file host (png.getD .none) .none
  let current ← task (digest host p)
  need (sha.beq (.str current)) "Figure review must bind the current PNG hash"

def figureKeys : List String := ["id", "question", "caption", "script"]

/-- One round of the loop over the figures; `seen` holds the identifiers before it. -/
def figure (seen : List Value) (fig : Value) : Gate Value := do
  need fig.isDict "Figure entry must be an object"
  figureKeys.forM fun key => do
    let value ← eval (fig.get key .none)
    need value.isProse ("Figure needs " ++ key)
  let id ← eval (fig.item "id")
  need (!id.isIn seen) "Duplicate figure id"
  let data ← eval (fig.get "data" .none)
  need (match data with | .list items => !items.isEmpty | _ => false)
    "Figure needs actual data sources"
  let script ← eval (fig.item "script")
  let known ← eval (script.lookupIn supplied)
  need known.isSome "Figure script must be a recorded execution input"
  let sources ← eval data.iter
  (script :: sources).forM (figureSource host produced supplied)
  let outputs ← eval (fig.get "outputs" .none)
  need (match outputs with | .list items => !items.isEmpty | _ => false)
    "Figure outputs are required"
  let names ← eval outputs.iter
  need (← eval (Value.anyEndswith [".png"] names)) "Figure needs a PNG preview"
  need (← eval (Value.anyEndswith [".pdf", ".svg"] names)) "Figure needs a vector export"
  names.forM (figureOutput host produced)
  figureReview host reviews id names
  return id

def figureLoop (seen : List Value) : List Value → Gate Unit
  | [] => return ()
  | fig :: rest => do
      let id ← figure host produced supplied reviews seen fig
      figureLoop (id :: seen) rest

end Figures

section Stages

variable (host : Host) (produced supplied : List (String × String))

/-- The reviews of the figures, if there are any. -/
def reviewsOf (figures : List Value) : Gate Value :=
  if figures.isEmpty then return .list []
  else do
    let document ← load host "figure-review.json"
    eval (document.get "figures" (.list []))

def figuresGate : Gate Unit := do
  let manifest ← load host "figure-manifest.json"
  let listed ← eval (manifest.get "figures" .none)
  need (match listed with | .list _ => true | _ => false) "figures must be a list"
  let figures ← eval listed.iter
  let reason ← eval (manifest.get "reason" .none)
  need (!figures.isEmpty || reason.isProse) "No figures requires a reason"
  let reviewed ← reviewsOf host figures
  let reviews ← eval (match reviewed with
    | .list items => .ok items
    | _ => .error (.value "Review must cover every figure"))
  need (reviews.length == figures.length) "Review must cover every figure"
  figureLoop host produced supplied reviews [] figures

/-- A claim of the paper names its evidence. -/
def claimGate (claim : Value) : Gate Unit := do
  let text ← eval (claim.get "text" .none)
  need text.isProse "Claim needs text"
  let evidence ← eval (claim.item "evidence")
  let _ ← file host evidence .none

/-- Some vector export of the figure is among the files of the paper; the search stops at
the first one. -/
def anyListed (files : List Value) : List Value → Except PyErr Bool
  | [] => .ok false
  | p :: rest => do
      if (← p.endswith [".pdf", ".svg"]) && p.isIn files then return true
      else anyListed files rest

def paperFigure (files : List Value) (fig : Value) : Gate Unit := do
  let outputs ← eval (fig.item "outputs")
  let names ← eval outputs.iter
  let listed ← eval (anyListed files names)
  let id ← eval (fig.item "id")
  need listed ("Paper manifest omits figure " ++ id.text host.floatText)

def paperGate : Gate Unit := do
  let manifest ← load host "paper-manifest.json"
  let listed ← eval (manifest.get "files" .none)
  need (match listed with | .list items => !items.isEmpty | _ => false) "Paper needs source files"
  let files ← eval listed.iter
  let main ← eval (manifest.get "main" .none)
  need (main.isIn files) "Paper needs a .tex entry point"
  let entry ← eval (manifest.item "main")
  need (← eval (entry.endswith [".tex"])) "Paper needs a .tex entry point"
  let bibliography ← eval (manifest.get "bibliography" .none)
  need (bibliography.isIn [.str "none", .str "bibtex", .str "biber"])
    "Choose bibliography backend explicitly"
  files.forM fun name => do
    let _ ← file host name .none
  let claims ← eval (manifest.get "claims" .none)
  need (match claims with | .list items => !items.isEmpty | _ => false)
    "Paper needs result-to-claim references"
  (← eval claims.iter).forM (claimGate host)
  let document ← load host "figure-manifest.json"
  let figures ← eval (document.item "figures")
  (← eval figures.iter).forM (paperFigure host files)

/-- The test `all(c['returncode'] == 0 for c in commands)`. -/
def allReturned : List Value → Except PyErr Bool
  | [] => .ok true
  | c :: rest => do
      let code ← c.item "returncode"
      if code.beq (.int 0) then allReturned rest else return false

/-- The assignment `sources[path] = sha`. -/
def setSource (table : List (Value × Value)) (path sha : Value) : List (Value × Value) :=
  if table.any fun e => e.1.same path then
    table.map fun e => if e.1.same path then (e.1, sha) else e
  else table ++ [(path, sha)]

/-- The dictionary `{r['path']: r['sha256'] for r in sources}`, whose keys may be any
hashable values. -/
def sourceDigests (table : List (Value × Value)) : List Value → Except PyErr (List (Value × Value))
  | [] => .ok table
  | r :: rest => do
      let path ← r.item "path"
      let sha ← r.item "sha256"
      path.hashable
      sourceDigests (setSource table path sha) rest

/-- Every member of a set has to be hashable. -/
def allHashable : List Value → Except PyErr Unit
  | [] => .ok ()
  | v :: rest => do
      v.hashable
      allHashable rest

/-- The compiled source is the one that the report stage registered. -/
def frozenSource (frozen : List (String × String)) (source : Value × Value) : Gate Unit := do
  let sha ← eval (source.1.lookupIn frozen)
  need ((match sha with | some s => Value.str s | none => .none).beq source.2)
    ("Compiled source was not the frozen paper: " ++ source.1.text host.floatText)
  let _ ← file host source.1 source.2

def compileGate (report : Option Record) : Gate Unit := do
  let _ ← generated host produced (.str "compile-report.json")
  let _ ← generated host produced (.str "report.pdf")
  let document ← load host "compile-report.json"
  need ((← eval (document.get "status" .none)).beq (.str "succeeded")) "Compilation did not succeed"
  need (!(← eval (document.get "errors" .none)).truthy) "Unresolved compilation errors"
  let pdf ← eval (document.item "pdf")
  let _ ← file host (.str "report.pdf") (← eval (pdf.item "sha256"))
  need ((← eval (pdf.item "path")).beq (.str "report.pdf")) "Unexpected compiled PDF path"
  let commands ← eval (document.get "commands" .none)
  need commands.truthy "Compilation command failed"
  let entries ← eval commands.iter
  need (← eval (allReturned entries)) "Compilation command failed"
  let record ← eval (match report with | some r => .ok r | none => .error (.key "report"))
  let paper ← load host "paper-manifest.json"
  let sources ← eval (document.item "sources")
  let table ← eval (sourceDigests [] (← eval sources.iter))
  let files ← eval (← eval (paper.item "files")).iter
  eval (allHashable files)
  need (sameMembers (table.map (·.1)) files) "Compiled sources differ from paper manifest"
  table.forM (frozenSource host (digests record.files))
  entries.forM fun command => do
    let log ← eval (command.item "log")
    let _ ← file host log .none
  let log ← eval (document.item "latex_log")
  let _ ← file host log .none

/-- The values of one field of each entry. -/
def column (key : String) : List Value → Except PyErr (List Value)
  | [] => .ok []
  | v :: rest => do
      let value ← v.item key
      let others ← column key rest
      return value :: others

/-- One page of the rendered document and its review. -/
def pageGate (pair : Value × Value) : Gate Unit := do
  let path ← eval (pair.1.item "path")
  let sha ← eval (pair.1.item "sha256")
  let _ ← file host path sha
  let number ← eval (pair.2.get "number" .none)
  let expected ← eval (pair.1.item "number")
  let reviewed ← eval (pair.2.get "sha256" .none)
  let status ← eval (pair.2.get "status" .none)
  let observations ← eval (pair.2.get "observations" .none)
  need (number.beq expected && reviewed.beq sha && status.beq (.str "pass") && observations.isProse)
    "Missing, failed or stale page review"

def inspectGate : Gate Unit := do
  let _ ← generated host produced (.str "render-manifest.json")
  let manifest ← load host "render-manifest.json"
  let pdf ← eval (manifest.item "pdf")
  let sha ← eval (pdf.item "sha256")
  let _ ← file host (.str "report.pdf") sha
  need ((← eval (pdf.item "path")).beq (.str "report.pdf")) "Unexpected render source"
  let listed ← eval (manifest.get "pages" .none)
  need (match listed with | .list items => !items.isEmpty | _ => false) "No rendered pages"
  let pages ← eval listed.iter
  let numbers ← eval (column "number" pages)
  need (Value.beqItems numbers ((List.range pages.length).map fun i : Nat => .int (i + 1)))
    "Incomplete page numbering"
  let review ← load host "render-review.json"
  need ((← eval (review.get "status" .none)).beq (.str "pass") &&
      (← eval (review.get "pdf_sha256" .none)).beq sha)
    "Review is failed or stale"
  let reviewed ← eval (review.get "pages" (.list []))
  need ((← eval reviewed.len) == pages.length) "Review must cover every page"
  (pages.zip (← eval reviewed.iter)).forM (pageGate host)

end Stages

/-- The function `publication_files`: the files behind a stage, each once. -/
def publicationFiles (host : Host) (state : State) (stage : StageId) (executions : List Receipt) :
    Task (List String) :=
  match state.format with
  | .v1 => return []
  | .v2 => do
      let produced := digests (executions.flatMap (·.outputs))
      let supplied := digests (executions.flatMap (·.inputs))
      let gate : Gate Unit :=
        match stage with
        | .figures => figuresGate host produced supplied
        | .report => if state.requirePdf then paperGate host else return ()
        | .compile => compileGate host produced (state.stages.lookup .report)
        | .inspect => inspectGate host produced
        | _ => return ()
      let (_, paths) ← gate.run []
      return paths.eraseDups

end Mathmodel.Workflow
