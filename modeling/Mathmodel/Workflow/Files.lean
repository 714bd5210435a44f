import Mathmodel.Workflow.Disk

/-!
# Files and snapshots

The helpers that every command shares. A path given by the user has to lie in
the project, outside the directories of the tools, and must not pass through a
symbolic link; a snapshot keeps a copy of the file under its digest.
-/

namespace Mathmodel.Workflow

/-- Ask one request of the host. -/
def ask (q : Request) : Task q.Answer := Dialogue.request q

/-- The function `require` inside a command. -/
def check (condition : Bool) (message : String) : Task Unit :=
  Dialogue.ofExcept (require condition message)

/-- Raise what a pure operation on values raises. -/
def eval {α : Type} (x : Except PyErr α) : Task α := Dialogue.ofExcept x

def reserved : List String := [".workflow", ".agents", ".git", "delivery-manifest.json"]

/-- The function `local`. -/
def localPath (name : String) (internal : Bool) : Task Path := do
  let p := parts name
  check (!isAbsolute name && !p.contains "..") ("Expected relative project path: " ++ name)
  check (!p.isEmpty && (internal || !reserved.contains (p.headD ""))) ("Reserved path: " ++ name)
  let resolution ← ask (.resolve p)
  eval (if resolution = .looping then .error (.runtime ("Symlink loop from " ++ name)) else .ok ())
  check (resolution ≠ .escaping) ("Path escapes project: " ++ name)
  check (resolution ≠ .linked) ("Symlink path is not supported: " ++ name)
  return p

variable (host : Host)

def digest (path : Path) : Task String := do
  let content ← ask (.read path)
  return host.sha256 content

def digestBlob (sha : String) : Task String := do
  let content ← ask (.readBlob sha)
  return host.sha256 content

/-- Make sure that a blob of the given name is there. -/
def storeBlob (path : Path) (sha : String) : Task Unit := do
  let there ← ask (.hasBlob sha)
  if there then return () else ask (.copyBlob path sha)

def isNonempty (path : Path) : Task Bool := do
  let bytes ← ask (.size path)
  return decide (0 < bytes)

/-- The test `not nonempty or p.stat().st_size > 0`. -/
def isAcceptable (nonempty : Bool) (path : Path) : Task Bool :=
  if nonempty then isNonempty path else return true

def snapshot (name : String) (internal nonempty : Bool) : Task Ref := do
  let p ← localPath name internal
  let isFile ← ask (.isFile p)
  check isFile ("Missing file: " ++ name)
  let acceptable ← isAcceptable nonempty p
  check acceptable ("Empty artifact: " ++ name)
  let sha ← digest host p
  storeBlob p sha
  let stored ← digestBlob host sha
  check (stored == sha) ("Corrupt snapshot: " ++ sha)
  let bytes ← ask (.size p)
  return { path := pathText (parts name), sha256 := sha, bytes }

/-- The test `p.is_file() and digest(p) == sha`. -/
def hasDigest (path : Path) (sha : String) : Task Bool := do
  let isFile ← ask (.isFile path)
  if isFile then return (← digest host path) == sha else return false

def blobHasDigest (sha : String) : Task Bool := do
  let there ← ask (.hasBlob sha)
  if there then return (← digestBlob host sha) == sha else return false

/-- The complaint about one reference, if there is one. -/
def problem (ref : Ref) : Task (List String) :=
  Dialogue.handle
    (do
      let p ← localPath ref.path true
      check (← hasDigest host p ref.sha256) "missing or changed"
      check (← blobHasDigest host ref.sha256) "snapshot missing or changed"
      return [])
    fun e => if e.isValueOrOs then pure [ref.path ++ ": " ++ e.message] else .raise e

def problems (state : State) : Task (List String) := do
  let issues ← state.references.mapM (problem host)
  return issues.flatten.eraseDups.mergeSort (fun a b => decide (a ≤ b))

def pending : Task (List Receipt) := do
  let receipts ← ask .loadReceipts
  return receipts.filter (·.status = .running)

/-- The stage that a command may work on, provided it is the next one. -/
def ready (state : State) (stage : StageId) : Task Stage := do
  check (← problems host state).isEmpty
    "Inputs/artifacts changed; use check, then reopen or refresh-inputs."
  check (← pending).isEmpty
    "Unresolved execution; inspect it and use abandon only after it has stopped."
  match state.current with
  | none => eval (.error (.value "Next stage is none."))
  | some step =>
      check (step.id = stage) ("Next stage is " ++ step.id.name ++ ".")
      return step

end Mathmodel.Workflow
