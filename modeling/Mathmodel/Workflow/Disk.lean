import Mathmodel.Library.Dialogue
import Mathmodel.Workflow.State

/-!
# The project directory and what a command asks of it

The documents that the script itself writes are kept as values: `state.json`,
the receipts by their identifier, the blobs by their name. Everything else in
the project, the logs of the executions included, is in `files`; those belong
to the user and to the executed programs, and can change at any time.

A command is a dialogue of `Request`s. Every request may be refused with an
`OSError`, a copy may be cut short, the clock and the random identifiers answer
what they like. `Choice` is that freedom; given a choice, `perform` computes the
answer and what it does to the directory.
-/

namespace Mathmodel.Workflow

abbrev Content := List UInt8

/-- An entry of the project directory. -/
inductive Node where
  | file (content : Content)
  | directory
  | link
  deriving DecidableEq, Repr

/-- What `local` finds out about a path: it has no symbolic link in it, or it
resolves to outside the project, inside it, or never. -/
inductive Resolution where
  | plain | escaping | linked | looping
  deriving DecidableEq, Repr

/-- How waiting for a process ends. -/
inductive Ending where
  | exited (code : Int)
  | expired
  | interrupted
  deriving DecidableEq, Repr

/-- The file `delivery-manifest.json`. -/
structure Manifest where
  title : String
  revision : Nat
  createdAt : String
  files : List Ref
  deriving DecidableEq, Repr

/-- A directory that `export` writes. -/
structure Delivery where
  files : List (Path × Content)
  manifest : Option Manifest
  deriving DecidableEq, Repr

structure Disk where
  state : Option State
  receipts : List Receipt
  blobs : List (String × Content)
  prepared : Bool
  files : List (Path × Node)
  deliveries : List (Path × Delivery)
  deriving DecidableEq, Repr

/-- A text that the operating system gives, a name or an argument. A byte of it that is not
UTF-8 stays a byte, which no text file can be written with. -/
structure OsString where
  units : List (Char ⊕ UInt8)
  deriving DecidableEq, Repr

namespace OsString

def ofString (s : String) : OsString := ⟨s.toList.map .inl⟩

instance : Coe String OsString := ⟨ofString⟩

/-- UTF-8 can be made of it. -/
def isEncodable (s : OsString) : Bool := s.units.all Sum.isLeft

/-- The text with `\ufffd` for each of the bytes. -/
def text (s : OsString) : String := String.ofList (s.units.map (Sum.elim id fun _ => '\ufffd'))

@[simp]
theorem isEncodable_ofString (s : String) : (ofString s).isEncodable = true := by
  simp [isEncodable, ofString]

@[simp]
theorem text_ofString (s : String) : (ofString s).text = s := by
  simp [text, ofString, Function.comp_def]

end OsString

/-- A file outside the project, with what it holds if it exists. -/
structure Source where
  name : OsString
  stem : OsString
  content : Option Content
  deriving DecidableEq, Repr

inductive Request where
  | isVacant
  | prepare
  | copyBundle (target : Path)
  | copyIn (source : Source) (target : Path)
  | writeText (target : Path) (text : String)
  | isInitialized
  | lock
  | loadState
  | saveState (state : State)
  | loadReceipts
  | countReceipts
  | loadReceipt (id : String)
  | saveReceipt (receipt : Receipt)
  | resolve (path : Path)
  | isFile (path : Path)
  | exists (path : Path)
  | size (path : Path)
  | read (path : Path)
  | makeDirectory (path : Path)
  | rename (source target : Path)
  | hasBlob (sha : String)
  | copyBlob (path : Path) (sha : String)
  | readBlob (sha : String)
  | now
  | uuid4
  | openLog (path : Path)
  | popen (argv : List String)
  | wait (pid : Nat) (timeout : Double)
  | killGroup (pid : Nat)
  | reap (pid : Nat)
  | isAlive (pid : Nat)
  | destinationExists (destination : Path)
  | makeTemporary (parent : Path)
  | copyOut (directory : Path) (name : Path) (sha : String)
  | writeManifest (directory : Path) (manifest : Manifest)
  | renameDirectory (source target : Path)
  | removeTree (directory : Path)
  | print (output : Output)

/-- The type of the answer to a request. -/
abbrev Request.Answer : Request → Type
  | .isVacant | .isInitialized | .isFile _ | .exists _ | .hasBlob _ | .isAlive _
  | .destinationExists _ => Bool
  | .loadState => State
  | .loadReceipts => List Receipt
  | .countReceipts | .size _ => Nat
  | .loadReceipt _ => Receipt
  | .resolve _ => Resolution
  | .read _ | .readBlob _ => Content
  | .now | .uuid4 => String
  | .popen _ => Nat
  | .wait _ _ => Ending
  | .reap _ => Int
  | .makeTemporary _ => Path
  | _ => Unit

/-- What the surroundings decide about one request: to carry it out, with the
reading of a clock or of another source where it needs one, to refuse it, or to
stop a copy after some bytes. -/
inductive Choice where
  | proceed
  | refuse (message : String)
  | cut (written : Content)
  | text (reading : String)
  | number (reading : Nat)
  | ending (reading : Ending)
  | code (reading : Int)
  | resolution (reading : Resolution)
  | flag (reading : Bool)
  deriving DecidableEq, Repr

/-- The host of the project: where it lies, the digest and the JSON reader. The
directory of the script is the project's own copy when `bundled`. -/
structure Host where
  root : Path
  bundled : Bool
  platform : String
  python : String
  sha256 : Content → String
  loads : Content → Except PyErr Value
  dump : Receipt → Content
  floatText : Double → String
  reportText : Report → String

def receiptName (id : String) : String := ".workflow/executions/" ++ id ++ ".json"

namespace Disk

/-- The bytes of the file at a path of the project. -/
def content (host : Host) (disk : Disk) (path : Path) : Option Content :=
  match disk.receipts.find? fun r => parts (receiptName r.id) = path with
  | some r => some (host.dump r)
  | none =>
      match disk.files.lookup path with
      | some (.file content) => some content
      | _ => none

def exists_ (host : Host) (disk : Disk) (path : Path) : Bool :=
  (disk.content host path).isSome || (disk.files.lookup path).isSome

/-- Some beginning of the path is a symbolic link. -/
def isLinked (disk : Disk) (path : Path) : Bool :=
  (path.inits).any fun p => disk.files.lookup p = some .link

def put (disk : Disk) (path : Path) (node : Node) : Disk :=
  { disk with files := assign disk.files path node }

/-- The directories above a path and the path itself, where nothing is there yet. -/
def makeDirectories (disk : Disk) (path : Path) : Disk :=
  path.inits.foldl
    (fun d p => if (d.files.lookup p).isSome || p.isEmpty then d else d.put p .directory) disk

/-- The test that the project directory is absent or empty. -/
def isVacant (disk : Disk) : Bool :=
  disk.state.isNone && disk.receipts.isEmpty && disk.blobs.isEmpty && !disk.prepared &&
    disk.files.isEmpty

/-- Write a receipt to the file named by its identifier. -/
def keep (disk : Disk) (receipt : Receipt) : Disk :=
  { disk with
    receipts :=
      if disk.receipts.any fun r => r.id = receipt.id then
        disk.receipts.map fun r => if r.id = receipt.id then receipt else r
      else disk.receipts ++ [receipt] }

end Disk

def missing : PyErr := .os "[Errno 2] No such file or directory"
def full : PyErr := .os "[Errno 28] No space left on device"

/-- Hexadecimal digits, as `uuid4().hex` prints them. -/
def isHex (c : Char) : Bool := c ∈ "0123456789abcdef".toList

def isIdentifier (id : String) : Bool := id.length == 32 && id.toList.all isHex

/-- The eight characters that `mkdtemp` draws. -/
def isDrawn (name : String) : Bool :=
  name.length == 8 && name.toList.all (· ∈ "abcdefghijklmnopqrstuvwxyz0123456789_".toList)

/-- The name of a directory that `mkdtemp` makes for a delivery. -/
def deliveryName (drawn : String) : String := ".delivery-" ++ drawn

/-- The answer to a request that is carried out, and the directory after it. A choice
that says nothing about the request gives no answer. -/
def Request.perform (host : Host) (disk : Disk) :
    (q : Request) → Choice → Option (Except PyErr q.Answer × Disk)
  | .isVacant, .proceed => some (.ok disk.isVacant, disk)
  | .prepare, .proceed => some (.ok (), { disk with prepared := true })
  | .copyBundle target, .proceed => some (.ok (), disk.makeDirectories target)
  | .copyBundle target, .cut _ => some (.error full, disk.makeDirectories target)
  | .copyIn source target, .proceed =>
      match source.content with
      | some content => some (.ok (), disk.put target (.file content))
      | none => some (.error missing, disk)
  | .copyIn _ target, .cut written =>
      some (.error full, disk.put target (.file written))
  | .writeText target text, .proceed =>
      some (.ok (), disk.put target (.file text.toUTF8.toList))
  | .isInitialized, .proceed => some (.ok disk.state.isSome, disk)
  | .lock, .proceed => some (.ok (), disk)
  | .lock, .flag _ => some (.error (.value "Another workflow command is active."), disk)
  | .loadState, .proceed =>
      match disk.state with
      | some state => some (.ok state, disk)
      | none => some (.error missing, disk)
  | .saveState state, .proceed =>
      some (.ok (), { disk with state := some state, prepared := true })
  | .loadReceipts, .proceed => some (.ok disk.receipts, disk)
  | .countReceipts, .proceed => some (.ok disk.receipts.length, disk)
  | .loadReceipt id, .proceed =>
      match disk.receipts.find? fun r => r.id = id with
      | some receipt => some (.ok receipt, disk)
      | none => some (.error missing, disk)
  | .saveReceipt receipt, .proceed => some (.ok (), disk.keep receipt)
  | .resolve path, .proceed => if disk.isLinked path then none else some (.ok .plain, disk)
  | .resolve path, .resolution reading =>
      if disk.isLinked path ∧ reading ≠ .plain then some (.ok reading, disk) else none
  | .isFile path, .proceed => some (.ok (disk.content host path).isSome, disk)
  | .exists path, .proceed => some (.ok (disk.exists_ host path), disk)
  | .size path, .proceed =>
      match disk.content host path with
      | some content => some (.ok content.length, disk)
      | none => some (.error missing, disk)
  | .read path, .proceed =>
      match disk.content host path with
      | some content => some (.ok content, disk)
      | none => some (.error missing, disk)
  | .makeDirectory path, .proceed => some (.ok (), disk.makeDirectories path)
  | .rename source target, .proceed =>
      match disk.files.lookup source with
      | some node =>
          some (.ok (),
            { disk with files := (disk.files.filter (·.1 ≠ source)) ++ [(target, node)] })
      | none => some (.error missing, disk)
  | .hasBlob sha, .proceed => some (.ok (disk.blobs.any (·.1 == sha)), disk)
  | .copyBlob path sha, .proceed =>
      match disk.content host path with
      | some content => some (.ok (), { disk with blobs := assign disk.blobs sha content })
      | none => some (.error missing, disk)
  | .copyBlob _ sha, .cut written =>
      some (.error full, { disk with blobs := assign disk.blobs sha written })
  | .readBlob sha, .proceed =>
      match disk.blobs.lookup sha with
      | some content => some (.ok content, disk)
      | none => some (.error missing, disk)
  | .now, .text reading => some (.ok reading, disk)
  | .uuid4, .text reading =>
      if isIdentifier reading ∧ disk.receipts.all fun r => r.id ≠ reading then
        some (.ok reading, disk)
      else none
  | .openLog path, .proceed => some (.ok (), disk.put path (.file []))
  | .popen _, .number pid => if pid = 0 then none else some (.ok pid, disk)
  | .popen _, .text reading => some (.error (.value reading), disk)
  | .wait _ _, .ending reading => some (.ok reading, disk)
  | .killGroup _, .proceed => some (.ok (), disk)
  | .reap _, .code reading => some (.ok reading, disk)
  | .isAlive _, .flag reading => some (.ok reading, disk)
  | .destinationExists destination, .proceed =>
      some (.ok (disk.deliveries.any (·.1 == destination)), disk)
  | .makeTemporary parent, .text drawn =>
      if isDrawn drawn ∧ disk.deliveries.all (·.1 ≠ parent ++ [deliveryName drawn]) then
        some (.ok (parent ++ [deliveryName drawn]),
          { disk with
            deliveries := disk.deliveries ++ [(parent ++ [deliveryName drawn], ⟨[], none⟩)] })
      else none
  | .copyOut directory name sha, .proceed =>
      match disk.blobs.lookup sha, disk.deliveries.lookup directory with
      | some content, some delivery =>
          some (.ok (), { disk with
            deliveries := assign disk.deliveries directory
              { delivery with files := assign delivery.files name content } })
      | _, _ => some (.error missing, disk)
  | .copyOut directory name _, .cut written =>
      match disk.deliveries.lookup directory with
      | some delivery =>
          some (.error full, { disk with
            deliveries := assign disk.deliveries directory
              { delivery with files := assign delivery.files name written } })
      | none => some (.error missing, disk)
  | .writeManifest directory manifest, .proceed =>
      match disk.deliveries.lookup directory with
      | some delivery =>
          some (.ok (), { disk with
            deliveries := assign disk.deliveries directory
              { delivery with manifest := some manifest } })
      | none => some (.error missing, disk)
  | .renameDirectory source target, .proceed =>
      match disk.deliveries.lookup source with
      | some delivery =>
          some (.ok (), { disk with
            deliveries := (disk.deliveries.filter (·.1 ≠ source)) ++ [(target, delivery)] })
      | none => some (.error missing, disk)
  | .removeTree directory, .proceed =>
      some (.ok (), { disk with deliveries := disk.deliveries.filter (·.1 ≠ directory) })
  | .print _, .proceed => some (.ok (), disk)
  -- a text that the encoding of the output has no bytes for
  | .print _, .text message => some (.error (.value message), disk)
  | _, .refuse message => some (.error (.os message), disk)
  | _, _ => none

/-- A process of the script. -/
abbrev Task := Dialogue Request Request.Answer PyErr

end Mathmodel.Workflow
