import Mathmodel.Workflow.Commands

/-!
# Sessions

A session is the project directory, the log of everything that was asked and
answered, and the command at work. The lock admits one command at a time; it
may be killed before any answer, and then the lock is free again. Before each
answer the files outside `.workflow` may have been changed by anybody. A command
is followed up to its result: what it prints afterwards, without the lock, reads
and changes nothing of the project.
-/

namespace Mathmodel.Workflow

inductive Event where
  | began (command : Command)
  | answered (request : Request) (answer : Except PyErr request.Answer)

/-- The directory and what has happened to it, oldest first. -/
structure Site where
  disk : Disk
  log : List Event

/-- A command is started. -/
def Site.enter (command : Command) (site : Site) : Site :=
  { site with log := site.log ++ [.began command] }

/-- The answers a request may get. The files of the user are those that the request
finds, whatever they were at the request before. -/
def serve (host : Host) (s : Site) (q : Request) (r : Except PyErr q.Answer) (t : Site) : Prop :=
  ∃ files choice, q.perform host { s.disk with files := files } choice = some (r, t.disk) ∧
    t.log = s.log ++ [.answered q r]

abbrev Session := Machine Site Command Request Request.Answer PyErr Output

/-- One event in the life of a project. -/
def Session.Step (host : Host) : Session → Session → Prop :=
  Machine.Step (result host) Site.enter (serve host)

def Disk.empty : Disk :=
  { state := none, receipts := [], blobs := [], prepared := false, files := [], deliveries := [] }

/-- An empty directory and no command at work. -/
def Session.new : Session := ⟨⟨Disk.empty, []⟩, none⟩

/-- The session can come about from an empty directory. -/
def Session.Reachable (host : Host) (m : Session) : Prop :=
  Relation.ReflTransGen (Session.Step host) Session.new m

end Mathmodel.Workflow
