import Mathmodel.Library.Outcome
import Mathmodel.Library.Tabled
import Mathmodel.Workflow.Session

/-!
# Scenarios

A command whose answers are all decided can be computed: `carry` follows the
dialogue to its end. A scenario is a list of commands, each carried through or
killed after some answers; the session it leaves is reachable.
-/

namespace Mathmodel.Workflow

/-- How each request of a command is answered: the files it finds and the choice made. -/
abbrev Oracle := Request → List (Path × Node) × Choice

/-- Follow a dialogue for at most `fuel` answers. -/
def carry (host : Host) (oracle : Oracle) : Nat → Site → Task Output → Site × Task Output
  | 0, s, d => (s, d)
  | fuel + 1, s, .ask q next =>
      match q.perform host { s.disk with files := (oracle q).1 } (oracle q).2 with
      | some (r, disk) => carry host oracle fuel ⟨disk, s.log ++ [.answered q r]⟩ (next r)
      | none => (s, .ask q next)
  | _ + 1, s, d => (s, d)

/-- Carry out the commands one after the other, each for at most the given number of answers. -/
def scenario (host : Host) (s : Site) : List (Command × Oracle × Nat) → Site
  | [] => s
  | (c, oracle, fuel) :: rest =>
      scenario host (carry host oracle fuel (s.enter c) (result host c)).1 rest

theorem carry_reaches (host : Host) (oracle : Oracle) (c : Command) (entry : Site) (fuel : Nat)
    (s : Site) (d : Task Output) :
    Relation.ReflTransGen (Session.Step host) ⟨s, some (c, entry, d)⟩
      ⟨(carry host oracle fuel s d).1, some (c, entry, (carry host oracle fuel s d).2)⟩ := by
  induction fuel generalizing s d with
  | zero => exact .refl
  | succ fuel ih =>
      cases d with
      | ret a => exact .refl
      | raise e => exact .refl
      | ask q next =>
          rw [carry]
          split
          next r disk done =>
            exact .head (.answer ⟨_, _, done, rfl⟩) (ih _ _)
          next => exact .refl

/-- The exception that a task has come to. -/
def failure : Task Output → Option PyErr
  | .raise e => some e
  | _ => none

/-- A command that is carried to an exception ends with it. -/
theorem carry_ends {host : Host} {oracle : Oracle} {fuel : Nat} {s : Site} {d : Task Output}
    {e : PyErr} (failed : failure (carry host oracle fuel s d).2 = some e) :
    Dialogue.Ends (serve host) d s (.error e) (carry host oracle fuel s d).1 := by
  induction fuel generalizing s d with
  | zero =>
      cases d with
      | raise e' =>
          cases failed
          exact .raise _ _
      | _ => cases failed
  | succ fuel ih =>
      cases d with
      | ret a => cases failed
      | raise e' =>
          cases failed
          exact .raise _ _
      | ask q next =>
          rw [carry] at failed ⊢
          split at failed
          next r disk done => exact .ask ⟨_, _, done, rfl⟩ (ih failed)
          next => cases failed

/-- Commands carried out one after the other are a run of the session. -/
theorem scenario_reaches (host : Host) (s : Site) (commands : List (Command × Oracle × Nat)) :
    Relation.ReflTransGen (Session.Step host) ⟨s, none⟩ ⟨scenario host s commands, none⟩ := by
  induction commands generalizing s with
  | nil => exact .refl
  | cons head rest ih =>
      obtain ⟨c, oracle, fuel⟩ := head
      have carried := carry_reaches host oracle c (s.enter c) fuel (s.enter c) (result host c)
      exact .head (.start s c) ((carried.tail (.leave _ _)).trans (ih _))

theorem scenario_append (host : Host) (s : Site) (before after : List (Command × Oracle × Nat)) :
    scenario host s (before ++ after) = scenario host (scenario host s before) after := by
  induction before generalizing s with
  | nil => rfl
  | cons head rest ih => exact ih _

theorem Session.Reachable.scenario {host : Host} {s : Site}
    (reachable : Session.Reachable host ⟨s, none⟩) (commands : List (Command × Oracle × Nat)) :
    Session.Reachable host ⟨scenario host s commands, none⟩ :=
  reachable.trans (scenario_reaches host s commands)

namespace Scenario

/-- The digests of the contents in the scenarios. -/
def digests : List (Content × String) :=
  [([1], "4bf5122f344554c53bde2ebb8cd2b7e3d1600ad631c385a5d7cce23c7785459a"),
    ([2], "dbc1b4c900ffe48d575b5da5c638040125f65db0fe3e24494b76ea986457d986"),
    ([3], "084fed08b978af4d7d196a7446a86b58009e636b611db16211b65a9aadff29c5"),
    ([4], "e52d9c508c502347344d8c07ad91cbd6068afc75ff6292f062a09ca381c89e71"),
    ([], "e3b0c44298fc1c149afbf4c8996fb92427ae41e4649b934ca495991b7852b855"),
    ([123, 125], "44136fa355b3678a1146ad16f7e8649e94fb4fc21fe77e8310c060f61caaff8a")]

/-- Any other content, told apart from the digests. -/
def undigested (content : Content) : String :=
  String.ofList ('x' :: content.flatMap fun b =>
    [Nat.digitChar (b.toNat / 16), Nat.digitChar (b.toNat % 16)])

/-- A host that knows these digests, and no document. -/
def host : Host where
  root := ["p"]
  bundled := true
  platform := "linux"
  python := "3.12"
  sha256 := tabled digests undigested
  loads _ := .error (.value "Expecting value")
  dump _ := [0x7b, 0x7d]
  floatText _ := "0.0"
  reportText _ := "report"

def id : String := String.ofList (List.replicate 32 'a')

/-- The files of the project; the output of the execution appears after the check for it. -/
def files : List (Path × Node) :=
  [(["inputs", "00-a.md"], .file [1]), (["problem.md"], .file [2]), (["in"], .file [3]),
    (["out"], .file [4]),
    ([".workflow", "executions", id ++ ".stdout"], .file []),
    ([".workflow", "executions", id ++ ".stderr"], .file [])]

def oracle : Oracle
  | .isVacant => ([], .proceed)
  | .exists _ => ([], .proceed)
  | .now => (files, .text "t")
  | .uuid4 => (files, .text id)
  | .popen _ => (files, .number 7)
  | .wait _ _ => (files, .ending (.exited 0))
  | _ => (files, .proceed)

def initArgs (format : Format) : InitArgs :=
  { problem := ⟨"a.md", "a", some [1]⟩, data := [], title := none, kind := .general, maxRuns := 20,
    pdf := false, workflowVersion := format }

def runArgs : RunArgs :=
  { stage := .understand, input := ["in"], output := ["out"], timeout := .finite 300,
    argv := ["--", "make"] }

def completeArgs : CompleteArgs :=
  { stage := .understand, artifact := [], execution := [id], note := "" }

/-- A project is created, an execution succeeds, and the first stage is completed with it. -/
def completed (format : Format) : List (Command × Oracle × Nat) :=
  [(.init (initArgs format), oracle, 100), (.run runArgs, oracle, 100),
    (.complete completeArgs, oracle, 200)]

/-- A project is created. -/
def created (format : Format) : List (Command × Oracle × Nat) :=
  [(.init (initArgs format), oracle, 100)]

/-- A project is created and an execution succeeds. -/
def executed (format : Format) : List (Command × Oracle × Nat) :=
  [(.init (initArgs format), oracle, 100), (.run runArgs, oracle, 100)]

/-- The project is reworked from the first stage on. -/
def reworked : List (Command × Oracle × Nat) :=
  completed .v2 ++ [(.reopen .understand "wrong", oracle, 100)]

/-- The project is upgraded. -/
def upgraded : List (Command × Oracle × Nat) :=
  completed .v1 ++ [(.upgrade "new gates", oracle, 100)]

/-- The site that a scenario leaves. -/
def site (commands : List (Command × Oracle × Nat)) : Site :=
  scenario host ⟨Disk.empty, []⟩ commands

theorem reachable (commands : List (Command × Oracle × Nat)) :
    Session.Reachable host ⟨site commands, none⟩ :=
  Session.Reachable.scenario .refl commands

/-- The directory that a scenario leaves, with the files of the project in it. -/
def disk (commands : List (Command × Oracle × Nat)) : Disk :=
  { (site commands).disk with files := files }

/-- A scenario that saves a state with the property. -/
theorem saved (commands : List (Command × Oracle × Nat)) (p : State → Bool)
    (h : (site commands).disk.state.any p = true) :
    ∃ state, (site commands).disk.state = some state ∧ p state = true :=
  (Option.any_eq_true _ _).mp h

end Scenario

end Mathmodel.Workflow
