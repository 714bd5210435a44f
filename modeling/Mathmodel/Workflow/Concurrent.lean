import Mathmodel.Library.Locking
import Mathmodel.Workflow.Reading
import Mathmodel.Workflow.Scenario

/-!
# Commands at the same time

Several commands may be started on one project before any of them has ended. A
session admits one after the other; here every process asks when it likes, and
`flock` refuses the lock while another process has it open. Commands that have
not got the lock only look for the state, so whatever the order of their
requests, the documents are those of a session, and what a command reports is
what it reports there.
-/

namespace Mathmodel.Workflow

open Dialogue

/-- The commands at work on one directory. -/
abbrev Commands := Crowd Disk Command Request Request.Answer PyErr Output

/-- The answers a request may get from the directory as it is. -/
def Disk.Serves (host : Host) (d : Disk) (q : Request) (r : Except PyErr q.Answer) (d' : Disk) :
    Prop :=
  ∃ files choice, q.perform host { d with files := files } choice = some (r, d')

/-- The answer by which a command gets the lock. -/
def Request.Grants : (q : Request) → Except PyErr q.Answer → Prop
  | .lock, .ok _ => True
  | _, _ => False

/-- One event among the commands. -/
def Commands.Step (host : Host) : Commands → Commands → Prop :=
  Crowd.Step (result host) (Disk.Serves host) Request.Grants

/-- The requests of a command that has not got the lock. -/
def Request.isWaiting : Request → Bool
  | .isVacant | .isInitialized | .lock | .resolve _ => true
  | _ => false

/-- A directory with a state is not vacant. -/
def Request.Possible : (q : Request) → Except PyErr q.Answer → Prop
  | .isVacant, .ok vacant => vacant = false
  | _, _ => True

/-- What is left of a command that has got the lock. -/
def within (host : Host) : Command → Task Output → Prop
  | .init _, _ => False
  | command, d => d = do
      let state ← ask .loadState
      perform host command state

/-- The site has the documents of the directory, and there is a state among them. -/
def Site.Like (s : Site) (d : Disk) : Prop := { s.disk with files := d.files } = d ∧ d.state.isSome

section Rules

variable {host : Host}

theorem perform_waiting {q : Request} (waiting : q.isWaiting = true) {d d' : Disk}
    {choice : Choice} {r : Except PyErr q.Answer} (done : q.perform host d choice = some (r, d')) :
    d' = d := by
  cases q with
  | isVacant | isInitialized | lock => cases choice <;> cases done <;> rfl
  | resolve path =>
      cases choice with
      | proceed | resolution =>
          simp only [Request.perform] at done
          split at done <;> cases done
          rfl
      | refuse => cases done; rfl
      | _ => cases done
  | _ => cases waiting

/-- No request takes the state away. -/
theorem perform_isSome {q : Request} {d d' : Disk} {choice : Choice} {r : Except PyErr q.Answer}
    (there : d.state.isSome = true) (done : q.perform host d choice = some (r, d')) :
    d'.state.isSome = true := by
  by_cases quiet : q.isQuiet = true
  · rw [(Request.perform_same done quiet).state]
    exact there
  · cases q with
    | saveState state =>
        cases choice <;> cases done
        · rfl
        · exact there
    | saveReceipt receipt => cases choice <;> cases done <;> exact there
    | copyBlob path sha =>
        cases choice with
        | proceed =>
            simp only [Request.perform] at done
            split at done <;> cases done <;> exact there
        | _ => cases done <;> exact there
    | _ => cases quiet rfl

theorem perform_possible {q : Request} {d d' : Disk} {choice : Choice} {r : Except PyErr q.Answer}
    (there : d.state.isSome = true) (done : q.perform host d choice = some (r, d')) :
    q.Possible r := by
  cases q with
  | isVacant =>
      cases choice <;> cases done
      · obtain ⟨state, found⟩ := Option.isSome_iff_exists.mp there
        change d.isVacant = false
        rw [Disk.isVacant, found]
        rfl
      · trivial
  | _ => trivial

theorem Site.Like.served {s : Site} {d d' : Disk} {q : Request} {r : Except PyErr q.Answer}
    (like : s.Like d) (answered : Disk.Serves host d q r d') :
    (∃ t, serve host s q r t ∧ t.Like d') ∧ q.Possible r ∧ (q.isWaiting = true → s.Like d') := by
  obtain ⟨files, choice, done⟩ := answered
  have same : { s.disk with files := files } = { d with files := files } := by rw [← like.1]
  have there : d'.state.isSome = true := perform_isSome (d := { d with files := files }) like.2 done
  refine ⟨⟨⟨d', s.log ++ [.answered q r]⟩, ⟨files, choice, ?_, rfl⟩, rfl, there⟩, ?_, ?_⟩
  · rw [same]
    exact done
  · exact perform_possible (d := { d with files := files }) like.2 done
  · intro waiting
    obtain rfl := perform_waiting waiting done
    exact ⟨same, there⟩

/-- Looking for a path of the project is allowed before the lock. -/
theorem waits_localPath (name : String) :
    (localPath name true).Uses fun q => q.isWaiting = true ∧ ∀ r, ¬ q.Grants r := by
  unfold localPath
  refine uses_bind (uses_ofExcept _) fun _ => uses_bind (uses_ofExcept _) fun _ => ?_
  refine uses_bind (uses_request ⟨rfl, fun _ => id⟩) fun _ => ?_
  refine uses_bind (uses_ofExcept _) fun _ => uses_bind (uses_ofExcept _) fun _ => ?_
  exact uses_bind (uses_ofExcept _) fun _ => uses_pure _

/-- The steps of a command up to the lock. -/
def admission : Task Unit := do
  let _ ← localPath ".workflow/state.json" true
  let there ← ask .isInitialized
  check there "Not initialized; run init first."
  let _ ← localPath ".workflow/lock" true
  ask .lock

theorem main_eq {c : Command} {d : Task Output} (rest : within host c d) :
    result host c = admission >>= fun _ => d := by
  have unlocked : locked = admission >>= fun _ => ask .loadState := by
    simp only [locked, admission, bind_assoc]
  cases c with
  | init args => cases rest
  | _ =>
      cases rest
      simp only [result, unlocked, bind_assoc]

/-- Every command waits for the lock, and a project that exists is not initialised again. -/
theorem waits_main (c : Command) :
    (result host c).Waits (fun q => q.isWaiting = true) Request.Possible Request.Grants
      (within host c) := by
  have locks : ∀ d, within host c d → (result host c).Waits (fun q => q.isWaiting = true)
      Request.Possible Request.Grants (within host c) := by
    intro d rest
    rw [main_eq rest, admission]
    simp only [bind_assoc]
    refine waits_bind (waits_localPath _) fun _ => ?_
    refine waits_bind (uses_request ⟨rfl, fun _ => id⟩) fun there => ?_
    refine waits_bind (uses_ofExcept _) fun _ => waits_bind (waits_localPath _) fun _ => ?_
    refine waits_request rfl (fun _ => id) fun _ _ => ⟨fun _ => rest, ?_⟩
    exact fun refused => absurd trivial refused
  cases c with
  | init args =>
      refine waits_bind (uses_ofExcept _) fun _ => waits_bind (uses_ofExcept _) fun _ => ?_
      refine waits_request rfl (fun _ => id) fun vacant possible => ⟨False.elim, fun _ => ?_⟩
      obtain rfl : vacant = false := possible
      exact waits_raise _
  | _ => exact locks _ rfl

theorem ends_check {condition : Bool} {message : String} (passes : condition = true) (s : Site) :
    Ends (serve host) (check condition message) s (.ok ()) s := by
  subst passes
  exact .ret _ _

/-- Where the user has no links, a path of the script is found. -/
theorem ends_localPath (host : Host) (name : String) (s : Site)
    (inner : (!isAbsolute name && !(parts name).contains "..") = true)
    (nonempty : (!(parts name).isEmpty) = true) :
    ∃ t, Ends (serve host) (localPath name true) s (.ok (parts name)) t ∧
      t.disk = { s.disk with files := [] } := by
  have plain : Disk.isLinked { s.disk with files := [] } (parts name) = false := by
    simp [Disk.isLinked]
  refine ⟨⟨{ s.disk with files := [] }, s.log ++ [.answered (.resolve (parts name)) (.ok .plain)]⟩,
    ?_, rfl⟩
  refine (ends_check inner s).bind ((ends_check ?_ s).bind ?_)
  · simpa using nonempty
  have resolved : serve host s (.resolve (parts name)) (.ok .plain)
      ⟨{ s.disk with files := [] }, s.log ++ [.answered (.resolve (parts name)) (.ok .plain)]⟩ :=
    ⟨[], .proceed, by simp [Request.perform, plain], rfl⟩
  exact (Ends.request resolved).bind (.ret _ _)

theorem ends_proceed (host : Host) (q : Request) (a : q.Answer) {s : Site}
    (there : q.perform host s.disk .proceed = some (.ok a, s.disk)) :
    ∃ t, Ends (serve host) (ask q) s (.ok a) t ∧ t.disk = s.disk :=
  ⟨⟨s.disk, s.log ++ [.answered q (.ok a)]⟩,
    .request (r := .ok a) ⟨s.disk.files, .proceed, there, rfl⟩, rfl⟩

/-- In a project with a state, a session lets a command up to the lock. -/
theorem ends_admission (host : Host) {s : Site} (there : s.disk.state.isSome = true) :
    ∃ t, Ends (serve host) admission s (.ok ()) t ∧ t.disk = { s.disk with files := [] } := by
  obtain ⟨s₁, first, disk₁⟩ := ends_localPath host ".workflow/state.json" s (by decide)
    (by decide)
  obtain ⟨s₂, second, disk₂⟩ := ends_proceed host .isInitialized true (s := s₁)
    (by rw [Request.perform, disk₁, there])
  obtain ⟨s₃, third, disk₃⟩ := ends_localPath host ".workflow/lock" s₂ (by decide) (by decide)
  obtain ⟨s₄, fourth, disk₄⟩ := ends_proceed host .lock () (s := s₃) rfl
  refine ⟨s₄, ?_, ?_⟩
  · exact first.bind (second.bind ((ends_check rfl s₂).bind (third.bind fourth)))
  · rw [disk₄, disk₃, disk₂, disk₁]

theorem guarded (host : Host) :
    Guarded (result host) Site.enter (serve host) (Disk.Serves host) (fun q => q.isWaiting = true)
      Request.Possible Request.Grants (within host) Site.Like where
  answers like answered := (like.served answered).1
  admits like answered := (like.served answered).2.1
  still like answered waiting := (like.served answered).2.2 waiting
  waits := waits_main
  enters := by
    intro s d c x like rest
    have there : (s.enter c).disk.state.isSome = true := by
      have known := like.2
      rwa [← like.1] at known
    obtain ⟨t, ends, disk⟩ := ends_admission host there
    refine ⟨s.enter c, t, .head (.start s c) ?_, ?_, like.2⟩
    · rw [main_eq rest]
      exact Machine.reaches_bind c (s.enter c) ends
    · rw [disk]
      exact like.1

end Rules

/-- However the requests of several commands on a project mix, and whichever of them are
killed, the documents are those of a session, where the command with the lock is at work
and the others have not begun. A command that succeeds has the lock. -/
theorem commands_serial (host : Host) (m₀ : Session) (resting : m₀.process = none)
    (there : m₀.state.disk.state.isSome = true) {m : Commands}
    (run : Relation.ReflTransGen (Commands.Step host) (Crowd.idle m₀.state.disk) m) :
    ∃ k : Session, Relation.ReflTransGen (Session.Step host) m₀ k ∧
      { k.state.disk with files := m.state.files } = m.state ∧
      (k.process.map fun (c, _, d) => (c, d)) = m.holder.bind m.processes ∧
      ∀ p c a, m.processes p = some (c, .ret a) → m.holder = some p := by
  obtain ⟨s, process⟩ := m₀
  cases resting
  have like : s.Like s.disk := ⟨rfl, there⟩
  obtain ⟨k, onward, related⟩ := (guarded host).run (Crowd.Serial.idle like) run
  refine ⟨k, onward, related.like.1, ?_, ?_⟩
  · cases held : m.holder with
    | none =>
        rw [related.vacant held]
        rfl
    | some p =>
        obtain ⟨c, entry, d, working, same⟩ := related.holds p held
        rw [same, Option.map_some, Option.bind_some, working]
  · intro p c a working
    by_contra other
    exact related.outside p c _ working other

namespace Scenario

/-- A command has the lock of a project, and another one has been refused it. -/
def rivals (d : Disk) : Commands where
  state := { d with files := [] }
  processes := Function.update (Function.update (fun _ => none) 0 (some (.status, do
      let state ← ask .loadState
      perform host .status state)))
    1 (some (.next, .raise (.value "Another workflow command is active.")))
  holder := some 0

theorem rivals_reached {d : Disk} (there : d.state.isSome = true) :
    Relation.ReflTransGen (Commands.Step host) (Crowd.idle d) (rivals d) := by
  obtain ⟨state, receipts, blobs, prepared, files, deliveries⟩ := d
  obtain ⟨state, rfl⟩ := Option.isSome_iff_exists.mp there
  -- The first process is let up to the lock and gets it.
  have first := Relation.ReflTransGen.refl
    (r := Commands.Step host)
    (a := Crowd.idle ⟨some state, receipts, blobs, prepared, files, deliveries⟩)
    |>.tail (.start (p := 0) rfl .status)
    |>.tail (.answer (p := 0) rfl ⟨[], .proceed, rfl⟩ (by exact False.elim))
    |>.tail (.answer (p := 0) rfl ⟨[], .proceed, rfl⟩ (by exact False.elim))
    |>.tail (.answer (p := 0) rfl ⟨[], .proceed, rfl⟩ (by exact False.elim))
    |>.tail (.acquire (p := 0) rfl ⟨[], .proceed, rfl⟩ (by trivial) rfl)
  have second := first
    |>.tail (.start (p := 1) rfl .next)
    |>.tail (.answer (p := 1) rfl ⟨[], .proceed, rfl⟩ (by exact False.elim))
    |>.tail (.answer (p := 1) rfl ⟨[], .proceed, rfl⟩ (by exact False.elim))
    |>.tail (.answer (p := 1) rfl ⟨[], .proceed, rfl⟩ (by exact False.elim))
    |>.tail (.answer (p := 1) rfl ⟨[], .flag true, rfl⟩ (by exact False.elim))
  simp only [Function.update_idem] at second
  exact second

end Scenario

theorem commands_serial_rivals :
    ∃ k : Session, Relation.ReflTransGen (Session.Step Scenario.host)
        ⟨Scenario.site (Scenario.created .v2), none⟩ k ∧
      { k.state.disk with files := [] } =
        { (Scenario.site (Scenario.created .v2)).disk with files := [] } ∧
      (k.process.map fun (c, _, d) => (c, d)) = some (.status, do
        let state ← ask .loadState
        perform Scenario.host .status state) := by
  have there : (Scenario.site (Scenario.created .v2)).disk.state.isSome = true := by
    obtain ⟨state, saved, -⟩ := Scenario.saved (Scenario.created .v2) (fun _ => true)
      (by decide +kernel)
    rw [saved]
    rfl
  obtain ⟨k, onward, documents, process, -⟩ := commands_serial Scenario.host
    ⟨Scenario.site (Scenario.created .v2), none⟩ rfl there (Scenario.rivals_reached there)
  refine ⟨k, onward, documents, process.trans ?_⟩
  rfl

end Mathmodel.Workflow
