import Mathmodel.Backend.History

/-!
# Life of a run

The statuses of a run form a state machine whose moves are labelled with the origin of the
transaction: a command of a client, a step of the service, a message of a runtime, or the
history that a runtime returned. Every committed change of a status is one of its moves,
whatever the order of commands, frames, faults, continuations and restarts.
-/

namespace Mathmodel

/-- The moves of the status of one run. -/
inductive Transition (id : String) : Origin → RunStatus → RunStatus → Prop where
  -- decisions of a client
  | start {c : Command} {version : Number} (request : c.request = .onRun id version .start) :
      Transition id (.command c false) .ready .queued
  | retry {c : Command} {version : Number} {s : RunStatus}
      (request : c.request = .onRun id version .retry) (ended : s = .failed ∨ s = .cancelled) :
      Transition id (.command c false) s .queued
  | withdraw {c : Command} {version : Number} {s : RunStatus}
      (request : c.request = .onRun id version .cancel) (idle : s = .ready ∨ s = .queued) :
      Transition id (.command c false) s .cancelled
  | cancel {c : Command} {version : Number} {s : RunStatus}
      (request : c.request = .onRun id version .cancel)
      (active : s = .starting ∨ s = .running ∨ s = .waitingApproval) :
      Transition id (.command c false) s .cancelling
  | resolve {c : Command} {version : Number} {approvalId : String} {decision : Decision}
      (request : c.request = .onRun id version (.resolve approvalId decision)) :
      Transition id (.command c false) .waitingApproval .running
  | accept {c : Command} {version : Number} {comment : String}
      (request : c.request = .onRun id version (.review .accept comment)) :
      Transition id (.command c false) .awaitingReview .completed
  | reject {c : Command} {version : Number} {comment : String}
      (request : c.request = .onRun id version (.review .reject comment)) :
      Transition id (.command c false) .awaitingReview .failed
  -- steps of the service
  | begin : Transition id (.update id .startAttempt .service) .queued .starting
  | stop : Transition id (.update id .cancelBeforeTurn .service) .cancelling .cancelled
  | fail {message : String} {s : RunStatus} (started : s ≠ .ready) :
      Transition id (.update id (.failBeforeDispatch message) .service) s .failed
  | doubt {message : String} {s : RunStatus} (started : s ≠ .ready)
      (unsettled : s.isTerminal = false) (known : s ≠ .recoveryRequired) :
      Transition id (.update id (.uncertain message) .service) s .recoveryRequired
  -- messages and history of a runtime
  | bind {g : Nat} {value : Option Json} :
      Transition id (.update id (.bindTurn value) (.runtime g)) .starting .running
  | ask {g k : Nat} {approvalId generation : String} {kind : ApprovalKind}
      {requestId details : Json} :
      Transition id (.update id
        (.requestApproval approvalId k (.own kind) requestId generation details) (.runtime g))
        .running .waitingApproval
  | unask {g : Nat} {requestId : Option Json} :
      Transition id (.update id (.resolvedByRuntime requestId) (.runtime g))
        .waitingApproval .running
  | conclude {g : Nat} {turn : Json} {outcome : TurnOutcome} {s : RunStatus}
      (started : s ≠ .ready) (unsettled : s.isTerminal = false)
      (reported : plainLookup TurnOutcome.table (turn.get "status") = .ok (.own outcome)) :
      Transition id (.update id (.finish turn (.own outcome)) (.runtime g)) s outcome.runStatus
  | recover {g : Nat} {response turn : Json} {outcome : TurnOutcome} {s : RunStatus}
      (started : s ≠ .ready) (final : Service.isFinalTurn turn = true)
      (reported : plainLookup TurnOutcome.table (turn.get "status") = .ok (.own outcome)) :
      Transition id (.update id (.finish turn (.own outcome)) (.history g response)) s
        outcome.runStatus

section Moves

variable {env : Env} {cause : Cause} {w : World} {id : String} {m : Moment} {r r' : Run}

/-- A save by the service or a runtime keeps the status or makes a move. -/
theorem Wrote.transition {change : Change} {via : Via} (why : Wrote env cause w id r change via)
    (saves : change.Saves m r r') (sound : r.Sound) :
    r'.status = r.status ∨ Transition id (.update id change via) r.status r'.status := by
  cases why with
  | uncertain found status started =>
      have begun : r.status ≠ .ready := fun ready => started (sound.unstarted ready)
      cases saves with
      | uncertain last => exact .inr (.doubt begun status.1 status.2)
      | uncertainNew none => exact .inr (.doubt begun status.1 status.2)
  | begun found job idle queued =>
      cases saves with
      | startAttempt status => exact .inr (queued ▸ .begin)
  | misfired job before starting =>
      cases saves with
      | failBeforeDispatch last => exact .inr (.fail (sound.not_ready last))
  | gaveUp found resumes owns =>
      cases saves with
      | failBeforeDispatch last => exact .inr (.fail (sound.not_ready last))
  | boundThread found resumes owns =>
      cases saves with
      | bindThread last typed => exact .inl rfl
  | stopped found resumes owns unsent cancelling =>
      cases saves with
      | cancelBeforeTurn last => exact .inr (cancelling ▸ .stop)
  | boundReply found resumes owns last unbound reply =>
      cases saves with
      | bindTurn last unbound typed =>
          by_cases starting : r.status = .starting
          · exact .inr (by simpa [starting] using .bind)
          · exact .inl (if_neg starting)
  | boundTurn delivers announces heard =>
      cases saves with
      | bindTurn last unbound typed =>
          by_cases starting : r.status = .starting
          · exact .inr (by simpa [starting] using .bind)
          · exact .inl (if_neg starting)
  | progressed delivers heard =>
      cases saves with
      | message last => exact .inl rfl
      | item => exact .inl rfl
  | concluded delivers completes heard last same table =>
      cases saves with
      | finish last' typed => exact .inr (.conclude (sound.not_ready last) heard.unsettled table)
  | withdrawn delivers withdraws heard =>
      cases saves with
      | resolvedByRuntime found expired =>
          dsimp only
          split
          · rename_i waiting
            exact .inr (waiting.1 ▸ .unask)
          · exact .inl rfl
  | asked heard status number =>
      cases saves with
      | requestApproval room =>
          rcases status with running | waiting
          · exact .inr (running ▸ .ask)
          · exact .inl waiting.symm
  | noted found source =>
      cases saves with
      | reconciled => exact .inl rfl
  | imported found resumes owns selects final table =>
      cases saves with
      | finish last typed => exact .inr (.recover (sound.not_ready last) final table)

/-- An accepted command keeps the status or makes a move. -/
theorem Change.Saves.transition {c : Command} {version : Number} {op : RunOp} {view : View}
    (saves : (Change.command view op).Saves m r r') (request : c.request = .onRun id version op) :
    r'.status = r.status ∨ Transition id (.command c false) r.status r'.status := by
  cases saves with
  | start status room free => exact .inr (status ▸ .start request)
  | retry status room free => exact .inr (.retry request status)
  | cancelIdle status => exact .inr (.withdraw request status)
  | cancelActive status => exact .inr (.cancel request status)
  | resolve named answered =>
      have waiting := (RunOp.answerable_eq_some named).2.1
      dsimp only
      split
      · exact .inl waiting.symm
      · exact .inr (waiting ▸ .resolve request)
  | @review view decision comment a status last =>
      cases decision with
      | accept => exact .inr (status ▸ .accept request)
      | reject => exact .inr (status ▸ .reject request)
  | reconcile status free bound => exact .inl rfl

end Moves

/-- What a transaction makes of the status of a run that it leaves stored: a new run is
ready, and an old one keeps its status or makes a move. -/
def Origin.Moves (origin : Origin) (before : Db) (id : String) (r' : Run) : Prop :=
  match before.runs.lookup id with
  | none => r'.status = .ready ∧ r'.attempts = [] ∧ r'.approvals = [] ∧ r'.review = none
  | some r => r'.status = r.status ∨ Transition id origin r.status r'.status

theorem Commit.moves {env : Env} {cause : Cause} {w : World} {origin : Origin} {before after : Db}
    (commit : Commit env cause w origin before after) (sound : before.Sound) {id : String}
    {r' : Run} (found' : after.runs.lookup id = some r') : origin.Moves before id r' := by
  unfold Origin.Moves
  obtain same | ⟨m, projectId, task, none, rfl⟩ | ⟨r, s, change, via, rfl, found, why, saves, rfl⟩ |
    ⟨r, s, c, version, op, rfl, -, -, request, -, found, saves, rfl⟩ := commit.run sound found'
  · rw [same]
    exact .inl rfl
  · rw [none]
    exact ⟨rfl, rfl, rfl, rfl⟩
  · have moves := why.transition saves (sound.runs id r found)
    rw [found]
    exact moves
  · have moves := saves.transition request
    rw [found]
    exact moves

/-- Every committed change of a status is a move of the state machine. -/
theorem status_law {env : Env} {w : World} (run : Reaches (Step env) .init w) :
    ∀ origin before after, .commit origin before after ∈ w.log →
      ∀ id r', after.runs.lookup id = some r' → origin.Moves before id r' := by
  refine run.ledger (I := fun log _ => ∀ origin before after, .commit origin before after ∈ log →
    ∀ id r', after.runs.lookup id = some r' → origin.Moves before id r') (by simp) ?_ ?_
  · intro cause w origin before after log _ sound commit h origin' before' after' member
    rcases List.mem_cons.mp member with same | old
    · cases same
      exact fun id r' found' => commit.moves sound found'
    · exact h origin' before' after' old
  · intro e log db plain h origin before after member
    rcases List.mem_cons.mp member with same | old
    · subst same
      cases plain
    · exact h origin before after old

set_option maxRecDepth 100000 in
/-- In the script of an approval the run has come as far as `waitingApproval`. -/
theorem status_law_asked : ∃ w, Reaches (Step (Script.env Script.approvalFrames)) .init w ∧
    (Script.run w).any (·.status == .waitingApproval) = true ∧
    ∀ origin before after, .commit origin before after ∈ w.log →
      ∀ id r', after.runs.lookup id = some r' → origin.Moves before id r' := by
  obtain ⟨w, run, waiting⟩ := Script.reaches Script.approvalFrames Script.asked
    (fun w => (Script.run w).any (·.status == .waitingApproval)) (by decide +kernel)
  exact ⟨w, run.ofNode, waiting, status_law run.ofNode⟩

end Mathmodel
