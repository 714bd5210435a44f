import Mathmodel.Library.Outcome
import Mathmodel.Workflow.Governed
import Mathmodel.Workflow.Order
import Mathmodel.Workflow.Scenario

/-!
# Commands that fail

A command is careful if it writes `state.json` only where nothing can fail any more.
All of them are, except two: `refresh-inputs` and `upgrade` go through `reopen`, which
saves, and have work to do after it. A failure there leaves the reopened state behind.
-/

namespace Mathmodel.Workflow

open Dialogue

/-- The exit status of the script. -/
def exitCode (c : Command) : Except PyErr Output → Nat
  | .error _ => 1
  | .ok out =>
      match c, out with
      | .run _, .executed receipt => if receipt.status = .succeeded then 0 else 1
      | _, _ => 0

def Request.isSave : Request → Bool
  | .saveState _ => true
  | _ => false

/-- Whatever it is answered, the task does not ask to write the state. -/
def Spares {α : Type} (x : Task α) : Prop := x.Uses fun q => q.isSave = false

section Spares

variable {α β : Type} {host : Host} {s t : Site}

/-- Only a save changes the state of the disk. -/
theorem serve_spares {q : Request} {r : Except PyErr q.Answer} (served : serve host s q r t)
    (other : q.isSave = false) : t.disk.state = s.disk.state := by
  cases q with
  | saveState state => cases other
  | saveReceipt receipt =>
      cases r with
      | ok a => exact (serve_saveReceipt served).1
      | error e => exact (serve_refused served (.inr ⟨_, rfl⟩)).disk.state
  | copyBlob path sha => exact (serve_copyBlob_blobs served).1
  | _ => exact (serve_still served rfl).disk.state

/-- A task that saves no state leaves the one on the disk. -/
theorem Spares.ends {x : Task α} {result : Except PyErr α} (spares : Spares x)
    (ends : Ends (serve host) x s result t) : t.disk.state = s.disk.state := by
  induction ends with
  | ret a s => rfl
  | raise e s => rfl
  | ask served _ ih => exact (ih (spares.2 _)).trans (serve_spares served spares.1)

theorem Reads.spares {x : Task α} (h : Reads x) : Spares x := by
  refine h.mono fun q quiet => ?_
  cases q with
  | saveState state => cases quiet
  | _ => rfl

theorem Spares.bind {x : Task β} {f : β → Task α} (hx : Spares x) (hf : ∀ b, Spares (f b)) :
    Spares (x >>= f) := uses_bind hx hf

theorem spares_snapshot (name : String) (internal nonempty : Bool) :
    Spares (snapshot host name internal nonempty) := by
  refine .bind (views_localPath name internal).looks.reads.spares fun p => ?_
  refine .bind (Reads.ask rfl).spares fun _ => .bind (Reads.check _ _).spares fun _ => ?_
  refine .bind (Reads.ite (views_isNonempty p).looks.reads (.pure _)).spares fun _ => ?_
  refine .bind (Reads.check _ _).spares fun _ => .bind (views_digest host p).looks.reads.spares ?_
  intro sha
  refine .bind (.bind (Reads.ask rfl).spares fun there => ?_) fun _ => ?_
  · split
    · exact uses_pure _
    · exact uses_request rfl
  · refine .bind (looks_digestBlob host sha).reads.spares fun _ => ?_
    refine .bind (Reads.check _ _).spares fun _ => .bind (Reads.ask rfl).spares fun _ => ?_
    exact uses_pure _

theorem spares_snapshots {γ : Type} (name : γ → String) (internal nonempty : Bool) (l : List γ) :
    Spares (l.mapM fun a => snapshot host (name a) internal nonempty) :=
  uses_mapM (fun _ => spares_snapshot _ _ _) l

theorem reads_ready (state : State) (stage : StageId) : Reads (ready host state stage) := by
  refine .bind (reads_problems host state) fun _ => .bind (.check _ _) fun _ => ?_
  refine .bind reads_pending fun _ => .bind (.check _ _) fun _ => ?_
  split
  · exact .eval _
  · exact .bind (.check _ _) fun _ => .pure _

theorem reads_checkInput (message : String) (ref : Ref) : Reads (checkInput host message ref) :=
  .bind (views_localPath _ _).looks.reads fun p => .bind (views_digest host p).looks.reads fun _ =>
    .check _ _

theorem reads_checkOutput (name : String) : Reads (checkOutput name) :=
  .bind (views_localPath _ _).looks.reads fun _ => .bind (.ask rfl) fun _ =>
    .bind (.check _ _) fun _ => .ask rfl

theorem reads_locked : Reads locked :=
  .bind (views_localPath _ _).looks.reads fun _ => .bind (.ask rfl) fun _ =>
    .bind (.check _ _) fun _ => .bind (views_localPath _ _).looks.reads fun _ =>
    .bind (.ask rfl) fun _ => .ask rfl

end Spares

section Commands

variable {host : Host}

theorem reads_inspect (strict : Bool) (state : State) : Reads (inspect host strict state) :=
  .bind (reads_problems host state) fun _ => .bind reads_pending fun _ => .bind (.ask rfl) fun _ =>
    .bind (.check _ _) fun _ => .pure _

theorem reads_export (destination : Path) (state : State) :
    Reads (export_ host destination state) := by
  refine .bind (.check _ _) fun _ =>
    .bind (.bind (reads_problems host state) fun _ => ?_) fun _ => ?_
  · exact .ite (.bind reads_pending fun _ => .pure _) (.pure _)
  · refine .bind (.check _ _) fun _ => .bind (.check _ _) fun _ => .bind (.ask rfl) fun _ => ?_
    refine .bind (.check _ _) fun _ => .bind (.ask rfl) fun directory => ?_
    exact .bind (reads_finally (reads_fill _ _ _ _) (reads_discard _)) fun _ => .pure _

theorem spares_abandon (execution reason : String) : Spares (abandon execution reason) := by
  refine .bind (Reads.check _ _).spares fun _ => .bind reads_pending.spares fun active => ?_
  split
  · refine .bind (reads_checkStopped _).spares fun _ => .bind (Reads.ask rfl).spares fun _ => ?_
    exact .bind (uses_request rfl) fun _ => uses_pure _
  · exact (Reads.eval _).spares

theorem spares_settle {receipt : Receipt} {x : Task Receipt} (hx : Spares x) :
    Spares (settle receipt x) := by
  refine uses_handle hx fun e => ?_
  split
  · exact uses_pure _
  · trivial

theorem reads_await (pid : Nat) (timeout : Double) : Reads (await pid timeout) := by
  refine .bind (.ask rfl) fun ending => ?_
  cases ending with
  | exited code => exact .pure _
  | expired => exact .bind (.ask rfl) fun _ => .bind (.ask rfl) fun _ => .pure _
  | interrupted => exact .bind (.ask rfl) fun _ => .bind (.ask rfl) fun _ => .pure _

theorem spares_supervise (args : RunArgs) (receipt : Receipt) :
    Spares (supervise host args receipt) := by
  refine spares_settle (.bind (Reads.forM (fun _ => .ask rfl) _).spares fun _ => ?_)
  refine .bind (Reads.ask rfl).spares fun pid => spares_settle ?_
  refine .bind (uses_request rfl) fun _ => .bind (reads_await pid _).spares fun ended => ?_
  refine spares_settle (.bind (Reads.check _ _).spares fun _ => ?_)
  refine .bind (Reads.forM (reads_checkInput _) _).spares fun _ => ?_
  exact .bind (spares_snapshots (fun p => p) _ _ _) fun _ => uses_pure _

/-- `run` files receipts and stores blobs, but saves no state. -/
theorem spares_run (args : RunArgs) (state : State) : Spares (run host args state) := by
  refine .bind (reads_ready state args.stage).spares fun _ => ?_
  refine .bind (Reads.check _ _).spares fun _ => .bind (Reads.check _ _).spares fun _ => ?_
  refine .bind (Reads.ask rfl).spares fun _ => .bind (Reads.check _ _).spares fun _ => ?_
  refine .bind (spares_snapshots (fun p => p) _ _ _) fun _ => ?_
  refine .bind (Reads.forM reads_checkOutput _).spares fun _ => ?_
  refine .bind (Reads.ask rfl).spares fun _ => .bind (Reads.ask rfl).spares fun _ => ?_
  refine .bind (uses_request rfl) fun _ => .bind (spares_supervise args _) fun _ => ?_
  exact .bind (Reads.ask rfl).spares fun _ => .bind (uses_request rfl) fun _ => uses_pure _

end Commands

/-- Started on this state, the task changes it exactly if it returns. -/
def Turns {α : Type} (host : Host) (state : State) (x : Task α) : Prop :=
  ∀ s result t, s.disk.state = some state → Ends (serve host) x s result t →
    (t.disk.state = some state ↔ ∃ e, result = .error e)

section Turns

variable {α β : Type} {host : Host} {state : State}

theorem Turns.bind {x : Task β} {f : β → Task α} (hx : Spares x)
    (hf : ∀ b, Turns host state (f b)) : Turns host state (x >>= f) := by
  intro s result t found ends
  obtain ⟨b, u, first, rest⟩ | ⟨e, rfl, first⟩ := ends_bind ends
  · exact hf b u result t ((hx.ends first).trans found) rest
  · exact iff_of_true ((hx.ends first).trans found) ⟨e, rfl⟩

/-- Another state is saved at the very end. -/
theorem turns_save {new : State} (other : new ≠ state) (a : α) :
    Turns host state (ask (.saveState new) >>= fun _ => pure a) := by
  intro s result t found ends
  obtain ⟨_, u, saved, rest⟩ | ⟨e, rfl, refused⟩ := ends_bind ends
  · cases rest
    rw [(serve_saveState (ends_request saved)).1, Option.some.injEq]
    exact iff_of_false other nofun
  · have still := serve_refused (ends_request refused) (.inl ⟨_, rfl⟩)
    exact iff_of_true (still.disk.state.trans found) ⟨e, rfl⟩

/-- The stage that is worked on is the next one. -/
theorem turns_ready {stage : StageId} {f : Stage → Task α}
    (next : ∀ step, state.current = some step → step.id = stage → Turns host state (f step)) :
    Turns host state (ready host state stage >>= f) := by
  intro s result t found ends
  obtain ⟨step, u, first, rest⟩ | ⟨e, rfl, first⟩ := ends_bind ends
  · have known := ((finds_ready host state stage s).ends first).1 step rfl
    have still := (reads_ready state stage).spares.ends first
    exact next step known.2.current known.2.id u result t (still.trans found) rest
  · exact iff_of_true (((reads_ready state stage).spares.ends first).trans found) ⟨e, rfl⟩

/-- A stage that is next has no record yet, so registering it makes another state. -/
theorem register_ne {step : Stage} {stage : StageId} {record : Record}
    (current : state.current = some step) (id : step.id = stage) :
    state.register stage record ≠ state := by
  intro same
  have fresh : stage ∉ state.keys := by
    rw [← id]
    simpa using List.find?_some current
  have longer := congrArg (fun s : State => s.stages.length) same
  rw [State.keys_register fresh, List.length_append] at longer
  exact absurd longer (by simp)

/-- `complete` changes the state exactly if it returns: it saves once, at its end. -/
theorem turns_complete (args : CompleteArgs) : Turns host state (complete host args state) := by
  refine turns_ready fun step current id => ?_
  refine .bind (views_stagePaths host args state step).looks.reads.spares fun paths => ?_
  refine .bind (spares_snapshots (fun p => p) _ _ _) fun _ => ?_
  refine .bind (uses_mapM (fun id => ?_) _) fun evidence => ?_
  · refine Spares.bind (Reads.check _ _).spares fun _ =>
      .bind (Reads.ask rfl).spares fun receipt => ?_
    refine .bind (Reads.check _ _).spares fun _ => ?_
    refine .bind (Reads.forM (reads_checkInput _) _).spares fun _ => ?_
    refine .bind (spares_snapshot _ _ _) fun _ => ?_
    exact .bind (spares_snapshots (fun p => p) _ _ _) fun _ => uses_pure _
  · refine .bind (Reads.check _ _).spares fun _ => .bind (Reads.check _ _).spares fun _ => ?_
    refine .bind (views_publicationFiles host state args.stage _).looks.reads.spares fun extra => ?_
    refine .bind (spares_snapshots (fun p => p) _ _ _) fun _ => ?_
    exact .bind (Reads.ask rfl).spares fun _ => turns_save (register_ne current id) _

theorem turns_skip (stage : StageId) (reason : String) :
    Turns host state (skip host stage reason state) :=
  turns_ready fun _ current id => .bind (Reads.check _ _).spares fun _ =>
    .bind (Reads.ask rfl).spares fun _ => turns_save (register_ne current id) _

/-- Reopening a stage changes the state: it adds to the history. -/
theorem reopened_ne (stage : StageId) (time reason : String) :
    state.reopened stage time reason ≠ state := by
  intro same
  have more : state.revision + 1 = state.revision := congrArg State.revision same
  omega

theorem turns_reopen (stage : StageId) (reason : String) :
    Turns host state (reopen stage reason state) :=
  .bind (Reads.check _ _).spares fun _ => .bind reads_pending.spares fun _ =>
    .bind (Reads.check _ _).spares fun _ => .bind (Reads.check _ _).spares fun _ =>
    .bind (Reads.ask rfl).spares fun _ => turns_save (reopened_ne _ _ _) _

/-- Started on another state, the task leaves another one. -/
def Stays {α : Type} (host : Host) (state : State) (x : Task α) : Prop :=
  ∀ s result t, s.disk.state ≠ some state → Ends (serve host) x s result t →
    t.disk.state ≠ some state

theorem Spares.stays {x : Task α} (h : Spares x) : Stays host state x := by
  intro s result t other ends
  rw [h.ends ends]
  exact other

theorem Stays.bind {x : Task β} {f : β → Task α} (hx : Stays host state x)
    (hf : ∀ b, Stays host state (f b)) : Stays host state (x >>= f) := by
  intro s result t other ends
  obtain ⟨b, u, first, rest⟩ | ⟨_, -, first⟩ := ends_bind ends
  · exact hf b u result t (hx s _ u other first) rest
  · exact hx s _ t other first

theorem stays_save {new : State} (other : new ≠ state) :
    Stays host state (ask (.saveState new)) := by
  intro s result t away ends
  cases result with
  | ok a =>
      rw [(serve_saveState (ends_request ends)).1, ne_eq, Option.some.injEq]
      exact other
  | error e =>
      rw [(serve_refused (ends_request ends) (.inl ⟨_, rfl⟩)).disk.state]
      exact away

end Turns

/-- The commands that save the state: their part up to the first save. -/
def saving (host : Host) : Command → Option (Task Unit)
  | .complete args => some do
      let state ← locked
      let _ ← complete host args state
  | .skip stage reason => some do
      let state ← locked
      let _ ← skip host stage reason state
  | .reopen stage reason => some do
      let state ← locked
      let _ ← reopen stage reason state
  | .refreshInputs reason => some do
      let state ← locked
      let _ ← state.inputs.mapM fun r => snapshot host r.path false true
      let _ ← reopen .understand reason state
  | .upgrade reason => some do
      let state ← locked
      check (state.format = .v1) "Project already uses workflow v2."
      check (← problems host state).isEmpty "Repair drift before upgrading."
      let _ ← reopen .report reason state
  | _ => none

/-- The check or the operation that fails comes no later than the first save of the state, if
the command saves it. -/
def FailsEarly (host : Host) (c : Command) (s : Site) (result : Except PyErr Output) (t : Site) :
    Prop :=
  ∀ x, saving host c = some x → ∃ e, result = .error e ∧ Ends (serve host) x s (.error e) t

section Saving

variable {host : Host} {s t u : Site} {c : Command} {state : State} {e : PyErr}

/-- A command works on the state it found, and taking the lock changes nothing. -/
theorem locked_found (ends : Ends (serve host) locked s (.ok state) t) :
    s.disk.state = some state ∧ t.disk.state = s.disk.state :=
  ⟨(((finds_locked s).ends ends).1 state rfl).2, reads_locked.spares.ends ends⟩

/-- The first task is a beginning of the second. It changes the state exactly if it returns, and
what comes after it does not bring the state back. -/
structure Begins (host : Host) (state : State) (early : Task Unit) (whole : Task Output) :
    Prop where
  turns : Turns host state early
  late : ∀ s e t, s.disk.state = some state → Ends (serve host) whole s (.error e) t →
    t.disk.state = some state → Ends (serve host) early s (.error e) t

theorem begins_turns {β : Type} {x : Task β} {rest : β → Task Output}
    (turns : Turns host state x)
    (stays : ∀ s b t, Ends (serve host) x s (.ok b) t → Stays host state (rest b)) :
    Begins host state (x >>= fun _ => pure ()) (x >>= rest) := by
  refine ⟨fun s result t found ends => ?_, fun s e t found ends same => ?_⟩
  · obtain ⟨b, u, first, ends⟩ | ⟨e, rfl, first⟩ := ends_bind ends
    · cases ends
      exact iff_of_false (fun same => nomatch ((turns s _ _ found first).mp same).choose_spec) nofun
    · exact iff_of_true ((turns s _ t found first).mpr ⟨e, rfl⟩) ⟨e, rfl⟩
  · obtain ⟨b, u, first, ends⟩ | ⟨_, ⟨⟩, first⟩ := ends_bind ends
    · have away : u.disk.state ≠ some state := fun same =>
        nomatch ((turns s _ u found first).mp same).choose_spec
      exact absurd same (stays s b u first u _ t away ends)
    · exact first.bind_error

theorem Begins.bind {β : Type} {x : Task β} {early : β → Task Unit} {whole : β → Task Output}
    (spares : Spares x) (h : ∀ b, Begins host state (early b) (whole b)) :
    Begins host state (x >>= early) (x >>= whole) := by
  refine ⟨.bind spares fun b => (h b).turns, fun s e t found ends same => ?_⟩
  obtain ⟨b, u, first, ends⟩ | ⟨_, ⟨⟩, failed⟩ := ends_bind ends
  · exact first.bind ((h b).late u e t ((spares.ends first).trans found) ends same)
  · exact failed.bind_error

/-- A command leaves the state alone exactly if it fails in its beginning. -/
theorem Begins.iff {early : State → Task Unit} {whole : State → Task Output}
    (h : ∀ state, Begins host state (early state) (whole state))
    (ends : Ends (serve host) (locked >>= whole) s (.error e) t) :
    t.disk.state = s.disk.state ↔ Ends (serve host) (locked >>= early) s (.error e) t := by
  constructor
  · intro same
    obtain ⟨state, u, first, ends⟩ | ⟨_, ⟨⟩, failed⟩ := ends_bind ends
    · obtain ⟨found, between⟩ := locked_found first
      exact first.bind ((h state).late u e t (between.trans found) ends (same.trans found))
    · exact failed.bind_error
  · intro begun
    obtain ⟨state, u, first, ends⟩ | ⟨_, ⟨⟩, failed⟩ := ends_bind begun
    · obtain ⟨found, between⟩ := locked_found first
      exact (((h state).turns u _ t (between.trans found) ends).mpr ⟨e, rfl⟩).trans found.symm
    · exact reads_locked.spares.ends failed

/-- What `reopen` returns is the reopened state. -/
theorem reopen_ends {stage : StageId} {reason : String} {new : State}
    (ends : Ends (serve host) (reopen stage reason state) s (.ok new) t) :
    ∃ time, new = state.reopened stage time reason := by
  obtain ⟨_, _, -, ends⟩ := ends_bind_ok ends
  obtain ⟨_, _, -, ends⟩ := ends_bind_ok ends
  obtain ⟨_, _, -, ends⟩ := ends_bind_ok ends
  obtain ⟨_, _, -, ends⟩ := ends_bind_ok ends
  obtain ⟨time, _, -, ends⟩ := ends_bind_ok ends
  obtain ⟨_, _, -, ends⟩ := ends_bind_ok ends
  obtain ⟨rfl, -⟩ := ends_pure ends
  exact ⟨time, rfl⟩

theorem spares_shown (output : Output) : Spares (shown output) :=
  .bind (Reads.ask rfl).spares fun _ => uses_pure _

theorem begins_shown {x : Task Output} (turns : Turns host state x) :
    Begins host state (x >>= fun _ => pure ()) (x >>= shown) :=
  begins_turns turns fun _ output _ _ => (spares_shown output).stays

/-- After `reopen` a state of the next revision is saved once more. -/
theorem begins_reopen {stage : StageId} {reason : String} {rest : State → Task Output}
    (stays : ∀ new : State, new.revision ≠ state.revision → Stays host state (rest new)) :
    Begins host state (reopen stage reason state >>= fun _ => pure ())
      (reopen stage reason state >>= rest) := by
  refine begins_turns (turns_reopen stage reason) fun s new t ends => stays new ?_
  obtain ⟨time, rfl⟩ := reopen_ends ends
  exact Nat.succ_ne_self _

theorem begins_refreshInputs (reason : String) :
    Begins host state
      (state.inputs.mapM (fun r => snapshot host r.path false true) >>= fun _ =>
        reopen .understand reason state >>= fun _ => pure ())
      (refreshInputs host reason state >>= shown) := by
  simp only [refreshInputs, bind_assoc, pure_bind]
  refine .bind (spares_snapshots Ref.path false true state.inputs) fun refs =>
    begins_reopen fun new other => .bind (stays_save ?_) fun _ => (spares_shown _).stays
  rintro rfl
  exact other rfl

theorem begins_upgrade (reason : String) :
    Begins host state
      (do
        check (state.format = .v1) "Project already uses workflow v2."
        check (← problems host state).isEmpty "Repair drift before upgrading."
        let _ ← reopen .report reason state)
      (upgrade host reason state >>= shown) := by
  simp only [upgrade, bind_assoc, pure_bind]
  refine .bind (Reads.check _ _).spares fun _ =>
    .bind (reads_problems host state).spares fun _ => ?_
  refine .bind (Reads.check _ _).spares fun _ => begins_reopen fun new other => ?_
  refine .bind (reads_replaceBundle host).spares.stays fun _ => .bind (stays_save ?_) fun _ =>
    (spares_shown _).stays
  rintro rfl
  exact other rfl

/-- Commands that do not save the state. -/
theorem spares_main (other : ∀ args, c ≠ .init args) (none : saving host c = none) :
    Spares (main host c) := by
  refine .bind ?_ spares_shown
  cases c with
  | init args => exact absurd rfl (other args)
  | complete | skip | reopen | refreshInputs | upgrade => cases none
  | status => exact .bind reads_locked.spares fun state => (reads_inspect false state).spares
  | next => exact .bind reads_locked.spares fun state => (reads_inspect false state).spares
  | check => exact .bind reads_locked.spares fun state => (reads_inspect true state).spares
  | run args => exact .bind reads_locked.spares fun state => spares_run args state
  | «export» destination =>
      exact .bind reads_locked.spares fun state => (reads_export destination state).spares
  | abandon execution reason =>
      exact .bind reads_locked.spares fun _ => spares_abandon execution reason

/-- The others begin with what they save. -/
theorem begins_main {x : Task Unit} (saves : saving host c = some x) :
    ∃ early whole, x = locked >>= early ∧ main host c = locked >>= whole ∧
      ∀ state, Begins host state (early state) (whole state) := by
  cases c with
  | init | status | next | check | run | «export» | abandon => cases saves
  | complete args =>
      cases saves
      refine ⟨_, fun state => complete host args state >>= shown, rfl, ?_, fun state =>
        begins_shown (turns_complete args)⟩
      exact bind_assoc _ _ _
  | skip stage reason =>
      cases saves
      refine ⟨_, fun state => skip host stage reason state >>= shown, rfl, ?_, fun state =>
        begins_shown (turns_skip stage reason)⟩
      exact bind_assoc _ _ _
  | reopen stage reason =>
      cases saves
      refine ⟨_, fun state => reopen stage reason state >>= fun new =>
        shown (reopening stage new), rfl, ?_, fun state =>
          begins_reopen fun _ _ => (spares_shown _).stays⟩
      simp only [main, result, perform, bind_assoc, pure_bind]
  | refreshInputs reason =>
      cases saves
      refine ⟨_, fun state => refreshInputs host reason state >>= shown, rfl, ?_, fun state =>
        begins_refreshInputs reason⟩
      exact bind_assoc _ _ _
  | upgrade reason =>
      cases saves
      refine ⟨_, fun state => upgrade host reason state >>= shown, rfl, ?_, fun state =>
        begins_upgrade reason⟩
      exact bind_assoc _ _ _

/-- A command other than `init` that ends with an error, or `run` with a failed execution, leaves
`state.json` as it was, unless it saves it and fails after the first save. -/
theorem failed_state_iff {result : Except PyErr Output} (other : ∀ args, c ≠ .init args)
    (ends : Ends (serve host) (main host c) s result t) (failed : exitCode c result = 1) :
    t.disk.state = s.disk.state ↔ FailsEarly host c s result t := by
  cases saves : saving host c with
  | none =>
      refine iff_of_true ((spares_main other saves).ends ends) fun x same => ?_
      rw [saves] at same
      cases same
  | some x =>
      have early : FailsEarly host c s result t ↔
          ∃ e, result = .error e ∧ Ends (serve host) x s (.error e) t := by
        rw [FailsEarly, saves]
        simp
      obtain ⟨begun, whole, rfl, shape, begins⟩ := begins_main saves
      rw [early]
      cases result with
      | ok out =>
          cases c with
          | complete | skip | reopen | refreshInputs | upgrade => cases failed
          | _ => cases saves
      | error e =>
          rw [shape] at ends
          rw [Begins.iff begins ends]
          simp

end Saving

/-- A disk that is full when the upgraded state is to be saved. -/
def Scenario.refusing : Oracle
  | .saveState state =>
      (files, if state.format = .v2 then .refuse "[Errno 28] No space left on device" else .proceed)
  | q => oracle q

/-- A run of the command that fails, and whether the state is another one afterwards. -/
def Scenario.fails (s : Site) (c : Command) (oracle : Oracle) : Option Bool :=
  (failure (carry host oracle 100 s (main host c)).2).map fun _ =>
    (carry host oracle 100 s (main host c)).1.disk.state ≠ s.disk.state

theorem Scenario.fails_ends {s : Site} {c : Command} {oracle : Oracle} {changed : Bool}
    (h : fails s c oracle = some changed) :
    ∃ e t, Ends (serve host) (main host c) s (.error e) t ∧
      (changed = true ↔ t.disk.state ≠ s.disk.state) := by
  obtain ⟨e, failed, rfl⟩ := Option.map_eq_some_iff.mp h
  exact ⟨e, _, carry_ends failed, decide_eq_true_iff⟩

set_option maxRecDepth 100000 in
/-- An upgrade whose second save is refused has reopened the project. -/
theorem upgrade_fails_late : ∃ c s e t, (∀ args, c ≠ .init args) ∧
    Session.Reachable Scenario.host ⟨s, none⟩ ∧
    Ends (serve Scenario.host) (main Scenario.host c) s (.error e) t ∧
    exitCode c (.error e) = 1 ∧ t.disk.state ≠ s.disk.state := by
  have done : Scenario.fails (Scenario.site (Scenario.created .v1)) (.upgrade "new gates")
      Scenario.refusing = some true := by decide +kernel
  obtain ⟨e, t, ends, changed⟩ := Scenario.fails_ends done
  exact ⟨_, _, e, t, fun _ => Command.noConfusion, Scenario.reachable _, ends, rfl, changed.mp rfl⟩

set_option maxRecDepth 100000 in
/-- The first stage cannot be skipped, and the attempt leaves the state alone. -/
theorem failed_state_skip : ∃ e t,
    Ends (serve Scenario.host) (main Scenario.host (.skip .understand "known"))
      (Scenario.site (Scenario.created .v2)) (.error e) t ∧
    t.disk.state = (Scenario.site (Scenario.created .v2)).disk.state := by
  have done : (failure (carry Scenario.host Scenario.oracle 100
      (Scenario.site (Scenario.created .v2))
        (result Scenario.host (.skip .understand "known"))).2).isSome = true := by decide +kernel
  obtain ⟨e, failed⟩ := Option.isSome_iff_exists.mp done
  have fails := carry_ends failed
  have ends : Ends (serve Scenario.host) (main Scenario.host (.skip .understand "known")) _
      (.error e) _ := fails.bind_error
  refine ⟨e, _, ends, (failed_state_iff (fun _ => Command.noConfusion) ends rfl).mpr ?_⟩
  -- it does not get as far as saving the state
  rintro x ⟨⟩
  have early := Ends.bind_error (f := fun _ => (pure () : Task Unit)) fails
  simp only [result, perform, bind_assoc] at early
  exact ⟨e, rfl, early⟩

end Mathmodel.Workflow
