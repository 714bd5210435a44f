import Mathmodel.Backend.Continuations

/-!
# Sections are sequences of effects: commands and recovery

A command commits its transaction first and then has its effects outside the
database. Recovery after a restart marks what was being executed as uncertain,
one run after the other.
-/

namespace Mathmodel

open M Program

section Commands

variable {env : Env} {cause : Cause} {w₀ w : World} {id : String}

theorem find?_replaceFirst {α : Type} {p : α → Bool} {f : α → α} {xs : List α} {a : α}
    (found : xs.find? p = some a) (keeps : p (f a) = true) :
    (replaceFirst p f xs).find? p = some (f a) := by
  induction xs with
  | nil => cases found
  | cons x xs ih =>
      unfold replaceFirst
      by_cases matches_ : p x = true
      · rw [if_pos matches_]
        rw [List.find?_cons_of_pos matches_, Option.some.injEq] at found
        subst found
        exact List.find?_cons_of_pos keeps
      · rw [if_neg matches_]
        rw [List.find?_cons_of_neg matches_] at found ⊢
        exact ih found

theorem Db.command_ok {db db' : Db} {key digest : String}
    {fn : Except Err (ReceiptValue × Db)} {outcome : Db.Outcome}
    (h : db.command key digest fn = .ok (outcome, db')) :
    (∃ prior, db.receipts.lookup key = some prior ∧ prior.digest = digest ∧
      outcome = ⟨true, prior.body⟩ ∧ db' = db) ∨
    (∃ value next, db.receipts.lookup key = none ∧ fn = .ok (value, next) ∧
      outcome = ⟨false, value⟩ ∧
      db' = { next with receipts := next.receipts.insert key ⟨digest, value⟩ }) := by
  unfold Db.command at h
  cases known : db.receipts.lookup key with
  | some prior =>
      simp only [known] at h
      split at h
      · cases h
      · rename_i same
        cases h
        exact .inl ⟨prior, rfl, by simpa using same, rfl, rfl⟩
  | none =>
      simp only [known] at h
      obtain ⟨⟨value, next⟩, result, h⟩ := Change.bind_ok h
      cases h
      exact .inr ⟨value, next, rfl, result, rfl, rfl⟩

theorem runCommand_ok {m : Moment} {expected : Number} {op : RunOp} {value : ReceiptValue}
    {db : Db} (h : Service.runCommand w m id expected op = .ok (value, db)) :
    ∃ r r', Number.ofNat r.stateVersion = expected ∧ value = .run (Db.bump m r') ∧
      w.db.Writes m id (.command (Service.view w id) op) r r' db := by
  obtain ⟨r, found, h⟩ := Change.bind_ok h
  split at h
  · cases h
  · rename_i current
    obtain ⟨saved, applied, h⟩ := Change.bind_ok h
    obtain ⟨⟨s, next⟩, stored, h⟩ := Change.bind_ok h
    cases h
    obtain ⟨rfl, valid, object, result⟩ := Db.save_ok stored
    exact ⟨r, saved.run, by simpa using current, rfl,
      Db.run_ok.mp found, Change.op_saves applied, valid, _, _, object, result⟩

theorem wp_schedule {failed : Err → World → Prop} (h : Course env cause w₀ w) :
    wp Service.schedule (fun _ => Course env cause w₀) failed w := by
  simp only [Service.schedule, wp_bind, wp_get, wp_ite, wp_pure, background, M.push, wp_modify]
  exact ⟨fun _ => h, fun _ => h.step (.pushed .schedule trivial trivial (by rintro _ _ _ ⟨⟩))⟩

theorem wp_deliveryFailed {r : Run} {tasks : List Task} {failed : Err → World → Prop}
    (h : Course env cause w₀ w) (command : cause = .command tasks)
    (found : w.db.runs.lookup id = some r) (started : r.attempts ≠ []) :
    wp (Service.deliveryFailed env id) (fun _ => Course env cause w₀) failed w := by
  simp only [Service.deliveryFailed, wp_bind]
  refine wp_uncertain h.sound found started (fun w' uncertain => ?_)
  simp only [wp_bind, wp_get, uncertain.frame.2.1]
  cases live : w.live.lookup id with
  | none => exact h.step (.doubted live uncertain (command ▸ .command))
  | some g => exact h.step (.undelivered command live uncertain)

/-- A committed decision reaches the runtime, or its outcome is unknown. -/
theorem wp_deliver {c : Command} {version : Number} {approvalId : String} {decision : Decision}
    {r r' : Run} {tasks : List Task} {failed : Err → World → Prop} {before : Db}
    (h : Course env cause w₀ w) (command : cause = .command tasks)
    (request : c.request = .onRun id version (.resolve approvalId decision))
    (newest : ∃ older, w.log = .commit (.command c false) before w.db :: older)
    (found : before.runs.lookup id = some r)
    {view : View} (runtime : view.runtime = (w.live.lookup id).map fun g =>
      ((w.codex g).generation, (w.codex g).approvals))
    {m : Moment} (saves : (Change.command view (.resolve approvalId decision)).Saves m r r')
    (found' : w.db.runs.lookup id = some (Db.bump m r')) :
    wp (tryCatch (Service.deliver env id
        ((Db.bump m r').approvals.find? (·.approvalId == approvalId)) decision)
        fun _ => Service.deliveryFailed env id)
      (fun _ => Course env cause w₀) failed w := by
  rw [wp_tryCatch]
  have started : (Db.bump m r').attempts ≠ [] := by
    refine (h.sound.db.runs id _ found').begun ?_
    cases saves
    simp only [Db.bump]
    split <;> rfl
  cases saves with
  | resolve named answered =>
      rename_i approval approvals
      obtain ⟨first, waiting, pending, generation, requests, view', same, listed⟩ :=
        RunOp.answerable_eq_some named
      rw [runtime] at view'
      have name : approval.approvalId = approvalId := by simpa using List.find?_some first
      have first' : approvals.find? (·.approvalId == approvalId) = some { approval with
          status := if decision = .accept then .accepted else .declined } := by
        rw [answered]
        exact find?_replaceFirst first (by simpa using name)
      have lookup : (Db.bump m { r with
          approvals := approvals
          status := if approvals.any (·.status == .pending) then .waitingApproval
            else .running }).approvals.find? (·.approvalId == approvalId) =
          some { approval with
            status := if decision = .accept then .accepted else .declined } := first'
      rw [lookup]
      cases live : w.live.lookup id with
      | none => rw [live] at view'; cases view'
      | some g =>
          rw [live] at view'
          cases view'
          simp only [Service.deliver, wp_bind, wp_get, live]
          have tallied := h.step (.quiet (World.setCodex_quiet (g := g)
            (f := fun c => { c with sends := c.sends + 1 }) rfl))
          refine wp_respond ?_ ?_ ?_
          · intro _ _
            refine tallied.step (.answered (by simpa using listed) (.inr ?_))
            refine ⟨c, id, before, r, Db.bump m { r with
              approvals := approvals
              status := if approvals.any (·.status == .pending) then .waitingApproval
                else .running }, approval, { approval with
              status := if decision = .accept then .accepted else .declined }, ?_⟩
            refine ⟨newest, ⟨version, by rw [name]; exact request⟩, found, waiting,
              by rw [name]; exact first, pending, by simpa using same.symm, rfl, live, found',
              List.mem_of_find?_eq_some first', rfl⟩
          · intro _
            exact wp_deliveryFailed h command found' started
          · intro _
            exact wp_deliveryFailed tallied command found' started

theorem wp_effects {c : Command} {value : ReceiptValue} {failed : Err → World → Prop}
    (h : Course env cause w₀ w) (command : cause = .command w.tasks)
    (stored : ∀ id version op r, c.request = .onRun id version op → value = .run r →
      w.db.runs.lookup id = some r)
    (resolves : ∀ id version approvalId decision r,
      c.request = .onRun id version (.resolve approvalId decision) → value = .run r →
      wp (tryCatch (Service.deliver env id (r.approvals.find? (·.approvalId == approvalId))
          decision) fun _ => Service.deliveryFailed env id)
        (fun _ => Course env cause w₀) failed w)
    (reconciles : ∀ id version r, c.request = .onRun id version .reconcile → value = .run r →
      w.live.entries = [] ∧ r.status = .recoveryRequired) :
    wp (Service.effects env c.request value) (fun _ => Course env cause w₀) failed w := by
  have schedules : wp Service.schedule (fun _ => Course env cause w₀) failed w := wp_schedule h
  unfold Service.effects
  split
  · rename_i id version approvalId decision r request
    rw [wp_bind]
    refine wp_mono (resolves id version approvalId decision r request rfl) ?_ (fun _ _ t => t)
    exact fun _ w' h' => wp_schedule h'
  · rename_i id version r request
    dsimp only
    rw [wp_ite]
    refine ⟨fun cancelling => ?_, fun _ => schedules⟩
    rw [wp_bind]
    have found := stored id version .cancel r request rfl
    exact wp_schedule (h.step (.pushed (.cancel found cancelling command) trivial trivial nofun))
  · rename_i id version r request
    rw [wp_bind]
    have found := stored id version .reconcile r request rfl
    obtain ⟨idle, status⟩ := reconciles id version r request rfl
    exact wp_schedule
      (h.step (.pushed (.reconcile command idle found status) trivial trivial nofun))
  · exact schedules

section Accepted

variable {c : Command} {value : ReceiptValue} {next : Db} {digest : String}

/-- An accepted command is one effect. -/
theorem accepted_effect (command : cause = .command w.tasks)
    (unused : w.db.receipts.lookup c.idempotencyKey = none)
    (handled : Service.handle env w (env.moment w.clock) c.request = .ok (value, next)) :
    Effect env cause w (w.accept c false { next with
      receipts := next.receipts.insert c.idempotencyKey ⟨digest, value⟩ }) := by
  cases request : c.request with
  | createProject name =>
      rw [request] at handled
      cases handled
      exact .projectCreated request unused
  | createRun projectId task =>
      rw [request] at handled
      obtain ⟨project, -, handled⟩ := Change.bind_ok handled
      obtain ⟨⟨r, db⟩, stored, handled⟩ := Change.bind_ok handled
      cases handled
      obtain ⟨rfl, valid, object, rfl⟩ := Db.save_ok stored
      exact .runCreated request unused rfl valid object
  | onRun id version op =>
      rw [request] at handled
      obtain ⟨r, r', current, rfl, writes⟩ := runCommand_ok handled
      exact .commanded command request unused current writes

/-- What follows an accepted command does not throw. -/
theorem wp_accepted {failed : Err → World → Prop} (sound : w.Sound env)
    (h : Course env cause w₀ (w.accept c false { next with
      receipts := next.receipts.insert c.idempotencyKey ⟨digest, value⟩ }))
    (command : cause = .command w.tasks)
    (handled : Service.handle env w (env.moment w.clock) c.request = .ok (value, next)) :
    wp (Service.effects env c.request value) (fun _ => Course env cause w₀) failed
      (w.accept c false { next with
        receipts := next.receipts.insert c.idempotencyKey ⟨digest, value⟩ }) := by
  cases request : c.request with
  | createProject name =>
      rw [← request]
      exact wp_effects h command (by simp [request]) (by simp [request]) (by simp [request])
  | createRun projectId task =>
      rw [← request]
      exact wp_effects h command (by simp [request]) (by simp [request]) (by simp [request])
  | onRun id version op =>
      rw [request] at handled
      obtain ⟨r, r', current, rfl, writes⟩ := runCommand_ok handled
      rw [← request]
      refine wp_effects h command ?_ ?_ ?_
      · intro id' version' op' s request' same
        rw [request] at request'
        cases request'
        cases same
        exact writes.lookup_self sound.db
      · intro id' version' approvalId decision s request' same
        rw [request] at request'
        cases request'
        cases same
        exact wp_deliver h command request ⟨_, rfl⟩ writes.found rfl writes.saves
          (writes.lookup_self sound.db)
      · intro id' version' s request' same
        rw [request] at request'
        cases request'
        cases same
        have saves := writes.saves
        cases saves with
        | reconcile status free bound =>
            exact ⟨by simpa [Service.view, World.accept] using free, status⟩

end Accepted

/-- A command is a course of effects. -/
theorem wp_command {body : Json} (h : Course env cause w₀ w) (command : cause = .command w.tasks) :
    wp (Service.command env body) (fun _ => Course env cause w₀)
      (fun _ => Course env cause w₀) w := by
  simp only [Service.command, wp_bind, wp_get]
  cases decoded : Command.ofJson body with
  | none => exact h
  | some c =>
      dsimp only
      rw [wp_ite]
      refine ⟨fun _ => h, fun _ => ?_⟩
      cases result : w.db.command c.idempotencyKey (env.sha256 body.canonical)
          (Service.handle env w (env.moment w.clock) c.request) with
      | error e => exact h
      | ok answer =>
          obtain ⟨outcome, db⟩ := answer
          simp only [wp_bind, wp_modify]
          obtain ⟨prior, -, -, rfl, rfl⟩ | ⟨value, next, unused, handled, rfl, rfl⟩ :=
            Db.command_ok result
          · exact h.step .replayed
          · rw [wp_ite]
            refine ⟨(by rintro ⟨⟩), fun _ => ?_⟩
            rw [wp_bind]
            exact wp_accepted h.sound (h.step (accepted_effect command unused handled))
              command handled

/-- No run is being executed. -/
def World.NoneExecuting (w : World) : Prop :=
  ∀ id r, w.db.runs.lookup id = some r → r.status.isExecuting = false

/-- A process that has just started: no runtime, and no task but a schedule. -/
structure World.Restarted (w : World) : Prop where
  live : w.live.entries = []
  frames : ∀ t ∈ w.tasks, t.frame = .schedule
  codex : ∀ g, w.codex g = .absent

theorem RunStatus.not_isExecuting_of_settled {s : RunStatus}
    (h : s.isTerminal = true ∨ s = .recoveryRequired) : s.isExecuting = false := by
  revert h
  cases s <;> simp [RunStatus.isTerminal, RunStatus.isExecuting]

theorem Uncertain.lookup {w' : World} (h : w.Sound env) (uncertain : w.Uncertain env id w')
    {other : String} {r : Run} (found : w'.db.runs.lookup other = some r) :
    (other = id ∧ r.status.isExecuting = false) ∨
      (other ≠ id ∧ w.db.runs.lookup other = some r) := by
  by_cases same : other = id
  · left
    refine ⟨same, ?_⟩
    subst same
    cases uncertain with
    | settled found' status =>
        have same := found'.symm.trans found
        cases same
        exact RunStatus.not_isExecuting_of_settled status
    | marked status started writes =>
        have same := (writes.lookup_self h.db).symm.trans found
        cases same
        have saves := writes.saves
        cases saves with
        | uncertain last => rfl
        | uncertainNew none => rfl
  · right
    refine ⟨same, ?_⟩
    cases uncertain with
    | settled found' status => exact found
    | marked status started writes => rwa [← writes.lookup_ne h.db same]

theorem wp_recoverRuns {runs : List Run} {failed : Err → World → Prop}
    (h : Course env cause w₀ w) (source : ∀ id, Doubts id cause) (restarted : w.Restarted)
    (known : ∀ r ∈ runs, r.status.isExecuting = true →
      ∃ r', w.db.runs.lookup r.runId = some r' ∧ r'.attempts ≠ [])
    (listed : ∀ id r, w.db.runs.lookup id = some r → r.status.isExecuting = true →
      ∃ s ∈ runs, s.runId = id ∧ s.status.isExecuting = true) :
    wp (Service.recoverRuns env runs)
      (fun _ w' => Course env cause w₀ w' ∧ w'.Restarted ∧ w'.NoneExecuting) failed
      w := by
  induction runs generalizing w with
  | nil =>
      refine ⟨h, restarted, fun id r found => ?_⟩
      by_contra executing
      obtain ⟨s, member, -⟩ := listed id r found (by simpa using executing)
      cases member
  | cons r rest ih =>
      have active : r.status.isActive = true ∧ r.status ≠ .queued ↔
          r.status.isExecuting = true := by
        cases r.status <;> simp [RunStatus.isActive, RunStatus.isExecuting]
      dsimp only [Service.recoverRuns]
      rw [wp_ite, active]
      constructor
      · intro executing
        rw [wp_bind]
        obtain ⟨r', found, started⟩ := known r (by simp) executing
        refine wp_uncertain h.sound found started (fun w' uncertain => ?_)
        have absent : w.live.lookup r.runId = none :=
          World.Wired.lookup_of_live_nil restarted.live _
        have h' := h.step (.doubted absent uncertain (source _))
        obtain ⟨codex, live, tasks, -⟩ := uncertain.frame
        refine ih h' ⟨live ▸ restarted.live, tasks ▸ restarted.frames, codex ▸ restarted.codex⟩
          ?_ ?_
        · intro s member executing'
          obtain ⟨s', found', started'⟩ := known s (by simp [member]) executing'
          cases uncertain with
          | settled => exact ⟨s', found', started'⟩
          | marked status started writes =>
              obtain ⟨s'', found'', le⟩ := writes.grows h.sound.db _ _ found'
              exact ⟨s'', found'', List.length_pos_iff.mp
                ((List.length_pos_iff.mpr started').trans_le le)⟩
        · intro id s found' executing'
          obtain ⟨-, settled⟩ | ⟨ne, old⟩ := Uncertain.lookup h.sound uncertain found'
          · rw [settled] at executing'
            cases executing'
          · obtain ⟨t, member, name, executing''⟩ := listed id s old executing'
            rcases List.mem_cons.mp member with rfl | later
            · exact absurd name.symm ne
            · exact ⟨t, later, name, executing''⟩
      · intro settled
        refine ih h restarted (fun s member => known s (by simp [member])) ?_
        intro id s found executing
        obtain ⟨t, member, name, executing'⟩ := listed id s found executing
        rcases List.mem_cons.mp member with rfl | later
        · exact absurd executing' settled
        · exact ⟨t, later, name, executing'⟩

end Commands

end Mathmodel
