import Mathmodel.Backend.Ledger

/-!
# What the sections do to the world

The functions of the service are put together from few primitives: a change of an adapter,
a task that is pushed or settled, an entry of the log, and the two functions of the store
that write to the tables. A property that every primitive keeps is kept by every function
and so by every section: `Stable` lists the primitives, `Stable.reached` carries the
property through all runs.
-/

namespace Mathmodel

open M Program

/-- The task is as it was, or its promise has been settled meanwhile. -/
def Task.Settled (t t' : Task) : Prop :=
  t' = t ∨ (t.isReady = false ∧ t'.frame = t.frame ∧ t'.isReady = true)

/-- The function settles promises and changes nothing else. -/
def Task.Settles (f : Task → Task) : Prop := ∀ t : Task, t.Settled (f t)

theorem Task.settles_settle (g n : Nat) (result : Except Err Json) :
    Task.Settles (Task.settle g n result) := by
  rintro ⟨frame, wait⟩
  cases wait with
  | reply h m =>
      unfold Task.settle
      dsimp only
      split
      · exact .inr ⟨rfl, rfl, rfl⟩
      · exact .inl rfl
  | _ => exact .inl rfl

theorem Task.settles_reject (g : Nat) (e : Err) : Task.Settles (Task.reject g e) := by
  rintro ⟨frame, wait⟩
  cases wait with
  | reply h m =>
      unfold Task.reject
      dsimp only
      split
      · exact .inr ⟨rfl, rfl, rfl⟩
      · exact .inl rfl
  | _ => exact .inl rfl

theorem Task.settles_exit (g : Nat) : Task.Settles (Task.exit g) := by
  rintro ⟨frame, wait⟩
  cases wait with
  | exit h =>
      unfold Task.exit
      dsimp only
      split
      · exact .inr ⟨rfl, rfl, rfl⟩
      · exact .inl rfl
  | _ => exact .inl rfl

/-- A property of the world that the primitives keep, when the only transaction marks a run
uncertain: what the connections do. -/
structure Steady (env : Env) (P : World → Prop) : Prop where
  quiet : ∀ w w' : World, w'.db = w.db → w'.log = w.log → w'.tasks = w.tasks → P w → P w'
  push : ∀ w t, P w → P { w with tasks := w.tasks ++ [t] }
  settle : ∀ (w : World) f, Task.Settles f → P w → P { w with tasks := w.tasks.map f }
  record : ∀ (w : World) e, e.isCommit = false → P w → P { w with log := e :: w.log }
  doubt : ∀ w id message db, P w →
    w.db.update (env.moment w.clock) id (.uncertain message) = .ok db →
    P (w.commit (.update id (.uncertain message) .service) db)

/-- A property that every transaction on a run keeps too. -/
structure Stable (env : Env) (P : World → Prop) : Prop extends Steady env P where
  update : ∀ w id change via db, P w → w.db.update (env.moment w.clock) id change = .ok db →
    P (w.commit (.update id change via) db)

/-- The section keeps a property of the world. -/
abbrev Respects {α : Type} (P : World → Prop) (x : M α) : Prop := Keeps P x

/-- The property does not mind a promise of the runtime that is never settled. -/
def Forgets (g : Nat) (P : World → Prop) : Prop :=
  ∀ (w : World) n, P w → P { w with tasks := w.tasks.filter fun t => !t.awaits g n }

/-- The property survives an accepted command. -/
def Obeys (env : Env) (P : World → Prop) : Prop :=
  ∀ w c digest outcome db, P w →
    w.db.command c.idempotencyKey digest
      (Service.handle env w (env.moment w.clock) c.request) = .ok (outcome, db) →
    P (w.accept c outcome.replay db)

/-- The property survives the loss of everything that is not on disk. -/
def Survives (P : World → Prop) : Prop := ∀ w : World, P w → P w.reset

namespace Steady

variable {env : Env} {P : World → Prop}

theorem loadRun (id : String) : Respects P (M.loadRun id) := .bind .get fun _ => .lift _

theorem workspace (projectId : String) (launch : Launch) :
    Respects P (Service.workspace env projectId launch) := by
  refine .bind .get fun w => .bind (.lift _) fun _ => ?_
  split
  · exact .throw _
  · exact .ite (fun _ => .throw _) fun _ => .pure _

variable (h : Steady env P)

include h

theorem modifyCodex (g : Nat) (f : Codex → Codex) : Respects P (M.modifyCodex g f) :=
  Keeps.modify fun w holds => h.quiet w _ rfl rfl rfl holds

theorem pushes (t : Task) : Respects P (M.push t) := Keeps.modify fun w holds => h.push w t holds

theorem background (frame : Frame) : Respects P (M.background frame) := h.pushes _

theorem randomUUID : Respects P (M.randomUUID env) :=
  .bind .get fun _ => .bind (Keeps.modify fun w holds => h.quiet w _ rfl rfl rfl holds)
    fun _ => .pure _

theorem settles {f : Task → Task} (settles : Task.Settles f) :
    Respects P (modify fun w => { w with tasks := w.tasks.map f }) :=
  Keeps.modify fun w holds => h.settle w f settles holds

theorem records {e : Entry} (plain : e.isCommit = false) : Respects P (M.record e) :=
  Keeps.modify fun w holds => h.record w e plain holds

theorem uncertain (id message : String) : Respects P (Service.uncertain env id message) := by
  refine .bind (loadRun id) fun _ => .ite (fun _ => .pure _) fun _ => ?_
  intro w holds
  simp only [M.update, wp_bind, wp_get]
  cases result : w.db.update (env.moment w.clock) id (.uncertain message) with
  | error e => exact holds
  | ok db => exact h.doubt w id message db holds result

theorem onFault (id : String) (g : Nat) : Respects P (Service.onFault env id g) :=
  .bind .get fun _ => .ite
    (fun _ => .bind (h.uncertain _ _) fun _ => h.background _) fun _ => .pure _

theorem fail (g : Nat) (e : Err) : Respects P (Codex.fail env g e) := by
  refine .bind .get fun w => .ite (fun _ => .pure _) fun _ => ?_
  refine .bind (h.modifyCodex _ _) fun _ => .bind (h.settles (Task.settles_reject _ _)) fun _ => ?_
  split
  · exact h.onFault _ _
  · exact .pure _

theorem send (g : Nat) (message : Outbound) : Respects P (Codex.send env g message) := by
  refine .bind .get fun w => .bind (h.modifyCodex _ _) fun _ => ?_
  exact .ite (fun _ => .throw _) fun _ => .ite (fun _ => .throw _) fun _ => h.records rfl

theorem request (g : Nat) (call : Rpc) (frame : Frame) :
    Respects P (Codex.request env g call frame) := by
  refine .bind .get fun w => .ite (fun _ => h.pushes _) fun _ => ?_
  refine .bind (h.modifyCodex _ _) fun _ => .bind (h.pushes _) fun _ => ?_
  exact .tryCatch (h.send _ _) fun _ => h.fail _ _

theorem respond (g : Nat) (key : MapKey) (decision : Decision) :
    Respects P (Codex.respond env g key decision) := by
  refine .bind .get fun w => .ite (fun _ => .throw _) fun _ => ?_
  exact .bind (h.send _ _) fun _ => h.modifyCodex _ _

theorem connect (g : Nat) (launch : Launch) (caller : Caller) :
    Respects P (Codex.connect env g launch caller) := by
  refine .bind .get fun w => .ite (fun _ => h.pushes _) fun _ => ?_
  split
  · exact h.pushes _
  · exact .bind (h.modifyCodex _ _) fun _ => h.request _ _ _

theorem release (id : String) (g : Nat) (closing : Bool) :
    Respects P (Service.release env id g closing) :=
  .bind (h.modifyCodex _ _) fun _ => .bind (h.fail _ _) fun _ => .bind .get fun _ => h.pushes _

theorem nextLaunch : Respects P (Service.nextLaunch env) :=
  .bind .get fun _ => .bind (Keeps.modify fun w holds => h.quiet w _ rfl rfl rfl holds)
    fun _ => .pure _

theorem setLive (id : String) (g : Nat) : Respects P (Service.setLive id g) :=
  Keeps.modify fun w holds => h.quiet w _ rfl rfl rfl holds

theorem runtimeFactory (launch : Launch) (purpose : Purpose) :
    Respects P (Service.runtimeFactory env launch purpose) := by
  unfold Service.runtimeFactory
  split
  · exact .throw _
  · refine .bind h.randomUUID fun _ => .bind .get fun w => .bind ?_ fun _ => .pure _
    exact Keeps.modify fun v holds =>
      h.quiet { v with log := .opened v.created purpose :: v.log } _ rfl rfl rfl
        (h.record v _ rfl holds)

theorem cancel (id : String) : Respects P (Service.cancel env id) := by
  refine .bind (loadRun id) fun r => .ite (fun _ => .pure _) fun _ => ?_
  split
  · split
    · refine .bind .get fun w => ?_
      split
      · exact h.request _ _ _
      · exact h.uncertain _ _
    · exact .pure _
  · exact .pure _

theorem interrupted (id : String) (result : Except Err Json) :
    Respects P (Service.interrupted env id result) := by
  cases result with
  | ok value => exact .pure _
  | error e =>
      refine .bind (h.uncertain _ _) fun _ => .bind .get fun w => ?_
      split
      · exact h.release _ _ _
      · exact .pure _

theorem closeLive : Respects P (Service.closeLive env) := by
  refine .bind .get fun w => ?_
  split
  · exact .pure _
  · exact .bind (h.uncertain _ _) fun _ => h.release _ _ _

theorem released (id : String) (g : Nat) (closing : Bool) :
    Respects P (Service.released env id g closing) :=
  .bind (Keeps.modify fun w holds => h.quiet w _ rfl rfl rfl holds) fun _ =>
    .ite (fun _ => h.closeLive) fun _ => .pure _

theorem handshake (g : Nat) (caller : Caller) (result : Except Err Json) :
    Respects P (Service.handshake env g caller result) := by
  cases result with
  | ok value => exact .tryCatch (.bind (h.send _ _) fun _ => h.pushes _) fun _ => h.pushes _
  | error e => exact h.pushes _

theorem schedule : Respects P Service.schedule :=
  .bind .get fun _ => .ite (fun _ => .pure _) fun _ => h.background _

theorem effects (request : Request) (value : ReceiptValue) :
    Respects P (Service.effects env request value) := by
  have delivered : ∀ id approval decision,
      Respects P (Service.deliver env id approval decision) := by
    intro id approval decision
    refine .bind .get fun w => ?_
    split
    · exact h.respond _ _ _
    · exact .throw _
    · exact .throw _
  have failed : ∀ id, Respects P (Service.deliveryFailed env id) := by
    intro id
    refine .bind (h.uncertain _ _) fun _ => .bind .get fun w => ?_
    split
    · exact h.background _
    · exact .pure _
  unfold Service.effects
  split
  · exact .bind (.tryCatch (delivered _ _ _) fun _ => failed _) fun _ => h.schedule
  · exact .ite (fun _ => .bind (h.background _) fun _ => h.schedule) fun _ => h.schedule
  · exact .bind (h.background _) fun _ => h.schedule
  · exact h.schedule

theorem recoverRuns (runs : List Run) : Respects P (Service.recoverRuns env runs) := by
  induction runs with
  | nil => exact .pure _
  | cons r rest ih =>
      exact .ite (fun _ => .bind (h.uncertain _ _) fun _ => ih) fun _ => ih

theorem close : Respects P (Service.close env) :=
  .bind (Keeps.modify fun w holds => h.quiet w _ rfl rfl rfl holds) fun _ => h.closeLive

theorem processClosed (g : Nat) : Respects P (Service.processClosed env g) :=
  .bind (h.modifyCodex _ _) fun _ =>
    .bind (h.settles (Task.settles_exit _)) fun _ => h.fail _ _

theorem restart (survives : Survives P) : Respects P (Service.restart env) := by
  refine .bind (Keeps.modify fun w holds => survives w holds) fun _ => ?_
  exact .bind .get fun w => .bind (h.recoverRuns _) fun _ => h.schedule

end Steady

namespace Stable

variable {env : Env} {P : World → Prop} (h : Stable env P)

include h

theorem updates (id : String) (change : Change) (via : Via) :
    Respects P (M.update env id change via) := by
  intro w holds
  simp only [M.update, wp_bind, wp_get]
  cases result : w.db.update (env.moment w.clock) id change with
  | error e => exact holds
  | ok db => exact h.update w id change via db holds result

theorem finish (id : String) (turn : Option Json) (via : Via) :
    Respects P (Service.finish env id turn via) := by
  refine .bind (.lift _) fun status => .bind (.lift _) fun outcome => ?_
  split
  · exact .pure _
  · exact h.updates _ _ _

theorem settleTurn (id : String) (g : Nat) (turn : Option Json) :
    Respects P (Service.settleTurn env id g turn) := by
  refine .bind (h.finish _ _ _) fun _ => .bind .get fun w => ?_
  split
  · exact h.background _
  · exact .pure _

theorem turnCompleted (id : String) (g : Nat) (params : Option Json) (attempt : Attempt) :
    Respects P (Service.turnCompleted env id g params attempt) := by
  unfold Service.turnCompleted
  split
  · exact h.settleTurn _ _ _
  · exact .bind (.lift _) fun _ => .ite (fun _ => .pure _) fun _ => h.settleTurn _ _ _

theorem notification (id : String) (g : Nat) (method : String) (params : Option Json) :
    Respects P (Service.notification env id g method params) := by
  refine .bind (Steady.loadRun id) fun r => .ite (fun _ => .pure _) fun _ => ?_
  refine .ite (fun _ => h.updates _ _ _) fun _ => .ite (fun _ => ?_) fun _ =>
    .ite (fun _ => ?_) fun _ => .ite (fun _ => ?_) fun _ => .pure _
  · exact .bind (.lift _) fun _ => h.updates _ _ _
  · exact .bind (.lift _) fun _ => h.turnCompleted _ _ _ _
  · exact .bind (.lift _) fun _ => .ite (fun _ => h.updates _ _ _) fun _ => .pure _

theorem approval (id : String) (g : Nat) (kind : Lookup ApprovalKind) (key : MapKey)
    (params : Option Json) : Respects P (Service.approval env id g kind key params) := by
  refine .bind .get fun w => .bind (Steady.loadRun id) fun r =>
    .ite (fun _ => h.respond _ _ _) fun _ => ?_
  refine .bind (.lift _) fun turnId => .bind (h.updates _ _ _) fun _ => ?_
  exact .bind (.lift _) fun attempt => .bind h.randomUUID fun _ => h.updates _ _ _

theorem serverRequest (g : Nat) (id method : Json) (params : Option Json) :
    Respects P (Codex.serverRequest env g id method params) := by
  refine .bind (.lift _) fun kind => ?_
  split
  · exact .bind (h.send _ _) fun _ => .bind (.lift _) fun _ => .throw _
  · refine .bind .get fun w => .ite (fun _ => .throw _) fun _ => ?_
    refine .bind (h.modifyCodex _ _) fun _ => .bind (h.records rfl) fun _ => ?_
    split
    · exact h.approval _ _ _ _ _
    · exact .pure _

theorem response (g : Nat) (forgets : Forgets g P) (id : Json) (fields : List (String × Json)) :
    Respects P (Codex.response g id fields) := by
  refine .bind .get fun w => ?_
  split
  · exact .throw _
  · refine .bind (h.modifyCodex _ _) fun _ => .ite (fun _ => ?_) fun _ => ?_
    · split
      · exact .bind (Keeps.modify fun w holds => forgets w _ holds) fun _ => .throw _
      · exact h.settles (Task.settles_settle _ _ _)
    · split
      · exact .bind (h.records rfl) fun _ => h.settles (Task.settles_settle _ _ _)
      · exact h.settles (Task.settles_settle _ _ _)

theorem hand (g : Nat) (method : String) (params : Option Json) :
    Respects P (Codex.hand env g method params) := by
  refine .bind .get fun w => ?_
  split
  · exact .ite (fun _ => h.notification _ _ _ _) fun _ => .pure _
  · exact .pure _

theorem notify (g : Nat) (method : String) (params : Option Json) :
    Respects P (Codex.notify env g method params) :=
  .ite (fun _ => .bind (h.modifyCodex _ _) fun _ => h.hand _ _ _) fun _ => h.hand _ _ _

theorem message (g : Nat) (forgets : Forgets g P) (m : Json) :
    Respects P (Codex.message env g m) := by
  refine .bind (h.modifyCodex _ _) fun _ => ?_
  split
  · split
    · exact .ite (fun _ => h.serverRequest _ _ _ _) fun _ => h.response _ forgets _ _
    · exact h.response _ forgets _ _
    · exact h.notify _ _ _
    · exact .throw _
  · exact .throw _

theorem line (g : Nat) (forgets : Forgets g P) (text : List Char) :
    Respects P (Codex.line env g text) := by
  refine .ite (fun _ => .pure _) fun _ => ?_
  split
  · exact h.message _ forgets _
  · exact .throw _

theorem drain (g : Nat) (forgets : Forgets g P) (lines : List (List Char)) (rest : List Char) :
    Respects P (Codex.drain env g lines rest) := by
  induction lines with
  | nil => exact .pure _
  | cons text lines ih =>
      exact .bind (h.modifyCodex _ _) fun _ => .bind (h.line _ forgets _) fun _ => ih

theorem receive (g : Nat) (forgets : Forgets g P) (chunk : List Char) :
    Respects P (Codex.receive env g chunk) := by
  refine .bind .get fun w => .ite (fun _ => .pure _) fun _ => .tryCatch ?_ fun _ => h.fail _ _
  exact .bind (h.modifyCodex _ _) fun _ => .ite (fun _ => .throw _) fun _ => h.drain _ forgets _ _

theorem executeFailed (id : String) (runtime : Option Nat) (dispatched : Bool) (e : Err) :
    Respects P (Service.executeFailed env id runtime dispatched e) := by
  cases runtime with
  | some g =>
      exact .ite (fun _ => .bind (h.uncertain _ _) fun _ => h.release _ _ _)
        fun _ => .bind (h.updates _ _ _) fun _ => h.release _ _ _
  | none =>
      exact .ite (fun _ => .bind (h.uncertain _ _) fun _ => .pure _)
        fun _ => .bind (h.updates _ _ _) fun _ => .pure _

theorem prepare (id : String) (launch : Launch) :
    Respects P (Service.prepare env id launch) :=
  .bind (h.updates _ _ _) fun _ => .bind (Steady.loadRun _) fun _ =>
    .bind (Steady.workspace _ _) fun _ => .bind (h.runtimeFactory _ _) fun _ => .pure _

theorem execute (id : String) : Respects P (Service.execute env id) := by
  refine .bind h.nextLaunch fun launch => .bind (.tryCatch
    (.bind (h.prepare _ _) fun _ => .pure _)
    fun _ => .bind (h.executeFailed _ _ _ _) fun _ => .pure _) fun started => ?_
  split
  · exact .pure _
  · exact .bind (h.setLive _ _) fun _ => .bind (h.modifyCodex _ _) fun _ => h.connect _ _ _

theorem executeConnected (id : String) (g attempt : Nat) (directory : String)
    (result : Except Err Json) :
    Respects P (Service.executeConnected env id g attempt directory result) := by
  unfold Service.executeConnected
  split
  · exact h.executeFailed _ _ _ _
  · exact h.request _ _ _

theorem dispatchTurn (id : String) (g attempt : Nat) (thread : Json) :
    Respects P (Service.dispatchTurn env id g attempt thread) := by
  refine .bind (.lift _) fun body => .bind (.lift _) fun threadId =>
    .bind (h.updates _ _ _) fun _ => .bind (Steady.loadRun id) fun r =>
    .ite (fun _ => ?_) fun _ => h.request _ _ _
  exact .bind (h.updates _ _ _) fun _ => h.release _ _ _

theorem threadStarted (id : String) (g attempt : Nat) (result : Except Err Json) :
    Respects P (Service.threadStarted env id g attempt result) := by
  unfold Service.threadStarted
  split
  · exact h.executeFailed _ _ _ _
  · exact .tryCatch (h.dispatchTurn _ _ _ _) fun _ => h.executeFailed _ _ _ _

theorem bindReply (id : String) (g : Nat) (response : Json) :
    Respects P (Service.bindReply env id g response) := by
  have rest : Respects P (do
      let r ← M.loadRun id
      if r.status = .cancelling then Service.cancel env id else Pure.pure ()) :=
    .bind (Steady.loadRun id) fun _ => .ite (fun _ => h.cancel _) fun _ => .pure _
  refine .bind (Steady.loadRun id) fun r => .bind (.lift _) fun attempt => ?_
  split
  · exact rest
  · exact .bind (.lift _) fun _ => .bind (.lift _) fun _ => .bind (h.updates _ _ _) fun _ => rest

theorem turnStarted (id : String) (g : Nat) (result : Except Err Json) :
    Respects P (Service.turnStarted env id g result) := by
  unfold Service.turnStarted
  split
  · exact h.executeFailed _ _ _ _
  · exact .tryCatch (h.bindReply _ _ _) fun _ => h.executeFailed _ _ _ _

theorem reconcileUnavailable (id : String) (runtime : Option Nat) :
    Respects P (Service.reconcileUnavailable env id runtime) := by
  refine .bind (.tryCatch (h.updates _ _ _) fun _ => .pure _) fun _ => ?_
  split
  · exact h.release _ _ _
  · exact .pure _

theorem reconcile (id : String) : Respects P (Service.reconcile env id) := by
  refine .bind h.nextLaunch fun launch => .bind .get fun w => ?_
  split
  · exact h.reconcileUnavailable _ _
  · refine .ite (fun _ => .pure _) fun _ => .bind (.tryCatch
      (.bind (h.runtimeFactory _ _) fun _ => .pure _)
      fun _ => .bind (h.reconcileUnavailable _ _) fun _ => .pure _) fun created => ?_
    split
    · exact .pure _
    · exact .bind (h.setLive _ _) fun _ => h.connect _ _ _

theorem reconcileConnected (id : String) (g : Nat) (attempt : Option Attempt)
    (result : Except Err Json) :
    Respects P (Service.reconcileConnected env id g attempt result) := by
  unfold Service.reconcileConnected
  split
  · exact h.request _ _ _
  · exact h.reconcileUnavailable _ _

theorem importHistory (id : String) (g : Nat) (attempt : Attempt) (response : Json) :
    Respects P (Service.importHistory env id g attempt response) := by
  refine .bind (.lift _) fun turn => ?_
  split
  · exact .ite (fun _ => h.finish _ _ _) fun _ => h.updates _ _ _
  · exact h.updates _ _ _

theorem threadRead (id : String) (g : Nat) (attempt : Attempt) (result : Except Err Json) :
    Respects P (Service.threadRead env id g attempt result) := by
  unfold Service.threadRead
  split
  · exact h.reconcileUnavailable _ _
  · refine .bind (.tryCatch (.bind (h.importHistory _ _ _ _) fun _ => .pure _)
      fun _ => .bind (h.reconcileUnavailable _ _) fun _ => .pure _) fun imported => ?_
    exact .ite (fun _ => h.release _ _ _) fun _ => .pure _

theorem scheduleJob : Respects P (Service.scheduleJob env) := by
  refine .bind .get fun w => .ite (fun _ => .pure _) fun _ => ?_
  split
  · exact h.execute _
  · exact .pure _

theorem resume (result : Except Err Json) (frame : Frame) :
    Respects P (Service.resume env result frame) := by
  unfold Service.resume
  split
  · exact h.scheduleJob
  · exact h.release _ _ _
  · exact h.cancel _
  · exact h.reconcile _
  · exact h.handshake _ _ _
  · exact h.executeConnected _ _ _ _ _
  · exact h.reconcileConnected _ _ _ _
  · exact h.threadStarted _ _ _ _
  · exact h.turnStarted _ _ _
  · exact h.interrupted _ _
  · exact h.threadRead _ _ _ _
  · exact h.released _ _ _

theorem runsCommand (obeys : Obeys env P) (body : Json) :
    Respects P (Service.command env body) := by
  intro w holds
  simp only [Service.command, wp_bind, wp_get]
  cases decoded : Command.ofJson body with
  | none => exact holds
  | some c =>
      dsimp only
      rw [wp_ite]
      refine ⟨fun _ => holds, fun _ => ?_⟩
      cases result : w.db.command c.idempotencyKey (env.sha256 body.canonical)
          (Service.handle env w (env.moment w.clock) c.request) with
      | error e => exact holds
      | ok answer =>
          obtain ⟨outcome, db⟩ := answer
          have committed := obeys w c _ outcome db holds result
          simp only [wp_bind, wp_modify]
          rw [wp_ite]
          refine ⟨fun _ => committed, fun _ => ?_⟩
          exact Keeps.bind (h.effects _ _) (fun _ => .pure _) _ committed

/-- The property holds in every reachable state. -/
theorem reached {w : World} (start : P .init) (forgets : ∀ g, Forgets g P)
    (obeys : Obeys env P) (survives : Survives P)
    (taken : ∀ w i, P w → P { w with tasks := w.tasks.eraseIdx i })
    (run : Reaches (Step env) .init w) : P w := by
  refine run.invariant start ?_
  intro u a v _ holds step
  obtain ⟨t, performed, rfl⟩ := Option.map_eq_some_iff.mp step
  refine h.quiet t _ rfl rfl rfl ?_
  have ends : ∀ g (x : M Unit), Respects P x → whileRunning u g x = some t → P t := by
    intro g x kept running
    unfold whileRunning at running
    split at running
    · cases running
      exact kept.after holds
    · cases running
  cases a with
  | command body =>
      cases performed
      exact (h.runsCommand obeys body).after holds
  | run index =>
      simp only [perform, resumeTask] at performed
      split at performed
      · cases performed
        exact (h.resume _ _).after (taken u index holds)
      · cases performed
  | chunk g text => exact ends g _ (h.receive _ (forgets g) _) performed
  | stdinError g => exact ends g _ (h.fail _ _) performed
  | processError g => exact ends g _ (h.fail _ _) performed
  | processClose g => exact ends g _ (h.processClosed _) performed
  | timeout g n =>
      simp only [perform] at performed
      split at performed
      · cases performed
        exact (h.fail _ _).after holds
      · cases performed
  | close =>
      cases performed
      exact h.close.after holds
  | restart =>
      cases performed
      exact (h.restart survives).after holds

end Stable

end Mathmodel
