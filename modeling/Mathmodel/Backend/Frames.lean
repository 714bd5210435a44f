import Mathmodel.Backend.Course

/-!
# Sections are sequences of effects: frames of the runtime

A chunk of output is handled line by line. After each frame that is handled
without an exception the connection is still open, which is what the next frame
relies on; an exception fails the connection.
-/

namespace Mathmodel

open M Program

section Messages

variable {env : Env} {cause : Cause} {w₀ w : World} {g : Nat} {id : String} {r : Run}
  {fields : List (String × Json)}

/-- What ends a turn once it is known to be the turn of the attempt. -/
def Service.settleTurn (env : Env) (id : String) (g : Nat) (turn : Option Json) : M Unit := do
  finish env id turn (.runtime g)
  let w ← get
  match w.live.lookup id with
  | some runtime => background (.release id runtime)
  | none => pure ()

/-- A notification is handed to the run that listens, if it still runs there. -/
def Codex.hand (env : Env) (g : Nat) (method : String) (params : Option Json) : M Unit := do
  let w ← get
  match (w.codex g).listener with
  | some run =>
      if w.live.lookup run = some g then Service.notification env run g method params
      else pure ()
  | none => pure ()

/-- A request of a known kind is announced to the listeners. -/
def Codex.announce (env : Env) (g : Nat) (id : Json) (kind : Lookup ApprovalKind)
    (params : Option Json) : M Unit := do
  let w ← get
  let key := MapKey.ofJson (w.codex g).frames id
  if 100 ≤ (w.codex g).approvals.length ∨ key ∈ (w.codex g).approvals then
    throw (.error "Invalid or excessive approval requests")
  else do
    modifyCodex g fun c => { c with approvals := c.approvals ++ [key] }
    record (.requested g key)
    match (w.codex g).listener with
    | some run => Service.approval env run g kind key params
    | none => pure ()

/-- A request is announced, refused, or fails before anything is done. -/
theorem wp_serverRequest {requestId method : Json} {params : Option Json}
    {post : Unit → World → Prop} {failed : Err → World → Prop}
    (announces : ∀ kind, plainLookup approvalKinds (some method) = .ok kind → kind ≠ .missing →
      wp (Codex.announce env g requestId kind params) post failed w)
    (refuses : plainLookup approvalKinds (some method) = .ok .missing →
      wp (do
        Codex.send env g (.unsupported requestId)
        let name ← Program.lift (Json.coerce (some method))
        throw (.error ("Unsupported Codex interaction: " ++ name))) post failed w)
    (fails : ∀ e, failed e w) :
    wp (Codex.serverRequest env g requestId method params) post failed w := by
  unfold Codex.serverRequest
  rw [wp_bind]
  refine wp_lift_of (fun kind known => ?_) (fun e _ => fails e)
  cases kind with
  | missing => exact refuses known
  | inherited => exact announces .inherited known (by rintro ⟨⟩)
  | own value => exact announces (.own value) known (by rintro ⟨⟩)

/-- After a handled frame the connection is open; after an exception it may not be. -/
abbrev Handled (env : Env) (cause : Cause) (w₀ : World) (g : Nat) (x : M Unit) (w : World) :
    Prop :=
  wp x (fun _ w' => Course env cause w₀ w' ∧ (w'.codex g).closed = false)
    (fun _ => Course env cause w₀) w

theorem handled_bindTurn {value : Option Json} (h : Course env cause w₀ w)
    (delivers : cause.Delivers g (.obj fields)) (announces : Announces (.obj fields) value)
    (heard : w.Heard g id r) : Handled env cause w₀ g
      (Service.bindTurn env id value (.runtime g)) w := by
  refine wp_update ?_ (fun _ => h)
  intro db result
  exact ⟨h.step (.boundTurn delivers announces heard (Db.update_ok result)), heard.open_⟩

theorem sameNullable_eq_some {value : Option Json} {bound : String}
    (h : Json.sameNullable value (some bound) = true) : value = some (.str bound) := by
  unfold Json.sameNullable at h
  split at h
  · rename_i heq; cases heq
  · rename_i a b heq
    cases heq
    simp at h
    rw [h]
  · cases h

theorem wp_finish {turn : Option Json} {via : Via} {post : Unit → World → Prop}
    {failed : Err → World → Prop} (bad : ∀ e, failed e w)
    (ignored : ∀ body, turn = some body →
      plainLookup TurnOutcome.table (body.get "status") = .ok .missing → post () w)
    (done : ∀ body outcome r r' db, turn = some body →
      plainLookup TurnOutcome.table (body.get "status") = .ok (.own outcome) →
      w.db.Writes (env.moment w.clock) id (.finish body (.own outcome)) r r' db →
      post () (w.commit (.update id (.finish body (.own outcome)) via) db)) :
    wp (Service.finish env id turn via) post failed w := by
  simp only [Service.finish, wp_bind]
  refine wp_lift_of (fun status read => ?_) (fun e _ => bad e)
  obtain ⟨body, rfl, rfl⟩ : ∃ body, turn = some body ∧ status = body.get "status" := by
    cases turn with
    | none => cases read
    | some body =>
        refine ⟨body, rfl, ?_⟩
        cases body <;> cases read <;> rfl
  rw [wp_bind]
  refine wp_lift_of (fun outcome table => ?_) (fun e _ => bad e)
  cases outcome with
  | missing => exact ignored body rfl table
  | inherited =>
      refine wp_update (fun db result => ?_) bad
      cases Db.update_ok result with
      | same found skipped => cases skipped
      | wrote writes => cases writes.saves
  | own outcome =>
      refine wp_update (fun db result => ?_) bad
      cases Db.update_ok result with
      | same found skipped =>
          simp only [Change.apply, Option.getD_some] at skipped
          generalize Change.finishRun _ _ _ _ = saved at skipped
          cases saved <;> cases skipped
      | wrote writes => exact done body outcome _ _ db rfl table writes

theorem handled_turnCompleted {a : Attempt} (h : Course env cause w₀ w)
    (delivers : cause.Delivers g (.obj fields))
    (method : fields.lookup "method" = some (.str "turn/completed"))
    (heard : w.Heard g id r) (last : r.lastAttempt = some a) :
    Handled env cause w₀ g (Service.turnCompleted env id g (fields.lookup "params") a) w := by
  have body : (∀ bound, a.turnId = some bound →
      ∃ reported, Json.read (Json.chain (fields.lookup "params") "turn") "id" = .ok reported ∧
        Json.sameNullable reported (some bound) = true) →
      Handled env cause w₀ g
        (Service.settleTurn env id g (Json.chain (fields.lookup "params") "turn")) w := by
    intro same
    unfold Handled Service.settleTurn
    rw [wp_bind]
    refine wp_finish (fun _ => h) ?_ ?_
    · intro turn reported table
      simp only [wp_bind, wp_get, heard.live]
      exact ⟨h.step (.dismissed delivers (.mk method reported) heard table), heard.open_⟩
    · intro turn outcome s s' db reported table writes
      have live : (w.commit (.update id (.finish turn (.own outcome)) (.runtime g)) db).live.lookup
          id = some g := heard.live
      simp only [wp_bind, wp_get, live]
      have run : s = r := by
        have := writes.found
        rw [heard.found, Option.some.injEq] at this
        exact this.symm
      subst run
      refine ⟨h.step (.concluded delivers (.mk method reported) heard last ?_ table writes),
        heard.open_⟩
      intro bound turnId
      obtain ⟨value, read, eq⟩ := same bound turnId
      rw [reported] at read
      rw [← sameNullable_eq_some eq]
      cases turn <;> cases read <;> rfl
  dsimp only [Service.turnCompleted, Handled]
  cases turnId : a.turnId with
  | none =>
      rw [wp_bind]
      exact body (by simp [turnId])
  | some bound =>
      dsimp only
      rw [wp_bind]
      refine wp_lift_of (fun reported read => ?_) (fun _ _ => h)
      rw [wp_bind, wp_pure, wp_ite]
      refine ⟨fun _ => ⟨h, heard.open_⟩, fun same => body ?_⟩
      intro bound' eq
      rw [turnId, Option.some.injEq] at eq
      subst eq
      exact ⟨reported, read, by simpa using same⟩

theorem handled_notification {method : String} (h : Course env cause w₀ w)
    (delivers : cause.Delivers g (.obj fields))
    (named : fields.lookup "method" = some (.str method))
    (other : method ≠ "serverRequest/resolved")
    (open_ : (w.codex g).closed = false) (listener : (w.codex g).listener = some id)
    (live : w.live.lookup id = some g) :
    Handled env cause w₀ g (Service.notification env id g method (fields.lookup "params")) w := by
  unfold Handled Service.notification
  rw [wp_bind]
  refine wp_loadRun (fun r found => ?_) (fun _ => h)
  rw [wp_ite]
  refine ⟨fun _ => ⟨h, open_⟩, fun relevant => ?_⟩
  simp only [not_or, Bool.not_eq_true] at relevant
  have heard : w.Heard g id r := ⟨open_, listener, live, found, relevant.2.2⟩
  rw [if_neg other]
  split
  · rename_i started
    subst started
    rw [wp_bind]
    refine wp_lift_of (fun value read => ?_) (fun _ _ => h)
    exact handled_bindTurn h delivers (.started named read) heard
  · split
    · rename_i completed
      subst completed
      rw [wp_bind]
      refine wp_lift_of (fun a last => ?_) (fun _ _ => h)
      exact handled_turnCompleted h delivers named heard (Run.attempt_ok last)
    · split
      · rw [wp_bind]
        refine wp_lift_of (fun a last => ?_) (fun _ _ => h)
        rw [wp_ite]
        refine ⟨fun _ => ?_, fun _ => ⟨h, open_⟩⟩
        refine wp_update (fun db result => ?_) (fun _ => h)
        exact ⟨h.step (.progressed delivers heard (Db.update_ok result)), open_⟩
      · exact ⟨h, open_⟩

/-- A withdrawn request is forgotten, and its approval expires with it. -/
theorem handled_resolved (h : Course env cause w₀ w)
    (delivers : cause.Delivers g (.obj fields)) (noId : fields.lookup "id" = none)
    (named : fields.lookup "method" = some (.str "serverRequest/resolved"))
    (open_ : (w.codex g).closed = false) :
    Handled env cause w₀ g
      (Codex.notify env g "serverRequest/resolved" (fields.lookup "params")) w := by
  have withdraws : Withdraws (.obj fields) (Json.chain (fields.lookup "params") "requestId") :=
    .mk noId named rfl
  have forgot : (∀ id r, w.Heard g id r →
      Service.otherThread ((Json.obj fields).get "params") r.lastAttempt = true ∨
      ∀ a ∈ r.approvals, a.status = .pending →
        some a.requestId ≠ Json.chain (fields.lookup "params") "requestId") →
      Course env cause w₀ (w.forgetNamed g (Json.chain (fields.lookup "params") "requestId")) ∧
        ((w.forgetNamed g (Json.chain (fields.lookup "params") "requestId")).codex g).closed =
          false :=
    fun unmatched => ⟨h.step (.forgot delivers withdraws unmatched),
      by simpa [World.forgetNamed] using open_⟩
  unfold Handled Codex.notify
  simp only [if_true, wp_bind, modifyCodex, wp_modify, wp_get]
  have same : ((w.forgetNamed g (Json.chain (fields.lookup "params") "requestId")).codex
      g).listener = (w.codex g).listener := by simp [World.forgetNamed]
  change wp (Codex.hand env g "serverRequest/resolved" (fields.lookup "params")) _ _
    (w.forgetNamed g (Json.chain (fields.lookup "params") "requestId"))
  unfold Codex.hand
  rw [wp_bind, wp_get]
  rw [same]
  cases listener : (w.codex g).listener with
  | none => exact forgot (fun id r heard => by cases heard.listener.symm.trans listener)
  | some id =>
      obtain ⟨live, r, found, -⟩ := h.sound.wired.listener g id listener
      have only : ∀ id' r', w.Heard g id' r' → r' = r ∧ r.status.isTerminal = false := by
        intro id' r' heard
        have : id' = id := by
          have := heard.listener
          rw [listener, Option.some.injEq] at this
          exact this.symm
        subst this
        have := heard.found
        rw [found, Option.some.injEq] at this
        subst this
        exact ⟨rfl, heard.unsettled⟩
      have loaded : w.db.run id = .ok r := Db.run_ok.mpr found
      have loaded' : (w.forgetNamed g (Json.chain (fields.lookup "params") "requestId")).db.run
          id = .ok r := loaded
      have live' : (w.forgetNamed g (Json.chain (fields.lookup "params") "requestId")).live.lookup
          id = some g := live
      simp only [live', if_true, Service.notification, wp_bind, loadRun, wp_get, loaded',
        wp_lift_ok]
      rw [wp_ite]
      constructor
      · intro skipped
        refine forgot ?_
        intro id' r' heard
        obtain ⟨rfl, unsettled⟩ := only id' r' heard
        rcases skipped with falsy | other | terminal
        · right
          intro a _ _ same
          revert falsy same
          generalize fields.lookup "params" = params
          rcases params with _ | params
          · simp [Json.chain]
          · cases params <;> simp [Json.chain, Json.get, Json.truthy]
        · exact .inl other
        · rw [unsettled] at terminal
          cases terminal
      · intro relevant
        simp only [not_or, Bool.not_eq_true] at relevant
        have heard : w.Heard g id r := ⟨open_, listener, live, found, relevant.2.2⟩
        obtain ⟨r', db, result, writes⟩ | ⟨result, unmatched⟩ :=
          h.sound.db.update_resolvedByRuntime (env.moment w.clock)
            (Json.chain (fields.lookup "params") "requestId") found
        · refine wp_update_ok result ?_
          exact ⟨h.step (.withdrawn delivers withdraws heard writes),
            by simpa [World.forgetNamed, World.commit] using open_⟩
        · have done := forgot (fun id' r' heard' => by
            obtain ⟨rfl, -⟩ := only id' r' heard'
            exact .inr unmatched)
          exact wp_update_ok result ⟨done.1.step .skipped, done.2⟩

/-- A frame that is not addressed to the listeners of a request or reply. -/
theorem handled_notify {method : String} (h : Course env cause w₀ w)
    (delivers : cause.Delivers g (.obj fields)) (noId : fields.lookup "id" = none)
    (named : fields.lookup "method" = some (.str method))
    (open_ : (w.codex g).closed = false) :
    Handled env cause w₀ g (Codex.notify env g method (fields.lookup "params")) w := by
  by_cases resolved : method = "serverRequest/resolved"
  · subst resolved
    exact handled_resolved h delivers noId named open_
  · unfold Handled Codex.notify
    simp only [resolved, if_false, wp_bind, wp_get]
    cases listener : (w.codex g).listener with
    | none => exact ⟨h, open_⟩
    | some id =>
        rw [wp_ite]
        exact ⟨fun live => handled_notification h delivers named resolved open_ listener live,
          fun _ => ⟨h, open_⟩⟩

/-- The status of a run after its turn was bound for a request. -/
theorem Db.Updates.bindTurn_status {db db' : Db} {m : Moment} {value : Option Json}
    (sound : db.Sound) (found : db.runs.lookup id = some r)
    (status : r.status = .starting ∨ r.status = .running ∨ r.status = .waitingApproval)
    (updates : db.Updates m id (.bindTurn value) db') :
    ∃ r', db'.runs.lookup id = some r' ∧
      (r'.status = .running ∨ r'.status = .waitingApproval) := by
  cases updates with
  | same found' skipped =>
      rw [found, Option.some.injEq] at found'
      subst found'
      refine ⟨r, found, status.resolve_left fun starting => ?_⟩
      obtain ⟨a, last, h⟩ := Change.bind_ok skipped
      have unbound := (sound.runs id r found).unbound starting a (Run.attempt_ok last)
      simp only [unbound] at h
      obtain ⟨turnId, -, h⟩ := Change.bind_ok h
      cases h
  | wrote writes =>
      refine ⟨_, writes.lookup_self sound, ?_⟩
      have same := writes.found
      rw [found, Option.some.injEq] at same
      subst same
      have saves := writes.saves
      cases saves with
      | bindTurn last unbound typed =>
          rcases status with status | status | status <;> simp [Db.bump, status]

theorem handled_approval {kind : Lookup ApprovalKind} {requestId method : Json} {frame : Nat}
    (h : Course env cause w₀ w)
    (delivers : cause.Delivers g (.obj fields))
    (named : fields.lookup "method" = some method)
    (supported : plainLookup approvalKinds (some method) = .ok kind ∧ kind ≠ .missing)
    (open_ : (w.codex g).closed = false) (listener : (w.codex g).listener = some id)
    (unlisted : MapKey.ofJson frame requestId ∉ (w.codex g).approvals) :
    Handled env cause w₀ g
      (Service.approval env id g kind (.ofJson frame requestId) (fields.lookup "params"))
      (w.note g (.ofJson frame requestId)) := by
  have requested : Course env cause w₀ (w.note g (.ofJson frame requestId)) :=
    h.step (.requested delivers open_ unlisted)
  have openAfter : ((w.note g (.ofJson frame requestId)).codex g).closed = false := by
    simpa [World.note] using open_
  have live := (h.sound.wired.listener g id listener).1
  unfold Handled Service.approval
  simp only [wp_bind, wp_get]
  refine wp_loadRun (fun r found => ?_) (fun _ => requested)
  rw [wp_ite]
  constructor
  · intro _
    refine wp_respond ?_ (fun _ => requested)
      (fun _ => requested.step (.quiet (World.setCodex_quiet rfl)))
    intro listed _
    have tallied := requested.step (.quiet (World.setCodex_quiet (g := g)
      (f := fun c => { c with sends := c.sends + 1 }) rfl))
    refine ⟨tallied.step (.answered ?_ (.inl ⟨rfl, _, rfl⟩)), ?_⟩
    · simpa using listed
    · simpa [World.forget, World.wrote, World.tallied] using openAfter
  · intro waits
    simp only [not_or, not_not, not_and_or, Bool.not_eq_true] at waits
    have status : r.status = .starting ∨ r.status = .running ∨ r.status = .waitingApproval := by
      simpa using waits.2.2
    have unsettled : r.status.isTerminal = false := by
      rcases status with status | status | status <;> rw [status] <;> rfl
    have heard : w.Heard g id r := ⟨open_, listener, live, found, unsettled⟩
    have heard' : (w.note g (.ofJson frame requestId)).Heard g id r :=
      ⟨openAfter, by simpa [World.note] using listener, live, found, unsettled⟩
    have generation : ((w.note g (.ofJson frame requestId)).codex g).generation =
        (w.codex g).generation := by simp [World.note]
    rw [wp_bind]
    refine wp_lift_of (fun value read => ?_) (fun _ _ => requested)
    have announces : Announces (.obj fields) value := .approval named supported read
    rw [wp_bind]
    refine wp_update (fun db₁ binds => ?_) (fun _ => requested)
    have bound := requested.step (.boundTurn delivers announces heard' (Db.update_ok binds))
    rw [wp_bind]
    refine wp_lift_of (fun a last => ?_) (fun _ _ => bound)
    simp only [wp_bind, randomUUID, wp_get, wp_modify, wp_pure, MapKey.value_ofJson, generation]
    have counted : Course env cause w₀ { (w.note g (.ofJson frame requestId)).commit
        (.update id (.bindTurn value) (.runtime g)) db₁ with uuids := w.uuids + 1 } :=
      bound.step (.quiet ⟨rfl, rfl, rfl, rfl, rfl, rfl, Nat.le_succ _, fun _ => rfl⟩)
    refine wp_update (fun db₂ result => ?_) (fun _ => counted)
    have updates := Db.update_ok result
    cases updates with
    | same found' skipped =>
        simp only [Change.apply] at skipped
        split at skipped
        · cases skipped
        · split at skipped <;> cases skipped
    | wrote writes =>
        rename_i r₁ r₂
        obtain ⟨kind', rfl⟩ : ∃ kind', kind = .own kind' := by
          cases writes.saves
          exact ⟨_, rfl⟩
        obtain ⟨r', found', status'⟩ :=
          (Db.update_ok binds).bindTurn_status h.sound.db found status
        have same : r' = r₁ := by
          have loaded : db₁.runs.lookup id = some r₁ := writes.found
          rw [found', Option.some.injEq] at loaded
          exact loaded
        subst same
        refine ⟨h.step (.asked delivers announces heard unlisted (Db.update_ok binds) status'
          writes ⟨a, Run.attempt_ok last, rfl⟩), ?_⟩
        simpa [World.commit] using openAfter

/-- A request of the runtime. -/
theorem handled_serverRequest {requestId method : Json} (h : Course env cause w₀ w)
    (delivers : cause.Delivers g (.obj fields)) (named : fields.lookup "method" = some method)
    (open_ : (w.codex g).closed = false) :
    Handled env cause w₀ g
      (Codex.serverRequest env g requestId method (fields.lookup "params")) w := by
  refine wp_serverRequest (fun kind lookup known => ?_) (fun _ => ?_) (fun _ => h)
  · unfold Codex.announce
    simp only [wp_bind, wp_get, wp_ite, wp_throw, modifyCodex, wp_modify, record]
    refine ⟨fun _ => h, fun fits => ?_⟩
    rw [not_or] at fits
    cases listener : (w.codex g).listener with
    | none =>
        exact ⟨h.step (.requested delivers open_ fits.2), by simpa using open_⟩
    | some id =>
        exact handled_approval h delivers named ⟨lookup, known⟩ open_ listener fits.2
  · rw [wp_bind]
    refine wp_send (fun _ => ?_) (fun _ => h.step (.quiet (World.setCodex_quiet rfl)))
    have tallied := h.step (.quiet (World.setCodex_quiet (g := g)
      (f := fun c => { c with sends := c.sends + 1 }) rfl))
    have said : Course env cause w₀ ((w.tallied g).wrote g (.unsupported requestId)) :=
      tallied.step (.said (.inr ⟨requestId, rfl⟩))
    rw [wp_bind]
    exact wp_lift_of (fun name _ => said) (fun _ _ => said)

/-- A reply settles or drops the request it names. -/
theorem handled_response {requestId : Json} (h : Course env cause w₀ w)
    (delivers : cause.Delivers g (.obj fields)) (open_ : (w.codex g).closed = false) :
    Handled env cause w₀ g (Codex.response g requestId fields) w := by
  unfold Handled Codex.response
  simp only [wp_bind, wp_get]
  cases entry : (w.codex g).pending.find? (fun entry => Json.num (.ofNat entry.1) == requestId) with
  | none => exact h
  | some entry' =>
      obtain ⟨n, call⟩ := entry'
      have pending : (n, call) ∈ (w.codex g).pending := List.mem_of_find?_eq_some entry
      simp only [wp_bind, modifyCodex, wp_modify, wp_ite]
      refine ⟨fun _ => ?_, fun _ => ?_⟩
      · cases Json.coerce (Json.chain (fields.lookup "error") "code") with
        | error e =>
            simp only [wp_bind, wp_modify, wp_throw]
            exact h.step .dropped
        | ok code =>
            exact ⟨h.step .rejected, by simpa [World.answer] using open_⟩
      · cases reply : fields.lookup "result" with
        | none => exact ⟨h.step .rejected, by simpa [World.answer] using open_⟩
        | some result =>
            simp only [wp_bind, record, wp_modify]
            exact ⟨h.step (.replied delivers reply pending),
              by simpa [World.answer] using open_⟩

/-- One frame of the runtime. -/
theorem handled_message {m : Json} (h : Course env cause w₀ w)
    (delivers : cause.Delivers g m) (open_ : (w.codex g).closed = false) :
    Handled env cause w₀ g (Codex.message env g m) w := by
  unfold Handled Codex.message
  simp only [wp_bind, modifyCodex, wp_modify]
  have counted := h.step (.quiet (World.setCodex_quiet (g := g)
    (f := fun c => { c with frames := c.frames + 1 }) rfl))
  have openAfter : ((w.setCodex g fun c => { c with frames := c.frames + 1 }).codex g).closed =
      false := by simpa using open_
  cases m with
  | obj fields =>
      dsimp only
      cases noId : fields.lookup "id" with
      | some requestId =>
          cases named : fields.lookup "method" with
          | some method =>
              dsimp only
              rw [wp_ite]
              exact ⟨fun _ => handled_serverRequest counted delivers named openAfter,
                fun _ => handled_response counted delivers openAfter⟩
          | none => exact handled_response counted delivers openAfter
      | none =>
          cases named : fields.lookup "method" with
          | none => exact counted
          | some method =>
              cases method with
              | str method => exact handled_notify counted delivers noId named openAfter
              | _ => exact counted
  | _ => exact counted

/-- The frames of complete lines, up to blank and malformed ones. -/
def Codex.framesOf (env : Env) (lines : List (List Char)) : List Json :=
  lines.filterMap fun text =>
    if text.all isSpace then none else (env.parse (String.ofList text)).toOption

/-- The frames that a chunk completes. -/
def Codex.incoming (env : Env) (c : Codex) (chunk : List Char) : List Json :=
  framesOf env (splitLines (c.buffer ++ chunk)).1

theorem handled_drain {lines : List (List Char)} {rest : List Char}
    (h : Course env cause w₀ w)
    (delivers : ∀ m ∈ Codex.framesOf env lines, cause.Delivers g m)
    (open_ : (w.codex g).closed = false) :
    Handled env cause w₀ g (Codex.drain env g lines rest) w := by
  induction lines generalizing w with
  | nil => exact ⟨h, open_⟩
  | cons text lines ih =>
      unfold Handled Codex.drain
      simp only [wp_bind, modifyCodex, wp_modify]
      have cutOff := h.step (.quiet (World.setCodex_quiet (g := g)
        (f := fun c => { c with buffer := Codex.unlines lines rest }) rfl))
      have openAfter : ((w.setCodex g fun c => { c with
          buffer := Codex.unlines lines rest }).codex g).closed = false := by
        simpa using open_
      have later : ∀ m ∈ Codex.framesOf env lines, cause.Delivers g m := by
        intro m member
        obtain ⟨text', member', frame⟩ := List.mem_filterMap.mp member
        exact delivers m (List.mem_filterMap.mpr
          ⟨text', List.mem_cons_of_mem _ member', frame⟩)
      unfold Codex.line
      split
      · exact ih cutOff later openAfter
      · rename_i content
        cases parsed : env.parse (String.ofList text) with
        | error e => exact cutOff
        | ok m =>
            have delivered : cause.Delivers g m := by
              refine delivers m (List.mem_filterMap.mpr ⟨text, by simp, ?_⟩)
              rw [if_neg content, parsed]
              rfl
            refine wp_mono (handled_message cutOff delivered openAfter) ?_ (fun _ _ t => t)
            rintro - w' ⟨h', open'⟩
            exact ih h' later open'

/-- A chunk of output is a course of effects. -/
theorem wp_receive {chunk : List Char} {failed : Err → World → Prop}
    (h : Course env cause w₀ w)
    (received : cause = .received g (Codex.incoming env (w.codex g) chunk)) :
    wp (Codex.receive env g chunk) (fun _ => Course env cause w₀) failed w := by
  simp only [Codex.receive, wp_bind, wp_get, wp_ite, wp_pure, wp_tryCatch]
  refine ⟨fun _ => h, fun open_ => ?_⟩
  simp only [Bool.not_eq_true] at open_
  simp only [modifyCodex, wp_modify, wp_ite, wp_throw]
  have buffered := h.step (.quiet (World.setCodex_quiet (g := g)
    (f := fun c => { c with buffer := (w.codex g).buffer ++ chunk }) rfl))
  refine ⟨fun _ => wp_fail buffered, fun _ => ?_⟩
  refine wp_mono (handled_drain buffered ?_ (by simpa using open_))
    (fun _ w' done => done.1) (fun _ w' failed => wp_fail failed)
  intro m member
  exact ⟨_, received, member⟩

end Messages

end Mathmodel
