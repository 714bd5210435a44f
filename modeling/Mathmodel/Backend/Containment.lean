import Mathmodel.Backend.Attendance
import Mathmodel.Backend.Ledger

/-!
# Malformed input fails closed

A frame can throw in the adapter, in a listener of the service, or in the schema
check of a save. `Codex.Breaks` says where: which lines of the chunk were handled,
which one threw, and in which world. The exception ends in `Codex.fail`, which
closes the adapter and lets the service mark the run uncertain; that this error
path itself cannot fail is what keeps `Codex.receive` from throwing.
-/

namespace Mathmodel

open M Program

/-! ## Stored records -/

/-- What `validate("event", event)` checks beyond the types of the fields. -/
def Event.Valid (e : Event) : Prop :=
  1 ≤ e.sequence ∧ 1 ≤ e.stateVersion ∧ e.payload.isObject = true

theorem Db.Writes.valid_events {db db' : Db} {m : Moment} {id : String} {change : Change}
    {r r' : Run} (h : db.Writes m id change r r' db') (valid : ∀ e ∈ db.events, e.Valid) :
    ∀ e ∈ db'.events, e.Valid := by
  obtain ⟨type, payload, object, rfl⟩ := h.result
  intro e member
  rcases List.mem_append.mp member with old | new
  · exact valid e old
  · rw [List.mem_singleton] at new
    subst new
    exact ⟨Nat.le_add_left _ _, Nat.le_add_left _ _, (Json.isObject_stored _).trans object⟩

theorem Commit.valid_events {env : Env} {cause : Cause} {w : World} {origin : Origin}
    {before after : Db} (commit : Commit env cause w origin before after)
    (valid : ∀ e ∈ before.events, e.Valid) : ∀ e ∈ after.events, e.Valid := by
  cases commit with
  | wrote why writes => exact writes.valid_events valid
  | commanded command request unused current writes => exact writes.valid_events valid
  | runCreated request unused run fresh object =>
      intro e member
      rcases List.mem_append.mp member with old | new
      · exact valid e old
      · rw [List.mem_singleton] at new
        subst new
        rw [run]
        exact ⟨le_rfl, le_rfl, (Json.isObject_stored _).trans object⟩
  | _ => exact valid

theorem Effect.valid_events {env : Env} {cause : Cause} {w w' : World} (sound : w.Sound env)
    (effect : Effect env cause w w') (valid : ∀ e ∈ w.db.events, e.Valid) :
    ∀ e ∈ w'.db.events, e.Valid := by
  obtain ⟨entries, -, ledger⟩ := effect.ledger sound
  exact ledger.keeps valid fun _ _ _ _ old commit => commit.valid_events old

/-- The tables are what the transactions left, and the events satisfy their schema. -/
def World.IsWritten (w : World) : Prop :=
  w.db = Db.committed w.log ∧ ∀ e ∈ w.db.events, e.Valid

theorem Effect.isWritten {env : Env} {cause : Cause} {w w' : World} (sound : w.Sound env)
    (effect : Effect env cause w w') (h : w.IsWritten) : w'.IsWritten :=
  ⟨effect.committed sound h.1, effect.valid_events sound h.2⟩

theorem World.IsWritten.reached {env : Env} {w : World} (run : Reaches (Step env) .init w) :
    w.IsWritten := by
  refine run.keeps ⟨rfl, fun e member => by cases member⟩ (fun _ _ _ h => ⟨h.1, h.2⟩) ?_
    (fun _ h => ⟨h.1, h.2⟩)
  exact fun _ _ _ sound effect h => effect.isWritten sound h

/-! ## A frame that throws -/

/-- What a throwing frame leaves of the run `r` that it met: a settled run is as it
was, any other is still not settled. -/
def World.Spared (w : World) (id : String) (r : Run) : Prop :=
  ∃ r', w.db.runs.lookup id = some r' ∧ (r.status.isTerminal = true → r' = r) ∧
    (r.status.isTerminal = false → r'.status.isTerminal = false)

section Handlers

variable {env : Env} {w : World} {g : Nat} {id : String} {r : Run} {params : Option Json}

/-- The listeners stay attached, and the run is spared by an exception. -/
abbrev Contained (id : String) (g : Nat) (r : Run) (x : M Unit) (w : World) : Prop :=
  wp x (fun _ w' => w'.Attached id g) (fun _ w' => w'.Attached id g ∧ w'.Spared id r) w

theorem World.spared_of_found (found : w.db.runs.lookup id = some r) : w.Spared id r :=
  ⟨r, found, fun _ => rfl, fun unsettled => unsettled⟩

theorem contained_update {change : Change} {via : Via} (attached : w.Attached id g)
    (spared : w.Spared id r) : Contained id g r (update env id change via) w := by
  apply wp_update
  · intro db _
    exact ⟨attached.live, attached.listener, attached.open_⟩
  · intro e
    exact ⟨attached, spared⟩

theorem contained_lift {α : Type} {x : Except Err α} {f : α → M Unit}
    (attached : w.Attached id g) (spared : w.Spared id r)
    (next : ∀ a, x = .ok a → Contained id g r (f a) w) :
    Contained id g r (Program.lift x >>= f) w := by
  unfold Contained
  rw [wp_bind]
  exact wp_lift_of next (fun e _ => ⟨attached, spared⟩)

theorem contained_turnCompleted {a : Attempt} (attached : w.Attached id g)
    (spared : w.Spared id r) :
    Contained id g r (Service.turnCompleted env id g params a) w := by
  have body : Contained id g r
      (Service.settleTurn env id g (Json.chain params "turn")) w := by
    unfold Contained Service.settleTurn
    rw [wp_bind]
    refine wp_finish (fun _ => ⟨attached, spared⟩) ?_ ?_
    · intro turn reported table
      simp only [wp_bind, wp_get, attached.live]
      exact ⟨attached.live, attached.listener, attached.open_⟩
    · intro turn outcome s s' db reported table writes
      have live : (w.commit (.update id (.finish turn (.own outcome)) (.runtime g)) db).live.lookup
          id = some g := attached.live
      simp only [wp_bind, wp_get, live]
      exact ⟨attached.live, attached.listener, attached.open_⟩
  unfold Service.turnCompleted
  cases turnId : a.turnId with
  | none => exact body
  | some bound =>
      apply contained_lift attached spared
      intro reported _
      unfold Contained
      rw [wp_bind, wp_pure, wp_ite]
      exact ⟨fun _ => attached, fun _ => body⟩

theorem contained_notification {method : String} (attached : w.Attached id g)
    (spared : w.Spared id r) :
    Contained id g r (Service.notification env id g method params) w := by
  unfold Contained Service.notification
  rw [wp_bind]
  refine wp_loadRun (fun s found => ?_) (fun _ => ⟨attached, spared⟩)
  simp only [wp_ite]
  refine ⟨fun _ => attached, fun _ => ⟨fun _ => ?_, fun _ => ⟨fun _ => ?_, fun _ =>
    ⟨fun _ => ?_, fun _ => ⟨fun _ => ?_, fun _ => attached⟩⟩⟩⟩⟩
  · exact contained_update attached spared
  · apply contained_lift attached spared
    exact fun turnId _ => contained_update attached spared
  · apply contained_lift attached spared
    exact fun a _ => contained_turnCompleted attached spared
  · apply contained_lift attached spared
    intro a _
    unfold Contained
    rw [wp_ite]
    exact ⟨fun _ => contained_update attached spared, fun _ => attached⟩

/-- A request for approval may bind the turn before it throws. -/
theorem contained_approval {kind : Lookup ApprovalKind} {key : MapKey} (sound : w.db.Sound)
    (attached : w.Attached id g) (found : w.db.runs.lookup id = some r) :
    Contained id g r (Service.approval env id g kind key params) w := by
  have spared := World.spared_of_found found
  have tallied : (w.tallied g).Attached id g := attached.setCodex rfl rfl rfl rfl
  unfold Contained Service.approval
  rw [wp_bind, wp_get, wp_bind]
  refine wp_loadRun (fun s found' => ?_) (fun _ => ⟨attached, spared⟩)
  have same : s = r := Option.some.inj (found'.symm.trans found)
  subst same
  rw [wp_ite]
  constructor
  · intro _
    apply wp_respond
    · intro _ _
      have wrote : ((w.tallied g).wrote g (.decision key .decline)).Attached id g :=
        ⟨tallied.live, tallied.listener, tallied.open_⟩
      exact wrote.setCodex rfl rfl rfl rfl
    · exact fun _ => ⟨attached, spared⟩
    · exact fun _ => ⟨tallied, spared⟩
  · intro waits
    simp only [not_or, not_not, not_and_or, Bool.not_eq_true] at waits
    have status : s.status = .starting ∨ s.status = .running ∨ s.status = .waitingApproval := by
      simpa using waits.2.2
    apply contained_lift attached spared
    intro value _
    unfold Contained
    rw [wp_bind]
    refine wp_update (fun db binds => ?_) (fun _ => ⟨attached, spared⟩)
    obtain ⟨bound, found₁, status₁⟩ := (Db.update_ok binds).bindTurn_status sound found status
    have attached₁ : (w.commit (.update id (.bindTurn value) (.runtime g)) db).Attached id g :=
      ⟨attached.live, attached.listener, attached.open_⟩
    have spared₁ : (w.commit (.update id (.bindTurn value) (.runtime g)) db).Spared id s := by
      refine ⟨bound, found₁, ?_, ?_⟩
      · rcases status with status | status | status <;> rw [status] <;> nofun
      · intro _
        rcases status₁ with status | status <;> rw [status] <;> rfl
    apply contained_lift attached₁ spared₁
    intro a _
    simp only [Contained, wp_bind, randomUUID, wp_get, wp_modify, wp_pure]
    exact contained_update ⟨attached.live, attached.listener, attached.open_⟩ spared₁

theorem contained_serverRequest {requestId method : Json} (sound : w.db.Sound)
    (attached : w.Attached id g) (found : w.db.runs.lookup id = some r) :
    Contained id g r (Codex.serverRequest env g requestId method params) w := by
  have spared := World.spared_of_found found
  have tallied : (w.tallied g).Attached id g := attached.setCodex rfl rfl rfl rfl
  refine wp_serverRequest (fun kind _ _ => ?_) (fun _ => ?_) (fun _ => ⟨attached, spared⟩)
  · unfold Codex.announce
    simp only [wp_bind, wp_get, wp_ite, wp_throw, modifyCodex, wp_modify, record,
      attached.listener]
    refine ⟨fun _ => ⟨attached, spared⟩, fun _ => ?_⟩
    exact contained_approval sound (attached.setCodex rfl rfl rfl rfl) found
  · rw [wp_bind]
    refine wp_send (fun _ => ?_) (fun _ => ⟨tallied, spared⟩)
    have said : ((w.tallied g).wrote g (.unsupported requestId)).Attached id g :=
      ⟨tallied.live, tallied.listener, tallied.open_⟩
    apply contained_lift said spared
    exact fun name _ => ⟨said, spared⟩

theorem contained_response {requestId : Json} {fields : List (String × Json)}
    (attached : w.Attached id g) (spared : w.Spared id r) :
    Contained id g r (Codex.response g requestId fields) w := by
  unfold Contained Codex.response
  simp only [wp_bind, wp_get]
  cases (w.codex g).pending.find? (fun entry => Json.num (.ofNat entry.1) == requestId) with
  | none => exact ⟨attached, spared⟩
  | some entry =>
      simp only [wp_bind, modifyCodex, wp_modify, wp_ite]
      constructor
      · intro _
        cases Json.coerce (Json.chain (fields.lookup "error") "code") with
        | error e =>
            simp only [wp_bind, wp_modify, wp_throw]
            exact ⟨attached.setCodex rfl rfl rfl rfl, spared⟩
        | ok code => exact attached.setCodex rfl rfl rfl rfl
      · intro _
        cases fields.lookup "result" with
        | none => exact attached.setCodex rfl rfl rfl rfl
        | some result =>
            simp only [wp_bind, record, wp_modify]
            exact attached.setCodex rfl rfl rfl rfl

theorem contained_notify {method : String} (attached : w.Attached id g)
    (spared : w.Spared id r) : Contained id g r (Codex.notify env g method params) w := by
  have heard : ∀ v : World, v.Attached id g → v.Spared id r →
      Contained id g r (Codex.hand env g method params) v := by
    intro v attached spared
    simp only [Contained, Codex.hand, wp_bind, wp_get, attached.listener, wp_ite]
    exact ⟨fun _ => contained_notification attached spared, fun _ => attached⟩
  unfold Contained Codex.notify
  dsimp only
  rw [wp_ite]
  constructor
  · intro _
    rw [wp_bind, modifyCodex, wp_modify]
    exact heard _ (attached.setCodex rfl rfl rfl rfl) spared
  · intro _
    exact heard _ attached spared

/-- One line of output. -/
theorem contained_line {text : List Char} (sound : w.db.Sound) (attached : w.Attached id g)
    (found : w.db.runs.lookup id = some r) : Contained id g r (Codex.line env g text) w := by
  have spared := World.spared_of_found found
  unfold Contained Codex.line
  split
  · exact attached
  · cases env.parse (String.ofList text) with
    | error e => exact ⟨attached, spared⟩
    | ok m =>
        unfold Codex.message
        simp only [wp_bind, modifyCodex, wp_modify]
        have counted : (w.setCodex g fun c => { c with frames := c.frames + 1 }).Attached id g :=
          attached.setCodex rfl rfl rfl rfl
        cases m with
        | obj fields =>
            dsimp only
            cases fields.lookup "id" with
            | some requestId =>
                cases fields.lookup "method" with
                | some method =>
                    dsimp only
                    rw [wp_ite]
                    exact ⟨fun _ => contained_serverRequest sound counted found,
                      fun _ => contained_response counted spared⟩
                | none => exact contained_response counted spared
            | none =>
                cases fields.lookup "method" with
                | none => exact ⟨counted, spared⟩
                | some method =>
                    cases method with
                    | str method => exact contained_notify counted spared
                    | _ => exact ⟨counted, spared⟩
        | _ => exact ⟨counted, spared⟩

end Handlers

/-! ## A chunk -/

namespace World

/-- The text that waits in the buffer of a runtime. -/
def buffered (w : World) (g : Nat) (buffer : List Char) : World :=
  w.setCodex g fun c => { c with buffer := buffer }

theorem buffered_quiet (w : World) (g : Nat) (buffer : List Char) :
    w.Quiet (w.buffered g buffer) := setCodex_quiet rfl

theorem Attached.buffered {w : World} {id : String} {g : Nat} (h : w.Attached id g) (i : Nat)
    (buffer : List Char) : (w.buffered i buffer).Attached id g := h.setCodex rfl rfl rfl rfl

end World

namespace Codex

/-- Handling a chunk throws, in world `w₂`: the buffer is too long, or a line
throws that is handled from world `w₁`, after the lines `done` before it. -/
inductive Breaks (env : Env) (g : Nat) (chunk : List Char) (w : World) :
    Err → World → World → Prop where
  | oversized (open_ : (w.codex g).closed = false)
      (large : 8388608 < byteLength ((w.codex g).buffer ++ chunk)) :
      Breaks env g chunk w (.error "Codex frame limit exceeded")
        (w.buffered g ((w.codex g).buffer ++ chunk)) (w.buffered g ((w.codex g).buffer ++ chunk))
  | thrown {done later : List (List Char)} {text rest : List Char} {e : Err} {w₁ w₂ : World}
      (open_ : (w.codex g).closed = false)
      (fits : byteLength ((w.codex g).buffer ++ chunk) ≤ 8388608)
      (lines : splitLines ((w.codex g).buffer ++ chunk) = (done ++ text :: later, rest))
      (handled : (drain env g done (unlines (text :: later) rest)).exec
        (w.buffered g ((w.codex g).buffer ++ chunk)) = (.ok (), w₁))
      (throws : (line env g text).exec (w₁.buffered g (unlines later rest)) = (.error e, w₂)) :
      Breaks env g chunk w e w₁ w₂

theorem unlines_append (done lines : List (List Char)) (rest : List Char) :
    unlines (done ++ lines) rest = unlines done (unlines lines rest) := by
  simp [unlines]

/-- The loop handles the first lines with the others left in the buffer. -/
theorem wp_drain_append {env : Env} {g : Nat} {done lines : List (List Char)} {rest : List Char}
    {post : Unit → World → Prop} {failed : Err → World → Prop} {w : World} :
    wp (drain env g (done ++ lines) rest) post failed w ↔
      wp (drain env g done (unlines lines rest))
        (fun _ => wp (drain env g lines rest) post failed) failed w := by
  induction done generalizing w with
  | nil => exact Iff.rfl
  | cons text done ih =>
      have later : wp (drain env g (done ++ lines) rest) post failed =
          wp (drain env g done (unlines lines rest))
            (fun _ => wp (drain env g lines rest) post failed) failed := by
        funext v
        exact propext ih
      simp only [List.cons_append, drain, wp_bind, modifyCodex, wp_modify, unlines_append, later]

/-- The exception goes to `fail`; the later lines are not looked at. -/
theorem Breaks.receive {env : Env} {g : Nat} {chunk : List Char} {w w₁ w₂ : World} {e : Err}
    (h : Breaks env g chunk w e w₁ w₂) {post : Unit → World → Prop}
    {failed : Err → World → Prop} :
    wp (Codex.receive env g chunk) post failed w ↔ wp (fail env g e) post failed w₂ := by
  cases h with
  | oversized open_ large =>
      simp only [Codex.receive, wp_bind, wp_get, open_, Bool.false_eq_true, if_false, wp_tryCatch,
        modifyCodex, wp_modify, if_pos large, wp_throw]
      exact Iff.rfl
  | thrown open_ fits lines handled throws =>
      simp only [Codex.receive, wp_bind, wp_get, open_, Bool.false_eq_true, if_false, wp_tryCatch,
        modifyCodex, wp_modify, if_neg (Nat.not_lt.mpr fits), lines, wp_drain_append]
      refine (wp_of_exec_ok handled).trans ?_
      simp only [drain, wp_bind, modifyCodex, wp_modify]
      exact wp_of_exec_error throws

/-- What the loop throws is thrown by one of its lines. -/
theorem drain_throws {env : Env} {g : Nat} {lines : List (List Char)} {rest : List Char}
    {w w₂ : World} {e : Err} (h : (drain env g lines rest).exec w = (.error e, w₂)) :
    ∃ done text later w₁, lines = done ++ text :: later ∧
      (drain env g done (unlines (text :: later) rest)).exec w = (.ok (), w₁) ∧
      (line env g text).exec (w₁.buffered g (unlines later rest)) = (.error e, w₂) := by
  induction lines generalizing w with
  | nil => cases h
  | cons text lines ih =>
      have unfolded : ∀ lines rest, (drain env g (text :: lines) rest).exec w =
          match (line env g text).exec (w.buffered g (unlines lines rest)) with
          | (.ok _, v) => (drain env g lines rest).exec v
          | (.error e, v) => (.error e, v) := by
        intro lines rest
        change (line env g text >>= fun _ => drain env g lines rest).exec
          (w.buffered g (unlines lines rest)) = _
        rw [exec_bind]
        rcases (line env g text).exec (w.buffered g (unlines lines rest)) with ⟨outcome, v⟩
        cases outcome <;> rfl
      rw [unfolded] at h
      cases first : (line env g text).exec (w.buffered g (unlines lines rest)) with
      | mk outcome v =>
          rw [first] at h
          cases outcome with
          | error e' =>
              cases h
              exact ⟨[], text, lines, w, rfl, rfl, first⟩
          | ok done =>
              obtain ⟨done, text', later, w₁, rfl, handled, throws⟩ := ih h
              refine ⟨text :: done, text', later, w₁, rfl, ?_, throws⟩
              rw [unfolded, ← unlines_append, first]
              exact handled

end Codex

section Chunk

variable {env : Env} {cause : Cause} {w₀ w w₁ w₂ : World} {g : Nat} {id : String} {e : Err}
  {chunk : List Char}

/-- A line that is handled leaves the listeners attached for the next one. -/
theorem handled_line {text : List Char} (rest : List Char) (h : Course env cause w₀ w)
    (attached : w.Attached id g)
    (delivers : ∀ m ∈ Codex.framesOf env [text], cause.Delivers g m) :
    ∃ r, w.db.runs.lookup id = some r ∧
      wp (Codex.line env g text) (fun _ w' => Course env cause w₀ w' ∧ w'.Attached id g)
        (fun _ w' => Course env cause w₀ w' ∧ w'.Attached id g ∧ w'.Spared id r)
        (w.buffered g rest) := by
  obtain ⟨-, r, found, -⟩ := h.sound.wired.listener g id attached.listener
  refine ⟨r, found, ?_⟩
  have course : Handled env cause w₀ g (Codex.drain env g [text] rest) w :=
    handled_drain h delivers attached.open_
  simp only [Handled, Codex.drain, wp_bind, modifyCodex, wp_modify] at course
  have contained : Contained id g r (Codex.line env g text) (w.buffered g rest) :=
    contained_line h.sound.db (attached.buffered g rest) found
  refine wp_mono (wp_and course contained) ?_ ?_
  · rintro - w' ⟨⟨course, -⟩, attached⟩
    exact ⟨course, attached⟩
  · rintro e w' ⟨course, contained⟩
    exact ⟨course, contained⟩

theorem attached_drain {lines : List (List Char)} (rest : List Char)
    (h : Course env cause w₀ w) (attached : w.Attached id g)
    (delivers : ∀ m ∈ Codex.framesOf env lines, cause.Delivers g m) :
    wp (Codex.drain env g lines rest)
      (fun _ w' => Course env cause w₀ w' ∧ w'.Attached id g) (fun _ _ => True) w := by
  induction lines generalizing w with
  | nil => exact ⟨h, attached⟩
  | cons text lines ih =>
      have first : ∀ m ∈ Codex.framesOf env [text], cause.Delivers g m := by
        intro m member
        obtain ⟨text', listed, frame⟩ := List.mem_filterMap.mp member
        rw [List.mem_singleton] at listed
        exact delivers m (List.mem_filterMap.mpr ⟨text', by simp [listed], frame⟩)
      have later : ∀ m ∈ Codex.framesOf env lines, cause.Delivers g m := by
        intro m member
        obtain ⟨text', listed, frame⟩ := List.mem_filterMap.mp member
        exact delivers m (List.mem_filterMap.mpr ⟨text', List.mem_cons_of_mem _ listed, frame⟩)
      obtain ⟨r, -, handled⟩ := handled_line (Codex.unlines lines rest) h attached first
      simp only [Codex.drain, wp_bind, modifyCodex, wp_modify]
      refine wp_mono handled ?_ (fun _ _ _ => trivial)
      rintro - w' ⟨h', attached'⟩
      exact ih h' attached' later

/-- The worlds before and at a throw are part of the section, and the frame spared
the run. -/
theorem Codex.Breaks.contained (h : w.Sound env) (attached : w.Attached id g)
    (breaks : Codex.Breaks env g chunk w e w₁ w₂) :
    ∃ cause r, Course env cause w w₁ ∧ Course env cause w w₂ ∧ w₂.Attached id g ∧
      w₁.db.runs.lookup id = some r ∧ w₂.Spared id r := by
  have buffered : ∀ buffer, Course env (.received g (Codex.incoming env (w.codex g) chunk)) w
      (w.buffered g buffer) := fun buffer =>
        (Course.refl h).step (.quiet (w.buffered_quiet g buffer))
  cases breaks with
  | oversized open_ large =>
      obtain ⟨-, r, found, -⟩ := h.wired.listener g id attached.listener
      exact ⟨_, r, buffered _, buffered _, attached.buffered g _, found,
        World.spared_of_found found⟩
  | thrown open_ fits lines handled throws =>
      rename_i done later text rest
      have delivers : ∀ part, (∀ line ∈ part, line ∈ done ++ text :: later) →
          ∀ m ∈ Codex.framesOf env part,
            (Cause.received g (Codex.incoming env (w.codex g) chunk)).Delivers g m := by
        intro part sub m member
        refine ⟨_, rfl, ?_⟩
        obtain ⟨line, listed, frame⟩ := List.mem_filterMap.mp member
        rw [Codex.incoming, lines]
        exact List.mem_filterMap.mpr ⟨line, sub line listed, frame⟩
      have before := attached_drain (Codex.unlines (text :: later) rest)
        (buffered ((w.codex g).buffer ++ chunk)) (attached.buffered g _)
        (delivers done fun line listed => List.mem_append_left _ listed)
      obtain ⟨course₁, attached₁⟩ := (wp_of_exec_ok handled).mp before
      obtain ⟨r, found, at_⟩ := handled_line (Codex.unlines later rest) course₁ attached₁
        (delivers [text] (by simp))
      obtain ⟨course₂, attached₂, spared⟩ := (wp_of_exec_error throws).mp at_
      exact ⟨_, r, course₁, course₂, attached₂, found, spared⟩

/-- A failing connection with listeners closes, and its run needs recovery unless it
was settled. -/
theorem wp_fail_attached (h : w.Sound env) (attached : w.Attached id g)
    (failed : Err → World → Prop) :
    wp (Codex.fail env g e)
      (fun _ w' => ((w'.codex g).closed = true ∧ (w'.codex g).pending = [] ∧
        (w'.codex g).approvals = []) ∧
        ∃ r r', w.db.runs.lookup id = some r ∧ w'.db.runs.lookup id = some r' ∧
          (r.status.isTerminal = true → r' = r) ∧
          (r.status.isTerminal = false → r'.status = .recoveryRequired)) failed w := by
  simp only [Codex.fail, wp_bind, wp_get, attached.open_, attached.listener, Service.onFault,
    modifyCodex, wp_modify, Bool.false_eq_true, if_false, wp_ite, background, M.push, wp_pure]
  refine ⟨fun _ => ?_, fun other => absurd attached.live other⟩
  obtain ⟨-, r, found, started⟩ := h.wired.started id g attached.live
  refine wp_uncertain (w := w.shut g e) (h.shut g e) found started ?_
  intro w' uncertain
  constructor
  · change ((w'.codex g).closed = true ∧ (w'.codex g).pending = [] ∧ (w'.codex g).approvals = [])
    rw [uncertain.frame.1]
    simp [World.shut]
  · refine ⟨r, ?_⟩
    cases uncertain with
    | settled found' status =>
        have same := found.symm.trans found'
        cases same
        refine ⟨r, found, found, fun _ => rfl, fun unsettled => ?_⟩
        exact status.resolve_left (by rw [unsettled]; rintro ⟨⟩)
    | marked status started writes =>
        have same := found.symm.trans writes.found
        cases same
        refine ⟨_, found, writes.lookup_self h.db, fun settled => ?_, fun _ => ?_⟩
        · rw [status.1] at settled
          cases settled
        · have saves := writes.saves
          cases saves <;> rfl

theorem Effect.created_le {w' : World} (effect : Effect env cause w w') :
    w.created ≤ w'.created := by
  obtain ⟨-, created, -⟩ | ⟨-, -, created, -⟩ | ⟨-, created, -⟩ := effect.live <;> omega

/-- A runtime that existed and is closed is never opened again. -/
theorem Effect.stays_closed {w' : World} (effect : Effect env cause w w') (made : g < w.created)
    (closed : (w.codex g).closed = true) : g < w'.created ∧ (w'.codex g).closed = true := by
  constructor
  · exact made.trans_le effect.created_le
  · obtain stays | ⟨new, -⟩ | ⟨-, rfl⟩ := effect.adapter g
    · exact stays.closed closed
    · omega
    · rfl

theorem Reaches.stays_closed (run : Reaches (Step env) w₀ w) (sound : w₀.Sound env)
    (made : g < w₀.created) (closed : (w₀.codex g).closed = true) :
    (w.codex g).closed = true := by
  have all : w.Sound env ∧ g < w.created ∧ (w.codex g).closed = true := by
    refine run.invariant (I := fun w => w.Sound env ∧ g < w.created ∧ (w.codex g).closed = true)
      ⟨sound, made, closed⟩ ?_
    rintro u a v - ⟨sound, made, closed⟩ taken
    obtain ⟨cause, u₀, u₁, begins, course, rfl⟩ := step_course sound taken
    have start : g < u₀.created ∧ (u₀.codex g).closed = true := by
      cases begins <;> exact ⟨made, closed⟩
    have kept := course.keeps (I := fun u => g < u.created ∧ (u.codex g).closed = true)
      (begins.sound sound) start fun _ _ _ effect kept => effect.stays_closed kept.1 kept.2
    exact ⟨course.sound.tick, kept⟩
  exact all.2.2

theorem receive_closed (closed : (w.codex g).closed = true) :
    (Codex.receive env g chunk).exec w = (.ok (), w) := by
  have same : wp (Codex.receive env g chunk) (fun _ w' => w' = w) (fun _ _ => False) w := by
    simp [Codex.receive, closed]
  obtain ⟨w', done, rfl⟩ := exec_of_wp same
  exact done

/-- A chunk is handled to its end, unless it breaks or nobody listens any more. -/
theorem receive_handled {w' : World} (done : (Codex.receive env g chunk).exec w = (.ok (), w')) :
    (w.codex g).closed = true ∨ (∃ e w₁ w₂, Codex.Breaks env g chunk w e w₁ w₂) ∨
      (Codex.drain env g (Codex.splitLines ((w.codex g).buffer ++ chunk)).1
        (Codex.splitLines ((w.codex g).buffer ++ chunk)).2).exec
        (w.buffered g ((w.codex g).buffer ++ chunk)) = (.ok (), w') := by
  by_cases closed : (w.codex g).closed = true
  · exact .inl closed
  simp only [Bool.not_eq_true] at closed
  by_cases large : 8388608 < Codex.byteLength ((w.codex g).buffer ++ chunk)
  · exact .inr (.inl ⟨_, _, _, .oversized closed large⟩)
  refine .inr ?_
  cases drained : (Codex.drain env g (Codex.splitLines ((w.codex g).buffer ++ chunk)).1
      (Codex.splitLines ((w.codex g).buffer ++ chunk)).2).exec
      (w.buffered g ((w.codex g).buffer ++ chunk)) with
  | mk outcome v =>
      cases outcome with
      | error e =>
          obtain ⟨before, text, later, w₁, lines, handled, throws⟩ := Codex.drain_throws drained
          exact .inl ⟨e, w₁, v, .thrown closed (Nat.not_lt.mp large) (Prod.ext lines rfl) handled
            throws⟩
      | ok result =>
          have same : wp (Codex.receive env g chunk) (fun _ w' => w' = v) (fun _ _ => False) w := by
            simp only [Codex.receive, wp_bind, wp_get, closed, Bool.false_eq_true, if_false,
              wp_tryCatch, modifyCodex, wp_modify, if_neg large]
            exact (wp_of_exec_ok drained).mpr rfl
          rw [(wp_of_exec_ok done).mp same]
          exact .inr rfl

end Chunk

/-- `receive` never throws, and stored records keep their schema. When a frame
throws, nothing of its open transaction is kept, the adapter is closed with empty
maps for good, and the run needs recovery unless it was settled before the frame. -/
theorem malformed_input_fails_closed {env : Env} {w : World}
    (run : Reaches (Step env) .init w) {g : Nat} {id : String}
    (listener : (w.codex g).listener = some id) (chunk : List Char) :
    ∃ w', (Codex.receive env g chunk).exec w = (.ok (), w') ∧
      (∀ id r, w'.db.runs.lookup id = some r → r.Valid) ∧ (∀ e ∈ w'.db.events, e.Valid) ∧
      (∀ id change via e v v', (M.update env id change via).exec v = (.error e, v') → v' = v) ∧
      ((w.codex g).closed = true ∨ (∃ e w₁ w₂, Codex.Breaks env g chunk w e w₁ w₂) ∨
        (Codex.drain env g (Codex.splitLines ((w.codex g).buffer ++ chunk)).1
          (Codex.splitLines ((w.codex g).buffer ++ chunk)).2).exec
          (w.buffered g ((w.codex g).buffer ++ chunk)) = (.ok (), w')) ∧
      ∀ e w₁ w₂, Codex.Breaks env g chunk w e w₁ w₂ →
        w₂.db = Db.committed w₂.log ∧ (Codex.fail env g e).exec w₂ = (.ok (), w') ∧
        (w'.codex g).closed = true ∧ (w'.codex g).pending = [] ∧ (w'.codex g).approvals = [] ∧
        (∃ r r', w₁.db.runs.lookup id = some r ∧ w'.db.runs.lookup id = some r' ∧
          (r.status.isTerminal = true → r' = r) ∧
          (r.status.isTerminal = false → r'.status = .recoveryRequired)) ∧
        ∀ v, Reaches (Step env) w'.tick v →
          ∀ more, (Codex.receive env g more).exec v = (.ok (), v) := by
  have sound := World.Sound.reached run
  have written := World.IsWritten.reached run
  have live := (sound.wired.listener g id listener).1
  obtain ⟨w', done, course⟩ := exec_of_wp (wp_receive (Course.refl sound) rfl)
  have keeps : ∀ {cause v}, Course env cause w v → v.IsWritten := fun course =>
    course.keeps sound written fun _ _ sound effect h => effect.isWritten sound h
  refine ⟨w', done, fun id r found => (course.sound.db.runs id r found).valid,
    (keeps course).2, ?_, receive_handled done, ?_⟩
  · intro id change via e v v' thrown
    have same : wp (M.update env id change via) (fun _ _ => True) (fun _ v' => v' = v) v :=
      wp_update (fun _ _ => trivial) (fun _ => rfl)
    exact (wp_of_exec_error thrown).mp same
  · intro e w₁ w₂ breaks
    have open_ : (w.codex g).closed = false := by cases breaks <;> assumption
    obtain ⟨cause, r, course₁, course₂, attached₂, found, spared⟩ :=
      breaks.contained sound ⟨live, listener, open_⟩
    have failing := breaks.receive.mpr
      (wp_fail_attached course₂.sound attached₂ (fun _ _ => False))
    obtain ⟨⟨closed, pending, approvals⟩, r₂, r', found₂, found', settled, unsettled⟩ :=
      (wp_of_exec_ok done).mp failing
    obtain ⟨r₃, found₃, same, open₃⟩ := spared
    have eq := found₂.symm.trans found₃
    cases eq
    have only : wp (Codex.fail env g e) (fun _ v => v = w') (fun _ _ => False) w₂ :=
      breaks.receive.mp ((wp_of_exec_ok done).mpr rfl)
    obtain ⟨v, last, rfl⟩ := exec_of_wp only
    refine ⟨(keeps course₂).1, last, closed, pending, approvals,
      ⟨r, r', found, found', ?_, ?_⟩, ?_⟩
    · intro terminal
      have is := same terminal
      subst is
      exact settled terminal
    · intro active
      exact unsettled (open₃ active)
    · intro u reached more
      have current := (sound.wired.started id g live).1.2
      have made : g < v.tick.created := course.keeps (I := fun v => g < v.created) sound current
        fun _ _ _ effect made => made.trans_le effect.created_le
      exact receive_closed (reached.stays_closed course.sound.tick made closed)

set_option maxRecDepth 100000 in
/-- A line that is not JSON, sent to a running turn. -/
theorem malformed_input_fails_closed_garbage : ∃ w w₁ w₂ w' e r',
    Reaches (Step (Script.env Script.approvalFrames)) .init w ∧
    Codex.Breaks (Script.env Script.approvalFrames) 0 ['x', '\n'] w e w₁ w₂ ∧
    (Codex.receive (Script.env Script.approvalFrames) 0 ['x', '\n']).exec w = (.ok (), w') ∧
    (w'.codex 0).closed = true ∧ (w'.codex 0).pending = [] ∧ (w'.codex 0).approvals = [] ∧
    w'.db.runs.lookup "uu" = some r' ∧ r'.status = .recoveryRequired := by
  obtain ⟨w, run, holds⟩ := Script.reaches Script.approvalFrames Script.bound
    (fun w => (w.codex 0).listener == some "uu" && !(w.codex 0).closed &&
      (w.codex 0).buffer.isEmpty && (Script.run w).any (·.status == .running)) (by decide +kernel)
  simp only [Bool.and_eq_true, beq_iff_eq, Bool.not_eq_true', List.isEmpty_iff] at holds
  obtain ⟨⟨⟨listener, open_⟩, buffer⟩, running⟩ := holds
  have breaks : Codex.Breaks (Script.env Script.approvalFrames) 0 ['x', '\n'] w
      (.error "Unexpected token") (w.buffered 0 ['x', '\n'])
      ((w.buffered 0 ['x', '\n']).buffered 0 []) := by
    apply Codex.Breaks.thrown open_
    · rw [buffer]
      decide
    · rw [buffer]
      exact (by decide : Codex.splitLines ['x', '\n'] = ([] ++ ['x'] :: [], []))
    · rw [buffer]
      rfl
    · unfold Codex.line
      rw [if_neg (by decide), show (Script.env Script.approvalFrames).parse (String.ofList ['x']) =
        .error "Unexpected token" from by decide +kernel]
      rfl
  obtain ⟨w', done, -, -, -, -, broken⟩ :=
    malformed_input_fails_closed run.ofNode listener ['x', '\n']
  obtain ⟨-, -, closed, pending, approvals, ⟨r, r', found, found', -, active⟩, -⟩ :=
    broken _ _ _ breaks
  obtain ⟨s, here, status⟩ := (Option.any_eq_true _ _).mp running
  have same : r = s := Option.some.inj (found.symm.trans here)
  subst same
  rw [beq_iff_eq] at status
  exact ⟨w, _, _, w', _, r', run.ofNode, breaks, done, closed, pending, approvals, found',
    active (by rw [status]; rfl)⟩

end Mathmodel
