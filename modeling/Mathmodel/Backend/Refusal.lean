import Mathmodel.Backend.Approvals
import Mathmodel.Backend.Containment

/-!
# Requests the adapter does not know

A request of the runtime whose method is not one of the two approvals has to be
refused: an error is written for its id, the connection fails, and nothing about it
reaches the service. The adapter finds the kind of an approval by a lookup in a plain
object. Such a lookup turns the method into a string, and it also finds what the
object inherits, so what is refused is decided by `plainLookup`.
-/

namespace Mathmodel

open M Program

/-- The adapter can write: a message within the limit reaches the runtime. -/
structure World.CanWrite (env : Env) (w : World) (g : Nat) : Prop where
  open_ : (w.codex g).closed = false
  running : (w.codex g).process = .running
  writable : (env.stdin g (w.codex g).sends).writable = true
  drained : (env.stdin g (w.codex g).sends).length ≤ 2097152

/-- The entry is no request for approval of the runtime, no decision written to it, and
no record made from one of its requests. -/
def Entry.Spares (g : Nat) (e : Entry) : Prop :=
  ∀ q, e.requests g q = false ∧ e.decides g q = false ∧ e.creates g q = false

/-- Between the two worlds the request with the id was refused, for good: the error is
written, with the id for whoever reads it, the connection fails, and no approval is
emitted, kept, answered or recorded, in this section or in any later run of the service. -/
structure Refused (env : Env) (g : Nat) (id : Json) (w w' : World) : Prop where
  addressed : (Outbound.unsupported id).toJson.stored.get "id" = some id
  written : ∃ newer, w'.log = newer ++ .wrote g (.unsupported id) :: w.log ∧
    ∀ e ∈ newer, e.Spares g
  failed : (w'.codex g).closed = true
  forgotten : (w'.codex g).approvals = []
  never : ∀ v, Reaches (Step env) w'.tick v →
    ∃ newer, v.log = newer ++ w'.log ∧ ∀ e ∈ newer, e.Spares g

/-- The id of a refusal is read back if it has no infinite number in it. -/
theorem addressed_iff (id : Json) :
    (Outbound.unsupported id).toJson.stored.get "id" = some id ↔ id.isFinite = true := by
  rw [Json.get_stored, ← Json.stored_eq_self]
  exact Option.some_inj

/-- A chunk makes `receive` come to a line, with the world before the line. -/
structure Codex.ComesTo (env : Env) (g : Nat) (chunk : List Char) (w : World) (text : List Char)
    (later : List (List Char)) (rest : List Char) (w₁ : World) : Prop where
  open_ : (w.codex g).closed = false
  fits : byteLength ((w.codex g).buffer ++ chunk) ≤ 8388608
  handled : ∃ done, splitLines ((w.codex g).buffer ++ chunk) = (done ++ text :: later, rest) ∧
    (drain env g done (unlines (text :: later) rest)).exec
      (w.buffered g ((w.codex g).buffer ++ chunk)) = (.ok (), w₁)

section Silence

variable {env : Env} {cause : Cause} {w w' v : World} {g : Nat}

/-- A closed runtime is not heard any more. -/
theorem Effect.spares (sound : w.Sound env) (effect : Effect env cause w w')
    (made : g < w.created) (closed : (w.codex g).closed = true) :
    ∃ entries, w'.log = entries ++ w.log ∧ ∀ e ∈ entries, e.Spares g := by
  have closed' := (effect.stays_closed made closed).2
  have empty' := (effect.sound sound).wired.closed g closed'
  cases effect.calm sound with
  | neither entries log calm approvals =>
      exact ⟨entries, log, fun e mem q => Entry.isCalm.quiet (calm e mem) g q⟩
  | @requested h key unlisted result =>
      have other : h ≠ g := by
        rintro rfl
        have empty := empty'.2
        rw [result, World.note, World.setCodex_self] at empty
        exact List.append_ne_nil_of_right_ne_nil _ (List.cons_ne_nil _ _) empty
      refine ⟨[.requested h key], by rw [result]; rfl, ?_⟩
      intro e mem q
      obtain rfl := List.mem_singleton.mp mem
      simp [Entry.requests, Entry.decides, Entry.creates, other]
  | @asked h k frame id kind requestId details value r₁ r₂ db₁ db₂ unlisted current binds writes
      result =>
      have other : h ≠ g := by
        rintro rfl
        have empty := empty'.2
        rw [result] at empty
        change ((w.note h (.ofJson frame requestId)).codex h).approvals = [] at empty
        rw [World.note, World.setCodex_self] at empty
        exact List.append_ne_nil_of_right_ne_nil _ (List.cons_ne_nil _ _) empty
      refine ⟨[_, _, _], by rw [result]; rfl, ?_⟩
      intro e mem q
      simp only [List.mem_cons, List.not_mem_nil, or_false] at mem
      rcases mem with rfl | rfl | rfl <;>
        simp [Entry.requests, Entry.decides, Entry.creates, other]
  | @answered h key decision listed accepted result =>
      have other : h ≠ g := by
        rintro rfl
        rw [(sound.wired.closed h closed).2] at listed
        cases listed
      refine ⟨[.wrote h (.decision key decision)], by rw [result]; rfl, ?_⟩
      intro e mem q
      obtain rfl := List.mem_singleton.mp mem
      simp [Entry.requests, Entry.decides, Entry.creates, other]

/-- Nothing of a closed runtime is heard in a later run. -/
theorem Reaches.spares (run : Reaches (Step env) w v) (sound : w.Sound env)
    (made : g < w.created) (closed : (w.codex g).closed = true) :
    ∃ newer, v.log = newer ++ w.log ∧ ∀ e ∈ newer, e.Spares g := by
  let Silent (u : World) : Prop := ∃ newer, u.log = newer ++ w.log ∧ ∀ e ∈ newer, e.Spares g
  have all : v.Sound env ∧ g < v.created ∧ (v.codex g).closed = true ∧ Silent v := by
    refine run.invariant (I := fun u => u.Sound env ∧ g < u.created ∧
      (u.codex g).closed = true ∧ Silent u) ⟨sound, made, closed, [], rfl, nofun⟩ ?_
    rintro u a u' - ⟨sound, made, closed, silent⟩ taken
    obtain ⟨cause, u₀, u₁, begins, course, rfl⟩ := step_course sound taken
    have start : g < u₀.created ∧ (u₀.codex g).closed = true ∧ Silent u₀ := by
      cases begins <;> exact ⟨made, closed, silent⟩
    have kept := course.keeps (I := fun u => g < u.created ∧ (u.codex g).closed = true ∧ Silent u)
      (begins.sound sound) start ?_
    · exact ⟨course.sound.tick, kept⟩
    · rintro t t' sound effect ⟨made, closed, newer, log, spares⟩
      obtain ⟨made', closed'⟩ := effect.stays_closed made closed
      obtain ⟨entries, log', spares'⟩ := effect.spares sound made closed
      refine ⟨made', closed', entries ++ newer, by rw [log', log, List.append_assoc], ?_⟩
      intro e mem
      exact (List.mem_append.mp mem).elim (spares' e) (spares e)
  exact all.2.2.2

end Silence

section Frame

variable {env : Env} {cause : Cause} {w w₁ : World} {g : Nat} {chunk text rest : List Char}
  {later : List (List Char)} {id method : Json} {fields : List (String × Json)}

/-- From the line on, `receive` is the line, the loop over the later lines, and `fail`
with what they throw. -/
theorem Codex.ComesTo.receive (comes : Codex.ComesTo env g chunk w text later rest w₁)
    {post : Unit → World → Prop} {failed : Err → World → Prop} :
    wp (Codex.receive env g chunk) post failed w ↔
      wp (Codex.line env g text)
        (fun _ => wp (Codex.drain env g later rest) post
          fun e => wp (Codex.fail env g e) post failed)
        (fun e => wp (Codex.fail env g e) post failed)
        (w₁.buffered g (Codex.unlines later rest)) := by
  obtain ⟨open_, fits, done, lines, handled⟩ := comes
  simp only [Codex.receive, wp_bind, wp_get, open_, Bool.false_eq_true, if_false, wp_tryCatch,
    modifyCodex, wp_modify, if_neg (Nat.not_lt.mpr fits), lines, Codex.wp_drain_append]
  refine (wp_of_exec_ok handled).trans ?_
  simp only [Codex.drain, wp_bind, modifyCodex, wp_modify]
  exact Iff.rfl

/-- What a failing connection adds to the log. -/
theorem wp_fail_log (sound : w.Sound env) (e : Err) (failed : Err → World → Prop) :
    wp (Codex.fail env g e)
      (fun _ v => ((v.codex g).closed = true ∧ (v.codex g).approvals = []) ∧
        ∃ newer, v.log = newer ++ w.log ∧
          ∀ e ∈ newer, e.Spares g ∧ ∀ message, e ≠ .wrote g message) failed w := by
  have gone : ∀ v : World, v.codex = (w.shut g e).codex →
      (v.codex g).closed = true ∧ (v.codex g).approvals = [] := by
    intro v codex
    rw [codex, World.shut]
    simp
  simp only [Codex.fail, wp_bind, wp_get, wp_ite, wp_pure, modifyCodex, wp_modify]
  refine ⟨fun closed => ⟨⟨closed, (sound.wired.closed g closed).2⟩, [], rfl, (by rintro _ ⟨⟩)⟩,
    fun _ => ?_⟩
  cases listener : (w.codex g).listener with
  | none => exact ⟨gone _ rfl, [], rfl, (by rintro _ ⟨⟩)⟩
  | some id =>
      simp only [Service.onFault, wp_bind, wp_get, wp_ite, wp_pure, background, M.push]
      have live := (sound.wired.listener g id listener).1
      refine ⟨fun _ => ?_, fun other => absurd live other⟩
      obtain ⟨-, r, found, started⟩ := sound.wired.started id g live
      refine wp_uncertain (w := w.shut g e) (sound.shut g e) found started ?_
      intro v uncertain
      refine ⟨gone _ uncertain.frame.1, ?_⟩
      cases uncertain with
      | settled found status => exact ⟨[], rfl, (by rintro _ ⟨⟩)⟩
      | marked status started writes =>
          refine ⟨[_], rfl, ?_⟩
          intro e mem
          obtain rfl := List.mem_singleton.mp mem
          exact ⟨fun q => Entry.isCalm.quiet rfl g q, (by rintro _ ⟨⟩)⟩

/-- The request of a line, as `message` gets it. -/
theorem wp_line_request (content : text.all Codex.isSpace = false)
    (parsed : env.parse (String.ofList text) = .ok (.obj fields))
    (named : fields.lookup "id" = some id) (asks : fields.lookup "method" = some method)
    (truthy : Json.truthy (some method) = true) {post : Unit → World → Prop}
    {failed : Err → World → Prop} :
    wp (Codex.line env g text) post failed w ↔
      wp (Codex.serverRequest env g id method (fields.lookup "params")) post failed
        (w.setCodex g fun c => { c with frames := c.frames + 1 }) := by
  rw [Codex.line, if_neg (by simp [content]), parsed]
  simp only [Codex.message, wp_bind, modifyCodex, wp_modify, named, asks, truthy, if_true]

/-- The log goes on after the entries. -/
def World.Logs (entries : List Entry) (w : World) : Prop := ∃ newer, w.log = newer ++ entries

variable {entries : List Entry}

theorem logs_record (e : Entry) : Keeps (World.Logs entries) (record e) := by
  refine Keeps.modify ?_
  rintro w ⟨newer, log⟩
  exact ⟨e :: newer, congrArg (List.cons e) log⟩

theorem logs_modifyCodex (f : Codex → Codex) :
    Keeps (World.Logs entries) (modifyCodex g f) := Keeps.modify fun _ h => h

theorem logs_update (run : String) (change : Change) (via : Via) :
    Keeps (World.Logs entries) (M.update env run change via) := by
  rintro w ⟨newer, log⟩
  exact wp_update (fun db _ => ⟨_ :: newer, congrArg (List.cons _) log⟩) fun _ => ⟨newer, log⟩

theorem logs_respond (key : MapKey) (decision : Decision) :
    Keeps (World.Logs entries) (Codex.respond env g key decision) := by
  refine .bind .get fun w => .ite (fun _ => .throw _) fun _ => .bind ?_ fun _ =>
    logs_modifyCodex _
  refine .bind .get fun w => .bind (logs_modifyCodex _) fun _ => ?_
  exact .ite (fun _ => .throw _) fun _ => .ite (fun _ => .throw _) fun _ => logs_record _

theorem logs_approval (run : String) (kind : Lookup ApprovalKind) (key : MapKey)
    (params : Option Json) :
    Keeps (World.Logs entries) (Service.approval env run g kind key params) := by
  refine .bind .get fun w => .bind (.bind .get fun w => .lift _) fun r => ?_
  refine .ite (fun _ => logs_respond _ _) fun _ => ?_
  refine .bind (.lift _) fun turn => .bind (logs_update _ _ _) fun _ => .bind (.lift _) fun a => ?_
  exact .bind (.bind .get fun w => .bind (.modify fun _ h => h) fun _ => .pure _) fun _ =>
    logs_update _ _ _

/-- An unsupported request is refused by an exception. -/
theorem wp_refused (writes : w.CanWrite env g)
    (unsupported : plainLookup approvalKinds (some method) = .ok .missing)
    (fits : (Outbound.unsupported id).size ≤ 2097152) (params : Option Json) :
    wp (Codex.serverRequest env g id method params) (fun _ _ => False)
      (fun _ v => v.log = .wrote g (.unsupported id) :: w.log) w := by
  have usable : ¬ ((w.codex g).closed = true ∨ (w.codex g).process ≠ .running ∨
      (env.stdin g (w.codex g).sends).writable = false) := by
    simp [writes.open_, writes.running, writes.writable]
  have within : ¬ (2097152 < (Outbound.unsupported id).size ∨
      2097152 < (env.stdin g (w.codex g).sends).length) := by
    have := writes.drained
    omega
  simp only [Codex.serverRequest, unsupported, wp_bind, wp_lift_ok, Codex.send, wp_get,
    modifyCodex, wp_modify, if_neg usable, if_neg within, record]
  exact wp_lift_of (fun _ _ => rfl) fun _ _ => rfl

/-- Any other request is announced to the listeners, or is not answered. -/
theorem wp_not_refused (other : ¬ (plainLookup approvalKinds (some method) = .ok .missing ∧
      (Outbound.unsupported id).size ≤ 2097152)) (params : Option Json) :
    wp (Codex.serverRequest env g id method params)
      (fun _ v => ∃ key, v.Logs (.requested g key :: w.log))
      (fun _ v => v.log = w.log ∨ ∃ key, v.Logs (.requested g key :: w.log)) w := by
  refine wp_serverRequest (fun kind _ _ => ?_) (fun unknown => ?_) (fun _ => .inl rfl)
  · unfold Codex.announce
    simp only [wp_bind, wp_get, wp_ite, wp_throw, modifyCodex, wp_modify, record]
    refine ⟨fun _ => .inl trivial, fun _ => ?_⟩
    have begun : ∀ v : World, v.log = .requested g (MapKey.ofJson (w.codex g).frames id) :: w.log →
        v.Logs (.requested g (MapKey.ofJson (w.codex g).frames id) :: w.log) :=
      fun v log => ⟨[], log⟩
    cases (w.codex g).listener with
    | none => exact ⟨_, begun _ rfl⟩
    | some run =>
        exact wp_mono (logs_approval run kind _ params _ (begun _ rfl)) (fun _ _ h => ⟨_, h⟩)
          fun _ _ h => .inr ⟨_, h⟩
  · have large : ¬ (Outbound.unsupported id).size ≤ 2097152 := fun fits => other ⟨unknown, fits⟩
    simp only [wp_bind, Codex.send, wp_get, modifyCodex, wp_modify, wp_ite, wp_throw]
    refine ⟨fun _ => .inl rfl, fun _ => ⟨fun _ => .inl rfl, fun within => ?_⟩⟩
    exact absurd (.inl (Nat.not_le.mp large)) within

end Frame

section Requests

variable {env : Env} {w w₁ w' : World} {g : Nat} {chunk text rest : List Char}
  {later : List (List Char)} {id method : Json} {fields : List (String × Json)}

/-- A line of a reachable world is a course of effects. -/
theorem Codex.ComesTo.course (comes : Codex.ComesTo env g chunk w text later rest w₁)
    (sound : w.Sound env) :
    ∃ cause, Course env cause w (w₁.buffered g (Codex.unlines later rest)) ∧
      wp (Codex.line env g text)
        (fun _ v => Course env cause w v ∧ (v.codex g).closed = false)
        (fun _ => Course env cause w) (w₁.buffered g (Codex.unlines later rest)) ∧
      ∀ v, Course env cause w v → (v.codex g).closed = false →
        wp (Codex.drain env g later rest) (fun _ => Course env cause v)
          (fun _ => Course env cause v) v := by
  obtain ⟨open_, fits, done, lines, handled⟩ := comes
  have delivers : ∀ part, (∀ line ∈ part, line ∈ done ++ text :: later) →
      ∀ m ∈ Codex.framesOf env part,
        (Cause.received g (Codex.incoming env (w.codex g) chunk)).Delivers g m := by
    intro part sub m member
    refine ⟨_, rfl, ?_⟩
    obtain ⟨line, listed, frame⟩ := List.mem_filterMap.mp member
    rw [Codex.incoming, lines]
    exact List.mem_filterMap.mpr ⟨line, sub line listed, frame⟩
  have buffered : ∀ {v} buffer,
      Course env (.received g (Codex.incoming env (w.codex g) chunk)) w v →
      Course env (.received g (Codex.incoming env (w.codex g) chunk)) w (v.buffered g buffer) :=
    fun buffer h => h.step (.quiet (World.buffered_quiet _ g buffer))
  obtain ⟨course, opened⟩ := (wp_of_exec_ok handled).mp (handled_drain
    (buffered ((w.codex g).buffer ++ chunk) (Course.refl sound))
    (delivers done fun line listed => List.mem_append_left _ listed)
    (by simpa [World.buffered] using open_))
  refine ⟨_, buffered _ course, ?_, ?_⟩
  · have one : Handled env _ w g (Codex.drain env g [text] (Codex.unlines later rest)) w₁ :=
      handled_drain course (delivers [text] (by simp)) opened
    simp only [Handled, Codex.drain, wp_bind, modifyCodex, wp_modify] at one
    exact one
  · intro v course opened
    refine wp_mono (handled_drain (Course.refl course.sound) (delivers later ?_) opened)
      (fun _ _ h => h.1) fun _ _ h => h
    exact fun line listed => List.mem_append_right _ (List.mem_cons_of_mem _ listed)

/-- The log of a course goes on. -/
theorem Course.logs {cause : Cause} {v : World} {entries : List Entry}
    (course : Course env cause w v) (sound : w.Sound env) (start : w.Logs entries) :
    v.Logs entries := by
  refine course.keeps sound start ?_
  rintro t t' sound effect ⟨newer, log⟩
  obtain ⟨more, log'⟩ : ∃ more, t'.log = more ++ t.log := by
    cases effect.calm sound with
    | neither more log' => exact ⟨more, log'⟩
    | requested unlisted result => exact ⟨[_], by rw [result]; rfl⟩
    | asked unlisted current binds writes result => exact ⟨[_, _, _], by rw [result]; rfl⟩
    | answered listed accepted result => exact ⟨[_], by rw [result]; rfl⟩
  exact ⟨more ++ newer, by rw [log', log, List.append_assoc]⟩

/-- After a request was announced it was not refused. -/
theorem World.Logs.not_refused {v v' : World} {key : MapKey}
    (logs : v'.Logs (.requested g key :: v.log)) : ¬ Refused env g id v v' := by
  rintro ⟨-, ⟨newer, log, spares⟩, -⟩
  obtain ⟨more, log'⟩ := logs
  have same : newer ++ [.wrote g (.unsupported id)] ++ v.log =
      more ++ [.requested g key] ++ v.log := by
    rw [List.append_assoc, List.append_assoc]
    exact log.symm.trans log'
  have last := List.append_cancel_right same
  have heads := (List.append_inj' last rfl).2
  exact nomatch (List.cons.inj heads).1

/-- A line without effect on the log before the connection failed was not refused. -/
theorem not_refused_of_silent {v v' : World} {newer : List Entry} (log : v'.log = newer ++ v.log)
    (silent : ∀ e ∈ newer, ∀ message, e ≠ .wrote g message) : ¬ Refused env g id v v' := by
  rintro ⟨-, ⟨newer', log', -⟩, -⟩
  have same : newer' ++ [.wrote g (.unsupported id)] ++ v.log = newer ++ v.log := by
    rw [List.append_assoc]
    exact log'.symm.trans log
  have parts := List.append_cancel_right same
  exact silent (.wrote g (.unsupported id)) (parts ▸ List.mem_append_right _ List.mem_cons_self)
    _ rfl

/-- Another request is announced to the listeners, or dropped without an answer. -/
theorem not_refused_of_other (sound : w.Sound env)
    (comes : Codex.ComesTo env g chunk w text later rest w₁)
    (content : text.all Codex.isSpace = false)
    (parsed : env.parse (String.ofList text) = .ok (.obj fields))
    (named : fields.lookup "id" = some id) (asks : fields.lookup "method" = some method)
    (truthy : Json.truthy (some method) = true)
    (done : (Codex.receive env g chunk).exec w = (.ok (), w'))
    (other : ¬ (plainLookup approvalKinds (some method) = .ok .missing ∧
      (Outbound.unsupported id).size ≤ 2097152)) : ¬ Refused env g id w₁ w' := by
  intro refused
  obtain ⟨cause, before, course, onward⟩ := comes.course sound
  have request := (wp_line_request (g := g) (w := w₁.buffered g (Codex.unlines later rest))
    content parsed named asks truthy).mpr (wp_not_refused other (fields.lookup "params"))
  suffices wp (Codex.receive env g chunk) (fun _ v => ¬ Refused env g id w₁ v)
      (fun _ _ => True) w from (wp_of_exec_ok done).mp this refused
  have failing : ∀ e (v : World), v.Sound env →
      (v.log = w₁.log ∨ ∃ key, v.Logs (.requested g key :: w₁.log)) →
      wp (Codex.fail env g e) (fun _ v => ¬ Refused env g id w₁ v) (fun _ _ => True) v := by
    intro e v sound logs
    refine wp_mono (wp_fail_log sound e fun _ _ => True) ?_ fun _ _ h => h
    rintro - u ⟨-, newer, log, quiet⟩
    obtain same | ⟨key, more, log'⟩ := logs
    · rw [same] at log
      exact not_refused_of_silent log fun e mem => (quiet e mem).2
    · exact World.Logs.not_refused ⟨newer ++ more, by rw [log, log', List.append_assoc]⟩
  refine comes.receive.mpr (wp_mono (wp_and course request) ?_
    fun e v both => failing e v both.1.sound both.2)
  rintro - v ⟨⟨reached, opened⟩, key, logs⟩
  have kept : ∀ u, Course env cause v u → u.Logs (.requested g key :: w₁.log) :=
    fun u on => on.logs reached.sound logs
  exact wp_mono (onward v reached opened) (fun _ u on => (kept u on).not_refused)
    fun e u on => failing e u on.sound (.inr ⟨key, kept u on⟩)

theorem refused_of_missing (sound : w.Sound env)
    (comes : Codex.ComesTo env g chunk w text later rest w₁)
    (content : text.all Codex.isSpace = false)
    (parsed : env.parse (String.ofList text) = .ok (.obj fields))
    (named : fields.lookup "id" = some id) (asks : fields.lookup "method" = some method)
    (truthy : Json.truthy (some method) = true) (writes : w₁.CanWrite env g)
    (done : (Codex.receive env g chunk).exec w = (.ok (), w'))
    (unsupported : plainLookup approvalKinds (some method) = .ok .missing)
    (fits : (Outbound.unsupported id).size ≤ 2097152) (finite : id.isFinite = true) :
    Refused env g id w₁ w' := by
  obtain ⟨cause, before, course, -⟩ := comes.course sound
  have receives : wp (Codex.receive env g chunk) (fun _ => Course env _ w) (fun _ _ => False) w :=
    wp_receive (Course.refl sound) rfl
  obtain ⟨v, received, whole⟩ := exec_of_wp receives
  obtain rfl : v = w' := (Prod.mk.inj (received.symm.trans done)).2
  obtain ⟨run, live⟩ := sound.wired.connected g comes.open_
  have made : g < v.created := whole.keeps (I := fun v => g < v.created) sound
    (sound.wired.started run g live).1.2 fun _ _ _ effect made => made.trans_le effect.created_le
  have usable : ((w₁.buffered g (Codex.unlines later rest)).setCodex g
      fun c => { c with frames := c.frames + 1 }).CanWrite env g := by
    obtain ⟨open_, running, writable, drained⟩ := writes
    constructor <;> simpa [World.buffered]
  have request := (wp_line_request (w := w₁.buffered g (Codex.unlines later rest)) content parsed
    named asks truthy).mpr (wp_refused usable unsupported fits (fields.lookup "params"))
  suffices wp (Codex.receive env g chunk)
      (fun _ v => v.Sound env → g < v.created → Refused env g id w₁ v) (fun _ _ => True) w from
    (wp_of_exec_ok done).mp this whole.sound made
  refine comes.receive.mpr (wp_mono (wp_and course request) (fun _ _ both => both.2.elim) ?_)
  rintro e u ⟨reached, log⟩
  refine wp_mono (wp_fail_log reached.sound e fun _ _ => True) ?_ fun _ _ h => h
  rintro - t ⟨⟨closed, empty⟩, newer, log', quiet⟩ sound made
  refine ⟨(addressed_iff id).mpr finite,
    ⟨newer, by rw [log', log]; rfl, fun e mem => (quiet e mem).1⟩, closed, empty, ?_⟩
  exact fun v run => run.spares sound.tick made closed

/-- A request of the runtime is refused exactly if its method converts to a string that
names neither a kind of approval nor a member of `Object.prototype`, the refusal is not
too long to be written, and no number in the id is infinite. -/
theorem unsupported_refused_iff (run : Reaches (Step env) .init w)
    (comes : Codex.ComesTo env g chunk w text later rest w₁)
    (content : text.all Codex.isSpace = false)
    (parsed : env.parse (String.ofList text) = .ok (.obj fields))
    (named : fields.lookup "id" = some id) (asks : fields.lookup "method" = some method)
    (truthy : Json.truthy (some method) = true) (writes : w₁.CanWrite env g)
    (done : (Codex.receive env g chunk).exec w = (.ok (), w')) :
    Refused env g id w₁ w' ↔
      plainLookup approvalKinds (some method) = .ok .missing ∧
        (Outbound.unsupported id).size ≤ 2097152 ∧ id.isFinite = true := by
  have sound := World.Sound.reached run
  constructor
  · intro refused
    have finite := (addressed_iff id).mp refused.addressed
    by_contra other
    refine not_refused_of_other sound comes content parsed named asks truthy done ?_ refused
    exact fun both => other ⟨both.1, both.2, finite⟩
  · rintro ⟨unsupported, fits, finite⟩
    exact refused_of_missing sound comes content parsed named asks truthy writes done unsupported
      fits finite

end Requests

namespace Script

/-- A request of the runtime, under request id 7. -/
def asking (method : String) : Json := .obj
  [("id", .num (.ofNat 7)), ("method", .str method),
    ("params", .obj [("threadId", .str "t1"), ("turnId", .str "u1")])]

/-- Frames up to a request with the method. -/
def askingFrames (method : String) : List Json :=
  [initialized, threadStarted, turnStarted, asking method]

/-- The script can come to a request of the runtime while the turn runs. -/
theorem comesTo_asking {method : String} {w : World}
    (split : Codex.splitLines (lines [asking method]) = ([(asking method).write id], []))
    (fits : Codex.byteLength (lines [asking method]) ≤ 8388608)
    (open_ : (w.codex 0).closed = false) (running : (w.codex 0).process = .running)
    (buffer : (w.codex 0).buffer = []) :
    ∃ w₁, Codex.ComesTo (env (askingFrames method)) 0 (lines [asking method]) w
      ((asking method).write id) [] [] w₁ ∧ w₁.CanWrite (env (askingFrames method)) 0 := by
  refine ⟨w.buffered 0 (lines [asking method]), ⟨open_, ?_, [], ?_, ?_⟩, ?_⟩
  · rw [buffer]
    exact fits
  · rw [buffer]
    exact split
  · rw [buffer]
    rfl
  · constructor
    · simpa [World.buffered] using open_
    · simpa [World.buffered] using running
    · rfl
    · exact Nat.zero_le _

end Script

set_option maxRecDepth 100000 in
/-- A question to the user is refused. -/
theorem unsupported_refused_question : ∃ w w₁ w',
    Reaches (Step (Script.env (Script.askingFrames "item/tool/requestUserInput"))) .init w ∧
    (Codex.receive (Script.env (Script.askingFrames "item/tool/requestUserInput")) 0
      (Script.lines [Script.asking "item/tool/requestUserInput"])).exec w = (.ok (), w') ∧
    Refused (Script.env (Script.askingFrames "item/tool/requestUserInput")) 0 (.num (.ofNat 7))
      w₁ w' := by
  obtain ⟨w, run, holds⟩ := Script.reaches (Script.askingFrames "item/tool/requestUserInput")
    Script.bound (fun w => !(w.codex 0).closed && decide ((w.codex 0).process = .running) &&
      (w.codex 0).buffer.isEmpty) (by decide +kernel)
  simp only [Bool.and_eq_true, Bool.not_eq_true', decide_eq_true_eq, List.isEmpty_iff] at holds
  obtain ⟨⟨open_, running⟩, buffer⟩ := holds
  have parsed : (Script.env (Script.askingFrames "item/tool/requestUserInput")).parse
      (String.ofList ((Script.asking "item/tool/requestUserInput").write id)) =
        .ok (Script.asking "item/tool/requestUserInput") := by decide +kernel
  have split : Codex.splitLines (Script.lines [Script.asking "item/tool/requestUserInput"]) =
      ([(Script.asking "item/tool/requestUserInput").write id], []) := by decide +kernel
  obtain ⟨w₁, comes, writes⟩ := Script.comesTo_asking split (by decide +kernel) open_ running buffer
  obtain ⟨w', done, -⟩ := exec_of_wp (wp_receive
    (Course.refl (World.Sound.reached run.ofNode)) rfl)
  refine ⟨w, w₁, w', run.ofNode, done, ?_⟩
  exact (unsupported_refused_iff run.ofNode comes (by decide +kernel) parsed rfl rfl rfl writes
    done).mpr ⟨by decide +kernel, by decide +kernel, rfl⟩

set_option maxRecDepth 100000 in
/-- A request for `constructor` is taken for an approval. -/
theorem constructor_not_refused : ∃ w w₁ w',
    Reaches (Step (Script.env (Script.askingFrames "constructor"))) .init w ∧
    Codex.ComesTo (Script.env (Script.askingFrames "constructor")) 0
      (Script.lines [Script.asking "constructor"]) w ((Script.asking "constructor").write id)
      [] [] w₁ ∧
    w₁.CanWrite (Script.env (Script.askingFrames "constructor")) 0 ∧
    (Script.env (Script.askingFrames "constructor")).parse
      (String.ofList ((Script.asking "constructor").write id)) =
        .ok (Script.asking "constructor") ∧
    (Codex.receive (Script.env (Script.askingFrames "constructor")) 0
      (Script.lines [Script.asking "constructor"])).exec w = (.ok (), w') ∧
    ¬ Refused (Script.env (Script.askingFrames "constructor")) 0 (.num (.ofNat 7)) w₁ w' := by
  obtain ⟨w, run, holds⟩ := Script.reaches (Script.askingFrames "constructor")
    Script.bound (fun w => !(w.codex 0).closed && decide ((w.codex 0).process = .running) &&
      (w.codex 0).buffer.isEmpty) (by decide +kernel)
  simp only [Bool.and_eq_true, Bool.not_eq_true', decide_eq_true_eq, List.isEmpty_iff] at holds
  obtain ⟨⟨open_, running⟩, buffer⟩ := holds
  have parsed : (Script.env (Script.askingFrames "constructor")).parse
      (String.ofList ((Script.asking "constructor").write id)) =
        .ok (Script.asking "constructor") := by decide +kernel
  have split : Codex.splitLines (Script.lines [Script.asking "constructor"]) =
      ([(Script.asking "constructor").write id], []) := by decide +kernel
  obtain ⟨w₁, comes, writes⟩ := Script.comesTo_asking split (by decide +kernel) open_ running buffer
  have sound := World.Sound.reached run.ofNode
  obtain ⟨w', done, -⟩ := exec_of_wp (wp_receive (Course.refl sound) rfl)
  refine ⟨w, w₁, w', run.ofNode, comes, writes, parsed, done, ?_⟩
  exact not_refused_of_other sound comes (by decide +kernel) parsed rfl rfl rfl done
    (fun both => absurd both.1 (by decide +kernel))

end Mathmodel
