import Mathmodel.Backend.Correlation
import Mathmodel.Library.Commuting

/-!
# Frames and chunks

The runtime writes a stream of characters; the adapter receives it in chunks that
the operating system cuts anywhere. `receive` keeps the open line of a chunk for the
next one. Here the listeners of the adapter are a function, so that what `receive`
does is one, and the calls of a whole stream are compared with the handling of its
lines, which does not know the chunks.

The size test of `receive` looks at the open line and the chunk together, before
complete lines are taken out. So whether it fires is a matter of the chunks, not of
the lines.
-/

namespace Mathmodel

open Program

namespace Adapter

/-- The listeners of an adapter, with the state they keep. They answer and issue
requests, do not close the connection and do not see the buffer. -/
structure Listener (host : Host) (σ : Type) where
  hear : Signal → Adapter → σ → Except Err Unit × Adapter × σ
  allowed : ∀ signal a s, Listens host a (hear signal a s).1 (hear signal a s).2.1
  blind : ∀ signal a s t, hear signal { a with buffer := t } s =
    ((hear signal a s).1, { (hear signal a s).2.1 with buffer := t }, (hear signal a s).2.2)

section Receive

variable {host : Host} {σ : Type} (l : Listener host σ)

/-- The signal of a section reaches the listeners. -/
def emit (signal : Option Signal) (a : Adapter) (s : σ) : Except Err Unit × Adapter × σ :=
  match signal with
  | none => (.ok (), a, s)
  | some signal => l.hear signal a s

/-- A section with what its signal makes the listeners do. -/
def heard (x : A (Option Signal)) (a : Adapter) (s : σ) : Except Err Unit × Adapter × σ :=
  match x.exec a with
  | (.ok signal, b) => emit l signal b s
  | (.error e, b) => (.error e, b, s)

/-- The values that a line makes `receive` pass to `message`. -/
def value (host : Host) (text : List Char) : List Json :=
  framesOf host [text]

/-- What has been passed to `message`, what was thrown, and the state left. -/
structure Handling (σ : Type) where
  passed : List Json
  thrown : Option Err
  state : Adapter × σ

/-- The loop of `receive` over the complete lines of the buffer. -/
def drain : List (List Char) → List Char → Adapter → σ → Handling σ
  | [], _, a, s => ⟨[], none, a, s⟩
  | text :: lines, rest, a, s =>
      match heard l (line host text) { a with buffer := Codex.unlines lines rest } s with
      | (.error e, b, t) => ⟨value host text, some e, b, t⟩
      | (.ok (), b, t) =>
          let later := drain lines rest b t
          { later with passed := value host text ++ later.passed }

/-- How a call of `receive` ends: on a closed connection, in the size test, with an
exception of a line, or with all complete lines handled. -/
inductive Outcome where
  | ignored
  | limit
  | failed
  | drained
  deriving DecidableEq

structure Reception (σ : Type) where
  passed : List Json
  outcome : Outcome
  state : Adapter × σ

def receive (chunk : List Char) (a : Adapter) (s : σ) : Reception σ :=
  if a.closed then ⟨[], .ignored, a, s⟩
  else
    let buffer := a.buffer ++ chunk
    let a := { a with buffer := buffer }
    if 8388608 < Codex.byteLength buffer then
      ⟨[], .limit, (heard l (fail (.error "Codex frame limit exceeded")) a s).2⟩
    else
      let (lines, rest) := Codex.splitLines buffer
      let loop := drain l lines rest a s
      match loop.thrown with
      | none => ⟨loop.passed, .drained, loop.state⟩
      | some e => ⟨loop.passed, .failed, (heard l (fail e) loop.state.1 loop.state.2).2⟩

/-- What the calls of `receive` for a sequence of chunks pass, how they end, and the
state they leave. -/
structure Stream (σ : Type) where
  passed : List Json
  outcomes : List Outcome
  state : Adapter × σ

def receiveAll : List (List Char) → Adapter → σ → Stream σ
  | [], a, s => ⟨[], [], a, s⟩
  | chunk :: chunks, a, s =>
      let first := receive l chunk a s
      let later := receiveAll chunks first.state.1 first.state.2
      ⟨first.passed ++ later.passed, first.outcome :: later.outcomes, later.state⟩

/-- The lines of a stream handled one after the other, up to the first that throws. -/
def handleLines : List (List Char) → Adapter → σ → Handling σ
  | [], a, s => ⟨[], none, a, s⟩
  | text :: lines, a, s =>
      match heard l (line host text) a s with
      | (.error e, b, t) => ⟨value host text, some e, b, t⟩
      | (.ok (), b, t) =>
          let later := handleLines lines b t
          { later with passed := value host text ++ later.passed }

end Receive

section Methods

variable {host : Host}

/-- The buffer replaced. -/
def withBuffer (t : List Char) (a : Adapter) : Adapter := { a with buffer := t }

/-- The section does not see the buffer and leaves the connection open or closed. -/
abbrev Bufferless {α : Type} (x : A α) : Prop :=
  ∀ t c, Blind (withBuffer t) (fun a => a.closed = c) x

theorem bufferless_note (n : Note) : Bufferless (note n) :=
  fun _ _ => .modify (fun _ => rfl) fun _ h => h

theorem bufferless_send (line : Line) : Bufferless (send host line) := by
  intro t c
  refine .get_bind (fun _ => rfl) fun a => .bind (.modify (fun _ => rfl) fun _ h => h) fun _ => ?_
  exact .ite (.throw _) (.ite (.throw _) (bufferless_note _ t c))

theorem bufferless_respond (key : MapKey) (decision : String) :
    Bufferless (respond host key decision) := by
  intro t c
  refine .get_bind (fun _ => rfl) fun a => .ite (.throw _) ?_
  exact .bind (bufferless_send _ t c) fun _ => .bind (.modify (fun _ => rfl) fun _ h => h) fun _ =>
    bufferless_note _ t c

theorem bufferless_serverRequest (id method : Json) (params : Option Json) :
    Bufferless (serverRequest host id method params) := by
  intro t c
  refine .bind (.lift _) fun kind => ?_
  cases kind with
  | missing => exact .bind (bufferless_send _ t c) fun _ => .bind (.lift _) fun _ => .throw _
  | own | inherited =>
      refine .get_bind (fun _ => rfl) fun a => .ite (.throw _) ?_
      exact .bind (.modify (fun _ => rfl) fun _ h => h) fun _ =>
        .bind (bufferless_note _ t c) fun _ => .bind (bufferless_note _ t c) fun _ => .pure _

theorem bufferless_response (id : Json) (fields : List (String × Json)) :
    Bufferless (response id fields) := by
  intro t c
  refine .get_bind (fun _ => rfl) fun a => ?_
  split
  · exact .throw _
  · refine .bind (.modify (fun _ => rfl) fun _ h => h) fun _ => ?_
    have settle : ∀ n outcome, Blind (withBuffer t) (fun a => a.closed = c) (do
        note (.settled n (.response (.obj fields)) outcome)
        pure none : A (Option Signal)) :=
      fun _ _ => .bind (bufferless_note _ t c) fun _ => .pure _
    refine .ite (.bind (.lift _) fun _ => .bind (.pure _) fun _ => settle _ _) ?_
    cases fields.lookup "result" <;> exact .bind (.pure _) fun _ => settle _ _

theorem bufferless_notify (method : String) (fields : List (String × Json)) :
    Bufferless (notify method fields) := by
  intro t c
  have emitted : Blind (withBuffer t) (fun a => a.closed = c) (do
      note (.emitted (.notification (.obj fields)))
      pure (some (.notification (.obj fields))) : A (Option Signal)) :=
    .bind (bufferless_note _ t c) fun _ => .pure _
  unfold notify
  refine .ite (.get_bind (fun _ => rfl) fun a => ?_) emitted
  cases (Json.chain (fields.lookup "params") "requestId").map (MapKey.ofJson a.frames) with
  | none => exact emitted
  | some key =>
      refine .ite ?_ emitted
      exact .bind (.modify (fun _ => rfl) fun _ h => h) fun _ =>
        .bind (bufferless_note _ t c) fun _ => emitted

theorem bufferless_line (host : Host) (text : List Char) : Bufferless (line host text) := by
  intro t c
  refine .ite (.pure _) ?_
  cases host.parse (String.ofList text) with
  | error e => exact .throw _
  | ok m =>
      refine .bind (.modify (fun _ => rfl) fun _ h => h) fun _ => ?_
      cases m with
      | obj fields =>
          dsimp only
          cases fields.lookup "id" with
          | some id =>
              cases fields.lookup "method" with
              | some method =>
                  exact .ite (bufferless_serverRequest _ _ _ t c) (bufferless_response _ _ t c)
              | none => exact bufferless_response _ _ t c
          | none =>
              cases fields.lookup "method" with
              | none => exact .throw _
              | some method =>
                  cases method with
                  | str method => exact bufferless_notify _ _ t c
                  | _ => exact .throw _
      | _ => exact .throw _

/-- Whether the connection is closed does not change. -/
theorem Bufferless.after {α : Type} {x : A α} (h : Bufferless x) (a : Adapter) :
    (x.after a).closed = a.closed := (h [] a.closed a rfl).2

/-- A request that does not fail leaves the connection as it is. -/
theorem request_calm {method : String} {params : Json} {a b : Adapter}
    (calm : (request host method params).exec a = (.ok none, b)) : b.closed = a.closed := by
  have kept : ∀ line (a : Adapter), wp (send host line) (fun _ b => b.closed = a.closed)
      (fun _ b => b.closed = a.closed) a := fun line a =>
    wp_of_after ((bufferless_send line).after a)
  have promise : wp (request host method params)
      (fun signal b => signal = none → b.closed = a.closed) (fun _ _ => True) a := by
    simp only [request, wp_bind, wp_get, wp_ite, wp_pure, wp_modify, wp_tryCatch, note]
    refine ⟨fun _ _ => trivial, fun open_ => ?_⟩
    refine wp_mono (kept _ _) (fun _ b same _ => same) fun e b same => ?_
    -- An open connection that fails has a signal.
    simp only [fail, wp_bind, wp_get, wp_ite, wp_pure, wp_modify, note]
    exact ⟨fun closed => absurd (same.symm.trans closed) open_, fun _ => (by rintro ⟨⟩)⟩
  exact (wp_of_exec_ok calm).mp promise rfl

theorem Listens.closed_eq {a b : Adapter} {outcome : Except Err Unit}
    (listens : Listens host a outcome b) : b.closed = a.closed := by
  induction listens with
  | returned => rfl
  | threw => rfl
  | responded next ih => exact ih.trans ((bufferless_respond _ _).after _)
  | requested calm next ih => exact ih.trans (request_calm calm)

section Heard

variable {σ : Type} (l : Listener host σ) {a : Adapter} {s : σ} {x : A (Option Signal)}

theorem emit_closed (signal : Option Signal) (a : Adapter) (s : σ) :
    (emit l signal a s).2.1.closed = a.closed := by
  cases signal with
  | none => rfl
  | some signal => exact (l.allowed signal a s).closed_eq

theorem emit_withBuffer (signal : Option Signal) (a : Adapter) (s : σ) (t : List Char) :
    emit l signal (withBuffer t a) s =
      ((emit l signal a s).1, withBuffer t (emit l signal a s).2.1, (emit l signal a s).2.2) := by
  cases signal with
  | none => rfl
  | some signal => exact l.blind signal a s t

theorem heard_withBuffer (h : Bufferless x) (a : Adapter) (s : σ) (t : List Char) :
    heard l x (withBuffer t a) s =
      ((heard l x a s).1, withBuffer t (heard l x a s).2.1, (heard l x a s).2.2) := by
  unfold heard
  rw [(h t a.closed a rfl).1]
  rcases x.exec a with ⟨_ | signal, b⟩
  · rfl
  · exact emit_withBuffer l signal b s t

theorem heard_closed (h : Bufferless x) (a : Adapter) (s : σ) :
    (heard l x a s).2.1.closed = a.closed := by
  have kept := h.after a
  unfold heard
  unfold Program.after at kept
  revert kept
  rcases x.exec a with ⟨_ | signal, b⟩
  · exact id
  · exact (emit_closed l signal b s).trans

/-- After `fail` the connection is closed. -/
theorem fail_closed (e : Err) (a : Adapter) (s : σ) :
    (heard l (fail e) a s).2.1.closed = true := by
  have done : wp (fail e) (fun _ b => b.closed = true) (fun _ b => b.closed = true) a := by
    simp only [fail, wp_bind, wp_get, wp_ite, wp_pure, wp_modify, note]
    exact ⟨id, fun _ => trivial⟩
  unfold wp at done
  unfold heard
  revert done
  rcases (fail e).exec a with ⟨_ | signal, b⟩
  · exact id
  · exact (emit_closed l signal b s).trans

end Heard

end Methods

section Lines

variable {t u : List Char}

theorem splitLines_cons_newline (t : List Char) :
    Codex.splitLines ('\n' :: t) = ([] :: (Codex.splitLines t).1, (Codex.splitLines t).2) := rfl

/-- The open line of a text can be put in front of what comes next. -/
theorem splitLines_append (t u : List Char) :
    Codex.splitLines (t ++ u) =
      ((Codex.splitLines t).1 ++ (Codex.splitLines ((Codex.splitLines t).2 ++ u)).1,
        (Codex.splitLines ((Codex.splitLines t).2 ++ u)).2) := by
  induction t with
  | nil => rfl
  | cons c t ih =>
      by_cases newline : c = '\n'
      · subst newline
        rw [List.cons_append, splitLines_cons_newline, splitLines_cons_newline, ih]
        rfl
      · simp only [List.cons_append, Codex.splitLines, if_neg newline, ih]
        cases (Codex.splitLines t).1 with
        | nil =>
            simp only [List.cons_append, List.nil_append, Codex.splitLines, if_neg newline]
        | cons line lines => rfl

theorem splitLines_open (t : List Char) : '\n' ∉ (Codex.splitLines t).2 := by
  induction t with
  | nil => exact nofun
  | cons c t ih =>
      by_cases newline : c = '\n'
      · subst newline
        exact ih
      · simp only [Codex.splitLines, if_neg newline]
        cases (Codex.splitLines t).1 with
        | nil => exact fun mem => (List.mem_cons.mp mem).elim (fun eq => newline eq.symm) ih
        | cons line lines => exact ih

theorem splitLines_of_open (open_ : '\n' ∉ t) : Codex.splitLines t = ([], t) := by
  induction t with
  | nil => rfl
  | cons c t ih =>
      have other : c ≠ '\n' := fun eq => open_ (eq ▸ List.mem_cons_self)
      simp only [Codex.splitLines, if_neg other, ih fun mem => open_ (List.mem_cons_of_mem _ mem)]

/-- The line that a newline ends. -/
theorem splitLines_line (open_ : '\n' ∉ t) (u : List Char) :
    Codex.splitLines (t ++ '\n' :: u) = (t :: (Codex.splitLines u).1, (Codex.splitLines u).2) := by
  induction t with
  | nil => rfl
  | cons c t ih =>
      have other : c ≠ '\n' := fun eq => open_ (eq ▸ List.mem_cons_self)
      simp only [List.cons_append, Codex.splitLines, if_neg other,
        ih fun mem => open_ (List.mem_cons_of_mem _ mem)]

theorem unlines_splitLines (t : List Char) :
    Codex.unlines (Codex.splitLines t).1 (Codex.splitLines t).2 = t := by
  induction t with
  | nil => rfl
  | cons c t ih =>
      by_cases newline : c = '\n'
      · subst newline
        rw [splitLines_cons_newline]
        exact congrArg (List.cons '\n') ih
      · simp only [Codex.splitLines, if_neg newline]
        revert ih
        cases (Codex.splitLines t).1 with
        | nil => exact fun ih => congrArg (List.cons c) ih
        | cons line lines => exact fun ih => congrArg (List.cons c) ih

theorem byteLength_append (t u : List Char) :
    Codex.byteLength (t ++ u) = Codex.byteLength t + Codex.byteLength u := by
  induction t with
  | nil => exact (Nat.zero_add _).symm
  | cons c t ih =>
      change c.utf8Size + Codex.byteLength (t ++ u) = c.utf8Size + Codex.byteLength t + _
      rw [ih, Nat.add_assoc]

theorem byteLength_replicate (n : Nat) (c : Char) :
    Codex.byteLength (List.replicate n c) = n * c.utf8Size := by
  induction n with
  | zero => exact (Nat.zero_mul _).symm
  | succ n ih =>
      rw [List.replicate_succ, Nat.succ_mul, Nat.add_comm, ← ih]
      rfl

/-- The text after the last newline is not longer than the whole. -/
theorem byteLength_open_le (t : List Char) :
    Codex.byteLength (Codex.splitLines t).2 ≤ Codex.byteLength t := by
  conv_rhs => rw [← unlines_splitLines t, Codex.unlines, byteLength_append]
  exact Nat.le_add_left _ _

end Lines

/-! ## The calls are steps of the adapter -/

section Calls

variable {host : Host} {σ : Type} (l : Listener host σ)

theorem emits_emit (signal : Option Signal) (a : Adapter) (s : σ) :
    Emits host signal a (emit l signal a s).1 (emit l signal a s).2.1 := by
  cases signal with
  | none => exact .silent
  | some signal => exact .heard (l.allowed signal a s)

theorem fails_heard (e : Err) (a : Adapter) (s : σ) :
    Fails host e a (heard l (fail e) a s).2.1 := by
  have returns : wp (fail e) (fun _ _ => True) (fun _ _ => False) a := by
    simp only [fail, wp_bind, wp_get, wp_ite, wp_pure, wp_modify, note]
    exact ⟨fun _ => trivial, fun _ => trivial⟩
  unfold wp at returns
  unfold Fails heard
  revert returns
  rcases (fail e).exec a with ⟨_ | signal, b⟩
  · exact False.elim
  · exact fun _ => ⟨signal, b, _, rfl, emits_emit l signal b s⟩

theorem drains_drain (lines : List (List Char)) (rest : List Char) (a : Adapter) (s : σ) :
    Drains host rest lines a
      (match (drain l lines rest a s).thrown with
        | none => .ok ()
        | some e => .error e)
      (drain l lines rest a s).state.1 := by
  induction lines generalizing a s with
  | nil => exact .done
  | cons text lines ih =>
      rw [drain]
      unfold heard
      cases handled : (line host text).exec { a with buffer := Codex.unlines lines rest } with
      | mk outcome b =>
          cases outcome with
          | error e => exact .thrown handled
          | ok signal =>
              have emits := emits_emit l signal b s
              dsimp only
              cases emitted : emit l signal b s with
              | mk result state =>
                  rw [emitted] at emits
                  cases result with
                  | error e => exact .refused handled emits
                  | ok _ => exact .next handled emits (ih state.1 state.2)

/-- A call of `receive` is one of the sections that the relation `Steps` allows. -/
theorem receive_steps (chunk : List Char) (a : Adapter) (s : σ) :
    Steps host a (.receive chunk) (receive l chunk a s).state.1 := by
  unfold receive
  split
  · exact .ignored ‹_›
  · have open_ : a.closed = false := by simpa using ‹¬ a.closed = true›
    dsimp only
    split
    · exact .oversized open_ ‹_› (fails_heard l _ _ s)
    · have drains := drains_drain l (Codex.splitLines (a.buffer ++ chunk)).1
        (Codex.splitLines (a.buffer ++ chunk)).2 { a with buffer := a.buffer ++ chunk } s
      revert drains
      cases (drain l (Codex.splitLines (a.buffer ++ chunk)).1
        (Codex.splitLines (a.buffer ++ chunk)).2
          { a with buffer := a.buffer ++ chunk } s).thrown with
      | none => exact fun drains => .received open_ (Nat.not_lt.mp ‹_›) drains
      | some e => exact fun drains => .broken open_ (Nat.not_lt.mp ‹_›) drains (fails_heard l _ _ _)

end Calls

section Streams

variable {host : Host} {σ : Type} (l : Listener host σ) {a : Adapter} {s : σ}

/-- Handling lines does not look at the buffer. -/
theorem handleLines_withBuffer (lines : List (List Char)) (a : Adapter) (s : σ) (t : List Char) :
    handleLines l lines (withBuffer t a) s =
      { handleLines l lines a s with
        state := (withBuffer t (handleLines l lines a s).state.1,
          (handleLines l lines a s).state.2) } := by
  induction lines generalizing a s with
  | nil => rfl
  | cons text lines ih =>
      unfold handleLines
      rw [heard_withBuffer l (bufferless_line host text) a s t]
      rcases heard l (line host text) a s with ⟨_ | ⟨⟩, b, s'⟩
      · rfl
      · simp only [ih]

theorem handleLines_append (lines more : List (List Char)) (a : Adapter) (s : σ) :
    handleLines l (lines ++ more) a s =
      match (handleLines l lines a s).thrown with
      | some _ => handleLines l lines a s
      | none =>
          let first := (handleLines l lines a s)
          let later := handleLines l more first.state.1 first.state.2
          { later with passed := first.passed ++ later.passed } := by
  induction lines generalizing a s with
  | nil => rfl
  | cons text lines ih =>
      rw [List.cons_append, handleLines, handleLines]
      rcases heard l (line host text) a s with ⟨_ | ⟨⟩, b, s'⟩
      · rfl
      · simp only [ih]
        rcases handleLines l lines b s' with ⟨passed, _ | e, state⟩
        · simp only [List.append_assoc]
        · rfl

/-- The loop of `receive` handles the lines and keeps the open one. -/
theorem drain_spec (lines : List (List Char)) (rest : List Char) (a : Adapter) (s : σ) :
    let loop := drain l lines rest (withBuffer (Codex.unlines lines rest) a) s
    let whole := handleLines l lines a s
    loop.passed = whole.passed ∧ loop.thrown = whole.thrown ∧
      (whole.thrown = none → loop.state = (withBuffer rest whole.state.1, whole.state.2)) ∧
      whole.state.1.closed = a.closed ∧ loop.state.1.closed = a.closed := by
  suffices ∀ t, (lines = [] → t = rest) →
      let loop := drain l lines rest (withBuffer t a) s
      let whole := handleLines l lines a s
      loop.passed = whole.passed ∧ loop.thrown = whole.thrown ∧
        (whole.thrown = none → loop.state = (withBuffer rest whole.state.1, whole.state.2)) ∧
        whole.state.1.closed = a.closed ∧ loop.state.1.closed = a.closed from
    this _ fun none_ => by rw [none_]; rfl
  induction lines generalizing a s with
  | nil =>
      intro t last
      rw [last rfl]
      exact ⟨rfl, rfl, fun _ => rfl, rfl, rfl⟩
  | cons text lines ih =>
      intro t _
      have kept := heard_closed l (bufferless_line host text) a s
      have next : heard l (line host text)
          { withBuffer t a with buffer := Codex.unlines lines rest } s = _ :=
        heard_withBuffer l (bufferless_line host text) a s (Codex.unlines lines rest)
      dsimp only
      rw [drain, handleLines, next]
      revert kept
      rcases heard l (line host text) a s with ⟨_ | ⟨⟩, b, s'⟩
      · exact fun kept => ⟨rfl, rfl, nofun, kept, kept⟩
      · intro kept
        obtain ⟨passed, thrown, state, closed, closed'⟩ := ih b s' (Codex.unlines lines rest)
          fun none_ => by rw [none_]; rfl
        exact ⟨congrArg (value host text ++ ·) passed, thrown, state, closed.trans kept,
          closed'.trans kept⟩

/-- An open line that becomes too long with the chunk fails the connection. -/
theorem receive_limit (open_ : a.closed = false) {chunk : List Char}
    (large : 8388608 < Codex.byteLength (a.buffer ++ chunk)) :
    (receive l chunk a s).passed = [] ∧ (receive l chunk a s).outcome = .limit ∧
      (receive l chunk a s).state.1.closed = true := by
  have shut : ¬ a.closed = true := by
    rw [open_]
    exact nofun
  rw [receive, if_neg shut]
  dsimp only
  rw [if_pos large]
  exact ⟨rfl, rfl, fail_closed l _ _ s⟩

/-- Otherwise the lines that the chunk completes are handled. -/
theorem receive_fits (open_ : a.closed = false) {chunk : List Char}
    (fits : Codex.byteLength (a.buffer ++ chunk) ≤ 8388608) :
    let split := Codex.splitLines (a.buffer ++ chunk)
    let whole := handleLines l split.1 a s
    let call := receive l chunk a s
    call.passed = whole.passed ∧ whole.state.1.closed = false ∧
      (whole.thrown = none → call.outcome = .drained ∧
        call.state = (withBuffer split.2 whole.state.1, whole.state.2)) ∧
      ∀ e, whole.thrown = some e → call.outcome = .failed ∧ call.state.1.closed = true := by
  have shut : ¬ a.closed = true := by
    rw [open_]
    exact nofun
  obtain ⟨passed, thrown, state, closed, -⟩ := drain_spec l
    (Codex.splitLines (a.buffer ++ chunk)).1 (Codex.splitLines (a.buffer ++ chunk)).2 a s
  rw [unlines_splitLines] at passed thrown state
  dsimp only
  rw [receive, if_neg shut]
  dsimp only
  rw [if_neg (Nat.not_lt.mpr fits)]
  change (drain l _ _ { a with buffer := a.buffer ++ chunk } s).passed = _ at passed
  change (drain l _ _ { a with buffer := a.buffer ++ chunk } s).thrown = _ at thrown
  rw [thrown]
  refine ⟨?_, closed.trans open_, ?_, ?_⟩
  · cases (handleLines l (Codex.splitLines (a.buffer ++ chunk)).1 a s).thrown <;> exact passed
  · intro none_
    rw [none_]
    exact ⟨rfl, state none_⟩
  · intro e some_
    rw [some_]
    exact ⟨rfl, fail_closed l _ _ _⟩

/-- Chunks for a closed connection are dropped. -/
theorem receiveAll_closed (closed : a.closed = true) (chunks : List (List Char)) :
    (receiveAll l chunks a s).passed = [] ∧ (receiveAll l chunks a s).state = (a, s) ∧
      ∀ outcome ∈ (receiveAll l chunks a s).outcomes, outcome = .ignored := by
  induction chunks with
  | nil => exact ⟨rfl, rfl, nofun⟩
  | cons chunk chunks ih =>
      have dropped : receive l chunk a s = ⟨[], .ignored, a, s⟩ := by rw [receive, if_pos closed]
      obtain ⟨passed, state, ignored⟩ := ih
      rw [receiveAll, dropped]
      refine ⟨passed, state, ?_⟩
      intro outcome mem
      obtain rfl | mem := List.mem_cons.mp mem
      · rfl
      · exact ignored outcome mem

/-- The calls of a stream in which the size test does not fire handle its lines. -/
theorem receiveAll_spec {chunks : List (List Char)} (open_ : a.closed = false)
    (started : '\n' ∉ a.buffer) (within : .limit ∉ (receiveAll l chunks a s).outcomes) :
    let split := Codex.splitLines (a.buffer ++ chunks.flatten)
    let whole := handleLines l split.1 a s
    let run := receiveAll l chunks a s
    run.passed = whole.passed ∧
      (whole.thrown = none → run.state.1.closed = false ∧
        run.state = (withBuffer split.2 whole.state.1, whole.state.2)) ∧
      ∀ e, whole.thrown = some e → run.state.1.closed = true := by
  dsimp only
  induction chunks generalizing a s with
  | nil =>
      rw [List.flatten_nil, List.append_nil, splitLines_of_open started]
      exact ⟨rfl, fun _ => ⟨open_, rfl⟩, nofun⟩
  | cons chunk chunks ih =>
      rw [List.flatten_cons, ← List.append_assoc, splitLines_append, handleLines_append]
      rw [receiveAll] at within ⊢
      have fits : Codex.byteLength (a.buffer ++ chunk) ≤ 8388608 := by
        by_contra large
        refine within (List.mem_cons.mpr (.inl ?_))
        exact (receive_limit l open_ (Nat.not_le.mp large)).2.1.symm
      obtain ⟨passed, closed, drained, failed⟩ := receive_fits l (s := s) open_ fits
      cases thrown : (handleLines l (Codex.splitLines (a.buffer ++ chunk)).1 a s).thrown with
      | some e =>
          obtain ⟨-, shut⟩ := failed e thrown
          obtain ⟨dropped, state, -⟩ := receiveAll_closed l
            (s := (receive l chunk a s).state.2) shut chunks
          dsimp only
          rw [dropped, state, List.append_nil, thrown]
          exact ⟨passed, nofun, fun _ _ => shut⟩
      | none =>
          obtain ⟨-, state⟩ := drained thrown
          have later := ih (s := (receive l chunk a s).state.2)
            (a := (receive l chunk a s).state.1)
            (by rw [state]; exact closed) (by rw [state]; exact splitLines_open _)
            (fun mem => within (List.mem_cons_of_mem _ mem))
          rw [state] at later
          change _ =
            (handleLines l (Codex.splitLines (_ ++ chunks.flatten)).1 _ _).passed ∧ _ at later
          simp only [handleLines_withBuffer] at later
          obtain ⟨passed', opened, failed'⟩ := later
          dsimp only
          rw [state, passed, passed']
          exact ⟨rfl, opened, failed'⟩

end Streams

/-- Listeners that hear and do nothing. -/
def silent (host : Host) : Listener host Unit where
  hear := fun _ a s => (.ok (), a, s)
  allowed := fun _ _ _ => .returned
  blind := fun _ _ _ _ => rfl

/-- A parser that knows one frame. -/
def oneFrame : Host where
  parse := fun text =>
    if text = "1" then .ok (.obj [("method", .str "ready")]) else .error "not JSON"
  stdin := fun _ => ⟨true, 0⟩

/-- An adapter whose process has been started. -/
def started : Adapter := { fresh with process := .running }

section Chunking

variable {host : Host} {σ : Type} (l : Listener host σ) {a : Adapter} {s : σ}

/-- The connection fails at the line: it is not valid JSON, or its handling throws. -/
def FailsAt (text : List Char) (a : Adapter) (s : σ) : Prop :=
  text.all Codex.isSpace = false ∧
    ((∃ e, host.parse (String.ofList text) = .error e) ∨
      ∃ m e, host.parse (String.ofList text) = .ok m ∧ (heard l (message host m) a s).1 = .error e)

theorem framesOf_append (lines more : List (List Char)) :
    framesOf host (lines ++ more) = framesOf host lines ++ framesOf host more :=
  List.filterMap_append

theorem failsAt_of_threw {text : List Char} {e : Err}
    (threw : (heard l (line host text) a s).1 = .error e) : FailsAt l text a s := by
  unfold line at threw
  split at threw
  · cases threw
  · rename_i content
    refine ⟨by simpa using content, ?_⟩
    cases parsed : host.parse (String.ofList text) with
    | error e => exact .inl ⟨e, rfl⟩
    | ok m =>
        rw [parsed] at threw
        exact .inr ⟨m, e, rfl, threw⟩

/-- Either all lines pass, or the first that fails is the last that is read. -/
theorem handleLines_cases (lines : List (List Char)) (a : Adapter) (s : σ) :
    let whole := handleLines l lines a s
    (whole.thrown = none ∧ whole.passed = framesOf host lines) ∨
      ∃ done text later e, lines = done ++ text :: later ∧ whole.thrown = some e ∧
        (handleLines l done a s).thrown = none ∧
        FailsAt l text (handleLines l done a s).state.1 (handleLines l done a s).state.2 ∧
        whole.passed = framesOf host (done ++ [text]) := by
  induction lines generalizing a s with
  | nil => exact .inl ⟨rfl, rfl⟩
  | cons text lines ih =>
      have front : ∀ more, framesOf host (text :: more) = value host text ++ framesOf host more :=
        fun more => framesOf_append [text] more
      dsimp only
      rw [handleLines]
      cases head : heard l (line host text) a s with
      | mk outcome state =>
          cases outcome with
          | error e =>
              refine .inr ⟨[], text, lines, e, rfl, rfl, rfl,
                failsAt_of_threw l (e := e) ?_, rfl⟩
              change (heard l (line host text) a s).1 = _
              rw [head]
          | ok _ =>
              obtain ⟨thrown, passed⟩ | ⟨done, last, later, e, split, thrown, passes, fails,
                passed⟩ := ih state.1 state.2
              · exact .inl ⟨thrown, by rw [front, ← passed]⟩
              · have whole : handleLines l (text :: done) a s =
                    { handleLines l done state.1 state.2 with
                      passed := value host text ++
                        (handleLines l done state.1 state.2).passed } := by
                  rw [handleLines, head]
                refine .inr ⟨text :: done, last, later, e, by rw [split]; rfl, thrown, ?_, ?_, ?_⟩
                · rw [whole]
                  exact passes
                · rw [whole]
                  exact fails
                · rw [List.cons_append, front, ← passed]

end Chunking

section Limit

variable {host : Host} {σ : Type} (l : Listener host σ) {a : Adapter} {s : σ}

/-- Every line of the stream is within the frame limit, its newline included; the open
line at the end as well. -/
def LinesWithin (stream : List Char) : Prop :=
  (∀ text ∈ (Codex.splitLines stream).1, Codex.byteLength (text ++ ['\n']) ≤ 8388608) ∧
    Codex.byteLength (Codex.splitLines stream).2 ≤ 8388608

/-- The part of a stream after its first chunk. -/
theorem thrown_after_chunk (buffer chunk more : List Char) :
    let first := handleLines l (Codex.splitLines (buffer ++ chunk)).1 a s
    (handleLines l (Codex.splitLines (buffer ++ (chunk ++ more))).1 a s).thrown =
      match first.thrown with
      | some e => some e
      | none => (handleLines l
          (Codex.splitLines ((Codex.splitLines (buffer ++ chunk)).2 ++ more)).1
          first.state.1 first.state.2).thrown := by
  dsimp only
  rw [← List.append_assoc, splitLines_append, handleLines_append]
  cases thrown : (handleLines l (Codex.splitLines (buffer ++ chunk)).1 a s).thrown with
  | none => rfl
  | some e => exact thrown

/-- The size test fires at a chunk that is too long together with the open line before it,
if no line before that has failed the connection. -/
theorem limit_iff {chunks : List (List Char)} (open_ : a.closed = false)
    (started : '\n' ∉ a.buffer) :
    .limit ∈ (receiveAll l chunks a s).outcomes ↔
      ∃ before chunk after, chunks = before ++ chunk :: after ∧
        (handleLines l (Codex.splitLines (a.buffer ++ before.flatten)).1 a s).thrown = none ∧
        8388608 <
          Codex.byteLength ((Codex.splitLines (a.buffer ++ before.flatten)).2 ++ chunk) := by
  induction chunks generalizing a s with
  | nil =>
      refine ⟨nofun, ?_⟩
      rintro ⟨before, chunk, after, split, -⟩
      cases before <;> cases split
  | cons chunk chunks ih =>
      have none_before : Codex.splitLines (a.buffer ++ [].flatten) = ([], a.buffer) := by
        rw [List.flatten_nil, List.append_nil, splitLines_of_open started]
      rw [receiveAll, List.mem_cons]
      by_cases large : 8388608 < Codex.byteLength (a.buffer ++ chunk)
      · refine ⟨fun _ => ⟨[], chunk, chunks, rfl, ?_, ?_⟩, fun _ => .inl ?_⟩
        · rw [none_before]
          rfl
        · rw [none_before]
          exact large
        · exact (receive_limit l open_ large).2.1.symm
      · obtain ⟨-, closed, drained, failed⟩ := receive_fits l (s := s) open_ (Nat.not_lt.mp large)
        cases thrown : (handleLines l (Codex.splitLines (a.buffer ++ chunk)).1 a s).thrown with
        | some e =>
            obtain ⟨outcome, shut⟩ := failed e thrown
            obtain ⟨-, -, ignored⟩ := receiveAll_closed l (s := (receive l chunk a s).state.2)
              shut chunks
            constructor
            · rintro (limit | limit)
              · exact nomatch limit.trans outcome
              · exact nomatch ignored _ limit
            · rintro ⟨before, chunk', after, split, passes, exceeds⟩
              cases before with
              | nil =>
                  cases split
                  rw [none_before] at exceeds
                  exact absurd exceeds large
              | cons _ before =>
                  cases split
                  rw [List.flatten_cons, thrown_after_chunk, thrown] at passes
                  cases passes
        | none =>
            obtain ⟨outcome, state⟩ := drained thrown
            have later := ih (a := (receive l chunk a s).state.1)
              (s := (receive l chunk a s).state.2) (by rw [state]; exact closed)
              (by rw [state]; exact splitLines_open _)
            rw [later, outcome, state]
            simp only [reduceCtorEq, false_or]
            constructor
            · rintro ⟨before, chunk', after, rfl, passes, exceeds⟩
              refine ⟨chunk :: before, chunk', after, rfl, ?_, ?_⟩
              · rw [List.flatten_cons, thrown_after_chunk, thrown]
                rw [handleLines_withBuffer] at passes
                exact passes
              · rw [List.flatten_cons, ← List.append_assoc, splitLines_append]
                exact exceeds
            · rintro ⟨before, chunk', after, split, passes, exceeds⟩
              cases before with
              | nil =>
                  cases split
                  rw [none_before] at exceeds
                  exact absurd exceeds large
              | cons _ before =>
                  cases split
                  rw [List.flatten_cons, thrown_after_chunk, thrown] at passes
                  rw [List.flatten_cons, ← List.append_assoc, splitLines_append] at exceeds
                  refine ⟨before, chunk', after, rfl, ?_, exceeds⟩
                  rw [handleLines_withBuffer]
                  exact passes

theorem receiveAll_append (before after : List (List Char)) (a : Adapter) (s : σ) :
    (receiveAll l (before ++ after) a s).outcomes =
      (receiveAll l before a s).outcomes ++
        (receiveAll l after (receiveAll l before a s).state.1
          (receiveAll l before a s).state.2).outcomes ∧
    (receiveAll l (before ++ after) a s).state =
      (receiveAll l after (receiveAll l before a s).state.1
        (receiveAll l before a s).state.2).state := by
  induction before generalizing a s with
  | nil => exact ⟨rfl, rfl⟩
  | cons chunk before ih =>
      obtain ⟨outcomes, state⟩ := ih (receive l chunk a s).state.1 (receive l chunk a s).state.2
      simp only [List.cons_append, receiveAll]
      rw [outcomes, state]
      exact ⟨rfl, rfl⟩

/-- On a connection that is still open the size test has not fired. -/
theorem within_of_open {chunks : List (List Char)}
    (opened : (receiveAll l chunks a s).state.1.closed = false) :
    .limit ∉ (receiveAll l chunks a s).outcomes := by
  induction chunks generalizing a s with
  | nil => exact nofun
  | cons chunk chunks ih =>
      rw [receiveAll] at opened ⊢
      intro mem
      obtain fired | later := List.mem_cons.mp mem
      · cases before : a.closed with
        | true =>
            rw [receive, if_pos before] at fired
            cases fired
        | false =>
            by_cases large : 8388608 < Codex.byteLength (a.buffer ++ chunk)
            · obtain ⟨-, -, shut⟩ := receive_limit l (s := s) before large
              rw [(receiveAll_closed l shut chunks).2.1] at opened
              exact nomatch shut.symm.trans opened
            · obtain ⟨-, -, drained, failed⟩ :=
                receive_fits l (s := s) before (Nat.not_lt.mp large)
              cases thrown : (handleLines l
                  (Codex.splitLines (a.buffer ++ chunk)).1 a s).thrown with
              | none => exact nomatch fired.trans (drained thrown).1
              | some e => exact nomatch fired.trans (failed e thrown).1
      · exact ih opened later

/-- An open line that has grown too long has failed the connection. -/
theorem closed_of_long {before : List (List Char)} {chunk : List Char} (open_ : a.closed = false)
    (started : '\n' ∉ a.buffer)
    (long : 8388608 < Codex.byteLength
      (Codex.splitLines (a.buffer ++ (before ++ [chunk]).flatten)).2) :
    (receiveAll l (before ++ [chunk]) a s).state.1.closed = true := by
  rw [(receiveAll_append l before [chunk] a s).2]
  cases opened : (receiveAll l before a s).state.1.closed with
  | true =>
      rw [(receiveAll_closed l opened [chunk]).2.1]
      exact opened
  | false =>
      obtain ⟨-, state, failed⟩ := receiveAll_spec l open_ started (within_of_open l opened)
      have passes : (handleLines l (Codex.splitLines (a.buffer ++ before.flatten)).1 a s).thrown =
          none := by
        cases thrown : (handleLines l
            (Codex.splitLines (a.buffer ++ before.flatten)).1 a s).thrown with
        | none => rfl
        | some e =>
            rw [failed e thrown] at opened
            cases opened
      refine (receive_limit l opened ?_).2.2
      rw [(state passes).2]
      rw [List.flatten_append, ← List.append_assoc, splitLines_append, List.flatten_singleton]
        at long
      exact Nat.lt_of_lt_of_le long (byteLength_open_le _)

/-- A stream whose lines are all within the limit never fails it, and an open line beyond it
fails the connection with the chunk that makes it so, exactly if no chunk is too long
together with the open line before it: other streams have an oversized line, or a line
before that chunk that fails the connection. -/
theorem frame_limit_iff {chunks : List (List Char)} (open_ : a.closed = false)
    (started : '\n' ∉ a.buffer) :
    ((LinesWithin (a.buffer ++ chunks.flatten) → .limit ∉ (receiveAll l chunks a s).outcomes) ∧
      ∀ before chunk after, chunks = before ++ chunk :: after →
        8388608 < Codex.byteLength
          (Codex.splitLines (a.buffer ++ (before ++ [chunk]).flatten)).2 →
        (receiveAll l (before ++ [chunk]) a s).state.1.closed = true) ↔
    (¬ LinesWithin (a.buffer ++ chunks.flatten) ∨
      ∀ before chunk after, chunks = before ++ chunk :: after →
        (handleLines l (Codex.splitLines (a.buffer ++ before.flatten)).1 a s).thrown = none →
        Codex.byteLength ((Codex.splitLines (a.buffer ++ before.flatten)).2 ++ chunk) ≤
          8388608) := by
  have fires : .limit ∈ (receiveAll l chunks a s).outcomes ↔ _ := limit_iff l open_ started
  constructor
  · rintro ⟨silent, -⟩
    by_cases lines : LinesWithin (a.buffer ++ chunks.flatten)
    · refine .inr fun before chunk after split passes => ?_
      by_contra exceeds
      exact silent lines (fires.mpr ⟨before, chunk, after, split, passes, Nat.not_le.mp exceeds⟩)
    · exact .inl lines
  · intro condition
    refine ⟨fun lines limit => ?_, fun _ _ _ _ long => closed_of_long l open_ started long⟩
    obtain ⟨before, chunk, after, split, passes, exceeds⟩ := fires.mp limit
    obtain oversized | fits := condition
    · exact oversized lines
    · exact Nat.not_le.mpr exceeds (fits before chunk after split passes)

/-- A frame in one chunk. -/
theorem frame_limit_iff_short :
    .limit ∉ (receiveAll (silent oneFrame) [['1', '\n']] started ()).outcomes := by
  have begun : '\n' ∉ started.buffer := nofun
  refine ((frame_limit_iff (silent oneFrame) (by rfl) begun).mpr (.inr ?_)).1 ?_
  · rintro before chunk after split -
    cases before with
    | nil =>
        cases split
        decide
    | cons _ before => cases before <;> cases split
  · exact ⟨by decide, by decide⟩

theorem limit_of_full_line {n : Nat} (full : n = 8388607) :
    LinesWithin ([List.replicate n ' ', ['\n', '\n']] : List (List Char)).flatten ∧
      .limit ∈ (receiveAll (silent oneFrame) [List.replicate n ' ', ['\n', '\n']]
        started ()).outcomes := by
  have begun : '\n' ∉ started.buffer := nofun
  have line : '\n' ∉ List.replicate n ' ' :=
    fun mem => absurd (List.eq_of_mem_replicate mem) (by decide)
  have size : Codex.byteLength (List.replicate n ' ') = n := by
    rw [byteLength_replicate]
    exact Nat.mul_one n
  have whole : ([List.replicate n ' ', ['\n', '\n']] : List (List Char)).flatten =
      List.replicate n ' ' ++ '\n' :: ['\n'] := by simp
  constructor
  · rw [whole, LinesWithin, splitLines_line line]
    have nothing : Codex.byteLength (Codex.splitLines ['\n']).2 ≤ 8388608 := by decide
    refine ⟨fun text mem => ?_, nothing⟩
    obtain rfl | mem := List.mem_cons.mp mem
    · rw [byteLength_append, size, full]
      decide
    · obtain rfl := List.mem_singleton.mp mem
      decide
  · refine (limit_iff (silent oneFrame) (by rfl) begun).mpr
      ⟨[List.replicate n ' '], ['\n', '\n'], [], rfl, ?_, ?_⟩
    all_goals
      have split : Codex.splitLines (started.buffer ++ [List.replicate n ' '].flatten) =
          ([], List.replicate n ' ') := by
        rw [List.flatten_singleton]
        exact splitLines_of_open line
      rw [split]
    · rfl
    · rw [byteLength_append, size, full]
      decide

/-- A blank line of exactly 8 MiB, whose newline comes with the next one. -/
theorem full_line_trips_limit :
    LinesWithin ([List.replicate 8388607 ' ', ['\n', '\n']] : List (List Char)).flatten ∧
      .limit ∈ (receiveAll (silent oneFrame) [List.replicate 8388607 ' ', ['\n', '\n']]
        started ()).outcomes :=
  limit_of_full_line rfl

end Limit

end Adapter

end Mathmodel
