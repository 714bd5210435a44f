import Mathmodel.Backend.Wiring

/-!
# Tasks and their promises

Operations on the world keep every task with its runtime and with a promise
that can still settle, and they never let a runtime receive a second request
that starts a thread or a turn.
-/

namespace Mathmodel

theorem Frame.precedesTurn_of_launches {g : Nat} {frame : Frame}
    (h : frame.launches g = true) : frame.precedesTurn g = true := by
  cases frame with
  | handshake i caller => cases caller <;> exact h
  | connected i caller => cases caller <;> exact h
  | _ => cases h

/-- The entry is not a request that starts a thread or a turn. -/
def Entry.isOther (e : Entry) : Prop :=
  ∀ g, e.isThreadStart g = false ∧ e.isTurnStart g = false

namespace World

variable {w w' : World}

theorem Owns.fades {frame : Frame} (h : w.Owns frame) (created : w'.created = w.created)
    (lifetime : w'.lifetime = w.lifetime) (codex : ∀ g, (w.codex g).Fades (w'.codex g)) :
    w'.Owns frame := by
  have current : ∀ g, w'.Current g ↔ w.Current g := by
    intro g
    simp only [Current, created, lifetime]
  have purpose : ∀ g, (w'.codex g).purpose = (w.codex g).purpose := fun g => (codex g).purpose
  cases frame with
  | released id g closing =>
      obtain ⟨range, closed, listener⟩ := h
      refine ⟨(current g).mpr range, (codex g).closed closed, ?_⟩
      obtain same | ⟨none, -⟩ := (codex g).listener
      · rw [same, listener]
      · exact none
  | handshake g caller =>
      cases caller <;> simpa only [Owns, current, purpose] using h
  | connected g caller =>
      cases caller <;> simpa only [Owns, current, purpose] using h
  | threadStarted id g k => simpa only [Owns, current, purpose] using h
  | turnStarted id g k => simpa only [Owns, current, purpose] using h
  | threadRead id g attempt => simpa only [Owns, current, purpose] using h
  | release id g => simpa only [Owns, current] using h
  | _ => trivial

namespace Waiting

theorem push (h : w.Waiting) {t : Task} (owns : w.Owns t.frame) (awaits : w.Awaits t) :
    (w.push t).Waiting where
  owns := by
    intro t' member
    simp only [World.push, List.mem_append, List.mem_singleton] at member
    rcases member with old | rfl
    · exact h.owns t' old
    · exact owns
  awaits := by
    intro t' member
    simp only [World.push, List.mem_append, List.mem_singleton] at member
    rcases member with old | rfl
    · exact h.awaits t' old
    · exact awaits

theorem ready_awaits {frame : Frame} {result : Except Err Json}
    (h : ∀ id g closing, frame ≠ .released id g closing) :
    w.Awaits ⟨frame, .ready result⟩ :=
  fun id g closing same => absurd same (h id g closing)

theorem exitOf_awaits (w : World) (id : String) (g : Nat) (closing : Bool) :
    w.Awaits ⟨.released id g closing, w.exitOf g⟩ := by
  unfold exitOf
  by_cases running : (w.codex g).process = .running
  · rw [if_pos running]
    exact ⟨running, id, closing, rfl⟩
  · rw [if_neg running]
    rintro _ _ _ ⟨⟩
    exact running

/-- Promises settle while adapters fade. -/
theorem map (h : w.Waiting) {f : Task → Task} (created : w'.created = w.created)
    (lifetime : w'.lifetime = w.lifetime) (tasks : w'.tasks = w.tasks.map f)
    (codex : ∀ g, (w.codex g).Fades (w'.codex g)) (frame : ∀ t, (f t).frame = t.frame)
    (awaits : ∀ t ∈ w.tasks, w.Awaits t → w'.Awaits (f t)) : w'.Waiting where
  owns := by
    intro t' member
    rw [tasks] at member
    obtain ⟨t, old, rfl⟩ := List.mem_map.mp member
    rw [frame]
    exact (h.owns t old).fades created lifetime codex
  awaits := by
    intro t' member
    rw [tasks] at member
    obtain ⟨t, old, rfl⟩ := List.mem_map.mp member
    exact awaits t old (h.awaits t old)

/-- Adapters change inside and no promise settles. -/
theorem fades (h : w.Waiting) (created : w'.created = w.created)
    (lifetime : w'.lifetime = w.lifetime) (tasks : w'.tasks = w.tasks)
    (codex : ∀ g, (w.codex g).Fades (w'.codex g))
    (pending : ∀ g n call, (n, call) ∈ (w.codex g).pending →
      (n, call) ∈ (w'.codex g).pending)
    (process : ∀ g, (w'.codex g).process = (w.codex g).process) : w'.Waiting := by
  refine h.map (f := fun t => t) created lifetime (by simpa using tasks) codex (fun _ => rfl) ?_
  rintro ⟨frame, wait⟩ - awaits
  cases wait with
  | ready result => simpa only [Awaits, process] using awaits
  | exit g => simpa only [Awaits, process] using awaits
  | reply g n =>
      obtain ⟨⟨call, listed⟩, kind⟩ := awaits
      exact ⟨⟨call, pending g n call listed⟩, kind⟩

/-- The requests of one runtime are rejected and its process goes on. -/
theorem reject (h : w.Waiting) {g : Nat} {e : Err} (created : w'.created = w.created)
    (lifetime : w'.lifetime = w.lifetime) (tasks : w'.tasks = w.tasks.map (Task.reject g e))
    (codex : ∀ i, (w.codex i).Fades (w'.codex i))
    (same : ∀ i, i ≠ g → w'.codex i = w.codex i)
    (process : (w'.codex g).process = (w.codex g).process) : w'.Waiting := by
  have processes : ∀ i, (w'.codex i).process = (w.codex i).process := by
    intro i
    by_cases eq : i = g
    · rw [eq, process]
    · rw [same i eq]
  refine h.map created lifetime tasks codex (Task.reject_frame g e) ?_
  rintro ⟨frame, wait⟩ - awaits
  cases wait with
  | ready result => simpa only [Awaits, Task.reject, processes] using awaits
  | exit i => simpa only [Awaits, Task.reject, processes] using awaits
  | reply i n =>
      by_cases eq : i = g
      · have kind : ∀ id j closing, frame ≠ .released id j closing := by
          rintro id j closing rfl
          exact awaits.2
        simpa only [Task.reject, eq, if_true] using ready_awaits kind
      · simpa only [Awaits, Task.reject, eq, if_false, same i eq] using awaits

theorem shut (h : w.Waiting) (wired : w.Wired) (g : Nat) (e : Err) : (w.shut g e).Waiting :=
  h.reject rfl rfl rfl (wired.shut_fades g e) (fun _ ne => by simp [World.shut, setCodex, ne])
    (by simp [World.shut])

theorem release (h : w.Waiting) (wired : w.Wired) (id : String) {g : Nat} (closing : Bool)
    (range : w.Current g) : (w.release id g closing).Waiting := by
  have codex := wired.release_codex id g closing
  have fades := wired.release_fades id g closing
  have shut : ((w.detach g).shutOnce g).Waiting := by
    unfold shutOnce
    by_cases closed : (w.codex g).closed = true
    · rw [if_pos (by simpa [detach] using closed)]
      refine h.fades rfl rfl rfl ?_ ?_ ?_
      · refine wired.setCodex_fades ⟨rfl, rfl, fun h => h, .inr ⟨rfl, closed⟩, fun h => h, ?_⟩
        exact wired.closed g
      · intro i n call listed
        by_cases eq : i = g
        · subst eq
          simpa [detach] using listed
        · simpa [detach, setCodex_ne w _ eq] using listed
      · intro i
        by_cases eq : i = g
        · subst eq
          simp [detach]
        · simp [detach, setCodex_ne w _ eq]
    · rw [if_neg (by simpa [detach] using closed)]
      refine h.reject rfl rfl rfl ?_ ?_ (by simp [World.shut, detach])
      · intro i
        have : (((w.detach g).shut g (.error "Codex connection closed by owner")).codex i) =
            (w.release id g closing).codex i := by
          rw [codex]
          simp [World.shut, detach, setCodex, released]
        rw [this]
        exact fades i
      · intro i ne
        simp [World.shut, detach, setCodex, ne]
  have after : (((w.detach g).shutOnce g).codex g).closed = true ∧
      (((w.detach g).shutOnce g).codex g).listener = none := by
    have : ((w.detach g).shutOnce g).codex g = released (w.codex g) := by
      have := congrFun codex g
      simpa [World.release, World.push] using this
    rw [this]
    exact ⟨rfl, rfl⟩
  have kept : ((w.detach g).shutOnce g).created = w.created ∧
      ((w.detach g).shutOnce g).lifetime = w.lifetime := by
    unfold shutOnce
    split <;> exact ⟨rfl, rfl⟩
  refine shut.push ⟨?_, after⟩ ?_
  · simpa only [Current, kept] using range
  · exact exitOf_awaits _ id g closing

theorem ask (h : w.Waiting) (wired : w.Wired) {g : Nat} {call : Rpc} {frame : Frame}
    (open_ : (w.codex g).closed = false) (issues : Issues g call frame)
    (owns : w.Owns frame) : (w.ask g call frame).Waiting := by
  have fades := wired.setCodex_fades (g := g) (f := fun c => { c with
    sequence := (w.codex g).sequence + 1
    pending := c.pending ++ [((w.codex g).sequence + 1, call)] })
    ⟨rfl, rfl, fun h => h, .inl rfl, fun h => h, fun closed => by simp [open_] at closed⟩
  unfold World.ask
  refine Waiting.push ?_ (owns.fades rfl rfl fades) ?_
  · refine h.fades rfl rfl rfl fades ?_ ?_
    · intro i n rpc listed
      by_cases eq : i = g
      · subst eq
        simpa using .inl listed
      · simpa [setCodex_ne w _ eq] using listed
    · intro i
      by_cases eq : i = g
      · subst eq
        simp
      · simp [setCodex_ne w _ eq]
  · refine ⟨⟨call, by simp⟩, ?_⟩
    cases issues <;> first | rfl | trivial

/-- A new adapter, with a number that no task mentions. -/
theorem opened (h : w.Waiting) (wired : w.Wired) (created : w'.created = w.created + 1)
    (lifetime : w'.lifetime = w.lifetime) (tasks : w'.tasks = w.tasks)
    (codex : ∀ g, g ≠ w.created → w'.codex g = w.codex g) : w'.Waiting := by
  have current : ∀ g, w.Current g → w'.Current g ∧ w'.codex g = w.codex g := by
    intro g range
    refine ⟨⟨by rw [lifetime]; exact range.1, ?_⟩, codex g (Nat.ne_of_lt range.2)⟩
    rw [created]
    exact range.2.trans (Nat.lt_succ_self _)
  have live : ∀ g, (∃ id, w.live.lookup id = some g) → w'.codex g = w.codex g := by
    rintro g ⟨id, live⟩
    exact (current g (wired.started id g live).1).2
  constructor
  · intro t member
    rw [tasks] at member
    have owns := h.owns t member
    have keep : ∀ {g : Nat} {P : Codex → Prop}, w.Current g ∧ P (w.codex g) →
        w'.Current g ∧ P (w'.codex g) := by
      rintro g P ⟨range, holds⟩
      rw [(current g range).2]
      exact ⟨(current g range).1, holds⟩
    revert owns
    cases t.frame with
    | handshake g caller =>
        cases caller with
        | execute id k _ => exact keep (P := fun c => c.purpose = .execution id k)
        | reconcile id _ => exact keep (P := fun c => c.purpose = .inspection id)
    | connected g caller =>
        cases caller with
        | execute id k _ => exact keep (P := fun c => c.purpose = .execution id k)
        | reconcile id _ => exact keep (P := fun c => c.purpose = .inspection id)
    | threadStarted id g k => exact keep (P := fun c => c.purpose = .execution id k)
    | turnStarted id g k => exact keep (P := fun c => c.purpose = .execution id k)
    | threadRead id g attempt => exact keep (P := fun c => c.purpose = .inspection id)
    | released id g closing => exact keep (P := fun c => c.closed = true ∧ c.listener = none)
    | release id g => exact fun range => (current g range).1
    | _ => exact fun _ => trivial
  · rintro ⟨frame, wait⟩ member
    rw [tasks] at member
    have awaits := h.awaits _ member
    cases wait with
    | ready result =>
        rintro id g closing rfl
        rw [(current g (h.owns _ member).1).2]
        exact awaits id g closing rfl
    | exit g =>
        refine ⟨?_, awaits.2⟩
        rw [live g (wired.running g awaits.1)]
        exact awaits.1
    | reply g n =>
        refine ⟨?_, awaits.2⟩
        obtain ⟨call, listed⟩ := awaits.1
        have open_ : (w.codex g).closed = false := by
          by_contra closed
          have := (wired.closed g (by simpa using closed)).1
          rw [this] at listed
          cases listed
        rw [live g (wired.connected g open_)]
        exact ⟨call, listed⟩

theorem answer_fades (wired : w.Wired) (g n : Nat) (i : Nat) :
    (w.codex i).Fades ((w.setCodex g fun c => { c with
      pending := c.pending.filter (·.1 ≠ n) }).codex i) := by
  refine wired.setCodex_fades (g := g) (f := fun c => { c with
    pending := c.pending.filter (·.1 ≠ n) }) ?_ i
  refine ⟨rfl, rfl, fun h => h, .inl rfl, fun h => h, fun closed => ?_⟩
  have empty := wired.closed g closed
  exact ⟨by simp [empty.1], empty.2⟩

/-- A request is answered, and its promise settles. -/
theorem settle (h : w.Waiting) (wired : w.Wired) (g n : Nat) (result : Except Err Json) :
    (w.answer g n (List.map (Task.settle g n result))).Waiting := by
  refine h.map rfl rfl rfl (answer_fades wired g n) (Task.settle_frame g n result) ?_
  rintro ⟨frame, wait⟩ - awaits
  have process : ∀ i, ((w.answer g n (List.map (Task.settle g n result))).codex i).process =
      (w.codex i).process := by
    intro i
    by_cases eq : i = g
    · subst eq
      simp [answer]
    · simp [answer, setCodex_ne w _ eq]
  cases wait with
  | ready result => simpa only [Awaits, Task.settle, process] using awaits
  | exit i => simpa only [Awaits, Task.settle, process] using awaits
  | reply i k =>
      by_cases eq : i = g ∧ k = n
      · have kind : ∀ id j closing, frame ≠ .released id j closing := by
          rintro id j closing rfl
          exact awaits.2
        simpa only [Task.settle, eq, and_self, if_true] using ready_awaits kind
      · obtain ⟨⟨call, listed⟩, kind⟩ := awaits
        simp only [Task.settle, eq, if_false]
        refine ⟨⟨call, ?_⟩, kind⟩
        by_cases same : i = g
        · subst same
          have : k ≠ n := fun h => eq ⟨rfl, h⟩
          simpa [answer, this] using listed
        · simpa [answer, setCodex_ne w _ same] using listed

/-- A request is answered, and its promise never settles. -/
theorem drop (h : w.Waiting) (wired : w.Wired) (g n : Nat) :
    (w.answer g n (List.filter fun t => !t.awaits g n)).Waiting where
  owns := by
    intro t member
    exact (h.owns t (List.mem_filter.mp member).1).fades rfl rfl (answer_fades wired g n)
  awaits := by
    rintro ⟨frame, wait⟩ member
    obtain ⟨old, other⟩ := List.mem_filter.mp member
    have awaits := h.awaits _ old
    have process : ∀ i, ((w.answer g n (List.filter fun t => !t.awaits g n)).codex i).process =
        (w.codex i).process := by
      intro i
      by_cases eq : i = g
      · subst eq
        simp [answer]
      · simp [answer, setCodex_ne w _ eq]
    cases wait with
    | ready result => simpa only [Awaits, process] using awaits
    | exit i => simpa only [Awaits, process] using awaits
    | reply i k =>
        obtain ⟨⟨call, listed⟩, kind⟩ := awaits
        refine ⟨⟨call, ?_⟩, kind⟩
        by_cases same : i = g
        · subst same
          have : k ≠ n := by simpa [Task.awaits] using other
          simpa [answer, this] using listed
        · simpa [answer, setCodex_ne w _ same] using listed

/-- The process exits, and the tasks that waited for it continue. -/
theorem exited (h : w.Waiting) (wired : w.Wired) (g : Nat) :
    World.Waiting { w.setCodex g fun c => { c with process := .exited } with
      tasks := w.tasks.map (Task.exit g) } := by
  refine h.map rfl rfl rfl ?_ (Task.exit_frame g) ?_
  · exact wired.setCodex_fades (g := g) (f := fun c => { c with process := .exited })
      ⟨rfl, rfl, fun h => h, .inl rfl, (fun h => nomatch h), wired.closed g⟩
  · rintro ⟨frame, wait⟩ - awaits
    cases wait with
    | ready result =>
        intro id i closing same
        have := awaits id i closing same
        by_cases eq : i = g
        · subst eq
          simp
        · simpa [setCodex_ne w _ eq] using this
    | exit i =>
        by_cases eq : i = g
        · obtain ⟨-, id, closing, rfl⟩ := awaits
          subst eq
          simp only [Task.exit, if_true]
          rintro _ _ _ ⟨⟩
          simp
        · simpa [Awaits, Task.exit, eq, setCodex_ne w _ eq] using awaits
    | reply i n =>
        by_cases eq : i = g
        · subst eq
          simpa [Awaits, Task.exit] using awaits
        · simpa [Awaits, Task.exit, setCodex_ne w _ eq] using awaits

/-- The process of an open runtime is spawned; nothing waits for its exit yet. -/
theorem spawned (h : w.Waiting) {g : Nat} (open_ : (w.codex g).closed = false) :
    (w.setCodex g fun c => { c with process := .running }).Waiting := by
  have same : ∀ i, (w.setCodex g fun c => { c with process := .running }).codex i =
      { w.codex i with process := if i = g then .running else (w.codex i).process } := by
    intro i
    by_cases eq : i = g
    · subst eq
      simp
    · simp [setCodex_ne w _ eq, eq]
  constructor
  · intro t member
    have owns := h.owns t member
    revert owns
    unfold Owns
    simp only [same]
    exact fun owns => owns
  · rintro ⟨frame, wait⟩ member
    have awaits := h.awaits _ member
    cases wait with
    | ready result =>
        rintro id i closing rfl
        have closed := (h.owns _ member).2.1
        have ne : i ≠ g := by
          rintro rfl
          simp [open_] at closed
        rw [setCodex_ne w _ ne]
        exact awaits id i closing rfl
    | exit i =>
        refine ⟨?_, awaits.2⟩
        rw [same]
        dsimp only
        split
        · rfl
        · exact awaits.1
    | reply i n => simpa only [Awaits, same] using awaits

end Waiting

theorem Interrupts.keep (h : w.Interrupts) (frames : ∀ frame,
      frame ∈ w'.tasks.map Task.frame → frame ∈ w.tasks.map Task.frame)
    (grows : w.db.Grows w'.db) : w'.Interrupts := by
  intro id member
  obtain ⟨r, found, started⟩ := h id (frames _ member)
  obtain ⟨r', found', le⟩ := grows id r found
  exact ⟨r', found', List.length_pos_iff.mp ((List.length_pos_iff.mpr started).trans_le le)⟩

theorem Interrupts.push (h : w.Interrupts) {t : Task}
    (started : ∀ id, t.frame = .interrupted id →
      ∃ r, w.db.runs.lookup id = some r ∧ r.attempts ≠ []) : (w.push t).Interrupts := by
  intro id member
  simp only [World.push, List.map_append, List.mem_append, List.map_cons, List.map_nil,
    List.mem_singleton] at member
  rcases member with old | new
  · exact h id old
  · exact started id new.symm

/-! ## Requests of an attempt -/

theorem threadBudget_eq (w : World) (g : Nat) : w.threadBudget g =
    (w.tasks.map Task.frame).countP (·.launches g) + w.log.countP (·.isThreadStart g) := by
  simp only [threadBudget, List.countP_map, Function.comp_def]

theorem turnBudget_eq (w : World) (g : Nat) : w.turnBudget g =
    (w.tasks.map Task.frame).countP (·.precedesTurn g) + w.log.countP (·.isTurnStart g) := by
  simp only [turnBudget, List.countP_map, Function.comp_def]

namespace Accounted

theorem of_le (h : w.Accounted) (created : w.created ≤ w'.created)
    (thread : ∀ g, w'.threadBudget g ≤ w.threadBudget g)
    (turn : ∀ g, w'.turnBudget g ≤ w.turnBudget g) : w'.Accounted where
  thread := fun g => (thread g).trans (h.thread g)
  turn := fun g => (turn g).trans (h.turn g)
  unused := by
    intro g new
    have := h.unused g (created.trans new)
    have := thread g
    have := turn g
    omega

/-- Tasks continue at the same frames or disappear, and the log gets other entries. -/
theorem keep (h : w.Accounted) (created : w.created ≤ w'.created)
    (tasks : (w'.tasks.map Task.frame).Sublist (w.tasks.map Task.frame))
    (log : ∃ entries, w'.log = entries ++ w.log ∧ ∀ e ∈ entries, Entry.isOther e) :
    w'.Accounted := by
  obtain ⟨entries, log, other⟩ := log
  have none : ∀ g, entries.countP (·.isThreadStart g) = 0 ∧
      entries.countP (·.isTurnStart g) = 0 := by
    intro g
    simp only [List.countP_eq_zero, Bool.not_eq_true]
    exact ⟨fun e member => (other e member g).1, fun e member => (other e member g).2⟩
  refine h.of_le created ?_ ?_ <;> intro g
  · rw [threadBudget_eq, threadBudget_eq, log, List.countP_append, (none g).1]
    have := tasks.countP_le (p := fun frame : Frame => frame.launches g)
    omega
  · rw [turnBudget_eq, turnBudget_eq, log, List.countP_append, (none g).2]
    have := tasks.countP_le (p := fun frame : Frame => frame.precedesTurn g)
    omega

theorem push (h : w.Accounted) {t : Task} (owns : w.Owns t.frame) (allows : w.Allows t.frame) :
    (w.push t).Accounted := by
  have thread : ∀ g, (w.push t).threadBudget g =
      w.threadBudget g + if t.frame.launches g then 1 else 0 := by
    intro g
    simp only [threadBudget, World.push, List.countP_append, List.countP_singleton]
    omega
  have turn : ∀ g, (w.push t).turnBudget g =
      w.turnBudget g + if t.frame.precedesTurn g then 1 else 0 := by
    intro g
    simp only [turnBudget, World.push, List.countP_append, List.countP_singleton]
    omega
  have launch : ∀ g, t.frame.precedesTurn g = true →
      w.threadBudget g = 0 ∧ w.turnBudget g = 0 ∧ g < w.created := by
    intro g precedes
    revert owns allows precedes
    cases t.frame with
    | handshake i caller =>
        cases caller with
        | execute id k directory =>
            simp only [Frame.precedesTurn, beq_iff_eq]
            rintro owns allows rfl
            exact ⟨allows.1, allows.2, owns.1.2⟩
        | reconcile => simp [Frame.precedesTurn]
    | connected i caller =>
        cases caller with
        | execute id k directory =>
            simp only [Frame.precedesTurn, beq_iff_eq]
            rintro owns allows rfl
            exact ⟨allows.1, allows.2, owns.1.2⟩
        | reconcile => simp [Frame.precedesTurn]
    | threadStarted id i k =>
        simp only [Frame.precedesTurn, beq_iff_eq]
        rintro owns allows rfl
        exact ⟨allows.1, allows.2, owns.1.2⟩
    | _ => simp [Frame.precedesTurn]
  constructor
  case thread =>
      intro g
      rw [thread]
      have := h.thread g
      split
      · rename_i launches
        have := launch g (Frame.precedesTurn_of_launches launches)
        omega
      · omega
  case turn =>
      intro g
      rw [turn]
      have := h.turn g
      split
      · rename_i precedes
        have := launch g precedes
        omega
      · omega
  case unused =>
      intro g new
      have old := h.unused g new
      rw [thread, turn, old.1, old.2]
      have : t.frame.precedesTurn g = false := by
        by_contra precedes
        have := (launch g (by simpa using precedes)).2.2
        simp only [World.push] at new
        omega
      have : t.frame.launches g = false := by
        by_contra launches
        have launches : t.frame.launches g = true := by simpa using launches
        simp_all [Frame.precedesTurn_of_launches launches]
      simp [*]

theorem sent (h : w.Accounted) {g n : Nat} {call : Rpc} (range : g < w.created)
    (thread : ∀ directory, call = .threadStart directory → w.threadBudget g = 0)
    (turn : ∀ threadId task, call = .turnStart threadId task → w.turnBudget g = 0) :
    (w.wrote g (.request n call)).Accounted := by
  have threads : ∀ i, (w.wrote g (.request n call)).threadBudget i =
      w.threadBudget i + if (Entry.wrote g (.request n call)).isThreadStart i then 1 else 0 := by
    intro i
    simp only [threadBudget, World.wrote, List.countP_cons]
    omega
  have turns : ∀ i, (w.wrote g (.request n call)).turnBudget i =
      w.turnBudget i + if (Entry.wrote g (.request n call)).isTurnStart i then 1 else 0 := by
    intro i
    simp only [turnBudget, World.wrote, List.countP_cons]
    omega
  have isThread : ∀ i, (Entry.wrote g (.request n call)).isThreadStart i = true →
      i = g ∧ w.threadBudget g = 0 := by
    intro i starts
    cases call with
    | threadStart directory =>
        exact ⟨(by simpa [Entry.isThreadStart] using starts : g = i).symm, thread directory rfl⟩
    | _ => simp [Entry.isThreadStart] at starts
  have isTurn : ∀ i, (Entry.wrote g (.request n call)).isTurnStart i = true →
      i = g ∧ w.turnBudget g = 0 := by
    intro i starts
    cases call with
    | turnStart threadId task =>
        exact ⟨(by simpa [Entry.isTurnStart] using starts : g = i).symm, turn threadId task rfl⟩
    | _ => simp [Entry.isTurnStart] at starts
  constructor
  case thread =>
      intro i
      rw [threads]
      have := h.thread i
      split
      · obtain ⟨rfl, zero⟩ := isThread i ‹_›
        omega
      · omega
  case turn =>
      intro i
      rw [turns]
      have := h.turn i
      split
      · obtain ⟨rfl, zero⟩ := isTurn i ‹_›
        omega
      · omega
  case unused =>
      intro i new
      rw [threads, turns]
      have old := h.unused i new
      simp only [World.wrote] at new
      constructor
      · split
        · obtain ⟨rfl, -⟩ := isThread i ‹_›
          omega
        · omega
      · split
        · obtain ⟨rfl, -⟩ := isTurn i ‹_›
          omega
        · omega

end Accounted

end World

end Mathmodel
