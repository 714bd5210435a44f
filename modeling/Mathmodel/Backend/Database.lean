import Mathmodel.Backend.Durable

/-!
# The database under transactions

`Db.Sound` collects what holds of the tables after every commit: rows are stored
under their own id, every run is sound, one run at most holds the execution slot,
and the events of a run are numbered without a gap. `Db.Writes` is the inversion
of a transaction that saved a run, and the last section shows that the
transactions the service relies on in its error paths cannot fail.
-/

namespace Mathmodel

namespace Db

theorem run_ok {db : Db} {id : String} {r : Run} :
    db.run id = .ok r ↔ db.runs.lookup id = some r := by
  unfold run
  cases db.runs.lookup id with
  | none => simp [throw, throwThe, MonadExceptOf.throw]
  | some s => simp [pure, Except.pure]

theorem mem_allRuns {db : Db} {r : Run} :
    r ∈ db.allRuns ↔ ∃ id, db.runs.lookup id = some r := by
  simp only [allRuns, List.mem_insertionSort, List.mem_map]
  constructor
  · rintro ⟨⟨id, s⟩, member, rfl⟩
    exact ⟨id, AList.mem_lookup_iff.mpr member⟩
  · rintro ⟨id, found⟩
    exact ⟨⟨id, r⟩, AList.mem_lookup_iff.mp found, rfl⟩

/-- Number of the last event of a run, zero before the run exists. -/
def lastSequenceOf (db : Db) (id : String) : Nat :=
  match db.runs.lookup id with
  | some r => r.lastSequence
  | none => 0

/-- The invariant of the tables. -/
structure Sound (db : Db) : Prop where
  keyed : ∀ id r, db.runs.lookup id = some r → r.runId = id
  runs : ∀ id r, db.runs.lookup id = some r → r.Sound
  slot : ∀ id r id' r', db.runs.lookup id = some r → db.runs.lookup id' = some r' →
    r.status.isOccupied = true → r'.status.isOccupied = true → id = id'
  sequences : ∀ id, (db.eventsOf id).map Event.sequence = List.range' 1 (db.lastSequenceOf id)
  versions : ∀ e ∈ db.events, e.stateVersion = e.sequence

theorem empty_sound : Db.empty.Sound where
  keyed := by simp [empty]
  runs := by simp [empty]
  slot := by simp [empty]
  sequences := by simp [empty, eventsOf, lastSequenceOf]
  versions := by simp [empty]

@[simp] theorem write_lookup_self (db : Db) (r : Run) (e : Event) :
    (db.write r e).runs.lookup r.runId = some r := by
  simp [write]

theorem write_lookup_ne (db : Db) (r : Run) (e : Event) {id : String} (h : id ≠ r.runId) :
    (db.write r e).runs.lookup id = db.runs.lookup id := by
  simp [write, AList.lookup_insert_ne h]

theorem write_lookup {db : Db} {r s : Run} {e : Event} {id : String}
    (h : (db.write r e).runs.lookup id = some s) :
    (id = r.runId ∧ s = r) ∨ (id ≠ r.runId ∧ db.runs.lookup id = some s) := by
  by_cases same : id = r.runId
  · subst same
    rw [write_lookup_self, Option.some.injEq] at h
    exact .inl ⟨rfl, h.symm⟩
  · rw [write_lookup_ne db r e same] at h
    exact .inr ⟨same, h⟩

theorem Sound.hasEvent_iff {db : Db} (h : db.Sound) (id : String) (n : Nat) :
    db.hasEvent id n = true ↔ 1 ≤ n ∧ n ≤ db.lastSequenceOf id := by
  have member : n ∈ (db.eventsOf id).map Event.sequence ↔ db.hasEvent id n = true := by
    simp [hasEvent, eventsOf, and_assoc]
  rw [← member, h.sequences id, List.mem_range'_1]
  omega

/-- The invariant is kept by a write of the next version of one run. -/
theorem Sound.write {db : Db} (h : db.Sound) {m : Moment} {r : Run} {type : EventType}
    {payload : Json} (sound : r.Sound)
    (next : r.lastSequence = db.lastSequenceOf r.runId + 1)
    (free : r.status.isOccupied = true → ∀ id s, id ≠ r.runId → db.runs.lookup id = some s →
      s.status.isOccupied = false) :
    (db.write r (eventOf m r type payload)).Sound where
  keyed := by
    intro id s found
    obtain ⟨rfl, rfl⟩ | ⟨-, found⟩ := write_lookup found
    · rfl
    · exact h.keyed id s found
  runs := by
    intro id s found
    obtain ⟨-, rfl⟩ | ⟨-, found⟩ := write_lookup found
    · exact sound
    · exact h.runs id s found
  slot := by
    intro id s id' s' found found' occupied occupied'
    obtain ⟨same, rfl⟩ | ⟨other, old⟩ := write_lookup found <;>
      obtain ⟨same', rfl⟩ | ⟨other', old'⟩ := write_lookup found'
    · rw [same, same']
    · simp [free occupied _ _ other' old'] at occupied'
    · simp [free occupied' _ _ other old] at occupied
    · exact h.slot id s id' s' old old' occupied occupied'
  sequences := by
    intro id
    by_cases same : id = r.runId
    · subst same
      have last : (db.write r (eventOf m r type payload)).lastSequenceOf r.runId =
          r.lastSequence := by simp [lastSequenceOf]
      have old := h.sequences r.runId
      simp only [eventsOf] at old
      rw [last, next, List.range'_1_concat, ← old]
      simp [eventsOf, Db.write, eventOf, next, Nat.add_comm]
    · have last : (db.write r (eventOf m r type payload)).lastSequenceOf id =
          db.lastSequenceOf id := by
        simp only [lastSequenceOf, write_lookup_ne db r _ same]
      rw [last, ← h.sequences id]
      have : ¬r.runId = id := fun h => same h.symm
      simp [eventsOf, Db.write, eventOf, this]
  versions := by
    intro e member
    simp only [Db.write, List.mem_append, List.mem_singleton] at member
    rcases member with old | rfl
    · exact h.versions e old
    · exact sound.level

/-- The transaction loaded `r` and saved the next version of it. -/
structure Writes (db : Db) (m : Moment) (id : String) (change : Change) (r r' : Run)
    (db' : Db) : Prop where
  found : db.runs.lookup id = some r
  saves : change.Saves m r r'
  valid : (bump m r').Valid
  result : ∃ type payload, payload.isObject = true ∧
    db' = db.write (bump m r') (eventOf m (bump m r') type payload)

/-- What a committed `store.update` did: it saved the run once, or not at all. -/
inductive Updates (db : Db) (m : Moment) (id : String) (change : Change) : Db → Prop where
  | same {r : Run} (found : db.runs.lookup id = some r) (skipped : change.apply m r = .ok none) :
      Updates db m id change db
  | wrote {r r' : Run} {db' : Db} (h : db.Writes m id change r r' db') :
      Updates db m id change db'

theorem save_ok {db db' : Db} {m : Moment} {r r' : Run} {type : EventType} {payload : Json}
    (h : db.save m r type payload = .ok (r', db')) :
    r' = bump m r ∧ (bump m r).Valid ∧ payload.isObject = true ∧
      db' = db.write (bump m r) (eventOf m (bump m r) type payload) := by
  simp only [save] at h
  split at h
  · cases h
  · rename_i valid
    split at h
    · cases h
    · rename_i object
      split at h
      · cases h
      · cases h
        exact ⟨rfl, by simpa using valid, by simpa using object, rfl⟩

theorem update_ok {db db' : Db} {m : Moment} {id : String} {change : Change}
    (h : db.update m id change = .ok db') : db.Updates m id change db' := by
  obtain ⟨r, found, h⟩ := Change.bind_ok h
  rw [run_ok] at found
  obtain ⟨saved, applied, h⟩ := Change.bind_ok h
  cases saved with
  | none =>
      cases h
      exact .same found applied
  | some saved =>
      obtain ⟨⟨s, next⟩, stored, h⟩ := Change.bind_ok h
      cases h
      obtain ⟨-, valid, object, result⟩ := save_ok stored
      exact .wrote ⟨found, Change.apply_saves applied, valid, _, _, object, result⟩

namespace Writes

variable {db db' : Db} {m : Moment} {id : String} {change : Change} {r r' : Run}

theorem bump_runId (h : db.Writes m id change r r' db') (sound : db.Sound) :
    (bump m r').runId = id := by
  simp only [bump, h.saves.runId, sound.keyed id r h.found]

theorem lookup_self (h : db.Writes m id change r r' db') (sound : db.Sound) :
    db'.runs.lookup id = some (bump m r') := by
  obtain ⟨type, payload, -, rfl⟩ := h.result
  rw [← h.bump_runId sound, write_lookup_self]

theorem lookup_ne (h : db.Writes m id change r r' db') (sound : db.Sound) {other : String}
    (ne : other ≠ id) : db'.runs.lookup other = db.runs.lookup other := by
  obtain ⟨type, payload, -, rfl⟩ := h.result
  exact write_lookup_ne db _ _ (by rwa [h.bump_runId sound])

/-- Where a run of the new database comes from. -/
theorem lookup (h : db.Writes m id change r r' db') (sound : db.Sound) {other : String}
    {s : Run} (found : db'.runs.lookup other = some s) :
    (other = id ∧ s = bump m r') ∨ (other ≠ id ∧ db.runs.lookup other = some s) := by
  by_cases same : other = id
  · subst same
    rw [h.lookup_self sound, Option.some.injEq] at found
    exact .inl ⟨rfl, found.symm⟩
  · rw [h.lookup_ne sound same] at found
    exact .inr ⟨same, found⟩

/-- An admissible write keeps the database sound. A command that takes the slot
must have seen it free. -/
theorem sound (h : db.Writes m id change r r' db') (sound : db.Sound)
    (ok : change.Admissible r)
    (free : ∀ view op, change = .command view op → view.occupied = false →
      ∀ id s, db.runs.lookup id = some s → s.status.isOccupied = false) : db'.Sound := by
  obtain ⟨type, payload, -, rfl⟩ := h.result
  refine sound.write (h.saves.sound (sound.runs id r h.found) ok h.valid) ?_ ?_
  · rw [h.bump_runId sound]
    simp only [bump, lastSequenceOf, h.found, h.saves.identity.2.2.2.2]
  · intro occupied other s ne found
    rw [h.bump_runId sound] at ne
    obtain held | ⟨view, op, rfl, -, unoccupied⟩ :=
      h.saves.isOccupied (sound.runs id r h.found) ok occupied
    · by_contra busy
      exact ne (sound.slot other s id r found h.found (by simpa using busy) held)
    · exact free view op rfl unoccupied other s found

end Writes

/-- A save of the next version succeeds when the record fits the schema. -/
theorem Sound.update_wrote {db : Db} (h : db.Sound) (m : Moment) (change : Change)
    {id : String} {r : Run} {saved : Saved} (found : db.runs.lookup id = some r)
    (applied : change.apply m r = .ok (some saved)) (valid : (bump m saved.run).Valid)
    (payload : saved.payload.isObject = true) :
    ∃ db', db.update m id change = .ok db' ∧ db.Writes m id change r saved.run db' := by
  have saves := Change.apply_saves applied
  have runId : saved.run.runId = id := by rw [saves.runId, h.keyed id r found]
  have unused : db.hasEvent saved.run.runId (saved.run.lastSequence + 1) = false := by
    rw [← Bool.not_eq_true, h.hasEvent_iff, runId]
    simp only [lastSequenceOf, found, saves.identity.2.2.2.2]
    omega
  refine ⟨db.write (bump m saved.run) (eventOf m (bump m saved.run) saved.type saved.payload),
    ?_, found, saves, valid, _, _, payload, rfl⟩
  have stored : db.save m saved.run saved.type saved.payload =
      .ok (bump m saved.run, db.write (bump m saved.run)
        (eventOf m (bump m saved.run) saved.type saved.payload)) := by
    simp only [save]
    rw [if_neg (by simpa using valid), if_neg (by simp [payload]),
      if_neg (by simpa [bump] using unused)]
    rfl
  simp only [update, run_ok.mpr found, applied, stored, bind, Except.bind, pure, Except.pure]

end Db

namespace Run

theorem Valid.bump {r : Run} (h : r.Valid) (m : Moment) : (Db.bump m r).Valid :=
  ⟨h.1, by simp [Db.bump], by simp [Db.bump], h.2.2.2⟩

theorem Valid.expire {r : Run} (h : r.Valid) : r.expire.Valid := by
  obtain ⟨task, version, sequence, attempts, approvals, review⟩ := h
  refine ⟨task, version, sequence, attempts, ⟨?_, ?_⟩, review⟩
  · simpa [Run.expire] using approvals.1
  · simp only [Run.expire, List.mem_map]
    rintro _ ⟨a, member, rfl⟩
    split
    · exact approvals.2 a member
    · exact approvals.2 a member

theorem Valid.setLast {r : Run} (h : r.Valid) {a b : Attempt} (last : r.lastAttempt = some a)
    (valid : b.Valid) : (r.setLast b).Valid := by
  obtain ⟨task, version, sequence, attempts, approvals, review⟩ := h
  refine ⟨task, version, sequence, ⟨?_, ?_⟩, approvals, review⟩
  · rw [setLast_length last]
    exact attempts.1
  · intro c member
    simp only [Run.setLast, List.mem_append, List.mem_singleton] at member
    rcases member with old | rfl
    · exact attempts.2 c (List.dropLast_subset _ old)
    · exact valid

theorem Valid.lastAttempt {r : Run} (h : r.Valid) {a : Attempt} (last : r.lastAttempt = some a) :
    a.Valid :=
  h.2.2.2.1.2 a (List.mem_of_getLast? last)

end Run

namespace Db.Sound

variable {db : Db} {id : String} {r : Run}

/-- Marking a started run uncertain always commits. -/
theorem update_uncertain (h : db.Sound) (m : Moment) (message : String)
    (found : db.runs.lookup id = some r) (started : r.attempts ≠ []) :
    ∃ r' db', db.update m id (.uncertain message) = .ok db' ∧
      db.Writes m id (.uncertain message) r r' db' := by
  obtain ⟨a, last⟩ := Option.isSome_iff_exists.mp (Run.lastAttempt_isSome_iff.mpr started)
  have valid := (h.runs id r found).valid
  have valid' : (({ r with status := .recoveryRequired } : Run).expire).Valid :=
    Run.Valid.expire valid
  have same : ({ r with status := .recoveryRequired } : Run).expire.lastAttempt = some a := last
  refine ⟨_, h.update_wrote m (.uncertain message) found
    (by simp only [Change.apply, same]; rfl) ?_ rfl⟩
  refine (valid'.setLast same ?_).bump m
  obtain ⟨number, thread, turn, result, error⟩ := valid.lastAttempt last
  exact ⟨number, thread, turn, result, by simp [slice_length_le]⟩

/-- Failing a started run before dispatch always commits. -/
theorem update_failBeforeDispatch (h : db.Sound) (m : Moment) (message : String)
    (found : db.runs.lookup id = some r) (started : r.attempts ≠ []) :
    ∃ r' db', db.update m id (.failBeforeDispatch message) = .ok db' ∧
      db.Writes m id (.failBeforeDispatch message) r r' db' := by
  obtain ⟨a, last⟩ := Option.isSome_iff_exists.mp (Run.lastAttempt_isSome_iff.mpr started)
  have valid := (h.runs id r found).valid
  refine ⟨_, h.update_wrote m (.failBeforeDispatch message) found
    (by simp only [Change.apply, Run.attempt, last]; rfl) ?_ rfl⟩
  have valid' := valid.setLast last (b := { a with
    status := .failed, error := some (slice message 2000), finishedAt := some m.time }) (by
      obtain ⟨number, thread, turn, result, error⟩ := valid.lastAttempt last
      exact ⟨number, thread, turn, result, by simp [slice_length_le]⟩)
  exact Run.Valid.bump (Run.Valid.expire valid') m

/-- Starting the attempt of a queued run always commits. -/
theorem update_startAttempt (h : db.Sound) (m : Moment)
    (found : db.runs.lookup id = some r) (status : r.status = .queued) :
    ∃ r' db', db.update m id .startAttempt = .ok db' ∧
      db.Writes m id .startAttempt r r' db' := by
  have sound := h.runs id r found
  obtain ⟨task, version, sequence, attempts, approvals, review⟩ := sound.valid
  refine ⟨_, h.update_wrote m .startAttempt found
    (by simp only [Change.apply, status, ne_eq, not_true, if_false]; rfl) ?_ rfl⟩
  refine Run.Valid.bump (r := { r with
    status := .starting, attempts := r.attempts ++ [Change.newAttempt m r] })
      ⟨task, version, sequence, ⟨?_, ?_⟩, approvals, review⟩ m
  · have := sound.room status
    simp only [List.length_append, List.length_singleton]
    omega
  · intro a member
    simp only [List.mem_append, List.mem_singleton] at member
    rcases member with old | rfl
    · exact attempts.2 a old
    · exact ⟨by simp [Change.newAttempt], by simp [Change.newAttempt],
        by simp [Change.newAttempt], by simp [Change.newAttempt], by simp [Change.newAttempt]⟩

/-- A withdrawn request always commits; without a pending approval for it nothing
is saved. -/
theorem update_resolvedByRuntime (h : db.Sound) (m : Moment) (requestId : Option Json)
    (found : db.runs.lookup id = some r) :
    (∃ r' db', db.update m id (.resolvedByRuntime requestId) = .ok db' ∧
      db.Writes m id (.resolvedByRuntime requestId) r r' db') ∨
    (db.update m id (.resolvedByRuntime requestId) = .ok db ∧
      ∀ a ∈ r.approvals, a.status = .pending → some a.requestId ≠ requestId) := by
  cases first : r.approvals.find? (fun a => some a.requestId == requestId &&
      a.status == .pending) with
  | none =>
      right
      constructor
      · simp only [update, run_ok.mpr found, Change.apply, first, bind, Except.bind, pure,
          Except.pure]
      · intro a member pending same
        have := List.find?_eq_none.mp first a member
        simp [pending, same] at this
  | some approval =>
      left
      obtain ⟨task, version, sequence, attempts, approvals, review⟩ :=
        (h.runs id r found).valid
      refine ⟨_, h.update_wrote m (.resolvedByRuntime requestId) found
        (by simp only [Change.apply, first]; rfl) ?_ rfl⟩
      refine Run.Valid.bump (r := { r with
        approvals := replaceFirst _ _ r.approvals, status := _ })
        ⟨task, version, sequence, attempts, ⟨?_, ?_⟩, review⟩ m
      · rw [replaceFirst_length]
        exact approvals.1
      · intro a member
        obtain old | ⟨b, old, -, rfl⟩ := mem_replaceFirst member
        · exact approvals.2 a old
        · exact approvals.2 b old

end Db.Sound

end Mathmodel
