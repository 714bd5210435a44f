import Mathmodel.Backend.History

/-!
# Reading the events in pages

`events` returns a page of the log of one run: the events after a cursor, in order,
up to a limit, and the cursor to continue from. A reader calls it again and again
while the service goes on, so what it collects is stated for a whole sequence of
calls with any steps of the service between them.

The rows of a run are numbered from one without a gap and never change. So the
events after a cursor are what is left of the rows when as many are dropped, and a
cursor is the number of rows that have been read.
-/

namespace Mathmodel

/-- The largest number `n` with `Number.isSafeInteger(n)`. -/
def maxSafeInteger : Nat := 9007199254740991

/-- The test `Number.isSafeInteger(x)`, for a number by the integer it is, if it is one. -/
def isSafeInteger : Option Int → Bool
  | some i => decide (i.natAbs ≤ maxSafeInteger)
  | none => false

/-- What `events` returns. -/
structure Page where
  events : List Event
  nextSequence : Int

namespace Db

/-- The rows that `SELECT body FROM events` finds for a run after a sequence number. -/
def selectEvents (db : Db) (id : String) (after limit : Int) : List Event :=
  (((db.eventsOf id).filter fun e => decide (after < e.sequence)).insertionSort
    fun a b => a.sequence ≤ b.sequence).take limit.toNat

/-- The function `events` of the store. A number argument is given by the integer it is. -/
def eventsPage (db : Db) (id : String) (after limit : Option Int) : Except Err Page := do
  let _ ← db.run id
  match after, limit with
  | some cursor, some size =>
      if !isSafeInteger after || decide (cursor < 0) || !isSafeInteger limit ||
          decide (size < 1) || decide (500 < size) then
        throw (.domain .invalidRequest "Invalid event cursor or limit")
      else
        let events := db.selectEvents id cursor size
        return ⟨events, (events.getLast?.map fun e => (e.sequence : Int)).getD cursor⟩
  | _, _ => throw (.domain .invalidRequest "Invalid event cursor or limit")

end Db

section Numbered

variable {α : Type} {number : α → Nat} {l : List α} {start : Nat}

/-- In a list that is numbered without a gap the entries after a number are a rest of it. -/
theorem filter_eq_drop (numbered : l.map number = List.range' start l.length) (a : Nat)
    (above : start ≤ a + 1) :
    (l.filter fun e => decide (a < number e)) = l.drop (a + 1 - start) := by
  induction l generalizing start with
  | nil => simp
  | cons e rest ih =>
      rw [List.map_cons, List.length_cons, List.range'_succ, List.cons.injEq] at numbered
      obtain ⟨first, others⟩ := numbered
      by_cases reached : start = a + 1
      · have all : ∀ x ∈ e :: rest, decide (a < number x) = true := by
          intro x mem
          have listed : number x ∈ (e :: rest).map number := List.mem_map_of_mem mem
          rw [List.map_cons, first, others, List.mem_cons, List.mem_range'_1] at listed
          rw [decide_eq_true_iff]
          omega
        rw [List.filter_eq_self.mpr all, reached, Nat.sub_self, List.drop_zero]
      · have below : ¬ a < number e := by omega
        have shift : a + 1 - start = (a + 1 - (start + 1)) + 1 := by omega
        rw [List.filter_cons_of_neg (by simpa using below), ih others (by omega), shift,
          List.drop_succ_cons]

/-- The beginning and the rest of such a list are numbered in the same way. -/
theorem numbered_take (numbered : l.map number = List.range' start l.length) {c : Nat}
    (within : c ≤ l.length) : (l.take c).map number = List.range' start (l.take c).length := by
  rw [List.map_take, numbered, List.take_range'_of_length_ge within, List.length_take_of_le within]

theorem numbered_drop (numbered : l.map number = List.range' start l.length) (c : Nat) :
    (l.drop c).map number = List.range' (start + c) (l.drop c).length := by
  rw [List.map_drop, numbered, List.drop_range', Nat.mul_one, List.length_drop]

/-- The entries between two numbers lie between the two places. -/
theorem filter_eq_drop_take (numbered : l.map number = List.range' 1 l.length) {c : Nat}
    (within : c ≤ l.length) (a : Nat) :
    (l.filter fun e => decide (a < number e ∧ number e ≤ c)) = (l.take c).drop a := by
  have before : (l.take c).filter (fun e => decide (a < number e ∧ number e ≤ c)) =
      (l.take c).filter fun e => decide (a < number e) := by
    refine List.filter_congr fun e mem => ?_
    have listed := List.mem_map_of_mem (f := number) mem
    rw [numbered_take numbered within, List.length_take_of_le within, List.mem_range'_1] at listed
    rw [decide_eq_decide]
    omega
  have after : (l.drop c).filter (fun e => decide (a < number e ∧ number e ≤ c)) = [] := by
    refine List.filter_eq_nil_iff.mpr fun e mem => ?_
    have listed := List.mem_map_of_mem (f := number) mem
    rw [numbered_drop numbered, List.mem_range'_1] at listed
    rw [decide_eq_true_iff]
    omega
  calc l.filter (fun e => decide (a < number e ∧ number e ≤ c))
      = (l.take c ++ l.drop c).filter (fun e => decide (a < number e ∧ number e ≤ c)) := by
        rw [List.take_append_drop]
    _ = (l.take c).filter fun e => decide (a < number e) := by
        rw [List.filter_append, before, after, List.append_nil]
    _ = (l.take c).drop a := by
        rw [filter_eq_drop (numbered_take numbered within) a (by omega), Nat.add_sub_cancel]

theorem sorted_of_numbered (numbered : l.map number = List.range' start l.length) :
    l.Pairwise fun a b => number a ≤ number b := by
  have increasing : (l.map number).Pairwise (· < ·) := by
    rw [numbered]
    exact List.pairwise_lt_range' 1
  exact (List.pairwise_map.mp increasing).imp fun h => h.le

theorem number_getElem (numbered : l.map number = List.range' start l.length) {i : Nat}
    (inside : i < l.length) : number (l.get ⟨i, inside⟩) = start + i := by
  have same : (l.map number)[i]? = (List.range' start l.length)[i]? := by rw [numbered]
  rw [List.getElem?_map, List.getElem?_eq_getElem inside, List.getElem?_range' inside] at same
  simpa using same

end Numbered

section Page

variable {db : Db} {id : String} {r : Run}

theorem Db.Sound.numbered (h : db.Sound) (id : String) :
    (db.eventsOf id).map Event.sequence = List.range' 1 (db.eventsOf id).length := by
  have numbers := h.sequences id
  have length := congrArg List.length numbers
  rw [List.length_map, List.length_range'] at length
  rw [numbers, length]

theorem Db.Sound.length_eventsOf (h : db.Sound) (found : db.runs.lookup id = some r) :
    (db.eventsOf id).length = r.lastSequence := by
  have length := congrArg List.length (h.sequences id)
  rw [List.length_map, List.length_range', Db.lastSequenceOf, found] at length
  exact length

/-- A page is what follows the cursor in the rows of the run, up to the limit. -/
theorem Db.Sound.selectEvents_eq (h : db.Sound) (id : String) (a limit : Nat) :
    db.selectEvents id a limit = ((db.eventsOf id).drop a).take limit := by
  have rest : (db.eventsOf id).filter (fun e => decide (((a : Nat) : Int) < (e.sequence : Int))) =
      (db.eventsOf id).drop a := by
    simp only [Int.ofNat_lt]
    exact filter_eq_drop (h.numbered id) a (by omega)
  have sorted : ((db.eventsOf id).drop a).Pairwise fun e e' => e.sequence ≤ e'.sequence :=
    (sorted_of_numbered (h.numbered id)).sublist (List.drop_sublist _ _)
  unfold Db.selectEvents
  rw [rest, List.Pairwise.insertionSort_eq sorted, Int.toNat_natCast]

/-- The cursor of a page is the number of rows up to its end. -/
theorem Db.Sound.next_selectEvents (h : db.Sound) (id : String) (a limit : Nat) :
    ((db.selectEvents id a limit).getLast?.map fun e => (e.sequence : Int)).getD a =
      ((a + (db.selectEvents id a limit).length : Nat) : Int) := by
  rw [h.selectEvents_eq]
  cases last : (((db.eventsOf id).drop a).take limit).getLast? with
  | none =>
      rw [List.getLast?_eq_none_iff] at last
      rw [last]
      rfl
  | some e =>
      have some_ : 0 < (((db.eventsOf id).drop a).take limit).length :=
        List.length_pos_iff.mpr fun none => by simp [none] at last
      rw [List.getLast?_eq_getElem?, List.getElem?_take_of_lt (by
        rw [List.length_take] at some_ ⊢
        omega), List.getElem?_drop] at last
      obtain ⟨inside, rfl⟩ := List.getElem?_eq_some_iff.mp last
      have number := number_getElem (h.numbered id) inside
      rw [List.get_eq_getElem] at number
      rw [Option.map_some, Option.getD_some, number]
      congr 1
      omega

/-- A call with a cursor in the log and an admissible limit returns such a page. -/
theorem Db.Sound.eventsPage_eq (h : db.Sound) (found : db.runs.lookup id = some r) {a limit : Nat}
    (safe : a ≤ maxSafeInteger) (least : 1 ≤ limit)
    (most : limit ≤ 500) :
    db.eventsPage id (some a) (some limit) = .ok
      ⟨((db.eventsOf id).drop a).take limit,
        ((a + (((db.eventsOf id).drop a).take limit).length : Nat) : Int)⟩ := by
  have run : db.run id = .ok r := Db.run_ok.mpr found
  have valid : (!isSafeInteger (some (a : Int)) || decide ((a : Int) < 0) ||
      !isSafeInteger (some (limit : Int)) || decide ((limit : Int) < 1) ||
      decide ((500 : Int) < limit)) = false := by
    have bound : limit ≤ maxSafeInteger := by
      unfold maxSafeInteger
      omega
    simp [isSafeInteger, safe, bound]
    omega
  have next := h.next_selectEvents id a limit
  unfold Db.eventsPage
  rw [run, ← h.selectEvents_eq, ← next]
  change (if _ then _ else _) = _
  rw [valid]
  rfl

end Page

/-- A reader that follows `next_sequence` from the cursor `a` on, while the service goes on:
where it started, what it has collected, and the cursor it continues from. -/
inductive Paging (env : Env) (id : String) (start : World) (a : Int) :
    List Event → World → Int → Prop where
  | start : Paging env id start a [] start a
  | step {events : List Event} {w w' : World} {cursor : Int} {action : Action}
      (reading : Paging env id start a events w cursor) (taken : Step env w action w') :
      Paging env id start a events w' cursor
  | page {events : List Event} {w : World} {cursor limit : Int} {page : Page}
      (reading : Paging env id start a events w cursor) (least : 1 ≤ limit) (most : limit ≤ 500)
      (returned : w.db.eventsPage id (some cursor) (some limit) = .ok page) :
      Paging env id start a (events ++ page.events) w page.nextSequence

section Reading

variable {env : Env} {id : String} {r : Run} {start w w' : World} {a c : Nat}

theorem Db.Extends.eventsOf {db db' : Db} (h : db.Extends db') (id : String) :
    db.eventsOf id <+: db'.eventsOf id := h.events.filter _

/-- The rows between two cursors. -/
def Db.between (db : Db) (id : String) (a c : Nat) : List Event :=
  ((db.eventsOf id).take c).drop a

/-- Rows that have been read stay the same. -/
theorem Db.Extends.between {db db' : Db} (h : db.Extends db') (within : c ≤ (db.eventsOf id).length)
    (a : Nat) : db'.between id a c = db.between id a c := by
  obtain ⟨more, same⟩ := h.eventsOf id
  unfold Db.between
  rw [← same, List.take_append_of_le_length within]

/-- What the cursors and the events of a reader are, at any time. -/
structure HasRead (w : World) (id : String) (a : Nat) (events : List Event) (c : Nat) : Prop where
  found : ∃ r, w.db.runs.lookup id = some r
  onward : a ≤ c
  within : c ≤ (w.db.eventsOf id).length
  events : events = w.db.between id a c

theorem HasRead.step {events : List Event} {action : Action} (h : HasRead w id a events c)
    (sound : w.Sound env) (taken : Step env w action w') : HasRead w' id a events c := by
  have extends_ := step_extends sound taken
  have grown := (extends_.eventsOf id).length_le
  refine ⟨?_, h.onward, h.within.trans grown, ?_⟩
  · obtain ⟨r, found⟩ := h.found
    cases found' : w'.db.runs.lookup id with
    | some r' => exact ⟨r', rfl⟩
    | none =>
        have version := extends_.versions id
        have level := (sound.db.runs id r found).level
        have least := (sound.db.runs id r found).valid.2.1
        simp only [Db.versionOf, found, found'] at version
        omega
  · rw [h.events, extends_.between h.within]

/-- A page takes the reader on by its length. -/
theorem HasRead.page {events : List Event} {limit : Int} {page : Page}
    (h : HasRead w id a events c) (sound : w.db.Sound) (least : 1 ≤ limit) (most : limit ≤ 500)
    (returned : w.db.eventsPage id (some c) (some limit) = .ok page) :
    page.nextSequence = ((c + page.events.length : Nat) : Int) ∧
      HasRead w id a (events ++ page.events) (c + page.events.length) := by
  obtain ⟨r, found⟩ := h.found
  obtain ⟨size, rfl⟩ : ∃ n : Nat, limit = n := ⟨limit.toNat, by omega⟩
  have safe : c ≤ maxSafeInteger := by
    by_contra large
    have unsafe_ : isSafeInteger (some (c : Int)) = false := by simpa [isSafeInteger] using large
    have refused : w.db.eventsPage id (some c) (some size) =
        .error (.domain .invalidRequest "Invalid event cursor or limit") := by
      unfold Db.eventsPage
      rw [Db.run_ok.mpr found, unsafe_]
      rfl
    rw [refused] at returned
    cases returned
  rw [sound.eventsPage_eq found safe (by omega) (by omega)] at returned
  obtain rfl := Except.ok.inj returned
  refine ⟨rfl, ⟨r, found⟩, by have := h.onward; omega, ?_, ?_⟩
  · rw [List.length_take, List.length_drop]
    have := h.within
    omega
  · have counted : (w.db.eventsOf id).take
        (c + (((w.db.eventsOf id).drop c).take size).length) =
        (w.db.eventsOf id).take c ++ ((w.db.eventsOf id).drop c).take size := by
      rw [List.take_add, List.length_take, ← List.take_eq_take_min]
    rw [h.events]
    unfold Db.between
    rw [counted, List.drop_append_of_le_length]
    rw [List.length_take]
    have := h.within
    have := h.onward
    omega

theorem Paging.reads {events : List Event} {cursor : Int} (reached : Reaches (Step env) .init start)
    (found : start.db.runs.lookup id = some r) (within : a ≤ r.lastSequence)
    (reading : Paging env id start a events w cursor) :
    Reaches (Step env) .init w ∧ ∃ c : Nat, cursor = c ∧ HasRead w id a events c := by
  induction reading with
  | start =>
      have sound := World.Sound.reached reached
      refine ⟨reached, a, rfl, ⟨r, found⟩, le_refl a, ?_, ?_⟩
      · rw [sound.db.length_eventsOf found]
        exact within
      · unfold Db.between
        rw [List.drop_eq_nil_of_le (List.length_take_le _ _)]
  | step _ taken ih =>
      obtain ⟨run, c, rfl, reads⟩ := ih
      exact ⟨run.tail taken, c, rfl, reads.step (World.Sound.reached run) taken⟩
  | page _ least most returned ih =>
      obtain ⟨run, c, rfl, reads⟩ := ih
      obtain ⟨next, reads'⟩ := reads.page (World.Sound.reached run).db least most returned
      exact ⟨run, _, next, reads'⟩

/-- Paging is complete and exact. A reader that started at the cursor `a`, at most the last
sequence number of the run, has collected the events `a + 1` to its cursor, in order and each
once, whatever has been appended in the meantime. Its next call returns a page, which is empty
only at the end of the log, and then the cursor stays. -/
theorem event_paging_exact {events : List Event} {cursor : Int}
    (reached : Reaches (Step env) .init start) (found : start.db.runs.lookup id = some r)
    (within : a ≤ r.lastSequence) (reading : Paging env id start a events w cursor) :
    ∃ (c : Nat) (r' : Run), cursor = c ∧ w.db.runs.lookup id = some r' ∧ a ≤ c ∧
      c ≤ r'.lastSequence ∧ events.map Event.sequence = List.range' (a + 1) (c - a) ∧
      events = (w.db.eventsOf id).filter (fun e => decide (a < e.sequence ∧ e.sequence ≤ c)) ∧
      ∀ limit : Nat, 1 ≤ limit → limit ≤ 500 → c ≤ maxSafeInteger → ∃ page,
        w.db.eventsPage id (some cursor) (some limit) = .ok page ∧
        page.nextSequence = ((c + page.events.length : Nat) : Int) ∧
        page.events.length = min limit (r'.lastSequence - c) ∧
        (page.events = [] ↔ c = r'.lastSequence) ∧
        (page.events = [] → page.nextSequence = cursor) := by
  obtain ⟨run, c, rfl, reads⟩ := reading.reads reached found within
  have sound := (World.Sound.reached run).db
  obtain ⟨r', found'⟩ := reads.found
  have length := sound.length_eventsOf found'
  have bound := reads.within
  rw [length] at bound
  refine ⟨c, r', rfl, found', reads.onward, bound, ?_, ?_, ?_⟩
  · rw [reads.events, Db.between, List.map_drop, numbered_take (sound.numbered id) reads.within,
      List.drop_range', List.length_take_of_le reads.within, Nat.mul_one, Nat.add_comm]
  · rw [filter_eq_drop_take (sound.numbered id) reads.within, reads.events]
    rfl
  · intro limit least most safe
    have size : (((w.db.eventsOf id).drop c).take limit).length =
        min limit (r'.lastSequence - c) := by
      rw [List.length_take, List.length_drop, length]
    refine ⟨_, sound.eventsPage_eq found' safe least most, rfl, size, ?_, ?_⟩
    · change ((w.db.eventsOf id).drop c).take limit = [] ↔ c = r'.lastSequence
      rw [← List.length_eq_zero_iff, size]
      omega
    · intro none
      change ((w.db.eventsOf id).drop c).take limit = [] at none
      rw [none]
      rfl

end Reading

/-- The numbers on the first page of a run, if the call returns. -/
def Script.firstPage (w : World) : Option (List Nat) :=
  match w.db.eventsPage "uu" (some 0) (some 2) with
  | .ok page => some (page.events.map Event.sequence)
  | .error _ => none

set_option maxRecDepth 100000 in
/-- The first page of the run that the script starts holds two of its three events. -/
theorem event_paging_exact_started : ∃ (w : World) (r : Run) (page : Page),
    Paging (Script.env []) "uu" w (0 : Nat) ([] ++ page.events) w page.nextSequence ∧
    w.db.runs.lookup "uu" = some r ∧ r.lastSequence = 3 ∧
    page.events.map Event.sequence = [1, 2] ∧
    ∃ c : Nat, page.nextSequence = c ∧ c ≤ r.lastSequence ∧
      page.events.map Event.sequence = List.range' 1 c := by
  obtain ⟨w, run, holds⟩ := Script.reaches [] Script.started
    (fun w => (Script.run w).any (fun r => r.lastSequence = 3) &&
      decide (Script.firstPage w = some [1, 2])) (by decide +kernel)
  rw [Bool.and_eq_true, Option.any_eq_true, decide_eq_true_iff] at holds
  obtain ⟨⟨r, found, last⟩, first⟩ := holds
  unfold Script.firstPage at first
  split at first
  next page returned =>
    have reading : Paging (Script.env []) "uu" w (0 : Nat) ([] ++ page.events) w
        page.nextSequence := .page .start (by decide) (by decide) returned
    obtain ⟨c, r', next, found', -, bound, numbers, -⟩ :=
      event_paging_exact run.ofNode found (Nat.zero_le _) reading
    obtain rfl := Option.some.inj (found.symm.trans found')
    exact ⟨w, r, page, reading, found, of_decide_eq_true last, Option.some.inj first, c, next,
      bound, numbers⟩
  next => cases first

end Mathmodel
