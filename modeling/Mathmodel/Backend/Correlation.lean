import Mathmodel.Backend.Adapter
import Mathmodel.Backend.Script

/-!
# Correlation of requests and replies

Every note in the history of an adapter is permitted by the notes before it: an id
is issued once, settled once and after it was issued, nothing is written or emitted
on a closed connection, and a server request is answered at most once while it
waits. `Linked` says how the maps of the adapter reflect that history. Both are kept
by every section, whatever the listeners do, with one exception: a rejection whose
error code has no text is thrown after its request was forgotten.
-/

namespace Mathmodel

namespace Adapter

open Program

/-! ## The history -/

namespace Note

def isIssued (n : Nat) : Note → Bool
  | .issued m => m == n
  | _ => false

def isSettled (n : Nat) : Note → Bool
  | .settled m _ _ => m == n
  | _ => false

def isClosed : Note → Bool
  | .closed => true
  | _ => false

/-- The note is a reply to the server request with this key. -/
def isReply (key : MapKey) : Note → Bool
  | .wrote (.decision k _) => k == key
  | .wrote (.unsupported id) => .scalar id == key
  | _ => false

/-- A closed connection may not do this. -/
def isActive : Note → Bool
  | .wrote _ | .arrived _ | .emitted (.approval ..) | .emitted (.notification _) => true
  | _ => false

end Note

/-- Replies since the server request arrived, or `none` when it does not wait. -/
def repliesSince (key : MapKey) : List Note → Option Nat
  | [] => none
  | .arrived k :: older => if k = key then some 0 else repliesSince key older
  | .removed k :: older => if k = key then none else repliesSince key older
  | n :: older => (repliesSince key older).map (· + if n.isReply key then 1 else 0)

/-- The history allows the next note. -/
def Permits (older : List Note) : Note → Prop
  | .issued n => older.any (·.isIssued n) = false
  | .settled n settler _ => older.any (·.isIssued n) = true ∧ older.any (·.isSettled n) = false ∧
      ∀ frame, settler = .response frame → frame.get "id" = some (.num (.ofNat n))
  | .wrote line => older.any (·.isClosed) = false ∧
      ∀ key, (Note.wrote line).isReply key = true → ∀ c, repliesSince key older = some c → c = 0
  | .arrived key => older.any (·.isClosed) = false ∧ repliesSince key older = none
  | .removed _ => True
  | .emitted signal => (Note.emitted signal).isActive = true → older.any (·.isClosed) = false
  | .closed => True

/-- Every note was permitted when it was made. -/
def Orderly : List Note → Prop
  | [] => True
  | n :: older => Permits older n ∧ Orderly older

/-- The maps of the adapter reflect its history. -/
structure Consistent (a : Adapter) : Prop where
  orderly : Orderly a.history
  bounded : ∀ n, a.history.any (·.isIssued n) = true → n ≤ a.sequence
  pending : ∀ n, (∃ method, (n, method) ∈ a.pending) ↔
    a.history.any (·.isIssued n) = true ∧ a.history.any (·.isSettled n) = false
  distinct : (a.pending.map Prod.fst).Nodup
  closed : a.history.any (·.isClosed) = a.closed
  empty : a.closed = true → a.pending = [] ∧ a.approvals = []
  waiting : ∀ key, (repliesSince key a.history).isSome = true ↔ key ∈ a.approvals

/-- Between two sections, and before a listener runs, no waiting server request has
a reply. -/
structure Linked (a : Adapter) : Prop extends Consistent a where
  unanswered : ∀ key c, repliesSince key a.history = some c → c = 0

section History

variable {h : List Note} {n : Note}

/-- A note that is neither about a server request nor a reply to one. -/
def Note.isAside : Note → Bool
  | .arrived _ | .removed _ | .wrote (.decision ..) | .wrote (.unsupported _) => false
  | _ => true

theorem repliesSince_aside (aside : n.isAside = true) (key : MapKey) :
    repliesSince key (n :: h) = repliesSince key h := by
  have unanswering : n.isReply key = false := by
    cases n with
    | wrote line => cases line <;> first | rfl | cases aside
    | _ => rfl
  cases n with
  | arrived k => cases aside
  | removed k => cases aside
  | _ => simp [repliesSince, unanswering]

theorem repliesSince_wrote (line : Line) (key : MapKey) :
    repliesSince key (.wrote line :: h) =
      (repliesSince key h).map (· + if (Note.wrote line).isReply key then 1 else 0) := rfl

@[simp] theorem repliesSince_arrived (k key : MapKey) :
    repliesSince key (.arrived k :: h) = if k = key then some 0 else repliesSince key h := rfl

@[simp] theorem repliesSince_removed (k key : MapKey) :
    repliesSince key (.removed k :: h) = if k = key then none else repliesSince key h := rfl

end History

/-- Only issued requests are settled. -/
theorem Orderly.issued_of_settled {h : List Note} (orderly : Orderly h) {n : Nat}
    (settled : h.any (·.isSettled n) = true) : h.any (·.isIssued n) = true := by
  induction h with
  | nil => cases settled
  | cons note older ih =>
      simp only [List.any_cons, Bool.or_eq_true] at settled ⊢
      rcases settled with now | before
      · cases note with
        | settled m settler outcome =>
            simp only [Note.isSettled, beq_iff_eq] at now
            subst now
            exact .inr orderly.1.1
        | _ => cases now
      · exact .inr (ih orderly.2 before)

section Maps

variable {a b : Adapter}

/-- The other fields of an adapter do not matter. -/
theorem Consistent.keep (h : Consistent a) (pending : b.pending = a.pending)
    (approvals : b.approvals = a.approvals) (sequence : b.sequence = a.sequence)
    (closed : b.closed = a.closed) (history : b.history = a.history) : Consistent b := by
  constructor
  · rw [history]; exact h.orderly
  · rw [history, sequence]; exact h.bounded
  · rw [history, pending]; exact h.pending
  · rw [pending]; exact h.distinct
  · rw [history, closed]; exact h.closed
  · rw [pending, approvals, closed]; exact h.empty
  · rw [history, approvals]; exact h.waiting

theorem Linked.keep (h : Linked a) (pending : b.pending = a.pending)
    (approvals : b.approvals = a.approvals) (sequence : b.sequence = a.sequence)
    (closed : b.closed = a.closed) (history : b.history = a.history) : Linked b :=
  ⟨h.toConsistent.keep pending approvals sequence closed history,
    by rw [history]; exact h.unanswered⟩

/-- A note that no map reflects. -/
theorem Consistent.aside {n : Note} (h : Consistent a) (permits : Permits a.history n)
    (issued : ∀ m, n.isIssued m = false) (settled : ∀ m, n.isSettled m = false)
    (closes : n.isClosed = false) (aside : n.isAside = true) :
    Consistent { a with history := n :: a.history } where
  orderly := ⟨permits, h.orderly⟩
  bounded := by simpa [issued] using h.bounded
  pending := by simpa [issued, settled] using h.pending
  distinct := h.distinct
  closed := by simpa [closes] using h.closed
  empty := h.empty
  waiting := by
    intro key
    rw [repliesSince_aside aside]
    exact h.waiting key

theorem Linked.aside {n : Note} (h : Linked a) (permits : Permits a.history n)
    (issued : ∀ m, n.isIssued m = false) (settled : ∀ m, n.isSettled m = false)
    (closes : n.isClosed = false) (aside : n.isAside = true) :
    Linked { a with history := n :: a.history } :=
  ⟨h.toConsistent.aside permits issued settled closes aside, by
    intro key c
    rw [repliesSince_aside aside]
    exact h.unanswered key c⟩

/-- A line is written. A reply is counted, so that its server request must go. -/
theorem Linked.wrote (h : Linked a) (open_ : a.closed = false) (line : Line) :
    Consistent { a with history := .wrote line :: a.history } where
  orderly := by
    refine ⟨⟨h.closed.trans open_, ?_⟩, h.orderly⟩
    exact fun key _ c waits => h.unanswered key c waits
  bounded := by simpa [Note.isIssued] using h.bounded
  pending := by simpa [Note.isIssued, Note.isSettled] using h.pending
  distinct := h.distinct
  closed := by simpa [Note.isClosed] using h.closed
  empty := h.empty
  waiting := by
    intro key
    rw [repliesSince_wrote, Option.isSome_map]
    exact h.waiting key

theorem Linked.wrote_aside (h : Linked a) (open_ : a.closed = false) {line : Line}
    (aside : (Note.wrote line).isAside = true) :
    Linked { a with history := .wrote line :: a.history } :=
  ⟨h.wrote open_ line, by
    intro key c
    rw [repliesSince_aside aside]
    exact h.unanswered key c⟩

/-- A request is issued under the next number. -/
theorem Linked.issue (h : Linked a) (open_ : a.closed = false) (method : String) :
    Linked { a with
      sequence := a.sequence + 1, pending := a.pending ++ [(a.sequence + 1, method)],
      history := .issued (a.sequence + 1) :: a.history } where
  orderly := by
    refine ⟨?_, h.orderly⟩
    show a.history.any _ = false
    by_contra issued
    have := h.bounded _ (by simpa using issued)
    omega
  bounded := by
    intro n issued
    simp only [List.any_cons, Note.isIssued, Bool.or_eq_true, beq_iff_eq] at issued
    show n ≤ a.sequence + 1
    rcases issued with same | old
    · omega
    · have := h.bounded n old
      omega
  pending := by
    intro n
    simp only [List.mem_append, List.mem_singleton, Prod.mk.injEq, List.any_cons, Note.isIssued,
      Note.isSettled, Bool.or_eq_true, Bool.false_or, beq_iff_eq]
    constructor
    · rintro ⟨method', old | ⟨rfl, rfl⟩⟩
      · obtain ⟨issued, unsettled⟩ := (h.pending n).mp ⟨method', old⟩
        exact ⟨.inr issued, unsettled⟩
      · refine ⟨.inl rfl, ?_⟩
        by_contra settled
        have := h.bounded _ (h.orderly.issued_of_settled (by simpa [Note.isSettled] using settled))
        omega
    · rintro ⟨same | issued, unsettled⟩
      · exact ⟨method, .inr ⟨same.symm, rfl⟩⟩
      · obtain ⟨method', old⟩ := (h.pending n).mpr ⟨issued, unsettled⟩
        exact ⟨method', .inl old⟩
  distinct := by
    rw [List.map_append, List.map_singleton, List.nodup_append]
    refine ⟨h.distinct, List.nodup_singleton _, ?_⟩
    intro n listed m new same
    rw [List.mem_singleton] at new
    obtain ⟨⟨n', method'⟩, old, rfl⟩ := List.mem_map.mp listed
    have := h.bounded _ ((h.pending n').mp ⟨method', old⟩).1
    dsimp only at same
    omega
  closed := by simpa [Note.isClosed] using h.closed
  empty := by
    intro closed
    rw [open_] at closed
    cases closed
  waiting := by
    intro key
    rw [repliesSince_aside rfl]
    exact h.waiting key
  unanswered := by
    intro key c
    rw [repliesSince_aside rfl]
    exact h.unanswered key c

/-- The response to a pending request settles it. -/
theorem Linked.settle (h : Linked a) {n : Nat} {method : String} (waits : (n, method) ∈ a.pending)
    {frame : Json} (own : frame.get "id" = some (.num (.ofNat n))) (outcome : Except Err Json) :
    Linked { a with
      pending := a.pending.filter (·.1 ≠ n),
      history := .settled n (.response frame) outcome :: a.history } where
  orderly := by
    obtain ⟨issued, unsettled⟩ := (h.pending n).mp ⟨method, waits⟩
    refine ⟨⟨issued, unsettled, ?_⟩, h.orderly⟩
    rintro _ ⟨⟩
    exact own
  bounded := by simpa [Note.isIssued] using h.bounded
  pending := by
    intro m
    have old := h.pending m
    simp only [List.mem_filter, decide_eq_true_eq, List.any_cons, Note.isIssued, Note.isSettled,
      Bool.false_or, Bool.or_eq_false_iff, beq_eq_false_iff_ne]
    constructor
    · rintro ⟨method', listed, ne⟩
      obtain ⟨issued, unsettled⟩ := old.mp ⟨method', listed⟩
      exact ⟨issued, Ne.symm ne, unsettled⟩
    · rintro ⟨issued, ne, unsettled⟩
      obtain ⟨method', listed⟩ := old.mpr ⟨issued, unsettled⟩
      exact ⟨method', listed, Ne.symm ne⟩
  distinct := (List.filter_sublist.map Prod.fst).nodup h.distinct
  closed := by simpa [Note.isClosed] using h.closed
  empty := by
    intro closed
    obtain ⟨pending, approvals⟩ := h.empty closed
    exact ⟨by simp [pending], approvals⟩
  waiting := by
    intro key
    rw [repliesSince_aside rfl]
    exact h.waiting key
  unanswered := by
    intro key c
    rw [repliesSince_aside rfl]
    exact h.unanswered key c

/-- A server request arrives. -/
theorem Linked.arrive (h : Linked a) (open_ : a.closed = false) {key : MapKey}
    (unlisted : key ∉ a.approvals) :
    Linked { a with approvals := a.approvals ++ [key], history := .arrived key :: a.history } where
  orderly := by
    refine ⟨⟨h.closed.trans open_, ?_⟩, h.orderly⟩
    by_contra waits
    exact unlisted ((h.waiting key).mp (Option.isSome_iff_ne_none.mpr waits))
  bounded := by simpa [Note.isIssued] using h.bounded
  pending := by simpa [Note.isIssued, Note.isSettled] using h.pending
  distinct := h.distinct
  closed := by simpa [Note.isClosed] using h.closed
  empty := by
    intro closed
    rw [open_] at closed
    cases closed
  waiting := by
    intro k
    rw [repliesSince_arrived, List.mem_append, List.mem_singleton]
    split
    · rename_i same
      simp [same]
    · rename_i other
      rw [h.waiting k]
      exact ⟨.inl, fun listed => listed.resolve_right (Ne.symm other)⟩
  unanswered := by
    intro k c waits
    rw [repliesSince_arrived] at waits
    split at waits
    · exact (Option.some.inj waits).symm
    · exact h.unanswered k c waits

/-- A server request is forgotten. With it goes its reply. -/
theorem Consistent.remove (h : Consistent a) {key : MapKey}
    (others : ∀ k c, k ≠ key → repliesSince k a.history = some c → c = 0) :
    Linked { a with
      approvals := a.approvals.filter (· ≠ key), history := .removed key :: a.history } where
  orderly := ⟨trivial, h.orderly⟩
  bounded := by simpa [Note.isIssued] using h.bounded
  pending := by simpa [Note.isIssued, Note.isSettled] using h.pending
  distinct := h.distinct
  closed := by simpa [Note.isClosed] using h.closed
  empty := by
    intro closed
    obtain ⟨pending, approvals⟩ := h.empty closed
    exact ⟨pending, by simp [approvals]⟩
  waiting := by
    intro k
    rw [repliesSince_removed, List.mem_filter, decide_eq_true_eq]
    split
    · rename_i same
      simp [same]
    · rename_i other
      rw [h.waiting k]
      exact ⟨fun listed => ⟨listed, Ne.symm other⟩, And.left⟩
  unanswered := by
    intro k c waits
    rw [repliesSince_removed] at waits
    split at waits
    · cases waits
    · rename_i other
      exact others k c (Ne.symm other) waits

/-- Rejecting requests that wait, each once. -/
theorem settleAll {e : Err} {entries : List (Nat × String)} {h : List Note}
    (orderly : Orderly h) (distinct : (entries.map Prod.fst).Nodup)
    (waits : ∀ entry ∈ entries, h.any (·.isIssued entry.1) = true ∧
      h.any (·.isSettled entry.1) = false) :
    let h' := (entries.map fun entry => Note.settled entry.1 .fail (.error e)).reverse ++ h
    Orderly h' ∧ (∀ n, h'.any (·.isIssued n) = h.any (·.isIssued n)) ∧
      (∀ n, h'.any (·.isSettled n) = true ↔
        h.any (·.isSettled n) = true ∨ n ∈ entries.map Prod.fst) ∧
      h'.any (·.isClosed) = h.any (·.isClosed) ∧
      ∀ key, repliesSince key h' = repliesSince key h := by
  induction entries generalizing h with
  | nil => exact ⟨orderly, fun _ => rfl, by simp, rfl, fun _ => rfl⟩
  | cons entry entries ih =>
      rw [List.map_cons, List.nodup_cons] at distinct
      have first := waits entry List.mem_cons_self
      have permitted : Orderly (.settled entry.1 .fail (.error e) :: h) :=
        ⟨⟨first.1, first.2, by rintro _ ⟨⟩⟩, orderly⟩
      have later : ∀ other ∈ entries,
          (Note.settled entry.1 .fail (.error e) :: h).any (·.isIssued other.1) = true ∧
          (Note.settled entry.1 .fail (.error e) :: h).any (·.isSettled other.1) = false := by
        intro other listed
        obtain ⟨issued, unsettled⟩ := waits other (List.mem_cons_of_mem _ listed)
        have ne : entry.1 ≠ other.1 := by
          intro same
          exact distinct.1 (same ▸ List.mem_map.mpr ⟨other, listed, rfl⟩)
        simp only [List.any_cons, issued, unsettled, Bool.or_true, Bool.or_false, true_and]
        simpa [Note.isSettled] using ne
      obtain ⟨orderly', issued, settled, closed, replies⟩ := ih permitted distinct.2 later
      simp only [List.map_cons, List.reverse_cons, List.append_assoc, List.singleton_append]
      refine ⟨orderly', ?_, ?_, ?_, ?_⟩
      · intro n
        rw [issued n]
        rfl
      · intro n
        rw [settled n]
        simp only [List.any_cons, Note.isSettled, Bool.or_eq_true, beq_iff_eq, List.mem_cons]
        tauto
      · rw [closed]
        rfl
      · intro key
        rw [replies key, repliesSince_aside rfl]

/-- Forgetting server requests. -/
theorem removeAll (keys : List MapKey) {h : List Note} (orderly : Orderly h) :
    let h' := (keys.map Note.removed).reverse ++ h
    Orderly h' ∧ (∀ n, h'.any (·.isIssued n) = h.any (·.isIssued n)) ∧
      (∀ n, h'.any (·.isSettled n) = h.any (·.isSettled n)) ∧
      h'.any (·.isClosed) = h.any (·.isClosed) ∧
      ∀ key, repliesSince key h' = if key ∈ keys then none else repliesSince key h := by
  induction keys generalizing h with
  | nil => exact ⟨orderly, fun _ => rfl, fun _ => rfl, rfl, fun _ => rfl⟩
  | cons k keys ih =>
      obtain ⟨orderly', issued, settled, closed, replies⟩ := ih (h := .removed k :: h)
        ⟨trivial, orderly⟩
      simp only [List.map_cons, List.reverse_cons, List.append_assoc, List.singleton_append]
      refine ⟨orderly', ?_, ?_, ?_, ?_⟩
      · intro n
        rw [issued n]
        rfl
      · intro n
        rw [settled n]
        rfl
      · rw [closed]
        rfl
      · intro key
        rw [replies key, repliesSince_removed]
        by_cases same : k = key
        · simp [same]
        · simp [same, Ne.symm same]

/-- A failing connection settles and forgets everything. -/
theorem Consistent.failed (h : Consistent a) (e : Err) :
    Linked { a with
      closed := true, pending := [], approvals := [],
      history := .emitted (.fault e) :: (failure e a ++ a.history) } := by
  have closing : Orderly (.closed :: a.history) := ⟨trivial, h.orderly⟩
  obtain ⟨orderly₁, issued₁, settled₁, closed₁, replies₁⟩ := settleAll (e := e) closing h.distinct
    (by
      rintro ⟨n, method⟩ listed
      exact (h.pending n).mp ⟨method, listed⟩)
  obtain ⟨orderly₂, issued₂, settled₂, closed₂, replies₂⟩ :=
    removeAll a.approvals orderly₁
  have shape : failure e a ++ a.history = (a.approvals.map Note.removed).reverse ++
      ((a.pending.map fun entry => Note.settled entry.1 .fail (.error e)).reverse ++
        .closed :: a.history) := by
    simp [failure]
  rw [shape]
  have unanswered : ∀ key, repliesSince key (.emitted (.fault e) ::
      ((a.approvals.map Note.removed).reverse ++
        ((a.pending.map fun entry => Note.settled entry.1 .fail (.error e)).reverse ++
          .closed :: a.history))) = none := by
    intro key
    rw [repliesSince_aside rfl, replies₂, replies₁, repliesSince_aside rfl]
    split
    · rfl
    · rename_i unlisted
      by_contra waits
      exact unlisted ((h.waiting key).mp (Option.isSome_iff_ne_none.mpr waits))
  refine ⟨⟨⟨nofun, orderly₂⟩, ?_, ?_, List.nodup_nil, ?_, fun _ => ⟨rfl, rfl⟩, ?_⟩, ?_⟩
  · intro n issued
    have old : a.history.any (·.isIssued n) = true := by
      rw [List.any_cons, issued₂, issued₁] at issued
      exact issued
    exact h.bounded n old
  · intro n
    constructor
    · rintro ⟨method, listed⟩
      cases listed
    · rintro ⟨issued, unsettled⟩
      rw [List.any_cons, issued₂, issued₁] at issued
      rw [List.any_cons, settled₂] at unsettled
      have waited : a.history.any (·.isSettled n) = true ∨ n ∈ a.pending.map Prod.fst := by
        by_cases settled : a.history.any (·.isSettled n) = true
        · exact .inl settled
        · obtain ⟨method, listed⟩ := (h.pending n).mpr ⟨issued, by simpa using settled⟩
          exact .inr (List.mem_map.mpr ⟨_, listed, rfl⟩)
      have settled := (settled₁ n).mpr waited
      rw [settled] at unsettled
      cases unsettled
  · rw [List.any_cons, closed₂, closed₁]
    rfl
  · intro key
    rw [unanswered key]
    exact ⟨nofun, nofun⟩
  · intro key c waits
    rw [unanswered key] at waits
    cases waits

end Maps

/-! ## The methods -/

section Methods

variable {host : Host} {a : Adapter}

/-- A line was tried. -/
def tallied (a : Adapter) : Adapter := { a with sends := a.sends + 1 }

theorem wp_send {line : Line} {post : Unit → Adapter → Prop} {failed : Err → Adapter → Prop}
    (ok : a.closed = false → post () { tallied a with history := .wrote line :: a.history })
    (bad : ∀ e, failed e (tallied a)) : wp (send host line) post failed a := by
  simp only [send, wp_bind, wp_get, wp_modify, wp_ite, wp_throw, note]
  refine ⟨fun _ => bad _, fun usable => ⟨fun _ => bad _, fun _ => ?_⟩⟩
  simp only [not_or] at usable
  exact ok (by simpa using usable.1)

theorem Linked.tallied (h : Linked a) : Linked (tallied a) := h.keep rfl rfl rfl rfl rfl

/-- An open connection that fails emits a fault; afterwards it is closed. -/
theorem wp_fail {e : Err} (h : Consistent a) (settled : a.closed = true → Linked a)
    (failed : Err → Adapter → Prop) :
    wp (fail e) (fun signal b => Linked b ∧ (signal = none → a.closed = true ∧ b = a)) failed
      a := by
  simp only [fail, wp_bind, wp_get, wp_ite, wp_pure, wp_modify, note]
  exact ⟨fun closed => ⟨settled closed, fun _ => ⟨closed, trivial⟩⟩,
    fun _ => ⟨h.failed e, (by rintro ⟨⟩)⟩⟩

/-- A request that emits nothing leaves the connection as open as it was. -/
theorem wp_request {method : String} {params : Json} (h : Linked a)
    (failed : Err → Adapter → Prop) :
    wp (request host method params)
      (fun signal b => Linked b ∧ (signal = none → b.closed = a.closed)) failed a := by
  simp only [request, wp_bind, wp_get, wp_ite, wp_pure, wp_modify, note, wp_tryCatch]
  refine ⟨fun _ => ⟨h, fun _ => trivial⟩, fun open_ => ?_⟩
  simp only [Bool.not_eq_true] at open_
  have issued := h.issue open_ method
  apply wp_send
  · intro _
    exact ⟨(issued.tallied).wrote_aside open_ rfl, fun _ => rfl⟩
  · intro e
    refine wp_mono (wp_fail issued.tallied.toConsistent ?_ failed) ?_ (fun _ _ t => t)
    · exact fun _ => issued.tallied
    · rintro signal b ⟨linked, none⟩
      refine ⟨linked, fun silent => ?_⟩
      rw [(none silent).2]
      rfl

theorem wp_respond {key : MapKey} {decision : String} (h : Linked a) :
    wp (respond host key decision) (fun _ b => Linked b ∧ b.closed = a.closed)
      (fun _ b => Linked b ∧ b.closed = a.closed) a := by
  simp only [respond, wp_bind, wp_get, wp_ite, wp_throw]
  refine ⟨fun _ => ⟨h, trivial⟩, fun _ => ?_⟩
  apply wp_send
  · intro open_
    rw [wp_bind, wp_modify, note, wp_modify]
    have wrote := h.tallied.wrote open_ (.decision key decision)
    refine ⟨wrote.remove ?_, rfl⟩
    intro k c other waits
    rw [repliesSince_wrote] at waits
    have same : (Note.wrote (.decision key decision)).isReply k = false := by
      simpa [Note.isReply] using Ne.symm other
    simp only [same, Bool.false_eq_true, if_false, Nat.add_zero, Option.map_id'] at waits
    exact h.unanswered k c waits
  · exact fun _ => ⟨h.tallied, rfl⟩

/-- The section keeps an open connection linked. After an exception it is still
open and consistent. -/
abbrev Correlates (x : A (Option Signal)) (a : Adapter) : Prop :=
  wp x (fun _ b => Linked b ∧ b.closed = false) (fun _ b => Consistent b ∧ b.closed = false) a

theorem correlates_serverRequest {id method : Json} {params : Option Json} (h : Linked a)
    (open_ : a.closed = false) : Correlates (serverRequest host id method params) a := by
  have supported : ∀ kind, Correlates (do
      let a ← get
      let key := MapKey.ofJson a.frames id
      if 100 ≤ a.approvals.length ∨ key ∈ a.approvals then
        throw (.error "Invalid or excessive approval requests")
      else do
        modify fun a => { a with approvals := a.approvals ++ [key] }
        note (.arrived key)
        note (.emitted (.approval kind key params))
        pure (some (.approval kind key params))) a := by
    intro kind
    simp only [Correlates, wp_bind, wp_get, wp_ite, wp_throw, wp_modify, note, wp_pure]
    refine ⟨fun _ => ⟨h.toConsistent, open_⟩, fun fits => ?_⟩
    rw [not_or] at fits
    have arrived := h.arrive open_ fits.2
    refine ⟨arrived.aside ?_ (fun _ => rfl) (fun _ => rfl) rfl rfl, open_⟩
    intro _
    exact arrived.closed.trans open_
  unfold Correlates serverRequest
  rw [wp_bind]
  rw [wp_lift]
  cases plainLookup approvalKinds (some method) with
  | error e => exact ⟨h.toConsistent, open_⟩
  | ok kind =>
      cases kind with
      | missing =>
          simp only [wp_bind]
          apply wp_send
          · intro _
            have wrote := h.tallied.wrote open_ (.unsupported id)
            rw [wp_bind, wp_lift]
            cases Json.coerce (some method) with
            | error e => exact ⟨wrote, open_⟩
            | ok name => exact ⟨wrote, open_⟩
          · exact fun _ => ⟨h.tallied.toConsistent, open_⟩
      | inherited => exact supported .inherited
      | own kind => exact supported (.own kind)

/-- A response whose rejection has a text: the code of its error converts to a
string. -/
def Legible : Json → Prop
  | .obj fields =>
      (fields.lookup "id").isSome = true → Json.truthy (fields.lookup "method") = false →
        Json.truthy (fields.lookup "error") = true →
          ∃ code, Json.coerce (Json.chain (fields.lookup "error") "code") = .ok code
  | _ => True

theorem correlates_response {id : Json} {fields : List (String × Json)} (h : Linked a)
    (open_ : a.closed = false) (named : fields.lookup "id" = some id)
    (plain : Json.truthy (fields.lookup "method") = false) (legible : Legible (.obj fields)) :
    Correlates (response id fields) a := by
  unfold Correlates response
  simp only [wp_bind, wp_get]
  cases entry : a.pending.find? (fun entry => Json.num (.ofNat entry.1) == id) with
  | none => exact ⟨h.toConsistent, open_⟩
  | some entry' =>
      obtain ⟨n, method⟩ := entry'
      have waits : (n, method) ∈ a.pending := List.mem_of_find?_eq_some entry
      have own : (Json.obj fields).get "id" = some (.num (.ofNat n)) := by
        have same := List.find?_some entry
        rw [beq_iff_eq] at same
        rw [same]
        exact named
      simp only [wp_bind, wp_modify]
      by_cases error : Json.truthy (fields.lookup "error") = true
      · obtain ⟨code, coerces⟩ := legible (by rw [named]; rfl) plain error
        simp only [error, if_true, coerces, wp_bind, wp_lift_ok, wp_pure, note, wp_modify]
        exact ⟨h.settle waits own _, open_⟩
      · simp only [error]
        cases fields.lookup "result" <;> exact ⟨h.settle waits own _, open_⟩

theorem correlates_notify {method : String} {fields : List (String × Json)} (h : Linked a)
    (open_ : a.closed = false) : Correlates (notify method fields) a := by
  have last : ∀ b : Adapter, Linked b → b.closed = false → Correlates (do
      note (.emitted (.notification (.obj fields)))
      pure (some (.notification (.obj fields)))) b := by
    intro b linked open_
    simp only [Correlates, wp_bind, note, wp_modify, wp_pure]
    refine ⟨linked.aside ?_ (fun _ => rfl) (fun _ => rfl) rfl rfl, open_⟩
    intro _
    exact linked.closed.trans open_
  unfold Correlates notify
  dsimp only
  rw [wp_ite]
  constructor
  · intro _
    rw [wp_bind, wp_get]
    cases (Json.chain (fields.lookup "params") "requestId").map (MapKey.ofJson a.frames) with
    | none => exact last a h open_
    | some key =>
        dsimp only
        rw [wp_ite]
        constructor
        · intro _
          simp only [wp_bind, wp_modify, note]
          exact last _ (h.toConsistent.remove fun k c _ waits => h.unanswered k c waits) open_
        · exact fun _ => last a h open_
  · exact fun _ => last a h open_

theorem correlates_line {text : List Char} (h : Linked a) (open_ : a.closed = false)
    (legible : ∀ m, text.all Codex.isSpace = false → host.parse (String.ofList text) = .ok m →
      Legible m) : Correlates (line host text) a := by
  unfold Correlates line
  split
  · exact ⟨h, open_⟩
  · rename_i content
    cases parsed : host.parse (String.ofList text) with
    | error e => exact ⟨h.toConsistent, open_⟩
    | ok m =>
        unfold message
        simp only [wp_bind, wp_modify]
        have counted : Linked { a with frames := a.frames + 1 } := h.keep rfl rfl rfl rfl rfl
        cases m with
        | obj fields =>
            have legible := legible _ (by simpa using content) parsed
            dsimp only
            cases named : fields.lookup "id" with
            | some id =>
                cases method : fields.lookup "method" with
                | some name =>
                    dsimp only
                    rw [wp_ite]
                    refine ⟨fun _ => correlates_serverRequest counted open_, fun falsy => ?_⟩
                    exact correlates_response counted open_ named
                      (by rw [method]; simpa using falsy) legible
                | none =>
                    exact correlates_response counted open_ named (by rw [method]; rfl) legible
            | none =>
                cases fields.lookup "method" with
                | none => exact ⟨counted.toConsistent, open_⟩
                | some name =>
                    cases name with
                    | str name => exact correlates_notify counted open_
                    | _ => exact ⟨counted.toConsistent, open_⟩
        | _ => exact ⟨counted.toConsistent, open_⟩

end Methods

/-! ## Sections -/

section Sections

variable {host : Host} {a b : Adapter}

/-- Listeners keep the connection linked and do not close it. -/
theorem Listens.linked {outcome : Except Err Unit} (listens : Listens host a outcome b)
    (h : Linked a) : Linked b ∧ b.closed = a.closed := by
  induction listens with
  | returned => exact ⟨h, rfl⟩
  | threw => exact ⟨h, rfl⟩
  | responded next ih =>
      obtain ⟨linked, closed⟩ := after_of_wp (wp_respond h)
      obtain ⟨linked', closed'⟩ := ih linked
      exact ⟨linked', closed'.trans closed⟩
  | requested calm next ih =>
      obtain ⟨linked, closed⟩ := (wp_of_exec_ok calm).mp (wp_request h (fun _ _ => True))
      obtain ⟨linked', closed'⟩ := ih linked
      exact ⟨linked', closed'.trans (closed rfl)⟩

theorem Emits.linked {signal : Option Signal} {outcome : Except Err Unit}
    (emits : Emits host signal a outcome b) (h : Linked a) : Linked b ∧ b.closed = a.closed := by
  cases emits with
  | silent => exact ⟨h, rfl⟩
  | heard listens => exact listens.linked h

theorem Fails.linked {e : Err} (fails : Fails host e a b) (h : Consistent a)
    (settled : a.closed = true → Linked a) : Linked b := by
  obtain ⟨signal, c, outcome, failed, emits⟩ := fails
  have linked := (wp_of_exec_ok failed).mp (wp_fail h settled (fun _ _ => True))
  exact (emits.linked linked.1).1

/-- The frames of complete lines, up to blank and malformed ones. -/
def framesOf (host : Host) (lines : List (List Char)) : List Json :=
  lines.filterMap fun text =>
    if text.all Codex.isSpace then none else (host.parse (String.ofList text)).toOption

/-- An open connection stays open while its lines are handled; an exception leaves
it consistent. -/
theorem Drains.linked {rest : List Char} {lines : List (List Char)} {outcome : Except Err Unit}
    (drains : Drains host rest lines a outcome b) (h : Linked a) (open_ : a.closed = false)
    (legible : ∀ m ∈ framesOf host lines, Legible m) :
    Consistent b ∧ b.closed = false ∧ (outcome = .ok () → Linked b) := by
  have handled : ∀ {a : Adapter} {text : List Char} {lines : List (List Char)}, Linked a →
      a.closed = false → (∀ m ∈ framesOf host (text :: lines), Legible m) →
      Correlates (line host text) { a with buffer := Codex.unlines lines rest } := by
    intro a text lines h open_ legible
    refine correlates_line (h.keep rfl rfl rfl rfl rfl) open_ ?_
    intro m content parsed
    refine legible m (List.mem_filterMap.mpr ⟨text, List.mem_cons_self, ?_⟩)
    rw [if_neg (by simp [content]), parsed]
    rfl
  induction drains with
  | done => exact ⟨h.toConsistent, open_, fun _ => h⟩
  | thrown throws =>
      obtain ⟨consistent, open'⟩ := (wp_of_exec_error throws).mp (handled h open_ legible)
      exact ⟨consistent, open', nofun⟩
  | refused done emits =>
      obtain ⟨linked, open'⟩ := (wp_of_exec_ok done).mp (handled h open_ legible)
      obtain ⟨linked', closed⟩ := emits.linked linked
      exact ⟨linked'.toConsistent, closed.trans open', nofun⟩
  | next done emits later ih =>
      obtain ⟨linked, open'⟩ := (wp_of_exec_ok done).mp (handled h open_ legible)
      obtain ⟨linked', closed⟩ := emits.linked linked
      refine ih linked' (closed.trans open') ?_
      intro m member
      obtain ⟨text, listed, frame⟩ := List.mem_filterMap.mp member
      exact legible m (List.mem_filterMap.mpr ⟨text, List.mem_cons_of_mem _ listed, frame⟩)

/-- Every response in a received chunk has a legible rejection. -/
def Call.Legible (host : Host) (a : Adapter) : Call → Prop
  | .receive chunk =>
      ∀ m ∈ framesOf host (Codex.splitLines (a.buffer ++ chunk)).1, Adapter.Legible m
  | _ => True

theorem Steps.linked {call : Call} (step : Steps host a call b) (h : Linked a)
    (legible : call.Legible host a) : Linked b := by
  have fails : ∀ {e : Err} {a b : Adapter}, Fails host e a b → Linked a → Linked b :=
    fun fails h => fails.linked h.toConsistent fun _ => h
  cases step with
  | spawn unused => exact h.keep rfl rfl rfl rfl rfl
  | request issued emits =>
      have linked := (wp_of_exec_ok issued).mp (wp_request h (fun _ _ => True))
      exact (emits.linked linked.1).1
  | initialized =>
      refine after_of_wp (wp_send ?_ fun _ => h.tallied)
      exact fun open_ => h.tallied.wrote_aside open_ rfl
  | respond => exact (after_of_wp (wp_respond h)).1
  | ignored closed => exact h
  | oversized open_ large failing => exact fails failing (h.keep rfl rfl rfl rfl rfl)
  | received open_ fits drains =>
      exact (drains.linked (h.keep rfl rfl rfl rfl rfl) open_ legible).2.2 rfl
  | broken open_ fits drains failing =>
      obtain ⟨consistent, open', -⟩ :=
        drains.linked (h.keep rfl rfl rfl rfl rfl) open_ legible
      exact failing.linked consistent (by rw [open']; nofun)
  | timeout waits failing => exact fails failing h
  | stdinError failing => exact fails failing h
  | processError failing => exact fails failing h
  | processClose failing => exact fails failing (h.keep rfl rfl rfl rfl rfl)
  | close failing => exact fails failing h

theorem fresh_linked : Linked fresh := by
  refine ⟨⟨trivial, ?_, ?_, List.nodup_nil, rfl, nofun, ?_⟩, ?_⟩
  all_goals simp [fresh, repliesSince]

end Sections

/-! ## Correlation -/

/-- What the callers and the runtime may rely on. -/
structure Correlated (a : Adapter) : Prop where
  distinct : ∀ n, a.history.countP (·.isIssued n) ≤ 1
  pending : ∀ n, (∃ method, (n, method) ∈ a.pending) ↔
    .issued n ∈ a.history ∧ ∀ settler outcome, .settled n settler outcome ∉ a.history
  once : ∀ n, a.history.countP (·.isSettled n) ≤ 1
  own : ∀ n frame outcome, .settled n (.response frame) outcome ∈ a.history →
    frame.get "id" = some (.num (.ofNat n))
  stays : a.closed = true ↔ .closed ∈ a.history
  settled : a.closed = true → a.pending = [] ∧ a.approvals = [] ∧
    ∀ n, .issued n ∈ a.history → ∃ settler outcome, .settled n settler outcome ∈ a.history
  silent : ∀ newer older, a.history = newer ++ .closed :: older → ∀ n ∈ newer, n.isActive = false
  replies : ∀ newer middle older key, a.history = newer ++ middle ++ .arrived key :: older →
    .removed key ∉ middle → middle.countP (·.isReply key) ≤ 1

section History

variable {h newer older middle : List Note} {n : Nat} {key : MapKey}

theorem any_isIssued : h.any (·.isIssued n) = true ↔ .issued n ∈ h := by
  rw [List.any_eq_true]
  constructor
  · rintro ⟨note, listed, is⟩
    cases note with
    | issued m =>
        simp only [Note.isIssued, beq_iff_eq] at is
        exact is ▸ listed
    | _ => cases is
  · exact fun listed => ⟨_, listed, by simp [Note.isIssued]⟩

theorem any_isSettled :
    h.any (·.isSettled n) = true ↔ ∃ settler outcome, .settled n settler outcome ∈ h := by
  rw [List.any_eq_true]
  constructor
  · rintro ⟨note, listed, is⟩
    cases note with
    | settled m settler outcome =>
        simp only [Note.isSettled, beq_iff_eq] at is
        exact ⟨settler, outcome, is ▸ listed⟩
    | _ => cases is
  · rintro ⟨settler, outcome, listed⟩
    exact ⟨_, listed, by simp [Note.isSettled]⟩

theorem any_isClosed : h.any (·.isClosed) = true ↔ .closed ∈ h := by
  rw [List.any_eq_true]
  constructor
  · rintro ⟨note, listed, is⟩
    cases note with
    | closed => exact listed
    | _ => cases is
  · exact fun listed => ⟨_, listed, rfl⟩

theorem countP_eq_zero_of_any {p : Note → Bool} (none : h.any p = false) : h.countP p = 0 := by
  rw [List.countP_eq_zero]
  simpa using none

namespace Orderly

theorem older_of_append (orderly : Orderly (newer ++ older)) : Orderly older := by
  induction newer with
  | nil => exact orderly
  | cons note newer ih => exact ih orderly.2

theorem issued_once (orderly : Orderly h) : h.countP (·.isIssued n) ≤ 1 := by
  induction h with
  | nil => exact Nat.zero_le _
  | cons note older ih =>
      rw [List.countP_cons]
      split
      · rename_i is
        cases note with
        | issued m =>
            simp only [Note.isIssued, beq_iff_eq] at is
            subst is
            rw [countP_eq_zero_of_any orderly.1]
        | _ => cases is
      · exact ih orderly.2

theorem settled_once (orderly : Orderly h) : h.countP (·.isSettled n) ≤ 1 := by
  induction h with
  | nil => exact Nat.zero_le _
  | cons note older ih =>
      rw [List.countP_cons]
      split
      · rename_i is
        cases note with
        | settled m settler outcome =>
            simp only [Note.isSettled, beq_iff_eq] at is
            subst is
            rw [countP_eq_zero_of_any orderly.1.2.1]
        | _ => cases is
      · exact ih orderly.2

theorem own (orderly : Orderly h) {frame : Json} {outcome : Except Err Json}
    (listed : .settled n (.response frame) outcome ∈ h) :
    frame.get "id" = some (.num (.ofNat n)) := by
  induction h with
  | nil => cases listed
  | cons note older ih =>
      rcases List.mem_cons.mp listed with rfl | old
      · exact orderly.1.2.2 frame rfl
      · exact ih orderly.2 old

/-- Nothing active is noted after the connection was closed. -/
theorem silent (orderly : Orderly (newer ++ .closed :: older)) :
    ∀ note ∈ newer, note.isActive = false := by
  induction newer with
  | nil => exact fun _ listed => nomatch listed
  | cons first newer ih =>
      have after : (newer ++ .closed :: older).any (·.isClosed) = true :=
        any_isClosed.mpr (List.mem_append_right _ List.mem_cons_self)
      intro note listed
      rcases List.mem_cons.mp listed with rfl | old
      · have permits := orderly.1
        cases note with
        | wrote line => exact absurd (permits.1.symm.trans after) nofun
        | arrived key => exact absurd (permits.1.symm.trans after) nofun
        | emitted signal =>
            by_contra active
            exact absurd ((permits (by simpa using active)).symm.trans after) nofun
        | _ => rfl
      · exact ih orderly.2 note old

/-- Replies are counted from the arrival of a server request until it is removed. -/
theorem replies (orderly : Orderly (middle ++ .arrived key :: older))
    (waits : .removed key ∉ middle) :
    repliesSince key (middle ++ .arrived key :: older) = some (middle.countP (·.isReply key)) ∧
      middle.countP (·.isReply key) ≤ 1 := by
  induction middle with
  | nil => simp
  | cons note middle ih =>
      have kept : .removed key ∉ middle := fun listed => waits (List.mem_cons_of_mem _ listed)
      obtain ⟨since, bound⟩ := ih orderly.2 kept
      have permits := orderly.1
      have aside : note.isAside = true → repliesSince key (note :: (middle ++ .arrived key ::
          older)) = some ((note :: middle).countP (·.isReply key)) ∧
          (note :: middle).countP (·.isReply key) ≤ 1 := by
        intro aside
        have unanswering : note.isReply key = false := by
          cases note with
          | wrote line => cases line <;> first | rfl | cases aside
          | _ => rfl
        rw [repliesSince_aside aside, List.countP_cons_of_neg (by simp [unanswering])]
        exact ⟨since, bound⟩
      cases note with
      | arrived k =>
          have ne : k ≠ key := by
            rintro rfl
            have none : repliesSince k (middle ++ .arrived k :: older) = none := permits.2
            rw [since] at none
            cases none
          simp only [List.cons_append, repliesSince_arrived, if_neg ne]
          rw [List.countP_cons_of_neg (by simp [Note.isReply])]
          exact ⟨since, bound⟩
      | removed k =>
          have ne : k ≠ key := by
            rintro rfl
            exact waits List.mem_cons_self
          simp only [List.cons_append, repliesSince_removed, if_neg ne]
          rw [List.countP_cons_of_neg (by simp [Note.isReply])]
          exact ⟨since, bound⟩
      | wrote line =>
          rw [List.cons_append, repliesSince_wrote, since, List.countP_cons]
          refine ⟨rfl, ?_⟩
          split
          · rename_i reply
            have first := permits.2 key reply _ since
            omega
          · exact bound
      | _ => exact aside rfl

end Orderly

end History

theorem Linked.correlated {a : Adapter} (h : Linked a) : Correlated a where
  distinct := fun n => h.orderly.issued_once
  pending := by
    intro n
    rw [h.pending n, any_isIssued, ← Bool.not_eq_true, any_isSettled]
    simp only [not_exists]
  once := fun n => h.orderly.settled_once
  own := fun n frame outcome listed => h.orderly.own listed
  stays := by rw [← h.closed, any_isClosed]
  settled := by
    intro closed
    obtain ⟨pending, approvals⟩ := h.empty closed
    refine ⟨pending, approvals, ?_⟩
    intro n issued
    by_contra unsettled
    have waits := (h.pending n).mpr ⟨any_isIssued.mpr issued, by
      rw [← Bool.not_eq_true, any_isSettled]
      exact unsettled⟩
    rw [pending] at waits
    obtain ⟨method, listed⟩ := waits
    cases listed
  silent := by
    intro newer older shape
    have orderly := h.orderly
    rw [shape] at orderly
    exact orderly.silent
  replies := by
    intro newer middle older key shape waits
    have orderly := h.orderly
    rw [shape, List.append_assoc] at orderly
    exact (orderly.older_of_append.replies waits).2

/-- In every run whose rejections are legible, requests and replies of both sides
are correlated, whatever the callers, the listeners and the process do. -/
theorem rpc_correlation {host : Host} {a : Adapter}
    (run : Reaches (fun a call b => Steps host a call b ∧ call.Legible host a) fresh a) :
    Correlated a := by
  have linked : Linked a := by
    refine run.invariant fresh_linked ?_
    rintro b call c - linked ⟨step, legible⟩
    exact step.linked linked legible
  exact linked.correlated

/-! ## A rejection without a text -/

/-- A host on which every write succeeds and the runtime sends the given frames. -/
def scripted (frames : List Json) : Host := ⟨(Script.env frames).parse, fun _ => ⟨true, 0⟩⟩

/-- The process is spawned and `initialize` is on its way. -/
def asked : Adapter :=
  { pending := [(1, "initialize")], approvals := [], sequence := 1, buffer := [], frames := 0,
    sends := 1, closed := false, process := .running,
    history := [.wrote (.request 1 "initialize" (.obj [])), .issued 1] }

theorem parse_scripted (m : Json) :
    (scripted [m]).parse (String.ofList (m.write id)) = .ok m := by
  simp [scripted, Script.env]

theorem spawns {host : Host} : Steps host fresh .spawn { fresh with process := .running } :=
  .spawn ⟨rfl, rfl⟩

theorem asks {m : Json} :
    Steps (scripted [m]) { fresh with process := .running } (.request "initialize" (.obj []))
      asked := by
  refine .request ?_ .silent
  rfl

/-- The error code of this response has a `toString` member that cannot be called. -/
def illegible : Json := .obj
  [("id", .num (.ofNat 1)), ("error", .obj [("code", .obj [("toString", .num (.ofNat 1))])])]

/-- The connection is closed, and the promise of request 1 is never settled. -/
theorem unsettled_after_illegible_rejection : ∃ a,
    Reaches (Steps (scripted [illegible])) fresh a ∧ a.closed = true ∧ .issued 1 ∈ a.history ∧
    (∀ settler outcome, .settled 1 settler outcome ∉ a.history) ∧ ¬Correlated a := by
  have throws : (line (scripted [illegible]) (illegible.write id)).exec asked =
      (.error (.error "Cannot convert object to primitive value"),
        { asked with frames := 1, pending := [] }) := by
    rw [line, if_neg (by decide +kernel), parse_scripted]
    rfl
  have received : Steps (scripted [illegible]) asked (.receive (illegible.write id ++ ['\n']))
      { asked with
        frames := 1, pending := [], closed := true,
        history := .emitted (.fault (.error "Cannot convert object to primitive value")) ::
          .closed :: asked.history } :=
    .broken rfl (by decide +kernel) (.thrown throws)
      ⟨_, _, .ok (), rfl, .heard .returned⟩
  have unsettled : ∀ settler outcome, .settled 1 settler outcome ∉ ([.emitted (.fault
      (.error "Cannot convert object to primitive value")), .closed,
      .wrote (.request 1 "initialize" (.obj [])), .issued 1] : List Note) := by
    simp
  refine ⟨_, ((Reaches.single spawns).tail asks).tail received, rfl, by simp [asked], unsettled, ?_⟩
  intro correlated
  obtain ⟨settler, outcome, listed⟩ := (correlated.settled rfl).2.2 1 (by simp [asked])
  exact unsettled settler outcome listed

/-- A runtime that answers `initialize`. -/
theorem rpc_correlation_initialized : ∃ a,
    Reaches (fun a call b => Steps (scripted [Script.initialized]) a call b ∧
      call.Legible (scripted [Script.initialized]) a) fresh a ∧
    .settled 1 (.response Script.initialized) (.ok (.obj [])) ∈ a.history ∧ Correlated a := by
  have handled : (line (scripted [Script.initialized]) (Script.initialized.write id)).exec asked =
      (.ok none, { asked with
        frames := 1, pending := [],
        history :=
          .settled 1 (.response Script.initialized) (.ok (.obj [])) :: asked.history }) := by
    rw [line, if_neg (by decide +kernel), parse_scripted]
    rfl
  have received : Steps (scripted [Script.initialized]) asked
      (.receive (Script.initialized.write id ++ ['\n'])) { asked with
        frames := 1, pending := [],
        history := .settled 1 (.response Script.initialized) (.ok (.obj [])) :: asked.history } :=
    .received rfl (by decide +kernel) (.next handled .silent .done)
  have legible : (Call.receive (Script.initialized.write id ++ ['\n'])).Legible
      (scripted [Script.initialized]) asked := by
    intro m listed
    change m ∈ framesOf (scripted [Script.initialized]) [Script.initialized.write id] at listed
    obtain ⟨text, line, frame⟩ := List.mem_filterMap.mp listed
    rw [List.mem_singleton] at line
    rw [line, if_neg (by decide +kernel), parse_scripted] at frame
    cases frame
    exact fun _ _ error => absurd error nofun
  have run : Reaches (fun a call b => Steps (scripted [Script.initialized]) a call b ∧
      call.Legible (scripted [Script.initialized]) a) fresh _ :=
    ((Reaches.single ⟨spawns, trivial⟩).tail ⟨asks, trivial⟩).tail ⟨received, legible⟩
  exact ⟨_, run, List.mem_cons_self, rpc_correlation run⟩

end Adapter

end Mathmodel
