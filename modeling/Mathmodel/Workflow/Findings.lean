import Mathmodel.Workflow.Paths
import Mathmodel.Workflow.Reading

/-!
# What the helpers find out

A task that returns has learned something: that a blob is there, that no
execution is running, that a receipt is on the disk. `Finds` states it as a
relation between the sites before and after; since state, receipts and blobs stay
the same in between, what was read at any time during the task holds throughout.
What a task saw of the user's files is only true of that moment, so there the
finding is that the log holds the answer.
-/

namespace Mathmodel.Workflow

open Dialogue
open Site (Still)

/-- The event happened after the first site and before the second. -/
def Seen (s t : Site) (e : Event) : Prop := ∃ events, t.log = s.log ++ events ∧ e ∈ events

namespace Seen

variable {s t u : Site} {e : Event}

/-- What happened before a while has also happened after it. -/
theorem later (h : Seen s t e) (next : Still t u) : Seen s u e := by
  obtain ⟨events, log, mem⟩ := h
  obtain ⟨more, log', _⟩ := next.log
  exact ⟨events ++ more, by rw [log', log, List.append_assoc], List.mem_append_left _ mem⟩

theorem earlier (h : Seen t u e) (before : Still s t) : Seen s u e := by
  obtain ⟨events, log, mem⟩ := h
  obtain ⟨more, log', _⟩ := before.log
  exact ⟨more ++ events, by rw [log, log', List.append_assoc], List.mem_append_right _ mem⟩

/-- A request that is answered has happened. -/
theorem served {host : Host} {q : Request} {r : Except PyErr q.Answer}
    (h : serve host s q r t) : Seen s t (.answered q r) :=
  ⟨_, serve_log h, List.mem_singleton.mpr rfl⟩

end Seen

/-- The task is quiet, and when it returns it has found out `P`. -/
abbrev Finds {α : Type} (host : Host) (x : Task α) (P : Site → α → Site → Prop) : Prop :=
  Learns (serve host) Still x P

section Rules

variable {α β : Type} {host : Host} {P : Site → α → Site → Prop}

/-- A task that writes nothing is quiet, whatever it finds out. -/
theorem Reads.finds {x : Task α} (h : Reads x) : Finds host x fun _ _ _ => True :=
  Learns.of_uses Still.refl (fun _ _ _ => Still.trans) h fun _ _ _ _ quiet served =>
    serve_still served quiet

/-- A single quiet request finds out what its answer says. -/
theorem finds_ask {q : Request} (quiet : q.isQuiet = true) {P : Site → q.Answer → Site → Prop}
    (h : ∀ s a t, serve host s q (.ok a) t → P s a t) : Finds host (ask q) P :=
  Learns.request (fun _ _ _ served => serve_still served quiet) h

theorem finds_pure {a : α} (h : ∀ s, P s a s) : Finds host (pure a) P := Learns.pure Still.refl h

/-- A check that is passed was true. -/
theorem finds_check (condition : Bool) (message : String) :
    Finds host (check condition message) fun _ _ _ => condition = true := by
  refine Learns.ofExcept Still.refl ?_
  intro _ _ passed
  unfold require at passed
  split at passed
  next holds => exact holds
  next => cases passed

/-- Two tasks in a row find out one thing after the other. -/
theorem finds_bind {x : Task β} {f : β → Task α} {P : Site → β → Site → Prop}
    {R : β → Site → α → Site → Prop} (hx : Finds host x P) (hf : ∀ b, Finds host (f b) (R b)) :
    Finds host (x >>= f) fun s a u => ∃ b t, Still s t ∧ P s b t ∧ Still t u ∧ R b t a u :=
  Learns.bind (R := Still) (fun _ _ _ => Still.trans) hx hf

/-- A first part that finds nothing, where what is found does not speak of the start. -/
theorem finds_after {x : Task β} {f : β → Task α} {P : α → Site → Prop} (hx : Reads x)
    (hf : ∀ b, Finds host (f b) fun _ a u => P a u) :
    Finds host (x >>= f) fun _ a u => P a u := by
  refine (finds_bind hx.finds hf).mono ?_
  rintro s a u - ⟨_, _, -, -, -, found⟩
  exact found

/-- A loop finds out the same thing about every element, each at its own moment. -/
theorem finds_mapM {f : β → Task α} {P : β → Site → α → Site → Prop}
    (hf : ∀ b, Finds host (f b) (P b)) (l : List β) :
    Finds host (l.mapM f) fun s as u =>
      List.Forall₂ (fun b a => ∃ t t', Still s t ∧ P b t a t' ∧ Still t' u) l as :=
  Learns.mapM Still.refl (fun _ _ _ => Still.trans) hf l

theorem finds_forM {f : β → Task PUnit} {P : β → Site → PUnit → Site → Prop}
    (hf : ∀ b, Finds host (f b) (P b)) (l : List β) :
    Finds host (l.forM f) fun s _ u => ∀ b ∈ l, ∃ t t', Still s t ∧ P b t ⟨⟩ t' ∧ Still t' u :=
  Learns.forM Still.refl (fun _ _ _ => Still.trans) hf l

end Rules

section Helpers

variable (host : Host)

/-- The name passes the checks of `local` that do not ask the file system. -/
structure Admitted (name : String) (internal : Bool) : Prop where
  relative : isAbsolute name = false
  inside : ".." ∉ parts name
  nonempty : parts name ≠ []
  free : internal = true ∨ (parts name).headD "" ∉ reserved

/-- A name that is resolved is the path it spells, and is admitted. -/
theorem finds_localPath (name : String) (internal : Bool) :
    Finds host (localPath name internal) fun _ p _ => p = parts name ∧ Admitted name internal := by
  refine (finds_bind (finds_check _ _) fun _ => finds_bind (finds_check _ _) fun _ =>
    finds_after (.ask rfl) fun _ => finds_after (.eval _) fun _ =>
    finds_after (.check _ _) fun _ => finds_after (.check _ _) fun _ =>
    finds_pure (P := fun _ p _ => p = parts name) fun _ => rfl).mono ?_
  rintro s p u - ⟨_, s₁, -, inside, -, _, s₂, -, free, -, rfl⟩
  simp only [Bool.and_eq_true, Bool.not_eq_true', List.contains_eq_mem, decide_eq_false_iff_not,
    List.isEmpty_eq_false_iff, Bool.or_eq_true] at inside free
  exact ⟨rfl, inside.1, inside.2, free.1, free.2⟩

/-- The content that a digest was computed from was read meanwhile. -/
def ReadAs (s t : Site) (path : Path) (sha : String) : Prop :=
  ∃ content, host.sha256 content = sha ∧ Seen s t (.answered (.read path) (.ok content))

/-- The digest of a file is that of the bytes that were read. -/
theorem finds_digest (path : Path) :
    Finds host (digest host path) fun s sha t => ReadAs host s t path sha := by
  refine (finds_bind (finds_ask rfl fun s content t served => Seen.served served) fun content =>
    finds_pure (P := fun _ sha _ => sha = host.sha256 content) fun _ => rfl).mono ?_
  rintro s sha u - ⟨content, t, -, seen, after, rfl⟩
  exact ⟨content, rfl, seen.later after⟩

variable {host} in
theorem ReadAs.later {s t u : Site} {path : Path} {sha : String} (h : ReadAs host s t path sha)
    (next : Still t u) : ReadAs host s u path sha := by
  obtain ⟨content, same, seen⟩ := h
  exact ⟨content, same, seen.later next⟩

variable {host} in
theorem ReadAs.earlier {s t u : Site} {path : Path} {sha : String} (h : ReadAs host t u path sha)
    (before : Still s t) : ReadAs host s u path sha := by
  obtain ⟨content, same, seen⟩ := h
  exact ⟨content, same, seen.earlier before⟩

/-- A blob is copied only where there is none of the name. -/
theorem finds_storeBlob (path : Path) (sha : String) :
    Finds host (storeBlob path sha) fun _ _ _ => True := by
  intro s
  refine holds_bind (holds_request fun r t served => ?_)
  have before := serve_still served rfl
  cases r with
  | error e => exact ⟨before, before⟩
  | ok there =>
      refine ⟨before, ?_⟩
      obtain ⟨known, same⟩ := serve_hasBlob served
      dsimp only
      split
      next => exact ⟨before, trivial⟩
      next missing =>
        have absent : t.disk.blobs.lookup sha = none := by
          rw [same, ← Option.not_isSome_iff_eq_none, ← known]
          exact missing
        refine holds_request fun r u copied => ?_
        have after := serve_copyBlob copied absent
        cases r with
        | ok _ => exact ⟨after, before.trans after, trivial⟩
        | error e => exact ⟨after, before.trans after⟩

/-- The digest of a blob is that of the bytes the blob holds. -/
theorem finds_digestBlob (sha : String) :
    Finds host (digestBlob host sha) fun _ found t =>
      ∃ content, t.disk.blobs.lookup sha = some content ∧ host.sha256 content = found := by
  refine (finds_bind (finds_ask rfl fun s content t served => serve_readBlob served) fun content =>
    finds_pure (P := fun _ found _ => found = host.sha256 content) fun _ => rfl).mono ?_
  rintro s found u - ⟨content, t, -, stored, after, rfl⟩
  exact ⟨content, after.disk.blobs _ _ stored, rfl⟩

/-- What a snapshot establishes: a blob with the recorded digest, a file that was there, and
was not empty where that was asked for, with the recorded digest. -/
structure Captured (host : Host) (name : String) (internal nonempty : Bool) (s : Site) (ref : Ref)
    (t : Site) : Prop where
  path : ref.path = pathText (parts name)
  admitted : Admitted name internal
  blob : t.disk.Stores host ref.sha256
  isFile : Seen s t (.answered (.isFile (parts name)) (.ok true))
  size : nonempty = true →
    ∃ bytes, 0 < bytes ∧ Seen s t (.answered (.size (parts name)) (.ok bytes))
  digest : ReadAs host s t (parts name) ref.sha256

/-- A capture is one over any longer quiet stretch. -/
theorem Captured.widen {name : String} {internal nonempty : Bool} {ref : Ref} {s s' t t' : Site}
    (h : Captured host name internal nonempty s ref t) (before : Still s' s) (after : Still t t') :
    Captured host name internal nonempty s' ref t' where
  path := h.path
  admitted := h.admitted
  blob := after.disk.stores h.blob
  isFile := (h.isFile.later after).earlier before
  size wanted := by
    obtain ⟨bytes, positive, seen⟩ := h.size wanted
    exact ⟨bytes, positive, (seen.later after).earlier before⟩
  digest := (h.digest.later after).earlier before

theorem finds_isNonempty (path : Path) :
    Finds host (isNonempty path) fun s found t => found = true →
      ∃ bytes, 0 < bytes ∧ Seen s t (.answered (.size path) (.ok bytes)) := by
  refine (finds_bind (finds_ask rfl fun s bytes t served => Seen.served served) fun bytes =>
    finds_pure (P := fun _ found _ => found = decide (0 < bytes)) fun _ => rfl).mono ?_
  rintro s found u - ⟨bytes, t, -, seen, after, rfl⟩ positive
  exact ⟨bytes, by simpa using positive, seen.later after⟩

theorem finds_isAcceptable (nonempty : Bool) (path : Path) :
    Finds host (isAcceptable nonempty path) fun s found t => found = true → nonempty = true →
      ∃ bytes, 0 < bytes ∧ Seen s t (.answered (.size path) (.ok bytes)) := by
  unfold isAcceptable
  split
  next => exact (finds_isNonempty host path).mono fun _ _ _ _ known found _ => known found
  next empty => exact finds_pure fun _ _ wanted => absurd wanted empty

/-- A snapshot that returns has captured the file: its digest is that of the bytes that were read.
-/
theorem finds_snapshot (name : String) (internal nonempty : Bool) :
    Finds host (snapshot host name internal nonempty) (Captured host name internal nonempty) := by
  unfold snapshot
  refine (finds_bind (finds_localPath host name internal) fun p =>
    finds_bind (finds_ask (P := fun s found t => found = true →
      Seen s t (.answered (.isFile p) (.ok true))) rfl ?_) fun _ =>
    finds_bind (finds_check _ _) fun _ =>
    finds_bind (finds_isAcceptable host nonempty p) fun _ => finds_bind (finds_check _ _) fun _ =>
    finds_bind (finds_digest host p) fun sha => finds_bind (finds_storeBlob host p sha) fun _ =>
    finds_bind (finds_digestBlob host sha) fun _ => finds_bind (finds_check _ _) fun _ =>
    finds_bind (Reads.ask rfl).finds fun bytes =>
    finds_pure (P := fun _ ref _ => ref = ⟨pathText (parts name), sha, bytes⟩) fun _ => rfl).mono ?_
  · rintro s found t served rfl
    exact Seen.served served
  · rintro s ref u - ⟨_, s₁, a₁, ⟨rfl, admitted⟩, r₁, there, s₂, a₂, file, r₂, _, s₃, a₃, rfl, r₃,
      ok, s₄, a₄, acceptable, r₄, _, s₅, a₅, rfl, r₅, sha, s₆, a₆, digest, r₆, _, s₇, a₇, -, r₇,
      _, s₈, a₈, ⟨content, stored, right⟩, r₈, _, s₉, a₉, same, r₉, bytes, s₁₀, a₁₀, -, r₁₀, rfl⟩
    refine ⟨rfl, admitted, ?_, ((file rfl).later r₂).earlier a₁, ?_, ?_⟩
    · rw [beq_iff_eq] at same
      exact ⟨content, r₈.disk.blobs _ _ stored, right.trans same⟩
    · intro wanted
      obtain ⟨bytes, positive, seen⟩ := acceptable rfl wanted
      exact ⟨bytes, positive, (((seen.later r₄).earlier a₃).earlier a₂).earlier a₁⟩
    · exact (((((digest.later r₆).earlier a₅).earlier a₄).earlier a₃).earlier a₂).earlier a₁

/-- No execution is unresolved. -/
def Disk.Resolved (disk : Disk) : Prop := ∀ r ∈ disk.receipts, r.status ≠ .running

/-- The executions that `pending` lists are those running on the disk. -/
theorem finds_pending :
    Finds host pending fun s receipts _ =>
      receipts = s.disk.receipts.filter (·.status = .running) := by
  refine (finds_bind (finds_ask rfl fun s receipts t served => serve_loadReceipts served)
    fun receipts => finds_pure (P := fun _ found _ =>
      found = receipts.filter (·.status = .running)) fun _ => rfl).mono ?_
  rintro s found u - ⟨receipts, t, -, rfl, -, rfl⟩
  rfl

theorem resolved_of_filter {disk : Disk}
    (none : (disk.receipts.filter (·.status = .running)).isEmpty = true) : disk.Resolved := by
  intro r mem running
  rw [List.isEmpty_iff] at none
  have found : r ∈ disk.receipts.filter (·.status = .running) := by simp [mem, running]
  rw [none] at found
  cases found

/-- The stage is the next one, and nothing is running. -/
structure Ready (state : State) (stage : StageId) (s : Site) (step : Stage) : Prop where
  resolved : s.disk.Resolved
  current : state.current = some step
  id : step.id = stage

/-- When `ready` returns, no execution is running and the stage is the current one. -/
theorem finds_ready (state : State) (stage : StageId) :
    Finds host (ready host state stage) fun s step _ => Ready state stage s step := by
  unfold ready
  refine (finds_bind (reads_problems host state).finds fun _ =>
    finds_bind (finds_check _ _) fun _ =>
    finds_bind (finds_pending host) fun _ => finds_bind (finds_check _ _) (R := fun _ _ step _ =>
      state.current = some step ∧ step.id = stage) fun _ => ?_).mono ?_
  · split
    next => exact Learns.raise Still.refl _
    next step found =>
      refine (finds_bind (finds_check _ _) fun _ =>
        finds_pure (P := fun _ chosen _ => chosen = step) fun _ => rfl).mono ?_
      rintro s chosen u - ⟨_, _, -, same, -, rfl⟩
      exact ⟨found, by simpa using same⟩
  · rintro s step u - ⟨_, s₁, a₁, -, -, _, s₂, a₂, -, -, receipts, s₃, a₃, rfl, -, _, s₄, a₄,
      none, -, current, id⟩
    refine ⟨?_, current, id⟩
    have same : s₂.disk.receipts = s.disk.receipts := (a₁.trans a₂).disk.receipts
    rw [same] at none
    exact resolved_of_filter none

theorem finds_checkInput (message : String) (ref : Ref) :
    Finds host (checkInput host message ref) fun s _ t =>
      ReadAs host s t (parts ref.path) ref.sha256 := by
  unfold checkInput
  refine (finds_bind (finds_localPath host ref.path false) fun p =>
    finds_bind (finds_digest host p) fun sha => finds_check _ _).mono ?_
  rintro s _ u - ⟨_, s₁, a₁, ⟨rfl, -⟩, -, sha, s₂, a₂, digest, r₂, same⟩
  rw [beq_iff_eq] at same
  exact same ▸ (digest.later r₂).earlier a₁

/-- An output that passes was absent when it was looked for. -/
theorem finds_checkOutput (name : String) :
    Finds host (checkOutput name) fun s _ t =>
      Seen s t (.answered (.exists (parts name)) (.ok false)) := by
  unfold checkOutput
  refine (finds_bind (finds_localPath host name false) fun p =>
    finds_bind (finds_ask (P := fun s found t => found = false →
      Seen s t (.answered (.exists p) (.ok false))) rfl ?_) fun there =>
    finds_bind (finds_check _ _) fun _ =>
    (Reads.ask (q := .makeDirectory p.dropLast) rfl).finds).mono ?_
  · rintro s found t served rfl
    exact Seen.served served
  · rintro s _ u - ⟨_, s₁, a₁, ⟨rfl, -⟩, -, there, s₂, a₂, seen, r₂, _, s₃, a₃, absent, r₃, -⟩
    exact ((seen (by simpa using absent)).later r₂).earlier a₁

end Helpers

end Mathmodel.Workflow
