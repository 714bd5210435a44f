import Mathmodel.Backend.Dispatch

/-!
# Approvals

A request for approval is kept twice: as a record of the run, and as a key in
the adapter that still owes the runtime an answer. Records are never removed and
a decided one never changes again. Each answer uses up a key, and each key and
each record go back to one request of one connection.
-/

namespace Mathmodel

/-! ## Records -/

/-- A record is the same request, decided at most once. -/
structure Approval.Keeps (a a' : Approval) : Prop where
  fields : a' = { a with status := a'.status }
  decided : a.status ≠ .pending → a'.status = a.status

namespace Approval.Keeps

theorem refl (a : Approval) : a.Keeps a := ⟨rfl, fun _ => rfl⟩

theorem same (xs : List Approval) : List.Forall₂ Approval.Keeps xs xs :=
  List.forall₂_same.mpr fun a _ => refl a

theorem trans {a b c : Approval} (h : a.Keeps b) (h' : b.Keeps c) : a.Keeps c := by
  constructor
  · rw [h'.fields, h.fields]
  · intro decided
    have := h.decided decided
    rw [h'.decided (by rw [this]; exact decided), this]

theorem ofPending {a : Approval} (status : ApprovalStatus) (pending : a.status = .pending) :
    a.Keeps { a with status := status } :=
  ⟨rfl, fun decided => absurd pending decided⟩

variable {a a' : Approval}

theorem approvalId (h : a.Keeps a') : a'.approvalId = a.approvalId := by rw [h.fields]

theorem requestId (h : a.Keeps a') : a'.requestId = a.requestId := by rw [h.fields]

theorem generation (h : a.Keeps a') : a'.generation = a.generation := by rw [h.fields]

end Approval.Keeps

theorem forall₂_replaceFirst {α : Type} {R : α → α → Prop} {p : α → Bool} {f : α → α}
    {xs : List α} {a : α} (refl : ∀ a, R a a) (found : xs.find? p = some a) (step : R a (f a)) :
    List.Forall₂ R xs (replaceFirst p f xs) := by
  induction xs with
  | nil => cases found
  | cons x xs ih =>
      unfold replaceFirst
      by_cases matches_ : p x = true
      · rw [List.find?_cons_of_pos matches_, Option.some.injEq] at found
        subst found
        rw [if_pos matches_]
        exact .cons step (List.forall₂_same.mpr fun x _ => refl x)
      · rw [List.find?_cons_of_neg matches_] at found
        rw [if_neg matches_]
        exact .cons (refl x) (ih found)

theorem Run.expire_keeps (r : Run) :
    List.Forall₂ Approval.Keeps r.approvals r.expire.approvals := by
  unfold Run.expire
  induction r.approvals with
  | nil => exact .nil
  | cons a rest ih =>
      refine .cons ?_ ih
      dsimp only
      split
      · rename_i pending
        exact .ofPending .expired pending
      · exact .refl a

/-- A save keeps every record, and only a request of the runtime adds one. -/
theorem Change.Saves.approvals {m : Moment} {r r' : Run} {change : Change}
    (h : change.Saves m r r') :
    List.Forall₂ Approval.Keeps r.approvals r'.approvals ∨
    ∃ approvalId k kind requestId generation details,
      change = .requestApproval approvalId k (.own kind) requestId generation details ∧
      r'.approvals = r.approvals ++
        [⟨approvalId, k, kind, requestId, generation, .pending, details.stored, m.time⟩] := by
  have kept : List.Forall₂ Approval.Keeps r.approvals r.approvals :=
    Approval.Keeps.same _
  cases h with
  | cancelActive status => exact .inl r.expire_keeps
  | resolve named answered =>
      subst answered
      obtain ⟨first, -, pending, -⟩ := RunOp.answerable_eq_some named
      exact .inl (forall₂_replaceFirst .refl first (.ofPending _ pending))
  | failBeforeDispatch last => exact .inl r.expire_keeps
  | resolvedByRuntime found expired =>
      subst expired
      have pending := List.find?_some found
      simp only [Bool.and_eq_true, beq_iff_eq] at pending
      exact .inl (forall₂_replaceFirst .refl found (.ofPending _ pending.2))
  | requestApproval room => exact .inr ⟨_, _, _, _, _, _, rfl, rfl⟩
  | finish last typed => exact .inl r.expire_keeps
  | uncertain last => exact .inl r.expire_keeps
  | uncertainNew none => exact .inl r.expire_keeps
  | _ => exact .inl kept

/-- No transaction of these adds a record. -/
def Db.Retains (before after : Db) : Prop :=
  (∀ id r, before.runs.lookup id = some r → ∃ r', after.runs.lookup id = some r' ∧
    List.Forall₂ Approval.Keeps r.approvals r'.approvals) ∧
  ∀ id r', after.runs.lookup id = some r' → r'.approvals = [] ∨
    ∃ r, before.runs.lookup id = some r ∧ List.Forall₂ Approval.Keeps r.approvals r'.approvals

namespace Db.Retains

theorem of_runs {before after : Db} (runs : after.runs = before.runs) :
    before.Retains after := by
  constructor
  · intro id r found
    exact ⟨r, by rw [runs]; exact found, Approval.Keeps.same _⟩
  · intro id r found
    exact .inr ⟨r, by rw [← runs]; exact found, Approval.Keeps.same _⟩

theorem of_writes {before after : Db} {m : Moment} {id : String} {change : Change} {r r' : Run}
    (writes : before.Writes m id change r r' after) (sound : before.Sound)
    (plain : ∀ approvalId k kind requestId generation details,
      change ≠ .requestApproval approvalId k kind requestId generation details) :
    before.Retains after := by
  have kept : List.Forall₂ Approval.Keeps r.approvals r'.approvals := by
    obtain kept | ⟨_, _, _, _, _, _, is, -⟩ := writes.saves.approvals
    · exact kept
    · exact absurd is (plain _ _ _ _ _ _)
  constructor
  · intro other s found
    by_cases same : other = id
    · subst same
      rw [writes.found, Option.some.injEq] at found
      subst found
      exact ⟨_, writes.lookup_self sound, kept⟩
    · exact ⟨s, by rw [writes.lookup_ne sound same]; exact found,
        Approval.Keeps.same _⟩
  · intro other s found
    obtain ⟨rfl, rfl⟩ | ⟨-, found⟩ := writes.lookup sound found
    · exact .inr ⟨r, writes.found, kept⟩
    · exact .inr ⟨s, found, Approval.Keeps.same _⟩

end Db.Retains

/-! ## Entries about approvals -/

namespace Entry

/-- The runtime asked for approval under the key. -/
def requests (g : Nat) (q : MapKey) : Entry → Bool
  | .requested h key => h == g && key == q
  | _ => false

/-- A decision on the key was written to the runtime. -/
def decides (g : Nat) (q : MapKey) : Entry → Bool
  | .wrote h (.decision key _) => h == g && key == q
  | _ => false

/-- A record was created from the request of the runtime. -/
def creates (g : Nat) (q : MapKey) : Entry → Bool
  | .commit (.update _ (.requestApproval _ _ _ requestId _ _) (.runtime h)) _ _ =>
      h == g && MapKey.scalar requestId == q
  | _ => false

/-- The entry is about no request for approval. -/
def isCalm : Entry → Bool
  | .requested .. | .wrote _ (.decision ..) => false
  | .commit (.update _ (.requestApproval ..) _) _ _ => false
  | _ => true

theorem isCalm.quiet {e : Entry} (h : e.isCalm = true) (g : Nat) (q : MapKey) :
    e.requests g q = false ∧ e.decides g q = false ∧ e.creates g q = false := by
  unfold isCalm at h
  unfold requests decides creates
  split at h <;> simp_all

end Entry

theorem Shape.retains {origin : Origin} {before after : Db} (shape : Shape origin before after)
    (sound : before.Sound) (calm : (Entry.commit origin before after).isCalm = true) :
    before.Retains after := by
  cases shape with
  | same runs events unnamed => exact .of_runs runs
  | update from_ plain writes =>
      refine .of_writes writes sound ?_
      rintro approvalId k kind requestId generation details rfl
      subst from_
      cases calm
  | created from_ request run fresh runs events =>
      rename_i r payload
      have empty : r.approvals = [] := by rw [run]; rfl
      constructor
      · intro id s found
        refine ⟨s, ?_, Approval.Keeps.same _⟩
        rw [runs, AList.lookup_insert_ne]
        · exact found
        · rintro rfl
          rw [fresh] at found
          cases found
      · intro id s found
        by_cases same : id = r.runId
        · subst same
          rw [runs, AList.lookup_insert, Option.some.injEq] at found
          subst found
          exact .inl empty
        · rw [runs, AList.lookup_insert_ne same] at found
          exact .inr ⟨s, found, Approval.Keeps.same _⟩
  | command from_ request current writes runs events =>
      have retains := Db.Retains.of_writes writes sound nofun
      exact ⟨fun id r found => by rw [runs]; exact retains.1 id r found,
        fun id r found => retains.2 id r (by rw [← runs]; exact found)⟩

/-- The world after a request for approval was recorded for a run. -/
def World.asked (env : Env) (w : World) (g k frame : Nat) (id : String) (kind : ApprovalKind)
    (requestId details : Json) (value : Option Json) (db₁ db₂ : Db) : World :=
  { (w.note g (.ofJson frame requestId)).commit
      (.update id (.bindTurn value) (.runtime g)) db₁ with uuids := w.uuids + 1 }.commit
    (.update id (.requestApproval (env.uuid w.uuids) k (.own kind) requestId
      (w.codex g).generation details) (.runtime g)) db₂

/-- The adapter waits for no new decision. -/
def Codex.Fewer (c c' : Codex) : Prop := ∀ q ∈ c'.approvals, q ∈ c.approvals

theorem Codex.Fewer.refl (c : Codex) : c.Fewer c := fun _ h => h

theorem Codex.Fewer.update {w w' : World} {g : Nat} {c : Codex}
    (codex : w'.codex = Function.update w.codex g c) (fewer : (w.codex g).Fewer c) (i : Nat) :
    (w.codex i).Fewer (w'.codex i) := World.codex_update Codex.Fewer.refl codex fewer i

/-- An effect asks for an approval, answers one, or does neither. -/
inductive Calm (env : Env) (w w' : World) : Prop where
  | neither (entries : List Entry) (log : w'.log = entries ++ w.log)
      (calm : ∀ e ∈ entries, e.isCalm = true)
      (approvals : ∀ g, (w.codex g).Fewer (w'.codex g))
  | requested {g : Nat} {key : MapKey} (unlisted : key ∉ (w.codex g).approvals)
      (result : w' = w.note g key)
  | asked {g k frame : Nat} {id : String} {kind : ApprovalKind} {requestId details : Json}
      {value : Option Json} {r₁ r₂ : Run} {db₁ db₂ : Db}
      (unlisted : MapKey.ofJson frame requestId ∉ (w.codex g).approvals)
      (current : w.Current g)
      (binds : w.db.Updates (env.moment w.clock) id (.bindTurn value) db₁)
      (writes : db₁.Writes (env.moment w.clock) id (.requestApproval (env.uuid w.uuids) k
        (.own kind) requestId (w.codex g).generation details) r₁ r₂ db₂)
      (result : w' = w.asked env g k frame id kind requestId details value db₁ db₂)
  | answered {g : Nat} {key : MapKey} {decision : Decision}
      (listed : key ∈ (w.codex g).approvals)
      (accepted : decision = .accept → ∃ c id before r r' a a',
        w.Decided g key .accept c id before r r' a a')
      (result : w' = (w.wrote g (.decision key decision)).forget g key)

section Calm

variable {env : Env} {cause : Cause} {w w' : World}

theorem World.shut_fewer (w : World) (g : Nat) (e : Err) (i : Nat) :
    (w.codex i).Fewer ((w.shut g e).codex i) := by
  refine .update (w := w) rfl ?_ i
  exact fun _ listed => nomatch listed

theorem World.release_fewer (w : World) (id : String) (g : Nat) (closing : Bool) (i : Nat) :
    (w.codex i).Fewer ((w.release id g closing).codex i) := by
  simp only [World.release, World.push, World.shutOnce]
  split
  · refine .update (w := w) rfl ?_ i
    exact fun _ listed => listed
  · refine .update (g := g) (c := World.released (w.codex g)) ?_ ?_ i
    · simp [World.shut, World.detach, World.setCodex, World.released]
    · intro _ listed
      cases listed

theorem World.forgetNamed_fewer (w : World) (g : Nat) (requestId : Option Json) (i : Nat) :
    (w.codex i).Fewer ((w.forgetNamed g requestId).codex i) := by
  refine .update (w := w) rfl ?_ i
  intro q listed
  dsimp only at listed
  split at listed
  · exact (List.mem_filter.mp listed).1
  · exact listed

theorem World.Uncertain.calm {id : String} {v v' : World} (log : v.log = w.log)
    (uncertain : v.Uncertain env id v') :
    ∃ entries, v'.log = entries ++ w.log ∧ ∀ e ∈ entries, e.isCalm = true := by
  cases uncertain with
  | settled found status => exact ⟨[], log, by simp⟩
  | marked status started writes =>
      exact ⟨[_], congrArg (List.cons _) log, by simp [Entry.isCalm]⟩

theorem Effect.calm (sound : w.Sound env) (effect : Effect env cause w w') : Calm env w w' := by
  have same : ∀ {v : World}, v.codex = w.codex → ∀ g, (w.codex g).Fewer (v.codex g) := by
    intro v codex g
    rw [codex]
    exact .refl _
  cases effect with
  | quiet quiet =>
      refine .neither [] quiet.log (by simp) (fun g => ?_)
      rw [quiet.codex g]
      exact fun _ listed => listed
  | said plain =>
      refine .neither [_] rfl ?_ (same rfl)
      rcases plain with rfl | ⟨_, rfl⟩ <;> simp [Entry.isCalm]
  | sent open_ thread turn => exact .neither [_] rfl (by simp [Entry.isCalm]) (same rfl)
  | registered open_ issues follows owns allows =>
      refine .neither [] rfl (by simp) (.update rfl ?_)
      exact fun _ listed => listed
  | cut open_ unheard => exact .neither [] rfl (by simp) (w.shut_fewer _ _)
  | lost open_ listener live uncertain =>
      obtain ⟨entries, log, calm⟩ := World.Uncertain.calm (v := w.shut _ _) rfl uncertain
      refine .neither entries log calm (fun g => ?_)
      simp only [World.start, World.push, uncertain.frame.1]
      exact w.shut_fewer _ _ g
  | doubted absent uncertain source =>
      obtain ⟨entries, log, calm⟩ := uncertain.calm rfl
      exact .neither entries log calm (same uncertain.frame.1)
  | undelivered command live uncertain =>
      obtain ⟨entries, log, calm⟩ := uncertain.calm rfl
      refine .neither entries log calm (same ?_)
      simp only [World.start, World.push, uncertain.frame.1]
  | abandoned range source own uncertain =>
      obtain ⟨entries, log, calm⟩ := uncertain.calm rfl
      refine .neither entries (by rw [World.release_log, log]) calm (fun g => ?_)
      rw [← uncertain.frame.1]
      exact World.release_fewer _ _ _ _ g
  | releaseJob range resumes => exact .neither [] (by simp) (by simp) (w.release_fewer _ _ _)
  | inspected range resumes unheard =>
      exact .neither [] (by simp) (by simp) (w.release_fewer _ _ _)
  | exited running =>
      refine .neither [] rfl (by simp) (.update rfl ?_)
      exact fun _ listed => listed
  | reset restart =>
      refine .neither [_] rfl (by simp [Entry.isCalm]) ?_
      intro g q listed
      simp [World.reset, Codex.absent, Codex.fresh] at listed
  | begun job idle queued writes =>
      refine .neither [_, _] rfl (by simp [Entry.isCalm]) ?_
      intro g q listed
      by_cases new : g = w.created
      · subst new
        simp [World.attach, World.enter, World.create, World.commit, Codex.fresh] at listed
      · rw [World.attach, World.setCodex_ne _ _ new] at listed
        simpa only [World.enter, World.create, World.commit, Function.update_of_ne new]
          using listed
  | misfired job idle queued writes fails =>
      exact .neither [_, _] rfl (by simp [Entry.isCalm]) (same rfl)
  | spawned open_ unspawned live =>
      refine .neither [] rfl (by simp) (.update rfl ?_)
      exact fun _ listed => listed
  | gaveUp resumes owns writes =>
      exact .neither [_] (by rw [World.release_log]; rfl) (by simp [Entry.isCalm])
        ((w.commit _ _).release_fewer _ _ _)
  | stopped resumes owns unsent cancelling writes =>
      exact .neither [_] (by rw [World.release_log]; rfl) (by simp [Entry.isCalm])
        ((w.commit _ _).release_fewer _ _ _)
  | imported resumes owns selects final table writes =>
      exact .neither [_] (by rw [World.release_log]; rfl) (by simp [Entry.isCalm])
        ((w.commit _ _).release_fewer _ _ _)
  | forgot delivers withdraws unmatched =>
      exact .neither [] rfl (by simp) (w.forgetNamed_fewer _ _)
  | withdrawn delivers withdraws heard writes =>
      exact .neither [_] rfl (by simp [Entry.isCalm]) (w.forgetNamed_fewer _ _)
  | requested delivers open_ unlisted => exact .requested unlisted rfl
  | asked delivers announces heard unlisted binds status writes number =>
      exact .asked unlisted (sound.current_of_open heard.open_) binds writes rfl
  | replied delivers reply pending =>
      refine .neither [_] rfl (by simp [Entry.isCalm]) (.update rfl ?_)
      exact fun _ listed => listed
  | rejected =>
      refine .neither [] rfl (by simp) (.update rfl ?_)
      exact fun _ listed => listed
  | dropped =>
      refine .neither [] rfl (by simp) (.update rfl ?_)
      exact fun _ listed => listed
  | answered listed source =>
      refine .answered listed ?_ rfl
      rintro rfl
      exact source.resolve_left (fun declined => by cases declined.1)
  | inspecting job idle found status =>
      refine .neither [_] rfl (by simp [Entry.isCalm]) ?_
      intro g q listed
      by_cases new : g = w.created
      · subst new
        simp [World.enter, World.create, Codex.fresh] at listed
      · simpa only [World.enter, World.create, Function.update_of_ne new] using listed
  | boundThread resumes owns writes => exact .neither [_] rfl (by simp [Entry.isCalm]) (same rfl)
  | boundReply resumes owns found last unbound reply updates =>
      exact .neither [_] rfl (by simp [Entry.isCalm]) (same rfl)
  | boundTurn delivers announces heard updates =>
      exact .neither [_] rfl (by simp [Entry.isCalm]) (same rfl)
  | progressed delivers heard updates => exact .neither [_] rfl (by simp [Entry.isCalm]) (same rfl)
  | concluded delivers completes heard last bound table writes =>
      exact .neither [_] rfl (by simp [Entry.isCalm]) (same rfl)
  | noted updates source => exact .neither [_] rfl (by simp [Entry.isCalm]) (same rfl)
  | skipped => exact .neither [_] rfl (by simp [Entry.isCalm]) (same rfl)
  | replayed => exact .neither [_] rfl (by simp [Entry.isCalm]) (same rfl)
  | projectCreated request unused => exact .neither [_] rfl (by simp [Entry.isCalm]) (same rfl)
  | runCreated request unused run valid object =>
      exact .neither [_] rfl (by simp [Entry.isCalm]) (same rfl)
  | commanded command request unused current writes =>
      exact .neither [_] rfl (by simp [Entry.isCalm]) (same rfl)
  | _ => exact .neither [] rfl (by simp) (same rfl)

end Calm

/-! ## Records and the log -/

/-- The record was created from a request of the runtime. -/
def Created (log : List Entry) (id : String) (a : Approval) (g : Nat) : Prop :=
  ∃ k kind details before after, .commit (.update id (.requestApproval a.approvalId k kind
    a.requestId a.generation details) (.runtime g)) before after ∈ log

theorem Created.keeps {log log' : List Entry} {id : String} {a a' : Approval} {g : Nat}
    (h : Created log id a g) (sub : ∀ e ∈ log, e ∈ log') (kept : a.Keeps a') :
    Created log' id a' g := by
  obtain ⟨k, kind, details, before, after, member⟩ := h
  refine ⟨k, kind, details, before, after, sub _ ?_⟩
  rw [kept.approvalId, kept.requestId, kept.generation]
  exact member

/-- Where the records of the tables come from. -/
structure Filed (log : List Entry) (db : Db) : Prop where
  created : ∀ id r a, db.runs.lookup id = some r → a ∈ r.approvals → ∃ g, Created log id a g
  unique : ∀ id r, db.runs.lookup id = some r → (r.approvals.map Approval.approvalId).Nodup
  /-- What was expired once is still expired. -/
  expired : ∀ origin before after id r a, .commit origin before after ∈ log →
    after.runs.lookup id = some r → a ∈ r.approvals → a.status = .expired →
    ∃ r' a', db.runs.lookup id = some r' ∧ a' ∈ r'.approvals ∧
      a'.approvalId = a.approvalId ∧ a'.status = .expired

namespace Filed

variable {log : List Entry} {before after : Db} {origin : Origin}

theorem mem_of_keeps {xs ys : List Approval} (h : List.Forall₂ Approval.Keeps xs ys) :
    (∀ a' ∈ ys, ∃ a ∈ xs, a.Keeps a') ∧ (∀ a ∈ xs, ∃ a' ∈ ys, a.Keeps a') ∧
      ys.map Approval.approvalId = xs.map Approval.approvalId := by
  induction h with
  | nil => simp
  | cons kept _ ih =>
      obtain ⟨back, forth, ids⟩ := ih
      refine ⟨?_, ?_, by simp [kept.approvalId, ids]⟩
      · intro a' member
        rcases List.mem_cons.mp member with rfl | member
        · exact ⟨_, by simp, kept⟩
        · obtain ⟨a, member, kept⟩ := back a' member
          exact ⟨a, by simp [member], kept⟩
      · intro a member
        rcases List.mem_cons.mp member with rfl | member
        · exact ⟨_, by simp, kept⟩
        · obtain ⟨a', member, kept⟩ := forth a member
          exact ⟨a', by simp [member], kept⟩

theorem empty : Filed [] .empty where
  created := by simp [Db.empty]
  unique := by simp [Db.empty]
  expired := by simp

theorem other (h : Filed log before) (e : Entry) (plain : e.isCommit = false) :
    Filed (e :: log) before where
  created := by
    intro id r a found member
    obtain ⟨g, created⟩ := h.created id r a found member
    exact ⟨g, created.keeps (fun _ member => List.mem_cons_of_mem _ member) (.refl a)⟩
  unique := h.unique
  expired := by
    intro origin before after id r a listed
    rcases List.mem_cons.mp listed with same | listed
    · rw [← same] at plain
      cases plain
    · exact h.expired origin before after id r a listed

theorem commit (h : Filed log before) (retains : before.Retains after) :
    Filed (.commit origin before after :: log) after where
  created := by
    intro id r' a' found member
    obtain empty | ⟨r, found, kept⟩ := retains.2 id r' found
    · simp [empty] at member
    · obtain ⟨a, member, kept⟩ := (mem_of_keeps kept).1 a' member
      obtain ⟨g, created⟩ := h.created id r a found member
      exact ⟨g, created.keeps (fun _ member => List.mem_cons_of_mem _ member) kept⟩
  unique := by
    intro id r' found
    obtain empty | ⟨r, found, kept⟩ := retains.2 id r' found
    · simp [empty]
    · rw [(mem_of_keeps kept).2.2]
      exact h.unique id r found
  expired := by
    intro origin' before' after' id r a listed found member expired
    rcases List.mem_cons.mp listed with same | listed
    · cases same
      exact ⟨r, a, found, member, rfl, expired⟩
    · obtain ⟨r, b, found, member, name, expired'⟩ :=
        h.expired origin' before' after' id r a listed found member expired
      obtain ⟨r', found', kept⟩ := retains.1 id r found
      obtain ⟨b', member', kept⟩ := (mem_of_keeps kept).2.1 b member
      refine ⟨r', b', found', member', kept.approvalId.trans name, ?_⟩
      rw [kept.decided (by rw [expired']; nofun), expired']

/-- A request of the runtime adds a record under a new name. -/
theorem file (h : Filed log before) (sound : before.Sound) {m : Moment} {id approvalId : String}
    {k g : Nat} {kind : ApprovalKind} {requestId details : Json} {generation : String}
    {r r' : Run} (writes : before.Writes m id
      (.requestApproval approvalId k (.own kind) requestId generation details) r r' after)
    (fresh : ∀ a ∈ r.approvals, a.approvalId ≠ approvalId) :
    Filed (.commit (.update id (.requestApproval approvalId k (.own kind) requestId generation
      details) (.runtime g)) before after :: log) after := by
  have added : r'.approvals = r.approvals ++
      [⟨approvalId, k, kind, requestId, generation, .pending, details.stored, m.time⟩] := by
    have saves := writes.saves
    cases saves
    rfl
  constructor
  case created =>
      intro other s a found member
      obtain ⟨rfl, rfl⟩ | ⟨-, found⟩ := writes.lookup sound found
      · have member : a ∈ r'.approvals := member
        rw [added] at member
        rcases List.mem_append.mp member with old | new
        · obtain ⟨g, created⟩ := h.created _ r a writes.found old
          exact ⟨g, created.keeps (fun _ member => List.mem_cons_of_mem _ member) (.refl a)⟩
        · rw [List.mem_singleton] at new
          subst new
          exact ⟨g, k, _, _, _, _, List.mem_cons_self⟩
      · obtain ⟨g, created⟩ := h.created _ s a found member
        exact ⟨g, created.keeps (fun _ member => List.mem_cons_of_mem _ member) (.refl a)⟩
  case unique =>
      intro other s found
      obtain ⟨rfl, rfl⟩ | ⟨-, found⟩ := writes.lookup sound found
      · have ids : ((Db.bump m r').approvals.map Approval.approvalId) =
            r.approvals.map Approval.approvalId ++ [approvalId] := by
          simp [Db.bump, added]
        rw [ids, List.nodup_append]
        refine ⟨h.unique _ r writes.found, by simp, ?_⟩
        intro name listed name' new
        obtain ⟨a, member, rfl⟩ := List.mem_map.mp listed
        rw [List.mem_singleton] at new
        rw [new]
        exact fresh a member
      · exact h.unique other s found
  case expired =>
      intro origin' before' after' other s a listed found member expired
      rcases List.mem_cons.mp listed with same | listed
      · cases same
        exact ⟨s, a, found, member, rfl, expired⟩
      · obtain ⟨s, b, found, member, name, expired'⟩ :=
          h.expired origin' before' after' other s a listed found member expired
        by_cases same : other = id
        · subst same
          rw [writes.found, Option.some.injEq] at found
          subst found
          refine ⟨_, b, writes.lookup_self sound, ?_, name, expired'⟩
          simp [Db.bump, added, member]
        · exact ⟨s, b, by rw [writes.lookup_ne sound same]; exact found, member, name, expired'⟩

end Filed

theorem Ledger.filed {env : Env} {cause : Cause} {w : World} {entries : List Entry} {db : Db}
    (h : Ledger env cause w entries db) (calm : ∀ e ∈ entries, e.isCalm = true)
    (filed : Filed w.log w.db) : Filed (entries ++ w.log) db := by
  induction h with
  | nil => exact filed
  | commit older sound commit ih =>
      have filed := ih (fun e member => calm e (List.mem_cons_of_mem _ member))
      exact filed.commit (commit.shape.retains sound (calm _ (by simp)))
  | other older plain ih =>
      exact (ih (fun e member => calm e (List.mem_cons_of_mem _ member))).other _ plain

/-! ## Decisions -/

theorem eq_of_countP_le_one {α : Type} {p : α → Bool} {xs : List α} (once : xs.countP p ≤ 1)
    {a b : α} (memberA : a ∈ xs) (memberB : b ∈ xs) (holdsA : p a = true) (holdsB : p b = true) :
    a = b := by
  rw [List.countP_eq_length_filter] at once
  have inA : a ∈ xs.filter p := List.mem_filter.mpr ⟨memberA, holdsA⟩
  have inB : b ∈ xs.filter p := List.mem_filter.mpr ⟨memberB, holdsB⟩
  match filtered : xs.filter p with
  | [] => simp [filtered] at inA
  | [c] =>
      rw [filtered, List.mem_singleton] at inA inB
      rw [inA, inB]
  | c :: d :: rest =>
      simp [filtered] at once

/-- The newest transaction accepted, as a command and not as a replay, the pending
record that was created from the request of the runtime. -/
def Approved (log : List Entry) (g : Nat) (q : MapKey) : Prop :=
  ∃ c id version before after older r a,
    log = .commit (.command c false) before after :: older ∧
    c.request = .onRun id version (.resolve a.approvalId .accept) ∧
    before.runs.lookup id = some r ∧ r.status = .waitingApproval ∧
    a ∈ r.approvals ∧ a.status = .pending ∧ q = .scalar a.requestId ∧ Created older id a g

/-- No table held an expired record of the request. -/
def NeverExpired (log : List Entry) (g : Nat) (q : MapKey) : Prop :=
  ∀ origin before after id r a, .commit origin before after ∈ log →
    after.runs.lookup id = some r → a ∈ r.approvals → Created log id a g →
    .scalar a.requestId = q → a.status ≠ .expired

/-- Requests, records, decisions and connections. -/
structure Approving (env : Env) (w : World) : Prop where
  decided : ∀ g q, w.log.countP (Entry.decides g q) +
    (if q ∈ (w.codex g).approvals then 1 else 0) ≤ w.log.countP (Entry.requests g q)
  created : ∀ g q, w.log.countP (Entry.creates g q) ≤ w.log.countP (Entry.requests g q)
  generations : ∀ g, w.Current g → ∃ n < w.uuids, (w.codex g).generation = env.uuid n
  distinct : ∀ g g', w.Current g → w.Current g' →
    (w.codex g).generation = (w.codex g').generation → g = g'
  signed : ∀ id a g, Created w.log id a g → (∃ n < w.uuids, a.approvalId = env.uuid n) ∧
    (∃ n < w.uuids, a.generation = env.uuid n) ∧
    ∀ g', w.Current g' → (w.codex g').generation = a.generation → g' = g
  filed : Filed w.log w.db
  accepted : ∀ newer g q older, w.log = newer ++ .wrote g (.decision q .accept) :: older →
    Approved older g q ∧ (older.countP (Entry.requests g q) ≤ 1 → NeverExpired older g q)

namespace Approving

variable {env : Env} {cause : Cause} {w w' : World}

theorem init (env : Env) : Approving env .init where
  decided := by simp [World.init, Codex.absent, Codex.fresh]
  created := by simp [World.init]
  generations := by simp [World.init, World.Current]
  distinct := by simp [World.init, World.Current]
  signed := by simp [World.init, Created]
  filed := Filed.empty
  accepted := by simp [World.init]

/-- Generations of the runtimes stay apart. -/
theorem effect_generations (h : Approving env w) (effect : Effect env cause w w') :
    (∀ g, w'.Current g → ∃ n < w'.uuids, (w'.codex g).generation = env.uuid n) ∧
    (∀ g g', w'.Current g → w'.Current g' →
      (w'.codex g).generation = (w'.codex g').generation → g = g') ∧
    ∀ g' generation, (∃ n < w.uuids, generation = env.uuid n) → w'.Current g' →
      (w'.codex g').generation = generation →
      w.Current g' ∧ (w.codex g').generation = generation := by
  have later := effect.uuids_le
  have fresh : ∀ n, n < w.uuids → env.uuid n ≠ env.uuid w.uuids := by
    intro n lt same
    have := env.uuid_injective same
    omega
  have old : ∀ g' generation, (∃ n < w.uuids, generation = env.uuid n) → w'.Current g' →
      (w'.codex g').generation = generation →
      w.Current g' ∧ (w.codex g').generation = generation := by
    rintro g' _ ⟨n, lt, rfl⟩ current same
    obtain ⟨current, stays⟩ | ⟨-, opened⟩ := effect.current current
    · exact ⟨current, stays.generation ▸ same⟩
    · exact absurd (same.symm.trans opened.generation.1) (fresh n lt)
  refine ⟨?_, ?_, old⟩
  · intro g current
    obtain ⟨current, stays⟩ | ⟨-, opened⟩ := effect.current current
    · obtain ⟨n, lt, same⟩ := h.generations g current
      exact ⟨n, by omega, by rw [stays.generation, same]⟩
    · obtain ⟨generation, uuids⟩ := opened.generation
      exact ⟨w.uuids, by omega, generation⟩
  · intro g g' current current' same
    obtain ⟨before, stays⟩ | ⟨new, opened⟩ := effect.current current <;>
      obtain ⟨before', stays'⟩ | ⟨new', opened'⟩ := effect.current current'
    · exact h.distinct g g' before before' (by rw [← stays.generation, same, stays'.generation])
    · obtain ⟨n, lt, issued⟩ := h.generations g before
      rw [stays.generation, issued, opened'.generation.1] at same
      exact absurd same (fresh n lt)
    · obtain ⟨n, lt, issued⟩ := h.generations g' before'
      rw [stays'.generation, issued, opened.generation.1] at same
      exact absurd same.symm (fresh n lt)
    · rw [new, new']

/-- What was known of a record before the effect. -/
theorem effect_signed (h : Approving env w) (effect : Effect env cause w w') (id : String)
    {a : Approval} {g : Nat} (created : Created w.log id a g) :
    (∃ n < w'.uuids, a.approvalId = env.uuid n) ∧ (∃ n < w'.uuids, a.generation = env.uuid n) ∧
      ∀ g', w'.Current g' → (w'.codex g').generation = a.generation → g' = g := by
  have later := effect.uuids_le
  obtain ⟨⟨n, lt, name⟩, ⟨n', lt', generation⟩, only⟩ := h.signed id a g created
  refine ⟨⟨n, by omega, name⟩, ⟨n', by omega, generation⟩, ?_⟩
  intro g' current same
  obtain ⟨current, same⟩ := (h.effect_generations effect).2.2 g' a.generation
    ⟨n', lt', generation⟩ current same
  exact only g' current same

/-- Decisions in a log that grew by other entries. -/
theorem accepted_grow (h : Approving env w) (entries : List Entry)
    (log : w'.log = entries ++ w.log) (other : ∀ g q, .wrote g (.decision q .accept) ∉ entries)
    (newer : List Entry) (g : Nat) (q : MapKey) (older : List Entry)
    (split : w'.log = newer ++ .wrote g (.decision q .accept) :: older) :
    Approved older g q ∧ (older.countP (Entry.requests g q) ≤ 1 → NeverExpired older g q) := by
  rw [log] at split
  obtain ⟨newer', split'⟩ := split_of_not_mem entries split (other g q)
  exact h.accepted newer' g q older split'

theorem neither (h : Approving env w) (sound : w.Sound env) (effect : Effect env cause w w')
    {entries : List Entry} (log : w'.log = entries ++ w.log)
    (calm : ∀ e ∈ entries, e.isCalm = true) (fewer : ∀ g, (w.codex g).Fewer (w'.codex g)) :
    Approving env w' := by
  have counts : ∀ p : Entry → Bool, (∀ e ∈ entries, p e = false) →
      w'.log.countP p = w.log.countP p := by
    intro p none
    rw [log, List.countP_append, List.countP_eq_zero.mpr (by simpa using none), Nat.zero_add]
  have quiet := fun g q e member => Entry.isCalm.quiet (calm e member) g q
  obtain ⟨generations, distinct, -⟩ := h.effect_generations effect
  refine ⟨?_, ?_, generations, distinct, ?_, ?_, ?_⟩
  · intro g q
    rw [counts _ (fun e member => (quiet g q e member).2.1),
      counts _ (fun e member => (quiet g q e member).1)]
    refine le_trans (Nat.add_le_add_left ?_ _) (h.decided g q)
    split
    · rename_i listed
      rw [if_pos (fewer g q listed)]
    · exact Nat.zero_le _
  · intro g q
    rw [counts _ (fun e member => (quiet g q e member).2.2),
      counts _ (fun e member => (quiet g q e member).1)]
    exact h.created g q
  · intro id a g created
    refine h.effect_signed effect id ?_
    obtain ⟨k, kind, details, before, after, member⟩ := created
    rw [log] at member
    refine ⟨k, kind, details, before, after, (List.mem_append.mp member).resolve_left ?_⟩
    intro new
    cases calm _ new
  · obtain ⟨entries', log', ledger⟩ := effect.ledger sound
    have same := List.append_cancel_right (log'.symm.trans log)
    subst same
    rw [log']
    exact ledger.filed calm h.filed
  · refine h.accepted_grow entries log ?_
    intro g q new
    cases calm _ new

theorem note_approvals (w : World) (g : Nat) (key : MapKey) (i : Nat) :
    ((w.note g key).codex i).approvals =
      if i = g then (w.codex g).approvals ++ [key] else (w.codex i).approvals := by
  by_cases eq : i = g
  · subst eq
    simp [World.note]
  · simp [World.note, World.setCodex, eq]

/-- A new request adds a key that was not listed. -/
theorem decided_note (h : Approving env w) {g : Nat} {key : MapKey}
    (unlisted : key ∉ (w.codex g).approvals) (i : Nat) (q : MapKey) :
    w.log.countP (Entry.decides i q) +
      (if q ∈ ((w.note g key).codex i).approvals then 1 else 0) ≤
    w.log.countP (Entry.requests i q) + if (Entry.requested g key).requests i q then 1 else 0 := by
  have decided := h.decided i q
  rw [note_approvals]
  by_cases same : i = g
  · subst same
    by_cases isKey : q = key
    · subst isKey
      rw [if_neg unlisted] at decided
      simp [Entry.requests]
      omega
    · simpa [Entry.requests, isKey, Ne.symm isKey] using decided
  · simpa [Entry.requests, same, Ne.symm same] using decided

theorem requested (h : Approving env w) {g : Nat} {key : MapKey}
    (unlisted : key ∉ (w.codex g).approvals) (effect : Effect env cause w (w.note g key)) :
    Approving env (w.note g key) := by
  obtain ⟨generations, distinct, -⟩ := h.effect_generations effect
  have log : (w.note g key).log = [.requested g key] ++ w.log := rfl
  refine ⟨?_, ?_, generations, distinct, ?_, h.filed.other _ rfl,
    h.accepted_grow _ log (by simp)⟩
  · intro i q
    have step := h.decided_note unlisted i q
    simpa [log, List.countP_cons, Entry.decides] using step
  · intro i q
    have := h.created i q
    simp only [log, List.singleton_append, List.countP_cons, Entry.creates]
    simp only [Bool.false_eq_true, if_false]
    omega
  · intro id a i created
    refine h.effect_signed effect id ?_
    obtain ⟨k, kind, details, before, after, member⟩ := created
    exact ⟨k, kind, details, before, after, by simpa [log] using member⟩

theorem asked (h : Approving env w) (sound : w.Sound env) {g k frame : Nat} {id : String}
    {kind : ApprovalKind} {requestId details : Json} {value : Option Json} {r₁ r₂ : Run}
    {db₁ db₂ : Db} (unlisted : MapKey.ofJson frame requestId ∉ (w.codex g).approvals)
    (current : w.Current g)
    (binds : w.db.Updates (env.moment w.clock) id (.bindTurn value) db₁)
    (writes : db₁.Writes (env.moment w.clock) id (.requestApproval (env.uuid w.uuids) k
      (.own kind) requestId (w.codex g).generation details) r₁ r₂ db₂)
    (effect : Effect env cause w
      (w.asked env g k frame id kind requestId details value db₁ db₂)) :
    Approving env (w.asked env g k frame id kind requestId details value db₁ db₂) := by
  obtain ⟨generations, distinct, older⟩ := h.effect_generations effect
  -- the schema admits only scalars as request ids, so the key is the value itself
  have key : MapKey.ofJson frame requestId = .scalar requestId := by
    have valid := writes.valid.2.2.2.2.1.2
    have saves := writes.saves
    cases saves
    have scalar := (valid _ (List.mem_append_right _ (List.mem_singleton_self _))).2.1
    revert scalar
    cases requestId <;> simp [Json.isRequestId, MapKey.ofJson, Json.isScalar]
  have sound₁ : db₁.Sound := by
    cases binds with
    | same found skipped => exact sound.db
    | wrote writes => exact writes.sound sound.db trivial nofun
  have filed₁ : Filed (.commit (.update id (.bindTurn value) (.runtime g)) w.db db₁ ::
      .requested g (.ofJson frame requestId) :: w.log) db₁ := by
    refine (h.filed.other _ rfl).commit ?_
    cases binds with
    | same found skipped => exact .of_runs rfl
    | wrote writes => exact .of_writes writes sound.db nofun
  have log : (w.asked env g k frame id kind requestId details value db₁ db₂).log =
      [.commit (.update id (.requestApproval (env.uuid w.uuids) k (.own kind) requestId
          (w.codex g).generation details) (.runtime g)) db₁ db₂,
        .commit (.update id (.bindTurn value) (.runtime g)) w.db db₁,
        .requested g (.ofJson frame requestId)] ++ w.log := rfl
  refine ⟨?_, ?_, generations, distinct, ?_, ?_, h.accepted_grow _ log (by simp)⟩
  · intro i q
    have step := h.decided_note unlisted i q
    have codex : (w.asked env g k frame id kind requestId details value db₁ db₂).codex =
        (w.note g (.ofJson frame requestId)).codex := rfl
    rw [codex]
    simpa [log, List.countP_cons, Entry.decides, Entry.requests] using step
  · intro i q
    have created := h.created i q
    simp only [log, List.cons_append, List.nil_append, List.countP_cons, Entry.creates,
      Entry.requests, key, Bool.false_eq_true, if_false, Nat.add_zero]
    exact Nat.add_le_add_right created _
  · intro other a i created
    obtain ⟨k', kind', details', before, after, member⟩ := created
    rw [log, List.mem_append] at member
    rcases member with new | old
    · simp only [List.mem_cons, Entry.commit.injEq, Origin.update.injEq,
        Change.requestApproval.injEq, Via.runtime.injEq, reduceCtorEq, List.not_mem_nil,
        or_false, and_false, false_and] at new
      obtain ⟨⟨-, ⟨name, -, -, -, generation, -⟩, rfl⟩, -⟩ := new
      obtain ⟨n, lt, issued⟩ := h.generations i current
      refine ⟨⟨w.uuids, Nat.lt_succ_self _, name⟩,
        ⟨n, lt.trans (Nat.lt_succ_self _), generation.trans issued⟩, ?_⟩
      intro g' current' same
      obtain ⟨was, same⟩ := older g' _ ⟨n, lt, generation.trans issued⟩ current' same
      exact h.distinct g' i was current (same.trans generation)
    · exact h.effect_signed effect other ⟨k', kind', details', before, after, old⟩
  · rw [log]
    refine filed₁.file sound₁ writes ?_
    intro a member same
    obtain ⟨i, created⟩ := filed₁.created id r₁ a writes.found member
    obtain ⟨⟨n, lt, name⟩, -⟩ := h.signed id a i (by
      obtain ⟨k', kind', details', before, after, member⟩ := created
      exact ⟨k', kind', details', before, after, by simpa using member⟩)
    have := env.uuid_injective (name.symm.trans same)
    omega

/-- The record of a decision goes back to a request of the same connection. -/
theorem created_of_accepted (h : Approving env w) (sound : w.Sound env) {g : Nat} {key : MapKey}
    {c : Command} {id : String} {before : Db} {r r' : Run} {a a' : Approval}
    (accepted : w.Decided g key .accept c id before r r' a a') : Created w.log id a' g := by
  obtain ⟨i, created⟩ := h.filed.created id r' a' accepted.found' accepted.member'
  have generation : (w.codex g).generation = a'.generation := by
    rw [accepted.answered]
    exact accepted.generation.symm
  have same : g = i :=
    (h.signed id a' i created).2.2 g (sound.wired.started id g accepted.live).1 generation
  rw [same]
  exact created

theorem approved (h : Approving env w) (sound : w.Sound env) {g : Nat} {key : MapKey}
    {c : Command} {id : String} {before : Db} {r r' : Run} {a a' : Approval}
    (accepted : w.Decided g key .accept c id before r r' a a') : Approved w.log g key := by
  obtain ⟨older, log⟩ := accepted.newest
  obtain ⟨version, request⟩ := accepted.request
  obtain ⟨k, kind, details, before', after', member⟩ := h.created_of_accepted sound accepted
  rw [log, List.mem_cons] at member
  refine ⟨c, id, version, before, w.db, older, r, a, log, request, accepted.found,
    accepted.waiting, List.mem_of_find?_eq_some accepted.first, accepted.pending, accepted.key,
    k, kind, details, before', after', ?_⟩
  rw [accepted.answered] at member
  exact member.resolve_left nofun

/-- With one request there is one record, and that one is accepted. -/
theorem neverExpired (h : Approving env w) (sound : w.Sound env) {g : Nat} {key : MapKey}
    {c : Command} {id : String} {before : Db} {r r' : Run} {a a' : Approval}
    (accepted : w.Decided g key .accept c id before r r' a a')
    (once : w.log.countP (Entry.requests g key) ≤ 1) : NeverExpired w.log g key := by
  intro origin before₂ after₂ id₂ r₂ a₂ listed found member created named expired
  obtain ⟨r₃, a₃, found₃, member₃, name, expired⟩ :=
    h.filed.expired origin before₂ after₂ id₂ r₂ a₂ listed found member expired
  obtain ⟨_, _, _, _, _, entry⟩ := h.created_of_accepted sound accepted
  obtain ⟨_, _, _, _, _, entry₂⟩ := created
  have asks : key = .scalar a'.requestId := by
    rw [accepted.answered]
    exact accepted.key
  have same := eq_of_countP_le_one (p := Entry.creates g key) ((h.created g key).trans once)
    entry entry₂ (by simp [Entry.creates, asks]) (by simp [Entry.creates, named])
  injection same with same
  injection same with sameRun sameChange
  injection sameChange with sameName
  rw [← sameRun, accepted.found', Option.some.injEq] at found₃
  subst found₃
  have one : a₃ = a' := by
    refine List.inj_on_of_nodup_map (h.filed.unique id r' accepted.found') member₃
      accepted.member' ?_
    rw [name, sameName]
  rw [one, accepted.answered] at expired
  cases expired

theorem answered (h : Approving env w) (sound : w.Sound env) {g : Nat} {key : MapKey}
    {decision : Decision} (listed : key ∈ (w.codex g).approvals)
    (accepted : decision = .accept → ∃ c id before r r' a a',
      w.Decided g key .accept c id before r r' a a')
    (effect : Effect env cause w ((w.wrote g (.decision key decision)).forget g key)) :
    Approving env ((w.wrote g (.decision key decision)).forget g key) := by
  obtain ⟨generations, distinct, -⟩ := h.effect_generations effect
  have log : ((w.wrote g (.decision key decision)).forget g key).log =
      .wrote g (.decision key decision) :: w.log := rfl
  refine ⟨?_, ?_, generations, distinct, ?_, h.filed.other _ rfl, ?_⟩
  · intro i q
    have decided := h.decided i q
    rw [log]
    simp only [List.countP_cons, Entry.decides, Entry.requests]
    by_cases at_ : i = g
    · subst at_
      by_cases isKey : q = key
      · subst isKey
        rw [if_pos listed] at decided
        simpa [World.forget, World.wrote] using decided
      · simpa [World.forget, World.wrote, isKey, Ne.symm isKey] using decided
    · simpa [World.forget, World.wrote, World.setCodex, at_, Ne.symm at_] using decided
  · intro i q
    simpa [log, List.countP_cons, Entry.creates, Entry.requests] using h.created i q
  · intro id a i created
    refine h.effect_signed effect id ?_
    obtain ⟨k, kind, details, before, after, member⟩ := created
    exact ⟨k, kind, details, before, after, by simpa [log] using member⟩
  · intro newer i q older split
    rw [log] at split
    cases newer with
    | nil =>
        injection split with head tail
        injection head with sameRuntime sameMessage
        injection sameMessage with sameKey isAccept
        obtain ⟨c, id, before, r, r', a, a', accepted⟩ := accepted isAccept
        rw [← sameRuntime, ← sameKey, ← tail]
        exact ⟨h.approved sound accepted, h.neverExpired sound accepted⟩
    | cons e newer =>
        injection split with head tail
        exact h.accepted newer i q older tail

theorem effect (h : Approving env w) (sound : w.Sound env) (effect : Effect env cause w w') :
    Approving env w' := by
  cases effect.calm sound with
  | neither entries log calm fewer => exact h.neither sound effect log calm fewer
  | requested unlisted result =>
      subst result
      exact h.requested unlisted effect
  | asked unlisted current binds writes result =>
      subst result
      exact h.asked sound unlisted current binds writes effect
  | answered listed accepted result =>
      subst result
      exact h.answered sound listed accepted effect

theorem reached (run : Reaches (Step env) .init w) : Approving env w := by
  refine run.keeps (init env) ?_ (fun _ _ _ sound effect h => h.effect sound effect) ?_
  · intro w i _ h
    exact ⟨h.decided, h.created, h.generations, h.distinct, h.signed, h.filed, h.accepted⟩
  · intro w h
    exact ⟨h.decided, h.created, h.generations, h.distinct, h.signed, h.filed, h.accepted⟩

end Approving

/-- Nothing is accepted without a committed decision on the pending record of that
very request; no request is answered twice; and no expired record is accepted. -/
theorem accept_only_committed_decision {env : Env} {w : World}
    (run : Reaches (Step env) .init w) (once : ∀ g q, w.log.countP (Entry.requests g q) ≤ 1) :
    (∀ newer g q older, w.log = newer ++ .wrote g (.decision q .accept) :: older →
      Approved older g q ∧ NeverExpired older g q) ∧
    ∀ g q, w.log.countP (Entry.decides g q) ≤ 1 := by
  have approving := Approving.reached run
  constructor
  · intro newer g q older split
    obtain ⟨approved, neverExpired⟩ := approving.accepted newer g q older split
    refine ⟨approved, neverExpired (le_trans ?_ (once g q))⟩
    rw [split, List.countP_append, List.countP_cons]
    omega
  · intro g q
    have := approving.decided g q
    have := once g q
    omega

/-- The request that an entry reports. -/
def Entry.request? : Entry → Option (Nat × MapKey)
  | .requested g q => some (g, q)
  | _ => none

theorem World.requests_le_one_of_nodup {w : World}
    (distinct : (w.log.filterMap Entry.request?).Nodup) (g : Nat) (q : MapKey) :
    w.log.countP (Entry.requests g q) ≤ 1 := by
  refine le_trans (le_of_eq ?_) (List.nodup_iff_count_le_one.mp distinct (g, q))
  induction w.log with
  | nil => rfl
  | cons e rest ih =>
      rw [List.countP_cons, List.filterMap_cons, ih]
      cases e <;> simp [Entry.requests, Entry.request?, List.count_cons]

/-- The decision that an entry reports to have been written, with its connection. -/
def Entry.written? : Entry → Option (Nat × Outbound)
  | .wrote g message => some (g, message)
  | _ => none

theorem Entry.written?_eq_some {e : Entry} {g : Nat} {message : Outbound} :
    e.written? = some (g, message) ↔ e = .wrote g message := by
  cases e <;> simp [Entry.written?]

set_option maxRecDepth 100000 in
/-- A script whose request for approval is accepted. -/
theorem accept_only_committed_decision_script : ∃ w,
    Reaches (Step (Script.env Script.approvalFrames)) .init w ∧
    .wrote 0 (.decision (.scalar (.num (.ofNat 7))) .accept) ∈ w.log ∧
    (∀ newer g q older, w.log = newer ++ .wrote g (.decision q .accept) :: older →
      Approved older g q ∧ NeverExpired older g q) ∧
    ∀ g q, w.log.countP (Entry.decides g q) ≤ 1 := by
  obtain ⟨w, run, holds⟩ := Script.reaches Script.approvalFrames
    (Script.asked ++ [.command (Script.resolve "accept")])
    (fun w => w.log.any (fun e =>
        e.written? = some (0, .decision (.scalar (.num (.ofNat 7))) .accept)) ∧
      (w.log.filterMap Entry.request?).Nodup) (by decide +kernel)
  obtain ⟨written, distinct⟩ := of_decide_eq_true holds
  refine ⟨w, run.ofNode, ?_,
    accept_only_committed_decision run.ofNode (World.requests_le_one_of_nodup distinct)⟩
  obtain ⟨e, member, is⟩ := List.any_eq_true.mp written
  rw [Entry.written?_eq_some.mp (of_decide_eq_true is)] at member
  exact member

end Mathmodel
