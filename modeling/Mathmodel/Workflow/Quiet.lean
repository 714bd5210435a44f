import Mathmodel.Workflow.Session

/-!
# What answering a request changes

Two requests write the documents of the script, `saveState` and `saveReceipt`,
and one a blob, `copyBlob`. Every other one is quiet: the state, the receipts and
the blobs stay, and the log is extended. A blob is copied only where there is none
of that name, so a task that takes snapshots adds blobs and changes none; such a
task is described by what it learns, a relation between the sites where it starts
and where it returns.
-/

namespace Mathmodel.Workflow

open Dialogue

def Disk.HasBlob (disk : Disk) (sha : String) : Prop := ∃ content, (sha, content) ∈ disk.blobs

/-- A blob of the name with the content it is named after. -/
def Disk.Stores (host : Host) (disk : Disk) (sha : String) : Prop :=
  ∃ content, disk.blobs.lookup sha = some content ∧ host.sha256 content = sha

section Tables

variable {κ ν : Type} [DecidableEq κ]

/-- What is looked up is in the table. -/
theorem mem_of_lookup {table : List (κ × ν)} {k : κ} {v : ν} (h : table.lookup k = some v) :
    (k, v) ∈ table := by
  induction table with
  | nil => cases h
  | cons e rest ih =>
      obtain ⟨key, value⟩ := e
      rw [List.lookup_cons] at h
      split at h
      next same =>
        rw [beq_iff_eq] at same
        cases h
        rw [same]
        exact List.mem_cons_self
      next => exact List.mem_cons_of_mem _ (ih h)

theorem lookup_eq_none {table : List (κ × ν)} {k : κ} :
    table.lookup k = none ↔ ∀ v, (k, v) ∉ table := by
  rw [List.lookup_eq_none_iff]
  constructor
  · intro h v mem
    simpa using h _ mem
  · rintro h ⟨key, v⟩ mem
    rw [bne_iff_ne]
    rintro rfl
    exact h v mem

theorem any_key_eq (table : List (κ × ν)) (k : κ) :
    (table.any fun e => e.1 == k) = (table.lookup k).isSome := by
  rw [Bool.eq_iff_iff, List.any_eq_true, ← not_iff_not, Option.not_isSome_iff_eq_none,
    lookup_eq_none]
  constructor
  · intro h v mem
    exact h ⟨(k, v), mem, beq_self_eq_true k⟩
  · rintro h ⟨⟨name, v⟩, mem, same⟩
    rw [beq_iff_eq] at same
    exact h v (same ▸ mem)

/-- A value that is assigned to a new key is put at the end. -/
theorem assign_of_none {table : List (κ × ν)} {key : κ} (fresh : table.lookup key = none)
    (value : ν) : assign table key value = table ++ [(key, value)] := by
  have absent := lookup_eq_none.mp fresh
  rw [assign, if_neg]
  simpa using absent

theorem lookup_replace_self {table : List (κ × ν)} {key : κ}
    (known : (table.any fun e => e.1 = key) = true) (value : ν) :
    (table.map fun e => if e.1 = key then (key, value) else e).lookup key = some value := by
  induction table with
  | nil => cases known
  | cons e rest ih =>
      obtain ⟨k, v⟩ := e
      rw [List.map_cons]
      split
      next => rw [List.lookup_cons, beq_self_eq_true]
      next other =>
        change ¬k = key at other
        have later : (rest.any fun e => decide (e.1 = key)) = true := by
          simpa [other] using known
        rw [List.lookup_cons, beq_eq_false_iff_ne.mpr (Ne.symm other)]
        exact ih later

/-- An assigned key has the new value. -/
theorem lookup_assign_self (table : List (κ × ν)) (key : κ) (value : ν) :
    (assign table key value).lookup key = some value := by
  unfold assign
  split
  next known => exact lookup_replace_self known value
  next fresh =>
    have absent : table.lookup key = none := by
      refine lookup_eq_none.mpr ?_
      simpa using fresh
    rw [List.lookup_append, absent, List.lookup_cons, beq_self_eq_true]
    rfl

theorem lookup_replace_of_ne {key k : κ} (other : k ≠ key) (value : ν) (table : List (κ × ν)) :
    (table.map fun e => if e.1 = key then (key, value) else e).lookup k = table.lookup k := by
  induction table with
  | nil => rfl
  | cons e rest ih =>
      obtain ⟨name, v⟩ := e
      rw [List.map_cons]
      split
      next same =>
        change name = key at same
        rw [List.lookup_cons, List.lookup_cons, ih, same, beq_eq_false_iff_ne.mpr other]
      next => rw [List.lookup_cons, List.lookup_cons, ih]

/-- The other keys keep their values. -/
theorem lookup_assign_of_ne {table : List (κ × ν)} {key k : κ} (other : k ≠ key) (value : ν) :
    (assign table key value).lookup k = table.lookup k := by
  unfold assign
  split
  · exact lookup_replace_of_ne other value table
  · rw [List.lookup_append]
    have last : [(key, value)].lookup k = none := by
      rw [List.lookup_cons, beq_eq_false_iff_ne.mpr other]
      rfl
    rw [last, Option.or_none]

end Tables

theorem Disk.Stores.hasBlob {host : Host} {disk : Disk} {sha : String}
    (h : disk.Stores host sha) : disk.HasBlob sha := by
  obtain ⟨content, found, -⟩ := h
  exact ⟨content, mem_of_lookup found⟩

/-- The state and the receipts are the same, and so are the blobs that there were. -/
structure Disk.Same (d d' : Disk) : Prop where
  state : d'.state = d.state
  receipts : d'.receipts = d.receipts
  blobs : ∀ sha content, d.blobs.lookup sha = some content → d'.blobs.lookup sha = some content

namespace Disk.Same

theorem refl (d : Disk) : Same d d := ⟨rfl, rfl, fun _ _ h => h⟩

theorem trans {d d' d'' : Disk} (h : Same d d') (h' : Same d' d'') : Same d d'' :=
  ⟨h'.state.trans h.state, h'.receipts.trans h.receipts,
    fun sha content b => h'.blobs sha content (h.blobs sha content b)⟩

/-- A blob is stored on every disk with the same blobs. -/
theorem stores {host : Host} {d d' : Disk} (h : Same d d') {sha : String}
    (stored : d.Stores host sha) : d'.Stores host sha := by
  obtain ⟨content, found, right⟩ := stored
  exact ⟨content, h.blobs sha content found, right⟩

/-- A blob of a new name is added. -/
theorem store {d d' : Disk} {sha : String} {content : Content}
    (absent : d.blobs.lookup sha = none) (state : d'.state = d.state)
    (receipts : d'.receipts = d.receipts) (blobs : d'.blobs = assign d.blobs sha content) :
    Same d d' := by
  refine ⟨state, receipts, fun name stored found => ?_⟩
  rw [blobs, assign_of_none absent, List.lookup_append, found]
  rfl

theorem makeDirectories (d : Disk) (path : Path) : Same d (d.makeDirectories path) := by
  unfold Disk.makeDirectories
  induction path.inits generalizing d with
  | nil => exact refl d
  | cons p rest ih =>
      rw [List.foldl_cons]
      refine trans ?_ (ih _)
      split
      · exact refl d
      · exact ⟨rfl, rfl, fun _ _ h => h⟩

end Disk.Same

def Request.isQuiet : Request → Bool
  | .saveState _ | .saveReceipt _ | .copyBlob _ _ => false
  | _ => true

/-- A quiet request leaves the documents of the script alone. -/
theorem Request.perform_same {host : Host} {d d' : Disk} {q : Request}
    {r : Except PyErr q.Answer} {choice : Choice}
    (done : q.perform host d choice = some (r, d')) (quiet : q.isQuiet = true) :
    Disk.Same d d' := by
  unfold Request.perform at done
  split at done
  all_goals first
    | cases quiet
    | skip
  all_goals repeat' split at done
  all_goals cases done
  all_goals first
    | exact Disk.Same.refl d
    | exact ⟨rfl, rfl, fun _ _ h => h⟩
    | exact Disk.Same.makeDirectories d _

/-- Neither the start of a command nor a saved state. -/
def Event.isPlain : Event → Bool
  | .began _ => false
  | .answered (.saveState _) (.ok _) => false
  | _ => true

/-- The log goes on, within the same command and without a saved state. -/
def Site.Extends (s t : Site) : Prop :=
  ∃ events, t.log = s.log ++ events ∧ ∀ e ∈ events, e.isPlain = true

namespace Site.Extends

variable {s t u : Site}

theorem refl (s : Site) : Extends s s := ⟨[], by simp, by simp⟩

theorem trans (h : Extends s t) (h' : Extends t u) : Extends s u := by
  obtain ⟨events, log, plain⟩ := h
  obtain ⟨events', log', plain'⟩ := h'
  refine ⟨events ++ events', by rw [log', log, List.append_assoc], fun e mem => ?_⟩
  obtain mem | mem := List.mem_append.mp mem
  · exact plain e mem
  · exact plain' e mem

theorem single {e : Event} (log : t.log = s.log ++ [e]) (plain : e.isPlain = true) :
    Extends s t :=
  ⟨_, log, by simpa using plain⟩

end Site.Extends

/-- The documents of the script are as before, up to added blobs. -/
structure Site.Still (s t : Site) : Prop where
  disk : Disk.Same s.disk t.disk
  log : s.Extends t

open Site (Still)

namespace Site.Still

variable {s t u : Site}

theorem refl (s : Site) : Still s s := ⟨.refl _, .refl _⟩

theorem trans (h : Still s t) (h' : Still t u) : Still s u :=
  ⟨h.disk.trans h'.disk, h.log.trans h'.log⟩

end Site.Still

section Served

variable {host : Host} {s t : Site}

/-- Every answer is logged. -/
theorem serve_log {q : Request} {r : Except PyErr q.Answer} (served : serve host s q r t) :
    t.log = s.log ++ [.answered q r] := by
  obtain ⟨_, _, _, log⟩ := served
  exact log

theorem isPlain_of_quiet {q : Request} (quiet : q.isQuiet = true) (r : Except PyErr q.Answer) :
    (Event.answered q r).isPlain = true := by
  cases q with
  | saveState state => cases quiet
  | _ => rfl

theorem isPlain_of_refused (q : Request) (e : PyErr) :
    (Event.answered q (.error e)).isPlain = true := by
  cases q <;> rfl

/-- A quiet request leaves state, receipts and blobs alone, whatever it is answered. -/
theorem serve_still {q : Request} {r : Except PyErr q.Answer} (served : serve host s q r t)
    (quiet : q.isQuiet = true) : Still s t := by
  refine ⟨?_, .single (serve_log served) (isPlain_of_quiet quiet r)⟩
  obtain ⟨after, _⟩ := t
  obtain ⟨files, choice, done, _⟩ := served
  obtain ⟨state, receipts, blobs⟩ := Request.perform_same done quiet
  exact ⟨state, receipts, blobs⟩

/-- A document that could not be written is as before. -/
theorem serve_refused {q : Request} {e : PyErr} (served : serve host s q (.error e) t)
    (writes : (∃ state, q = .saveState state) ∨ ∃ receipt, q = .saveReceipt receipt) :
    Still s t := by
  refine ⟨?_, .single (serve_log served) (isPlain_of_refused q e)⟩
  obtain ⟨after, _⟩ := t
  obtain ⟨files, choice, done, _⟩ := served
  obtain ⟨state, rfl⟩ | ⟨receipt, rfl⟩ := writes
  all_goals
    cases choice <;> cases done
    exact ⟨rfl, rfl, fun _ _ h => h⟩

/-- A saved state is the state of the disk from then on. -/
theorem serve_saveState {state : State} (served : serve host s (.saveState state) (.ok ()) t) :
    t.disk.state = some state ∧ t.disk.receipts = s.disk.receipts ∧
      t.disk.blobs = s.disk.blobs := by
  obtain ⟨after, _⟩ := t
  obtain ⟨files, choice, done, _⟩ := served
  cases choice <;> cases done
  exact ⟨rfl, rfl, rfl⟩

/-- A saved receipt replaces the one with its id, or is added. -/
theorem serve_saveReceipt {receipt : Receipt}
    (served : serve host s (.saveReceipt receipt) (.ok ()) t) :
    t.disk.state = s.disk.state ∧ t.disk.receipts = (s.disk.keep receipt).receipts ∧
      t.disk.blobs = s.disk.blobs := by
  obtain ⟨after, _⟩ := t
  obtain ⟨files, choice, done, _⟩ := served
  cases choice <;> cases done
  exact ⟨rfl, rfl, rfl⟩

/-- The state that is loaded is that of the disk. -/
theorem serve_loadState {state : State} (served : serve host s .loadState (.ok state) t) :
    s.disk.state = some state := by
  obtain ⟨after, _⟩ := t
  obtain ⟨files, choice, done, _⟩ := served
  cases choice with
  | proceed =>
      simp only [Request.perform] at done
      split at done
      next found =>
        cases done
        exact found
      next => cases done
  | _ => cases done

theorem serve_loadReceipts {receipts : List Receipt}
    (served : serve host s .loadReceipts (.ok receipts) t) : receipts = s.disk.receipts := by
  obtain ⟨after, _⟩ := t
  obtain ⟨files, choice, done, _⟩ := served
  cases choice <;> cases done
  rfl

theorem serve_countReceipts {count : Nat}
    (served : serve host s .countReceipts (.ok count) t) : count = s.disk.receipts.length := by
  obtain ⟨after, _⟩ := t
  obtain ⟨files, choice, done, _⟩ := served
  cases choice <;> cases done
  rfl

theorem serve_loadReceipt {id : String} {receipt : Receipt}
    (served : serve host s (.loadReceipt id) (.ok receipt) t) :
    receipt ∈ s.disk.receipts ∧ receipt.id = id := by
  obtain ⟨after, _⟩ := t
  obtain ⟨files, choice, done, _⟩ := served
  cases choice with
  | proceed =>
      simp only [Request.perform] at done
      split at done
      next found =>
        cases done
        exact ⟨List.mem_of_find?_eq_some found, by simpa using List.find?_some found⟩
      next => cases done
  | _ => cases done

theorem serve_hasBlob {sha : String} {there : Bool}
    (served : serve host s (.hasBlob sha) (.ok there) t) :
    there = (s.disk.blobs.lookup sha).isSome ∧ t.disk.blobs = s.disk.blobs := by
  obtain ⟨after, _⟩ := t
  obtain ⟨files, choice, done, _⟩ := served
  cases choice with
  | proceed =>
      simp only [Request.perform, Option.some.injEq, Prod.mk.injEq, Except.ok.injEq] at done
      obtain ⟨rfl, rfl⟩ := done
      exact ⟨any_key_eq _ _, rfl⟩
  | _ => cases done

/-- A copy, whole or cut short, puts something under the name of the blob, or nothing. -/
theorem serve_copyBlob_blobs {path : Path} {sha : String} {r : Except PyErr Unit}
    (served : serve host s (.copyBlob path sha) r t) :
    t.disk.state = s.disk.state ∧ t.disk.receipts = s.disk.receipts ∧
      (t.disk.blobs = s.disk.blobs ∨
        ∃ content, t.disk.blobs = assign s.disk.blobs sha content) := by
  obtain ⟨after, _⟩ := t
  obtain ⟨files, choice, done, _⟩ := served
  cases choice with
  | proceed =>
      simp only [Request.perform] at done
      split at done
      · cases done
        exact ⟨rfl, rfl, .inr ⟨_, rfl⟩⟩
      · cases done
        exact ⟨rfl, rfl, .inl rfl⟩
  | cut written =>
      cases done
      exact ⟨rfl, rfl, .inr ⟨_, rfl⟩⟩
  | refuse message =>
      cases done
      exact ⟨rfl, rfl, .inl rfl⟩
  | _ => cases done

/-- A blob is added where there was none. -/
theorem serve_copyBlob {path : Path} {sha : String} {r : Except PyErr Unit}
    (served : serve host s (.copyBlob path sha) r t) (absent : s.disk.blobs.lookup sha = none) :
    Still s t := by
  refine ⟨?_, .single (serve_log served) rfl⟩
  obtain ⟨state, receipts, blobs | ⟨content, blobs⟩⟩ := serve_copyBlob_blobs served
  · refine ⟨state, receipts, fun _ _ h => ?_⟩
    rw [blobs]
    exact h
  · exact Disk.Same.store absent state receipts blobs

theorem serve_readBlob {sha : String} {content : Content}
    (served : serve host s (.readBlob sha) (.ok content) t) :
    t.disk.blobs.lookup sha = some content := by
  obtain ⟨after, _⟩ := t
  obtain ⟨files, choice, done, _⟩ := served
  cases choice with
  | proceed =>
      simp only [Request.perform] at done
      split at done
      next found =>
        cases done
        exact found
      next => cases done
  | _ => cases done

/-- A new id is that of no receipt. -/
theorem serve_uuid4 {id : String} (served : serve host s .uuid4 (.ok id) t) :
    ∀ r ∈ s.disk.receipts, r.id ≠ id := by
  obtain ⟨after, _⟩ := t
  obtain ⟨files, choice, done, _⟩ := served
  cases choice with
  | text reading =>
      simp only [Request.perform] at done
      split at done
      next fresh =>
        cases done
        simpa using fresh.2
      next => cases done
  | _ => cases done

/-- In a vacant directory there is no project. -/
theorem serve_isVacant (served : serve host s .isVacant (.ok true) t) :
    s.disk.state = none ∧ s.disk.receipts = [] ∧ s.disk.blobs = [] := by
  obtain ⟨after, _⟩ := t
  obtain ⟨files, choice, done, _⟩ := served
  cases choice with
  | proceed =>
      simp only [Request.perform, Option.some.injEq, Prod.mk.injEq, Except.ok.injEq,
        Disk.isVacant, Bool.and_eq_true, Option.isNone_iff_eq_none, List.isEmpty_iff] at done
      exact ⟨done.1.1.1.1.1, done.1.1.1.1.2, done.1.1.1.2⟩
  | _ => cases done

end Served

end Mathmodel.Workflow
