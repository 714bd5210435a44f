import Mathmodel.Library.Outcome
import Mathmodel.Workflow.Findings

/-!
# A directory that nobody else changes

What a gate promises about the files of the user can only be true of files that
stay as they are while the command looks at them. `calm` is the service of an
undisturbed directory: a request may still be refused, and a copy cut short, but
the files a request finds are those of the directory. Where the symbolic links
lead is fixed as well.

A task that only looks is then a function of the directory: if it returns, it
returns what it computes from the true answers (`Straight.ends_ok`), and every other
exception than the one it computes is an `OSError`. A task that takes snapshots
only adds blobs.
-/

namespace Mathmodel.Workflow

open Dialogue

/-- Where a path with a symbolic link in it leads. -/
inductive Alias where
  | outside | inside | endless
  deriving DecidableEq, Repr

def Alias.resolution : Alias → Resolution
  | .outside => .escaping
  | .inside => .linked
  | .endless => .looping

/-- A missing file is an `OSError`. -/
def found {α : Type} : Option α → Except PyErr α
  | some a => .ok a
  | none => .error missing

/-- The true answer to a request that only looks. -/
def look (host : Host) (links : Path → Alias) (disk : Disk) : (q : Request) → Except PyErr q.Answer
  | .isInitialized => .ok disk.state.isSome
  | .loadState => found disk.state
  | .loadReceipts => .ok disk.receipts
  | .countReceipts => .ok disk.receipts.length
  | .loadReceipt id => found (disk.receipts.find? fun r => r.id = id)
  | .resolve path => .ok (if disk.isLinked path then (links path).resolution else .plain)
  | .isFile path => .ok (disk.content host path).isSome
  | .exists path => .ok (disk.exists_ host path)
  | .size path => found ((disk.content host path).map List.length)
  | .read path => found (disk.content host path)
  | .hasBlob sha => .ok (disk.blobs.any (·.1 == sha))
  | .readBlob sha => found (disk.blobs.lookup sha)
  | .destinationExists destination => .ok (disk.deliveries.any (·.1 == destination))
  | _ => .error missing

/-- The service of an undisturbed directory. -/
def calm (host : Host) (links : Path → Alias) (d : Disk) (q : Request) (r : Except PyErr q.Answer)
    (d' : Disk) : Prop :=
  ∃ choice, q.perform host d choice = some (r, d') ∧
    ∀ path reading, q = .resolve path → choice = .resolution reading →
      reading = (links path).resolution

section Looking

variable {host : Host} {links : Path → Alias} {d d' : Disk}

/-- Such a request is answered truly, unless the choice is to refuse it. -/
theorem perform_look {q : Request} {r : Except PyErr q.Answer} {choice : Choice}
    (isLook : q.isLook = true) (done : q.perform host d choice = some (r, d'))
    (same : ∀ path reading, q = .resolve path → choice = .resolution reading →
      reading = (links path).resolution) :
    d' = d ∧ (r = look host links d q ∨
      ∃ message, choice = .refuse message ∧ r = .error (.os message)) := by
  cases q with
  | resolve path =>
      cases choice with
      | proceed =>
          simp only [Request.perform] at done
          split at done
          next => cases done
          next plain =>
            cases done
            refine ⟨rfl, .inl ?_⟩
            rw [look, if_neg plain]
      | resolution reading =>
          simp only [Request.perform] at done
          split at done
          next linked =>
            cases done
            refine ⟨rfl, .inl ?_⟩
            rw [look, if_pos linked.1, ← same path reading rfl rfl]
          next => cases done
      | refuse message =>
          cases done
          exact ⟨rfl, .inr ⟨message, rfl, rfl⟩⟩
      | _ => cases done
  | loadState | loadReceipt | size | read | readBlob =>
      cases choice with
      | proceed =>
          simp only [Request.perform] at done
          split at done
          all_goals
            rename_i eq
            cases done
            refine ⟨rfl, .inl ?_⟩
            simp only [look, eq, found, Option.map_some, Option.map_none]
      | refuse message =>
          cases done
          exact ⟨rfl, .inr ⟨message, rfl, rfl⟩⟩
      | _ => cases done
  | isInitialized | loadReceipts | countReceipts | isFile | «exists» | hasBlob
  | destinationExists =>
      cases choice with
      | proceed =>
          cases done
          exact ⟨rfl, .inl rfl⟩
      | refuse message =>
          cases done
          exact ⟨rfl, .inr ⟨message, rfl, rfl⟩⟩
      | _ => cases done
  | _ => cases isLook

/-- Such a request is answered truly or refused. -/
theorem calm_look {q : Request} {r : Except PyErr q.Answer} (isLook : q.isLook = true)
    (served : calm host links d q r d') :
    d' = d ∧ (r = look host links d q ∨ ∃ message, r = .error (.os message)) := by
  obtain ⟨choice, done, same⟩ := served
  obtain ⟨rfl, answer⟩ := perform_look isLook done same
  exact ⟨rfl, answer.imp_right fun ⟨message, _, refused⟩ => ⟨message, refused⟩⟩

/-- The true answer is one that the request can get. -/
theorem look_calm {q : Request} (isLook : q.isLook = true) :
    calm host links d q (look host links d q) d := by
  cases q with
  | resolve path =>
      by_cases linked : d.isLinked path = true
      · refine ⟨.resolution (links path).resolution, ?_, ?_⟩
        · have other : (links path).resolution ≠ .plain := by cases links path <;> rintro ⟨⟩
          simp [Request.perform, look, linked, other]
        · rintro _ _ ⟨⟩ ⟨⟩
          rfl
      · refine ⟨.proceed, ?_, fun _ _ _ => (by rintro ⟨⟩)⟩
        simp [Request.perform, look, linked]
  | loadState | loadReceipt | size | read | readBlob =>
      refine ⟨.proceed, ?_, fun _ _ _ => (by rintro ⟨⟩)⟩
      simp only [Request.perform]
      split
      all_goals
        rename_i eq
        simp only [look, eq, found, Option.map_some, Option.map_none]
  | isInitialized | loadReceipts | countReceipts | isFile | «exists» | hasBlob
  | destinationExists =>
      exact ⟨.proceed, rfl, fun _ _ _ => (by rintro ⟨⟩)⟩
  | _ => cases isLook

namespace Straight

variable {α : Type} {x : Task α}

/-- A task that only looks ends with what it computes from the truth, or is refused. -/
theorem ends (h : Looks x) {result : Except PyErr α} (ends : Ends (calm host links) x d result d') :
    d' = d ∧
      (result = x.answered (look host links d) ∨ ∃ message, result = .error (.os message)) := by
  induction h generalizing d' with
  | pure a =>
      cases ends with
      | ret => exact ⟨rfl, .inl rfl⟩
  | eval y =>
      obtain ⟨rfl, rfl⟩ := ends_ofExcept ends
      exact ⟨rfl, .inl (answered_ofExcept _).symm⟩
  | ask look =>
      rw [Workflow.ask, answered_request]
      exact calm_look look (ends_request ends)
  | bind _ _ hx hf =>
      obtain ⟨b, t, first, second⟩ | ⟨e, rfl, first⟩ := ends_bind ends
      · obtain ⟨rfl, same | ⟨_, refused⟩⟩ := hx first
        · obtain ⟨rfl, rest⟩ := hf b second
          refine ⟨rfl, rest.imp_left fun same' => ?_⟩
          rw [answered_bind, ← same]
          exact same'
        · cases refused
      · obtain ⟨rfl, same | ⟨message, refused⟩⟩ := hx first
        · refine ⟨rfl, .inl ?_⟩
          rw [answered_bind, ← same]
          rfl
        · cases refused
          exact ⟨rfl, .inr ⟨message, rfl⟩⟩

theorem ends_ok (h : Looks x) {a : α} (ends : Ends (calm host links) x d (.ok a) d') :
    d' = d ∧ x.answered (look host links d) = .ok a := by
  obtain ⟨same, done | ⟨_, refused⟩⟩ := h.ends ends
  · exact ⟨same, done.symm⟩
  · cases refused

/-- A first part that only looks, and returned what it computes from the truth. -/
theorem ends_bind (h : Looks x) {β : Type} {f : α → Task β} {b : β}
    (ends : Ends (calm host links) (x >>= f) d (.ok b) d') :
    ∃ a, x.answered (look host links d) = .ok a ∧ Ends (calm host links) (f a) d (.ok b) d' := by
  obtain ⟨a, t, first, rest⟩ := ends_bind_ok ends
  obtain ⟨rfl, done⟩ := h.ends_ok first
  exact ⟨a, done, rest⟩

/-- It can be answered truly all the time. -/
theorem runs (h : Looks x) : Ends (calm host links) x d (x.answered (look host links d)) d := by
  induction h with
  | pure a => exact .ret a d
  | eval y =>
      cases y with
      | ok a => exact .ret a d
      | error e => exact .raise e d
  | @ask q isLook =>
      rw [Workflow.ask, answered_request]
      refine .ask (look_calm isLook) ?_
      cases look host links d q with
      | ok a => exact .ret a d
      | error e => exact .raise e d
  | @bind _ _ x f _ _ hx hf =>
      rw [answered_bind]
      cases first : x.answered (look host links d) with
      | ok b =>
          rw [first] at hx
          exact hx.bind (hf b)
      | error e =>
          rw [first] at hx
          exact hx.bind_error

end Straight

/-- Requests that only look, or take the lock, leave the directory alone, also where
exceptions are handled. -/
theorem ends_uses {α : Type} {x : Task α} {result : Except PyErr α}
    (uses : x.Uses fun q => q.isLook = true ∨ q = .lock)
    (ends : Ends (calm host links) x d result d') : d' = d := by
  induction ends with
  | ret a s => rfl
  | raise e s => rfl
  | ask served _ ih =>
      obtain ⟨isLook | rfl, rest⟩ := uses
      · obtain ⟨rfl, -⟩ := calm_look isLook served
        exact ih (rest _)
      · obtain ⟨choice, done, -⟩ := served
        have same := ih (rest _)
        cases choice <;> cases done <;> exact same

/-- Two versions of the directory with the same files and receipts. -/
structure Disk.Alike (d d' : Disk) : Prop where
  files : d'.files = d.files
  receipts : d'.receipts = d.receipts

namespace Disk.Alike

theorem refl (d : Disk) : d.Alike d := ⟨rfl, rfl⟩

theorem content (h : d.Alike d') (path : Path) : d'.content host path = d.content host path := by
  unfold Disk.content
  rw [h.files, h.receipts]

theorem isLinked (h : d.Alike d') (path : Path) : d'.isLinked path = d.isLinked path := by
  unfold Disk.isLinked
  rw [h.files]

theorem look (h : d.Alike d') {q : Request} (view : q.isView = true) :
    look host links d' q = look host links d q := by
  cases q with
  | loadReceipts | countReceipts | loadReceipt => simp only [Workflow.look, h.receipts]
  | resolve => simp only [Workflow.look, h.isLinked]
  | isFile | size | read => simp only [Workflow.look, h.content]
  | «exists» => simp only [Workflow.look, Disk.exists_, h.content, h.files]
  | _ => cases view

/-- What a task makes of the files and receipts is the same in both. -/
theorem answered (h : d.Alike d') {α : Type} {x : Task α} (views : Views x) :
    x.answered (Workflow.look host links d') = x.answered (Workflow.look host links d) :=
  views.uses.answered fun _ view => h.look view

end Disk.Alike

/-- Follow a task whose answers are all decided, for at most `fuel` of them. -/
def follow {α : Type} (host : Host) (oracle : Request → Choice) :
    Nat → Disk → Task α → Option (Except PyErr α × Disk)
  | _, d, .ret a => some (.ok a, d)
  | _, d, .raise e => some (.error e, d)
  | 0, _, .ask _ _ => none
  | fuel + 1, d, .ask q next =>
      match q.perform host d (oracle q) with
      | some (r, d') => follow host oracle fuel d' (next r)
      | none => none

/-- The run of such a task under a service that gives the answers decided on. -/
theorem follow_served {serve : Disk → (q : Request) → Except PyErr q.Answer → Disk → Prop}
    {α : Type} {oracle : Request → Choice}
    (serves : ∀ d q r d', q.perform host d (oracle q) = some (r, d') → serve d q r d') {fuel : Nat}
    {x : Task α} {result : Except PyErr α}
    (done : follow host oracle fuel d x = some (result, d')) : Ends serve x d result d' := by
  induction fuel generalizing d x with
  | zero =>
      cases x with
      | ret a =>
          cases done
          exact .ret a _
      | raise e =>
          cases done
          exact .raise e _
      | ask q next => cases done
  | succ fuel ih =>
      cases x with
      | ret a =>
          cases done
          exact .ret a _
      | raise e =>
          cases done
          exact .raise e _
      | ask q next =>
          rw [follow] at done
          split at done
          next r t answer => exact .ask (serves d q r t answer) (ih done)
          next => cases done

theorem follow_ends (links : Path → Alias) {α : Type} {oracle : Request → Choice}
    (plain : ∀ path, oracle (.resolve path) = .proceed) {fuel : Nat} {x : Task α}
    {result : Except PyErr α} (done : follow host oracle fuel d x = some (result, d')) :
    Ends (calm host links) x d result d' := by
  refine follow_served (fun d q r d' answer => ⟨_, answer, ?_⟩) done
  rintro path reading rfl chosen
  exact nomatch (plain path).symm.trans chosen

end Looking

section Answers

variable {answer : (q : Request) → Except PyErr q.Answer}

@[simp] theorem answered_eval {α : Type} (x : Except PyErr α) : (eval x).answered answer = x :=
  answered_ofExcept x

@[simp] theorem answered_check (condition : Bool) (message : String) :
    (check condition message).answered answer = require condition message :=
  answered_ofExcept _

@[simp] theorem require_eq_ok {condition : Bool} {message : String} {u : Unit} :
    require condition message = .ok u ↔ condition = true := by
  unfold require
  split
  next h => simp [h]
  next h => simp [h]

@[simp] theorem found_eq_ok {α : Type} {x : Option α} {a : α} : found x = .ok a ↔ x = some a := by
  cases x with
  | none => exact ⟨nofun, nofun⟩
  | some b => simp [found]

@[simp] theorem bind_eq_ok {ε α β : Type} {x : Except ε α} {f : α → Except ε β} {b : β} :
    x >>= f = .ok b ↔ ∃ a, x = .ok a ∧ f a = .ok b := Except.bind_eq_ok

@[simp] theorem pure_eq_ok {ε α : Type} {a b : α} : (pure a : Except ε α) = .ok b ↔ b = a := by
  rw [eq_comm]
  exact ⟨fun h => Except.ok.inj h, fun h => h ▸ rfl⟩

end Answers

theorem check_ends {host : Host} {links : Path → Alias} {d d' : Disk} {α : Type} {condition : Bool}
    {message : String} {f : Unit → Task α} {a : α}
    (ends : Ends (calm host links) (check condition message >>= f) d (.ok a) d') :
    condition = true ∧ Ends (calm host links) (f ()) d (.ok a) d' := by
  obtain ⟨_, passed, rest⟩ := (Straight.check condition message).ends_bind ends
  exact ⟨by simpa using passed, rest⟩

section Helpers

variable (host : Host) (links : Path → Alias) (d : Disk)

/-- The name is one that `local` accepts in this directory. -/
structure Located (name : String) (internal : Bool) : Prop where
  admitted : Admitted name internal
  plain : d.isLinked (parts name) = false

variable {d} in
theorem Located.internal {name : String} {internal : Bool} (h : Located d name internal) :
    Located d name true :=
  ⟨⟨h.admitted.relative, h.admitted.inside, h.admitted.nonempty, .inl rfl⟩, h.plain⟩

variable {host links d}

section Requests

-- The types of the answers are given, since the simplifier looks for them as they are here.

@[simp] theorem answered_resolve (p : Path) :
    answered (α := Resolution) (look host links d) (ask (.resolve p)) =
      .ok (if d.isLinked p then (links p).resolution else .plain) :=
  answered_request (A := Request.Answer) (Request.resolve p)

@[simp] theorem answered_isFile (p : Path) :
    answered (α := Bool) (look host links d) (ask (.isFile p)) = .ok (d.content host p).isSome :=
  answered_request (A := Request.Answer) (Request.isFile p)

@[simp] theorem answered_size (p : Path) :
    answered (α := Nat) (look host links d) (ask (.size p)) =
      found ((d.content host p).map List.length) :=
  answered_request (A := Request.Answer) (Request.size p)

@[simp] theorem answered_read (p : Path) :
    answered (α := Content) (look host links d) (ask (.read p)) = found (d.content host p) :=
  answered_request (A := Request.Answer) (Request.read p)

@[simp] theorem answered_hasBlob (sha : String) :
    answered (α := Bool) (look host links d) (ask (.hasBlob sha)) =
      .ok (d.blobs.any (·.1 == sha)) :=
  answered_request (A := Request.Answer) (Request.hasBlob sha)

@[simp] theorem answered_readBlob (sha : String) :
    answered (α := Content) (look host links d) (ask (.readBlob sha)) =
      found (d.blobs.lookup sha) :=
  answered_request (A := Request.Answer) (Request.readBlob sha)

@[simp] theorem answered_loadReceipts :
    answered (α := List Receipt) (look host links d) (ask .loadReceipts) = .ok d.receipts :=
  answered_request (A := Request.Answer) Request.loadReceipts

@[simp] theorem answered_loadReceipt (id : String) :
    answered (α := Receipt) (look host links d) (ask (.loadReceipt id)) =
      found (d.receipts.find? fun r => r.id = id) :=
  answered_request (A := Request.Answer) (Request.loadReceipt id)

end Requests

theorem localPath_ok {name : String} {internal : Bool} {p : Path} :
    (localPath name internal).answered (look host links d) = .ok p ↔
      p = parts name ∧ Located d name internal := by
  unfold localPath
  simp only [answered_bind, answered_check, answered_resolve, answered_eval, answered_pure,
    bind_eq_ok, require_eq_ok, Bool.and_eq_true, Bool.not_eq_true', List.contains_eq_mem,
    decide_eq_false_iff_not, List.isEmpty_eq_false_iff, Bool.or_eq_true, Except.ok.injEq]
  constructor
  · rintro ⟨_, ⟨relative, inside⟩, _, ⟨nonempty, free⟩, resolution, rfl, _, looping, _, escaping, _,
      linked, rfl⟩
    refine ⟨rfl, ⟨relative, inside, nonempty, free⟩, ?_⟩
    rw [← Bool.not_eq_true]
    intro isLinked
    rw [if_pos isLinked] at looping escaping linked
    cases leads : links (parts name) <;>
      simp [leads, Alias.resolution] at looping escaping linked
  · rintro ⟨rfl, ⟨relative, inside, nonempty, free⟩, plain⟩
    refine ⟨(), ⟨relative, inside⟩, (), ⟨nonempty, free⟩, .plain,
      ?_, (), rfl, (), rfl, (), rfl, rfl⟩
    rw [plain]
    rfl

end Helpers

end Mathmodel.Workflow
