import Mathmodel.Workflow.Findings

/-!
# What a command does to the project

`Deed` lists the writes of all commands, each with what the command had made
sure of before: the state is created, a stage is registered, work is reopened,
the inputs are refreshed, the format is upgraded, a receipt is opened, updated
by the execution it belongs to, or abandoned. Every invariant of the project is
a case analysis of this list.
-/

namespace Mathmodel.Workflow

open Dialogue
open Site (Still)

/-- The state is written, and nothing else. -/
structure Wrote (s : Site) (new : State) (t : Site) : Prop where
  state : t.disk.state = some new
  receipts : t.disk.receipts = s.disk.receipts
  blobs : t.disk.blobs = s.disk.blobs
  log : t.log = s.log ++ [.answered (.saveState new) (.ok ())]

/-- A receipt is written, and nothing else. -/
structure Filed (s : Site) (receipt : Receipt) (t : Site) : Prop where
  state : t.disk.state = s.disk.state
  receipts : t.disk.receipts = (s.disk.keep receipt).receipts
  blobs : t.disk.blobs = s.disk.blobs
  log : t.log = s.log ++ [.answered (.saveReceipt receipt) (.ok ())]

/-- The path lies in the project and is not that of the manifest of a delivery. -/
def Ref.Placed (ref : Ref) : Prop :=
  ∃ name, ref.path = pathText (parts name) ∧ Admitted name true ∧
    (parts name).headD "" ≠ "delivery-manifest.json"

/-- What a reference that the script made comes with: a blob of the recorded digest, and a
path of the project. -/
structure Disk.Backs (host : Host) (disk : Disk) (ref : Ref) : Prop where
  blob : disk.Stores host ref.sha256
  placed : ref.Placed

def Disk.Holds (host : Host) (disk : Disk) (refs : List Ref) : Prop :=
  ∀ ref ∈ refs, disk.Backs host ref

/-- The record of a report that is to become a PDF holds the manifest of the paper. -/
def Record.Covers (state : State) (stage : StageId) (record : Record) : Prop :=
  stage = .report → state.format = .v2 → state.requirePdf = true →
    ∃ ref ∈ record.files, ref.path = "paper-manifest.json"

/-- What a record of a stage rests on. -/
def Justified (host : Host) (s : Site) (state : State) (step : Stage) : Record → Prop
  | .done _ revision files executions _ =>
      revision = state.revision ∧ s.disk.Holds host files ∧
        ∀ id ∈ executions, ∃ r ∈ s.disk.receipts, r.id = id ∧ r.status = .succeeded ∧
          r.stage = step.id ∧ r.revision = state.revision
  | .skipped _ _ => step.optional = true

/-- Two versions of the receipt of one execution. -/
structure Receipt.SameOrigin (old new : Receipt) : Prop where
  id : new.id = old.id
  stage : new.stage = old.stage
  revision : new.revision = old.revision
  inputs : new.inputs = old.inputs

theorem Receipt.SameOrigin.trans {a b c : Receipt} (h : a.SameOrigin b) (h' : b.SameOrigin c) :
    a.SameOrigin c :=
  ⟨h'.id.trans h.id, h'.stage.trans h.stage, h'.revision.trans h.revision,
    h'.inputs.trans h.inputs⟩

/-- A later version of a receipt names the same logs, too. -/
structure Receipt.Continues (old new : Receipt) : Prop extends old.SameOrigin new where
  logs : new.logs = old.logs

theorem Receipt.Continues.trans {a b c : Receipt} (h : a.Continues b) (h' : b.Continues c) :
    a.Continues c :=
  ⟨h.toSameOrigin.trans h'.toSameOrigin, h'.logs.trans h.logs⟩

/-- The logs of an execution lie beside its receipt. -/
def Receipt.LogsInside (receipt : Receipt) : Prop :=
  ∀ name ∈ receipt.logs, (parts name).headD "" = ".workflow"

theorem Receipt.LogsInside.continues {old new : Receipt} (inside : old.LogsInside)
    (h : old.Continues new) : new.LogsInside := by
  intro name mem
  exact inside name (h.logs ▸ mem)

/-- A file was read whose content has the digest. -/
def Digested (host : Host) (events : List Event) (path : Path) (sha : String) : Prop :=
  ∃ content, host.sha256 content = sha ∧ Event.answered (.read path) (.ok content) ∈ events

/-- The log shows what a successful execution promises. One `run` command registered its
inputs and saw that its outputs did not exist, opened the receipt, saw the process exit with
code 0 in time, and after that read every input with its recorded digest and every output as
a file that is not empty. -/
structure Proven (host : Host) (args : RunArgs) (before declared during checked after : List Event)
    (opened receipt : Receipt) (pid : Nat) (log : List Event) : Prop where
  log : log = before ++ .began (.run args) :: (declared ++
    .answered (.saveReceipt opened) (.ok ()) :: (during ++
    .answered (.wait pid args.timeout) (.ok (.exited 0)) :: (checked ++
    .answered (.saveReceipt receipt) (.ok ()) :: after)))
  alone : ∀ c, .began c ∉ declared ∧ .began c ∉ during ∧ .began c ∉ checked
  origin : opened.SameOrigin receipt
  running : opened.status = .running
  inputs : List.Forall₂ (fun name ref => ref.path = pathText (parts name) ∧
      Digested host declared (parts name) ref.sha256 ∧
      Digested host checked (parts ref.path) ref.sha256) args.input receipt.inputs
  outputs : List.Forall₂ (fun name ref => ref.path = pathText (parts name) ∧
      .answered (.exists (parts name)) (.ok false) ∈ declared ∧
      .answered (.isFile (parts name)) (.ok true) ∈ checked ∧
      (∃ bytes, 0 < bytes ∧ .answered (.size (parts name)) (.ok bytes) ∈ checked) ∧
      Digested host checked (parts name) ref.sha256) args.output receipt.outputs

/-- The receipt of a success is backed by the log. -/
def Receipt.Earned (host : Host) (log : List Event) (receipt : Receipt) : Prop :=
  ∃ args before declared during checked after opened pid,
    Proven host args before declared during checked after opened receipt pid log

/-- The writes of the commands. `entry` is the site where the command began. -/
inductive Deed (host : Host) (c : Command) (entry s t : Site) : Prop where
  | still (h : Still s t)
  | created (args : InitArgs) (state : State) (command : c = .init args)
      (vacant : s.disk.state = none) (unused : s.disk.receipts = [])
      (stages : state.stages = []) (history : state.history = []) (revision : state.revision = 1)
      (inputs : s.disk.Holds host state.inputs) (wrote : Wrote s state t)
  | registered (state : State) (stage : StageId) (step : Stage) (record : Record)
      (found : s.disk.state = some state) (ready : Ready state stage s step)
      (justified : Justified host s state step record) (covers : record.Covers state stage)
      (wrote : Wrote s (state.register stage record) t)
  | reopened (state : State) (stage : StageId) (time reason : String)
      (found : s.disk.state = some state) (resolved : s.disk.Resolved)
      (enabled : stage ∈ state.activeIds) (wrote : Wrote s (state.reopened stage time reason) t)
  | refreshed (state : State) (time reason : String) (refs : List Ref)
      (found : s.disk.state = some (state.reopened .understand time reason))
      (resolved : s.disk.Resolved) (inputs : s.disk.Holds host refs)
      (wrote : Wrote s { state.reopened .understand time reason with inputs := refs } t)
  | upgraded (state : State) (time reason : String) (legacy : state.format = .v1)
      (found : s.disk.state = some (state.reopened .report time reason))
      (resolved : s.disk.Resolved)
      (wrote : Wrote s { state.reopened .report time reason with format := .v2 } t)
  | opened (args : RunArgs) (state : State) (receipt : Receipt) (command : c = .run args)
      (found : s.disk.state = some state) (resolved : s.disk.Resolved)
      (budget : s.disk.receipts.length < state.maxRuns)
      (fresh : ∀ r ∈ s.disk.receipts, r.id ≠ receipt.id) (running : receipt.status = .running)
      (revision : receipt.revision = state.revision) (outputs : receipt.outputs = [])
      (inputs : s.disk.Holds host receipt.inputs) (logs : receipt.LogsInside)
      (filed : Filed s receipt t)
  | updated (args : RunArgs) (old new : Receipt) (command : c = .run args)
      (own : ∀ r ∈ entry.disk.receipts, r.id ≠ new.id)
      (found : old ∈ s.disk.receipts) (running : old.status = .running)
      (origin : old.Continues new) (outputs : s.disk.Holds host new.outputs)
      (filed : Filed s new t)
      (earned : new.status = .succeeded → new.Earned host t.log)
  | abandoned (reason : String) (old new : Receipt) (command : c = .abandon new.id reason)
      (found : old ∈ s.disk.receipts) (running : old.status = .running)
      (origin : old.Continues new) (outputs : new.outputs = old.outputs)
      (failed : new.status = .failed) (filed : Filed s new t)

/-- The command keeps to its deeds and ends in `post`. -/
abbrev Keeps {α : Type} (host : Host) (c : Command) (entry : Site) (post : α → Site → Prop)
    (x : Task α) (s : Site) : Prop :=
  x.Holds (serve host) (Deed host c entry) post (fun _ _ => True) s

section Rules

variable {α β : Type} {host : Host} {c : Command} {entry s : Site} {post : α → Site → Prop}

/-- Continue after a quiet part. -/
theorem Finds.then_ {x : Task β} {f : β → Task α} {P : Site → β → Site → Prop}
    (hx : Finds host x P)
    (next : ∀ b t, Still s t → P s b t → Keeps host c entry post (f b) t) :
    Keeps host c entry post (x >>= f) s :=
  Learns.then_ hx (fun _ _ => .still) (fun _ _ _ => trivial) next

theorem Finds.keeps {x : Task α} {P : Site → α → Site → Prop} (hx : Finds host x P)
    (ends : ∀ a t, Still s t → P s a t → post a t) : Keeps host c entry post x s :=
  (hx s).mono (fun _ _ => .still) (fun a t known => ends a t known.1 known.2) fun _ _ _ => trivial

theorem Keeps.weaken {x : Task α} {post' : α → Site → Prop} (h : Keeps host c entry post x s)
    (imp : ∀ a t, post a t → post' a t) : Keeps host c entry post' x s :=
  h.mono (fun _ _ deed => deed) imp fun _ _ _ => trivial

/-- Write the state. -/
theorem keeps_saveState {state : State} {f : Unit → Task α}
    (next : ∀ t, Wrote s state t → Deed host c entry s t ∧ Keeps host c entry post (f ()) t) :
    Keeps host c entry post (ask (.saveState state) >>= f) s := by
  refine holds_bind (holds_request fun r t served => ?_)
  cases r with
  | ok a =>
      obtain ⟨saved, receipts, blobs⟩ := serve_saveState served
      exact next t ⟨saved, receipts, blobs, serve_log served⟩
  | error e => exact ⟨.still (serve_refused served (.inl ⟨_, rfl⟩)), trivial⟩

/-- Write a receipt. -/
theorem keeps_saveReceipt {receipt : Receipt} {f : Unit → Task α}
    {failed : PyErr → Site → Prop} (refused : ∀ e t, Still s t → failed e t)
    (next : ∀ t, Filed s receipt t → Deed host c entry s t ∧
      (f ()).Holds (serve host) (Deed host c entry) post failed t) :
    (ask (.saveReceipt receipt) >>= f).Holds (serve host) (Deed host c entry) post failed s := by
  refine holds_bind (holds_request fun r t served => ?_)
  cases r with
  | ok a =>
      obtain ⟨state, receipts, blobs⟩ := serve_saveReceipt served
      exact next t ⟨state, receipts, blobs, serve_log served⟩
  | error e =>
      have same := serve_refused served (.inr ⟨_, rfl⟩)
      exact ⟨.still same, refused e t same⟩

end Rules

theorem Disk.Backs.mono {host : Host} {d d' : Disk} {ref : Ref} (h : d.Backs host ref)
    (same : Disk.Same d d') : d'.Backs host ref :=
  ⟨same.stores h.blob, h.placed⟩

theorem Disk.Holds.mono {host : Host} {d d' : Disk} {refs : List Ref} (h : d.Holds host refs)
    (same : Disk.Same d d') : d'.Holds host refs := fun ref mem => (h ref mem).mono same

/-- Only the blobs matter. -/
theorem Disk.Holds.of_blobs {host : Host} {d d' : Disk} {refs : List Ref} (h : d.Holds host refs)
    (blobs : ∀ sha content, d.blobs.lookup sha = some content →
      d'.blobs.lookup sha = some content) : d'.Holds host refs := by
  intro ref mem
  obtain ⟨⟨content, stored, right⟩, placed⟩ := h ref mem
  exact ⟨⟨content, blobs _ _ stored, right⟩, placed⟩

theorem Disk.Holds.append {host : Host} {d : Disk} {refs refs' : List Ref} (h : d.Holds host refs)
    (h' : d.Holds host refs') : d.Holds host (refs ++ refs') := by
  intro ref mem
  obtain mem | mem := List.mem_append.mp mem
  · exact h ref mem
  · exact h' ref mem

theorem Disk.Resolved.mono {d d' : Disk} (h : d.Resolved) (same : d'.receipts = d.receipts) :
    d'.Resolved := by
  intro r mem
  exact h r (same ▸ mem)

section Captures

variable {host : Host} {s u : Site}

theorem Admitted.internal {name : String} {internal : Bool} (h : Admitted name internal) :
    Admitted name true :=
  ⟨h.relative, h.inside, h.nonempty, .inl rfl⟩

theorem Captured.backs {name : String} {internal nonempty : Bool} {ref : Ref}
    (h : Captured host name internal nonempty s ref u)
    (apart : (parts name).headD "" ≠ "delivery-manifest.json") : u.disk.Backs host ref :=
  ⟨h.blob, name, h.path, h.admitted.internal, apart⟩

/-- A file of the user is not taken for the manifest of a delivery. -/
theorem Captured.backs_external {name : String} {nonempty : Bool} {ref : Ref}
    (h : Captured host name false nonempty s ref u) : u.disk.Backs host ref := by
  refine h.backs fun same => ?_
  obtain internal | free := h.admitted.free
  · cases internal
  · rw [same] at free
    exact free (by decide)

variable {α : Type} {name : α → String} {internal nonempty : Bool} {l : List α} {refs : List Ref}

theorem Captured.holds
    (captured : List.Forall₂ (fun a ref => Captured host (name a) false nonempty s ref u) l refs) :
    u.disk.Holds host refs := by
  intro ref mem
  obtain ⟨_, -, known⟩ := forall₂_right captured mem
  exact known.backs_external

/-- Snapshots of files beside the receipts. -/
theorem Captured.holds_internal
    (captured : List.Forall₂ (fun a ref => Captured host (name a) true nonempty s ref u) l refs)
    (inside : ∀ a ∈ l, (parts (name a)).headD "" = ".workflow") : u.disk.Holds host refs := by
  intro ref mem
  obtain ⟨a, listed, known⟩ := forall₂_right captured mem
  refine known.backs ?_
  rw [inside a listed]
  decide

/-- Every name that a snapshot was taken of is among the references. -/
theorem Captured.paths (captured : List.Forall₂ (fun a ref => ∃ t t', Still s t ∧
      Captured host (name a) internal nonempty t ref t' ∧ Still t' u) l refs)
    {a : α} (mem : a ∈ l) :
    ∃ ref ∈ refs, ref.path = pathText (parts (name a)) := by
  obtain ⟨ref, found, _, _, -, known, -⟩ := forall₂_left captured mem
  exact ⟨ref, found, known.path⟩

/-- Snapshots taken one after the other are all kept. -/
theorem Captured.all (captured : List.Forall₂ (fun a ref => ∃ t t', Still s t ∧
      Captured host (name a) internal nonempty t ref t' ∧ Still t' u) l refs) :
    List.Forall₂ (fun a ref => Captured host (name a) internal nonempty s ref u) l refs :=
  captured.imp fun _ _ ⟨_, _, before, known, after⟩ => known.widen host before after

end Captures

end Mathmodel.Workflow
