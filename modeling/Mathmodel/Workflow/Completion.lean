import Mathmodel.Workflow.Integrity

/-!
# What completing a stage registers

`complete` collects references from five sources: the outputs of the stage and the
requested artifacts, the evidence of the verification, the files of the cited
executions, their receipts and logs, and the files behind a publication. Run in an
undisturbed directory, a completion that returns is described by `Completed`; the
promises about the record are read off it.
-/

namespace Mathmodel.Workflow

open Dialogue

variable {host : Host} {links : Path → Alias} {d d' : Disk}

section Entering

theorem pending_ends {receipts : List Receipt}
    (ends : Ends (calm host links) pending d (.ok receipts) d') :
    d' = d ∧ (receipts.isEmpty = true → d.Resolved) := by
  have looks : Looks pending := .bind (.ask rfl) fun _ => .pure _
  obtain ⟨rfl, done⟩ := looks.ends_ok ends
  unfold pending at done
  simp only [answered_bind, answered_loadReceipts, answered_pure, bind_eq_ok, Except.ok.injEq,
    exists_eq_left'] at done
  exact ⟨rfl, fun none => resolved_of_filter (done ▸ none)⟩

/-- What `ready` makes sure of before a command may work on a stage. -/
structure Admits (host : Host) (d : Disk) (state : State) (stage : StageId) (step : Stage) :
    Prop where
  intact : ∀ ref ∈ state.references, d.Intact host ref
  resolved : d.Resolved
  current : state.current = some step
  id : step.id = stage

theorem ready_ends {state : State} {stage : StageId} {step : Stage}
    (ends : Ends (calm host links) (ready host state stage) d (.ok step) d') :
    d' = d ∧ Admits host d state stage step := by
  unfold ready at ends
  obtain ⟨issues, t, first, r₁⟩ := ends_bind_ok ends
  obtain ⟨rfl, intact⟩ := problems_ends first
  obtain ⟨clean, r₂⟩ := check_ends r₁
  obtain ⟨active, t, second, r₃⟩ := ends_bind_ok r₂
  obtain ⟨rfl, resolved⟩ := pending_ends second
  obtain ⟨none, r₄⟩ := check_ends r₃
  split at r₄
  next => cases (ends_ofExcept r₄).1
  next found current =>
    obtain ⟨same, r₅⟩ := check_ends r₄
    obtain ⟨rfl, rfl⟩ := ends_pure r₅
    exact ⟨rfl, intact clean, resolved none, current, by simpa using same⟩

theorem locked_ends {state : State} (ends : Ends (calm host links) locked d (.ok state) d') :
    d' = d ∧ d.state = some state := by
  unfold locked at ends
  obtain ⟨_, -, r₁⟩ := (views_localPath _ _).looks.ends_bind ends
  obtain ⟨_, -, r₂⟩ := Straight.ends_bind (.ask rfl) r₁
  obtain ⟨-, r₃⟩ := check_ends r₂
  obtain ⟨_, -, r₄⟩ := (views_localPath _ _).looks.ends_bind r₃
  obtain ⟨_, t, locking, r₅⟩ := ends_bind_ok r₄
  obtain ⟨choice, done, -⟩ := ends_request locking
  have same : t = d := by
    cases choice <;> cases done
    rfl
  obtain ⟨rfl, answer | ⟨_, ⟨⟩⟩⟩ := calm_look (q := .loadState) rfl (ends_request r₅)
  exact ⟨same, same ▸ found_eq_ok.mp answer.symm⟩

/-- Printing the result is all that is left when it is known. -/
theorem main_ends_result {command : Command} {out : Output}
    (ends : Ends (calm host links) (main host command) d (.ok out) d') :
    Ends (calm host links) (result host command) d (.ok out) d' := by
  obtain ⟨output, t, done, shown_⟩ := ends_bind_ok ends
  obtain ⟨_, u, printing, rest⟩ := ends_bind_ok shown_
  obtain ⟨choice, printed, -⟩ := ends_request printing
  have same : u = t := by
    cases choice <;> cases printed
    rfl
  cases rest with
  | ret => exact same ▸ done

/-- A command works on the state that the directory holds. -/
theorem main_ends {command : Command} {out : Output}
    (ends : Ends (calm host links) (main host command) d (.ok out) d')
    (other : ∀ args, command ≠ .init args) :
    ∃ state, d.state = some state ∧
      Ends (calm host links) (perform host command state) d (.ok out) d' := by
  have shape : result host command = locked >>= perform host command := by
    cases command with
    | init args => exact absurd rfl (other args)
    | _ => rfl
  have done := main_ends_result ends
  rw [shape] at done
  obtain ⟨state, t, first, rest⟩ := ends_bind_ok done
  obtain ⟨rfl, saved⟩ := locked_ends first
  exact ⟨state, saved, rest⟩

end Entering

section Evidence

theorem checkInput_ok {message : String} {ref : Ref} {u : Unit} :
    (checkInput host message ref).answered (look host links d) = .ok u ↔
      Located d ref.path false ∧ d.HasDigest host (parts ref.path) ref.sha256 := by
  unfold checkInput
  simp only [answered_bind, answered_check, bind_eq_ok, localPath_ok, require_eq_ok, digest_ok,
    beq_iff_eq]
  constructor
  · rintro ⟨_, ⟨rfl, located⟩, _, current, rfl⟩
    exact ⟨located, current⟩
  · rintro ⟨located, current⟩
    exact ⟨_, ⟨rfl, located⟩, _, current, rfl⟩

theorem looks_checkInput (message : String) (ref : Ref) : Looks (checkInput host message ref) :=
  .bind (views_localPath _ _).looks fun _ => .bind (views_digest host _).looks fun _ => .check _ _

/-- What citing an execution makes sure of: its receipt is that of a success in the stage at
the revision, and all its files are as they were recorded. -/
structure Cites (host : Host) (stage : StageId) (state : State) (d : Disk) (id : String)
    (found : List Ref × Receipt) (d' : Disk) : Prop where
  receipt : d.receipts.find? (fun r => r.id = id) = some found.2
  status : found.2.status = .succeeded
  stage : found.2.stage = stage
  revision : found.2.revision = state.revision
  unchanged : ∀ ref ∈ found.2.inputs ++ found.2.outputs,
    Located d ref.path false ∧ d.HasDigest host (parts ref.path) ref.sha256
  files : ∃ own logs, found.1 = found.2.inputs ++ found.2.outputs ++ own :: logs ∧
    Snapped host d (receiptName id) true true own d' ∧
    List.Forall₂ (fun name ref => Snapped host d name true false ref d') found.2.logs logs

theorem Cites.mem {stage : StageId} {state : State} {id : String} {found : List Ref × Receipt}
    (h : Cites host stage state d id found d') : found.2 ∈ d.receipts ∧ found.2.id = id :=
  ⟨List.mem_of_find?_eq_some h.receipt, by simpa using List.find?_some h.receipt⟩

theorem evidenceOf_ends {stage : StageId} {state : State} {id : String}
    {found : List Ref × Receipt}
    (ends : Ends (calm host links) (evidenceOf host stage state id) d (.ok found) d') :
    d.Grown d' ∧ Cites host stage state d id found d' := by
  unfold evidenceOf at ends
  obtain ⟨-, r₁⟩ := check_ends ends
  obtain ⟨receipt, loaded, r₂⟩ := Straight.ends_bind (.ask rfl) r₁
  rw [answered_loadReceipt, found_eq_ok] at loaded
  obtain ⟨fit, r₃⟩ := check_ends r₂
  obtain ⟨_, t, checked, r₄⟩ := ends_bind_ok r₃
  obtain ⟨rfl, unchanged⟩ := ends_forM (R := fun d d' => d' = d)
    (P := fun ref d _ => Located d ref.path false ∧ d.HasDigest host (parts ref.path) ref.sha256)
    (fun _ => rfl) (fun _ _ _ h h' => h'.trans h)
    (fun ref s t h => by
      obtain ⟨same, done⟩ := (looks_checkInput _ ref).ends_ok h
      exact ⟨same, checkInput_ok.mp done⟩) checked
  obtain ⟨own, t', first, r₅⟩ := ends_bind_ok r₄
  obtain ⟨grown, snapped⟩ := snapshot_ends first
  obtain ⟨logs, u, second, r₆⟩ := ends_bind_ok r₅
  obtain ⟨grown', all⟩ := snapshots_end second
  obtain ⟨rfl, rfl⟩ := ends_pure r₆
  simp only [Bool.and_eq_true, decide_eq_true_eq] at fit
  refine ⟨grown.trans grown', loaded, fit.1.1, fit.1.2, fit.2, ?_, own, logs, rfl, ?_, ?_⟩
  · intro ref mem
    obtain ⟨_, _, rfl, known, -⟩ := unchanged ref mem
    exact known
  · exact snapped.widen (.refl _) grown'
  · exact all.imp fun _ _ known => known.widen grown (.refl _)

theorem Cites.widen {stage : StageId} {state : State} {id : String} {found : List Ref × Receipt}
    {e e' : Disk} (h : Cites host stage state d id found d') (before : e.Grown d)
    (after : d'.Grown e') : Cites host stage state e id found e' := by
  have alike : d.Alike e := ⟨before.alike.files.symm, before.alike.receipts.symm⟩
  obtain ⟨own, logs, same, snapped, all⟩ := h.files
  refine ⟨alike.receipts ▸ h.receipt, h.status, h.stage, h.revision, ?_, own, logs, same,
    snapped.widen before after, all.imp fun _ _ known => known.widen before after⟩
  intro ref mem
  obtain ⟨located, current⟩ := h.unchanged ref mem
  exact ⟨located.alike alike, current.alike alike⟩

/-- Only the blobs of the directory afterwards matter. -/
theorem Snapped.stay {name : String} {internal nonempty : Bool} {ref : Ref} {e : Disk}
    (h : Snapped host d name internal nonempty ref d') (blobs : e.blobs = d'.blobs) :
    Snapped host d name internal nonempty ref e := by
  obtain ⟨content, there, right⟩ := h.stored
  exact ⟨h.path, h.located, h.current, h.nonempty, content, blobs ▸ there, right⟩

theorem Cites.stay {stage : StageId} {state : State} {id : String} {found : List Ref × Receipt}
    {e : Disk} (h : Cites host stage state d id found d') (blobs : e.blobs = d'.blobs) :
    Cites host stage state d id found e := by
  obtain ⟨own, logs, same, snapped, all⟩ := h.files
  exact ⟨h.receipt, h.status, h.stage, h.revision, h.unchanged, own, logs, same,
    snapped.stay blobs, all.imp fun _ _ known => known.stay blobs⟩

end Evidence

section Completing

/-- What a completion collects on its way. -/
structure Completion where
  step : Stage
  paths : List String
  files : List Ref
  evidence : List (List Ref × Receipt)
  extra : List String
  more : List Ref
  time : String

namespace Completion

/-- The receipts of the cited executions. -/
def executions (c : Completion) : List Receipt := c.evidence.map (·.2)

/-- The record that is registered. -/
def record (c : Completion) (args : CompleteArgs) (state : State) : Record :=
  .done c.time state.revision (c.files ++ c.evidence.flatMap (·.1) ++ c.more) args.execution
    args.note

end Completion

/-- A completion that returned, in terms of the directory it found. -/
structure Completed (host : Host) (links : Path → Alias) (args : CompleteArgs) (state : State)
    (d : Disk) (c : Completion) (d' : Disk) : Prop where
  admits : Admits host d state args.stage c.step
  paths : (stagePaths host args state c.step).answered (look host links d) = .ok c.paths
  files : List.Forall₂ (fun name ref => Snapped host d name false true ref d') c.paths c.files
  evidence : List.Forall₂ (fun id found => Cites host args.stage state d id found d')
    args.execution c.evidence
  executed : c.step.execution = true →
    state.kind ≠ .theory ∨ args.stage = .compile ∨ args.stage = .inspect → c.executions ≠ []
  produced : args.stage = .verify → state.kind ≠ .theory →
    ∃ e ∈ c.executions, ∃ ref ∈ e.outputs, ref.path = "verification.json"
  extra : (publicationFiles host state args.stage c.executions).answered (look host links d) =
    .ok c.extra
  more : List.Forall₂ (fun name ref => Snapped host d name false true ref d') c.extra c.more
  saved : d' = { d with
    state := some (state.register args.stage (c.record args state))
    blobs := d'.blobs
    prepared := true }
  blobs : ∀ sha content, d.blobs.lookup sha = some content → d'.blobs.lookup sha = some content

/-- Saving the state changes no file, receipt or blob. -/
theorem saveState_ends {state : State}
    (ends : Ends (calm host links) (ask (.saveState state)) d (.ok ()) d') :
    d' = { d with state := some state, prepared := true } := by
  obtain ⟨choice, done, -⟩ := ends_request ends
  cases choice <;> cases done
  rfl

theorem now_ends {time : String} (ends : Ends (calm host links) (ask .now) d (.ok time) d') :
    d' = d := by
  obtain ⟨choice, done, -⟩ := ends_request ends
  cases choice <;> cases done
  rfl

theorem complete_ends {args : CompleteArgs} {state : State} {out : Output}
    (ends : Ends (calm host links) (complete host args state) d (.ok out) d') :
    ∃ c : Completion, Completed host links args state d c d' ∧
      out = .registered args.stage (c.record args state) := by
  unfold complete at ends
  obtain ⟨step, t₁, e₁, r₁⟩ := ends_bind_ok ends
  obtain ⟨rfl, admits⟩ := ready_ends e₁
  obtain ⟨paths, named, r₂⟩ := (views_stagePaths host args state step).looks.ends_bind r₁
  obtain ⟨files, t₂, e₂, r₃⟩ := ends_bind_ok r₂
  obtain ⟨g₂, snapped⟩ := snapshots_end e₂
  obtain ⟨evidence, t₃, e₃, r₄⟩ := ends_bind_ok r₃
  obtain ⟨g₃, cited⟩ := ends_mapM (R := Disk.Grown)
    (P := fun id d found d' => Cites host args.stage state d id found d') Disk.Grown.refl
    (fun _ _ _ => Disk.Grown.trans) (fun id s found t => evidenceOf_ends) e₃
  obtain ⟨executed, r₅⟩ := check_ends r₄
  obtain ⟨verified, r₆⟩ := check_ends r₅
  obtain ⟨extra, published, r₇⟩ :=
    (views_publicationFiles host state args.stage _).looks.ends_bind r₆
  obtain ⟨more, t₄, e₄, r₈⟩ := ends_bind_ok r₇
  obtain ⟨g₄, snapped'⟩ := snapshots_end e₄
  obtain ⟨time, t₅, e₅, r₉⟩ := ends_bind_ok r₈
  obtain rfl := now_ends e₅
  obtain ⟨_, t₆, e₆, r₁₀⟩ := ends_bind_ok r₉
  obtain rfl := saveState_ends e₆
  obtain ⟨rfl, rfl⟩ := ends_pure r₁₀
  have grown := (g₂.trans g₃).trans g₄
  refine ⟨⟨step, paths, files, evidence, extra, more, time⟩,
    ⟨admits, named, ?_, ?_, ?_, ?_, ?_, ?_, ?_, grown.blobs⟩, rfl⟩
  · exact snapped.imp fun _ _ known => (known.widen (.refl _) (g₃.trans g₄)).stay rfl
  · refine cited.imp ?_
    rintro id found ⟨s, s', before, known, after⟩
    exact (known.widen (g₂.trans before) (after.trans g₄)).stay rfl
  · intro needed kind none
    change step.execution = true at needed
    change evidence.map (·.2) = [] at none
    simp only [needed, none, Bool.not_true, Bool.false_or, Bool.and_eq_true, decide_eq_true_eq,
      Bool.or_eq_true, Bool.not_eq_true', Bool.or_eq_false_iff, decide_eq_false_iff_not,
      List.isEmpty_nil, Bool.false_eq_true, or_false] at executed
    obtain kind | stage | stage := kind
    · exact kind executed.1
    · exact executed.2.1 stage
    · exact executed.2.2 stage
  · intro stage kind
    simp only [stage, kind, decide_true, ne_eq, not_false_eq_true, Bool.and_self, Bool.not_true,
      Bool.false_or, List.any_eq_true, beq_iff_eq] at verified
    exact verified
  · rw [← (g₂.trans g₃).alike.answered (views_publicationFiles host state args.stage _)]
    exact published
  · exact snapped'.imp fun _ _ known => (known.widen (g₂.trans g₃) (.refl _)).stay rfl
  · exact congrArg (fun e : Disk => ({ e with state := _, prepared := true } : Disk)) grown.rest

end Completing

section Registering

variable {state : State} {stage : StageId}

/-- A reference to the file of the name. -/
def Record.Has (record : Record) (name : String) : Prop :=
  ∃ ref ∈ record.files, ref.path = pathText (parts name)

/-- What registering a record leaves: the state with one more record, the other documents and
files as they were, and nothing that the integrity check would complain about. -/
structure Preserves (host : Host) (links : Path → Alias) (d : Disk) (state : State)
    (stage : StageId) (record : Record) (d' : Disk) : Prop where
  fresh : stage ∉ state.keys
  saved : d' = { d with
    state := some { state with stages := state.stages ++ [(stage, record)] }
    blobs := d'.blobs
    prepared := true }
  blobs : ∀ sha content, d.blobs.lookup sha = some content → d'.blobs.lookup sha = some content
  intact : ∀ ref ∈ record.files, d'.Intact host ref
  clean : (problems host { state with stages := state.stages ++ [(stage, record)] }).answered
    (look host links d') = .ok []

theorem register_eq {step : Stage} (current : state.current = some step) (id : step.id = stage)
    (record : Record) :
    state.register stage record = { state with stages := state.stages ++ [(stage, record)] } := by
  have fresh := State.current_not_mem current
  rw [id] at fresh
  exact congrArg (fun stages => { state with stages }) (State.keys_register fresh)

theorem Preserves.of_register {step : Stage} {record : Record}
    (admits : Admits host d state stage step)
    (saved : d' = { d with
      state := some (state.register stage record), blobs := d'.blobs, prepared := true })
    (blobs : ∀ sha content, d.blobs.lookup sha = some content →
      d'.blobs.lookup sha = some content)
    (intact : ∀ ref ∈ record.files, d'.Intact host ref) :
    Preserves host links d state stage record d' := by
  have alike : d.Alike d' := by
    rw [saved]
    exact ⟨rfl, rfl⟩
  rw [register_eq admits.current admits.id] at saved
  refine ⟨?_, saved, blobs, intact, problems_answered fun ref mem => ?_⟩
  · rw [← admits.id]
    exact State.current_not_mem admits.current
  · obtain mem | mem := List.mem_append.mp mem
    · exact (admits.intact ref (List.mem_append_left _ mem)).keep alike blobs
    · rw [List.flatMap_append, List.mem_append] at mem
      obtain mem | mem := mem
      · exact (admits.intact ref (List.mem_append_right _ mem)).keep alike blobs
      · exact intact ref (by simpa using mem)

/-- The files that a completion has to register. -/
structure Registers (host : Host) (links : Path → Alias) (d : Disk) (args : CompleteArgs)
    (state : State) (record : Record) : Prop where
  outputs : ∀ step, state.current = some step → ∀ name ∈ step.outputs, record.Has name
  artifacts : ∀ name ∈ args.artifact, record.Has name
  evidence : ∃ names, (verified host args.stage).answered (look host links d) = .ok names ∧
    ∀ name ∈ names, record.Has name
  legacy : ∃ names, (legacyFiles args.stage state).answered (look host links d) = .ok names ∧
    ∀ name ∈ names, record.Has name
  publication : ∃ executions names,
    List.Forall₂ (fun id r => r ∈ d.receipts ∧ r.id = id) args.execution executions ∧
    (publicationFiles host state args.stage executions).answered (look host links d) = .ok names ∧
    ∀ name ∈ names, record.Has name
  executions : ∀ id ∈ args.execution, ∃ r ∈ d.receipts, r.id = id ∧
    (∀ ref ∈ r.inputs ++ r.outputs, ref ∈ record.files) ∧ record.Has (receiptName id) ∧
    ∀ name ∈ r.logs, record.Has name

namespace Completed

variable {args : CompleteArgs} {c : Completion}

theorem alike (h : Completed host links args state d c d') : d.Alike d' := by
  rw [h.saved]
  exact ⟨rfl, rfl⟩

/-- A cited file has the blob of its receipt. -/
theorem cited_intact (h : Completed host links args state d c d') (kept : d.Kept host) {id : String}
    {found : List Ref × Receipt} (cites : Cites host args.stage state d id found d') {ref : Ref}
    (mem : ref ∈ found.1) : d'.Intact host ref := by
  obtain ⟨own, logs, same, snapped, all⟩ := cites.files
  obtain ⟨inputs, outputs, -⟩ := kept _ cites.mem.1
  rw [same] at mem
  obtain mem | mem := List.mem_append.mp mem
  · obtain ⟨located, current⟩ := cites.unchanged ref mem
    obtain ⟨content, stored, right⟩ := ((inputs.append outputs) ref mem).blob
    exact ⟨located.internal.alike h.alike, current.alike h.alike, content,
      h.blobs _ _ stored, right⟩
  · obtain rfl | mem := List.mem_cons.mp mem
    · exact snapped.intact h.alike
    · obtain ⟨_, -, known⟩ := forall₂_right all mem
      exact known.intact h.alike

theorem intact (h : Completed host links args state d c d') (kept : d.Kept host) :
    ∀ ref ∈ (c.record args state).files, d'.Intact host ref := by
  intro ref mem
  obtain mem | mem := List.mem_append.mp mem
  · obtain mem | mem := List.mem_append.mp mem
    · obtain ⟨_, -, known⟩ := forall₂_right h.files mem
      exact known.intact h.alike
    · obtain ⟨found, listed, mem⟩ := List.mem_flatMap.mp mem
      obtain ⟨_, -, cites⟩ := forall₂_right h.evidence listed
      exact h.cited_intact kept cites mem
  · obtain ⟨_, -, known⟩ := forall₂_right h.more mem
    exact known.intact h.alike

/-- Every path of the stage is registered. -/
theorem has_path (h : Completed host links args state d c d') {name : String}
    (mem : name ∈ c.paths) : (c.record args state).Has name := by
  obtain ⟨ref, listed, known⟩ := forall₂_left h.files mem
  exact ⟨ref, List.mem_append_left _ (List.mem_append_left _ listed), known.path⟩

theorem mem_cited (found : List Ref × Receipt) (listed : found ∈ c.evidence) {ref : Ref}
    (mem : ref ∈ found.1) : ref ∈ (c.record args state).files :=
  List.mem_append_left _ (List.mem_append_right _ (List.mem_flatMap.mpr ⟨found, listed, mem⟩))

/-- The paths of a stage are its outputs, the artifacts and what its gate adds. -/
theorem paths_eq (h : Completed host links args state d c d') : ∃ evidence legacy,
    (verified host args.stage).answered (look host links d) = .ok evidence ∧
    (legacyFiles args.stage state).answered (look host links d) = .ok legacy ∧
    c.paths = ((c.step.outputs ++ args.artifact).eraseDups ++ evidence ++ legacy).eraseDups := by
  have paths := h.paths
  unfold stagePaths at paths
  simp only [answered_bind, answered_pure, bind_eq_ok, Except.ok.injEq] at paths
  obtain ⟨evidence, verified, legacy, added, same⟩ := paths
  exact ⟨evidence, legacy, verified, added, same.symm⟩

theorem registers (h : Completed host links args state d c d') :
    Registers host links d args state (c.record args state) := by
  obtain ⟨evidence, legacy, verified, added, same⟩ := h.paths_eq
  have has : ∀ name, name ∈ c.step.outputs ∨ name ∈ args.artifact ∨ name ∈ evidence ∨
      name ∈ legacy → (c.record args state).Has name := by
    intro name mem
    refine h.has_path ?_
    rw [same]
    simpa [or_assoc] using mem
  refine ⟨?_, ?_, ⟨evidence, verified, ?_⟩, ⟨legacy, added, ?_⟩,
    ⟨c.executions, c.extra, ?_, h.extra, ?_⟩, ?_⟩
  · intro step current name mem
    obtain rfl : c.step = step := Option.some.inj (h.admits.current.symm.trans current)
    exact has name (.inl mem)
  · exact fun name mem => has name (.inr (.inl mem))
  · exact fun name mem => has name (.inr (.inr (.inl mem)))
  · exact fun name mem => has name (.inr (.inr (.inr mem)))
  · exact List.forall₂_map_right_iff.mpr (h.evidence.imp fun _ _ cites => cites.mem)
  · intro name mem
    obtain ⟨ref, listed, known⟩ := forall₂_left h.more mem
    exact ⟨ref, List.mem_append_right _ listed, known.path⟩
  · intro id mem
    obtain ⟨found, listed, cites⟩ := forall₂_left h.evidence mem
    obtain ⟨own, logs, same, snapped, all⟩ := cites.files
    refine ⟨found.2, cites.mem.1, cites.mem.2, fun ref mem => ?_, ?_, fun name mem => ?_⟩
    · refine mem_cited found listed ?_
      rw [same]
      exact List.mem_append_left _ mem
    · refine ⟨own, mem_cited found listed ?_, snapped.path⟩
      rw [same]
      exact List.mem_append_right _ List.mem_cons_self
    · obtain ⟨ref, there, known⟩ := forall₂_left all mem
      refine ⟨ref, mem_cited found listed ?_, known.path⟩
      rw [same]
      exact List.mem_append_right _ (List.mem_cons_of_mem _ there)

end Completed

theorem skip_ends {reason : String} {out : Output}
    (ends : Ends (calm host links) (skip host stage reason state) d (.ok out) d') :
    ∃ record, out = .registered stage record ∧ record.files = [] ∧
      Preserves host links d state stage record d' := by
  unfold skip at ends
  obtain ⟨step, t₁, e₁, r₁⟩ := ends_bind_ok ends
  obtain ⟨rfl, admits⟩ := ready_ends e₁
  obtain ⟨-, r₂⟩ := check_ends r₁
  obtain ⟨time, t₂, e₂, r₃⟩ := ends_bind_ok r₂
  obtain rfl := now_ends e₂
  obtain ⟨_, t₃, e₃, r₄⟩ := ends_bind_ok r₃
  obtain rfl := saveState_ends e₃
  obtain ⟨rfl, rfl⟩ := ends_pure r₄
  exact ⟨_, rfl, rfl, .of_register admits rfl (fun _ _ h => h) nofun⟩

/-- The documents of the script are those of a session; the files are any. -/
theorem Session.Reachable.kept {m : Session} (reachable : Session.Reachable host m)
    (files : List (Path × Node)) : { m.state.disk with files := files }.Kept host :=
  (Session.governed reachable).invariant.mono ⟨rfl, rfl, fun _ _ h => h⟩

/-- Completing and skipping a stage preserve integrity. If one returns, in a directory whose
`.workflow` is the work of the script and which nobody else changes meanwhile, the state has
one more record and is otherwise the same, the references of the record are intact, and the
integrity check finds nothing; the record of a completion has all the files it should have. -/
theorem complete_preserves_integrity {m : Session} (reachable : Session.Reachable host m)
    (saved : m.state.disk.state = some state) (files : List (Path × Node))
    (links : Path → Alias) :
    (∀ args out d',
      Ends (calm host links) (main host (.complete args)) { m.state.disk with files := files }
        (.ok out) d' →
      ∃ record, out = .registered args.stage record ∧
        Preserves host links { m.state.disk with files := files } state args.stage record d' ∧
        Registers host links { m.state.disk with files := files } args state record) ∧
    ∀ stage reason out d',
      Ends (calm host links) (main host (.skip stage reason))
        { m.state.disk with files := files } (.ok out) d' →
      ∃ record, out = .registered stage record ∧ record.files = [] ∧
        Preserves host links { m.state.disk with files := files } state stage record d' := by
  refine ⟨?_, ?_⟩
  · intro args out d' ends
    obtain ⟨_, found, rest⟩ := main_ends ends fun _ => nofun
    obtain rfl := Option.some.inj (found.symm.trans saved)
    obtain ⟨c, completed, rfl⟩ := complete_ends rest
    exact ⟨_, rfl, .of_register completed.admits completed.saved completed.blobs
      (completed.intact (reachable.kept files)), completed.registers⟩
  · intro stage reason out d' ends
    obtain ⟨_, found, rest⟩ := main_ends ends fun _ => nofun
    obtain rfl := Option.some.inj (found.symm.trans saved)
    exact skip_ends rest

set_option maxRecDepth 100000 in
/-- The first stage is completed with an execution. -/
theorem complete_preserves_integrity_executed : ∃ state record d',
    (Scenario.site (Scenario.executed .v2)).disk.state = some state ∧
    Preserves Scenario.host (fun _ => .inside) (Scenario.disk (Scenario.executed .v2)) state
      .understand record d' ∧
    record.Has "problem.md" ∧ record.Has (receiptName Scenario.id) := by
  obtain ⟨state, saved, shape⟩ := Scenario.saved (Scenario.executed .v2)
    (fun state => state.current.any fun step => "problem.md" ∈ step.outputs) (by decide +kernel)
  have done : (follow Scenario.host (fun q => (Scenario.oracle q).2) 200
      (Scenario.disk (Scenario.executed .v2))
      (main Scenario.host (.complete Scenario.completeArgs))).any (fun r => r.1.isOk) = true := by
    decide +kernel
  obtain ⟨⟨result, d'⟩, run, ok⟩ := (Option.any_eq_true _ _).mp done
  cases result with
  | error e => cases ok
  | ok out =>
      obtain ⟨record, -, preserves, registers⟩ :=
        (complete_preserves_integrity (Scenario.reachable (Scenario.executed .v2)) saved
          Scenario.files fun _ => .inside).1 _ _ _ (follow_ends _ (fun _ => rfl) run)
      obtain ⟨step, current, first⟩ := (Option.any_eq_true _ _).mp shape
      obtain ⟨r, -, -, -, own, -⟩ := registers.executions Scenario.id List.mem_cons_self
      exact ⟨state, record, d', saved, preserves,
        registers.outputs step current _ (by simpa using first), own⟩

end Registering

end Mathmodel.Workflow
