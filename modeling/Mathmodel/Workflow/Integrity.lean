import Mathmodel.Workflow.Archive
import Mathmodel.Workflow.Calm

/-!
# What the integrity check finds

In an undisturbed directory `problems` finds nothing exactly if every reference is
intact: its path leads to a plain file with the recorded digest, and the blob of
that name has it, too. A snapshot makes an intact reference, and adds at most one
blob.
-/

namespace Mathmodel.Workflow

open Dialogue

variable {host : Host} {links : Path → Alias} {d d' : Disk}

/-- The file at the path has the digest. -/
def Disk.HasDigest (host : Host) (disk : Disk) (path : Path) (sha : String) : Prop :=
  ∃ content, disk.content host path = some content ∧ host.sha256 content = sha

/-- The reference is as it was registered. -/
structure Disk.Intact (host : Host) (disk : Disk) (ref : Ref) : Prop where
  located : Located disk ref.path true
  current : disk.HasDigest host (parts ref.path) ref.sha256
  stored : disk.Stores host ref.sha256

section Problems

/-- The digest that is computed is that of the file. -/
theorem digest_ok {p : Path} {sha : String} :
    (digest host p).answered (look host links d) = .ok sha ↔ d.HasDigest host p sha := by
  unfold digest
  simp only [answered_bind, answered_read, answered_pure, bind_eq_ok, found_eq_ok, Except.ok.injEq]
  rfl

theorem hasDigest_ok {p : Path} {sha : String} :
    (hasDigest host p sha).answered (look host links d) = .ok true ↔ d.HasDigest host p sha := by
  unfold hasDigest
  simp only [answered_bind, answered_isFile, bind_eq_ok, Except.ok.injEq, exists_eq_left']
  cases there : d.content host p with
  | none => simp [Disk.HasDigest, there]
  | some content =>
      simp only [Option.isSome_some, if_true, answered_bind, answered_pure, bind_eq_ok, digest_ok,
        Except.ok.injEq, beq_iff_eq, exists_eq_right]

theorem blobHasDigest_ok {sha : String} :
    (blobHasDigest host sha).answered (look host links d) = .ok true ↔ d.Stores host sha := by
  unfold blobHasDigest digestBlob
  simp only [answered_bind, answered_hasBlob, bind_eq_ok, Except.ok.injEq, exists_eq_left',
    any_key_eq]
  cases there : d.blobs.lookup sha with
  | none => simp [Disk.Stores, there]
  | some content =>
      simp only [Option.isSome_some, if_true, answered_bind, answered_readBlob, answered_pure,
        bind_eq_ok, found_eq_ok, Except.ok.injEq, beq_iff_eq, Disk.Stores]
      constructor
      · rintro ⟨_, ⟨found_, stored, rfl⟩, same⟩
        exact ⟨found_, stored, same⟩
      · rintro ⟨found_, stored, same⟩
        exact ⟨_, ⟨found_, stored, rfl⟩, same⟩

/-- The checks on one reference, up to their first complaint. -/
theorem problem_eq (host : Host) (ref : Ref) : ∃ x : Task (List String), Looks x ∧
    problem host ref = x.handle (fun e =>
      if e.isValueOrOs then pure [ref.path ++ ": " ++ e.message] else .raise e) ∧
    ∀ {links : Path → Alias} {d : Disk} {issues : List String},
      x.answered (look host links d) = .ok issues ↔ issues = [] ∧ d.Intact host ref := by
  refine ⟨_, ?_, rfl, ?_⟩
  · refine .bind (views_localPath _ _).looks fun p =>
      .bind (views_hasDigest host p _).looks fun _ => ?_
    refine .bind (.check _ _) fun _ => .bind (looks_blobHasDigest host _) fun _ => ?_
    exact .bind (.check _ _) fun _ => .pure _
  · intro links d issues
    simp only [answered_bind, answered_check, answered_pure, bind_eq_ok, localPath_ok,
      require_eq_ok, Except.ok.injEq]
    constructor
    · rintro ⟨_, ⟨rfl, located⟩, _, current, _, rfl, _, stored, _, rfl, rfl⟩
      exact ⟨rfl, located, hasDigest_ok.mp current, blobHasDigest_ok.mp stored⟩
    · rintro ⟨rfl, located, current, stored⟩
      exact ⟨_, ⟨rfl, located⟩, true, hasDigest_ok.mpr current, (), rfl, true,
        blobHasDigest_ok.mpr stored, (), rfl, rfl⟩

/-- An intact reference has no problem. -/
theorem problem_answered {ref : Ref} (intact : d.Intact host ref) :
    (problem host ref).answered (look host links d) = .ok [] := by
  obtain ⟨x, -, same, iff⟩ := problem_eq host ref
  rw [same, answered_handle, iff.mpr ⟨rfl, intact⟩]

/-- A reference without a problem is intact. -/
theorem problem_ends {ref : Ref} {issues : List String}
    (ends : Ends (calm host links) (problem host ref) d (.ok issues) d') :
    d' = d ∧ (issues = [] → d.Intact host ref) := by
  obtain ⟨x, looks, same, iff⟩ := problem_eq host ref
  rw [same] at ends
  obtain ⟨_, ⟨⟩, first⟩ | ⟨e, t, first, second⟩ := ends_handle ends
  · obtain ⟨rfl, done⟩ := looks.ends_ok first
    exact ⟨rfl, fun _ => (iff.mp done).2⟩
  · obtain ⟨rfl, -⟩ := looks.ends first
    split at second
    · obtain ⟨rfl, rfl⟩ := ends_pure second
      exact ⟨rfl, nofun⟩
    · cases second

theorem answered_mapM_pure {α β : Type} {answer : (q : Request) → Except PyErr q.Answer}
    {f : α → Task β} {g : α → β} {l : List α} (each : ∀ a ∈ l, (f a).answered answer = .ok (g a)) :
    (l.mapM f).answered answer = .ok (l.map g) := by
  induction l with
  | nil => rfl
  | cons a rest ih =>
      rw [List.mapM_cons]
      simp only [answered_bind, answered_pure, bind_eq_ok]
      exact ⟨_, each a List.mem_cons_self, _,
        ih fun b mem => each b (List.mem_cons_of_mem _ mem), rfl⟩

/-- Nothing is found where every reference is intact. -/
theorem problems_answered {state : State} (intact : ∀ ref ∈ state.references, d.Intact host ref) :
    (problems host state).answered (look host links d) = .ok [] := by
  unfold problems
  simp only [answered_bind, answered_pure, bind_eq_ok]
  refine ⟨_, answered_mapM_pure fun ref mem => problem_answered (intact ref mem), ?_⟩
  simp

/-- If the check lists no problem, every reference is intact. -/
theorem problems_ends {state : State} {issues : List String}
    (ends : Ends (calm host links) (problems host state) d (.ok issues) d') :
    d' = d ∧ (issues.isEmpty = true → ∀ ref ∈ state.references, d.Intact host ref) := by
  unfold problems at ends
  obtain ⟨found_, t, first, ends⟩ := ends_bind_ok ends
  obtain ⟨rfl, rfl⟩ := ends_pure ends
  obtain ⟨rfl, all⟩ := ends_mapM (R := fun d d' => d' = d)
    (P := fun ref d issues _ => issues = [] → d.Intact host ref) (fun _ => rfl)
    (fun _ _ _ h h' => h'.trans h) (fun ref s issues t h => problem_ends h) first
  refine ⟨rfl, fun none => ?_⟩
  have empty : ∀ issues ∈ found_, issues = [] := by
    intro issues mem
    rw [List.isEmpty_iff] at none
    have nothing : found_.flatten = [] := by
      rw [List.eq_nil_iff_forall_not_mem]
      intro x has
      have listed : x ∈ found_.flatten.eraseDups.mergeSort fun a b => decide (a ≤ b) :=
        List.mem_mergeSort.mpr (List.mem_eraseDups.mpr has)
      rw [none] at listed
      cases listed
    exact List.flatten_eq_nil_iff.mp nothing issues mem
  intro ref mem
  obtain ⟨issues, listed, _, _, rfl, intact, -⟩ := forall₂_left all mem
  exact intact (empty issues listed)

end Problems

/-- Blobs are added, and nothing else happens. -/
structure Disk.Grown (d d' : Disk) : Prop where
  rest : d' = { d with blobs := d'.blobs }
  blobs : ∀ sha content, d.blobs.lookup sha = some content → d'.blobs.lookup sha = some content

namespace Disk.Grown

theorem refl (d : Disk) : d.Grown d := ⟨rfl, fun _ _ h => h⟩

theorem trans {d d' d'' : Disk} (h : d.Grown d') (h' : d'.Grown d'') : d.Grown d'' := by
  refine ⟨?_, fun sha content stored => h'.blobs sha content (h.blobs sha content stored)⟩
  rw [h'.rest, h.rest]

/-- A disk that has only grown has the same files. -/
theorem alike (h : d.Grown d') : d.Alike d' := by
  rw [h.rest]
  exact ⟨rfl, rfl⟩

/-- A disk that has only grown still stores what it stored. -/
theorem stores (h : d.Grown d') {sha : String} (stored : d.Stores host sha) :
    d'.Stores host sha := by
  obtain ⟨content, there, right⟩ := stored
  exact ⟨content, h.blobs sha content there, right⟩

end Disk.Grown

theorem Located.alike {name : String} {internal : Bool} (h : Located d name internal)
    (alike : d.Alike d') : Located d' name internal :=
  ⟨h.admitted, (alike.isLinked _).trans h.plain⟩

theorem Disk.HasDigest.alike {path : Path} {sha : String} (h : d.HasDigest host path sha)
    (alike : d.Alike d') : d'.HasDigest host path sha := by
  obtain ⟨content, there, right⟩ := h
  exact ⟨content, (alike.content path).trans there, right⟩

/-- A reference stays intact while files and blobs are kept. -/
theorem Disk.Intact.keep {ref : Ref} (h : d.Intact host ref) (alike : d.Alike d')
    (blobs : ∀ sha content, d.blobs.lookup sha = some content →
      d'.blobs.lookup sha = some content) : d'.Intact host ref := by
  refine ⟨h.located.alike alike, h.current.alike alike, ?_⟩
  obtain ⟨content, there, right⟩ := h.stored
  exact ⟨content, blobs _ _ there, right⟩

section Snapshots

/-- What a snapshot makes of a file. -/
structure Snapped (host : Host) (d : Disk) (name : String) (internal nonempty : Bool) (ref : Ref)
    (d' : Disk) : Prop where
  path : ref.path = pathText (parts name)
  located : Located d name internal
  current : d.HasDigest host (parts name) ref.sha256
  nonempty : nonempty = true → d.content host (parts name) ≠ some []
  stored : d'.Stores host ref.sha256

/-- A snapshot is one over any longer stretch in which the disk only grows. -/
theorem Snapped.widen {name : String} {internal nonempty : Bool} {ref : Ref} {e e' : Disk}
    (h : Snapped host d name internal nonempty ref d') (before : e.Grown d) (after : d'.Grown e') :
    Snapped host e name internal nonempty ref e' := by
  have alike : d.Alike e := ⟨before.alike.files.symm, before.alike.receipts.symm⟩
  refine ⟨h.path, h.located.alike alike, h.current.alike alike, ?_, after.stores h.stored⟩
  rw [alike.content]
  exact h.nonempty

/-- The reference that a snapshot returns is intact. -/
theorem Snapped.intact {name : String} {internal nonempty : Bool} {ref : Ref}
    (h : Snapped host d name internal nonempty ref d') (alike : d.Alike d') :
    d'.Intact host ref := by
  have isPath := isPath_parts h.located.admitted.nonempty
  have same : parts ref.path = parts name := by
    rw [h.path]
    exact parts_pathText isPath
  refine ⟨⟨⟨?_, ?_, ?_, .inl rfl⟩, ?_⟩, ?_, h.stored⟩
  · rw [h.path]
    exact isAbsolute_pathText isPath
  · rw [same]
    exact h.located.admitted.inside
  · rw [same]
    exact h.located.admitted.nonempty
  · rw [same, alike.isLinked]
    exact h.located.plain
  · rw [same]
    exact h.current.alike alike

theorem storeBlob_ends {path : Path} {sha : String}
    (ends : Ends (calm host links) (storeBlob path sha) d (.ok ()) d') : d.Grown d' := by
  obtain ⟨there, t, first, rest⟩ := ends_bind_ok ends
  obtain ⟨rfl, answer | ⟨_, ⟨⟩⟩⟩ := calm_look (q := .hasBlob sha) rfl (ends_request first)
  split at rest
  · obtain ⟨-, rfl⟩ := ends_pure rest
    exact .refl _
  next missing =>
    have absent : t.blobs.lookup sha = none := by
      rw [← Option.not_isSome_iff_eq_none, ← any_key_eq]
      cases answer
      exact missing
    obtain ⟨choice, done, -⟩ := ends_request rest
    cases choice with
    | proceed =>
        simp only [Request.perform] at done
        split at done
        · cases done
          refine ⟨rfl, fun name stored there => ?_⟩
          rw [assign_of_none absent, List.lookup_append, there]
          rfl
        · cases done
    | _ => cases done

theorem views_isAcceptable (nonempty : Bool) (path : Path) : Views (isAcceptable nonempty path) :=
  .ite (views_isNonempty path) (.pure _)

/-- Where a file must not be empty, an acceptable one is not. -/
theorem isAcceptable_ok {nonempty : Bool} {path : Path}
    (h : (isAcceptable nonempty path).answered (look host links d) = .ok true) :
    nonempty = true → d.content host path ≠ some [] := by
  rintro rfl there
  simp only [isAcceptable, isNonempty, if_true, answered_bind, answered_size, answered_pure, there,
    Option.map_some, bind_eq_ok, found_eq_ok, Option.some.injEq] at h
  obtain ⟨_, rfl, positive⟩ := h
  cases positive

theorem digestBlob_ok {sha stored : String} :
    (digestBlob host sha).answered (look host links d) = .ok stored ↔
      ∃ content, d.blobs.lookup sha = some content ∧ host.sha256 content = stored := by
  unfold digestBlob
  simp only [answered_bind, answered_readBlob, answered_pure, bind_eq_ok, found_eq_ok,
    Except.ok.injEq]

/-- A snapshot that returns has stored the file under its digest, and the disk has only grown. -/
theorem snapshot_ends {name : String} {internal nonempty : Bool} {ref : Ref}
    (ends : Ends (calm host links) (snapshot host name internal nonempty) d (.ok ref) d') :
    d.Grown d' ∧ Snapped host d name internal nonempty ref d' := by
  unfold snapshot at ends
  obtain ⟨p, name_, r₁⟩ := (views_localPath name internal).looks.ends_bind ends
  obtain ⟨rfl, located⟩ := localPath_ok.mp name_
  obtain ⟨isFile, -, r₂⟩ := Straight.ends_bind (.ask rfl) r₁
  obtain ⟨-, r₃⟩ := check_ends r₂
  obtain ⟨_, acceptable, r₄⟩ := (views_isAcceptable nonempty _).looks.ends_bind r₃
  obtain ⟨rfl, r₅⟩ := check_ends r₄
  obtain ⟨sha, current, r₆⟩ := (views_digest host _).looks.ends_bind r₅
  obtain ⟨_, t, storing, r₇⟩ := ends_bind_ok r₆
  obtain ⟨stored, blob, r₈⟩ := (looks_digestBlob host _).ends_bind r₇
  obtain ⟨same, r₉⟩ := check_ends r₈
  obtain ⟨bytes, -, r₁₀⟩ := Straight.ends_bind (.ask rfl) r₉
  obtain ⟨rfl, rfl⟩ := ends_pure r₁₀
  obtain ⟨content, there, right⟩ := digestBlob_ok.mp blob
  rw [beq_iff_eq] at same
  exact ⟨storeBlob_ends storing, rfl, located, digest_ok.mp current, isAcceptable_ok acceptable,
    content, there, right.trans same⟩

/-- Snapshots taken one after the other. -/
theorem snapshots_end {internal nonempty : Bool} {names : List String} {refs : List Ref}
    (ends : Ends (calm host links)
      (names.mapM fun name => snapshot host name internal nonempty) d (.ok refs) d') :
    d.Grown d' ∧
      List.Forall₂ (fun name ref => Snapped host d name internal nonempty ref d') names refs := by
  obtain ⟨grown, all⟩ := ends_mapM (R := Disk.Grown)
    (P := fun name d ref d' => Snapped host d name internal nonempty ref d') Disk.Grown.refl
    (fun _ _ _ => Disk.Grown.trans) (fun name s ref t => snapshot_ends) ends
  refine ⟨grown, all.imp ?_⟩
  rintro name ref ⟨t, t', before, snapped, after⟩
  exact snapped.widen before after

end Snapshots

end Mathmodel.Workflow
