import Mathmodel.Workflow.Failure
import Mathmodel.Workflow.Smooth

/-!
# The blobs

A blob is copied under its final name and looked at afterwards, and a name that is
there is taken for a blob that is there. So a copy that is cut short, or that finds
another content than the one that was hashed, leaves a wrong blob for good. As long as
that does not happen every blob is right, and then a snapshot of a file succeeds
whatever has failed before.
-/

namespace Mathmodel.Workflow

open Dialogue

/-- Every blob has the content it is named after. -/
def Disk.Right (host : Host) (disk : Disk) : Prop :=
  ∀ e ∈ disk.blobs, host.sha256 e.2 = e.1

/-- The service in which a copied blob is copied whole, from the content that was hashed. -/
def steady (host : Host) (s : Site) (q : Request) (r : Except PyErr q.Answer) (t : Site) : Prop :=
  ∃ files choice, q.perform host { s.disk with files := files } choice = some (r, t.disk) ∧
    t.log = s.log ++ [.answered q r] ∧
    ∀ path sha, q = .copyBlob path sha → (∀ written, choice ≠ .cut written) ∧
      ∀ content, Disk.content host { s.disk with files := files } path = some content →
        host.sha256 content = sha

/-- The events in the life of such a project. -/
def Session.SteadyStep (host : Host) : Session → Session → Prop :=
  Machine.Step (result host) Site.enter (steady host)

section Invariant

variable {host : Host} {s t : Site}

theorem steady_serve {q : Request} {r : Except PyErr q.Answer} (served : steady host s q r t) :
    serve host s q r t := by
  obtain ⟨files, choice, done, log, -⟩ := served
  exact ⟨files, choice, done, log⟩

theorem blobs_makeDirectories (d : Disk) (path : Path) :
    (d.makeDirectories path).blobs = d.blobs := by
  unfold Disk.makeDirectories
  induction path.inits generalizing d with
  | nil => rfl
  | cons p rest ih =>
      rw [List.foldl_cons, ih]
      split
      · rfl
      · rfl

/-- Only copying a blob changes the blobs. -/
theorem Request.perform_blobs {d d' : Disk} {q : Request} {r : Except PyErr q.Answer}
    {choice : Choice} (done : q.perform host d choice = some (r, d'))
    (other : ∀ path sha, q ≠ .copyBlob path sha) : d'.blobs = d.blobs := by
  unfold Request.perform at done
  split at done
  all_goals first
    | exact absurd rfl (other _ _)
    | skip
  all_goals repeat' split at done
  all_goals cases done
  all_goals first
    | rfl
    | exact blobs_makeDirectories d _

theorem mem_assign {κ ν : Type} [DecidableEq κ] {table : List (κ × ν)} {key : κ} {value : ν}
    {e : κ × ν} (mem : e ∈ assign table key value) : e ∈ table ∨ e = (key, value) := by
  unfold assign at mem
  split at mem
  · obtain ⟨old, listed, rfl⟩ := List.mem_map.mp mem
    split
    · exact .inr rfl
    · exact .inl listed
  · obtain listed | listed := List.mem_append.mp mem
    · exact .inl listed
    · exact .inr (List.mem_singleton.mp listed)

theorem Disk.Right.assign {d : Disk} (right : d.Right host) {content : Content} {sha : String}
    (same : host.sha256 content = sha) {d' : Disk} (blobs : d'.blobs = assign d.blobs sha content) :
    d'.Right host := by
  intro e mem
  rw [blobs] at mem
  obtain listed | rfl := mem_assign mem
  · exact right e listed
  · exact same

theorem Disk.Right.steady {q : Request} {r : Except PyErr q.Answer} (right : s.disk.Right host)
    (served : steady host s q r t) : t.disk.Right host := by
  obtain ⟨after, _⟩ := t
  obtain ⟨files, choice, done, _, whole⟩ := served
  by_cases copies : ∃ path sha, q = .copyBlob path sha
  · obtain ⟨path, sha, rfl⟩ := copies
    obtain ⟨uncut, same⟩ := whole path sha rfl
    cases choice with
    | proceed =>
        simp only [Request.perform] at done
        split at done
        next content there =>
          cases done
          exact right.assign (same content there) rfl
        next =>
          cases done
          exact right
    | cut written => exact absurd rfl (uncut written)
    | refuse message =>
        cases done
        exact right
    | _ => cases done
  · have blobs := Request.perform_blobs done fun path sha same => copies ⟨path, sha, same⟩
    intro e mem
    rw [blobs] at mem
    exact right e mem

/-- The blobs stay right in every such run. -/
theorem Session.SteadyStep.right {m m' : Session} (right : m.state.disk.Right host)
    (run : Relation.ReflTransGen (Session.SteadyStep host) m m') : m'.state.disk.Right host := by
  induction run with
  | refl => exact right
  | tail _ step ih =>
      cases step with
      | start s c => exact ih
      | answer served => exact ih.steady served
      | leave s p => exact ih

theorem Session.SteadyStep.serves {m m' : Session}
    (run : Relation.ReflTransGen (Session.SteadyStep host) m m') :
    Relation.ReflTransGen (Session.Step host) m m' := by
  refine Relation.ReflTransGen.mono (fun m m' step => ?_) _ _ run
  cases step with
  | start s c => exact .start s c
  | answer served => exact .answer (steady_serve served)
  | leave s p => exact .leave s p

end Invariant

section Snapshot

variable {host : Host} {links : Path → Alias} {d d' : Disk}

theorem Disk.Right.stores (right : d.Right host) {sha : String} {content : Content}
    (there : d.blobs.lookup sha = some content) : d.Stores host sha :=
  ⟨content, there, right _ (mem_of_lookup there)⟩

/-- Where the blobs are right, the blob that is wanted is there afterwards, and right. -/
theorem storeBlob_smooth {path : Path} {content : Content} {result : Except PyErr Unit}
    (right : d.Right host) (there : d.content host path = some content)
    (ends : Ends (smooth host links) (storeBlob path (host.sha256 content)) d result d') :
    result = .ok () ∧ d.Alike d' ∧ d'.Right host ∧ d'.Stores host (host.sha256 content) := by
  unfold storeBlob at ends
  replace ends := smooth_bind (Straight.ask (q := .hasBlob _) rfl).uses (answered_hasBlob _) ends
  rw [any_key_eq] at ends
  cases known : d.blobs.lookup (host.sha256 content) with
  | some stored =>
      rw [known] at ends
      cases ends with
      | ret => exact ⟨rfl, .refl d, right, right.stores known⟩
  | none =>
      rw [known] at ends
      obtain ⟨choice, done, lets, -⟩ := ends_request ends
      cases choice with
      | proceed =>
          simp only [Request.perform, there] at done
          cases done
          exact ⟨rfl, ⟨rfl, rfl⟩, right.assign rfl rfl, content, lookup_assign_self _ _ _, rfl⟩
      | refuse message => exact absurd rfl (lets.allowed message)
      | cut written => exact absurd rfl (lets.whole written)
      | _ => cases done

/-- A snapshot that meets no I/O error succeeds, where the blobs are right. -/
theorem snapshot_smooth {name : String} {internal nonempty : Bool} {content : Content}
    {result : Except PyErr Ref} (right : d.Right host) (located : Located d name internal)
    (there : d.content host (parts name) = some content)
    (substantial : nonempty = true → content ≠ [])
    (ends : Ends (smooth host links) (snapshot host name internal nonempty) d result d') :
    ∃ ref, result = .ok ref ∧ ref.sha256 = host.sha256 content ∧ d.Alike d' ∧ d'.Right host := by
  unfold snapshot at ends
  replace ends := smooth_bind (views_localPath name internal).looks.uses
    (localPath_ok.mpr ⟨rfl, located⟩) ends
  replace ends := smooth_bind (Straight.ask (q := .isFile _) rfl).uses (answered_isFile _) ends
  replace ends := smooth_check (by rw [there]; rfl) ends
  have acceptable :
      (isAcceptable nonempty (parts name)).answered (look host links d) = .ok true := by
    cases nonempty with
    | false => rfl
    | true =>
        simp only [isAcceptable, isNonempty, if_true, answered_bind, answered_size, answered_pure,
          there, Option.map_some, bind_eq_ok, found_eq_ok, Option.some.injEq, Except.ok.injEq]
        exact ⟨_, rfl, decide_eq_true (List.length_pos_iff.mpr (substantial rfl))⟩
  replace ends := smooth_bind (views_isAcceptable nonempty _).looks.uses acceptable ends
  replace ends := smooth_check rfl ends
  replace ends := smooth_bind (views_digest host _).looks.uses (digest_ok.mpr ⟨_, there, rfl⟩) ends
  obtain ⟨_, t, storing, ends⟩ | ⟨e, -, storing⟩ := ends_bind ends
  · obtain ⟨-, alike, right', stored⟩ := storeBlob_smooth right there storing
    replace ends := smooth_bind (looks_digestBlob host _).uses (digestBlob_ok.mpr stored) ends
    replace ends := smooth_check (beq_self_eq_true _) ends
    have size : (ask (.size (parts name))).answered (look host links t) = .ok content.length := by
      rw [answered_size, alike.content, there]
      rfl
    replace ends := smooth_bind (Straight.ask (q := .size _) rfl).uses size ends
    cases ends with
    | ret => exact ⟨_, rfl, rfl, alike, right'⟩
  · obtain ⟨failed, -⟩ := storeBlob_smooth right there storing
    cases failed

theorem answers_snapshot (name : String) (internal nonempty : Bool) :
    (snapshot host name internal nonempty).Uses fun q => q.isAnswered = true := by
  refine uses_bind (answers_of_looks (views_localPath name internal).looks.uses) fun p => ?_
  refine uses_bind (uses_request rfl) fun _ => uses_bind (uses_ofExcept _) fun _ => ?_
  refine uses_bind (answers_of_looks (views_isAcceptable nonempty p).looks.uses) fun _ => ?_
  refine uses_bind (uses_ofExcept _) fun _ => ?_
  refine uses_bind (answers_of_looks (views_digest host p).looks.uses) fun sha => ?_
  refine uses_bind (uses_bind (uses_request rfl) fun there => ?_) fun _ => ?_
  · split
    · exact uses_pure _
    · exact uses_request rfl
  · refine uses_bind (answers_of_looks (looks_digestBlob host sha).uses) fun _ => ?_
    refine uses_bind (uses_ofExcept _) ?_
    exact fun _ => uses_bind (uses_request rfl) fun _ => uses_pure _

end Snapshot

section Runs

variable {host : Host} {c : Command} {entry s t : Site}

/-- A blob that is there stays as it is. -/
theorem Deed.blobs (deed : Deed host c entry s t) {sha : String} {content : Content}
    (stored : s.disk.blobs.lookup sha = some content) :
    t.disk.blobs.lookup sha = some content := by
  cases deed with
  | still still => exact still.disk.blobs sha content stored
  | created _ _ _ _ _ _ _ _ _ wrote => exact wrote.blobs ▸ stored
  | registered _ _ _ _ _ _ _ _ wrote => exact wrote.blobs ▸ stored
  | reopened _ _ _ _ _ _ _ wrote => exact wrote.blobs ▸ stored
  | refreshed _ _ _ _ _ _ _ wrote => exact wrote.blobs ▸ stored
  | upgraded _ _ _ _ _ _ wrote => exact wrote.blobs ▸ stored
  | opened _ _ _ _ _ _ _ _ _ _ _ _ _ filed => exact filed.blobs ▸ stored
  | updated _ _ _ _ _ _ _ _ _ filed _ => exact filed.blobs ▸ stored
  | abandoned _ _ _ _ _ _ _ _ _ filed => exact filed.blobs ▸ stored

theorem Session.blobs_persist {m m' : Session} (reachable : Session.Reachable host m)
    (run : Relation.ReflTransGen (Session.Step host) m m') {sha : String} {content : Content}
    (stored : m.state.disk.blobs.lookup sha = some content) :
    m'.state.disk.blobs.lookup sha = some content := by
  induction run with
  | refl => exact stored
  | tail run step ih =>
      obtain same | ⟨c, -, same⟩ | ⟨c, entry, d, -, -, deed⟩ :=
        Session.step (reachable.trans run) step
      · rw [same]
        exact ih
      · rw [same]
        exact ih
      · exact deed.blobs ih

/-- In every run in which no blob is copied in part, or from another content than the one that
was hashed, every blob has the content it is named after. So a snapshot of any file succeeds if
it meets no I/O error itself, and what is registered is there to be exported ever after. -/
theorem blobs_right {m m' : Session}
    (run : Relation.ReflTransGen (Session.SteadyStep host) Session.new m)
    (onward : Relation.ReflTransGen (Session.SteadyStep host) m m') :
    (∀ e ∈ m'.state.disk.blobs, host.sha256 e.2 = e.1) ∧
    (∀ files links name internal nonempty content,
      Located { m'.state.disk with files := files } name internal →
      Disk.content host { m'.state.disk with files := files } (parts name) = some content →
      (nonempty = true → content ≠ []) →
      (∃ ref d', Ends (smooth host links) (snapshot host name internal nonempty)
        { m'.state.disk with files := files } (.ok ref) d') ∧
      ∀ e d', ¬ Ends (smooth host links) (snapshot host name internal nonempty)
        { m'.state.disk with files := files } (.error e) d') ∧
    ∀ state, m.state.disk.state = some state → ∀ ref ∈ state.references, ∃ content,
      m.state.disk.blobs.lookup ref.sha256 = some content ∧
      m'.state.disk.blobs.lookup ref.sha256 = some content ∧ host.sha256 content = ref.sha256 := by
  have right : m'.state.disk.Right host :=
    Session.SteadyStep.right (fun _ mem => absurd mem List.not_mem_nil) (run.trans onward)
  refine ⟨right, ?_, ?_⟩
  · intro files links name internal nonempty content located there substantial
    have succeeds : ∀ result d', Ends (smooth host links) (snapshot host name internal nonempty)
        { m'.state.disk with files := files } result d' → ∃ ref, result = .ok ref := by
      intro result d' ends
      have right' : Disk.Right host { m'.state.disk with files := files } := right
      obtain ⟨ref, done, -⟩ := snapshot_smooth right' located there substantial ends
      exact ⟨ref, done⟩
    refine ⟨?_, fun e d' ends => ?_⟩
    · obtain ⟨result, d', ends⟩ := exists_ends (answers_snapshot name internal nonempty) _
      obtain ⟨ref, rfl⟩ := succeeds result d' ends
      exact ⟨ref, d', ends⟩
    · obtain ⟨ref, failed⟩ := succeeds _ d' ends
      cases failed
  · intro state saved ref mem
    have reachable : Session.Reachable host m := Session.SteadyStep.serves run
    obtain ⟨content, stored, same⟩ := (Session.backs reachable saved mem).blob
    exact ⟨content, stored,
      Session.blobs_persist reachable (Session.SteadyStep.serves onward) stored, same⟩

end Runs

namespace Scenario

/-- A disk that is full when a blob is copied. -/
def cutting : Oracle
  | .copyBlob _ _ => (files, .cut [])
  | q => oracle q

/-- The first stage is to be completed, and the copy of its file is cut short. -/
def damaged : List (Command × Oracle × Nat) :=
  created .v2 ++ [(.complete { completeArgs with execution := [] }, cutting, 100)]

/-- The snapshot of the file of that stage. -/
def later (s : Site) : Option (Except PyErr Ref × Disk) :=
  follow host (fun _ => .proceed) 20 { s.disk with files := files }
    (snapshot host "problem.md" false true)

/-- Along a command that is carried out, every blob is copied whole from what was hashed. -/
def heeds (oracle : Oracle) : Nat → Site → Task Output → Bool
  | fuel + 1, s, .ask q next =>
      match q.perform host { s.disk with files := (oracle q).1 } (oracle q).2 with
      | some (r, disk) =>
          (match q with
            | .copyBlob path sha =>
                (oracle q).2 = .proceed &&
                  (Disk.content host { s.disk with files := (oracle q).1 } path).all
                    fun content => host.sha256 content == sha
            | _ => true) &&
          heeds oracle fuel ⟨disk, s.log ++ [.answered q r]⟩ (next r)
      | none => true
  | _, _, _ => true

theorem heeds_reaches {oracle : Oracle} (c : Command) (entry : Site) {fuel : Nat} {s : Site}
    {d : Task Output} (heeded : heeds oracle fuel s d = true) :
    Relation.ReflTransGen (Session.SteadyStep host) ⟨s, some (c, entry, d)⟩
      ⟨(carry host oracle fuel s d).1, some (c, entry, (carry host oracle fuel s d).2)⟩ := by
  induction fuel generalizing s d with
  | zero => exact .refl
  | succ fuel ih =>
      cases d with
      | ret a => exact .refl
      | raise e => exact .refl
      | ask q next =>
          rw [carry]
          rw [heeds] at heeded
          split
          next r disk done =>
            rw [done, Bool.and_eq_true] at heeded
            refine .head (.answer ⟨_, _, done, rfl, ?_⟩) (ih heeded.2)
            rintro path sha rfl
            have whole := heeded.1
            rw [Bool.and_eq_true, decide_eq_true_eq] at whole
            refine ⟨fun written cut => (by cases whole.1.symm.trans cut), fun content there => ?_⟩
            have same := whole.2
            rw [there] at same
            exact beq_iff_eq.mp same
          next => exact .refl

end Scenario

set_option maxRecDepth 100000 in
/-- A copy that is cut short leaves a wrong blob, and the next snapshot of the file fails
though nothing is refused. -/
theorem cut_blob_stays : ∃ s t, Session.Reachable Scenario.host ⟨s, none⟩ ∧
    (∃ e ∈ s.disk.blobs, Scenario.host.sha256 e.2 ≠ e.1) ∧
    Ends (smooth Scenario.host fun _ => .inside) (snapshot Scenario.host "problem.md" false true)
      { s.disk with files := Scenario.files }
      (.error (.value ("Corrupt snapshot: " ++ Scenario.host.sha256 [2]))) t := by
  have wrong : ((Scenario.site Scenario.damaged).disk.blobs.any fun e =>
      Scenario.host.sha256 e.2 ≠ e.1) = true := by decide +kernel
  obtain ⟨e, mem, other⟩ := List.any_eq_true.mp wrong
  have failed : ((Scenario.later (Scenario.site Scenario.damaged)).map (·.1)) =
      some (.error (.value ("Corrupt snapshot: " ++ Scenario.host.sha256 [2]))) := by decide +kernel
  obtain ⟨⟨_, t⟩, done, rfl⟩ := Option.map_eq_some_iff.mp failed
  exact ⟨_, t, Scenario.reachable _, ⟨e, mem, of_decide_eq_true other⟩,
    follow_smooth _ (fun _ => rfl) lets_proceed done⟩

set_option maxRecDepth 100000 in
/-- In a project that was created without an accident the file has a snapshot. -/
theorem blobs_right_created : ∃ ref t,
    Ends (smooth Scenario.host fun _ => .inside) (snapshot Scenario.host "problem.md" false true)
      { (Scenario.site (Scenario.created .v2)).disk with files := Scenario.files } (.ok ref) t := by
  let c : Command := .init (Scenario.initArgs .v2)
  let s : Site := Site.enter c ⟨Disk.empty, []⟩
  have begun : Session.SteadyStep Scenario.host Session.new
      ⟨s, some (c, s, result Scenario.host c)⟩ := .start _ _
  have heeded : Scenario.heeds Scenario.oracle 100 s (result Scenario.host c) = true := by
    decide +kernel
  have run := (Relation.ReflTransGen.single begun).trans (Scenario.heeds_reaches c s heeded)
  have same : Scenario.site (Scenario.created .v2) =
      (carry Scenario.host Scenario.oracle 100 s (result Scenario.host c)).1 := by
    simp only [Scenario.site, Scenario.created, scenario, s, c]
  have located : Located
      { (Scenario.site (Scenario.created .v2)).disk with files := Scenario.files }
      "problem.md" false :=
    ⟨⟨by decide +kernel, by decide +kernel, by decide +kernel, .inr (by decide +kernel)⟩,
      by decide +kernel⟩
  have there : Disk.content Scenario.host
      { (Scenario.site (Scenario.created .v2)).disk with files := Scenario.files }
      (parts "problem.md") = some [2] := by decide +kernel
  rw [← same] at run
  -- What the site is has been used; as it stands the unifier would compute it again.
  generalize Scenario.site (Scenario.created .v2) = site at run located there ⊢
  obtain ⟨-, snapshots, -⟩ := blobs_right run .refl
  exact (snapshots _ _ _ _ _ _ located there fun _ => List.cons_ne_nil _ _).1

end Mathmodel.Workflow
