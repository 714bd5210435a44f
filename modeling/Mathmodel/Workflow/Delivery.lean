import Mathmodel.Workflow.Blobs
import Mathmodel.Workflow.Verification

/-!
# What an export delivers

In a directory where nothing fails the export of a finished and intact project can be
computed: the files of the delivery are the blobs of the references, one for each path,
and the manifest lists them. Two references to one path name the same digest, because
both of them are the digest of the file that is there now.

The delivery is filled in a temporary directory beside the destination and renamed. If
the drawn name is that of the destination itself, the renaming changes nothing and the
clean-up that follows removes what was delivered.
-/

namespace Mathmodel.Workflow

open Dialogue

section Dictionary

variable {κ ν : Type} [DecidableEq κ]

theorem map_fst_assign (table : List (κ × ν)) (key : κ) (value : ν) :
    (assign table key value).map (·.1) =
      if key ∈ table.map (·.1) then table.map (·.1) else table.map (·.1) ++ [key] := by
  unfold assign
  by_cases known : (table.any fun e => e.1 = key) = true
  · have mem : key ∈ table.map (·.1) := by simpa using known
    rw [if_pos known, if_pos mem, List.map_map]
    refine List.map_congr_left fun e _ => ?_
    change (if e.1 = key then (key, value) else e).1 = e.1
    split
    next same => exact same.symm
    next => rfl
  · have mem : key ∉ table.map (·.1) := by simpa using known
    rw [if_neg known, if_neg mem, List.map_append]
    rfl

theorem nodup_assign {table : List (κ × ν)} (nodup : (table.map (·.1)).Nodup)
    (key : κ) (value : ν) : ((assign table key value).map (·.1)).Nodup := by
  rw [map_fst_assign]
  split
  · exact nodup
  next absent =>
    refine List.nodup_append.mpr ⟨nodup, by simp, ?_⟩
    rintro k mem _ last rfl
    exact absent (List.mem_singleton.mp last ▸ mem)

/-- Keys, values and order of a dictionary that is filled from a list. -/
theorem dict_fold (entries table : List (κ × ν)) (nodup : (table.map (·.1)).Nodup) :
    let dict := entries.foldl (fun table e => assign table e.1 e.2) table
    (dict.map (·.1)).Nodup ∧ (∀ e ∈ dict, e ∈ table ∨ e ∈ entries) ∧
      ∀ k, (k ∈ table.map (·.1) ∨ k ∈ entries.map (·.1)) → k ∈ dict.map (·.1) := by
  induction entries generalizing table with
  | nil => exact ⟨nodup, fun e mem => .inl mem, fun k known => known.resolve_right nofun⟩
  | cons e rest ih =>
      obtain ⟨distinct, from_, keys⟩ := ih _ (nodup_assign nodup e.1 e.2)
      refine ⟨distinct, fun e' mem => ?_, fun k known => keys k ?_⟩
      · obtain mem | mem := from_ e' mem
        · obtain mem | rfl := mem_assign mem
          · exact .inl mem
          · exact .inr List.mem_cons_self
        · exact .inr (List.mem_cons_of_mem _ mem)
      · rw [map_fst_assign]
        rw [List.map_cons, List.mem_cons] at known
        obtain known | rfl | known := known
        · left
          split
          · exact known
          · exact List.mem_append_left _ known
        · left
          split
          next mem => exact mem
          next => exact List.mem_append_right _ (List.mem_singleton.mpr rfl)
        · exact .inr known

theorem nodup_dictOf (entries : List (κ × ν)) : ((dictOf entries).map (·.1)).Nodup :=
  (dict_fold entries [] List.nodup_nil).1

theorem mem_of_mem_dictOf {entries : List (κ × ν)} {e : κ × ν} (mem : e ∈ dictOf entries) :
    e ∈ entries :=
  ((dict_fold entries [] List.nodup_nil).2.1 e mem).resolve_left nofun

theorem mem_keys_dictOf {entries : List (κ × ν)} {k : κ} (mem : k ∈ entries.map (·.1)) :
    k ∈ (dictOf entries).map (·.1) :=
  (dict_fold entries [] List.nodup_nil).2.2 k (.inr mem)

end Dictionary

section Requests

variable {host : Host} {links : Path → Alias} {d d' t : Disk} {α β : Type} {result : Except PyErr α}

theorem smooth_look_iff {x : Task β} {f : β → Task α} {b : β}
    (uses : x.Uses fun q => q.isLook = true) (known : x.answered (look host links d) = .ok b) :
    Ends (smooth host links) (x >>= f) d result d' ↔
      Ends (smooth host links) (f b) d result d' := by
  refine ⟨smooth_bind uses known, fun ends => ?_⟩
  have first : Ends (smooth host links) x d (x.answered (look host links d)) d := smooth_runs uses
  rw [known] at first
  exact first.bind ends

/-- A check that holds can be left out. -/
theorem smooth_check_iff {condition : Bool} {message : String} {f : Unit → Task α}
    (holds : condition = true) :
    Ends (smooth host links) (check condition message >>= f) d result d' ↔
      Ends (smooth host links) (f ()) d result d' := by
  refine smooth_look_iff (uses_ofExcept _) ?_
  simp [holds]

/-- The requests that are carried out in one way only. -/
def Request.isPlain : Request → Bool
  | .lock | .copyOut _ _ _ | .writeManifest _ _ | .renameDirectory _ _ | .removeTree _
  | .print _ => true
  | _ => false

/-- A request that proceeds can be replaced by its answer. -/
theorem smooth_ask_iff {q : Request} (plain : q.isPlain = true) {a : q.Answer}
    {f : q.Answer → Task α} (done : q.perform host d .proceed = some (.ok a, t)) :
    Ends (smooth host links) (ask q >>= f) d result d' ↔
      Ends (smooth host links) (f a) t result d' := by
  have only : ∀ r u, smooth host links d q r u → r = .ok a ∧ u = t := by
    rintro r u ⟨choice, answer, lets, -⟩
    have proceeds : choice = .proceed := by
      cases choice with
      | proceed => rfl
      | refuse message => exact absurd rfl (lets.allowed message)
      | cut written => exact absurd rfl (lets.whole written)
      | flag reading =>
          cases q with
          | lock => exact lets.free rfl
          | copyOut | writeManifest | renameDirectory | removeTree | print => cases answer
          | _ => cases plain
      | text reading =>
          cases q with
          | print output => exact lets.printed output rfl
          | lock | copyOut | writeManifest | renameDirectory | removeTree => cases answer
          | _ => cases plain
      | _ =>
          cases q with
          | lock | copyOut | writeManifest | renameDirectory | removeTree | print => cases answer
          | _ => cases plain
    rw [proceeds, done] at answer
    cases answer
    exact ⟨rfl, rfl⟩
  constructor
  · intro ends
    obtain ⟨b, u, first, rest⟩ | ⟨e, -, first⟩ := ends_bind ends
    · obtain ⟨same, rfl⟩ := only _ _ (ends_request first)
      cases same
      exact rest
    · obtain ⟨failed, -⟩ := only _ _ (ends_request first)
      cases failed
  · exact fun rest => (Ends.request (smooth_proceed done)).bind rest

/-- The result is printed, and that is all. -/
theorem smooth_shown_iff {x : Task Output} {result : Except PyErr Output} :
    Ends (smooth host links) (x >>= shown) d result d' ↔
      Ends (smooth host links) x d result d' := by
  have prints : ∀ output result t, Ends (smooth host links) (shown output) t result d' ↔
      result = .ok output ∧ d' = t := by
    intro output result t
    refine Iff.trans (smooth_ask_iff (q := .print output) rfl rfl) ⟨fun ends => ?_, ?_⟩
    · cases ends with
      | ret => exact ⟨rfl, rfl⟩
    · rintro ⟨rfl, rfl⟩
      exact .ret _ _
  constructor
  · intro ends
    obtain ⟨output, t, done, shown_⟩ | ⟨e, rfl, failed⟩ := ends_bind ends
    · obtain ⟨rfl, rfl⟩ := (prints _ _ _).mp shown_
      exact done
    · exact failed
  · intro ends
    cases result with
    | error e => exact ends.bind_error
    | ok output => exact ends.bind ((prints _ _ _).mpr ⟨rfl, rfl⟩)

theorem smooth_main_iff {command : Command} {result : Except PyErr Output} :
    Ends (smooth host links) (main host command) d result d' ↔
      Ends (smooth host links) (Workflow.result host command) d result d' :=
  smooth_shown_iff

theorem smooth_now_iff {f : String → Task α} :
    Ends (smooth host links) (ask .now >>= f) d result d' ↔
      ∃ time, Ends (smooth host links) (f time) d result d' := by
  constructor
  · intro ends
    obtain ⟨time, u, first, rest⟩ | ⟨e, -, first⟩ := ends_bind ends
    · obtain ⟨choice, answer, lets, -⟩ := ends_request first
      cases choice with
      | text reading =>
          cases answer
          exact ⟨_, rest⟩
      | refuse message => exact absurd rfl (lets.allowed message)
      | _ => cases answer
    · obtain ⟨choice, answer, lets, -⟩ := ends_request first
      cases choice with
      | refuse message => exact absurd rfl (lets.allowed message)
      | _ => cases answer
  · rintro ⟨time, rest⟩
    refine (Ends.request ⟨.text time, rfl, lets_other rfl rfl, ?_⟩).bind rest
    rintro _ _ ⟨⟩

/-- The directory that is made has one of the drawn names, and is new. -/
theorem smooth_makeTemporary_iff {parent : Path} {f : Path → Task α} :
    Ends (smooth host links) (ask (.makeTemporary parent) >>= f) d result d' ↔
      ∃ drawn, isDrawn drawn = true ∧
        (∀ e ∈ d.deliveries, e.1 ≠ parent ++ [deliveryName drawn]) ∧
        Ends (smooth host links) (f (parent ++ [deliveryName drawn]))
          { d with deliveries := d.deliveries ++ [(parent ++ [deliveryName drawn], ⟨[], none⟩)] }
          result d' := by
  constructor
  · intro ends
    obtain ⟨directory, u, first, rest⟩ | ⟨e, -, first⟩ := ends_bind ends
    · obtain ⟨choice, answer, lets, -⟩ := ends_request first
      cases choice with
      | text reading =>
          simp only [Request.perform] at answer
          split at answer
          next fresh =>
            cases answer
            exact ⟨reading, fresh.1, by simpa using fresh.2, rest⟩
          next => cases answer
      | refuse message => exact absurd rfl (lets.allowed message)
      | _ => cases answer
    · obtain ⟨choice, answer, lets, -⟩ := ends_request first
      cases choice with
      | text reading =>
          simp only [Request.perform] at answer
          split at answer
          all_goals cases answer
      | refuse message => exact absurd rfl (lets.allowed message)
      | _ => cases answer
  · rintro ⟨drawn, named, fresh, rest⟩
    refine (Ends.request ⟨.text drawn, ?_, lets_other rfl rfl, ?_⟩).bind rest
    · simp only [Request.perform]
      rw [if_pos ⟨named, by simpa using fresh⟩]
    · rintro _ _ ⟨⟩

end Requests

/-- The directory with one more delivery. -/
def Disk.writing (d : Disk) (directory : Path) (delivery : Delivery) : Disk :=
  { d with deliveries := d.deliveries ++ [(directory, delivery)] }

/-- What the blob of a name holds. -/
def Disk.blob (d : Disk) (sha : String) : Content := (d.blobs.lookup sha).getD []

/-- The files of a delivery, in the order in which they are copied. -/
def Disk.copies (d : Disk) (refs : List (String × Ref)) (files : List (Path × Content)) :
    List (Path × Content) :=
  refs.foldl (fun files e => assign files (parts e.1) (d.blob e.2.sha256)) files

section Writing

variable {host : Host} {links : Path → Alias} {d t : Disk} {directory destination : Path}

/-- The name is not that of a delivery. -/
def Disk.Lacks (d : Disk) (directory : Path) : Prop := ∀ e ∈ d.deliveries, e.1 ≠ directory

theorem Disk.Lacks.lookup (lacks : d.Lacks directory) : d.deliveries.lookup directory = none := by
  rw [List.lookup_eq_none_iff]
  intro e mem
  rw [bne_iff_ne]
  exact (lacks e mem).symm

theorem Disk.Lacks.writing (lacks : d.Lacks directory) (delivery : Delivery) :
    (d.writing directory delivery).deliveries.lookup directory = some delivery := by
  change (d.deliveries ++ [(directory, delivery)]).lookup directory = some delivery
  rw [List.lookup_append, lacks.lookup, List.lookup_cons, beq_self_eq_true]
  rfl

theorem Disk.Lacks.assign (lacks : d.Lacks directory) (delivery delivery' : Delivery) :
    Workflow.assign (d.writing directory delivery).deliveries directory delivery' =
      (d.writing directory delivery').deliveries := by
  change Workflow.assign (d.deliveries ++ [(directory, delivery)]) directory delivery' =
    d.deliveries ++ [(directory, delivery')]
  have same : d.deliveries.map (fun e => if e.1 = directory then (directory, delivery') else e) =
      d.deliveries := by
    conv_rhs => rw [← List.map_id d.deliveries]
    refine List.map_congr_left fun e mem => ?_
    rw [if_neg (lacks e mem)]
    rfl
  rw [Workflow.assign, if_pos (by simp), List.map_append, same]
  simp

/-- Removing a directory that was only begun leaves the deliveries as they were. -/
theorem Disk.Lacks.filter (lacks : d.Lacks directory) (delivery : Delivery) :
    (d.writing directory delivery).deliveries.filter (·.1 ≠ directory) = d.deliveries := by
  change (d.deliveries ++ [(directory, delivery)]).filter (·.1 ≠ directory) = d.deliveries
  have all : d.deliveries.filter (·.1 ≠ directory) = d.deliveries :=
    List.filter_eq_self.mpr fun e mem => decide_eq_true (lacks e mem)
  rw [List.filter_append, all]
  simp

/-- The files are copied one after the other. -/
theorem smooth_copies_iff (lacks : d.Lacks directory) {refs : List (String × Ref)}
    (stored : ∀ e ∈ refs, d.Stores host e.2.sha256) {files : List (Path × Content)}
    {result : Except PyErr PUnit} :
    Ends (smooth host links)
        (refs.forM fun ref => ask (.copyOut directory (parts ref.1) ref.2.sha256))
        (d.writing directory ⟨files, none⟩) result t ↔
      result = .ok ⟨⟩ ∧ t = d.writing directory ⟨d.copies refs files, none⟩ := by
  induction refs generalizing files with
  | nil =>
      constructor
      · intro ends
        cases ends with
        | ret => exact ⟨rfl, rfl⟩
      · rintro ⟨rfl, rfl⟩
        exact .ret _ _
  | cons e rest ih =>
      obtain ⟨content, there, -⟩ := stored e List.mem_cons_self
      have done : (Request.copyOut directory (parts e.1) e.2.sha256).perform host
          (d.writing directory ⟨files, none⟩) .proceed =
          some (.ok (), d.writing directory
            ⟨assign files (parts e.1) (d.blob e.2.sha256), none⟩) := by
        have blob : d.blob e.2.sha256 = content := by
          rw [Disk.blob, there]
          rfl
        have found : (d.writing directory ⟨files, none⟩).blobs.lookup e.2.sha256 = some content :=
          there
        simp only [Request.perform, found, lacks.writing, lacks.assign, blob]
        rfl
      exact (smooth_ask_iff rfl done).trans (ih fun e mem => stored e (List.mem_cons_of_mem _ mem))

/-- The manifest of a delivery. -/
def State.manifest (state : State) (refs : List (String × Ref)) (time : String) : Manifest :=
  { title := state.title, revision := state.revision, createdAt := time, files := refs.map (·.2) }

theorem smooth_fill_iff (lacks : d.Lacks directory) {refs : List (String × Ref)}
    (stored : ∀ e ∈ refs, d.Stores host e.2.sha256) {state : State} {result : Except PyErr Unit} :
    Ends (smooth host links) (fill state refs directory destination)
        (d.writing directory ⟨[], none⟩) result t ↔
      result = .ok () ∧ ∃ time,
        t = d.writing destination ⟨d.copies refs [], some (state.manifest refs time)⟩ := by
  have rest : ∀ time, Ends (smooth host links)
      (ask (.writeManifest directory (state.manifest refs time)) >>= fun _ =>
        ask (.renameDirectory directory destination))
      (d.writing directory ⟨d.copies refs [], none⟩) result t ↔
      result = .ok () ∧
        t = d.writing destination ⟨d.copies refs [], some (state.manifest refs time)⟩ := by
    intro time
    have write : (Request.writeManifest directory (state.manifest refs time)).perform host
        (d.writing directory ⟨d.copies refs [], none⟩) .proceed =
        some (.ok (), d.writing directory
          ⟨d.copies refs [], some (state.manifest refs time)⟩) := by
      simp only [Request.perform, lacks.writing, lacks.assign]
      rfl
    have rename : (Request.renameDirectory directory destination).perform host
        (d.writing directory ⟨d.copies refs [], some (state.manifest refs time)⟩) .proceed =
        some (.ok (), d.writing destination
          ⟨d.copies refs [], some (state.manifest refs time)⟩) := by
      simp only [Request.perform, lacks.writing, lacks.filter]
      rfl
    rw [smooth_ask_iff rfl write, ← bind_pure (ask (.renameDirectory directory destination)),
      smooth_ask_iff rfl rename]
    constructor
    · intro ends
      cases ends with
      | ret => exact ⟨rfl, rfl⟩
    · rintro ⟨rfl, rfl⟩
      exact .ret _ _
  constructor
  · intro ends
    obtain ⟨_, u, copying, ends⟩ | ⟨e, -, copying⟩ := ends_bind ends
    · obtain ⟨-, rfl⟩ := (smooth_copies_iff lacks stored).mp copying
      obtain ⟨time, ends⟩ := smooth_now_iff.mp ends
      obtain ⟨done, made⟩ := (rest time).mp ends
      exact ⟨done, time, made⟩
    · obtain ⟨failed, -⟩ := (smooth_copies_iff lacks stored).mp copying
      cases failed
  · rintro ⟨done, time, made⟩
    have copying : Ends (smooth host links)
        (refs.forM fun ref => ask (.copyOut directory (parts ref.1) ref.2.sha256))
        (d.writing directory ⟨[], none⟩) (.ok ⟨⟩) (d.writing directory ⟨d.copies refs [], none⟩) :=
      (smooth_copies_iff lacks stored).mpr ⟨rfl, rfl⟩
    exact copying.bind (smooth_now_iff.mpr ⟨time, (rest time).mpr ⟨done, made⟩⟩)

end Writing

section Export

variable {host : Host} {links : Path → Alias} {d d' t : Disk} {directory destination : Path}
variable {state : State}

theorem smooth_discard_iff {f : Unit → Task Output} {result : Except PyErr Output} :
    Ends (smooth host links) (discard directory >>= f) d result t ↔
      Ends (smooth host links) (f ())
        { d with deliveries := d.deliveries.filter (·.1 ≠ directory) } result t := by
  have known : (ask (.destinationExists directory)).answered (look host links d) =
      .ok (d.deliveries.any (·.1 == directory)) := answered_request (A := Request.Answer) _
  unfold discard
  rw [bind_assoc, smooth_look_iff (Straight.ask (q := .destinationExists directory) rfl).uses known]
  cases there : d.deliveries.any (·.1 == directory) with
  | true => exact smooth_ask_iff rfl rfl
  | false =>
      have all : d.deliveries.filter (·.1 ≠ directory) = d.deliveries := by
        refine List.filter_eq_self.mpr fun e mem => ?_
        simpa using (List.any_eq_false.mp there) e mem
      rw [all]
      rfl

theorem uses_problems (state : State) : (problems host state).Uses fun q => q.isLook = true := by
  refine uses_bind (uses_mapM (fun ref => ?_) _) fun _ => uses_pure _
  obtain ⟨x, looks, same, -⟩ := problem_eq host ref
  rw [same]
  refine uses_handle looks.uses fun e => ?_
  split
  · exact uses_pure _
  · trivial

theorem uses_pending : pending.Uses fun q => q.isLook = true :=
  uses_bind (uses_request rfl) fun _ => uses_pure _

theorem uses_isIntact (state : State) : (isIntact host state).Uses fun q => q.isLook = true := by
  refine uses_bind (uses_problems state) fun issues => ?_
  split
  · exact uses_bind uses_pending fun _ => uses_pure _
  · exact uses_pure _

/-- A project whose references are intact and whose executions have ended is found intact. -/
theorem isIntact_answered (intact : ∀ ref ∈ state.references, d.Intact host ref)
    (resolved : d.Resolved) : (isIntact host state).answered (look host links d) = .ok true := by
  unfold isIntact pending
  simp only [answered_bind, problems_answered intact, bind_eq_ok, Except.ok.injEq, exists_eq_left',
    List.isEmpty_nil, if_true, answered_loadReceipts, answered_pure]
  have none : (d.receipts.filter fun r => r.status = .running) = [] := by
    refine List.filter_eq_nil_iff.mpr fun r mem => ?_
    simpa using resolved r mem
  rw [none]
  rfl

/-- A project that is found intact has intact references. -/
theorem isIntact_ends {intact : Bool}
    (ends : Ends (calm host links) (isIntact host state) d (.ok intact) d') :
    d' = d ∧ (intact = true → ∀ ref ∈ state.references, d.Intact host ref) := by
  refine ⟨ends_uses ((uses_isIntact state).mono fun _ => .inl) ends, ?_⟩
  rintro rfl
  obtain ⟨issues, t, first, rest⟩ := ends_bind_ok ends
  obtain ⟨rfl, all⟩ := problems_ends first
  split at rest
  next none => exact all none
  next =>
    obtain ⟨⟨⟩, -⟩ := ends_pure rest

/-- The references that an export goes through, one for each path. -/
def State.exported (state : State) : List (String × Ref) :=
  dictOf (state.references.map fun r => (r.path, r))

/-- The project is finished and unchanged, and the destination is new and elsewhere. The
directory of the script is not behind a symbolic link. -/
structure Exportable (host : Host) (d : Disk) (state : State) (destination : Path) : Prop where
  current : state.current = none
  intact : ∀ ref ∈ state.references, d.Intact host ref
  resolved : d.Resolved
  outside : host.root.isPrefixOf destination = false ∧ destination.isPrefixOf host.root = false
  fresh : d.Lacks destination
  own : d.isLinked (parts ".workflow/state.json") = false ∧
    d.isLinked (parts ".workflow/lock") = false

theorem smooth_locked_iff {f : State → Task Output} {result : Except PyErr Output}
    (saved : d.state = some state) (own : d.isLinked (parts ".workflow/state.json") = false ∧
      d.isLinked (parts ".workflow/lock") = false) :
    Ends (smooth host links) (locked >>= f) d result d' ↔
      Ends (smooth host links) (f state) d result d' := by
  have located : ∀ name, Admitted name true → d.isLinked (parts name) = false →
      (localPath name true).answered (look host links d) = .ok (parts name) :=
    fun name admitted plain => localPath_ok.mpr ⟨rfl, admitted, plain⟩
  have loaded : (ask .loadState).answered (look host links d) = .ok state := by
    refine (answered_request (A := Request.Answer) Request.loadState).trans ?_
    exact found_eq_ok.mpr saved
  have there : (ask .isInitialized).answered (look host links d) = .ok true := by
    refine (answered_request (A := Request.Answer) Request.isInitialized).trans ?_
    rw [look, saved]
    rfl
  unfold locked
  simp only [bind_assoc]
  rw [smooth_look_iff (views_localPath _ _).looks.uses
      (located _ ⟨by decide, by decide, by decide, .inl rfl⟩ own.1),
    smooth_look_iff (Straight.ask (q := .isInitialized) rfl).uses there, smooth_check_iff rfl,
    smooth_look_iff (views_localPath _ _).looks.uses
      (located _ ⟨by decide, by decide, by decide, .inl rfl⟩ own.2),
    smooth_ask_iff (q := .lock) rfl rfl,
    smooth_look_iff (Straight.ask (q := .loadState) rfl).uses loaded]

/-- The delivery as it is written. -/
def Disk.delivery (d : Disk) (state : State) (time : String) : Delivery :=
  ⟨d.copies state.exported [], some (state.manifest state.exported time)⟩

/-- What the renaming and the clean-up leave: the delivery, unless the temporary directory was
made under the name of the destination. -/
def Disk.delivered (d : Disk) (state : State) (directory destination : Path) (time : String) :
    Disk :=
  let deliveries := (d.writing destination (d.delivery state time)).deliveries
  { d with deliveries := deliveries.filter (·.1 ≠ directory) }

theorem smooth_deliver_iff {out : Output} {result : Except PyErr Output} (lacks : d.Lacks directory)
    (stored : ∀ e ∈ state.exported, d.Stores host e.2.sha256) :
    Ends (smooth host links)
        (finally_ (fill state state.exported directory destination) (discard directory) >>=
          fun _ => pure out)
        (d.writing directory ⟨[], none⟩) result d' ↔
      result = .ok out ∧ ∃ time, d' = d.delivered state directory destination time := by
  unfold finally_
  rw [bind_assoc]
  constructor
  · intro ends
    obtain ⟨_, u, filling, ends⟩ | ⟨e, -, filling⟩ := ends_bind ends
    · obtain ⟨_, -, filling⟩ | ⟨e, v, filling, -⟩ := ends_handle filling
      · obtain ⟨-, time, rfl⟩ := (smooth_fill_iff lacks stored).mp filling
        rw [bind_assoc, smooth_discard_iff] at ends
        cases ends with
        | ret => exact ⟨rfl, time, rfl⟩
      · obtain ⟨⟨⟩, -⟩ := (smooth_fill_iff lacks stored).mp filling
    · obtain ⟨_, ⟨⟩, -⟩ | ⟨e, v, filling, -⟩ := ends_handle filling
      obtain ⟨⟨⟩, -⟩ := (smooth_fill_iff lacks stored).mp filling
  · rintro ⟨rfl, time, rfl⟩
    have filling : Ends (smooth host links) (fill state state.exported directory destination)
        (d.writing directory ⟨[], none⟩) (.ok ())
        (d.writing destination (d.delivery state time)) :=
      (smooth_fill_iff lacks stored).mpr ⟨rfl, time, rfl⟩
    refine filling.handle.bind ?_
    rw [bind_assoc, smooth_discard_iff]
    exact .ret _ _

/-- An export that nothing hinders, computed. -/
theorem smooth_export_iff {result : Except PyErr Output} (saved : d.state = some state)
    (ready : Exportable host d state destination) :
    Ends (smooth host links) (main host (.export destination)) d result d' ↔
      result = .ok (.exported destination state.exported.length) ∧
      ∃ drawn time, isDrawn drawn = true ∧ d.Lacks (destination.dropLast ++ [deliveryName drawn]) ∧
        d' = d.delivered state (destination.dropLast ++ [deliveryName drawn]) destination time := by
  have stored : ∀ e ∈ state.exported, d.Stores host e.2.sha256 := by
    intro e mem
    obtain ⟨ref, listed, rfl⟩ := List.mem_map.mp (mem_of_mem_dictOf mem)
    exact (ready.intact ref listed).stored
  have absent : (ask (.destinationExists destination)).answered (look host links d) =
      .ok false := by
    refine (answered_request (A := Request.Answer) (Request.destinationExists destination)).trans ?_
    have none : d.deliveries.any (·.1 == destination) = false := by
      refine List.any_eq_false.mpr fun e mem => ?_
      simpa using ready.fresh e mem
    rw [look, none]
  rw [smooth_main_iff]
  change Ends (smooth host links) (locked >>= export_ host destination) d result d' ↔ _
  rw [smooth_locked_iff saved ready.own]
  unfold export_
  rw [smooth_check_iff (by rw [ready.current]; rfl), smooth_look_iff (uses_isIntact state)
    (isIntact_answered ready.intact ready.resolved), smooth_check_iff rfl,
    smooth_check_iff (by rw [ready.outside.1, ready.outside.2]; rfl),
    smooth_look_iff (Straight.ask (q := .destinationExists destination) rfl).uses absent,
    smooth_check_iff Bool.not_false]
  change Ends (smooth host links) (ask (.makeTemporary destination.dropLast) >>= fun directory =>
    finally_ (fill state state.exported directory destination) (discard directory) >>= fun _ =>
      pure (.exported destination state.exported.length)) d result d' ↔ _
  rw [smooth_makeTemporary_iff]
  constructor
  · rintro ⟨drawn, named, lacks, ends⟩
    obtain ⟨done, time, made⟩ := (smooth_deliver_iff lacks stored).mp ends
    exact ⟨done, drawn, time, named, lacks, made⟩
  · rintro ⟨done, drawn, time, named, lacks, made⟩
    exact ⟨drawn, named, lacks, (smooth_deliver_iff lacks stored).mpr ⟨done, time, made⟩⟩

theorem uses_locked : locked.Uses fun q => q.isLook = true ∨ q = .lock := by
  have looks : ∀ name internal,
      (localPath name internal).Uses fun q => q.isLook = true ∨ q = .lock :=
    fun name internal => (views_localPath name internal).looks.uses.mono fun _ => .inl
  refine uses_bind (looks _ _) fun _ => uses_bind (uses_request ?_) fun _ => ?_
  · exact .inl rfl
  refine uses_bind (uses_ofExcept _) fun _ => uses_bind (looks _ _) fun _ => ?_
  refine uses_bind (uses_request ?_) fun _ => uses_request ?_
  · exact .inr rfl
  · exact .inl rfl

/-- Where a stage is missing or a reference is not intact, the export comes to nothing. -/
theorem result_refused {result : Except PyErr Output} (saved : d.state = some state)
    (unfit : state.current ≠ none ∨ ∃ ref ∈ state.references, ¬ d.Intact host ref)
    (ends : Ends (calm host links) (Workflow.result host (.export destination)) d result d') :
    (∃ e, result = .error e) ∧ d' = d := by
  obtain ⟨state', t, first, r₁⟩ | ⟨e, failed, first⟩ := ends_bind ends
  · obtain ⟨rfl, saved'⟩ := locked_ends first
    obtain rfl := Option.some.inj (saved.symm.trans saved')
    obtain ⟨_, t, checked, r₂⟩ | ⟨e, failed, checked⟩ := ends_bind r₁
    · obtain ⟨rfl, finished⟩ := (Straight.check _ _).ends_ok checked
      obtain ⟨intact, t, looking, r₃⟩ | ⟨e, failed, looking⟩ := ends_bind r₂
      · obtain ⟨rfl, all⟩ := isIntact_ends looking
        obtain ⟨_, t, tested, -⟩ | ⟨e, failed, tested⟩ := ends_bind r₃
        · obtain ⟨rfl, holds⟩ := (Straight.check _ _).ends_ok tested
          simp only [answered_check, require_eq_ok] at finished holds
          obtain missing | ⟨ref, mem, changed⟩ := unfit
          · exact absurd (Option.isNone_iff_eq_none.mp finished) missing
          · exact absurd (all holds ref mem) changed
        · exact ⟨⟨e, failed⟩, ends_uses (uses_ofExcept _) tested⟩
      · exact ⟨⟨e, failed⟩, ends_uses ((uses_isIntact state).mono fun _ => .inl) looking⟩
    · exact ⟨⟨e, failed⟩, ends_uses (uses_ofExcept _) checked⟩
  · exact ⟨⟨e, failed⟩, ends_uses uses_locked first⟩

/-- Where a stage is missing or a reference is not intact, nothing is delivered. -/
theorem export_refused {result : Except PyErr Output} (saved : d.state = some state)
    (unfit : state.current ≠ none ∨ ∃ ref ∈ state.references, ¬ d.Intact host ref)
    (ends : Ends (calm host links) (main host (.export destination)) d result d') :
    (∃ e, result = .error e) ∧ d' = d := by
  obtain ⟨output, t, done, -⟩ | ⟨e, failed, first⟩ := ends_bind ends
  · obtain ⟨⟨_, ⟨⟩⟩, -⟩ := result_refused saved unfit done
  · exact ⟨⟨e, failed⟩, (result_refused saved unfit first).2⟩

end Export

section Faithful

variable {host : Host} {links : Path → Alias} {d d' : Disk} {destination : Path} {state : State}

/-- The delivery holds, beside its manifest, one file for each path that the project refers
to, with the digest that the manifest lists for it. -/
structure Delivery.Faithful (host : Host) (state : State) (delivery : Delivery)
    (manifest : Manifest) : Prop where
  signed : delivery.manifest = some manifest
  header : manifest.title = state.title ∧ manifest.revision = state.revision
  listed : ∀ entry ∈ manifest.files, entry ∈ state.references
  complete : ∀ ref ∈ state.references,
    ∃ entry ∈ manifest.files, entry.path = ref.path ∧ entry.sha256 = ref.sha256
  once : (manifest.files.map (·.path)).Nodup
  paths : delivery.files.map (·.1) = manifest.files.map fun entry => parts entry.path
  distinct : (delivery.files.map (·.1)).Nodup
  digests : ∀ file ∈ delivery.files,
    ∃ entry ∈ manifest.files, parts entry.path = file.1 ∧ entry.sha256 = host.sha256 file.2
  free : ∀ file ∈ delivery.files, file.1.headD "" ≠ "delivery-manifest.json"

/-- The export has succeeded and has left such a delivery, and nothing else. -/
def Delivered (host : Host) (d : Disk) (state : State) (destination : Path)
    (result : Except PyErr Output) (d' : Disk) : Prop :=
  ∃ delivery manifest, result = .ok (.exported destination manifest.files.length) ∧
    d' = d.writing destination delivery ∧ delivery.Faithful host state manifest

theorem Ref.Placed.path_eq {ref : Ref} (placed : ref.Placed) :
    pathText (parts ref.path) = ref.path := by
  obtain ⟨name, path, admitted, -⟩ := placed
  rw [path, parts_pathText_parts admitted.nonempty]

theorem Ref.Placed.head {ref : Ref} (placed : ref.Placed) :
    (parts ref.path).headD "" ≠ "delivery-manifest.json" := by
  obtain ⟨name, path, admitted, other⟩ := placed
  rw [path, parts_pathText_parts admitted.nonempty]
  exact other

/-- Two intact references to one path have the digest of the file that is there. -/
theorem agree_of_intact {r r' : Ref} (intact : d.Intact host r) (intact' : d.Intact host r')
    (same : r.path = r'.path) : r.sha256 = r'.sha256 := by
  obtain ⟨content, there, right⟩ := intact.current
  obtain ⟨content', there', right'⟩ := intact'.current
  rw [same, there', Option.some.injEq] at there
  rw [← right, ← right', there]

theorem copies_eq (refs : List (String × Ref)) (files : List (Path × Content))
    (distinct : (files.map (·.1) ++ refs.map fun e => parts e.1).Nodup) :
    d.copies refs files = files ++ refs.map fun e => (parts e.1, d.blob e.2.sha256) := by
  induction refs generalizing files with
  | nil => exact (List.append_nil _).symm
  | cons e rest ih =>
      have fresh : parts e.1 ∉ files.map (·.1) := by
        intro mem
        exact List.disjoint_of_nodup_append distinct mem List.mem_cons_self
      change d.copies rest (assign files (parts e.1) (d.blob e.2.sha256)) = _
      have added : assign files (parts e.1) (d.blob e.2.sha256) =
          files ++ [(parts e.1, d.blob e.2.sha256)] := by
        rw [assign, if_neg]
        simpa using fun content mem => fresh (List.mem_map.mpr ⟨_, mem, rfl⟩)
      rw [added, ih, List.append_assoc]
      · rfl
      · rw [List.map_append, List.append_assoc]
        exact distinct

theorem mem_exported {e : String × Ref} (mem : e ∈ state.exported) :
    e.1 = e.2.path ∧ e.2 ∈ state.references := by
  obtain ⟨ref, listed, rfl⟩ := List.mem_map.mp (mem_of_mem_dictOf mem)
  exact ⟨rfl, listed⟩

theorem map_exported (state : State) : (state.exported.map (·.2)).map (·.path) =
    state.exported.map (·.1) := by
  rw [List.map_map]
  exact List.map_congr_left fun e mem => (mem_exported mem).1.symm

/-- Different paths are different names. -/
theorem nodup_parts_exported (placed : ∀ ref ∈ state.references, ref.Placed) :
    (state.exported.map fun e => parts e.1).Nodup := by
  have keys : (state.exported.map (·.1)).Nodup := nodup_dictOf _
  have split : (state.exported.map fun e => parts e.1) = (state.exported.map (·.1)).map parts := by
    rw [List.map_map]
    rfl
  rw [split]
  refine keys.map_on fun x hx y hy same => ?_
  obtain ⟨e, mem, rfl⟩ := List.mem_map.mp hx
  obtain ⟨e', mem', rfl⟩ := List.mem_map.mp hy
  obtain ⟨path, listed⟩ := mem_exported mem
  obtain ⟨path', listed'⟩ := mem_exported mem'
  rw [path, path'] at same ⊢
  rw [← (placed _ listed).path_eq, ← (placed _ listed').path_eq, same]

theorem faithful_exported (intact : ∀ ref ∈ state.references, d.Intact host ref)
    (placed : ∀ ref ∈ state.references, ref.Placed) (time : String) :
    (d.delivery state time).Faithful host state (state.manifest state.exported time) := by
  have files : d.copies state.exported [] =
      state.exported.map fun e => (parts e.1, d.blob e.2.sha256) :=
    copies_eq state.exported [] (nodup_parts_exported placed)
  have names : (d.copies state.exported []).map (·.1) = state.exported.map fun e => parts e.1 := by
    rw [files, List.map_map]
    rfl
  refine ⟨rfl, ⟨rfl, rfl⟩, ?_, ?_, ?_, ?_, ?_, ?_, ?_⟩
  · intro entry mem
    obtain ⟨e, listed, rfl⟩ := List.mem_map.mp mem
    exact (mem_exported listed).2
  · intro ref mem
    have key : ref.path ∈ state.exported.map (·.1) := by
      refine mem_keys_dictOf ?_
      rw [List.map_map]
      exact List.mem_map.mpr ⟨ref, mem, rfl⟩
    obtain ⟨e, listed, same⟩ := List.mem_map.mp key
    obtain ⟨path, known⟩ := mem_exported listed
    have path_ : e.2.path = ref.path := path.symm.trans same
    exact ⟨e.2, List.mem_map.mpr ⟨e, listed, rfl⟩, path_,
      agree_of_intact (intact _ known) (intact _ mem) path_⟩
  · change ((state.exported.map (·.2)).map (·.path)).Nodup
    rw [map_exported]
    exact nodup_dictOf _
  · change (d.copies state.exported []).map (·.1) =
      (state.exported.map (·.2)).map fun entry => parts entry.path
    rw [names, List.map_map]
    refine List.map_congr_left fun e mem => ?_
    rw [(mem_exported mem).1]
    rfl
  · change ((d.copies state.exported []).map (·.1)).Nodup
    rw [names]
    exact nodup_parts_exported placed
  · intro file mem
    change file ∈ d.copies state.exported [] at mem
    rw [files] at mem
    obtain ⟨e, listed, rfl⟩ := List.mem_map.mp mem
    obtain ⟨path, known⟩ := mem_exported listed
    obtain ⟨content, there, right⟩ := (intact _ known).stored
    refine ⟨e.2, List.mem_map.mpr ⟨e, listed, rfl⟩, by rw [path], ?_⟩
    rw [Disk.blob, there, Option.getD_some, right]
  · intro file mem
    change file ∈ d.copies state.exported [] at mem
    rw [files] at mem
    obtain ⟨e, listed, rfl⟩ := List.mem_map.mp mem
    obtain ⟨path, known⟩ := mem_exported listed
    rw [path]
    exact (placed _ known).head

/-- The destination has a name that a temporary directory can be given. -/
def IsTemporary (destination : Path) : Prop :=
  ∃ drawn, isDrawn drawn = true ∧ destination.dropLast ++ [deliveryName drawn] = destination

theorem delivered_of_ne {directory : Path} (lacks : d.Lacks directory)
    (other : destination ≠ directory) (time : String) :
    d.delivered state directory destination time =
      d.writing destination (d.delivery state time) := by
  have all : (d.writing destination (d.delivery state time)).deliveries.filter (·.1 ≠ directory) =
      (d.writing destination (d.delivery state time)).deliveries := by
    refine List.filter_eq_self.mpr fun e mem => decide_eq_true ?_
    obtain mem | mem := List.mem_append.mp mem
    · exact lacks e mem
    · obtain rfl := List.mem_singleton.mp mem
      exact other
  simp only [Disk.delivered, all]
  rfl

theorem delivered_self (fresh : d.Lacks destination) (time : String) :
    d.delivered state destination destination time = d := by
  simp only [Disk.delivered, fresh.filter]

end Faithful

/-- Nothing lies below a file. -/
def Disk.IsTree (host : Host) (d : Disk) : Prop :=
  ∀ p q content, d.content host p = some content → (d.content host q).isSome = true →
    p <+: q → p = q

/-- What an export is for. A finished and unchanged project is delivered, faithfully, and the
delivery is closed: references to one path agree, and no path lies below another. A project
that is not finished or not as registered is not delivered. -/
structure ExportCorrect (host : Host) (links : Path → Alias) (d : Disk) (state : State)
    (destination : Path) : Prop where
  delivers : Exportable host d state destination → ∀ result d',
    Ends (smooth host links) (main host (.export destination)) d result d' →
    Delivered host d state destination result d'
  possible : Exportable host d state destination →
    (∃ drawn, isDrawn drawn = true ∧ d.Lacks (destination.dropLast ++ [deliveryName drawn])) →
    ∃ result d', Ends (smooth host links) (main host (.export destination)) d result d'
  agree : (∀ ref ∈ state.references, d.Intact host ref) →
    ∀ r ∈ state.references, ∀ r' ∈ state.references, r.path = r'.path → r.sha256 = r'.sha256
  apart : (∀ ref ∈ state.references, d.Intact host ref) → d.IsTree host →
    ∀ r ∈ state.references, ∀ r' ∈ state.references,
      parts r.path <+: parts r'.path → r.path = r'.path
  refuses : (state.current ≠ none ∨ ∃ ref ∈ state.references, ¬ d.Intact host ref) →
    ∀ result d', Ends (calm host links) (main host (.export destination)) d result d' →
    (∃ e, result = .error e) ∧ d'.deliveries = d.deliveries

/-- The export of a reachable project is correct, unless the destination has a name that the
temporary directory can be given. -/
theorem export_correct_iff {host : Host} {links : Path → Alias} {m : Session} {state : State}
    {files : List (Path × Node)} {destination : Path} (reachable : Session.Reachable host m)
    (saved : m.state.disk.state = some state) :
    ExportCorrect host links { m.state.disk with files := files } state destination ↔
      (Exportable host { m.state.disk with files := files } state destination →
        ¬ IsTemporary destination) := by
  have placed : ∀ ref ∈ state.references, ref.Placed := fun ref mem =>
    (Session.backs reachable saved mem).placed
  have saved' : Disk.state { m.state.disk with files := files } = some state := saved
  constructor
  · rintro correct ready ⟨drawn, named, same⟩
    have lacks : Disk.Lacks { m.state.disk with files := files }
        (destination.dropLast ++ [deliveryName drawn]) := by
      rw [same]
      exact ready.fresh
    obtain ⟨delivery, manifest, -, made, -⟩ := correct.delivers ready _ _
      ((smooth_export_iff saved' ready).mpr ⟨rfl, drawn, "t", named, lacks, rfl⟩)
    rw [same, delivered_self ready.fresh] at made
    have there := ready.fresh.writing delivery
    rw [← made, ready.fresh.lookup] at there
    cases there
  · intro unnamed
    refine ⟨fun ready result d' ends => ?_, fun ready free => ?_, ?_, ?_, ?_⟩
    · obtain ⟨rfl, drawn, time, named, lacks, rfl⟩ := (smooth_export_iff saved' ready).mp ends
      have other : destination ≠ destination.dropLast ++ [deliveryName drawn] := fun same =>
        unnamed ready ⟨drawn, named, same.symm⟩
      refine ⟨_, _, ?_, delivered_of_ne lacks other time,
        faithful_exported ready.intact placed time⟩
      simp [State.manifest]
    · obtain ⟨drawn, named, lacks⟩ := free
      exact ⟨_, _, (smooth_export_iff saved' ready).mpr ⟨rfl, drawn, "t", named, lacks, rfl⟩⟩
    · exact fun intact r mem r' mem' => agree_of_intact (intact r mem) (intact r' mem')
    · intro intact tree r mem r' mem' below
      obtain ⟨content, there, -⟩ := (intact r mem).current
      obtain ⟨content', there', -⟩ := (intact r' mem').current
      have same := tree _ _ content there (by rw [there']; rfl) below
      rw [← (placed r mem).path_eq, ← (placed r' mem').path_eq, same]
    · intro unfit result d' ends
      obtain ⟨failed, same⟩ := export_refused saved' unfit ends
      exact ⟨failed, by rw [same]⟩

namespace Showcase

/-- A project that goes through all the stages of format 1. -/
def delivering : List (Command × Oracle × Nat) :=
  [created [] .theory false .v1, completed [] .understand [], completed [] .data [],
    completed [] .baseline [], skipped [] .improve, completed [] .verify [],
    completed [] .report [], completed [] .deliver []]

/-- The stages are recorded, there is no receipt and no delivery, and the integrity check of the
export finds nothing. -/
def finished (d : Disk) : Bool :=
  match d.state with
  | none => false
  | some state =>
      state.current.isNone && d.receipts.isEmpty && d.deliveries.isEmpty &&
        (follow (hostWith verificationDocuments) (fun _ => .proceed) 1000 d
          (isIntact (hostWith verificationDocuments) state)).any fun done =>
            match done.1 with
            | .ok intact => intact
            | .error _ => false

theorem exportable {d : Disk} (done : finished d = true) {destination : Path}
    (outside : (hostWith verificationDocuments).root.isPrefixOf destination = false ∧
      destination.isPrefixOf (hostWith verificationDocuments).root = false)
    (own : d.isLinked (parts ".workflow/state.json") = false ∧
      d.isLinked (parts ".workflow/lock") = false) :
    d.deliveries = [] ∧ ∃ state, d.state = some state ∧
      Exportable (hostWith verificationDocuments) d state destination := by
  unfold finished at done
  split at done
  next => cases done
  next state saved =>
    simp only [Bool.and_eq_true, Option.isNone_iff_eq_none, List.isEmpty_iff] at done
    obtain ⟨⟨⟨current, receipts⟩, deliveries⟩, checked⟩ := done
    obtain ⟨⟨result, d'⟩, looked, intact⟩ := (Option.any_eq_true _ _).mp checked
    cases result with
    | error e => cases intact
    | ok holds =>
        obtain ⟨-, all⟩ := isIntact_ends (follow_ends (fun _ => .inside) (fun _ => rfl) looked)
        refine ⟨deliveries, state, saved, current, all intact, ?_, outside, ?_, own⟩
        · intro r mem
          rw [receipts] at mem
          cases mem
        · intro e mem
          rw [deliveries] at mem
          cases mem

set_option maxRecDepth 100000 in
/-- A finished project with nothing delivered yet. -/
theorem delivering_exportable : ∃ s : Site,
    Session.Reachable (hostWith verificationDocuments) ⟨s, none⟩ ∧ s.disk.deliveries = [] ∧
    ∀ destination : Path, destination.head? = some "out" → ∃ state, s.disk.state = some state ∧
      Exportable (hostWith verificationDocuments) { s.disk with files := files [] } state
        destination := by
  have done : finished (disk [] verificationDocuments delivering) = true := by decide +kernel
  have own : (disk [] verificationDocuments delivering).isLinked (parts ".workflow/state.json") =
      false ∧ (disk [] verificationDocuments delivering).isLinked (parts ".workflow/lock") =
      false := by decide +kernel
  have outside : ∀ destination : Path, destination.head? = some "out" →
      (hostWith verificationDocuments).root.isPrefixOf destination = false ∧
        destination.isPrefixOf (hostWith verificationDocuments).root = false := by
    intro destination first
    cases destination with
    | nil => cases first
    | cons part rest =>
        obtain rfl := Option.some.inj first
        exact ⟨rfl, rfl⟩
  refine ⟨site verificationDocuments delivering, reachable _ _,
    (exportable done (outside ["out"] rfl) own).1, fun destination first => ?_⟩
  exact (exportable done (outside destination first) own).2

end Showcase

/-- An export to a name that is also drawn for the temporary directory reports success, and
there is no delivery. -/
theorem export_removes_delivery : ∃ host m files state destination out d',
    Session.Reachable host m ∧ m.state.disk.state = some state ∧
    Exportable host { m.state.disk with files := files } state destination ∧
    Ends (smooth host fun _ => .inside) (main host (.export destination))
      { m.state.disk with files := files } (.ok out) d' ∧
    d'.deliveries.lookup destination = none := by
  obtain ⟨s, reachable, -, exportable⟩ := Showcase.delivering_exportable
  obtain ⟨state, saved, ready⟩ := exportable ["out", ".delivery-aaaaaaaa"] rfl
  have saved' : Disk.state { s.disk with files := Showcase.files [] } = some state := saved
  refine ⟨_, _, _, state, _, _, _, reachable, saved, ready, (smooth_export_iff saved' ready).mpr
    ⟨rfl, "aaaaaaaa", "t", by decide +kernel, ready.fresh, rfl⟩, ?_⟩
  exact (congrArg (fun d : Disk => d.deliveries.lookup _)
    (delivered_self ready.fresh "t")).trans ready.fresh.lookup

/-- The project is delivered to a directory with an ordinary name. -/
theorem export_correct_ordinary : ∃ host m files state result d',
    Session.Reachable host m ∧ m.state.disk.state = some state ∧
    Ends (smooth host fun _ => .inside) (main host (.export ["out"]))
      { m.state.disk with files := files } result d' ∧
    Delivered host { m.state.disk with files := files } state ["out"] result d' := by
  obtain ⟨s, reachable, none, exportable⟩ := Showcase.delivering_exportable
  obtain ⟨state, saved, ready⟩ := exportable ["out"] rfl
  have ordinary : ¬ IsTemporary ["out"] := by
    rintro ⟨drawn, -, same⟩
    have text : deliveryName drawn = "out" := (List.cons.inj same).1
    have long := congrArg String.length text
    rw [deliveryName, String.length_append] at long
    change 10 + drawn.length = 3 at long
    omega
  have correct : ExportCorrect _ (fun _ => .inside)
      { s.disk with files := Showcase.files [] } state ["out"] :=
    (export_correct_iff reachable saved).mpr fun _ => ordinary
  have free : ∃ drawn, isDrawn drawn = true ∧ Disk.Lacks { s.disk with files := Showcase.files [] }
      (["out"].dropLast ++ [deliveryName drawn]) := by
    refine ⟨"aaaaaaaa", by decide +kernel, fun e mem => ?_⟩
    change e ∈ s.disk.deliveries at mem
    rw [none] at mem
    cases mem
  obtain ⟨result, d', ends⟩ := correct.possible ready free
  exact ⟨_, ⟨s, _⟩, _, state, result, d', reachable, saved, ends,
    correct.delivers ready result d' ends⟩

end Mathmodel.Workflow
