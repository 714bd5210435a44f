import Mathmodel.Workflow.Integrity

/-!
# A directory where nothing fails

`smooth` is the service of an undisturbed directory that refuses nothing: no I/O
error, no copy cut short, the lock is free, the report is printed. A task that
only looks then ends with what it computes from the true answers, whether or not
it catches exceptions, and a task whose requests all have an answer has a run.
-/

namespace Mathmodel.Workflow

open Dialogue

/-- The request is carried out. -/
structure Choice.Lets (q : Request) (choice : Choice) : Prop where
  allowed : ∀ message, choice ≠ .refuse message
  whole : ∀ written, choice ≠ .cut written
  free : q = .lock → choice = .proceed
  printed : ∀ output, q = .print output → choice = .proceed

def smooth (host : Host) (links : Path → Alias) (d : Disk) (q : Request) (r : Except PyErr q.Answer)
    (d' : Disk) : Prop :=
  ∃ choice, q.perform host d choice = some (r, d') ∧ choice.Lets q ∧
    ∀ path reading, q = .resolve path → choice = .resolution reading →
      reading = (links path).resolution

section Looking

variable {host : Host} {links : Path → Alias} {d d' : Disk} {α β : Type}

theorem smooth_look {q : Request} {r : Except PyErr q.Answer} (isLook : q.isLook = true)
    (served : smooth host links d q r d') : d' = d ∧ r = look host links d q := by
  obtain ⟨choice, done, lets, same⟩ := served
  obtain ⟨rfl, rfl | ⟨message, refused, -⟩⟩ := perform_look isLook done same
  · exact ⟨rfl, rfl⟩
  · exact absurd refused (lets.allowed message)

/-- A task that only looks ends with what it computes from the truth. -/
theorem smooth_answered {x : Task α} {result : Except PyErr α}
    (uses : x.Uses fun q => q.isLook = true) (ends : Ends (smooth host links) x d result d') :
    d' = d ∧ result = x.answered (look host links d) := by
  induction ends with
  | ret a s => exact ⟨rfl, rfl⟩
  | raise e s => exact ⟨rfl, rfl⟩
  | ask served _ ih =>
      obtain ⟨rfl, rfl⟩ := smooth_look uses.1 served
      exact ih (uses.2 _)

/-- A first part that only looks is over, if what it computes from the truth is known. -/
theorem smooth_bind {x : Task β} {f : β → Task α} {b : β} {result : Except PyErr α}
    (uses : x.Uses fun q => q.isLook = true) (known : x.answered (look host links d) = .ok b)
    (ends : Ends (smooth host links) (x >>= f) d result d') :
    Ends (smooth host links) (f b) d result d' := by
  obtain ⟨b', t, first, rest⟩ | ⟨e, -, first⟩ := ends_bind ends
  · obtain ⟨rfl, done⟩ := smooth_answered uses first
    obtain rfl := Except.ok.inj (known.symm.trans done.symm)
    exact rest
  · obtain ⟨-, failed⟩ := smooth_answered uses first
    cases known.symm.trans failed.symm

theorem smooth_check {condition : Bool} {message : String} {f : Unit → Task α}
    {result : Except PyErr α} (holds : condition = true)
    (ends : Ends (smooth host links) (check condition message >>= f) d result d') :
    Ends (smooth host links) (f ()) d result d' := by
  refine smooth_bind (Straight.check condition message).uses ?_ ends
  simp [holds]

end Looking

section Runs

variable {host : Host} {links : Path → Alias} {d d' : Disk} {α : Type}

/-- The requests that always have an answer. -/
def Request.isAnswered : Request → Bool
  | .isVacant | .isInitialized | .lock | .loadState | .loadReceipts | .countReceipts
  | .loadReceipt _ | .resolve _ | .isFile _ | .exists _ | .size _ | .read _ | .hasBlob _
  | .copyBlob _ _ | .readBlob _ | .now | .destinationExists _ | .copyOut _ _ _
  | .writeManifest _ _ | .renameDirectory _ _ | .removeTree _ | .print _ => true
  | _ => false

theorem lets_proceed (q : Request) : Choice.Lets q .proceed :=
  ⟨nofun, nofun, fun _ => rfl, fun _ _ => rfl⟩

/-- The requests that can only be carried out in one way. -/
def Request.isStrict : Request → Bool
  | .lock | .print _ => true
  | _ => false

/-- Neither a refusal nor a copy that is cut short. -/
def Choice.isReading : Choice → Bool
  | .refuse _ | .cut _ => false
  | _ => true

/-- A reading is an answer, where the request asks for one. -/
theorem lets_other {q : Request} {choice : Choice} (free : q.isStrict = false)
    (reading : choice.isReading = true) : choice.Lets q := by
  refine ⟨?_, ?_, ?_, ?_⟩
  · rintro message rfl
    cases reading
  · rintro written rfl
    cases reading
  · rintro rfl
    cases free
  · rintro output rfl
    cases free

theorem smooth_proceed {q : Request} {r : Except PyErr q.Answer}
    (done : q.perform host d .proceed = some (r, d')) : smooth host links d q r d' :=
  ⟨.proceed, done, lets_proceed q, fun _ _ _ => nofun⟩

theorem exists_proceed {q : Request} (there : (q.perform host d .proceed).isSome = true) :
    ∃ r d', smooth host links d q r d' := by
  obtain ⟨⟨r, d'⟩, done⟩ := Option.isSome_iff_exists.mp there
  exact ⟨r, d', smooth_proceed done⟩

theorem exists_smooth {q : Request} (answered : q.isAnswered = true) (d : Disk) :
    ∃ r d', smooth host links d q r d' := by
  cases q with
  | resolve path =>
      by_cases linked : d.isLinked path = true
      · refine ⟨.ok (links path).resolution, d, .resolution (links path).resolution, ?_, ?_, ?_⟩
        · have other : (links path).resolution ≠ .plain := by cases links path <;> rintro ⟨⟩
          simp [Request.perform, linked, other]
        · exact lets_other rfl rfl
        · rintro _ _ ⟨⟩ ⟨⟩
          rfl
      · refine ⟨.ok .plain, d, smooth_proceed ?_⟩
        simp [Request.perform, linked]
  | now =>
      refine ⟨.ok "t", d, .text "t", rfl, lets_other rfl rfl, ?_⟩
      rintro _ _ ⟨⟩
  | loadState | loadReceipt | size | read | copyBlob | readBlob | writeManifest
  | renameDirectory | copyOut =>
      apply exists_proceed
      simp only [Request.perform]
      split
      all_goals rfl
  | isVacant | isInitialized | lock | loadReceipts | countReceipts | isFile | «exists» | hasBlob
  | destinationExists | removeTree | print => exact ⟨_, _, smooth_proceed rfl⟩
  | _ => cases answered

/-- A task that only looks asks nothing else. -/
theorem answers_of_looks {x : Task α} (uses : x.Uses fun q => q.isLook = true) :
    x.Uses fun q => q.isAnswered = true := by
  refine uses.mono fun q isLook => ?_
  cases q with
  | isInitialized | loadState | loadReceipts | countReceipts | loadReceipt | resolve | isFile
  | «exists» | size | read | hasBlob | readBlob | destinationExists => rfl
  | _ => cases isLook

/-- A task of such requests has a run. -/
theorem exists_ends {x : Task α} (uses : x.Uses fun q => q.isAnswered = true) (d : Disk) :
    ∃ result d', Ends (smooth host links) x d result d' := by
  induction x generalizing d with
  | ret a => exact ⟨_, _, .ret a d⟩
  | raise e => exact ⟨_, _, .raise e d⟩
  | ask q next ih =>
      obtain ⟨r, t, served⟩ := exists_smooth uses.1 d
      obtain ⟨result, d', rest⟩ := ih r (uses.2 r) t
      exact ⟨result, d', .ask served rest⟩

/-- A task that is answered without a refusal runs smoothly. -/
theorem follow_smooth (links : Path → Alias) {oracle : Request → Choice}
    (plain : ∀ path, oracle (.resolve path) = .proceed) (lets : ∀ q, (oracle q).Lets q) {fuel : Nat}
    {x : Task α} {result : Except PyErr α}
    (done : follow host oracle fuel d x = some (result, d')) :
    Ends (smooth host links) x d result d' := by
  refine follow_served (fun d q r d' answer => ⟨_, answer, lets q, ?_⟩) done
  rintro path reading rfl chosen
  exact nomatch (plain path).symm.trans chosen

/-- A task that only looks can be answered truly all the time. -/
theorem smooth_runs {x : Task α} (uses : x.Uses fun q => q.isLook = true) :
    Ends (smooth host links) x d (x.answered (look host links d)) d := by
  have run : ∃ result d', Ends (smooth host links) x d result d' :=
    exists_ends (answers_of_looks uses) d
  obtain ⟨result, d', ends⟩ := run
  obtain ⟨rfl, rfl⟩ := smooth_answered uses ends
  exact ends

end Runs

end Mathmodel.Workflow
