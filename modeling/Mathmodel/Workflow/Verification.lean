import Mathmodel.Workflow.Completion
import Mathmodel.Workflow.Documents
import Mathmodel.Workflow.Scenario

/-!
# The verification gate

`verification.json` is the user's, but a stage `verify` that was completed tells
what was in it: every check passes and names its evidence, and the evidence is
registered. Unless the project is a theory, the document itself is the unchanged
output of one of the cited executions.
-/

namespace Mathmodel.Workflow

open Dialogue

variable {host : Host} {links : Path → Alias} {d d' : Disk}

/-- A check that passes, with the evidence it names. -/
structure CheckPasses (entry : Value) (evidence : List String) : Prop where
  fields : ∃ fields, entry = .dict fields ∧
    fields.lookup "status" = some (.str "pass") ∧
    (∃ name, fields.lookup "name" = some (.str name) ∧ isSubstantive name = true) ∧
    (∃ detail, fields.lookup "detail" = some (.str detail) ∧ isSubstantive detail = true) ∧
    fields.lookup "evidence" = some (.list (evidence.map .str))
  nonempty : evidence ≠ []

theorem mapM_str_eq_ok {message : String} {values : List Value} {names : List String} :
    (values.mapM fun p => match p with
      | .str s => Except.ok s
      | _ => .error (PyErr.value message)) = .ok names ↔ values = names.map .str := by
  rw [Except.mapM_eq_ok]
  constructor
  · intro all
    induction all with
    | nil => rfl
    | @cons v s _ _ head _ ih =>
        cases v with
        | str t =>
            obtain rfl := Except.ok.inj head
            rw [List.map_cons, ← ih]
        | _ => cases head
  · rintro rfl
    rw [List.forall₂_map_left_iff]
    exact List.forall₂_same.mpr fun _ _ => rfl

/-- A check that `verification` accepts is complete, and names its evidence. -/
theorem verificationCheck_ok {entry : Value} {evidence : List String}
    (passed : verificationCheck entry = .ok evidence) : CheckPasses entry evidence := by
  unfold verificationCheck at passed
  simp only [bind_eq_ok, require_eq_ok, Value.isDict_eq_true, Value.get_eq_ok, Bool.and_eq_true,
    Value.beq_str, Value.isProse_eq_true] at passed
  obtain ⟨_, ⟨fields, rfl⟩, _, ⟨_, ⟨⟩, rfl⟩, _, ⟨_, ⟨⟩, rfl⟩, _, ⟨_, ⟨⟩, rfl⟩, _,
    ⟨⟨status, name, named, substantive⟩, detail, detailed, substantive'⟩, _, ⟨_, ⟨⟩, rfl⟩,
    rest⟩ := passed
  split at rest
  next first others listed =>
    obtain listed' := mapM_str_eq_ok.mp rest
    rw [listed', Value.getD_none_eq_list] at listed
    rw [Value.getD_none_eq_str] at status named detailed
    refine ⟨⟨fields, rfl, status, ⟨name, named, substantive⟩, ⟨detail, detailed, substantive'⟩,
      listed⟩, ?_⟩
    rintro rfl
    cases listed'
  next => cases rest

/-- A report that `verification` accepts passes, check by check. -/
theorem verificationReport_ok {report : Value} {evidence : List String}
    (passed : verificationReport report = .ok evidence) :
    ∃ fields checks lists, report = .dict fields ∧
      fields.lookup "verdict" = some (.str "pass") ∧
      fields.lookup "checks" = some (.list checks) ∧ checks ≠ [] ∧
      List.Forall₂ CheckPasses checks lists ∧ evidence = lists.flatten := by
  unfold verificationReport at passed
  simp only [bind_eq_ok, require_eq_ok, Value.isDict_eq_true, Value.get_eq_ok, Value.beq_str]
    at passed
  obtain ⟨_, ⟨fields, rfl⟩, _, ⟨_, ⟨⟩, rfl⟩, _, verdict, _, ⟨_, ⟨⟩, rfl⟩, _, ⟨_, ⟨⟩, rfl⟩, rest⟩ :=
    passed
  split at rest
  next first others listed =>
    simp only [bind_eq_ok, pure_eq_ok] at rest
    obtain ⟨_, -, lists, checked, rfl⟩ := rest
    rw [Value.getD_none_eq_str] at verdict
    rw [Value.getD_none_eq_list] at listed
    exact ⟨fields, _, lists, rfl, verdict, listed, (by rintro ⟨⟩),
      (Except.mapM_eq_ok.mp checked).imp fun _ _ => verificationCheck_ok, rfl⟩
  next => cases rest

/-- `verification` returns exactly if its report is in the directory and accepted. -/
theorem verification_ok {evidence : List String} :
    (verification host).answered (look host links d) = .ok evidence ↔
      ∃ report, Located d "verification.json" false ∧ d.Contains host "verification.json" report ∧
        verificationReport report = .ok evidence := by
  unfold verification
  simp only [answered_bind, answered_read, answered_eval, bind_eq_ok, localPath_ok, found_eq_ok]
  constructor
  · rintro ⟨_, ⟨rfl, located⟩, content, there, report, loaded, passed⟩
    exact ⟨report, located, ⟨content, there, loaded⟩, passed⟩
  · rintro ⟨report, located, ⟨content, there, loaded⟩, passed⟩
    exact ⟨_, ⟨rfl, located⟩, content, there, report, loaded, passed⟩

/-- The document is the output of a cited execution of the stage, none of whose files has
changed since. -/
def VerifiedBy (host : Host) (d : Disk) (args : CompleteArgs) (state : State) : Prop :=
  ∃ id ∈ args.execution, ∃ r ∈ d.receipts, r.id = id ∧ r.status = .succeeded ∧
    r.stage = .verify ∧ r.revision = state.revision ∧
    (∃ ref ∈ r.outputs, ref.path = "verification.json" ∧
      d.HasDigest host (parts "verification.json") ref.sha256) ∧
    ∀ ref ∈ r.inputs ++ r.outputs, d.HasDigest host (parts ref.path) ref.sha256

/-- The evidence is a file of the project that is not empty, registered with its digest. -/
def Registered (host : Host) (d : Disk) (record : Record) (name : String) : Prop :=
  Evident host d name ∧
    ∃ ref ∈ record.files, ref.path = pathText (parts name) ∧
      d.HasDigest host (parts name) ref.sha256

/-- The document passes, and all the evidence it names is registered. -/
def Verifies (host : Host) (d : Disk) (record : Record) : Prop :=
  ∃ fields checks, d.Contains host "verification.json" (.dict fields) ∧
    fields.lookup "verdict" = some (.str "pass") ∧
    fields.lookup "checks" = some (.list checks) ∧ checks ≠ [] ∧
    ∀ check ∈ checks, ∃ evidence, CheckPasses check evidence ∧
      ∀ name ∈ evidence, Registered host d record name

/-- A document is the same on every disk with the same files. -/
theorem Disk.Contains.alike {name : String} {value : Value} (h : d.Contains host name value)
    (alike : d.Alike d') : d'.Contains host name value := by
  obtain ⟨content, there, loaded⟩ := h
  exact ⟨content, (alike.content _).trans there, loaded⟩

theorem Snapped.evident {name : String} {ref : Ref}
    (h : Snapped host d name false true ref d') : Evident host d name := by
  obtain ⟨content, there, -⟩ := h.current
  refine ⟨h.located, content, there, ?_⟩
  rintro rfl
  exact h.nonempty rfl there

theorem Evident.alike {name : String} (h : Evident host d name) (alike : d.Alike d') :
    Evident host d' name := by
  obtain ⟨content, there, nonempty⟩ := h.substantial
  exact ⟨h.located.alike alike, content, (alike.content _).trans there, nonempty⟩

section Completed

variable {args : CompleteArgs} {state : State} {c : Completion}

/-- Every path of the completed stage is registered with the digest of its file. -/
theorem Completed.registered (h : Completed host links args state d c d') {name : String}
    (mem : name ∈ c.paths) : Registered host d' (c.record args state) name := by
  obtain ⟨ref, listed, known⟩ := forall₂_left h.files mem
  exact ⟨known.evident.alike h.alike, ref,
    List.mem_append_left _ (List.mem_append_left _ listed), known.path, known.current.alike h.alike⟩

theorem Completed.verifiedBy (h : Completed host links args state d c d')
    (stage : args.stage = .verify) (kind : state.kind ≠ .theory) :
    VerifiedBy host d' args state := by
  obtain ⟨_, listed, ref, made, path⟩ := h.produced stage kind
  obtain ⟨found, cited, rfl⟩ := List.mem_map.mp listed
  obtain ⟨id, mem, cites⟩ := forall₂_right h.evidence cited
  have unchanged : ∀ ref ∈ found.2.inputs ++ found.2.outputs,
      d'.HasDigest host (parts ref.path) ref.sha256 := fun ref mem =>
    (cites.unchanged ref mem).2.alike h.alike
  refine ⟨id, mem, found.2, h.alike.receipts ▸ cites.mem.1, cites.mem.2, cites.status,
    cites.stage.trans stage, cites.revision, ⟨ref, made, path, ?_⟩, unchanged⟩
  rw [← path]
  exact unchanged ref (List.mem_append_right _ made)

/-- A completed verification stage stands on a report that passes. -/
theorem Completed.verifies (h : Completed host links args state d c d')
    (stage : args.stage = .verify) : Verifies host d' (c.record args state) := by
  obtain ⟨evidence, legacy, verified_, -, same⟩ := h.paths_eq
  rw [verified, if_pos stage, verification_ok] at verified_
  obtain ⟨report, -, contains, passed⟩ := verified_
  obtain ⟨fields, checks, lists, rfl, verdict, listed, nonempty, all, rfl⟩ :=
    verificationReport_ok passed
  refine ⟨fields, checks, contains.alike h.alike, verdict, listed, nonempty, ?_⟩
  intro check mem
  obtain ⟨names, among, passes⟩ := forall₂_left all mem
  refine ⟨names, passes, fun name named => h.registered ?_⟩
  have collected : name ∈ lists.flatten := List.mem_flatten.mpr ⟨names, among, named⟩
  rw [same]
  simp [collected]

end Completed

/-- The verification gate. If a stage `verify` is completed in a directory that nobody else
changes meanwhile, the document passes and its evidence is registered; unless the project is a
theory, the document is the unchanged output of a cited execution of the stage. -/
theorem verification_gate {args : CompleteArgs} {state : State} {out : Output}
    (saved : d.state = some state) (stage : args.stage = .verify)
    (ends : Ends (calm host links) (main host (.complete args)) d (.ok out) d') :
    ∃ record, out = .registered .verify record ∧
      d'.state = some (state.register .verify record) ∧ Verifies host d' record ∧
      (state.kind ≠ .theory → VerifiedBy host d' args state) := by
  obtain ⟨_, found, rest⟩ := main_ends ends fun _ => nofun
  obtain rfl := Option.some.inj (found.symm.trans saved)
  obtain ⟨c, completed, rfl⟩ := complete_ends rest
  refine ⟨_, by rw [stage], ?_, completed.verifies stage, completed.verifiedBy stage⟩
  rw [completed.saved, stage]

/-! A project of documents that are given, carried through its stages: every stage is completed,
with an execution where it needs one. -/

namespace Showcase

/-- The digests of the contents below. -/
def digests : List (Content × String) :=
  Scenario.digests ++ [
    ([10], "01ba4719c80b6fe911b091a7c05124b64eeece964e09c058ef8f9805daca546b"),
    ([5], "e77b9a9ae9e30b0dbdb6f510a264ef9de781501d7b6b92ae89eb059c5ab743db"),
    ([6], "67586e98fad27da0b9968bc039a1ef34c939b9b8e523a8bef89d478608c5ecf6"),
    ([7], "ca358758f6d27e6cf45272937977a748fd88391db679ceda7dc7bf1f005ee879"),
    ([11], "e7cf46a078fed4fafd0b5e3aff144802b853f8ae459a4f0c14add3314b7cc3a6"),
    ([12], "ef6cbd2161eaea7943ce8693b9824d23d1793ffb1c0fca05b600d3899b44c977"),
    ([13], "9d1e0e2d9459d06523ad13e28a4093c2316baafe7aec5b25f30eba2e113599c4"),
    ([14], "4d7b3ef7300acf70c892d8327db8272f54434adbc61a4e130a563cb59a0d0f47"),
    ([15], "dc0e9c3658a1a3ed1ec94274d8b19925c93e1abb7ddba294923ad9bde30f8cb8"),
    ([16], "c555eab45d08845ae9f10d452a99bfcb06f74a50b988fe7e48dd323789b88ee3"),
    ([20], "83891d7fe85c33e52c8b4e5814c92fb6a3b9467299200538a6babaa8b452d879"),
    ([21], "2f0fd1e89b8de1d57292742ec380ea47066e307ad645f5bc3adad8a06ff58608"),
    ([22], "7cb7c4547cf2653590d7a9ace60cc623d25148adfbc88a89aeb0ef88da7839ba"),
    ([23], "8f11b05da785e43e713d03774c6bd3405d99cd3024af334ffd68db663aa37034"),
    ([30], "9652595f37edd08c51dfa26567e6cd76e6fa2709c3e578478ca398d316837a7a"),
    ([31], "ffe679bb831c95b67dc17819c63c5090d221aac6f4c7bf530f594ab43d21fa1e"),
    ([32], "36a9e7f1c95b82ffb99743e0c5c4ce95d83c9a430aac59f84ef3cbfab6145068"),
    ([33], "bb7208bc9b5d7c04f1236a82a0093a5e33f40423d5ba8d4266f7092c3ba43b62"),
    ([137, 80, 78, 71, 13, 10, 26, 10],
      "4c4b6a3be1314ab86138bef4314dde022e600960d8689a2c8f8631802d20dab6"),
    ([37, 80, 68, 70, 45], "38523c087796e5d5dd1cf9bad1fb026781a838dd9dd2cf8af58b9f6502a46778")]

/-- A host that knows these digests, and whose reader knows some documents. -/
def hostWith (documents : List (Content × Value)) : Host :=
  { Scenario.host with
    sha256 := tabled digests Scenario.undigested
    loads := fun content =>
      match documents.lookup content with
      | some value => .ok value
      | none => .error (.value "Expecting value") }

theorem hostWith_sha256_ne_empty (documents : List (Content × Value)) (content : Content) :
    (hostWith documents).sha256 content ≠ "" := by
  refine tabled_all (P := fun digest => digest ≠ "") (by decide +kernel)
    (fun other empty => ?_) content
  have chars := congrArg String.toList empty
  rw [Scenario.undigested, String.toList_ofList] at chars
  cases chars

def verificationContent : Content := [10]

/-- A verification with one check, which names the problem as its evidence. -/
def verificationDocument : Value :=
  .dict [("verdict", .str "pass"), ("limitations", .list []), ("checks", .list
    [.dict [("name", .str "sum"), ("status", .str "pass"), ("detail", .str "equal"),
      ("evidence", .list [.str "problem.md"])]])]

/-- The identifier of an execution. -/
def ident (c : Char) : String := String.ofList (List.replicate 32 c)

def logs (c : Char) : List (Path × Node) :=
  [([".workflow", "executions", ident c ++ ".stdout"], .file []),
    ([".workflow", "executions", ident c ++ ".stderr"], .file [])]

/-- The files of the project; what else there is comes first. -/
def files (others : List (Path × Node)) : List (Path × Node) :=
  others ++ [(["inputs", "00-a.md"], .file [1]), (["problem.md"], .file [2]),
    (["data-report.md"], .file [3]), (["baseline.md"], .file [4]), (["report.md"], .file [5]),
    (["REPRODUCE.md"], .file [6]), (["model.py"], .file [7]),
    (["verification.json"], .file verificationContent)] ++ logs 'a' ++ logs 'b'

def oracle (others : List (Path × Node)) (c : Char) : Oracle
  | .isVacant => ([], .proceed)
  | .exists _ => ([], .proceed)
  | .now => (files others, .text "t")
  | .uuid4 => (files others, .text (ident c))
  | .popen _ => (files others, .number 7)
  | .wait _ _ => (files others, .ending (.exited 0))
  | _ => (files others, .proceed)

variable (others : List (Path × Node))

def created (kind : Kind) (pdf : Bool) (format : Format) : Command × Oracle × Nat :=
  (.init ⟨⟨"a.md", "a", some [1]⟩, [], none, kind, 20, pdf, format⟩, oracle others 'a', 1000)

def completed (stage : StageId) (execution : List String) : Command × Oracle × Nat :=
  (.complete { stage, artifact := [], execution, note := "" }, oracle others 'a', 1000)

def skipped (stage : StageId) : Command × Oracle × Nat :=
  (.skip stage "not needed", oracle others 'a', 1000)

/-- An execution of a stage, with its identifier. -/
def executed (stage : StageId) (c : Char) (input output : List String) : Command × Oracle × Nat :=
  (.run { stage, input, output, timeout := .finite 300, argv := ["--", "make"] },
    oracle others c, 1000)

/-- The site that some commands leave, for a host that knows the documents. -/
def site (documents : List (Content × Value)) (commands : List (Command × Oracle × Nat)) : Site :=
  scenario (hostWith documents) ⟨Disk.empty, []⟩ commands

theorem reachable (documents : List (Content × Value)) (commands : List (Command × Oracle × Nat)) :
    Session.Reachable (hostWith documents) ⟨site documents commands, none⟩ :=
  Session.Reachable.scenario .refl commands

/-- The directory that is left, with the files of the project. -/
def disk (documents : List (Content × Value)) (commands : List (Command × Oracle × Nat)) : Disk :=
  { (site documents commands).disk with files := files others }

theorem disk_state (documents : List (Content × Value)) (commands : List (Command × Oracle × Nat)) :
    (disk others documents commands).state = (site documents commands).disk.state := rfl

/-- Up to the verification, with an execution for the model and one for the verification. -/
def verifying : List (Command × Oracle × Nat) :=
  [created [] .general false .v2, completed [] .understand [], completed [] .data [],
    executed [] .baseline 'a' ["model.py"] ["baseline.md"], completed [] .baseline [ident 'a'],
    skipped [] .improve, executed [] .verify 'b' ["model.py"] ["verification.json"]]

def verificationDocuments : List (Content × Value) :=
  [(verificationContent, verificationDocument)]

def verifyArgs : CompleteArgs :=
  { stage := .verify, artifact := [], execution := [ident 'b'], note := "" }

end Showcase

set_option maxRecDepth 100000 in
/-- A verification by an execution is registered. -/
theorem verification_gate_executed : ∃ state d' record,
    (Showcase.disk [] Showcase.verificationDocuments Showcase.verifying).state = some state ∧
    state.kind ≠ .theory ∧
    Verifies (Showcase.hostWith Showcase.verificationDocuments) d' record ∧
    VerifiedBy (Showcase.hostWith Showcase.verificationDocuments) d' Showcase.verifyArgs state := by
  have done : (follow (Showcase.hostWith Showcase.verificationDocuments)
      (fun q => (Showcase.oracle [] 'a' q).2) 1000
      (Showcase.disk [] Showcase.verificationDocuments Showcase.verifying)
      (main (Showcase.hostWith Showcase.verificationDocuments)
        (.complete Showcase.verifyArgs))).any
      (fun r => r.1.isOk && r.2.state.any fun state => state.kind ≠ .theory) = true := by
    decide +kernel
  obtain ⟨⟨result, d'⟩, run, shape⟩ := (Option.any_eq_true _ _).mp done
  rw [Bool.and_eq_true] at shape
  cases result with
  | error e => cases shape.1
  | ok out =>
      have ends := follow_ends (fun _ => .inside) (fun _ => rfl) run
      obtain ⟨state, saved, -⟩ := main_ends ends fun _ => nofun
      obtain ⟨record, -, saved', verifies, verifiedBy⟩ := verification_gate saved rfl ends
      have kind : state.kind ≠ .theory := by
        rw [saved'] at shape
        exact of_decide_eq_true shape.2
      exact ⟨state, d', record, saved, kind, verifies, verifiedBy kind⟩

end Mathmodel.Workflow
