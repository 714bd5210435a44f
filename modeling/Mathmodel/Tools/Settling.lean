import Mathmodel.Library.Outcome
import Mathmodel.Library.Rounds
import Mathmodel.Tools.DocFacts

/-!
# Documented facts: checking and writing

The gate measures its probes and compares each anchor with its document. A check
reports every difference. A write run repeats rounds of measuring and rewriting until a
round rewrites nothing. What a probe measures may depend on the documents, so every
round measures again.

A round that rewrites nothing has found every anchor it looked at in order, and a check
of the same documents looks at the same anchors. The two differ in what they make of a
probe that cannot be measured: its anchors are passed over by both, and only the check
has a setting that calls it a failure.
-/

namespace Mathmodel.DocFacts

structure Probe where
  id : JsString
  command : List JsString
  capture : Option JsString

inductive ProbeErrorPolicy where
  | fail
  | skip
deriving DecidableEq

structure Config where
  probes : List Probe
  anchors : List Anchor
  onProbeError : ProbeErrorPolicy
  maxWriteRounds : Option Nat

/-- Texts of the files under their absolute paths. -/
abbrev Files := JsString → Option JsString

inductive Spawned where
  | failed (message : JsString)
  | exited (status : Option Nat) (stdout : JsString)

/-- What the gate has of the machine it runs on. Commands are run on the files as they
are, and what they print may depend on them. -/
structure Workspace where
  absolute : JsString → JsString
  spawn : Files → List JsString → Spawned
  /-- Group 1 of the first match of a regular expression of the configuration. -/
  firstGroup : JsString → JsString → Option JsString

inductive FailureCode where
  | DF1
  | DF2
  | DF3
deriving DecidableEq

structure Failure where
  code : FailureCode
  message : JsString

/-! ## Validation -/

def validateProbe (relative : JsString) (seen : List JsString) (probe : Probe) :
    Except JsString (List JsString) :=
  if probe.id = [] then
    .error (relative ++ asciiUnits ": every probe needs a non-empty string id")
  else if placeholder.test (asciiUnits "\x7b" ++ probe.id ++ asciiUnits "\x7d") = false then
    .error (relative ++ asciiUnits ": probe id " ++ probe.id ++
      asciiUnits " contains characters a \x7bplaceholder\x7d cannot carry")
  else if probe.id ∈ seen then
    .error (relative ++ asciiUnits ": probe id " ++ probe.id ++ asciiUnits " is declared twice")
  else if probe.command = [] then
    .error (relative ++ asciiUnits ": probe " ++ probe.id ++ asciiUnits
      " needs a command as a non-empty argv array, for example [\"sh\", \"-c\", \"...\"]")
  else .ok (seen ++ [probe.id])

def validateAnchor (relative : JsString) (declared : List JsString) (anchor : Anchor) :
    Except JsString Unit :=
  if ids anchor.template = [] then
    .error (relative ++ asciiUnits ": anchor in " ++ anchor.file ++ asciiUnits
      (" carries no \x7bprobe.id\x7d placeholder; " ++
        "an anchor with nothing to compare is not a check"))
  else
    match (ids anchor.template).find? fun id => id ∉ declared with
    | some id =>
        .error (relative ++ asciiUnits ": anchor in " ++ anchor.file ++
          asciiUnits " references probe id " ++ id ++ asciiUnits ", which no probe declares")
    | none =>
        if anchor.occurrences = some 0 then
          .error (relative ++ asciiUnits ": anchor in " ++ anchor.file ++ asciiUnits
            " declares occurrences 0; it must be a positive integer")
        else .ok ()

def validate (relative : JsString) (config : Config) : Except JsString Unit :=
  match config.probes.foldlM (validateProbe relative) [] with
  | .error message => .error message
  | .ok declared => config.anchors.forM (validateAnchor relative declared)

/-! ## Measuring -/

def joinWith (separator : JsString) (texts : List JsString) : JsString :=
  separator.intercalate texts

/-- `String.prototype.trim` -/
def trim (text : JsString) : JsString :=
  ((text.dropWhile RegExp.isSpace).reverse.dropWhile RegExp.isSpace).reverse

/-- The value of a probe, or why there is none. -/
def read (w : Workspace) (files : Files) (probe : Probe) : Except JsString JsString :=
  let printable := joinWith (asciiUnits " ") probe.command
  match w.spawn files probe.command with
  | .failed message => .error (printable ++ asciiUnits " could not be spawned: " ++ message)
  | .exited status stdout =>
      if status ≠ some 0 then
        .error (printable ++ asciiUnits " exited " ++
          asciiUnits ((status.map toString).getD "null") ++ asciiUnits
            ("; refusing to compare documentation against the output " ++
              "of a failed command"))
      else
        match probe.capture with
        | none => readValue printable stdout
        | some capture =>
            match w.firstGroup capture stdout with
            | none =>
                .error (printable ++ asciiUnits " produced output that capture " ++ capture ++
                  asciiUnits " did not match with a group 1")
            | some text => readValue printable text
where
  readValue (printable text : JsString) : Except JsString JsString :=
    if value.test (trim text) then .ok (trim text)
    else
      .error (printable ++ asciiUnits " yielded " ++ JsString.quoted ((trim text).take 60) ++
        asciiUnits ", which is not a number; this gate compares numeric literals only")

structure Measured where
  observed : List (JsString × JsString)
  unavailable : List (JsString × JsString)

def measure (w : Workspace) (files : Files) (probes : List Probe) : Measured where
  observed := probes.filterMap fun probe =>
    match read w files probe with
    | .ok value => some (probe.id, value)
    | .error _ => none
  unavailable := probes.filterMap fun probe =>
    match read w files probe with
    | .ok _ => none
    | .error reason => some (probe.id, reason)

/-! ## Comparing -/

def lineOf (body : JsString) (index : Nat) : Nat := ((body.take index).splitOn 0x0a).length

def describe (anchor : Anchor) : JsString :=
  let head := anchor.template.takeWhile (· ≠ 0x0a)
  let shown := if 80 < head.length then head.take 80 ++ asciiUnits "..." else head
  anchor.file ++ asciiUnits ": " ++ shown

structure Inspection where
  blocked : Option JsString
  structural : List JsString
  values : List JsString

/-- The differences at one occurrence. -/
def differences (anchor : Anchor) (body : JsString) (m : Measured) (found : Match Nat) :
    List JsString :=
  ((ids anchor.template).zip (capturedTexts found)).filterMap fun (id, actual) =>
    if m.observed.lookup id = some actual then none
    else some (asciiUnits "VALUE " ++ anchor.file ++ asciiUnits ":" ++
      asciiUnits (toString (lineOf body found.start)) ++ asciiUnits " states " ++ id ++
      asciiUnits " = " ++ actual ++ asciiUnits ", the command reports " ++
      observedText m.observed id)

def inspect (anchor : Anchor) (body : JsString) (m : Measured) : Inspection :=
  let expectedOccurrences := anchor.expectedOccurrences
  match (compile anchor.template).ids.filter fun id => (m.unavailable.lookup id).isSome with
  | id :: rest =>
      { blocked := some (describe anchor ++ asciiUnits " needs " ++
          joinWith (asciiUnits ", ") (id :: rest) ++ asciiUnits ": " ++
          (m.unavailable.lookup id).getD [])
        structural := []
        values := [] }
  | [] =>
      let found := occurrencesIn anchor.template body
      if found.length ≠ expectedOccurrences then
        { blocked := none
          values := []
          structural := [asciiUnits "ANCHOR " ++ describe anchor ++ asciiUnits " matched " ++
            asciiUnits (toString found.length) ++
            asciiUnits " time(s), the configuration declares " ++
            asciiUnits (toString expectedOccurrences) ++ asciiUnits
              (". Either the prose moved (fix the template) or a restatement was added " ++
                "or removed (fix the document). This gate refuses to pass an anchor it " ++
                "cannot locate exactly")] }
      else
        { blocked := none, structural := [], values := found.flatMap (differences anchor body m) }

/-- The texts of the documents the anchors name, each read once. -/
def bodies (w : Workspace) (files : Files) (anchors : List Anchor) :
    Except JsString (List (JsString × JsString)) :=
  anchors.foldlM (fun documents anchor =>
    if (documents.lookup anchor.file).isSome then .ok documents
    else
      match files (w.absolute anchor.file) with
      | some body => .ok (documents ++ [(anchor.file, body)])
      | none => .error (asciiUnits "anchor names " ++ anchor.file ++
          asciiUnits ", which does not exist under the workspace root")) []

/-- `documents.get(file)`, for a document that was read. -/
def bodyOf (documents : List (JsString × JsString)) (file : JsString) : JsString :=
  (documents.lookup file).getD []

/-! ## Checking -/

structure Checked where
  failures : List Failure
  comparisons : Nat
  located : Nat
  skipped : List JsString
  documentCount : Nat

def checkOnce (w : Workspace) (files : Files) (anchors : List Anchor) (m : Measured) :
    Except JsString Checked :=
  match bodies w files anchors with
  | .error message => .error message
  | .ok documents =>
      let results := anchors.map fun anchor =>
        (anchor, inspect anchor (bodyOf documents anchor.file) m)
      let looked := results.filter fun (_, result) => result.blocked.isNone
      .ok {
        failures := looked.flatMap fun (_, result) =>
          (result.structural ++ result.values).map (Failure.mk .DF1)
        comparisons := (looked.map fun (anchor, _) =>
          (ids anchor.template).length * anchor.expectedOccurrences).sum
        located := looked.length
        skipped := results.filterMap fun (_, result) => result.blocked
        documentCount := documents.length }

/-! ## Writing -/

/-- The documents in memory in the course of a round. -/
structure Pass where
  documents : List (JsString × JsString)
  structural : List JsString
  edits : List JsString

/-- What a round does about one anchor. -/
def Pass.visit (m : Measured) (pass : Pass) (anchor : Anchor) : Pass :=
  let body := bodyOf pass.documents anchor.file
  let result := inspect anchor body m
  if result.blocked.isSome then pass
  else if result.structural ≠ [] then
    { pass with structural := pass.structural ++ result.structural }
  else if result.values = [] then pass
  else
    { pass with
      documents := pass.documents.map fun (file, text) =>
        if file = anchor.file then (file, rewrite anchor.template body m.observed)
        else (file, text)
      edits := pass.edits ++ [describe anchor ++ asciiUnits " (" ++
        asciiUnits (toString result.values.length) ++ asciiUnits " value(s))"] }

/-- Write back the documents that differ from what is on disk, and list those written. -/
def writeBack (w : Workspace) : List (JsString × JsString) → Files → Files × List JsString
  | [], files => (files, [])
  | (file, body) :: rest, files =>
      if files (w.absolute file) = some body then writeBack w rest files
      else
        let (files', written) :=
          writeBack w rest (Function.update files (w.absolute file) (some body))
        (files', file :: written)

/-- A round of a write run: the pass over the anchors, the files behind it and the
documents written. -/
structure Attempt where
  pass : Pass
  files : Files
  written : List JsString

def attempt (w : Workspace) (config : Config) (files : Files) : Except JsString Attempt :=
  match bodies w files config.anchors with
  | .error message => .error message
  | .ok documents =>
      let pass := config.anchors.foldl (Pass.visit (measure w files config.probes))
        ⟨documents, [], []⟩
      if pass.structural ≠ [] then .ok ⟨pass, files, []⟩
      else .ok ⟨pass, (writeBack w pass.documents files).1, (writeBack w pass.documents files).2⟩

structure Outcome where
  files : Files
  rounds : Nat
  converged : Bool
  failures : List Failure

/-- A round leaves the loop with an outcome or an error, or goes on with the files. -/
def round (w : Workspace) (config : Config) (n : Nat) (files : Files) :
    Except (Except JsString Outcome) Files :=
  match attempt w config files with
  | .error message => .error (.error message)
  | .ok done =>
      if done.pass.structural ≠ [] then
        .error (.ok ⟨done.files, n, false, done.pass.structural.map (Failure.mk .DF1)⟩)
      else if done.pass.edits = [] then .error (.ok ⟨done.files, n, true, []⟩)
      else .ok done.files

def Config.maxRounds (config : Config) : Nat := config.maxWriteRounds.getD 5

def writeRounds (w : Workspace) (config : Config) (files : Files) : Except JsString Outcome :=
  match loop (round w config) config.maxRounds 1 files with
  | .error result => result
  | .ok files => .ok ⟨files, config.maxRounds, false, [⟨.DF3, asciiUnits "no fixed point after " ++
      asciiUnits (toString config.maxRounds) ++ asciiUnits
        (" round(s). The remaining quantities are self-referential in a way this loop " ++
          "cannot settle; re-run with --print-observed and compare by hand rather than " ++
          "assuming convergence")⟩]⟩

/-! ## The two modes of the gate -/

/-- What a run reports and the files it leaves. -/
structure Report where
  failures : List Failure
  files : Files

def write (w : Workspace) (relative : JsString) (config : Config) (files : Files) :
    Except JsString Report :=
  match validate relative config with
  | .error message => .error message
  | .ok _ =>
      if config.anchors = [] then .ok ⟨[], files⟩
      else (writeRounds w config files).map fun outcome => ⟨outcome.failures, outcome.files⟩

def unmeasured (m : Measured) : List Failure :=
  (JsValue.sortKeys (m.unavailable.map Prod.fst)).map fun id =>
    ⟨.DF2, asciiUnits "probe " ++ id ++ asciiUnits " could not be measured: " ++
      (m.unavailable.lookup id).getD [] ++ asciiUnits
        (". onProbeError is \"fail\", so this gate will not report a green run for values " ++
          "it did not re-measure")⟩

def check (w : Workspace) (relative : JsString) (config : Config) (files : Files) :
    Except JsString Report :=
  match validate relative config with
  | .error message => .error message
  | .ok _ =>
      if config.anchors = [] then .ok ⟨[], files⟩
      else
        let m := measure w files config.probes
        (checkOnce w files config.anchors m).map fun checked =>
          ⟨(if config.onProbeError = .fail then unmeasured m else []) ++ checked.failures, files⟩

/-! ## What a comparison finds -/

/-- The template stands in the text as often as declared. -/
def Located (anchor : Anchor) (body : JsString) : Prop :=
  (occurrencesIn anchor.template body).length = anchor.expectedOccurrences

/-- A probe of the anchor could not be measured. -/
def Blocked (anchor : Anchor) (m : Measured) : Prop :=
  ∃ id ∈ ids anchor.template, (m.unavailable.lookup id).isSome

def Inspection.Quiet (result : Inspection) : Prop := result.structural = [] ∧ result.values = []

section Inspection

variable {anchor : Anchor} {body : JsString} {m : Measured}

theorem blocked_iff :
    ((compile anchor.template).ids.filter fun id => (m.unavailable.lookup id).isSome) ≠ [] ↔
      Blocked anchor m := by
  rw [compile_ids, ne_eq, List.filter_eq_nil_iff]
  simp only [not_forall, not_not, exists_prop]
  rfl

@[simp]
theorem inspect_blocked : (inspect anchor body m).blocked.isSome ↔ Blocked anchor m := by
  rw [← blocked_iff, inspect]
  split
  case h_1 none => rw [none]; exact ⟨fun _ => List.cons_ne_nil _ _, fun _ => rfl⟩
  case h_2 none =>
      rw [none]
      dsimp only
      split <;> exact ⟨nofun, fun h => absurd rfl h⟩

theorem inspect_structural :
    (inspect anchor body m).structural ≠ [] ↔ ¬ Blocked anchor m ∧ ¬ Located anchor body := by
  rw [← blocked_iff, inspect]
  split
  case h_1 some => rw [some]; simp
  case h_2 none =>
      rw [none]
      dsimp only
      split
      case isTrue lost => exact ⟨fun _ => ⟨fun h => h rfl, lost⟩, fun _ => List.cons_ne_nil _ _⟩
      case isFalse found => exact ⟨fun h => absurd rfl h, fun h => absurd h.2 found⟩

theorem inspect_quiet_of_blocked (blocked : Blocked anchor m) :
    (inspect anchor body m).Quiet := by
  rw [← blocked_iff] at blocked
  rw [inspect]
  split
  case h_1 => exact ⟨rfl, rfl⟩
  case h_2 none => exact absurd none blocked

end Inspection

/-! ## What a round does -/

/-- The text each anchor meets at its turn in a round. -/
def turns (m : Measured) : List Anchor → Pass → List (Anchor × JsString)
  | [], _ => []
  | anchor :: rest, pass =>
      (anchor, bodyOf pass.documents anchor.file) :: turns m rest (pass.visit m anchor)

section Pass

variable {m : Measured} {pass : Pass} {anchor : Anchor} {anchors : List Anchor}

theorem visit_of_quiet (quiet : (inspect anchor (bodyOf pass.documents anchor.file) m).Quiet) :
    pass.visit m anchor = pass := by
  rw [Pass.visit]
  simp only [quiet.1, quiet.2]
  split <;> rfl

theorem visit_quiet :
    (pass.visit m anchor).structural = [] ∧ (pass.visit m anchor).edits = [] ↔
      (pass.structural = [] ∧ pass.edits = []) ∧
        (inspect anchor (bodyOf pass.documents anchor.file) m).Quiet := by
  by_cases quiet : (inspect anchor (bodyOf pass.documents anchor.file) m).Quiet
  · rw [visit_of_quiet quiet]
    exact ⟨fun h => ⟨h, quiet⟩, And.left⟩
  · refine ⟨fun h => ?_, fun h => absurd h.2 quiet⟩
    rw [Pass.visit] at h
    have free : ¬ (inspect anchor (bodyOf pass.documents anchor.file) m).blocked.isSome = true :=
      fun h => quiet (inspect_quiet_of_blocked (inspect_blocked.mp h))
    rw [if_neg free] at h
    split at h
    case isTrue lost => exact absurd (List.append_eq_nil_iff.mp h.1).2 lost
    case isFalse found =>
        split at h
        case isTrue same => exact absurd ⟨not_not.mp found, same⟩ quiet
        case isFalse => exact absurd (List.append_eq_nil_iff.mp h.2).2 (List.cons_ne_nil _ _)

/-- A round reports and rewrites nothing exactly if every anchor agrees with its document,
and then it leaves the documents as they are. -/
theorem pass_quiet :
    (anchors.foldl (Pass.visit m) pass).structural = [] ∧
      (anchors.foldl (Pass.visit m) pass).edits = [] ↔
    (pass.structural = [] ∧ pass.edits = []) ∧
      ∀ anchor ∈ anchors, (inspect anchor (bodyOf pass.documents anchor.file) m).Quiet := by
  induction anchors generalizing pass with
  | nil => exact ⟨fun h => ⟨h, nofun⟩, And.left⟩
  | cons anchor anchors ih =>
      rw [List.foldl_cons, ih, visit_quiet, List.forall_mem_cons, and_assoc]
      refine and_congr_right fun _ => and_congr_right fun quiet => ?_
      rw [visit_of_quiet quiet]

theorem pass_of_quiet
    (quiet : ∀ anchor ∈ anchors, (inspect anchor (bodyOf pass.documents anchor.file) m).Quiet) :
    anchors.foldl (Pass.visit m) pass = pass := by
  induction anchors with
  | nil => rfl
  | cons anchor anchors ih =>
      obtain ⟨first, rest⟩ := List.forall_mem_cons.mp quiet
      rw [List.foldl_cons, visit_of_quiet first, ih rest]

theorem visit_structural :
    (pass.visit m anchor).structural ≠ [] ↔ pass.structural ≠ [] ∨
      (inspect anchor (bodyOf pass.documents anchor.file) m).structural ≠ [] := by
  rw [Pass.visit]
  split
  case isTrue blocked =>
      rw [(inspect_quiet_of_blocked (inspect_blocked.mp blocked)).1]
      simp
  case isFalse =>
      split
      case isTrue lost => simp [lost]
      case isFalse found => split <;> simp [not_not.mp found]

/-- A round is refused exactly if an anchor that can be measured is not located. -/
theorem pass_structural :
    (anchors.foldl (Pass.visit m) pass).structural ≠ [] ↔ pass.structural ≠ [] ∨
      ∃ turn ∈ turns m anchors pass, ¬ Blocked turn.1 m ∧ ¬ Located turn.1 turn.2 := by
  induction anchors generalizing pass with
  | nil => simp [turns]
  | cons anchor anchors ih =>
      rw [List.foldl_cons, ih, visit_structural, inspect_structural, turns, or_assoc]
      simp only [List.mem_cons, exists_eq_or_imp]

end Pass

section Files

variable {w : Workspace} {config : Config} {files : Files}

/-- The documents in memory are those on disk when a round begins. -/
theorem bodies_fresh {anchors : List Anchor} {documents : List (JsString × JsString)}
    (reads : bodies w files anchors = .ok documents) :
    ∀ document ∈ documents, files (w.absolute document.1) = some document.2 := by
  have all : ∀ (anchors : List Anchor) (before after : List (JsString × JsString)),
      (∀ document ∈ before, files (w.absolute document.1) = some document.2) →
      anchors.foldlM (fun documents anchor =>
        if (documents.lookup anchor.file).isSome then .ok documents
        else
          match files (w.absolute anchor.file) with
          | some body => .ok (documents ++ [(anchor.file, body)])
          | none => .error (asciiUnits "anchor names " ++ anchor.file ++
              asciiUnits ", which does not exist under the workspace root")) before =
          Except.ok (ε := JsString) after →
      ∀ document ∈ after, files (w.absolute document.1) = some document.2 := by
    intro anchors
    induction anchors with
    | nil =>
        intro before after fresh done
        cases done
        exact fresh
    | cons anchor anchors ih =>
        intro before after fresh done
        rw [List.foldlM_cons] at done
        obtain ⟨next, first, rest⟩ := Except.bind_eq_ok.mp done
        refine ih next after ?_ rest
        split at first
        case isTrue =>
            cases first
            exact fresh
        case isFalse =>
            split at first
            case h_1 body found =>
                cases first
                intro document mem
                rcases List.mem_append.mp mem with old | new
                · exact fresh document old
                · rw [List.mem_singleton.mp new]
                  exact found
            case h_2 => cases first
  exact all anchors [] documents nofun reads

/-- Nothing is written back exactly if memory and disk agree. -/
theorem writeBack_nothing {documents : List (JsString × JsString)} :
    (writeBack w documents files).2 = [] ↔
      ∀ document ∈ documents, files (w.absolute document.1) = some document.2 := by
  induction documents generalizing files with
  | nil => exact ⟨fun _ => nofun, fun _ => rfl⟩
  | cons document documents ih =>
      rw [writeBack, List.forall_mem_cons]
      split
      case isTrue same => exact ih.trans ⟨fun h => ⟨same, h⟩, And.right⟩
      case isFalse differs => exact ⟨nofun, fun h => absurd h.1 differs⟩

theorem writeBack_files {documents : List (JsString × JsString)}
    (same : ∀ document ∈ documents, files (w.absolute document.1) = some document.2) :
    (writeBack w documents files).1 = files := by
  induction documents with
  | nil => rfl
  | cons document documents ih =>
      obtain ⟨first, rest⟩ := List.forall_mem_cons.mp same
      rw [writeBack, if_pos first, ih rest]

/-- Every anchor that can be measured states the values measured. -/
def Settled (w : Workspace) (config : Config) (files : Files) : Prop :=
  ∃ documents, bodies w files config.anchors = .ok documents ∧
    ∀ anchor ∈ config.anchors,
      (inspect anchor (bodyOf documents anchor.file) (measure w files config.probes)).Quiet

/-- The pass a round makes over the documents it has read. -/
def passOver (w : Workspace) (config : Config) (files : Files)
    (documents : List (JsString × JsString)) : Pass :=
  config.anchors.foldl (Pass.visit (measure w files config.probes)) ⟨documents, [], []⟩

theorem attempt_refused {documents : List (JsString × JsString)}
    (reads : bodies w files config.anchors = .ok documents)
    (lost : (passOver w config files documents).structural ≠ []) :
    attempt w config files = .ok ⟨passOver w config files documents, files, []⟩ := by
  rw [attempt, reads]
  exact if_pos lost

theorem attempt_made {documents : List (JsString × JsString)}
    (reads : bodies w files config.anchors = .ok documents)
    (found : (passOver w config files documents).structural = []) :
    attempt w config files = .ok ⟨passOver w config files documents,
      (writeBack w (passOver w config files documents).documents files).1,
      (writeBack w (passOver w config files documents).documents files).2⟩ := by
  rw [attempt, reads]
  exact if_neg (fun h => h found)

/-- A round ends the run without a failure exactly on documents that are settled, and
leaves them as they are. -/
theorem round_converges {n : Nat} {outcome : Outcome} :
    (round w config n files = .error (.ok outcome) ∧ outcome.failures = []) ↔
      Settled w config files ∧ outcome = ⟨files, n, true, []⟩ := by
  cases reads : bodies w files config.anchors with
  | error =>
      rw [Settled, round, attempt, reads]
      refine ⟨fun h => ?_, fun ⟨⟨_, h, _⟩, _⟩ => ?_⟩
      · cases h.1
      · cases h
  | ok documents =>
      have settled : Settled w config files ↔
          (passOver w config files documents).structural = [] ∧
            (passOver w config files documents).edits = [] := by
        rw [passOver, pass_quiet, Settled, reads]
        exact ⟨fun ⟨_, same, quiet⟩ => by cases same; exact ⟨⟨rfl, rfl⟩, quiet⟩,
          fun h => ⟨documents, rfl, h.2⟩⟩
      rw [settled, round]
      by_cases found : (passOver w config files documents).structural = []
      · rw [attempt_made reads found]
        dsimp only
        rw [if_neg (fun h => h found)]
        by_cases still : (passOver w config files documents).edits = []
        · have same : passOver w config files documents = ⟨documents, [], []⟩ :=
            pass_of_quiet (pass_quiet.mp ⟨found, still⟩).2
          rw [if_pos still, same, writeBack_files (bodies_fresh reads)]
          exact ⟨fun ⟨done, _⟩ => by cases done; exact ⟨⟨rfl, rfl⟩, rfl⟩,
            fun ⟨_, done⟩ => by cases done; exact ⟨rfl, rfl⟩⟩
        · rw [if_neg still]
          exact ⟨nofun, fun h => absurd h.1.2 still⟩
      · rw [attempt_refused reads found]
        dsimp only
        rw [if_pos found]
        refine ⟨fun ⟨done, clean⟩ => ?_, fun h => absurd h.1.1 found⟩
        cases done
        exact absurd (List.map_eq_nil_iff.mp clean) found

end Files

/-! ## Writing and then checking -/

/-- Some round of the write run begins with these files. -/
def Begins (w : Workspace) (relative : JsString) (config : Config) (start files : Files) : Prop :=
  validate relative config = .ok () ∧ config.anchors ≠ [] ∧
    ∃ k < config.maxRounds, entered (round w config) k 1 start = some files

/-- The run reports no failure. -/
def Passes (run : Except JsString Report) : Prop :=
  ∃ report, run = .ok report ∧ report.failures = []

/-- A check of the files a successful write run leaves reports no failure. -/
def Establishes (w : Workspace) (relative : JsString) (config : Config) (start : Files) : Prop :=
  ∀ report, write w relative config start = .ok report → report.failures = [] →
    Passes (check w relative config report.files)

/-- No document is written in a round in which some anchor is not located at its turn. -/
def Withholds (w : Workspace) (relative : JsString) (config : Config) (start : Files) : Prop :=
  ∀ files, Begins w relative config start files →
    ∀ documents, bodies w files config.anchors = .ok documents →
      (∃ turn ∈ turns (measure w files config.probes) config.anchors ⟨documents, [], []⟩,
        ¬ Located turn.1 turn.2) →
      ∀ done, attempt w config files = .ok done → done.written = []

/-- Where nothing is left to rewrite, every probe is measured or the check tolerates it. -/
def Tolerated (w : Workspace) (config : Config) (files : Files) : Prop :=
  Settled w config files →
    config.onProbeError = .skip ∨ (measure w files config.probes).unavailable = []

/-- The anchors passed over are located, or another is not, or the round begins with settled
documents. -/
def Observant (w : Workspace) (config : Config) (files : Files) : Prop :=
  ∀ documents, bodies w files config.anchors = .ok documents →
    let m := measure w files config.probes
    let turns := turns m config.anchors ⟨documents, [], []⟩
    (∀ turn ∈ turns, Blocked turn.1 m → Located turn.1 turn.2) ∨
      (∃ turn ∈ turns, ¬ Blocked turn.1 m ∧ ¬ Located turn.1 turn.2) ∨ Settled w config files

section Runs

variable {w : Workspace} {relative : JsString} {config : Config} {start files : Files}

/-- The rounds end without a failure exactly if one begins with settled documents. -/
theorem writeRounds_succeeds_iff :
    (∃ outcome, writeRounds w config start = .ok outcome ∧ outcome.failures = [] ∧
      outcome.files = files) ↔
        (∃ k < config.maxRounds, entered (round w config) k 1 start = some files) ∧
          Settled w config files := by
  have left : ∀ outcome : Outcome, outcome.failures = [] →
      (writeRounds w config start = .ok outcome ↔
        loop (round w config) config.maxRounds 1 start = .error (.ok outcome)) := by
    intro outcome clean
    rw [writeRounds]
    cases loop (round w config) config.maxRounds 1 start with
    | error result => exact ⟨congrArg Except.error, Except.error.inj⟩
    | ok files =>
        refine ⟨fun h => ?_, nofun⟩
        cases h
        cases clean
  constructor
  · rintro ⟨outcome, run, clean, rfl⟩
    obtain ⟨k, less, t, begins, leaves⟩ := loop_eq_error.mp ((left outcome clean).mp run)
    obtain ⟨settled, rfl⟩ := round_converges.mp ⟨leaves, clean⟩
    exact ⟨⟨k, less, begins⟩, settled⟩
  · rintro ⟨⟨k, less, begins⟩, settled⟩
    have leaves := (round_converges (n := 1 + k)).mpr ⟨settled, rfl⟩
    exact ⟨_, (left _ rfl).mpr (loop_eq_error.mpr ⟨k, less, files, begins, leaves.1⟩), rfl, rfl⟩

/-- A write run succeeds exactly if a round begins with settled documents, and these are
what it leaves. -/
theorem write_succeeds_iff (used : config.anchors ≠ []) :
    (∃ report, write w relative config start = .ok report ∧ report.failures = [] ∧
      report.files = files) ↔
        Begins w relative config start files ∧ Settled w config files := by
  rw [write, Begins]
  cases valid : validate relative config with
  | error =>
      refine ⟨fun ⟨_, h, _⟩ => ?_, fun ⟨⟨h, _⟩, _⟩ => ?_⟩
      · cases h
      · cases h
  | ok =>
      dsimp only
      rw [if_neg used]
      constructor
      · rintro ⟨report, run, clean, same⟩
        obtain ⟨outcome, rounds, rfl⟩ := Except.map_eq_ok.mp run
        obtain ⟨begins, settled⟩ := writeRounds_succeeds_iff.mp ⟨outcome, rounds, clean, same⟩
        exact ⟨⟨rfl, used, begins⟩, settled⟩
      · rintro ⟨⟨-, -, begins⟩, settled⟩
        obtain ⟨outcome, rounds, clean, same⟩ := writeRounds_succeeds_iff.mpr ⟨begins, settled⟩
        exact ⟨_, Except.map_eq_ok.mpr ⟨outcome, rounds, rfl⟩, clean, same⟩

/-- A check of settled documents reports the probes that cannot be measured and nothing else. -/
theorem check_settled_iff (valid : validate relative config = .ok ())
    (used : config.anchors ≠ []) (settled : Settled w config files) :
    Passes (check w relative config files) ↔
      config.onProbeError = .skip ∨ (measure w files config.probes).unavailable = [] := by
  obtain ⟨documents, reads, quiet⟩ := settled
  have clean : ∃ checked, checkOnce w files config.anchors (measure w files config.probes) =
      .ok checked ∧ checked.failures = [] := by
    rw [checkOnce, reads]
    refine ⟨_, rfl, List.flatMap_eq_nil_iff.mpr ?_⟩
    rintro ⟨anchor, result⟩ mem
    obtain ⟨anchor', used, same⟩ := List.mem_map.mp (List.mem_of_mem_filter mem)
    cases same
    dsimp only
    rw [(quiet anchor used).1, (quiet anchor used).2]
    rfl
  obtain ⟨checked, once, none⟩ := clean
  have reported : Passes (check w relative config files) ↔
      (if config.onProbeError = .fail then unmeasured (measure w files config.probes) else []) =
        [] := by
    rw [check, valid, Passes]
    dsimp only
    rw [if_neg used, once]
    constructor
    · rintro ⟨report, run, empty⟩
      cases run
      exact (List.append_eq_nil_iff.mp empty).1
    · exact fun empty => ⟨_, rfl, List.append_eq_nil_iff.mpr ⟨empty, none⟩⟩
  have all : unmeasured (measure w files config.probes) = [] ↔
      (measure w files config.probes).unavailable = [] := by
    rw [unmeasured, List.map_eq_nil_iff, ← List.length_eq_zero_iff, JsValue.sortKeys,
      List.length_insertionSort, List.length_map, List.length_eq_zero_iff]
  rw [reported]
  cases config.onProbeError with
  | fail => exact all.trans ⟨.inr, fun h => h.resolve_left nofun⟩
  | skip => exact ⟨fun _ => .inl rfl, fun _ => rfl⟩

/-- A round that begins with settled documents makes no change. -/
theorem passOver_settled {documents : List (JsString × JsString)}
    (reads : bodies w files config.anchors = .ok documents) (settled : Settled w config files) :
    passOver w config files documents = ⟨documents, [], []⟩ := by
  obtain ⟨_, same, quiet⟩ := settled
  cases reads.symm.trans same
  exact pass_of_quiet quiet

/-- An observant round withholds its documents. -/
theorem withholds_of_observant {documents : List (JsString × JsString)}
    (observant : Observant w config files) (reads : bodies w files config.anchors = .ok documents)
    (misplaced : ∃ turn ∈ turns (measure w files config.probes) config.anchors ⟨documents, [], []⟩,
      ¬ Located turn.1 turn.2) {done : Attempt} (made : attempt w config files = .ok done) :
    done.written = [] := by
  have refused : (passOver w config files documents).structural ≠ [] ↔
      ∃ turn ∈ turns (measure w files config.probes) config.anchors ⟨documents, [], []⟩,
        ¬ Blocked turn.1 (measure w files config.probes) ∧ ¬ Located turn.1 turn.2 := by
    rw [passOver, pass_structural]
    exact ⟨fun h => h.resolve_left (fun h => h rfl), .inr⟩
  by_cases lost : (passOver w config files documents).structural ≠ []
  · rw [attempt_refused reads lost] at made
    cases made
    rfl
  · rw [attempt_made reads (not_not.mp lost)] at made
    cases made
    obtain ⟨turn, mem, astray⟩ := misplaced
    obtain located | other | settled := observant documents reads
    · have blocked : Blocked turn.1 (measure w files config.probes) :=
        by_contra fun free => lost (refused.mpr ⟨turn, mem, free, astray⟩)
      exact absurd (located turn mem blocked) astray
    · exact absurd (refused.mpr other) lost
    · rw [passOver_settled reads settled]
      exact writeBack_nothing.mpr (bodies_fresh reads)

theorem establishes_iff :
    Establishes w relative config start ↔
      ∀ files, Begins w relative config start files → Tolerated w config files := by
  by_cases used : config.anchors = []
  · refine ⟨fun _ files begins => absurd used begins.2.1, fun _ report run _ => ?_⟩
    rw [write] at run
    cases valid : validate relative config with
    | error => rw [valid] at run; cases run
    | ok =>
        refine ⟨⟨[], report.files⟩, ?_, rfl⟩
        rw [check, valid]
        exact if_pos used
  · constructor
    · intro establishes files begins settled
      obtain ⟨report, run, clean, rfl⟩ := (write_succeeds_iff used).mpr ⟨begins, settled⟩
      exact (check_settled_iff begins.1 used settled).mp (establishes report run clean)
    · intro tolerated report run clean
      obtain ⟨begins, settled⟩ := (write_succeeds_iff used).mp ⟨report, run, clean, rfl⟩
      exact (check_settled_iff begins.1 used settled).mpr (tolerated _ begins settled)

/-- Writing establishes what checking tests exactly in the runs whose rounds all begin with files
on which unmeasured probes are tolerated once nothing is left to rewrite, and it withholds its
documents in a round that cannot find its anchors in the runs whose rounds are all observant. -/
theorem write_establishes_check (w : Workspace) (relative : JsString) (config : Config)
    (start : Files) :
    (Establishes w relative config start ↔
      ∀ files, Begins w relative config start files → Tolerated w config files) ∧
    ((∀ files, Begins w relative config start files → Observant w config files) →
      Withholds w relative config start) :=
  ⟨establishes_iff, fun observant files begins _ reads misplaced _ made =>
    withholds_of_observant (observant files begins) reads misplaced made⟩

end Runs

/-- A document with one number, and a command that fails. -/
theorem failing_probe_not_established :
    ¬ ∀ (w : Workspace) (relative : JsString) (config : Config) (start : Files),
      Establishes w relative config start ∧ Withholds w relative config start := by
  intro claim
  let w : Workspace :=
    { absolute := id, spawn := fun _ _ => .exited (some 1) [], firstGroup := fun _ _ => none }
  let config : Config :=
    { probes := [⟨asciiUnits "p", [asciiUnits "false"], none⟩]
      anchors := [⟨asciiUnits "a.md", asciiUnits "n=\x7bp\x7d", none⟩]
      onProbeError := .fail
      maxWriteRounds := none }
  let start : Files := fun file =>
    if file = asciiUnits "a.md" then some (asciiUnits "n=1") else none
  obtain ⟨report, run, clean⟩ := (claim w [] config start).1 ⟨[], start⟩ (by rfl) rfl
  have fails : ∀ report, check w [] config start = .ok report → report.failures ≠ [] := by
    intro report run
    cases run
    decide
  exact fails report run clean

end Mathmodel.DocFacts
