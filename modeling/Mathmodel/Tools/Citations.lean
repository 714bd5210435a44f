import Mathmodel.Library.Outcome
import Mathmodel.Tools.Kit
import Mathmodel.Tools.Markdown

/-!
# References of a specification

A path in a code span has to resolve, and a line number behind it is part of what the
document says: the line has to be there, and where the sentence states what stands on
it, it has to stand there. A line number about which nothing can be shown is counted
apart from those that were verified.
-/

namespace Mathmodel.Citations

/-! ## What counts as a path -/

/-- `/:(\d+)(?:-(\d+))?$/` -/
def lineSuffix : Pattern Nat := (RegExp.read (asciiUnits ":(\\d+)(?:-(\\d+))?$")).get (by decide)

def proseMark : Pattern Nat :=
  (RegExp.read (asciiUnits "[\\s`|()\x7b\x7d[\\]=\"',;#$!?%&\\\\]")).get (by decide)

def ratio : Pattern Nat := (RegExp.read (asciiUnits "^\\d+\\/\\d+$")).get (by decide)

def packageVersion : Pattern Nat := (RegExp.read (asciiUnits "@\\d")).get (by decide)

def scopedPackage : Pattern Nat :=
  (RegExp.read (asciiUnits "^@[A-Za-z0-9-]+\\/[A-Za-z0-9._-]+$")).get (by decide)

/-- `/^\d+(\.\d+)+$/` -/
def isVersion (raw : JsString) : Bool :=
  let parts := raw.splitOn 0x2e
  decide (2 ≤ parts.length) && parts.all fun part => !part.isEmpty && part.all RegExp.isDigit

inductive Disposition where
  | placeholder
  | prose
  | absolute
  | homeRelative
  | moduleSpecifier
  | version
  | ratio
  | packageSpec
  | extensionOrDotfile
  | bareWord
  | identifier
  | path
deriving DecidableEq

def startsWith (text : JsString) (start : String) : Bool := (asciiUnits start).isPrefixOf text

/-- `raw.replace(/\/+$/, "")` -/
def withoutSlashes (raw : JsString) : JsString := (raw.reverse.dropWhile (· == 0x2f)).reverse

/-- `raw.replace(LINE_SUFFIX, "").replace(/\/+$/, "")` -/
def pathPart (raw : JsString) : JsString :=
  withoutSlashes (match lineSuffix.search raw with
    | some found => found.before ++ found.after
    | none => raw)

/-- What stands behind the last dot. -/
def extension (path : JsString) : JsString := (path.reverse.takeWhile (· ≠ 0x2e)).reverse

/-- What the gate has of the machine it runs on: the files below the workspace root
under the names the documents use, and the conversion of letters to lower case. -/
structure Root where
  fileExists : JsString → Bool
  text : JsString → Option JsString
  tree : JsString → List JsString
  toLowerCase : JsString → JsString

def classify (root : Root) (raw : JsString) (extensions : List JsString) : Disposition :=
  if raw.elem 0x3c || raw.elem 0x3e then .placeholder
  else if proseMark.test raw then .prose
  else if startsWith raw "/" then .absolute
  else if startsWith raw "~" then .homeRelative
  else if startsWith raw "./" || startsWith raw "../" then .moduleSpecifier
  else if startsWith raw "node:" then .moduleSpecifier
  else if isVersion raw then .version
  else if ratio.test raw then .ratio
  else if packageVersion.test raw then .packageSpec
  else if scopedPackage.test raw then .packageSpec
  else
    let withoutLine := pathPart raw
    if withoutLine.isEmpty then .prose
    else if withoutLine.elem 0x2f then .path
    else if startsWith withoutLine "." || startsWith withoutLine "-" then .extensionOrDotfile
    else if !withoutLine.elem 0x2e then .bareWord
    else if extensions.elem (root.toLowerCase (extension withoutLine)) then .path
    else .identifier

/-! ## Where a path leads -/

structure Resolution where
  resolved : Option JsString
  how : JsString
  glob : Bool

def resolveLiteral (root : Root) (reference documentDirectory : JsString)
    (resolveRoots : List JsString) : Resolution :=
  if root.fileExists reference then ⟨some reference, asciiUnits "root", false⟩
  else
    let beside := if documentDirectory = asciiUnits "." then reference
      else documentDirectory ++ asciiUnits "/" ++ reference
    if root.fileExists beside then ⟨some beside, asciiUnits "beside-document", false⟩
    else
      let candidate (base : JsString) :=
        if base.isEmpty then reference else base ++ asciiUnits "/" ++ reference
      match resolveRoots.find? fun base => root.fileExists (candidate base) with
      | some base => ⟨some (candidate base),
          asciiUnits "resolve-root " ++ (if base.isEmpty then asciiUnits "." else base), false⟩
      | none => ⟨none, [], false⟩

/-- A glob is looked up by its longest directory in front of the first star. There is no
star in that directory. -/
def resolvePath (root : Root) (reference documentDirectory : JsString)
    (resolveRoots : List JsString) : Resolution :=
  if reference.elem 0x2a then
    let literal := reference.takeWhile (· ≠ 0x2a)
    let directory := ((literal.reverse.dropWhile (· ≠ 0x2f)).drop 1).reverse
    if directory.isEmpty then ⟨none, [], true⟩
    else resolveLiteral root directory documentDirectory resolveRoots
  else resolveLiteral root reference documentDirectory resolveRoots

/-! ## What the sentence says about the line -/

inductive UnverifiedPolicy where
  | report
  | fail
deriving DecidableEq

/-- The settings, the regular expressions of the configuration being given by what they
find: `quotes` are the successive matches in a line by index, with group 1 or else the
match, and `identifiers` are the matches. A pattern for quotations that matches the empty text
is outside: the search for the next match then stays where it is and does not end. -/
structure Settings where
  documentRoots : List JsString
  extraDocuments : List JsString
  resolveRoots : List JsString
  extensions : List JsString
  ignoreGlobs : List JsString
  prescriptive : Option (JsString → Bool)
  quotes : Option (JsString → List (Nat × JsString))
  identifiers : Option (JsString → List JsString)
  claimWindow : Nat
  unverifiedPolicy : UnverifiedPolicy

inductive Claim where
  | quote (text : JsString)
  | identifier (first : JsString) (rest : List JsString)

def Claim.kind : Claim → JsString
  | quote _ => asciiUnits "quote"
  | identifier _ _ => asciiUnits "identifier"

def Claim.text : Claim → JsString
  | quote text => text
  | identifier first _ => first

def Claim.wanted : Claim → List JsString
  | quote text => [text]
  | identifier first rest => first :: rest

def claimFor (line : JsString) (span : Markdown.Span) (settings : Settings) : Option Claim :=
  let near := (settings.quotes.map (· line)).getD [] |>.find? fun (index, _) =>
    decide (span.stop ≤ index ∧ index - span.stop ≤ settings.claimWindow)
  match near with
  | some (_, text) => some (.quote text)
  | none =>
      match (settings.identifiers.map (· line)).getD [] with
      | first :: rest => some (.identifier first rest)
      | [] => none

/-! ## One reference -/

structure Reference where
  document : JsString
  number : Nat
  line : JsString
  span : Markdown.Span

def Reference.raw (ref : Reference) : JsString := ref.span.text

/-- What is found about a line number. -/
inductive Verdict where
  | outOfRange (targetLine lines : Nat)
  | unverified
  | verified
  | moved (targetLine : Nat) (claim : Claim) (elsewhere : List (JsString × Nat))
  | gone (claim : Claim)

/-- What is found about a code span. -/
inductive Finding where
  | skipped (disposition : Disposition)
  | ignored
  | glob
  | prescriptive
  | unresolved
  | plain (resolved how : JsString)
  | cited (resolved how : JsString) (verdict : Verdict)

/-- `Number(digits)` -/
def number (digits : JsString) : Nat := digits.foldl (fun n c => 10 * n + (c - 48)) 0

/-- The lines a reference names, the first and the last of a range. -/
def lineMatch (raw : JsString) : Option (Nat × Option Nat) :=
  (lineSuffix.search raw).map fun found =>
    (number ((found.captures.head?.join).getD []), (found.captures[1]?.join).map number)

def includes (line needle : JsString) : Bool := decide (needle <:+: line)

def judgeLine (settings : Settings) (lines : List JsString) (ref : Reference)
    (targetLine : Nat) : Verdict :=
  if targetLine < 1 ∨ lines.length < targetLine then .outOfRange targetLine lines.length
  else
    match claimFor ref.line ref.span settings with
    | none => .unverified
    | some claim =>
        if claim.wanted.any fun needle => includes (lines.getD (targetLine - 1) []) needle then
          .verified
        else
          let elsewhere := claim.wanted.filterMap fun needle =>
            (lines.findIdx? fun line => includes line needle).map fun index => (needle, index + 1)
          if elsewhere.isEmpty then .gone claim else .moved targetLine claim elsewhere

def directoryOf (document : JsString) : JsString :=
  if document.elem 0x2f then ((document.reverse.dropWhile (· ≠ 0x2f)).drop 1).reverse
  else asciiUnits "."

/-- The body of the loop over code spans, `linesOf` being the lines of a target. -/
def examine (root : Root) (settings : Settings)
    (linesOf : JsString → Except JsString (List JsString)) (ref : Reference) :
    Except JsString Finding :=
  let disposition := classify root ref.raw settings.extensions
  if disposition ≠ .path then .ok (.skipped disposition)
  else if Kit.matchesAny (pathPart ref.raw) settings.ignoreGlobs then .ok .ignored
  else
    let resolution :=
      resolvePath root (pathPart ref.raw) (directoryOf ref.document) settings.resolveRoots
    if resolution.glob then .ok .glob
    else
      match resolution.resolved with
      | none =>
          match settings.prescriptive with
          | some test => .ok (if test ref.line then .prescriptive else .unresolved)
          | none => .ok .unresolved
      | some resolved =>
          match lineMatch ref.raw with
          | none => .ok (.plain resolved resolution.how)
          | some (targetLine, _) =>
              match linesOf resolved with
              | .error message => .error message
              | .ok lines =>
                  .ok (.cited resolved resolution.how (judgeLine settings lines ref targetLine))

/-! ## Reporting -/

inductive FailureCode where
  | B1
  | B2
  | B3
  | B4
  | B5
deriving DecidableEq

structure Failure where
  code : FailureCode
  message : JsString

def Reference.location (ref : Reference) : JsString :=
  ref.document ++ asciiUnits ":" ++ asciiUnits (toString ref.number)

def quotedRaw (ref : Reference) : JsString := asciiUnits "`" ++ ref.raw ++ asciiUnits "`"

def unverifiedMessage (settings : Settings) (ref : Reference) : JsString :=
  ref.location ++ asciiUnits ": " ++ quotedRaw ref ++ asciiUnits
    (" names a line number, but the citing sentence states nothing that can be found at " ++
      "that line (no quotation within ") ++ asciiUnits (toString settings.claimWindow) ++
    asciiUnits (" characters, no stable identifier). The path resolves; the line number " ++
      "is UNVERIFIED")

/-- The failure reported for a finding. -/
def Finding.failure (settings : Settings) (ref : Reference) : Finding → Option Failure
  | unresolved => some ⟨.B1, ref.location ++ asciiUnits ": referenced path " ++ quotedRaw ref ++
      asciiUnits " resolves to nothing; the document links to a file that does not exist"⟩
  | cited resolved _ (.outOfRange targetLine lines) =>
      some ⟨.B2, ref.location ++ asciiUnits ": " ++ quotedRaw ref ++ asciiUnits
        " points at line " ++ asciiUnits (toString targetLine) ++ asciiUnits ", but " ++
        resolved ++ asciiUnits " has " ++ asciiUnits (toString lines) ++
        asciiUnits " line(s). The citation outlived the lines it cited"⟩
  | cited _ _ .unverified =>
      if settings.unverifiedPolicy = .fail then some ⟨.B5, unverifiedMessage settings ref⟩
      else none
  | cited resolved _ (.moved targetLine claim elsewhere) =>
      some ⟨.B3, ref.location ++ asciiUnits ": " ++ quotedRaw ref ++ asciiUnits
        " points at line " ++ asciiUnits (toString targetLine) ++ asciiUnits ", but the " ++
        claim.kind ++ asciiUnits " it cites is at a different line - " ++
        (asciiUnits ", ").intercalate (elsewhere.map fun (needle, line) =>
          needle ++ asciiUnits " at " ++ resolved ++ asciiUnits ":" ++
            asciiUnits (toString line)) ++
        asciiUnits ". Update the line number in the citing document"⟩
  | cited resolved _ (.gone claim) =>
      some ⟨.B4, ref.location ++ asciiUnits ": " ++ quotedRaw ref ++ asciiUnits " cites " ++
        claim.kind ++ asciiUnits " " ++ JsString.quoted claim.text ++
        asciiUnits ", which appears nowhere in " ++ resolved ++ asciiUnits
          ". Either the citation is wrong or the cited content was deleted"⟩
  | _ => none

/-- The warning reported for a finding. -/
def Finding.warning (settings : Settings) (ref : Reference) : Finding → Option Failure
  | cited _ _ .unverified =>
      if settings.unverifiedPolicy = .fail then none
      else some ⟨.B5, unverifiedMessage settings ref⟩
  | _ => none

structure Stats where
  references : Nat
  withLine : Nat
  verified : Nat
  unverified : Nat
  prescriptive : Nat
  ignored : Nat
  globs : Nat

structure State where
  skipped : Disposition → Nat
  targets : List (JsString × List JsString)
  stats : Stats
  printed : List JsString
  failures : List Failure
  warnings : List Failure

def State.start : State := ⟨fun _ => 0, [], ⟨0, 0, 0, 0, 0, 0, 0⟩, [], [], []⟩

/-- The counters behind a finding. -/
def Stats.count (stats : Stats) : Finding → Stats
  | .skipped _ => stats
  | .ignored => { stats with references := stats.references + 1, ignored := stats.ignored + 1 }
  | .glob => { stats with references := stats.references + 1, globs := stats.globs + 1 }
  | .prescriptive =>
      { stats with references := stats.references + 1, prescriptive := stats.prescriptive + 1 }
  | .unresolved | .plain _ _ => { stats with references := stats.references + 1 }
  | .cited _ _ verdict =>
      { stats with
        references := stats.references + 1
        withLine := stats.withLine + 1
        verified := stats.verified + match verdict with | .verified => 1 | _ => 0
        unverified := stats.unverified + match verdict with | .unverified => 1 | _ => 0 }

def Finding.printed (ref : Reference) : Finding → List JsString
  | plain resolved how | cited resolved how _ =>
      [ref.location ++ asciiUnits " -> " ++ resolved ++ asciiUnits " (" ++ how ++ asciiUnits ")"]
  | _ => []

def State.tally (settings : Settings) (ref : Reference) (finding : Finding) (state : State) :
    State :=
  { state with
    skipped := match finding with
      | .skipped disposition =>
          Function.update state.skipped disposition (state.skipped disposition + 1)
      | _ => state.skipped
    stats := state.stats.count finding
    printed := state.printed ++ finding.printed ref
    failures := state.failures ++ (finding.failure settings ref).toList
    warnings := state.warnings ++ (finding.warning settings ref).toList }

/-! ## The whole set of documents -/

def readText (root : Root) (relative : JsString) : Except JsString JsString :=
  match root.text relative with
  | some text => .ok text
  | none => .error (asciiUnits "cannot read " ++ relative)

def readLines (root : Root) (resolved : JsString) : Except JsString (List JsString) :=
  (readText root resolved).map fun text => text.splitOn 0x0a

/-- The lines of a target, read once. -/
def cachedLines (root : Root) (targets : List (JsString × List JsString)) (resolved : JsString) :
    Except JsString (List JsString) :=
  match targets.lookup resolved with
  | some lines => .ok lines
  | none => readLines root resolved

/-- The targets read so far behind a finding. -/
def remember (root : Root) (targets : List (JsString × List JsString)) :
    Finding → List (JsString × List JsString)
  | .cited resolved _ _ =>
      if (targets.lookup resolved).isSome then targets
      else
        match readLines root resolved with
        | .ok lines => targets ++ [(resolved, lines)]
        | .error _ => targets
  | _ => targets

def visit (root : Root) (settings : Settings) (state : State) (ref : Reference) :
    Except JsString State :=
  (examine root settings (cachedLines root state.targets) ref).map fun finding =>
    { state.tally settings ref finding with targets := remember root state.targets finding }

def referencesIn (document text : JsString) : List Reference :=
  ((Markdown.scanDocument text).filter fun record => !record.inFence).flatMap fun record =>
    (Markdown.codeSpans record.text).map fun span => ⟨document, record.number, record.text, span⟩

/-- The documents below the roots and the extra ones, each once and in order. -/
def collectDocuments (root : Root) (settings : Settings) : List JsString :=
  let suffix := asciiUnits ".md"
  let found := settings.documentRoots.flatMap (fun relative =>
      (root.tree relative).filter fun file => suffix.isSuffixOf file) ++
    settings.extraDocuments.filter root.fileExists
  JsValue.sortKeys found.dedup

def checkDocument (root : Root) (settings : Settings) (state : State) (document : JsString) :
    Except JsString State :=
  readText root document >>= fun text =>
    (referencesIn document text).foldlM (visit root settings) state

def checkPathReferences (root : Root) (settings : Settings) : Except JsString State :=
  (collectDocuments root settings).foldlM (checkDocument root settings) .start

/-! ## What the run is about -/

/-- The references of all documents, in the order in which they are visited. -/
def references (root : Root) (settings : Settings) : List Reference :=
  (collectDocuments root settings).flatMap fun document =>
    ((root.text document).map (referencesIn document)).getD []

/-- What is found about a reference, looking at the target itself. -/
def judge (root : Root) (settings : Settings) (ref : Reference) : Except JsString Finding :=
  examine root settings (readLines root) ref

def Finding.verdict : Finding → Option Verdict
  | cited _ _ verdict => some verdict
  | _ => none

/-- What a line number is counted as. -/
inductive Counting where
  | verified
  | unverified
  | failure
deriving DecidableEq

def Verdict.counting : Verdict → Counting
  | verified => .verified
  | unverified => .unverified
  | outOfRange _ _ | moved _ _ _ | gone _ => .failure

/-- Codes of the failures about a line number, but for the one that repeats an unverified
line number. -/
def FailureCode.aboutLine : FailureCode → Bool
  | B2 | B3 | B4 => true
  | B1 | B5 => false

def Finding.countedAs (finding : Finding) (counting : Counting) : Bool :=
  finding.verdict.map Verdict.counting = some counting

/-- Every finding about a line number is in one of the counters, and every counter is the
number of its findings. -/
structure Counted (state : State) (findings : List (Reference × Finding)) : Prop where
  withLine : state.stats.withLine = findings.countP fun f => f.2.verdict.isSome
  verified : state.stats.verified = findings.countP fun f => f.2.countedAs .verified
  unverified : state.stats.unverified = findings.countP fun f => f.2.countedAs .unverified
  failed : state.failures.countP (·.code.aboutLine) =
    findings.countP fun f => f.2.countedAs .failure

variable {root : Root} {settings : Settings} {state : State}

theorem Counted.start : Counted .start [] := ⟨rfl, rfl, rfl, rfl⟩

theorem Counted.tally {findings : List (Reference × Finding)} (h : Counted state findings)
    (ref : Reference) (finding : Finding) (targets : List (JsString × List JsString)) :
    Counted { state.tally settings ref finding with targets := targets }
      (findings ++ [(ref, finding)]) := by
  obtain ⟨withLine, verified, unverified, failed⟩ := h
  constructor
  all_goals
    simp only [State.tally, List.countP_append, List.countP_singleton]
    first | rw [← withLine] | rw [← verified] | rw [← unverified] | rw [← failed]
  · rcases finding with _ | _ | _ | _ | _ | _ | ⟨_, _, _ | _ | _ | _ | _⟩ <;> rfl
  · rcases finding with _ | _ | _ | _ | _ | _ | ⟨_, _, _ | _ | _ | _ | _⟩ <;> rfl
  · rcases finding with _ | _ | _ | _ | _ | _ | ⟨_, _, _ | _ | _ | _ | _⟩ <;> rfl
  · congr 1
    rcases finding with _ | _ | _ | _ | _ | _ | ⟨_, _, _ | _ | _ | _ | _⟩
    case unverified =>
      rw [Finding.failure]
      split <;> rfl
    all_goals rfl

/-- A line number is counted once. -/
theorem Counted.once {findings : List (Reference × Finding)} (h : Counted state findings) :
    state.stats.withLine = state.stats.verified + state.stats.unverified +
      state.failures.countP (·.code.aboutLine) := by
  rw [h.withLine, h.verified, h.unverified, h.failed]
  clear h
  induction findings with
  | nil => rfl
  | cons f findings ih =>
      simp only [List.countP_cons, ih]
      rcases f with ⟨_, _ | _ | _ | _ | _ | _ | ⟨_, _, _ | _ | _ | _ | _⟩⟩ <;>
        simp [Finding.verdict, Finding.countedAs, Verdict.counting] <;> omega

/-- The targets remembered are the targets as they are. -/
def Coherent (root : Root) (targets : List (JsString × List JsString)) : Prop :=
  ∀ resolved lines, targets.lookup resolved = some lines → readLines root resolved = .ok lines

theorem Coherent.cachedLines {targets : List (JsString × List JsString)}
    (h : Coherent root targets) : cachedLines root targets = readLines root := by
  funext resolved
  rw [Citations.cachedLines]
  split
  case h_1 lines found => exact (h resolved lines found).symm
  case h_2 => rfl

theorem Coherent.remember {targets : List (JsString × List JsString)}
    (h : Coherent root targets) (finding : Finding) :
    Coherent root (remember root targets finding) := by
  cases finding with
  | cited resolved how verdict =>
      rw [Citations.remember]
      split
      case isTrue => exact h
      case isFalse =>
          split
          case h_2 => exact h
          case h_1 lines read =>
              intro other lines' found
              rw [List.lookup_append, Option.or_eq_some_iff] at found
              rcases found with old | ⟨-, new⟩
              · exact h other lines' old
              · rw [List.lookup_cons] at new
                split at new
                case h_1 same =>
                    cases new
                    rwa [eq_of_beq same]
                case h_2 => cases new
  | _ => exact h

/-- A state in the course of a run: what has been remembered and counted is right. -/
structure Follows (root : Root) (settings : Settings) (state : State)
    (findings : List (Reference × Finding)) : Prop where
  coherent : Coherent root state.targets
  counted : Counted state findings
  judged : ∀ f ∈ findings, judge root settings f.1 = .ok f.2

/-- One more reference is judged, on the target itself. -/
theorem Follows.visit {state' : State} {ref : Reference} {findings : List (Reference × Finding)}
    (h : Follows root settings state findings)
    (step : visit root settings state ref = .ok state') :
    ∃ finding, Follows root settings state' (findings ++ [(ref, finding)]) := by
  obtain ⟨finding, seen, rfl⟩ := Except.map_eq_ok.mp step
  rw [h.coherent.cachedLines] at seen
  refine ⟨finding, h.coherent.remember finding, h.counted.tally ref finding _, ?_⟩
  rw [List.forall_mem_append]
  exact ⟨h.judged, List.forall_mem_singleton.mpr seen⟩

theorem Follows.visits {state' : State} {refs : List Reference}
    {findings : List (Reference × Finding)} (h : Follows root settings state findings)
    (run : refs.foldlM (Citations.visit root settings) state = .ok state') :
    ∃ more, more.map Prod.fst = refs ∧ Follows root settings state' (findings ++ more) := by
  induction refs generalizing state findings with
  | nil =>
      cases run
      exact ⟨[], rfl, by rwa [List.append_nil]⟩
  | cons ref refs ih =>
      rw [List.foldlM_cons] at run
      obtain ⟨middle, first, rest⟩ := Except.bind_eq_ok.mp run
      obtain ⟨finding, here⟩ := h.visit first
      obtain ⟨more, same, last⟩ := ih here rest
      refine ⟨(ref, finding) :: more, congrArg (ref :: ·) same, ?_⟩
      rwa [List.append_assoc] at last

/-- The documents are gone through one after the other, all their references in order. -/
theorem Follows.documents {state' : State} {documents : List JsString}
    {findings : List (Reference × Finding)} (h : Follows root settings state findings)
    (run : documents.foldlM (checkDocument root settings) state = .ok state') :
    ∃ more, more.map Prod.fst = (documents.flatMap fun document =>
      ((root.text document).map (referencesIn document)).getD []) ∧
        Follows root settings state' (findings ++ more) := by
  induction documents generalizing state findings with
  | nil =>
      cases run
      exact ⟨[], rfl, by rwa [List.append_nil]⟩
  | cons document documents ih =>
      rw [List.foldlM_cons] at run
      obtain ⟨middle, first, rest⟩ := Except.bind_eq_ok.mp run
      obtain ⟨text, read, visited⟩ := Except.bind_eq_ok.mp first
      obtain ⟨here, same, next⟩ := h.visits visited
      obtain ⟨more, others, last⟩ := ih next rest
      refine ⟨here ++ more, ?_, by rwa [List.append_assoc] at last⟩
      rw [List.map_append, same, others, List.flatMap_cons]
      rw [readText] at read
      split at read
      case h_1 found =>
          cases read
          rw [found]
          rfl
      case h_2 => cases read

/-- A run that ends has judged every reference and counted what it found. -/
theorem run_follows (run : checkPathReferences root settings = .ok state) :
    ∃ findings, findings.map Prod.fst = references root settings ∧
      Follows root settings state findings := by
  have start : Follows root settings .start [] := ⟨nofun, .start, nofun⟩
  obtain ⟨more, same, follows⟩ := start.documents run
  exact ⟨more, same, follows⟩

/-! ## Accepted line numbers -/

/-- Lines of a text. What stands behind a final newline is no line. -/
def lineCount (text : JsString) : Nat :=
  if (text.splitOn 0x0a).getLast? = some [] then (text.splitOn 0x0a).length - 1
  else (text.splitOn 0x0a).length

/-- The lines cited are lines of the target, the range not running backwards. -/
def Stands (text : JsString) (first : Nat) (last : Option Nat) : Prop :=
  1 ≤ first ∧ (∀ l ∈ last, first ≤ l) ∧ last.getD first ≤ lineCount text

/-- The gate has a reason of its own to refuse the line: it does not exist even if what
stands behind a final newline is counted, or nothing is said about it and the policy is
to fail, or what is said about it is not found there. -/
def Refused (settings : Settings) (ref : Reference) (text : JsString) (first : Nat) : Prop :=
  first < 1 ∨ (text.splitOn 0x0a).length < first ∨
    (claimFor ref.line ref.span settings = none ∧ settings.unverifiedPolicy = .fail) ∨
    ∃ claim, claimFor ref.line ref.span settings = some claim ∧
      ∀ needle ∈ claim.wanted,
        includes ((text.splitOn 0x0a).getD (first - 1) []) needle = false

/-- What the gate does not look at: that the line cited is the empty rest behind a final
newline, and where a range ends. -/
def Overlooked (text : JsString) (first : Nat) (last : Option Nat) : Prop :=
  (first = (text.splitOn 0x0a).length ∧ (text.splitOn 0x0a).getLast? = some []) ∨
    ∃ l ∈ last, l < first ∨ lineCount text < l

/-- No failure is reported for a line exactly if there is no reason to refuse it. -/
theorem accepted_iff {ref : Reference} {text resolved how : JsString} {first : Nat} :
    (Finding.cited resolved how
      (judgeLine settings (text.splitOn 0x0a) ref first)).failure settings ref = none ↔
        ¬ Refused settings ref text first := by
  rw [Refused, ← or_assoc, judgeLine]
  by_cases outside : first < 1 ∨ (text.splitOn 0x0a).length < first
  · rw [if_pos outside]
    exact ⟨nofun, fun h => absurd (.inl outside) h⟩
  · rw [if_neg outside, or_iff_right outside]
    cases said : claimFor ref.line ref.span settings with
    | none =>
        have open_ : ¬ ∃ claim : Claim, none = some claim ∧ ∀ needle ∈ claim.wanted,
            includes ((text.splitOn 0x0a).getD (first - 1) []) needle = false := nofun
        rw [or_iff_left open_]
        dsimp only [Finding.failure]
        split
        case isTrue policy => exact ⟨nofun, fun h => absurd ⟨rfl, policy⟩ h⟩
        case isFalse policy => exact ⟨fun _ h => policy h.2, fun _ => rfl⟩
    | some claim =>
        dsimp only
        split
        case isTrue here =>
            refine ⟨fun _ h => ?_, fun _ => rfl⟩
            obtain ⟨needle, mem, found⟩ := List.any_eq_true.mp here
            rcases h with ⟨nothing, -⟩ | ⟨claim', same, missing⟩
            · cases nothing
            · cases same
              rw [missing needle mem] at found
              cases found
        case isFalse missing =>
            refine ⟨fun h => ?_, fun h => absurd (.inr ⟨claim, rfl, fun needle mem => ?_⟩) h⟩
            · split at h <;> cases h
            · exact Bool.eq_false_iff.mpr fun found =>
                missing (List.any_eq_true.mpr ⟨needle, mem, found⟩)

/-- For a line the gate has no reason of its own to refuse, the lines cited exist unless
they are among what it does not look at. -/
theorem stands_iff {ref : Reference} {text : JsString} {first : Nat} {last : Option Nat}
    (open_ : ¬ Refused settings ref text first) :
    Stands text first last ↔ ¬ Overlooked text first last := by
  obtain ⟨positive, inside⟩ : 1 ≤ first ∧ first ≤ (text.splitOn 0x0a).length := by
    constructor
    · exact Nat.le_of_not_lt fun h => open_ (.inl h)
    · exact Nat.le_of_not_lt fun h => open_ (.inr (.inl h))
  rw [Stands, Overlooked, lineCount]
  cases last with
  | none =>
      simp only [Option.mem_def, reduceCtorEq, false_imp_iff, implies_true, true_and,
        Option.getD_none, false_and, exists_false, or_false]
      by_cases rest : (text.splitOn 0x0a).getLast? = some []
      · rw [if_pos rest]
        simp only [rest, and_true]
        omega
      · rw [if_neg rest]
        simp only [rest, and_false, not_false_eq_true, iff_true]
        exact ⟨positive, inside⟩
  | some l =>
      simp only [Option.mem_some_iff, forall_eq', Option.getD_some, exists_eq_left']
      by_cases rest : (text.splitOn 0x0a).getLast? = some []
      · rw [if_pos rest]
        simp only [rest, and_true]
        omega
      · rw [if_neg rest]
        simp only [rest, and_false, false_or]
        omega

/-- The reference leads to a file with this text and names these lines of it. -/
def Cites (root : Root) (settings : Settings) (ref : Reference) (text : JsString) (first : Nat)
    (last : Option Nat) : Prop :=
  ∃ resolved how verdict, judge root settings ref = .ok (.cited resolved how verdict) ∧
    root.text resolved = some text ∧ lineMatch ref.raw = some (first, last)

/-- No failure is reported for the reference. -/
def Accepted (root : Root) (settings : Settings) (ref : Reference) : Prop :=
  ∀ finding, judge root settings ref = .ok finding → finding.failure settings ref = none

/-- Every reference has been judged, and each that leads to a file with a line number is
counted once: as verified, as unverified or as a failure. -/
def CountedOnce (root : Root) (settings : Settings) (state : State) : Prop :=
  ∃ findings, findings.map Prod.fst = references root settings ∧
    (∀ f ∈ findings, judge root settings f.1 = .ok f.2) ∧ Counted state findings ∧
      state.stats.withLine = state.stats.verified + state.stats.unverified +
        state.failures.countP (·.code.aboutLine)

/-- What is cited is a file that is there, and its line has been judged. -/
theorem judge_cited {ref : Reference} {resolved how : JsString} {verdict : Verdict}
    (cited : judge root settings ref = .ok (.cited resolved how verdict)) :
    ∃ text first last, root.text resolved = some text ∧
      lineMatch ref.raw = some (first, last) ∧
        verdict = judgeLine settings (text.splitOn 0x0a) ref first := by
  rw [judge, examine] at cited
  dsimp only at cited
  split at cited
  case isTrue => cases cited
  case isFalse =>
  split at cited
  case isTrue => cases cited
  case isFalse =>
  split at cited
  case isTrue => cases cited
  case isFalse =>
  split at cited
  case h_1 =>
      split at cited
      case h_1 => split at cited <;> cases cited
      case h_2 => cases cited
  case h_2 target _ =>
      split at cited
      case h_1 => cases cited
      case h_2 first last names =>
          split at cited
          case h_1 => cases cited
          case h_2 lines read =>
              cases cited
              obtain ⟨text, found, rfl⟩ := Except.map_eq_ok.mp read
              rw [readText] at found
              split at found
              case h_1 text' present =>
                  cases found
                  exact ⟨text, first, last, present, names, rfl⟩
              case h_2 => cases found

theorem accepted_iff_of_cites {ref : Reference} {text : JsString} {first : Nat}
    {last : Option Nat} (cites : Cites root settings ref text first last) :
    Accepted root settings ref ↔ ¬ Refused settings ref text first := by
  obtain ⟨resolved, how, verdict, judged, read, names⟩ := cites
  obtain ⟨text', first', last', read', names', rfl⟩ := judge_cited judged
  rw [read] at read'
  rw [names] at names'
  cases read'
  cases names'
  rw [← @accepted_iff settings ref text resolved how first, Accepted, judged]
  exact ⟨fun h => h _ rfl, fun h finding same => by cases same; exact h⟩

/-- In a run that ends, line numbers are counted once, and those that are accepted exist,
where no reference that the gate does not refuse of its own cites a line or the end of a
range that it does not look at. -/
theorem accepted_citations_stand (root : Root) (settings : Settings) (state : State)
    (run : checkPathReferences root settings = .ok state) :
    (CountedOnce root settings state ∧
      ∀ ref ∈ references root settings, ∀ text first last,
        Cites root settings ref text first last → Accepted root settings ref →
          Stands text first last) ↔
      ∀ ref ∈ references root settings, ∀ text first last,
        Cites root settings ref text first last →
          Refused settings ref text first ∨ ¬ Overlooked text first last := by
  have counted : CountedOnce root settings state := by
    obtain ⟨findings, all, follows⟩ := run_follows run
    exact ⟨findings, all, follows.judged, follows.counted, follows.counted.once⟩
  rw [and_iff_right counted]
  refine forall₂_congr fun ref _ => forall₃_congr fun text first last =>
    forall_congr' fun cites => ?_
  rw [accepted_iff_of_cites cites]
  by_cases open_ : Refused settings ref text first
  · exact ⟨fun _ => .inl open_, fun _ h => absurd open_ h⟩
  · rw [stands_iff open_, or_iff_right open_, imp_iff_right open_]

/-- A note, and a file of one line. -/
def note (text : String) : Root where
  fileExists file := file = asciiUnits "a.md" ∨ file = asciiUnits "x.md"
  text file :=
    if file = asciiUnits "a.md" then some (asciiUnits text)
    else if file = asciiUnits "x.md" then some (asciiUnits "one\n")
    else none
  tree _ := [asciiUnits "a.md"]
  toLowerCase := id

def reporting : Settings where
  documentRoots := [asciiUnits "docs"]
  extraDocuments := []
  resolveRoots := []
  extensions := [asciiUnits "md"]
  ignoreGlobs := []
  prescriptive := none
  quotes := none
  identifiers := none
  claimWindow := 12
  unverifiedPolicy := .report

/-- A note that cites the line there is. -/
theorem accepted_citations_stand_first :
    ∃ state, checkPathReferences (note "see `x.md:1`") reporting = .ok state ∧
      CountedOnce (note "see `x.md:1`") reporting state ∧
      ∀ ref ∈ references (note "see `x.md:1`") reporting, ∀ text first last,
        Cites (note "see `x.md:1`") reporting ref text first last →
          Accepted (note "see `x.md:1`") reporting ref → Stands text first last := by
  obtain ⟨state, run⟩ : ∃ state, checkPathReferences (note "see `x.md:1`") reporting = .ok state :=
    ⟨_, rfl⟩
  refine ⟨state, run, (accepted_citations_stand _ reporting state run).mpr ?_⟩
  rintro ref mem text first last ⟨resolved, how, verdict, judged, there, matched⟩
  have only : references (note "see `x.md:1`") reporting =
      [⟨asciiUnits "a.md", 1, asciiUnits "see `x.md:1`", ⟨asciiUnits "x.md:1", 4, 12⟩⟩] := rfl
  rw [only, List.mem_singleton] at mem
  have found : judge (note "see `x.md:1`") reporting
      ⟨asciiUnits "a.md", 1, asciiUnits "see `x.md:1`", ⟨asciiUnits "x.md:1", 4, 12⟩⟩ =
        .ok (.cited (asciiUnits "x.md") (asciiUnits "root") .unverified) := rfl
  rw [mem, found] at judged
  rw [mem] at matched ⊢
  obtain ⟨rfl, rfl, rfl⟩ : asciiUnits "x.md" = resolved ∧ asciiUnits "root" = how ∧
      Verdict.unverified = verdict := by simpa using judged
  obtain rfl : asciiUnits "one\n" = text := Option.some.inj there
  have read : lineMatch (asciiUnits "x.md:1") = some (1, none) := rfl
  cases read.symm.trans matched
  right
  rintro (⟨last, -⟩ | ⟨l, ends, -⟩)
  · exact absurd last (by decide)
  · cases ends

/-- The run accepts a line that the file does not have. -/
theorem phantom_line_accepted :
    ¬ ∀ (root : Root) (settings : Settings) (state : State),
      checkPathReferences root settings = .ok state →
        CountedOnce root settings state ∧
          ∀ ref ∈ references root settings, ∀ text first last,
            Cites root settings ref text first last → Accepted root settings ref →
              Stands text first last := by
  intro claim
  let root := note "see `x.md:2`"
  let ref : Reference :=
    ⟨asciiUnits "a.md", 1, asciiUnits "see `x.md:2`", ⟨asciiUnits "x.md:2", 4, 12⟩⟩
  have judged : judge root reporting ref =
      .ok (.cited (asciiUnits "x.md") (asciiUnits "root") .unverified) := rfl
  have listed : ref ∈ references root reporting := List.mem_singleton.mpr rfl
  obtain ⟨state, run⟩ : ∃ state, checkPathReferences root reporting = .ok state := ⟨_, rfl⟩
  have accepted : Accepted root reporting ref := by
    intro finding same
    rw [judged] at same
    cases same
    rfl
  have stands := (claim root reporting state run).2 ref listed (asciiUnits "one\n") 2 none
    ⟨_, _, _, judged, rfl, rfl⟩ accepted
  exact absurd stands.2.2 (by decide)

end Mathmodel.Citations
