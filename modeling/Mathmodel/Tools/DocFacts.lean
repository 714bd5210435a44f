import Mathmodel.Tools.RegExp

/-!
# Documented facts: templates and their occurrences

An anchor is prose with placeholders in it. It is compiled to a regular expression
that finds the prose with numeric literals where the placeholders stand, and it is
filled with the observed values to be written back. The text between placeholders is
taken literally on the way in, whatever characters it holds. On the way out the filled
template is a replacement string, in which dollar signs may be references: a rewrite
changes the numbers only if none of them is one.
-/

namespace Mathmodel.DocFacts

/-- `/\{([A-Za-z0-9_.-]+)\}/g` -/
def placeholder : Pattern Nat :=
  (RegExp.read (asciiUnits "\\\x7b([A-Za-z0-9_.-]+)\\\x7d")).get (by decide)

/-- `/^\d+(?:\.\d+)?$/` -/
def value : Pattern Nat := (RegExp.read (asciiUnits "^\\d+(?:\\.\\d+)?$")).get (by decide)

def valueCapture : JsString := asciiUnits "(\\d+(?:\\.\\d+)?)"

/-- What an occurrence of `valueCapture` in a regular expression is read as. -/
def captured : Pattern Nat :=
  .group (.sequence [.seq (.one RegExp.isDigit) (.many RegExp.isDigit),
    .optional (.sequence [.one (· == 0x2e),
      .seq (.one RegExp.isDigit) (.many RegExp.isDigit)])])

structure Anchor where
  file : JsString
  template : JsString
  occurrences : Option Nat

def Anchor.expectedOccurrences (anchor : Anchor) : Nat := anchor.occurrences.getD 1

/-! ## The template as a regular expression -/

def escapeRegExp (text : JsString) : JsString :=
  text.flatMap fun c => if RegExp.isSyntax c then [0x5c, c] else [c]

def placeholders (template : JsString) : List (Match Nat) := placeholder.matchAll template

/-- The identifier between the braces, `match[1]`. -/
def idOf (found : Match Nat) : JsString := (found.captures.head?.join).getD []

def ids (template : JsString) : List JsString := (placeholders template).map idOf

/-- The text of the regular expression for a template. -/
def pattern (template : JsString) : JsString :=
  stitch escapeRegExp template 0 ((placeholders template).map fun found => (found, valueCapture))

/-- The terms it is read as: the characters of the prose and a group for each placeholder. -/
def terms (template : JsString) : List (Pattern Nat) :=
  stitch (fun prose => prose.map fun c => Pattern.one (· == c)) template 0
    ((placeholders template).map fun found => (found, [captured]))

theorem reads_escapeRegExp {text : JsString} {ps : List (Pattern Nat)}
    (rest : RegExp.Reads text ps) (prose : JsString) :
    RegExp.Reads (escapeRegExp prose ++ text) (prose.map (fun c => .one (· == c)) ++ ps) := by
  induction prose with
  | nil => exact rest
  | cons c prose ih =>
      rw [escapeRegExp, List.flatMap_cons, List.append_assoc]
      exact ih.unit c

theorem reads_valueCapture {text : JsString} {ps : List (Pattern Nat)}
    (rest : RegExp.Reads text ps) : RegExp.Reads (valueCapture ++ text) (captured :: ps) := by
  refine rest.atom (c := 0x28) (s := asciiUnits "\\d+(?:\\.\\d+)?)") (by decide) fun n long => ?_
  -- the group holds fewer terms than its text has characters
  obtain ⟨k, rfl⟩ : ∃ k, n = k + 8 := ⟨n - 8, by
    have : (asciiUnits "\\d+(?:\\.\\d+)?)").length = 14 := by decide
    rw [List.length_append] at long
    omega⟩
  rfl

/-- The pattern of a template is read as its terms. -/
theorem reads_pattern (template : JsString) :
    RegExp.Reads (pattern template) (terms template) := by
  have all : ∀ (ms : List (Match Nat)) i,
      RegExp.Reads (stitch escapeRegExp template i (ms.map fun m => (m, valueCapture)))
        (stitch (fun prose => prose.map fun c => Pattern.one (· == c)) template i
          (ms.map fun m => (m, [captured]))) := by
    intro ms
    induction ms with
    | nil =>
        intro i
        have := reads_escapeRegExp .nil (template.drop i)
        rwa [List.append_nil, List.append_nil] at this
    | cons m ms ih => exact fun i => reads_escapeRegExp (reads_valueCapture (ih m.stop)) _
  exact all _ 0

structure Compiled where
  ids : List JsString
  regex : Pattern Nat

/-- The text put together for a template is a regular expression. -/
def compile (template : JsString) : Compiled where
  ids := ids template
  regex := (RegExp.read (pattern template)).get (by rw [(reads_pattern template).read]; rfl)

@[simp] theorem compile_ids (template : JsString) : (compile template).ids = ids template := rfl

@[simp]
theorem compile_regex (template : JsString) :
    (compile template).regex = .sequence (terms template) := by
  rw [compile, Option.get_of_eq_some]
  exact (reads_pattern template).read

/-! ## The template with texts for its placeholders -/

/-- The template with the texts in the place of its placeholders. -/
def inscribe (template : JsString) (texts : List JsString) : JsString :=
  stitch id template 0 ((placeholders template).zip texts)

/-- The text inserted for a probe. -/
def observedText (observed : List (JsString × JsString)) (id : JsString) : JsString :=
  (observed.lookup id).getD (asciiUnits "undefined")

def fill (template : JsString) (observed : List (JsString × JsString)) : JsString :=
  placeholder.replaceAll template fun found => observedText observed (idOf found)

/-- A template is filled by inscribing the observed texts in the order of its placeholders. -/
theorem fill_eq_inscribe (template : JsString) (observed : List (JsString × JsString)) :
    fill template observed = inscribe template ((ids template).map (observedText observed)) := by
  rw [fill, Pattern.replaceAll, inscribe, ids, List.map_map, List.map_prod_left_eq_zip]
  rfl

/-! ## Occurrences -/

/-- The texts captured at the placeholders, `match[1]` onwards. -/
def capturedTexts (m : Match Nat) : List JsString := m.captures.map (·.getD [])

/-- What `captured` takes is a numeric literal and the one capture. -/
theorem takes_captured {before text after : JsString} {captures : Captures Nat}
    (takes : captured.Takes before text captures after) :
    captures = [some text] ∧ value.test text = true := by
  obtain ⟨c, rfl, takes⟩ := takes
  have none : c = [] := by
    obtain ⟨_, _, _, _, -, rfl, ⟨_, _, _, _, -, rfl, ⟨_, -, -, rfl⟩, -, rfl⟩, rest⟩ := takes
    obtain ⟨_, _, _, _, -, rfl, fraction, -, rfl⟩ := rest
    rcases fraction with ⟨-, _, _, _, _, -, rfl, ⟨_, -, -, rfl⟩, rest⟩ | ⟨-, rfl⟩
    · obtain ⟨_, _, _, _, -, rfl, ⟨_, _, _, _, -, rfl, ⟨_, -, -, rfl⟩, -, rfl⟩, -, rfl⟩ := rest
      rfl
    · rfl
  refine ⟨by rw [none], ?_⟩
  have read : value = .sequence (.atStart :: ([.seq (.one RegExp.isDigit) (.many RegExp.isDigit),
      .optional (.sequence [.one (· == 0x2e), .seq (.one RegExp.isDigit)
        (.many RegExp.isDigit)])] ++ [.atEnd])) := rfl
  rw [read, Pattern.test_anchored]
  exact ⟨c, takes.anywhere rfl⟩

/-- An occurrence is the template with numeric literals for its placeholders. -/
theorem occurrence {template body : JsString} {m : Match Nat}
    (found : m.Of (compile template).regex body) :
    m.text = inscribe template (capturedTexts m) ∧
      (capturedTexts m).length = (ids template).length ∧
        ∀ text ∈ capturedTexts m, value.test text = true := by
  have all : ∀ (ms : List (Match Nat)) i before text captures after,
      (Pattern.sequence (stitch (fun prose => prose.map fun c => Pattern.one (· == c)) template i
        (ms.map fun m => (m, [captured])))).Takes before text captures after →
      text = stitch id template i (ms.zip (captures.map (·.getD []))) ∧
        captures.length = ms.length ∧
          ∀ c ∈ captures.map (·.getD []), value.test c = true := by
    intro ms
    induction ms with
    | nil =>
        intro i before text captures after takes
        obtain ⟨rfl, rfl⟩ := Pattern.takes_symbols.mp takes
        exact ⟨rfl, rfl, nofun⟩
    | cons m ms ih =>
        intro i before text captures after takes
        obtain ⟨t, _, c, _, rfl, rfl, prose, t', u, c', d, rfl, rfl, number, rest⟩ :=
          Pattern.takes_sequence_append.mp takes
        obtain ⟨rfl, rfl⟩ := Pattern.takes_symbols.mp prose
        obtain ⟨rfl, numeric⟩ := takes_captured number
        obtain ⟨rfl, count, others⟩ := ih _ _ _ _ _ rest
        exact ⟨rfl, congrArg (· + 1) count, List.forall_mem_cons.mpr ⟨numeric, others⟩⟩
  have takes := found.takes
  rw [compile_regex] at takes
  obtain ⟨text, count, numeric⟩ := all _ 0 _ _ _ _ takes
  refine ⟨text, ?_, numeric⟩
  rw [capturedTexts, List.length_map, count, ids, List.length_map]

/-! ## Rewriting -/

def occurrencesIn (template body : JsString) : List (Match Nat) :=
  (compile template).regex.matchAll body

/-- `body.replace(regex, fill(template, observed))` -/
def rewrite (template body : JsString) (observed : List (JsString × JsString)) : JsString :=
  (compile template).regex.replaceAll body
    fun m => RegExp.getSubstitution m (fill template observed)

/-- The document with other texts for the literals captured at each occurrence. -/
def renumber (template body : JsString) (texts : Match Nat → List JsString) : JsString :=
  stitch id body 0
    ((occurrencesIn template body).map fun m => (m, inscribe template (texts m)))

/-- A document is its prose with the literals it has captured at each occurrence. -/
@[simp]
theorem renumber_captured (template body : JsString) :
    renumber template body capturedTexts = body := by
  have found := (compile template).regex.matchAll_successive body
  have texts : (occurrencesIn template body).map
      (fun m => (m, inscribe template (capturedTexts m))) =
        (occurrencesIn template body).map fun m => (m, m.text) :=
    List.map_congr_left fun m mem => by rw [(occurrence (found.of_mem m mem)).1]
  rw [renumber, texts]
  exact stitch_text found

/-- What the references of the filled template make of it is the filled template, at every
occurrence. -/
def Verbatim (template body : JsString) (observed : List (JsString × JsString)) : Prop :=
  ∀ m ∈ occurrencesIn template body,
    RegExp.getSubstitution m (fill template observed) = fill template observed

instance (template body : JsString) (observed : List (JsString × JsString)) :
    Decidable (Verbatim template body observed) := by
  unfold Verbatim
  infer_instance

/-- The document with the observed values for the literals captured. -/
def updated (template body : JsString) (observed : List (JsString × JsString)) : JsString :=
  renumber template body fun _ => (ids template).map (observedText observed)

/-- No dollar sign of the filled template is a reference to the match or to a placeholder. -/
def Unreferring (template : JsString) (observed : List (JsString × JsString)) : Prop :=
  RegExp.hasReference (ids template).length (fill template observed) = false

instance (template : JsString) (observed : List (JsString × JsString)) :
    Decidable (Unreferring template observed) := by
  unfold Unreferring
  infer_instance

/-- Without a reference to the match, the replacement text is taken as it stands. -/
theorem Unreferring.verbatim {template : JsString} {observed : List (JsString × JsString)}
    (plain : Unreferring template observed) (body : JsString) :
    Verbatim template body observed := by
  intro m mem
  have found := (compile template).regex.matchAll_successive body
  have groups : m.captures.length = (ids template).length := by
    have count := (occurrence (found.of_mem m mem)).2.1
    rwa [capturedTexts, List.length_map] at count
  refine RegExp.getSubstitution_plain ?_
  rw [groups]
  exact plain

theorem rewrite_of_verbatim {template body : JsString} {observed : List (JsString × JsString)}
    (plain : Verbatim template body observed) :
    rewrite template body observed = updated template body observed := by
  rw [rewrite, Pattern.replaceAll, updated, renumber, ← fill_eq_inscribe]
  exact congrArg (stitch id body 0) (List.map_congr_left fun m mem => by rw [plain m mem])

/-- A single occurrence shows whether its text was taken as it stands. -/
theorem verbatim_of_rewrite {template body : JsString} {observed : List (JsString × JsString)}
    (single : (occurrencesIn template body).length = 1)
    (same : rewrite template body observed = updated template body observed) :
    Verbatim template body observed := by
  rw [rewrite, Pattern.replaceAll, updated, renumber, ← fill_eq_inscribe] at same
  obtain ⟨m, only⟩ := List.length_eq_one_iff.mp single
  change (compile template).regex.matchAll body = [m] at only
  rw [occurrencesIn, only] at same
  intro m' mem
  rw [occurrencesIn, only, List.mem_singleton] at mem
  rw [mem]
  exact stitch_single_inj.mp same

end Mathmodel.DocFacts
