import Mathmodel.Workflow.Verification

/-!
# What the inspection and the figures prove

The gate of the stage `inspect` compares a render manifest and a review of its
pages with each other and with the files. The comparison with a file is left out
where the manifest declares a false digest (`null`, an empty text), so the review
is bound to the pages exactly if every declared digest is a true one.

The gate of the stage `figures` has a review for every figure: the numbers agree,
and each figure has exactly one, so by counting each review has its figure.
-/

namespace Mathmodel.Workflow

open Dialogue
open Gate (Passes)

variable {host : Host} {links : Path → Alias} {d : Disk} {paths paths' : List String}

section Inspect

/-- A page and its review that pass. -/
structure PagePasses (host : Host) (d : Disk) (page item : Value) (path : String) (sha : Value) :
    Prop where
  page : ∃ fields, page = .dict fields ∧ fields.lookup "path" = some (.str path) ∧
    fields.lookup "sha256" = some sha ∧
    ∃ number, fields.lookup "number" = some number ∧ ∃ entry, item = .dict entry ∧
      ((entry.lookup "number").getD .none).beq number = true ∧
      ((entry.lookup "sha256").getD .none).beq sha = true ∧
      entry.lookup "status" = some (.str "pass") ∧
      ∃ text, entry.lookup "observations" = some (.str text) ∧ isSubstantive text = true
  image : Matches host d path sha

/-- A page that is accepted agrees with its review and its image. -/
theorem passes_pageGate {page item : Value}
    (passed : Passes host links d (pageGate host (page, item)) paths () paths') :
    ∃ path sha, PagePasses host d page item path sha := by
  unfold pageGate at passed
  simp only [passes_eval_bind, passes_file_bind, passes_need, Value.item_eq_ok, Value.get_eq_ok,
    Bool.and_eq_true, Value.beq_str, Value.isProse_eq_true] at passed
  obtain ⟨_, ⟨fields, rfl, named⟩, sha, ⟨_, ⟨⟩, declared⟩, path, rfl, matched, rest⟩ := passed
  obtain ⟨_, ⟨entry, rfl, rfl⟩, number, ⟨_, ⟨⟩, numbered⟩, _, ⟨_, ⟨⟩, rfl⟩, _, ⟨_, ⟨⟩, rfl⟩, _,
    ⟨_, ⟨⟩, rfl⟩, rest⟩ := rest
  obtain ⟨⟨⟨⟨same, reviewed⟩, status⟩, text, said, substantive⟩, -⟩ := rest
  rw [Value.getD_none_eq_str] at status said
  exact ⟨path, sha, ⟨fields, rfl, named, declared, number, numbered, entry, rfl, same, reviewed,
    status, text, said, substantive⟩, matched⟩

/-- The loop over the pages passes only if each round does. -/
theorem passes_forM_mem {β : Type} {f : β → Gate PUnit} {l : List β} {u : PUnit}
    (passed : Passes host links d (l.forM f) paths u paths') :
    ∀ b ∈ l, ∃ before after, Passes host links d (f b) before ⟨⟩ after := by
  induction l generalizing paths with
  | nil => exact nofun
  | cons b rest ih =>
      change Passes host links d (f b >>= fun _ => rest.forM f) paths u paths' at passed
      rw [passes_bind] at passed
      obtain ⟨_, between, first, others⟩ := passed
      intro b' mem
      obtain rfl | mem := List.mem_cons.mp mem
      · exact ⟨paths, between, first⟩
      · exact ih others b' mem

theorem column_ok {key : String} {values numbers : List Value}
    (found : column key values = .ok numbers) :
    List.Forall₂ (fun v n => ∃ fields, v = .dict fields ∧ fields.lookup key = some n) values
      numbers := by
  induction values generalizing numbers with
  | nil =>
      cases found
      exact .nil
  | cons v rest ih =>
      unfold column at found
      simp only [bind_eq_ok, Value.item_eq_ok, pure_eq_ok] at found
      obtain ⟨n, first, others, more, rfl⟩ := found
      exact .cons first (ih more)

theorem beqItems_forall₂ {a b : List Value} (h : Value.beqItems a b = true) :
    List.Forall₂ (fun v w => v.same w = true) a b := by
  induction a generalizing b with
  | nil =>
      cases b with
      | nil => exact .nil
      | cons w rest => simp [Value.beqItems] at h
  | cons v rest ih =>
      cases b with
      | nil => simp [Value.beqItems] at h
      | cons w others =>
          simp only [Value.beqItems, Bool.and_eq_true] at h
          exact .cons h.1 (ih h.2)

theorem numbered_of_column {pages numbers : List Value}
    (found : column "number" pages = .ok numbers)
    (same : Value.beqItems numbers
      ((List.range pages.length).map fun i : Nat => .int (i + 1)) = true)
    (i : Nat) (page : Value) (at_ : pages[i]? = some page) :
    ∃ fields number, page = .dict fields ∧ fields.lookup "number" = some number ∧
      number.beq (.int (i + 1)) = true := by
  have columns := column_ok found
  have equal := beqItems_forall₂ same
  rw [List.forall₂_iff_get] at columns equal
  obtain ⟨inside, rfl⟩ := List.getElem?_eq_some_iff.mp at_
  have inside' : i < numbers.length := columns.1 ▸ inside
  obtain ⟨fields, object, number⟩ := columns.2 i inside inside'
  have same' := equal.2 i inside' (equal.1 ▸ inside')
  refine ⟨fields, _, object, number, ?_⟩
  simpa using same'

/-- The documents of an inspection. -/
structure Inspection where
  recorded : String
  manifest : List (String × Value)
  pdf : List (String × Value)
  sha : Value
  pages : List Value
  review : List (String × Value)
  reviews : List Value

/-- The documents of an inspection that passes. -/
structure InspectPasses (host : Host) (d : Disk) (produced : List (String × String))
    (x : Inspection) : Prop where
  recorded : produced.lookup "render-manifest.json" = some x.recorded
  unchanged : Matches host d "render-manifest.json" (.str x.recorded)
  manifest : d.Contains host "render-manifest.json" (.dict x.manifest)
  pdf : x.manifest.lookup "pdf" = some (.dict x.pdf)
  declared : x.pdf.lookup "sha256" = some x.sha
  rendered : Matches host d "report.pdf" x.sha
  pages : x.manifest.lookup "pages" = some (.list x.pages)
  nonempty : x.pages ≠ []
  numbered : ∀ (i : Nat) (page : Value), x.pages[i]? = some page → ∃ fields number,
    page = .dict fields ∧ fields.lookup "number" = some number ∧ number.beq (.int (i + 1)) = true
  review : d.Contains host "render-review.json" (.dict x.review)
  current : ((x.review.lookup "pdf_sha256").getD .none).beq x.sha = true
  reviews : x.review.lookup "pages" = some (.list x.reviews)
  each : List.Forall₂ (fun page item => ∃ path sha, PagePasses host d page item path sha) x.pages
    x.reviews

/-- Where as many items as pages were reviewed, they are the items of a list. -/
theorem reviews_list {review : List (String × Value)} {pages items : List Value} {reviewed : Value}
    (same : reviewed = (review.lookup "pages").getD (.list [])) (some_ : pages ≠ [])
    (length : reviewed.len = .ok pages.length) (iterated : reviewed.iter = .ok items)
    (each : ∀ pair ∈ pages.zip items, ∃ entry, pair.2 = .dict entry) :
    review.lookup "pages" = some (.list items) ∧ items.length = pages.length := by
  have shape : reviewed = .list items ∧ items.length = pages.length := by
    obtain ⟨page, rest, rfl⟩ := List.exists_cons_of_ne_nil some_
    have texts : ∀ {α : Type} {l : List α} {f : α → String}, l.length = (page :: rest).length →
        items = l.map (fun a => .str (f a)) → False := by
      intro α l f length rfl_
      cases l with
      | nil => cases length
      | cons a more =>
          obtain ⟨_, object⟩ := each (page, .str (f a)) (by
            rw [rfl_, List.map_cons, List.zip_cons_cons]
            exact List.mem_cons_self)
          cases object
    cases reviewed with
    | list found_ =>
        obtain rfl := Except.ok.inj iterated
        exact ⟨rfl, Except.ok.inj length⟩
    | dict fields =>
        exact (texts (Except.ok.inj length) (Except.ok.inj iterated).symm).elim
    | str s =>
        exact (texts (Except.ok.inj length) (Except.ok.inj iterated).symm).elim
    | _ => cases length
  refine ⟨?_, shape.2⟩
  rw [shape.1] at same
  cases found_ : review.lookup "pages" with
  | some value =>
      rw [found_] at same
      rw [same]
      rfl
  | none =>
      rw [found_, Option.getD_none, Value.list.injEq] at same
      rw [same] at shape
      exact absurd (List.eq_nil_of_length_eq_zero shape.2.symm) some_

/-- An inspection that is accepted has a manifest, a review and the pages they list. -/
theorem passes_inspectGate {produced : List (String × String)}
    (passed : Passes host links d (inspectGate host produced) paths () paths') :
    ∃ x : Inspection, InspectPasses host d produced x := by
  unfold inspectGate at passed
  simp only [passes_eval_bind, passes_file_bind, passes_need_bind, passes_generated_bind,
    passes_load_bind, Value.item_eq_ok, Value.get_eq_ok, Value.str.injEq, Value.dict.injEq,
    exists_eq_left', Bool.and_eq_true, Value.beq_str] at passed
  obtain ⟨recorded, ⟨made, unchanged⟩, manifest, ⟨-, contains⟩, _, hasPdf, sha,
    ⟨pdf, rfl, declared⟩, rendered, _, -, -, _, rfl, someList, pages', iterated, numbers, column_,
    numbered, rest⟩ := passed
  obtain ⟨review, ⟨-, contains'⟩, _, rfl, _, rfl, ⟨-, current⟩, reviewed, rfl, n, length, covers,
    items, iterated', rounds⟩ := rest
  obtain ⟨pages, listed, nonempty⟩ := Value.isNonemptyList_eq_true.mp someList
  rw [listed] at iterated
  obtain rfl := Except.ok.inj iterated
  rw [Value.getD_none_eq_list] at listed
  have each : ∀ pair ∈ pages.zip items, ∃ path sha, PagePasses host d pair.1 pair.2 path sha := by
    intro pair mem
    obtain ⟨_, _, passed⟩ := passes_forM_mem rounds pair mem
    exact passes_pageGate passed
  rw [beq_iff_eq] at covers
  subst covers
  obtain ⟨isList, sameLength⟩ := reviews_list rfl nonempty length iterated' (by
    intro pair mem
    obtain ⟨_, _, ⟨fields, -, -, -, -, -, entry, object, -⟩, -⟩ := each pair mem
    exact ⟨entry, object⟩)
  refine ⟨⟨recorded, manifest, pdf, sha, pages, review, items⟩, made, unchanged, contains, hasPdf,
    declared, rendered, listed, nonempty, numbered_of_column column_ numbered, contains', current,
    isList, ?_⟩
  rw [List.forall₂_iff_zip]
  exact ⟨sameLength.symm, fun mem => each _ mem⟩

/-- The page number `i + 1` and its review speak of the image that is on the disk. -/
def PageBound (host : Host) (d : Disk) (i : Nat) (page item : Value) : Prop :=
  ∃ fields entry path sha number text, page = .dict fields ∧ item = .dict entry ∧
    fields.lookup "path" = some (.str path) ∧ fields.lookup "sha256" = some (.str sha) ∧
    Evident host d path ∧ d.HasDigest host (parts path) sha ∧
    fields.lookup "number" = some number ∧ number.beq (.int (i + 1)) = true ∧
    ((entry.lookup "number").getD .none).beq number = true ∧
    entry.lookup "sha256" = some (.str sha) ∧ entry.lookup "status" = some (.str "pass") ∧
    entry.lookup "observations" = some (.str text) ∧ isSubstantive text = true

/-- The digests that some executions record for what they produced. -/
def outputDigests (executions : List Receipt) : List (String × String) :=
  digests (executions.flatMap (·.outputs))

/-- The review is bound to the PDF and the pages: the manifest is as an execution left it, and
the digests it declares are those of the files and those of the review. -/
def InspectBound (host : Host) (d : Disk) (executions : List Receipt) : Prop :=
  (∃ e ∈ executions, ∃ ref ∈ e.outputs, ref.path = "render-manifest.json" ∧
    (outputDigests executions).lookup ref.path = some ref.sha256 ∧
    d.HasDigest host (parts ref.path) ref.sha256) ∧
  ∃ manifest pdf review sha pages reviews,
    d.Contains host "render-manifest.json" (.dict manifest) ∧
    d.Contains host "render-review.json" (.dict review) ∧
    manifest.lookup "pdf" = some (.dict pdf) ∧ pdf.lookup "sha256" = some (.str sha) ∧
    d.HasDigest host (parts "report.pdf") sha ∧
    review.lookup "pdf_sha256" = some (.str sha) ∧
    manifest.lookup "pages" = some (.list pages) ∧ review.lookup "pages" = some (.list reviews) ∧
    pages ≠ [] ∧ reviews.length = pages.length ∧
    ∀ i page item, pages[i]? = some page → reviews[i]? = some item → PageBound host d i page item

/-- Every digest that the gate reads is a true value: the one recorded for the manifest, the one
that the manifest declares for the PDF, and those for the pages. -/
def InspectDeclares (host : Host) (d : Disk) (executions : List Receipt) : Prop :=
  (∀ recorded, (outputDigests executions).lookup "render-manifest.json" = some recorded →
    recorded ≠ "") ∧
  ∀ manifest, d.Contains host "render-manifest.json" (.dict manifest) →
    (∀ pdf sha, manifest.lookup "pdf" = some (.dict pdf) → pdf.lookup "sha256" = some sha →
      sha.truthy = true) ∧
    ∀ pages, manifest.lookup "pages" = some (.list pages) →
      ∀ fields sha, .dict fields ∈ pages → fields.lookup "sha256" = some sha → sha.truthy = true

theorem Value.truthy_str {s : String} : (Value.str s).truthy = true ↔ s ≠ "" := by
  simp [truthy]

theorem Disk.HasDigest.ne_empty {path : Path} {sha : String} (h : d.HasDigest host path sha)
    (printed : ∀ content, host.sha256 content ≠ "") : sha ≠ "" := by
  obtain ⟨content, -, rfl⟩ := h
  exact printed content

/-- What the executions record for a path is in the receipt of one of them. -/
theorem lookup_outputDigests {executions : List Receipt} {path sha : String}
    (found : (outputDigests executions).lookup path = some sha) :
    ∃ e ∈ executions, ∃ ref ∈ e.outputs, ref.path = path ∧ ref.sha256 = sha := by
  obtain ⟨ref, mem, same, same'⟩ := lookup_digests found
  obtain ⟨e, listed, mem⟩ := List.mem_flatMap.mp mem
  exact ⟨e, listed, ref, mem, same, same'⟩

theorem PagePasses.bound {page item : Value} {path : String} {sha : Value} {i : Nat}
    (h : PagePasses host d page item path sha)
    (numbered : ∃ fields number, page = .dict fields ∧ fields.lookup "number" = some number ∧
      number.beq (.int (i + 1)) = true)
    (declared : ∀ fields sha, page = .dict fields → fields.lookup "sha256" = some sha →
      sha.truthy = true) : PageBound host d i page item := by
  obtain ⟨⟨fields, rfl, named, listed, number, found, entry, rfl, same, reviewed, status, text,
    said, substantive⟩, evident, compared⟩ := h
  obtain ⟨_, number', ⟨⟩, found', inOrder⟩ := numbered
  obtain rfl := Option.some.inj (found.symm.trans found')
  obtain ⟨sha, rfl, current⟩ := compared (declared fields _ rfl listed)
  rw [Value.beq_str, Value.getD_none_eq_str] at reviewed
  exact ⟨fields, entry, path, sha, number, text, rfl, rfl, named, listed, evident, current, found,
    inOrder, same, reviewed, status, said, substantive⟩

/-- An inspection that passes is bound where its digests are true values. -/
theorem InspectPasses.bound {executions : List Receipt} {x : Inspection}
    (h : InspectPasses host d (outputDigests executions) x)
    (declares : InspectDeclares host d executions) : InspectBound host d executions := by
  obtain ⟨recorded, documents⟩ := declares
  obtain ⟨pdf, pages⟩ := documents x.manifest h.manifest
  obtain ⟨e, listed, ref, made, path, sha⟩ := lookup_outputDigests h.recorded
  obtain ⟨_, same, unchanged⟩ := h.unchanged.2 (Value.truthy_str.mpr (recorded _ h.recorded))
  obtain rfl := Value.str.inj same
  obtain ⟨digest, isText, rendered⟩ := h.rendered.2 (pdf x.pdf x.sha h.pdf h.declared)
  have current := h.current
  rw [isText, Value.beq_str, Value.getD_none_eq_str] at current
  refine ⟨⟨e, listed, ref, made, path, ?_, ?_⟩, x.manifest, x.pdf, x.review, digest, x.pages,
    x.reviews, h.manifest, h.review, h.pdf, h.declared.trans (by rw [isText]), rendered, current,
    h.pages, h.reviews, h.nonempty, h.each.length_eq.symm, ?_⟩
  · rw [path, sha]
    exact h.recorded
  · rw [path, sha]
    exact unchanged
  · intro i page item at_ at_'
    obtain ⟨inside, rfl⟩ := List.getElem?_eq_some_iff.mp at_
    obtain ⟨inside', rfl⟩ := List.getElem?_eq_some_iff.mp at_'
    obtain ⟨path, sha, passes⟩ := (List.forall₂_iff_get.mp h.each).2 i inside inside'
    refine passes.bound (h.numbered i _ at_) fun fields sha object found_ => ?_
    exact pages x.pages h.pages fields sha (object ▸ List.getElem_mem inside) found_

/-- A review that is bound to its pages declares true digests. -/
theorem InspectBound.declares {executions : List Receipt} (h : InspectBound host d executions)
    (printed : ∀ content, host.sha256 content ≠ "") : InspectDeclares host d executions := by
  obtain ⟨⟨e, listed, ref, made, path, recorded, unchanged⟩, manifest, pdf, review, sha, pages,
    reviews, contains, contains', hasPdf, declared, rendered, current, hasPages, hasReviews,
    nonempty, sameLength, each⟩ := h
  refine ⟨?_, ?_⟩
  · intro other found_
    rw [← path, recorded] at found_
    obtain rfl := Option.some.inj found_
    exact unchanged.ne_empty printed
  · intro manifest' contains''
    obtain rfl := Value.dict.inj (contains''.unique contains)
    refine ⟨?_, ?_⟩
    · intro pdf' sha' hasPdf' declared'
      obtain rfl := Value.dict.inj (Option.some.inj (hasPdf'.symm.trans hasPdf))
      obtain rfl := Option.some.inj (declared'.symm.trans declared)
      exact Value.truthy_str.mpr (rendered.ne_empty printed)
    · intro pages' hasPages' fields sha' mem found_
      obtain rfl := Value.list.inj (Option.some.inj (hasPages'.symm.trans hasPages))
      obtain ⟨i, inside, at_⟩ := List.getElem_of_mem mem
      obtain ⟨fields', entry, path, sha'', number, text, object, -, -, declared', -, digest, -⟩ :=
        each i (.dict fields) (reviews.get ⟨i, sameLength ▸ inside⟩)
          (List.getElem?_eq_some_iff.mpr ⟨inside, at_⟩) (List.getElem?_eq_getElem _)
      obtain rfl := Value.dict.inj object
      obtain rfl := Option.some.inj (found_.symm.trans declared')
      exact Value.truthy_str.mpr (digest.ne_empty printed)

theorem publicationFiles_inspect {state : State} {executions : List Receipt} {names : List String}
    (current : state.format = .v2)
    (accepted : (publicationFiles host state .inspect executions).answered (look host links d) =
      .ok names) : ∃ x, InspectPasses host d (outputDigests executions) x := by
  unfold publicationFiles at accepted
  rw [current] at accepted
  simp only [answered_bind, bind_eq_ok] at accepted
  obtain ⟨⟨_, noted⟩, passed, -⟩ := accepted
  exact passes_inspectGate passed

/-- Where `publication_files` accepts an inspection, the review is bound to the PDF and the
pages exactly if every digest it reads is a true value. -/
theorem inspect_bound_iff {state : State} {executions : List Receipt} {names : List String}
    (printed : ∀ content, host.sha256 content ≠ "") (current : state.format = .v2)
    (accepted : (publicationFiles host state .inspect executions).answered (look host links d) =
      .ok names) :
    InspectBound host d executions ↔ InspectDeclares host d executions := by
  obtain ⟨x, passes⟩ := publicationFiles_inspect current accepted
  exact ⟨fun bound => bound.declares printed, passes.bound⟩

namespace Showcase

/-- A project as a state. -/
def project : State :=
  { format := .v2, title := "a", createdAt := "t", kind := .general, requirePdf := true,
    maxRuns := 20, revision := 1, inputs := [], stages := [], history := [] }

/-- A directory with nothing but files of the user. -/
def directory (files : List (Path × Node)) : Disk := { Disk.empty with files }

/-- The receipt of a success, by its stage, inputs and outputs. -/
def receipt (stage : StageId) (inputs outputs : List Ref) : Receipt :=
  { id := String.ofList (List.replicate 32 'a'), stage, revision := 1, argv := ["make"],
    startedAt := "t", status := .succeeded, inputs, outputs, pid := some 7,
    timeoutSeconds := .finite 300, platform := "linux", python := "3.12", logs := [],
    exitCode := some 0, error := none, endedAt := some "t" }

/-- A manifest of one page and its review, with the digests that they declare. -/
def inspectDocuments (pdf page : Value) : List (Content × Value) :=
  [([20], .dict [("pdf", .dict [("path", .str "report.pdf"), ("sha256", pdf)]),
      ("pages", .list [.dict [("number", .int 1), ("path", .str "page.png"), ("sha256", page)]])]),
    ([21], .dict [("status", .str "pass"), ("pdf_sha256", pdf), ("pages", .list
      [.dict [("number", .int 1), ("sha256", page), ("status", .str "pass"),
        ("observations", .str "readable")]])])]

def inspectDirectory : Disk :=
  directory [(["render-manifest.json"], .file [20]), (["render-review.json"], .file [21]),
    (["report.pdf"], .file [22]), (["page.png"], .file [23])]

def inspectReceipt : Receipt :=
  receipt .inspect [] [⟨"render-manifest.json", (hostWith []).sha256 [20], 1⟩]

/-- The gate of the inspection, on the documents with these digests. -/
def inspected (pdf page : Value) : Except PyErr (List String) :=
  (publicationFiles (hostWith (inspectDocuments pdf page)) project
    .inspect [inspectReceipt]).answered
      (look (hostWith (inspectDocuments pdf page)) (fun _ => .inside) inspectDirectory)

theorem contains_manifest (pdf page : Value) :
    inspectDirectory.Contains (hostWith (inspectDocuments pdf page)) "render-manifest.json"
      (.dict [("pdf", .dict [("path", .str "report.pdf"), ("sha256", pdf)]), ("pages", .list
        [.dict [("number", .int 1), ("path", .str "page.png"), ("sha256", page)]])]) := by
  have path : parts "render-manifest.json" = ["render-manifest.json"] := by decide +kernel
  refine ⟨[20], ?_, rfl⟩
  rw [path]
  rfl

theorem inspect_declares {pdf page : String} (hpdf : pdf ≠ "") (hpage : page ≠ "") :
    InspectDeclares (hostWith (inspectDocuments (.str pdf) (.str page))) inspectDirectory
      [inspectReceipt] := by
  refine ⟨?_, ?_⟩
  · rintro recorded found_ rfl
    have known : (outputDigests [inspectReceipt]).lookup "render-manifest.json" ≠ some "" := by
      decide +kernel
    exact known found_
  · intro manifest contains
    obtain rfl := Value.dict.inj (contains.unique (contains_manifest _ _))
    refine ⟨?_, ?_⟩
    · rintro _ _ ⟨⟩ ⟨⟩
      exact Value.truthy_str.mpr hpdf
    · rintro _ ⟨⟩ fields sha mem found_
      obtain rfl := Value.dict.inj (List.mem_singleton.mp mem)
      obtain rfl := Option.some.inj found_
      exact Value.truthy_str.mpr hpage

end Showcase

/-- Documents that declare `null` for every digest are accepted, whatever the PDF is. -/
theorem inspect_accepts_null :
    ∃ names, Showcase.inspected .none .none = .ok names ∧
      ¬ InspectBound (Showcase.hostWith (Showcase.inspectDocuments .none .none))
        Showcase.inspectDirectory [Showcase.inspectReceipt] := by
  have accepted : (Showcase.inspected .none .none).isOk = true := by decide +kernel
  obtain ⟨names, result⟩ := Except.isOk_iff.mp accepted
  refine ⟨names, result, fun bound => ?_⟩
  obtain ⟨-, documents⟩ := bound.declares (Showcase.hostWith_sha256_ne_empty _)
  have truthy := (documents _ (Showcase.contains_manifest .none .none)).1 _ .none rfl rfl
  cases truthy

/-- Documents with the digests of the files are accepted, and the review is bound to them. -/
theorem inspect_bound_iff_declared : ∃ host names,
    (publicationFiles host Showcase.project .inspect [Showcase.inspectReceipt]).answered
      (look host (fun _ => .inside) Showcase.inspectDirectory) = .ok names ∧
    InspectBound host Showcase.inspectDirectory [Showcase.inspectReceipt] := by
  have accepted : (Showcase.inspected (.str ((Showcase.hostWith []).sha256 [22]))
      (.str ((Showcase.hostWith []).sha256 [23]))).isOk = true := by decide +kernel
  obtain ⟨names, result⟩ := Except.isOk_iff.mp accepted
  exact ⟨_, names, result, (inspect_bound_iff (Showcase.hostWith_sha256_ne_empty _) rfl
    result).mpr (Showcase.inspect_declares (Showcase.hostWith_sha256_ne_empty _ _)
      (Showcase.hostWith_sha256_ne_empty _ _))⟩

end Inspect

section Figures

variable {produced supplied : List (String × String)}

/-- The name that a text value notes. -/
def noted : Value → List String
  | .str s => [s]
  | _ => []

/-- The name is recorded with the digest that the file has, as far as `file` looks. -/
def Backed (host : Host) (d : Disk) (recorded : String → Option String) (v : Value) : Prop :=
  ∃ name sha, v = .str name ∧ recorded name = some sha ∧ Matches host d name (.str sha)

/-- An accepted source is a file that an execution recorded. -/
theorem passes_figureSource {v : Value}
    (passed : Passes host links d (figureSource host produced supplied v) paths () paths') :
    Backed host d (fun name => (produced.lookup name).or (supplied.lookup name)) v ∧
      paths' = paths ++ noted v := by
  unfold figureSource at passed
  simp only [passes_eval_bind, passes_need_bind, passes_file_bind, passes_pure] at passed
  obtain ⟨made, found_, given, found_', known, name, rfl, matched, -, rfl⟩ := passed
  obtain ⟨sha, either⟩ := Option.isSome_iff_exists.mp known
  obtain rfl := Except.ok.inj found_
  obtain rfl := Except.ok.inj found_'
  rw [either] at matched
  exact ⟨⟨name, sha, rfl, either, matched⟩, rfl⟩

/-- An accepted output is a file that an execution produced. -/
theorem passes_figureOutput {v : Value}
    (passed : Passes host links d (figureOutput host produced v) paths () paths') :
    Backed host d (fun name => produced.lookup name) v ∧ paths' = paths ++ noted v := by
  unfold figureOutput at passed
  simp only [passes_generated_bind, passes_task_bind, passes_eval_bind] at passed
  obtain ⟨name, rfl, sha, ⟨made, matched⟩, content, -, png, -, rest⟩ := passed
  refine ⟨⟨name, sha, rfl, made, matched⟩, ?_⟩
  have headers : Passes host links d (do
      let isPdf ← (liftM (eval ((Value.str name).endswith [".pdf"])) : Gate Bool)
      if isPdf then
        Gate.need (pdfHeader.isPrefixOf content)
          ("Not PDF: " ++ (Value.str name).text host.floatText)
      else pure ()) (paths ++ [name]) () paths' := by
    cases png with
    | true =>
        rw [if_pos rfl, passes_need_bind] at rest
        exact rest.2
    | false => exact rest
  rw [passes_eval_bind] at headers
  obtain ⟨pdf, -, rest⟩ := headers
  split at rest
  · exact (passes_need.mp rest).2
  · exact (passes_pure.mp rest).2

/-- The identifier of a figure or of a review. -/
def idOf : Value → Value
  | .dict fields => (fields.lookup "id").getD .none
  | _ => .none

theorem matching_ok {id : String} {reviews found_ : List Value}
    (done : matching (.str id) reviews = .ok found_) :
    found_ = reviews.filter fun r => (idOf r).beq (.str id) := by
  induction reviews generalizing found_ with
  | nil =>
      cases done
      rfl
  | cons r rest ih =>
      unfold matching at done
      simp only [bind_eq_ok, Value.get_eq_ok, pure_eq_ok] at done
      obtain ⟨_, ⟨fields, rfl, rfl⟩, others, more, rfl⟩ := done
      rw [List.filter_cons, ih more]
      rfl

theorem firstPng_ok {outputs : List Value} {png : Option Value}
    (found_ : firstPng outputs = .ok png) :
    png = outputs.find? fun v => match v with | .str s => endsWith s ".png" | _ => false := by
  induction outputs with
  | nil =>
      cases found_
      rfl
  | cons v rest ih =>
      unfold firstPng at found_
      simp only [bind_eq_ok, Value.endswith_eq_ok, List.any_cons, List.any_nil, Bool.or_false]
        at found_
      obtain ⟨_, ⟨s, rfl, rfl⟩, rest_⟩ := found_
      rw [List.find?_cons]
      dsimp only
      split at rest_
      next suffix =>
        rw [suffix]
        exact pure_eq_ok.mp rest_
      next other =>
        rw [Bool.not_eq_true] at other
        rw [other]
        exact ih rest_

/-- The review of a figure that passes: the only one with its identifier, and bound to the first
PNG file. -/
structure ReviewPasses (host : Host) (d : Disk) (reviews : List Value) (id : String)
    (outputs : List Value) (entry : List (String × Value)) (png : String) : Prop where
  only : (reviews.filter fun r => (idOf r).beq (.str id)) = [.dict entry]
  status : entry.lookup "status" = some (.str "pass")
  observations : ∃ text, entry.lookup "observations" = some (.str text) ∧ isSubstantive text = true
  first : (outputs.find? fun v => match v with | .str s => endsWith s ".png" | _ => false) =
    some (.str png)
  bound : ∃ sha, entry.lookup "sha256" = some (.str sha) ∧ d.HasDigest host (parts png) sha

theorem passes_figureReview {reviews outputs : List Value} {id : String}
    (passed : Passes host links d (figureReview host reviews (.str id) outputs) paths () paths') :
    ∃ entry png, ReviewPasses host d reviews id outputs entry png ∧ paths <+: paths' := by
  unfold figureReview at passed
  simp only [passes_eval_bind, passes_need_bind, passes_file_bind, passes_task_bind, passes_need,
    Value.isDict_eq_true, Value.get_eq_ok, Bool.and_eq_true, Value.beq_str,
    Value.isProse_eq_true, beq_iff_eq] at passed
  obtain ⟨found_, matched, single, ⟨entry, object⟩, rest⟩ := passed
  obtain ⟨review, rfl⟩ := List.length_eq_one_iff.mp single
  change review = .dict entry at object
  subst object
  obtain ⟨_, ⟨_, ⟨⟩, rfl⟩, _, ⟨_, ⟨⟩, rfl⟩, ⟨status, text, said, substantive⟩, rest⟩ := rest
  obtain ⟨_, ⟨_, ⟨⟩, rfl⟩, png, first, name, named, -, sha, current, bound, rfl⟩ := rest
  rw [Value.getD_none_eq_str] at status said bound
  refine ⟨entry, name, ⟨(matching_ok matched).symm, status, ⟨text, said, substantive⟩, ?_,
    sha, bound, digest_ok.mp current⟩, List.prefix_append _ _⟩
  rw [← firstPng_ok first]
  cases png with
  | none => cases named
  | some v => exact congrArg some named

/-- What a figure declares, with its review. -/
structure Figure where
  id : String
  script : String
  data : List Value
  outputs : List Value
  entry : List (String × Value)
  png : String

/-- A figure that passes, among the reviews. -/
structure FigurePasses (host : Host) (d : Disk) (produced supplied : List (String × String))
    (reviews : List Value) (fig : Value) (x : Figure) (paths : List String) : Prop where
  fields : ∃ fields, fig = .dict fields ∧ fields.lookup "id" = some (.str x.id) ∧
    fields.lookup "script" = some (.str x.script) ∧ fields.lookup "data" = some (.list x.data) ∧
    fields.lookup "outputs" = some (.list x.outputs)
  data : x.data ≠ []
  script : (supplied.lookup x.script).isSome = true
  sources : ∀ v ∈ .str x.script :: x.data,
    Backed host d (fun name => (produced.lookup name).or (supplied.lookup name)) v
  outputs : ∀ v ∈ x.outputs, Backed host d (fun name => produced.lookup name) v
  review : ReviewPasses host d reviews x.id x.outputs x.entry x.png
  listed : ∀ name, .str name ∈ .str x.script :: x.data ++ x.outputs → name ∈ paths

theorem mem_noted {values : List Value} {name : String} (mem : .str name ∈ values) :
    name ∈ values.flatMap noted :=
  List.mem_flatMap.mpr ⟨_, mem, List.mem_singleton.mpr rfl⟩

/-- A figure that is accepted has its sources, its outputs and exactly one review. -/
theorem passes_figure {reviews seen : List Value} {fig id : Value}
    (passed : Passes host links d (figure host produced supplied reviews seen fig) paths id
      paths') :
    ∃ x, FigurePasses host d produced supplied reviews fig x paths' ∧ id = .str x.id ∧
      id.isIn seen = false ∧ paths <+: paths' := by
  unfold figure at passed
  rw [passes_need_bind, Value.isDict_eq_true] at passed
  obtain ⟨⟨fields, rfl⟩, passed⟩ := passed
  obtain ⟨_, between, keys, rest⟩ := passes_bind.mp passed
  obtain ⟨prose, rfl⟩ := passes_forM_imp (C := fun key => ∃ s, fields.lookup key = some (.str s))
    (N := fun _ => []) (fun key paths paths' round => by
      simp only [passes_eval_bind, passes_need, Value.get_eq_ok, Value.isProse_eq_true] at round
      obtain ⟨_, ⟨_, ⟨⟩, rfl⟩, ⟨s, text, -⟩, rfl⟩ := round
      exact ⟨⟨s, Value.getD_none_eq_str.mp text⟩, (List.append_nil _).symm⟩) keys
  simp only [passes_eval_bind, passes_need_bind, Value.item_eq_ok, Value.get_eq_ok,
    Value.dict.injEq, exists_eq_left', Bool.not_eq_true', List.flatMap_eq_nil_iff.mpr
      (fun (_ : String) _ => rfl), List.append_nil] at rest
  obtain ⟨_, named, fresh, _, rfl, someData, _, scripted, known, found_, isKnown, sources, listed,
    rest⟩ := rest
  obtain ⟨data, isData, nonempty⟩ := Value.isNonemptyList_eq_true.mp someData
  obtain ⟨ident, hasId⟩ := prose "id" (by decide)
  obtain ⟨script, hasScript⟩ := prose "script" (by decide)
  obtain rfl := Option.some.inj (named.symm.trans hasId)
  obtain rfl := Option.some.inj (scripted.symm.trans hasScript)
  rw [isData] at listed
  obtain rfl := Except.ok.inj listed
  obtain ⟨_, between, sourced, rest⟩ := passes_bind.mp rest
  obtain ⟨backed, rfl⟩ := passes_forM_imp (fun _ _ _ => passes_figureSource) sourced
  simp only [passes_eval_bind, passes_need_bind, Value.get_eq_ok, Value.dict.injEq,
    exists_eq_left'] at rest
  obtain ⟨_, rfl, someOutputs, names, iterated, _, -, -, _, -, -, rest⟩ := rest
  obtain ⟨outputs, isOutputs, -⟩ := Value.isNonemptyList_eq_true.mp someOutputs
  rw [isOutputs] at iterated
  obtain rfl := Except.ok.inj iterated
  obtain ⟨_, between, made, rest⟩ := passes_bind.mp rest
  obtain ⟨backed', rfl⟩ := passes_forM_imp (fun _ _ _ => passes_figureOutput) made
  obtain ⟨_, between, reviewed, rest⟩ := passes_bind.mp rest
  obtain ⟨entry, png, review, more⟩ := passes_figureReview reviewed
  obtain ⟨rfl, rfl⟩ := passes_pure.mp rest
  obtain rfl := Except.ok.inj found_
  have before : paths <+: paths ++ (Value.str script :: data).flatMap noted ++
      outputs.flatMap noted := by
    rw [List.append_assoc]
    exact List.prefix_append _ _
  refine ⟨⟨ident, script, data, outputs, entry, png⟩, ⟨⟨fields, rfl, hasId, hasScript,
    Value.getD_none_eq_list.mp isData, Value.getD_none_eq_list.mp isOutputs⟩, nonempty, isKnown,
    backed, backed', review, ?_⟩, rfl, fresh, before.trans more⟩
  intro name mem
  refine more.subset ?_
  obtain mem | mem := List.mem_append.mp mem
  · exact List.mem_append_left _ (List.mem_append_right _ (mem_noted mem))
  · exact List.mem_append_right _ (mem_noted mem)

theorem FigurePasses.id_eq {reviews : List Value} {fig : Value} {x : Figure}
    (h : FigurePasses host d produced supplied reviews fig x paths) :
    idOf fig = .str x.id := by
  obtain ⟨fields, rfl, hasId, -⟩ := h.fields
  rw [idOf, hasId]
  rfl

theorem FigurePasses.mono {reviews : List Value} {fig : Value} {x : Figure}
    (h : FigurePasses host d produced supplied reviews fig x paths) (more : paths <+: paths') :
    FigurePasses host d produced supplied reviews fig x paths' :=
  { h with listed := fun name mem => more.subset (h.listed name mem) }

theorem passes_figureLoop {reviews seen figures : List Value}
    (passed : Passes host links d (figureLoop host produced supplied reviews seen figures) paths ()
      paths') :
    (∀ fig ∈ figures, ∃ x, FigurePasses host d produced supplied reviews fig x paths') ∧
      (figures.map idOf).Nodup ∧ (∀ fig ∈ figures, (idOf fig).isIn seen = false) ∧
      paths <+: paths' := by
  induction figures generalizing seen paths with
  | nil =>
      obtain ⟨-, rfl⟩ := passes_pure.mp passed
      exact ⟨nofun, .nil, nofun, List.prefix_rfl⟩
  | cons fig rest ih =>
      unfold figureLoop at passed
      obtain ⟨_, between, first, others⟩ := passes_bind.mp passed
      obtain ⟨x, passes, rfl, fresh, before⟩ := passes_figure first
      obtain ⟨all, distinct, unseen, after⟩ := ih others
      have same := passes.id_eq
      refine ⟨?_, ?_, ?_, before.trans after⟩
      · intro fig' mem
        obtain rfl | mem := List.mem_cons.mp mem
        · exact ⟨x, passes.mono after⟩
        · exact all fig' mem
      · rw [List.map_cons, List.nodup_cons, same]
        refine ⟨fun mem => ?_, distinct⟩
        obtain ⟨fig', there, same'⟩ := List.mem_map.mp mem
        have apart := unseen fig' there
        rw [same', Value.isIn, List.any_cons, Bool.or_eq_false_iff] at apart
        have itself : (Value.str x.id).same (.str x.id) = true := Value.same_str.mpr rfl
        rw [itself] at apart
        cases apart.1
      · intro fig' mem
        obtain rfl | mem := List.mem_cons.mp mem
        · rw [same]
          exact fresh
        · have apart := unseen fig' mem
          rw [Value.isIn, List.any_cons, Bool.or_eq_false_iff] at apart
          exact apart.2

/-- The documents of a figure stage that passes with some figures. -/
structure FiguresPass (host : Host) (d : Disk) (produced supplied : List (String × String))
    (figures reviews : List Value) (paths : List String) : Prop where
  review : ∃ fields, d.Contains host "figure-review.json" (.dict fields) ∧
    fields.lookup "figures" = some (.list reviews)
  covers : reviews.length = figures.length
  each : ∀ fig ∈ figures, ∃ x, FigurePasses host d produced supplied reviews fig x paths
  distinct : (figures.map idOf).Nodup
  documents : "figure-manifest.json" ∈ paths ∧ "figure-review.json" ∈ paths

theorem passes_figuresGate
    (passed : Passes host links d (figuresGate host produced supplied) paths () paths') :
    ∃ manifest figures, d.Contains host "figure-manifest.json" (.dict manifest) ∧
      manifest.lookup "figures" = some (.list figures) ∧
      (figures ≠ [] → ∃ reviews, FiguresPass host d produced supplied figures reviews paths') := by
  unfold figuresGate at passed
  simp only [passes_load_bind, passes_eval_bind, passes_need_bind, Value.get_eq_ok,
    Value.dict.injEq, exists_eq_left'] at passed
  obtain ⟨manifest, ⟨-, contains⟩, _, rfl, isList, _, iterated, _, rfl, -, rest⟩ := passed
  obtain ⟨figures, listed⟩ := Value.isList_eq_true.mp isList
  rw [listed] at iterated
  obtain rfl := Except.ok.inj iterated
  refine ⟨manifest, figures, contains, Value.getD_none_eq_list.mp listed, fun some_ => ?_⟩
  obtain ⟨reviewed, between, reviewing, rest⟩ := passes_bind.mp rest
  rw [reviewsOf, if_neg (by simpa using some_)] at reviewing
  simp only [passes_load_bind, passes_eval, Value.get_eq_ok, Value.dict.injEq, exists_eq_left']
    at reviewing
  obtain ⟨review, ⟨-, contains'⟩, rfl, rfl⟩ := reviewing
  simp only [passes_eval_bind, passes_need_bind, beq_iff_eq] at rest
  obtain ⟨reviews, isReviews, covers, rest⟩ := rest
  obtain ⟨each, distinct, -, more⟩ := passes_figureLoop rest
  refine ⟨reviews, ⟨review, contains', ?_⟩, covers, each, distinct, more.subset (by simp),
    more.subset (by simp)⟩
  cases found_ : review.lookup "figures" with
  | none =>
      rw [found_] at isReviews
      obtain rfl := Except.ok.inj isReviews
      exact absurd (List.eq_nil_of_length_eq_zero covers.symm) some_
  | some value =>
      rw [found_, Option.getD_some] at isReviews
      cases value with
      | list items =>
          obtain rfl := Except.ok.inj isReviews
          rfl
      | _ => cases isReviews

/-- Figures and reviews with the same number of members, each figure with a review of its own:
then they correspond one to one. -/
theorem FiguresPass.perm {figures reviews : List Value}
    (h : FiguresPass host d produced supplied figures reviews paths) :
    (reviews.map idOf).Perm (figures.map idOf) := by
  have among : figures.map idOf ⊆ reviews.map idOf := by
    intro id mem
    obtain ⟨fig, listed, rfl⟩ := List.mem_map.mp mem
    obtain ⟨x, passes⟩ := h.each fig listed
    have found_ : .dict x.entry ∈ reviews.filter fun r => (idOf r).beq (.str x.id) := by
      rw [passes.review.only]
      exact List.mem_singleton.mpr rfl
    obtain ⟨there, same⟩ := List.mem_filter.mp found_
    rw [passes.id_eq, ← Value.beq_str.mp same]
    exact List.mem_map_of_mem there
  have part := h.distinct.subperm among
  exact (part.perm_of_length_le (by simp [h.covers])).symm

/-- An output of one of the executions, which has not changed since. -/
def ProducedBy (host : Host) (d : Disk) (executions : List Receipt) (name : String) : Prop :=
  ∃ e ∈ executions, ∃ ref ∈ e.outputs, ref.path = name ∧ d.HasDigest host (parts name) ref.sha256

/-- An input or output of one of the executions, which has not changed since. -/
def RecordedBy (host : Host) (d : Disk) (executions : List Receipt) (name : String) : Prop :=
  ∃ e ∈ executions, ∃ ref ∈ e.inputs ++ e.outputs, ref.path = name ∧
    d.HasDigest host (parts name) ref.sha256

/-- A review that passes. -/
def ReviewIsPass (review : Value) : Prop :=
  ∃ entry text, review = .dict entry ∧ entry.lookup "status" = some (.str "pass") ∧
    entry.lookup "observations" = some (.str text) ∧ isSubstantive text = true

/-- The figure and its review are backed by the executions and the files. -/
def FigureBacked (host : Host) (d : Disk) (executions : List Receipt) (reviews : List Value)
    (names : List String) (fig : Value) : Prop :=
  ∃ fields id script data outputs, fig = .dict fields ∧
    fields.lookup "id" = some (.str id) ∧ fields.lookup "script" = some (.str script) ∧
    fields.lookup "data" = some (.list data) ∧ fields.lookup "outputs" = some (.list outputs) ∧
    ((∃ e ∈ executions, ∃ ref ∈ e.inputs, ref.path = script) ∧
      RecordedBy host d executions script ∧ script ∈ names) ∧
    (data ≠ [] ∧ ∀ v ∈ data, ∃ name, v = .str name ∧ RecordedBy host d executions name ∧
      name ∈ names) ∧
    (∀ v ∈ outputs, ∃ name, v = .str name ∧ ProducedBy host d executions name ∧ name ∈ names) ∧
    ∃ entry png sha, .dict entry ∈ reviews ∧ entry.lookup "id" = some (.str id) ∧
      (outputs.find? fun v => match v with | .str s => endsWith s ".png" | _ => false) =
        some (.str png) ∧
      entry.lookup "sha256" = some (.str sha) ∧ d.HasDigest host (parts png) sha

section Recorded

variable {executions : List Receipt}

/-- No execution records an empty digest. -/
def Printed (executions : List Receipt) : Prop :=
  ∀ e ∈ executions, ∀ ref ∈ e.inputs ++ e.outputs, ref.sha256 ≠ ""

/-- Receipts that `run` wrote hold digests of files. -/
theorem Session.Reachable.printed {m : Session} (reachable : Session.Reachable host m)
    (printed : ∀ content, host.sha256 content ≠ "")
    (written : ∀ e ∈ executions, e ∈ m.state.disk.receipts) : Printed executions := by
  intro e mem ref listed
  obtain ⟨inputs, outputs, -⟩ := (Session.governed reachable).invariant e (written e mem)
  obtain ⟨content, -, right⟩ := ((inputs.append outputs) ref listed).blob
  rw [← right]
  exact printed content

theorem Matches.hasDigest {name sha : String} (h : Matches host d name (.str sha))
    (some_ : sha ≠ "") : d.HasDigest host (parts name) sha := by
  obtain ⟨_, same, current⟩ := h.2 (Value.truthy_str.mpr some_)
  obtain rfl := Value.str.inj same
  exact current

theorem Backed.producedBy {v : Value}
    (h : Backed host d (fun name => (outputDigests executions).lookup name) v)
    (printed : Printed executions) : ∃ name, v = .str name ∧ ProducedBy host d executions name := by
  obtain ⟨name, sha, rfl, found_, matched⟩ := h
  obtain ⟨e, listed, ref, made, path, rfl⟩ := lookup_outputDigests found_
  have some_ := printed e listed ref (List.mem_append_right _ made)
  exact ⟨name, rfl, e, listed, ref, made, path, matched.hasDigest some_⟩

/-- The digests that some executions record for what they were given. -/
def inputDigests (executions : List Receipt) : List (String × String) :=
  digests (executions.flatMap (·.inputs))

theorem lookup_inputDigests {path sha : String}
    (found_ : (inputDigests executions).lookup path = some sha) :
    ∃ e ∈ executions, ∃ ref ∈ e.inputs, ref.path = path ∧ ref.sha256 = sha := by
  obtain ⟨ref, mem, same, same'⟩ := lookup_digests found_
  obtain ⟨e, listed, mem⟩ := List.mem_flatMap.mp mem
  exact ⟨e, listed, ref, mem, same, same'⟩

theorem Backed.recordedBy {v : Value}
    (h : Backed host d (fun name => ((outputDigests executions).lookup name).or
      ((inputDigests executions).lookup name)) v)
    (printed : Printed executions) : ∃ name, v = .str name ∧ RecordedBy host d executions name := by
  obtain ⟨name, sha, rfl, found_, matched⟩ := h
  have recorded : ∃ e ∈ executions, ∃ ref ∈ e.inputs ++ e.outputs, ref.path = name ∧
      ref.sha256 = sha := by
    rw [Option.or_eq_some_iff] at found_
    obtain made | ⟨-, given⟩ := found_
    · obtain ⟨e, listed, ref, mem, same⟩ := lookup_outputDigests made
      exact ⟨e, listed, ref, List.mem_append_right _ mem, same⟩
    · obtain ⟨e, listed, ref, mem, same⟩ := lookup_inputDigests given
      exact ⟨e, listed, ref, List.mem_append_left _ mem, same⟩
  obtain ⟨e, listed, ref, mem, path, rfl⟩ := recorded
  exact ⟨name, rfl, e, listed, ref, mem, path, matched.hasDigest (printed e listed ref mem)⟩

theorem FigurePasses.backed {reviews : List Value} {fig : Value} {x : Figure}
    (h : FigurePasses host d (outputDigests executions) (inputDigests executions) reviews fig x
      paths) (printed : Printed executions) : FigureBacked host d executions reviews paths fig := by
  obtain ⟨fields, rfl, hasId, hasScript, hasData, hasOutputs⟩ := h.fields
  obtain ⟨_, given⟩ := Option.isSome_iff_exists.mp h.script
  obtain ⟨e, listed, ref, mem, path, -⟩ := lookup_inputDigests given
  obtain ⟨_, ⟨⟩, recorded⟩ := (h.sources _ List.mem_cons_self).recordedBy printed
  have found_ : .dict x.entry ∈ reviews.filter fun r => (idOf r).beq (.str x.id) := by
    rw [h.review.only]
    exact List.mem_singleton.mpr rfl
  obtain ⟨there, same⟩ := List.mem_filter.mp found_
  obtain ⟨sha, bound, current⟩ := h.review.bound
  refine ⟨fields, x.id, x.script, x.data, x.outputs, rfl, hasId, hasScript, hasData, hasOutputs,
    ⟨⟨e, listed, ref, mem, path⟩, recorded, h.listed _ (by simp)⟩, ⟨h.data, ?_⟩, ?_, x.entry, x.png,
    sha, there, ?_, h.review.first, bound, current⟩
  · intro v mem
    obtain ⟨name, rfl, recorded⟩ := (h.sources v (List.mem_cons_of_mem _ mem)).recordedBy printed
    exact ⟨name, rfl, recorded, h.listed name (by simp [mem])⟩
  · intro v mem
    obtain ⟨name, rfl, made⟩ := (h.outputs v mem).producedBy printed
    exact ⟨name, rfl, made, h.listed name (by simp [mem])⟩
  · exact Value.getD_none_eq_str.mp (Value.beq_str.mp same)

/-- Every review is the one of some figure. -/
theorem FiguresPass.reviews_pass {figures reviews : List Value}
    (h : FiguresPass host d produced supplied figures reviews paths) :
    ∀ review ∈ reviews, ReviewIsPass review := by
  intro review mem
  have among := h.perm.subset (List.mem_map_of_mem (f := idOf) mem)
  obtain ⟨fig, listed, same⟩ := List.mem_map.mp among
  obtain ⟨x, passes⟩ := h.each fig listed
  have found_ : review ∈ reviews.filter fun r => (idOf r).beq (.str x.id) := by
    refine List.mem_filter.mpr ⟨mem, ?_⟩
    rw [← same, passes.id_eq]
    exact Value.beq_str.mpr rfl
  rw [passes.review.only] at found_
  obtain ⟨text, said, substantive⟩ := passes.review.observations
  exact ⟨x.entry, text, List.mem_singleton.mp found_, passes.review.status, said, substantive⟩

end Recorded

/-- The figure gate. If `publication_files` accepts a figure stage, for receipts that `run` wrote,
then the figures have distinct identifiers and correspond one to one to the reviews, all of which
pass; every figure is backed by the executions and bound to its review; and all their files are
returned. -/
theorem figures_backed {m : Session} {state : State} {executions : List Receipt}
    {names : List String} (reachable : Session.Reachable host m)
    (printed : ∀ content, host.sha256 content ≠ "")
    (written : ∀ e ∈ executions, e ∈ m.state.disk.receipts) (current : state.format = .v2)
    (accepted : (publicationFiles host state .figures executions).answered (look host links d) =
      .ok names) :
    ∃ manifest figures, d.Contains host "figure-manifest.json" (.dict manifest) ∧
      manifest.lookup "figures" = some (.list figures) ∧
      (figures ≠ [] → ∃ review reviews,
        d.Contains host "figure-review.json" (.dict review) ∧
        review.lookup "figures" = some (.list reviews) ∧
        (figures.map idOf).Nodup ∧ (reviews.map idOf).Perm (figures.map idOf) ∧
        (∀ r ∈ reviews, ReviewIsPass r) ∧
        (∀ fig ∈ figures, FigureBacked host d executions reviews names fig) ∧
        "figure-manifest.json" ∈ names ∧ "figure-review.json" ∈ names) := by
  unfold publicationFiles at accepted
  rw [current] at accepted
  simp only [answered_bind, bind_eq_ok, answered_pure, Except.ok.injEq] at accepted
  obtain ⟨⟨_, paths⟩, passed, rfl⟩ := accepted
  obtain ⟨manifest, figures, contains, listed, rest⟩ := passes_figuresGate passed
  refine ⟨manifest, figures, contains, listed, fun some_ => ?_⟩
  obtain ⟨reviews, pass⟩ := rest some_
  obtain ⟨review, contains', listed'⟩ := pass.review
  refine ⟨review, reviews, contains', listed', pass.distinct, pass.perm, pass.reviews_pass, ?_,
    List.mem_eraseDups.mpr pass.documents.1, List.mem_eraseDups.mpr pass.documents.2⟩
  intro fig mem
  obtain ⟨x, passes⟩ := pass.each fig mem
  refine FigurePasses.backed (x := x) ?_ (reachable.printed printed written)
  exact { passes with listed := fun name mem => List.mem_eraseDups.mpr (passes.listed name mem) }

namespace Showcase

def figureFiles : List (Path × Node) :=
  [(["figure-manifest.json"], .file [30]), (["figure-review.json"], .file [31]),
    (["plot.py"], .file [32]), (["data.csv"], .file [33]), (["fig.png"], .file pngHeader),
    (["fig.pdf"], .file pdfHeader)]

/-- A manifest of one figure. -/
def figureManifest : List (String × Value) :=
  [("figures", .list [.dict [("id", .str "f"), ("question", .str "how much"),
    ("caption", .str "cost"), ("script", .str "plot.py"), ("data", .list [.str "data.csv"]),
    ("outputs", .list [.str "fig.png", .str "fig.pdf"])]])]

def figureDocuments : List (Content × Value) :=
  [([30], .dict figureManifest),
    ([31], .dict [("figures", .list [.dict [("id", .str "f"), ("status", .str "pass"),
      ("observations", .str "legible"), ("sha256", .str ((hostWith []).sha256 pngHeader))]])])]

/-- An execution draws the figure. -/
def drawn : List (Command × Oracle × Nat) :=
  [created figureFiles .general true .v2,
    executed figureFiles .understand 'a' ["plot.py", "data.csv"] ["fig.png", "fig.pdf"]]

end Showcase

set_option maxRecDepth 100000 in
/-- A figure that an execution drew is accepted. -/
theorem figures_backed_drawn : ∃ names figures reviews,
    (publicationFiles (Showcase.hostWith Showcase.figureDocuments) Showcase.project .figures
      (Showcase.site Showcase.figureDocuments Showcase.drawn).disk.receipts).answered
      (look (Showcase.hostWith Showcase.figureDocuments) (fun _ => .inside)
        (Showcase.disk Showcase.figureFiles Showcase.figureDocuments Showcase.drawn)) =
      .ok names ∧
    figures ≠ [] ∧ (reviews.map idOf).Perm (figures.map idOf) ∧
    ∀ fig ∈ figures, FigureBacked (Showcase.hostWith Showcase.figureDocuments)
      (Showcase.disk Showcase.figureFiles Showcase.figureDocuments Showcase.drawn)
      (Showcase.site Showcase.figureDocuments Showcase.drawn).disk.receipts reviews names fig := by
  have accepted : ((publicationFiles (Showcase.hostWith Showcase.figureDocuments) Showcase.project
      .figures (Showcase.site Showcase.figureDocuments Showcase.drawn).disk.receipts).answered
      (look (Showcase.hostWith Showcase.figureDocuments) (fun _ => .inside)
        (Showcase.disk Showcase.figureFiles Showcase.figureDocuments
          Showcase.drawn))).isOk = true := by decide +kernel
  obtain ⟨names, result⟩ := Except.isOk_iff.mp accepted
  obtain ⟨manifest, figures, ⟨content, there, loaded⟩, listed, backed⟩ :=
    figures_backed (Showcase.reachable Showcase.figureDocuments Showcase.drawn)
      (Showcase.hostWith_sha256_ne_empty _) (fun _ mem => mem) rfl result
  have same : (Showcase.disk Showcase.figureFiles Showcase.figureDocuments Showcase.drawn).content
      (Showcase.hostWith Showcase.figureDocuments) (parts "figure-manifest.json") = some [30] := by
    decide +kernel
  obtain rfl := Option.some.inj (same.symm.trans there)
  obtain rfl : Showcase.figureManifest = manifest := Value.dict.inj (Except.ok.inj loaded)
  have some_ : figures ≠ [] := by
    obtain rfl := Value.list.inj (Option.some.inj listed)
    exact nofun
  obtain ⟨_, reviews, -, -, -, perm, -, each, -⟩ := backed some_
  exact ⟨names, figures, reviews, result, some_, perm, each⟩

end Figures

end Mathmodel.Workflow
