import Mathmodel.Workflow.Conduct

/-!
# The contract of an execution

`run` writes the receipt of an execution up to three times. Between the first
and the last write the receipt on the disk is running, whatever happens to the
process; the last write is a success only if the log of this command shows the
exit code, the unchanged inputs and the outputs.
-/

namespace Mathmodel.Workflow

open Dialogue
open Site (Still)

variable {host : Host} {entry s : Site}

/-- The execution of the receipt is under way: the disk holds a running version of it. -/
structure Underway (entry start : Site) (r : Receipt) (t : Site) : Prop where
  own : ∀ x ∈ entry.disk.receipts, x.id ≠ r.id
  found : ∃ old ∈ t.disk.receipts, old.status = .running ∧ old.Continues r
  log : start.Extends t

/-- An execution stays underway through quiet requests. -/
theorem Underway.still {start t u : Site} {r : Receipt} (h : Underway entry start r t)
    (next : Still t u) : Underway entry start r u := by
  obtain ⟨old, mem, running, origin⟩ := h.found
  exact ⟨h.own, ⟨old, next.disk.receipts ▸ mem, running, origin⟩, h.log.trans next.log⟩

theorem Underway.origin {start t : Site} {r r' : Receipt} (h : Underway entry start r t)
    (same : r.Continues r') : Underway entry start r' t := by
  obtain ⟨old, mem, running, origin⟩ := h.found
  exact ⟨same.id ▸ h.own, ⟨old, mem, running, origin.trans same⟩, h.log⟩

theorem mem_keep (disk : Disk) (receipt : Receipt) : receipt ∈ (disk.keep receipt).receipts := by
  unfold Disk.keep
  dsimp only
  split
  next known =>
    obtain ⟨r, mem, same⟩ := List.any_eq_true.mp known
    rw [decide_eq_true_eq] at same
    exact List.mem_map.mpr ⟨r, mem, if_pos same⟩
  next => simp

theorem Underway.filed {start t u : Site} {r : Receipt} (h : Underway entry start r t)
    (running : r.status = .running) (filed : Filed t r u) : Underway entry start r u := by
  refine ⟨h.own, ⟨r, filed.receipts ▸ mem_keep _ _, running, ⟨⟨rfl, rfl, rfl, rfl⟩, rfl⟩⟩, ?_⟩
  exact h.log.trans (.single filed.log rfl)

/-- What the supervision of the process came to. A success is shown by the log since the
process was waited for. -/
structure Concluded (host : Host) (args : RunArgs) (entry start : Site) (base r : Receipt)
    (t : Site) : Prop where
  underway : Underway entry start r t
  origin : base.Continues r
  outputs : t.disk.Holds host r.outputs
  success : r.status = .succeeded → ∃ waiting ended pid, start.Extends waiting ∧
    ended.log = waiting.log ++ [.answered (.wait pid args.timeout) (.ok (.exited 0))] ∧
    Still ended t ∧ (∀ ref ∈ r.inputs, ReadAs host ended t (parts ref.path) ref.sha256) ∧
    List.Forall₂ (fun name ref => Captured host name false true ended ref t) args.output r.outputs

theorem Concluded.still {args : RunArgs} {start t u : Site} {base r : Receipt}
    (h : Concluded host args entry start base r t) (next : Still t u) :
    Concluded host args entry start base r u := by
  refine ⟨h.underway.still next, h.origin, h.outputs.mono next.disk, fun succeeded => ?_⟩
  obtain ⟨waiting, ended, pid, before, log, after, inputs, outputs⟩ := h.success succeeded
  refine ⟨waiting, ended, pid, before, log, after.trans next, ?_, ?_⟩
  · exact fun ref mem => (inputs ref mem).later next
  · exact outputs.imp fun _ _ known => known.widen host (.refl _) next

/-- An exception that `run` catches ends the execution as a failure. -/
theorem settle_holds {args : RunArgs} {start : Site} {base r : Receipt} {x : Task Receipt}
    {G : Site → Site → Prop} (origin : base.Continues r) (empty : r.outputs = [])
    (hx : x.Holds (serve host) G (Concluded host args entry start base)
      (fun _ => Underway entry start base) s) :
    (settle r x).Holds (serve host) G (Concluded host args entry start base)
      (fun _ => Underway entry start base) s := by
  refine holds_handle (hx.mono (fun _ _ g => g) (fun _ _ g => g) ?_)
  intro e t underway
  split
  · have same : base.Continues { r with status := .failed, error := some e.message } :=
      ⟨⟨origin.id, origin.stage, origin.revision, origin.inputs⟩, origin.logs⟩
    exact ⟨underway.origin same, same, fun ref mem => (nomatch empty ▸ mem), nofun⟩
  · exact underway

/-- A process that is awaited without a failure has exited with the code that is returned. -/
theorem finds_await (pid : Nat) (timeout : Double) :
    Finds host (await pid timeout) fun s r t => r.2 = none →
      t.log = s.log ++ [.answered (.wait pid timeout) (.ok (.exited r.1))] := by
  refine (finds_bind (finds_ask (q := .wait pid timeout) rfl fun s ending t served =>
      serve_log served) (R := fun ending s r t =>
      r.2 = none → ending = .exited r.1 ∧ t = s) fun ending => ?_).mono ?_
  · cases ending with
    | exited code => exact finds_pure fun _ _ => ⟨rfl, rfl⟩
    | expired =>
        refine (finds_bind (Reads.ask rfl).finds fun _ =>
          finds_bind (Reads.ask rfl).finds fun code =>
          finds_pure (P := fun _ r _ => r = (code, some "timeout")) fun _ => rfl).mono ?_
        rintro s r u - ⟨_, _, -, -, -, code, _, -, -, -, rfl⟩
        exact nofun
    | interrupted =>
        refine (finds_bind (Reads.ask rfl).finds fun _ =>
          finds_bind (Reads.ask rfl).finds fun code =>
          finds_pure (P := fun _ r _ => r = (code, some "interrupted")) fun _ => rfl).mono ?_
        rintro s r u - ⟨_, _, -, -, -, code, _, -, -, -, rfl⟩
        exact nofun
  · rintro s r u - ⟨ending, t, -, log, -, known⟩ none
    obtain ⟨rfl, rfl⟩ := known none
    exact log

/-- A process is judged a success only with exit code 0, unchanged inputs and all outputs. -/
structure Judged (host : Host) (args : RunArgs) (r : Receipt) (code : Int)
    (failure : Option String) (s : Site) (new : Receipt) (t : Site) : Prop where
  code : code = 0
  failure : failure = none
  receipt : new = { r with outputs := new.outputs, status := .succeeded }
  inputs : ∀ ref ∈ r.inputs, ReadAs host s t (parts ref.path) ref.sha256
  outputs : List.Forall₂ (fun name ref => Captured host name false true s ref t)
    args.output new.outputs

/-- A receipt is judged by the code, the outputs and the inputs as they are found. -/
theorem finds_judge (args : RunArgs) (r : Receipt) (code : Int) (failure : Option String) :
    Finds host (judge host args r code failure) (Judged host args r code failure) := by
  refine (finds_bind (finds_check _ _) fun _ =>
    finds_bind (finds_forM (finds_checkInput host _) r.inputs) fun _ =>
    finds_bind (finds_mapM (fun p => finds_snapshot host p false true) args.output) fun outputs =>
    finds_pure (P := fun _ new _ => new = { r with outputs := outputs, status := .succeeded })
      fun _ => rfl).mono ?_
  rintro s new u - ⟨_, s₁, a₁, passed, r₁, _, s₂, a₂, inputs, r₂, outputs, s₃, a₃,
    captured, r₃, rfl⟩
  rw [Bool.and_eq_true, beq_iff_eq, Option.isNone_iff_eq_none] at passed
  refine ⟨passed.1, passed.2, rfl, ?_, ?_⟩
  · intro ref mem
    obtain ⟨t, t', before, known, after⟩ := inputs ref mem
    exact ((known.later after).later r₂).earlier (a₁.trans before)
  · refine captured.imp ?_
    rintro name ref ⟨t, t', before, known, after⟩
    exact known.widen host ((a₁.trans a₂).trans before) (after.trans r₃)

/-- A supervised process is filed as running before it ends, and then as what it has come to. -/
theorem supervise_holds (args : RunArgs) (r : Receipt) (running : r.status = .running)
    (empty : r.outputs = []) (underway : Underway entry s r s) :
    (supervise host args r).Holds (serve host) (Deed host (.run args) entry)
      (Concluded host args entry s r) (fun _ => Underway entry s r) s := by
  refine settle_holds ⟨⟨rfl, rfl, rfl, rfl⟩, rfl⟩ empty ?_
  refine Learns.then_ (finds_forM (fun _ => (Reads.ask rfl).finds) _) (fun _ _ => .still)
    (fun _ _ => underway.still) fun _ s₁ a₁ _ => ?_
  refine Learns.then_ (Reads.ask (q := .popen r.argv) rfl).finds (fun _ _ => .still)
    (fun _ _ next => underway.still (a₁.trans next)) fun pid s₂ a₂ _ => ?_
  have here := underway.still (a₁.trans a₂)
  refine settle_holds ⟨⟨rfl, rfl, rfl, rfl⟩, rfl⟩ empty ?_
  refine keeps_saveReceipt (fun _ _ => here.still) fun s₃ filed => ⟨?_, ?_⟩
  · obtain ⟨old, mem, open_, origin⟩ := here.found
    exact .updated args old { r with pid := some pid } rfl here.own mem open_
      (origin.trans ⟨⟨rfl, rfl, rfl, rfl⟩, rfl⟩) (fun ref mem => nomatch empty ▸ mem) filed
      fun ended => nomatch running.symm.trans ended
  have version : r.Continues { r with pid := some pid } := ⟨⟨rfl, rfl, rfl, rfl⟩, rfl⟩
  have begun := (here.origin version).filed running filed
  have base : Underway entry s r s₃ := begun.origin ⟨⟨rfl, rfl, rfl, rfl⟩, rfl⟩
  refine Learns.then_ (finds_await pid args.timeout) (fun _ _ => .still)
    (fun _ _ => base.still) fun ending s₄ a₄ waited => ?_
  obtain ⟨code, failure⟩ := ending
  refine settle_holds ⟨⟨rfl, rfl, rfl, rfl⟩, rfl⟩ empty ?_
  refine (finds_judge args _ code failure s₄).mono (fun _ _ => .still) ?_
    fun _ _ next => (base.still a₄).still next
  rintro new t ⟨after, rfl, rfl, receipt, inputs, outputs⟩
  have origin : r.Continues new := by
    rw [receipt]
    exact ⟨⟨rfl, rfl, rfl, rfl⟩, rfl⟩
  refine ⟨((base.still a₄).still after).origin origin, origin, Captured.holds outputs, fun _ => ?_⟩
  · refine ⟨s₃, s₄, pid, begun.log, waited rfl, after, ?_, outputs⟩
    rw [origin.inputs]
    exact inputs

/-- The segments of the log between the sites of a successful run. -/
theorem proven_of_sites {args : RunArgs} {opened r : Receipt} {pid : Nat}
    {before : List Event} {declared start waiting ended final last : Site}
    (began : entry.log = before ++ [.began (.run args)]) (first : Still entry declared)
    (open_ : start.log = declared.log ++ [.answered (.saveReceipt opened) (.ok ())])
    (between : start.Extends waiting)
    (waited : ended.log =
      waiting.log ++ [.answered (.wait pid args.timeout) (.ok (.exited 0))])
    (judged : Still ended final)
    (filed : last.log = final.log ++ [.answered (.saveReceipt r) (.ok ())])
    (origin : opened.SameOrigin r) (running : opened.status = .running)
    (inputs : List.Forall₂ (fun name ref => Captured host name false true entry ref declared)
      args.input r.inputs)
    (checked : ∀ ref ∈ r.inputs, ReadAs host ended final (parts ref.path) ref.sha256)
    (absent : ∀ name ∈ args.output,
      Seen entry declared (.answered (.exists (parts name)) (.ok false)))
    (outputs : List.Forall₂ (fun name ref => Captured host name false true ended ref final)
      args.output r.outputs) : r.Earned host last.log := by
  obtain ⟨l₁, log₁, plain₁⟩ := first.log
  obtain ⟨l₂, log₂, plain₂⟩ := between
  obtain ⟨l₃, log₃, plain₃⟩ := judged.log
  have declared_mem : ∀ {e}, Seen entry declared e → e ∈ l₁ := by
    rintro e ⟨events, log, mem⟩
    rwa [List.append_cancel_left (log₁.symm.trans log)]
  have checked_mem : ∀ {e}, Seen ended final e → e ∈ l₃ := by
    rintro e ⟨events, log, mem⟩
    rwa [List.append_cancel_left (log₃.symm.trans log)]
  refine ⟨args, before, l₁, l₂, l₃, [], opened, pid, ?_, ?_, origin, running, ?_, ?_⟩
  · rw [filed, log₃, waited, log₂, open_, log₁, began]
    simp
  · exact fun c => ⟨fun mem => (nomatch plain₁ _ mem), fun mem => (nomatch plain₂ _ mem),
      fun mem => (nomatch plain₃ _ mem)⟩
  · refine (List.forall₂_iff_get.mpr ⟨inputs.length_eq, ?_⟩)
    intro i hi hr
    have captured := inputs.get hi hr
    obtain ⟨content, same, seen⟩ := captured.digest
    obtain ⟨content', same', seen'⟩ := checked _ (List.get_mem _ ⟨i, hr⟩)
    exact ⟨captured.path, ⟨content, same, declared_mem seen⟩, content', same', checked_mem seen'⟩
  · refine (List.forall₂_iff_get.mpr ⟨outputs.length_eq, ?_⟩)
    intro i hi hr
    have captured := outputs.get hi hr
    obtain ⟨content, same, seen⟩ := captured.digest
    obtain ⟨bytes, positive, sized⟩ := captured.size rfl
    exact ⟨captured.path, declared_mem (absent _ (List.get_mem _ ⟨i, hi⟩)),
      checked_mem captured.isFile, ⟨bytes, positive, checked_mem sized⟩, content, same,
      checked_mem seen⟩

theorem logsInside (id : String) : ∀ name ∈ [receiptPrefix id ++ ".stdout",
    receiptPrefix id ++ ".stderr"], (parts name).headD "" = ".workflow" := by
  intro name mem
  obtain rfl | mem := List.mem_cons.mp mem
  · have shape : receiptPrefix id ++ ".stdout" = ".workflow/executions/" ++ (id ++ ".stdout") :=
      String.append_assoc
    rw [shape]
    exact headD_parts_workflow _
  · obtain rfl := List.mem_singleton.mp mem
    have shape : receiptPrefix id ++ ".stderr" = ".workflow/executions/" ++ (id ++ ".stderr") :=
      String.append_assoc
    rw [shape]
    exact headD_parts_workflow _

/-- `run` keeps the project in order. -/
theorem keeps_run {state : State} {before : List Event} (args : RunArgs)
    (began : entry.log = before ++ [.began (.run args)]) (since : Still entry s)
    (found : s.disk.state = some state) :
    Keeps host (.run args) entry (fun _ _ => s.disk.Resolved) (run host args state) s := by
  refine (finds_ready host state args.stage).then_ fun step s₁ a₁ ready => ?_
  refine (finds_check _ _).then_ fun _ s₂ a₂ _ => (finds_check _ _).then_ fun _ s₃ a₃ _ => ?_
  refine (finds_ask (q := .countReceipts) rfl fun s n t served =>
    serve_countReceipts served).then_ fun count s₄ a₄ counted => ?_
  refine (finds_check _ _).then_ fun _ s₅ a₅ budget => ?_
  refine (finds_mapM (fun p => finds_snapshot host p false true) args.input).then_
    fun inputs s₆ a₆ captured => ?_
  refine (finds_forM (finds_checkOutput host) args.output).then_ fun _ s₇ a₇ absent => ?_
  refine (finds_ask (q := .uuid4) rfl fun s id t served => serve_uuid4 served).then_
    fun id s₈ a₈ fresh => ?_
  refine (Reads.ask (q := .now) rfl).finds.then_ fun time s₉ a₉ _ => ?_
  have early := ((a₁.trans a₂).trans a₃).trans (a₄.trans a₅)
  have late := (a₇.trans a₈).trans a₉
  have whole := (early.trans a₆).trans late
  have unknown : ∀ r ∈ s₉.disk.receipts, r.id ≠ id := by
    rw [(a₈.trans a₉).disk.receipts]
    exact fresh
  refine keeps_saveReceipt (fun _ _ _ => trivial) fun s₁₀ filed => ⟨?_, ?_⟩
  · refine .opened args state _ rfl (whole.disk.state.trans found)
      (ready.resolved.mono whole.disk.receipts) ?_ unknown rfl rfl rfl
      ((Captured.holds (Captured.all captured)).mono late.disk) ?_ filed
    · rw [decide_eq_true_eq, counted] at budget
      rwa [whole.disk.receipts, ← ((a₁.trans a₂).trans a₃).disk.receipts]
    · exact logsInside id
  have underway : Underway entry s₁₀
      { id := id, stage := args.stage, revision := state.revision, argv := commandLine args.argv,
        startedAt := time, status := .running, inputs := inputs, outputs := [], pid := none,
        timeoutSeconds := args.timeout, platform := host.platform, python := host.python,
        logs := [receiptPrefix id ++ ".stdout", receiptPrefix id ++ ".stderr"],
        exitCode := none, error := none, endedAt := none } s₁₀ := by
    refine ⟨?_, ⟨_, filed.receipts ▸ mem_keep _ _, rfl, ⟨⟨rfl, rfl, rfl, rfl⟩, rfl⟩⟩, .refl _⟩
    rw [← since.disk.receipts, ← whole.disk.receipts]
    exact unknown
  refine holds_bind ((supervise_holds args _ rfl rfl underway).mono (fun _ _ deed => deed) ?_
    fun _ _ _ => trivial)
  intro r s₁₁ concluded
  refine (Reads.ask (q := .now) rfl).finds.then_ fun ended s₁₂ a₁₂ _ => ?_
  obtain ⟨⟨own, ⟨old, mem, running, version⟩, log⟩, origin, outputs, success⟩ :=
    concluded.still a₁₂
  refine keeps_saveReceipt (fun _ _ _ => trivial) fun s₁₃ filed' => ⟨?_, ready.resolved⟩
  refine .updated args old { r with endedAt := some ended } rfl own mem running
    (version.trans ⟨⟨rfl, rfl, rfl, rfl⟩, rfl⟩) outputs filed' fun succeeded => ?_
  obtain ⟨waiting, exited, pid, between, waited, judged, checked, made⟩ := success succeeded
  refine proven_of_sites began (since.trans whole) filed.log between waited judged filed'.log
    (origin.toSameOrigin.trans ⟨rfl, rfl, rfl, rfl⟩) rfl ?_ checked ?_ made
  · have same : r.inputs = inputs := origin.inputs
    rw [same]
    exact (Captured.all captured).imp fun _ _ known => known.widen host (since.trans early) late
  · intro name mem
    obtain ⟨t, t', before, seen, after⟩ := absent name mem
    exact (seen.later (after.trans (a₈.trans a₉))).earlier
      (((since.trans early).trans a₆).trans before)

end Mathmodel.Workflow
