import Mathmodel.Workflow.Execution

/-!
# Every session is governed by deeds

The contracts of the commands, put together: whatever is started, answered or
killed, each step of a session that began in an empty directory leaves the site
alone, starts a command, or is a `Deed` of the command at work. `Session.induction`
turns this into a rule for invariants of the project.
-/

namespace Mathmodel.Workflow

open Dialogue
open Site (Still)

variable {host : Host} {entry s t : Site}

section Main

/-- The reports on a project keep it in order; a strict one finds every execution ended. -/
theorem keeps_inspect {c : Command} (strict : Bool) (state : State) :
    Keeps host c entry (fun _ _ => strict = true → s.disk.Resolved)
      (inspect host strict state) s := by
  refine (reads_problems host state).finds.then_ fun issues s₁ a₁ _ => ?_
  refine (finds_pending host).then_ fun active s₂ a₂ now => ?_
  refine (Reads.ask rfl).finds.then_ fun count s₃ a₃ _ => ?_
  refine (finds_check _ _).then_ fun _ s₄ a₄ passed => ?_
  intro strictly
  rw [strictly, now, a₁.disk.receipts] at passed
  refine resolved_of_filter ?_
  simp only [Bool.not_true, Bool.false_or, Bool.and_eq_true] at passed
  exact passed.2

theorem reads_checkStopped (pid : Option Nat) : Reads (checkStopped pid) := by
  unfold checkStopped
  split
  · exact .pure _
  · exact .pure _
  · exact .bind (.ask rfl) fun _ => .check _ _

/-- `abandon` keeps the project in order. -/
theorem keeps_abandon (execution reason : String) :
    Keeps host (.abandon execution reason) entry (fun _ _ => True)
      (abandon execution reason) s := by
  refine (finds_check _ _).then_ fun _ s₁ a₁ _ =>
    (finds_pending host).then_ fun active s₂ a₂ now => ?_
  split
  next receipt only =>
    have mem : receipt ∈ active.filter (·.id = execution) := by rw [only]; simp
    rw [now] at mem
    simp only [List.mem_filter, decide_eq_true_eq] at mem
    obtain ⟨⟨found, running⟩, rfl⟩ := mem
    refine (reads_checkStopped receipt.pid).finds.then_ fun _ s₃ a₃ _ => ?_
    refine (Reads.ask (q := .now) rfl).finds.then_ fun ended s₄ a₄ _ => ?_
    refine keeps_saveReceipt (fun _ _ _ => trivial) fun t filed => ⟨?_, trivial⟩
    refine .abandoned reason receipt { receipt with
      status := .failed, error := some ("Operator abandoned: " ++ reason),
      endedAt := some ended } rfl ?_ running ⟨⟨rfl, rfl, rfl, rfl⟩, rfl⟩ rfl rfl filed
    rw [((a₂.trans a₃).trans a₄).disk.receipts]
    exact found
  next => exact Finds.keeps (P := fun _ _ _ => True) (Reads.eval _).finds fun _ _ _ _ => trivial

/-- The state a command works on is that of the disk. -/
theorem finds_locked :
    Finds host locked fun s state _ => s.disk.state = some state := by
  refine (finds_bind (views_localPath _ _).looks.reads.finds fun _ =>
    finds_bind (Reads.ask rfl).finds fun _ =>
    finds_bind (finds_check _ _) fun _ =>
    finds_bind (views_localPath _ _).looks.reads.finds fun _ =>
    finds_bind (Reads.ask rfl).finds fun _ =>
    finds_ask (q := .loadState) rfl fun s state t served => serve_loadState served).mono ?_
  rintro s state u - ⟨_, s₁, a₁, -, -, _, s₂, a₂, -, -, _, s₃, a₃, -, -, _, s₄, a₄, -, -, _,
    s₅, a₅, -, -, found⟩
  exact ((((a₁.trans a₂).trans a₃).trans a₄).trans a₅).disk.state.symm.trans found

/-- What is known when a command returns. Those that work on the state, and `check`, are
refused as long as an execution is unresolved. -/
def Done (c : Command) (entry t : Site) : Prop :=
  match c with
  | .status | .next | .abandon _ _ => True
  | .upgrade reason => entry.disk.Resolved ∧ ∃ state time, entry.disk.state = some state ∧
      state.format = .v1 ∧ t.disk.state = some (state.upgraded time reason)
  | _ => entry.disk.Resolved

theorem keeps_main (c : Command) (s : Site) (kept : (s.enter c).disk.Kept host) :
    Keeps host c (s.enter c) (fun _ t => Done c (s.enter c) t) (result host c) (s.enter c) := by
  cases c with
  | init args =>
      refine Keeps.weaken (keeps_init host args) ?_
      intro _ _ unused r mem
      rw [unused] at mem
      cases mem
  | status =>
      refine finds_locked.then_ fun state t a found => ?_
      exact Keeps.weaken (keeps_inspect false state) fun _ _ _ => trivial
  | next =>
      refine finds_locked.then_ fun state t a found => ?_
      exact Keeps.weaken (keeps_inspect false state) fun _ _ _ => trivial
  | check =>
      refine finds_locked.then_ fun state t a found => ?_
      refine Keeps.weaken (keeps_inspect true state) fun _ _ resolved => ?_
      exact (resolved rfl).mono a.disk.receipts.symm
  | run args =>
      refine finds_locked.then_ fun state t a found => ?_
      refine Keeps.weaken (keeps_run args rfl a (a.disk.state.trans found)) fun _ _ resolved => ?_
      exact resolved.mono a.disk.receipts.symm
  | complete args =>
      refine finds_locked.then_ fun state t a found => ?_
      refine Keeps.weaken (keeps_complete host args (a.disk.state.trans found) (kept.mono a.disk))
        fun _ _ resolved => ?_
      exact resolved.mono a.disk.receipts.symm
  | skip stage reason =>
      refine finds_locked.then_ fun state t a found => ?_
      refine Keeps.weaken (keeps_skip host stage reason (a.disk.state.trans found))
        fun _ _ resolved => ?_
      exact resolved.mono a.disk.receipts.symm
  | reopen stage reason =>
      refine finds_locked.then_ fun state t a found => holds_bind ?_
      refine Keeps.weaken (keeps_reopen host stage reason (a.disk.state.trans found))
        fun _ _ done => ?_
      exact done.resolved.mono a.disk.receipts.symm
  | refreshInputs reason =>
      refine finds_locked.then_ fun state t a found => ?_
      refine Keeps.weaken (keeps_refreshInputs host reason (a.disk.state.trans found))
        fun _ _ resolved => ?_
      exact resolved.mono a.disk.receipts.symm
  | «export» destination =>
      refine finds_locked.then_ fun state t a found => ?_
      refine Keeps.weaken (keeps_export host destination) fun _ _ resolved => ?_
      exact resolved.mono a.disk.receipts.symm
  | abandon execution reason =>
      refine finds_locked.then_ fun state t a found => ?_
      exact Keeps.weaken (keeps_abandon execution reason) fun _ _ _ => trivial
  | upgrade reason =>
      refine finds_locked.then_ fun state t a found => ?_
      refine Keeps.weaken (keeps_upgrade host reason (a.disk.state.trans found)) ?_
      rintro _ _ ⟨resolved, legacy, time, saved⟩
      exact ⟨resolved.mono a.disk.receipts.symm, state, time, found, legacy, saved⟩

end Main

section Runs

theorem mem_keep_cases {disk : Disk} {receipt r : Receipt}
    (mem : r ∈ (disk.keep receipt).receipts) :
    r = receipt ∨ r ∈ disk.receipts := by
  unfold Disk.keep at mem
  dsimp only at mem
  split at mem
  · obtain ⟨x, found, rfl⟩ := List.mem_map.mp mem
    split
    · exact .inl rfl
    · exact .inr found
  · obtain mem | mem := List.mem_append.mp mem
    · exact .inr mem
    · exact .inl (List.mem_singleton.mp mem)

/-- Writing a state keeps what the receipts name. -/
theorem Wrote.kept {state : State} (wrote : Wrote s state t) (kept : s.disk.Kept host) :
    t.disk.Kept host := by
  intro r mem
  obtain ⟨inputs, outputs, logs⟩ := kept r (wrote.receipts ▸ mem)
  have blobs := fun sha content (h : s.disk.blobs.lookup sha = some content) => wrote.blobs ▸ h
  exact ⟨inputs.of_blobs blobs, outputs.of_blobs blobs, logs⟩

/-- Filing a receipt keeps what the receipts name, if it names what is kept. -/
theorem Filed.kept {receipt : Receipt} (filed : Filed s receipt t) (kept : s.disk.Kept host)
    (inputs : s.disk.Holds host receipt.inputs) (outputs : s.disk.Holds host receipt.outputs)
    (logs : receipt.LogsInside) : t.disk.Kept host := by
  intro r mem
  have blobs := fun sha content (h : s.disk.blobs.lookup sha = some content) => filed.blobs ▸ h
  rw [filed.receipts] at mem
  obtain rfl | mem := mem_keep_cases mem
  · exact ⟨inputs.of_blobs blobs, outputs.of_blobs blobs, logs⟩
  · obtain ⟨inputs, outputs, logs⟩ := kept r mem
    exact ⟨inputs.of_blobs blobs, outputs.of_blobs blobs, logs⟩

theorem Deed.kept {c : Command} (deed : Deed host c entry s t) (kept : s.disk.Kept host) :
    t.disk.Kept host := by
  cases deed with
  | still h => exact kept.mono h.disk
  | created _ _ _ _ _ _ _ _ _ wrote => exact wrote.kept kept
  | registered _ _ _ _ _ _ _ _ wrote => exact wrote.kept kept
  | reopened _ _ _ _ _ _ _ wrote => exact wrote.kept kept
  | refreshed _ _ _ _ _ _ _ wrote => exact wrote.kept kept
  | upgraded _ _ _ _ _ _ wrote => exact wrote.kept kept
  | opened _ _ receipt _ _ _ _ _ _ _ outputs inputs logs filed =>
      exact filed.kept kept inputs (fun ref mem => (nomatch outputs ▸ mem)) logs
  | updated _ old new _ _ found _ origin outputs filed _ =>
      obtain ⟨inputs, -, logs⟩ := kept old found
      exact filed.kept kept (origin.inputs ▸ inputs) outputs (logs.continues origin)
  | abandoned _ old new _ found _ origin outputs _ filed =>
      obtain ⟨inputs, made, logs⟩ := kept old found
      exact filed.kept kept (origin.inputs ▸ inputs) (outputs ▸ made) (logs.continues origin)

/-- Each reachable session is governed by the contracts of the commands. -/
theorem Session.governed {m : Session} (reachable : Session.Reachable host m) :
    Machine.Governed (serve host) (fun s => s.disk.Kept host) (Deed host)
      (fun c entry _ t => Done c entry t) (fun _ _ _ _ => True) m := by
  have entering : ∀ c s, s.disk.Kept host → (Site.enter c s).disk.Kept host := fun _ _ kept => kept
  refine Machine.Governed.reached entering (fun c entry s t _ kept deed => deed.kept kept)
    (fun c s kept => keeps_main c s kept) ?_ reachable
  refine ⟨?_, fun c entry d none => ?_⟩
  · intro r mem
    cases mem
  · cases none

/-- What one event of a session does to the site. -/
theorem Session.step {m m' : Session} (reachable : Session.Reachable host m)
    (step : Session.Step host m m') :
    m'.state = m.state ∨ (∃ c, m.process = none ∧ m'.state = m.state.enter c) ∨
    ∃ c entry d, m.process = some (c, entry, d) ∧ entry.disk.Kept host ∧
      Deed host c entry m.state m'.state :=
  (Session.governed reachable).step step

/-- What holds of an empty directory and is kept by every deed holds in every session. -/
theorem Session.induction {I : Site → Prop} (new : I ⟨Disk.empty, []⟩)
    (enter : ∀ c s, I s → I (s.enter c))
    (deed : ∀ c entry s t, s.disk.Kept host → I s → Deed host c entry s t → I t) {m : Session}
    (reachable : Session.Reachable host m) : I m.state := by
  induction reachable with
  | refl => exact new
  | @tail m m' reachable step ih =>
      obtain same | ⟨c, -, entered⟩ | ⟨c, entry, d, -, -, done⟩ := Session.step reachable step
      · rw [same]
        exact ih
      · rw [entered]
        exact enter c _ ih
      · exact deed c entry _ _ (Session.governed reachable).invariant ih done

end Runs

end Mathmodel.Workflow
