import Mathmodel.Workflow.Governed
import Mathmodel.Workflow.Scenario

/-!
# The ledger of executions

Receipts are only added, within the budget of the project. One that has ended
never changes again; at most one is running, and while it is, the state does
not change and only the run that opened it, or `abandon` with its identifier,
can end it. A success is backed by the log.
-/

namespace Mathmodel.Workflow

variable {host : Host} {c : Command} {entry s t : Site}

theorem keep_fresh {disk : Disk} {receipt : Receipt}
    (fresh : ∀ r ∈ disk.receipts, r.id ≠ receipt.id) :
    (disk.keep receipt).receipts = disk.receipts ++ [receipt] := by
  refine if_neg fun known => ?_
  obtain ⟨r, mem, same⟩ := List.any_eq_true.mp known
  exact fresh r mem (by simpa using same)

theorem keep_known {disk : Disk} {receipt old : Receipt} (known : old ∈ disk.receipts)
    (same : old.id = receipt.id) :
    (disk.keep receipt).receipts =
      disk.receipts.map fun r => if r.id = receipt.id then receipt else r :=
  if_pos (List.any_eq_true.mpr ⟨old, known, by simpa using same⟩)

/-- The receipts have identifiers of their own and at most one of them is running. -/
structure Disk.Sorted (disk : Disk) : Prop where
  nodup : (disk.receipts.map (·.id)).Nodup
  alone : ∀ r ∈ disk.receipts, ∀ r' ∈ disk.receipts, r.status = .running →
    r'.status = .running → r = r'

theorem Disk.Sorted.unique {disk : Disk} (sorted : disk.Sorted) {r r' : Receipt}
    (mem : r ∈ disk.receipts) (mem' : r' ∈ disk.receipts) (same : r.id = r'.id) : r = r' :=
  List.inj_on_of_nodup_map sorted.nodup mem mem' same

/-- How the receipts change in one step: not at all, by a new running one while all others
have ended, or by a new version of the running one. -/
inductive Turned (s t : Site) : Prop where
  | same (h : t.disk.receipts = s.disk.receipts)
  | opened (receipt : Receipt) (resolved : s.disk.Resolved)
      (fresh : ∀ r ∈ s.disk.receipts, r.id ≠ receipt.id)
      (h : t.disk.receipts = s.disk.receipts ++ [receipt])
  | replaced (old new : Receipt) (found : old ∈ s.disk.receipts) (running : old.status = .running)
      (origin : old.SameOrigin new)
      (h : t.disk.receipts = s.disk.receipts.map fun r => if r.id = new.id then new else r)

/-- Whatever a command does, the receipts change in one of these ways. -/
theorem Deed.turned (deed : Deed host c entry s t) : Turned s t := by
  cases deed with
  | still h => exact .same h.disk.receipts
  | created _ _ _ _ _ _ _ _ _ wrote => exact .same wrote.receipts
  | registered _ _ _ _ _ _ _ _ wrote => exact .same wrote.receipts
  | reopened _ _ _ _ _ _ _ wrote => exact .same wrote.receipts
  | refreshed _ _ _ _ _ _ _ wrote => exact .same wrote.receipts
  | upgraded _ _ _ _ _ _ wrote => exact .same wrote.receipts
  | opened args state receipt command found resolved budget fresh running revision outputs inputs
      logs filed => exact .opened receipt resolved fresh (filed.receipts.trans (keep_fresh fresh))
  | updated args old new command own found running origin outputs filed earned =>
      exact .replaced old new found running origin.toSameOrigin
        (filed.receipts.trans (keep_known found origin.id.symm))
  | abandoned reason old new command found running origin outputs failed filed =>
      exact .replaced old new found running origin.toSameOrigin
        (filed.receipts.trans (keep_known found origin.id.symm))

theorem map_id_replace (receipts : List Receipt) (new : Receipt) :
    (receipts.map fun r => if r.id = new.id then new else r).map (·.id) = receipts.map (·.id) := by
  rw [List.map_map]
  refine List.map_congr_left fun r _ => ?_
  simp only [Function.comp_apply]
  split
  next same => exact same.symm
  next => rfl

theorem mem_replace {receipts : List Receipt} {new r : Receipt}
    (mem : r ∈ receipts.map fun r => if r.id = new.id then new else r) :
    r = new ∨ (r ∈ receipts ∧ r.id ≠ new.id) := by
  obtain ⟨x, found, rfl⟩ := List.mem_map.mp mem
  split
  next => exact .inl rfl
  next other => exact .inr ⟨found, other⟩

theorem Turned.sorted (turned : Turned s t) (sorted : s.disk.Sorted) : t.disk.Sorted := by
  cases turned with
  | same h => exact ⟨h ▸ sorted.nodup, h ▸ sorted.alone⟩
  | opened receipt resolved fresh h =>
      refine ⟨?_, ?_⟩
      · rw [h, List.map_append, List.nodup_append]
        refine ⟨sorted.nodup, by simp, ?_⟩
        rintro a mem b single rfl
        obtain ⟨r, found, rfl⟩ := List.mem_map.mp mem
        exact fresh r found (by simpa using single)
      · have last : ∀ r ∈ t.disk.receipts, r.status = .running → r = receipt := by
          intro r mem running
          rw [h] at mem
          obtain mem | mem := List.mem_append.mp mem
          · exact absurd running (resolved r mem)
          · exact List.mem_singleton.mp mem
        intro r mem r' mem' running running'
        rw [last r mem running, last r' mem' running']
  | replaced old new found running origin h =>
      refine ⟨by rw [h, map_id_replace]; exact sorted.nodup, ?_⟩
      have only : ∀ r ∈ t.disk.receipts, r.status = .running → r = new := by
        intro r mem active
        rw [h] at mem
        obtain rfl | ⟨mem, other⟩ := mem_replace mem
        · rfl
        · exact absurd ((sorted.alone r mem old found active running) ▸ origin.id.symm) other
      intro r mem r' mem' active active'
      rw [only r mem active, only r' mem' active']

theorem Session.sorted {m : Session} (reachable : Session.Reachable host m) :
    m.state.disk.Sorted := by
  refine Session.induction (I := fun s => s.disk.Sorted) ⟨List.nodup_nil, ?_⟩
    (fun c s h => h) ?_ reachable
  · intro r mem
    cases mem
  exact fun c entry s t _ sorted deed => deed.turned.sorted sorted

/-- A receipt persists, and one that has ended is never changed. -/
theorem Turned.persists (turned : Turned s t) (sorted : s.disk.Sorted) :
    ∀ r ∈ s.disk.receipts, ∃ r' ∈ t.disk.receipts, r.SameOrigin r' ∧
      (r' = r ∨ r.status = .running) := by
  intro r mem
  cases turned with
  | same h => exact ⟨r, h ▸ mem, ⟨rfl, rfl, rfl, rfl⟩, .inl rfl⟩
  | opened receipt resolved fresh h =>
      exact ⟨r, h ▸ List.mem_append_left _ mem, ⟨rfl, rfl, rfl, rfl⟩, .inl rfl⟩
  | replaced old new found running origin h =>
      by_cases same : r.id = new.id
      · obtain rfl := sorted.unique mem found (same.trans origin.id)
        refine ⟨new, ?_, origin, .inr running⟩
        rw [h]
        exact List.mem_map.mpr ⟨r, mem, if_pos same⟩
      · refine ⟨r, ?_, ⟨rfl, rfl, rfl, rfl⟩, .inl rfl⟩
        rw [h]
        exact List.mem_map.mpr ⟨r, mem, if_neg same⟩

/-- The ids of the receipts only grow at the end. -/
theorem Turned.ids (turned : Turned s t) :
    s.disk.receipts.map (·.id) <+: t.disk.receipts.map (·.id) := by
  cases turned with
  | same h => exact h ▸ List.prefix_refl _
  | opened receipt resolved fresh h =>
      rw [h, List.map_append]
      exact List.prefix_append _ _
  | replaced old new found running origin h =>
      have ids := map_id_replace s.disk.receipts new
      rw [← h] at ids
      exact ids ▸ List.prefix_refl _

/-- The state is only written while nothing is running. -/
theorem Deed.state_of_running (deed : Deed host c entry s t) {r : Receipt}
    (mem : r ∈ s.disk.receipts) (running : r.status = .running) :
    t.disk.state = s.disk.state := by
  cases deed with
  | still h => exact h.disk.state
  | created _ _ _ _ unused => exact nomatch unused ▸ mem
  | registered _ _ _ _ _ ready => exact absurd running (ready.resolved r mem)
  | reopened _ _ _ _ _ resolved => exact absurd running (resolved r mem)
  | refreshed _ _ _ _ _ resolved => exact absurd running (resolved r mem)
  | upgraded _ _ _ _ _ resolved => exact absurd running (resolved r mem)
  | opened _ _ _ _ _ resolved => exact absurd running (resolved r mem)
  | updated _ _ _ _ _ _ _ _ _ filed => exact filed.state
  | abandoned _ _ _ _ _ _ _ _ _ filed => exact filed.state

/-- Who may end a running execution: the run that opened it, or `abandon` naming it. -/
theorem Deed.ends (deed : Deed host c entry s t) (sorted : s.disk.Sorted) {r r' : Receipt}
    (mem : r ∈ s.disk.receipts) (running : r.status = .running) (mem' : r' ∈ t.disk.receipts)
    (same : r'.id = r.id) (ended : r'.status ≠ .running) :
    (∃ reason, c = .abandon r.id reason) ∨
      ∃ args, c = .run args ∧ ∀ x ∈ entry.disk.receipts, x.id ≠ r.id := by
  have unchanged : t.disk.receipts = s.disk.receipts → False := by
    intro h
    have := sorted.unique mem (h ▸ mem') same.symm
    exact ended (this ▸ running)
  cases deed with
  | still h => exact (unchanged h.disk.receipts).elim
  | created _ _ _ _ _ _ _ _ _ wrote => exact (unchanged wrote.receipts).elim
  | registered _ _ _ _ _ _ _ _ wrote => exact (unchanged wrote.receipts).elim
  | reopened _ _ _ _ _ _ _ wrote => exact (unchanged wrote.receipts).elim
  | refreshed _ _ _ _ _ _ _ wrote => exact (unchanged wrote.receipts).elim
  | upgraded _ _ _ _ _ _ wrote => exact (unchanged wrote.receipts).elim
  | opened _ _ _ _ _ resolved => exact absurd running (resolved r mem)
  | updated args old new command own found active origin outputs filed earned =>
      obtain rfl := sorted.alone r mem old found running active
      exact .inr ⟨args, command, origin.id ▸ own⟩
  | abandoned reason old new command found active origin outputs failed filed =>
      obtain rfl := sorted.alone r mem old found running active
      exact .inl ⟨reason, origin.id ▸ command⟩

/-- The receipts of a project stay within its budget, and a success is earned. -/
structure Budgeted (host : Host) (s : Site) : Prop where
  budget : ∀ state, s.disk.state = some state → s.disk.receipts.length ≤ state.maxRuns
  unused : s.disk.state = none → s.disk.receipts = []
  earned : ∀ r ∈ s.disk.receipts, r.status = .succeeded → r.Earned host s.log

theorem Receipt.Earned.more {r : Receipt} {log : List Event} (h : r.Earned host log)
    (events : List Event) : r.Earned host (log ++ events) := by
  obtain ⟨args, before, declared, during, checked, after, opened, pid, proven⟩ := h
  refine ⟨args, before, declared, during, checked, after ++ events, opened, pid, ?_, proven.alone,
    proven.origin, proven.running, proven.inputs, proven.outputs⟩
  rw [proven.log]
  simp

theorem Budgeted.still (h : Budgeted host s) (still : s.Still t) : Budgeted host t := by
  obtain ⟨events, log, -⟩ := still.log
  refine ⟨?_, ?_, ?_⟩
  · rw [still.disk.state, still.disk.receipts]
    exact h.budget
  · rw [still.disk.state, still.disk.receipts]
    exact h.unused
  · rw [still.disk.receipts, log]
    exact fun r mem succeeded => (h.earned r mem succeeded).more events

/-- A state is written that has the same budget as the one before. -/
theorem Budgeted.wrote (h : Budgeted host s) {state new : State} (wrote : Wrote s new t)
    (found : s.disk.state = some state) (same : new.maxRuns = state.maxRuns) :
    Budgeted host t := by
  refine ⟨?_, ?_, ?_⟩
  · intro state' saved
    obtain rfl := Option.some.inj (wrote.state.symm.trans saved)
    rw [wrote.receipts, same]
    exact h.budget state found
  · exact fun none => nomatch wrote.state.symm.trans none
  · rw [wrote.receipts, wrote.log]
    exact fun r mem succeeded => (h.earned r mem succeeded).more _

theorem Budgeted.replaced (h : Budgeted host s) {old new : Receipt} (filed : Filed s new t)
    (found : old ∈ s.disk.receipts) (origin : old.SameOrigin new)
    (earned : new.status = .succeeded → new.Earned host t.log) : Budgeted host t := by
  have receipts := filed.receipts.trans (keep_known found origin.id.symm)
  refine ⟨?_, ?_, ?_⟩
  · rw [filed.state, receipts, List.length_map]
    exact h.budget
  · rw [filed.state]
    intro none
    exact nomatch h.unused none ▸ found
  · intro r mem succeeded
    rw [receipts] at mem
    obtain rfl | ⟨mem, -⟩ := mem_replace mem
    · exact earned succeeded
    · rw [filed.log]
      exact (h.earned r mem succeeded).more _

theorem Deed.budgeted (deed : Deed host c entry s t) (h : Budgeted host s) : Budgeted host t := by
  cases deed with
  | still still => exact h.still still
  | created args state command vacant unused stages history revision inputs wrote =>
      refine ⟨?_, fun none => (nomatch wrote.state.symm.trans none), ?_⟩
      · intro _ _
        rw [wrote.receipts, unused]
        exact Nat.zero_le _
      · intro r mem
        rw [wrote.receipts, unused] at mem
        cases mem
  | registered state stage step record found ready justified covers wrote =>
      exact h.wrote wrote found rfl
  | reopened state stage time reason found resolved enabled wrote => exact h.wrote wrote found rfl
  | refreshed state time reason refs found resolved inputs wrote => exact h.wrote wrote found rfl
  | upgraded state time reason legacy found resolved wrote => exact h.wrote wrote found rfl
  | opened args state receipt command found resolved budget fresh running revision outputs inputs
      logs filed =>
      have receipts := filed.receipts.trans (keep_fresh fresh)
      refine ⟨?_, ?_, ?_⟩
      · intro state' saved
        obtain rfl := Option.some.inj (found.symm.trans (filed.state ▸ saved))
        rw [receipts, List.length_append]
        exact budget
      · exact fun none => nomatch found.symm.trans (filed.state.symm.trans none)
      · intro r mem succeeded
        rw [receipts] at mem
        obtain mem | mem := List.mem_append.mp mem
        · rw [filed.log]
          exact (h.earned r mem succeeded).more _
        · obtain rfl := List.mem_singleton.mp mem
          exact nomatch running.symm.trans succeeded
  | updated args old new command own found running origin outputs filed earned =>
      exact h.replaced filed found origin.toSameOrigin earned
  | abandoned reason old new command found running origin outputs failed filed =>
      exact h.replaced filed found origin.toSameOrigin fun succeeded =>
        nomatch failed.symm.trans succeeded

/-- The ledger of executions over a whole session. -/
theorem execution_ledger {m : Session} (reachable : Session.Reachable host m) :
    -- within the budget, each under its own identifier, at most one running
    (∀ state, m.state.disk.state = some state → m.state.disk.receipts.length ≤ state.maxRuns) ∧
    (m.state.disk.state = none → m.state.disk.receipts = []) ∧
    (m.state.disk.receipts.map (·.id)).Nodup ∧
    (∀ r ∈ m.state.disk.receipts, ∀ r' ∈ m.state.disk.receipts, r.status = .running →
      r'.status = .running → r = r') ∧
    -- a success is backed by the log
    (∀ r ∈ m.state.disk.receipts, r.status = .succeeded → r.Earned host m.state.log) ∧
    (∀ m', Session.Step host m m' →
      -- receipts are only added, and one that has ended stays as it is
      m.state.disk.receipts.map (·.id) <+: m'.state.disk.receipts.map (·.id) ∧
      (∀ r ∈ m.state.disk.receipts, ∃ r' ∈ m'.state.disk.receipts, r.SameOrigin r' ∧
        (r' = r ∨ r.status = .running)) ∧
      -- the state stays while one is running, and only its own run or `abandon` ends it
      ∀ r ∈ m.state.disk.receipts, r.status = .running →
        m'.state.disk.state = m.state.disk.state ∧
        ∀ r' ∈ m'.state.disk.receipts, r'.id = r.id → r'.status ≠ .running →
          ∃ c entry d, m.process = some (c, entry, d) ∧ ((∃ reason, c = .abandon r.id reason) ∨
            ∃ args, c = .run args ∧ ∀ x ∈ entry.disk.receipts, x.id ≠ r.id)) ∧
    -- a command that began while one was running is refused, unless it only reports or abandons
    (∀ c entry out, m.process = some (c, entry, .ret out) →
      (∃ r ∈ entry.disk.receipts, r.status = .running) →
      c = .status ∨ c = .next ∨ ∃ id reason, c = .abandon id reason) := by
  have sorted := Session.sorted reachable
  have budgeted : Budgeted host m.state := by
    refine Session.induction (I := Budgeted host) ⟨?_, fun _ => rfl, ?_⟩ ?_ ?_ reachable
    · intro state found
      cases found
    · intro r mem
      cases mem
    · exact fun c s h => ⟨h.budget, h.unused,
        fun r mem succeeded => (h.earned r mem succeeded).more _⟩
    · exact fun c entry s t _ h deed => deed.budgeted h
  refine ⟨budgeted.budget, budgeted.unused, sorted.nodup, sorted.alone, budgeted.earned, ?_, ?_⟩
  · intro m' step
    have frozen : m'.state.disk = m.state.disk → m.state.disk.receipts.map (·.id) <+:
        m'.state.disk.receipts.map (·.id) ∧ (∀ r ∈ m.state.disk.receipts,
          ∃ r' ∈ m'.state.disk.receipts, r.SameOrigin r' ∧ (r' = r ∨ r.status = .running)) ∧
        ∀ r ∈ m.state.disk.receipts, r.status = .running →
          m'.state.disk.state = m.state.disk.state ∧ ∀ r' ∈ m'.state.disk.receipts,
            r'.id = r.id → r'.status ≠ .running → False := by
      intro same
      rw [same]
      refine ⟨List.prefix_refl _, fun r mem => ⟨r, mem, ⟨rfl, rfl, rfl, rfl⟩, .inl rfl⟩, ?_⟩
      intro r mem running
      refine ⟨rfl, fun r' mem' id ended => ended ?_⟩
      rw [sorted.unique mem' mem id]
      exact running
    obtain same | ⟨c, -, entered⟩ | ⟨c, entry, d, process, -, deed⟩ := Session.step reachable step
    · obtain ⟨ids, persists, fixed⟩ := frozen (congrArg Site.disk same)
      exact ⟨ids, persists, fun r mem running => ⟨(fixed r mem running).1,
        fun r' mem' id ended => ((fixed r mem running).2 r' mem' id ended).elim⟩⟩
    · obtain ⟨ids, persists, fixed⟩ := frozen (by rw [entered]; rfl)
      exact ⟨ids, persists, fun r mem running => ⟨(fixed r mem running).1,
        fun r' mem' id ended => ((fixed r mem running).2 r' mem' id ended).elim⟩⟩
    · refine ⟨deed.turned.ids, deed.turned.persists sorted, fun r mem running => ?_⟩
      refine ⟨deed.state_of_running mem running, fun r' mem' id ended => ?_⟩
      exact ⟨c, entry, d, process, deed.ends sorted mem running mem' id ended⟩
  · rintro c entry out returned ⟨r, mem, running⟩
    obtain ⟨-, done⟩ := (Session.governed reachable).process _ _ _ returned
    cases c with
    | status => exact .inl rfl
    | next => exact .inr (.inl rfl)
    | abandon id reason => exact .inr (.inr ⟨id, reason, rfl⟩)
    | upgrade reason => exact absurd running (done.1 r mem)
    | _ => exact absurd running (done r mem)

set_option maxRecDepth 100000 in
/-- An execution that succeeded. -/
theorem execution_ledger_completed : ∃ r ∈ (Scenario.site (Scenario.completed .v2)).disk.receipts,
    r.status = .succeeded ∧
      r.Earned Scenario.host (Scenario.site (Scenario.completed .v2)).log := by
  have done : ((Scenario.site (Scenario.completed .v2)).disk.receipts.any
      fun r => r.status == .succeeded) = true := by decide +kernel
  obtain ⟨r, mem, succeeded⟩ := List.any_eq_true.mp done
  rw [beq_iff_eq] at succeeded
  obtain ⟨-, -, -, -, earned, -⟩ :=
    execution_ledger (Scenario.reachable (Scenario.completed .v2))
  exact ⟨r, mem, succeeded, earned r mem succeeded⟩

end Mathmodel.Workflow
