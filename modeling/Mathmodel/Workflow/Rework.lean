import Mathmodel.Workflow.Ledger
import Mathmodel.Workflow.Order

/-!
# Evidence and rework

One revision counter separates the evidence before a rework from that after it.
History entries are numbered from 1 without a gap and the state carries the next
number; a record carries the number of its completion and cites executions of the
same number. So an entry with the number of a record, or a later one, was made
after the record, and it started behind the stage of the record or the record
would be gone.
-/

namespace Mathmodel.Workflow

variable {host : Host} {c : Command} {entry s t : Site}

/-- The place of a stage among all stages. -/
def StageId.rank (k : StageId) : Nat := (currentStages.map (·.id)).idxOf k

/-- What comes before a stage in the list in force has a smaller rank. -/
theorem rank_lt {format : Format} {pdf : Bool} {k j : StageId}
    (active : k ∈ (stagesOf format pdf).map (·.id)) (enabled : j ∈ (stagesOf format pdf).map (·.id))
    (kept : k ∉ ((stagesOf format pdf).map (·.id)).drop
      (((stagesOf format pdf).map (·.id)).idxOf j)) : k.rank < j.rank := by
  have all : ∀ k ∈ (stagesOf format pdf).map (·.id), ∀ j ∈ (stagesOf format pdf).map (·.id),
      k ∉ ((stagesOf format pdf).map (·.id)).drop (((stagesOf format pdf).map (·.id)).idxOf j) →
      k.rank < j.rank := by
    cases format <;> cases pdf <;> decide
  exact all k active j enabled kept

namespace State

/-- The history is numbered from 1 on, and the revision is the next number. -/
structure Numbered (state : State) : Prop where
  revision : state.revision = state.history.length + 1
  history : state.history.map (·.revision) = List.range' 1 state.history.length

variable {state : State}

theorem Numbered.reopened (numbered : state.Numbered) (stage : StageId) (time reason : String) :
    (state.reopened stage time reason).Numbered := by
  refine ⟨?_, ?_⟩
  · simp [State.reopened, numbered.revision]
  · simp only [State.reopened, List.map_append, numbered.history, numbered.revision,
      List.length_append, List.map_cons, List.map_nil, List.length_cons, List.length_nil]
    rw [List.range'_concat]
    simp [Nat.add_comm]

theorem Numbered.lt (numbered : state.Numbered) {h : Entry} (mem : h ∈ state.history) :
    h.revision < state.revision := by
  have number : h.revision ∈ state.history.map (·.revision) := List.mem_map_of_mem mem
  rw [numbered.history, List.mem_range'_1] at number
  rw [numbered.revision]
  omega

/-- An entry beyond the first `n` has a number above `n`. -/
theorem Numbered.le_of_drop (numbered : state.Numbered) {n : Nat} {h : Entry}
    (mem : h ∈ state.history.drop n) : n + 1 ≤ h.revision := by
  have number : h.revision ∈ (state.history.drop n).map (·.revision) := List.mem_map_of_mem mem
  rw [List.map_drop, numbered.history, List.drop_range', List.mem_range'_1] at number
  omega

end State

/-- The records and receipts of a project are tied to its revisions. -/
structure Tied (disk : Disk) (state : State) : Prop where
  numbered : state.Numbered
  receipts : ∀ r ∈ disk.receipts, r.revision ≤ state.revision
  records : ∀ k time revision files executions note,
    (k, Record.done time revision files executions note) ∈ state.stages →
    revision ≤ state.revision ∧
    (∀ id ∈ executions, ∃ r ∈ disk.receipts, r.id = id ∧ r.status = .succeeded ∧ r.stage = k ∧
      r.revision = revision) ∧
    ∀ h ∈ state.history, revision ≤ h.revision → k.rank < h.start.rank

/-- The receipts may change as long as successes stay and no later revision appears. -/
theorem Tied.receipts_change {disk disk' : Disk} {state : State} (tied : Tied disk state)
    (bounded : ∀ r ∈ disk'.receipts, r.revision ≤ state.revision)
    (persist : ∀ r ∈ disk.receipts, r.status = .succeeded → r ∈ disk'.receipts) :
    Tied disk' state := by
  refine ⟨tied.numbered, bounded, ?_⟩
  intro k time revision files executions note mem
  obtain ⟨le, cited, behind⟩ := tied.records k time revision files executions note mem
  refine ⟨le, fun id named => ?_, behind⟩
  obtain ⟨r, found, same, succeeded, stage, number⟩ := cited id named
  exact ⟨r, persist r found succeeded, same, succeeded, stage, number⟩

theorem Tied.same {disk disk' : Disk} {state : State} (tied : Tied disk state)
    (receipts : disk'.receipts = disk.receipts) : Tied disk' state :=
  tied.receipts_change (receipts ▸ tied.receipts) fun _ mem _ => receipts ▸ mem

theorem Tied.register {disk : Disk} {state : State} (tied : Tied disk state) {step : Stage}
    {record : Record} (current : state.current = some step)
    (justified : ∀ time revision files executions note,
      record = .done time revision files executions note → revision = state.revision ∧
        ∀ id ∈ executions, ∃ r ∈ disk.receipts, r.id = id ∧ r.status = .succeeded ∧
          r.stage = step.id ∧ r.revision = state.revision) :
    Tied disk (state.register step.id record) := by
  refine ⟨⟨tied.numbered.revision, tied.numbered.history⟩, tied.receipts, ?_⟩
  intro k time revision files executions note mem
  rw [State.keys_register (State.current_not_mem current)] at mem
  obtain mem | mem := List.mem_append.mp mem
  · exact tied.records k time revision files executions note mem
  · obtain ⟨rfl, rfl⟩ := Prod.mk.inj (List.mem_singleton.mp mem)
    obtain ⟨rfl, cited⟩ := justified _ _ _ _ _ rfl
    exact ⟨Nat.le_refl _, cited, fun h old le => absurd (tied.numbered.lt old) (by omega)⟩

theorem Tied.reopened {disk : Disk} {state : State} (tied : Tied disk state)
    (ordered : state.Ordered) {stage : StageId} (enabled : stage ∈ state.activeIds)
    (time reason : String) : Tied disk (state.reopened stage time reason) := by
  refine ⟨tied.numbered.reopened stage time reason, ?_, ?_⟩
  · exact fun r mem => Nat.le_succ_of_le (tied.receipts r mem)
  · intro k time' revision files executions note mem
    obtain ⟨mem, kept⟩ := List.mem_filter.mp mem
    obtain ⟨le, cited, behind⟩ := tied.records k time' revision files executions note mem
    refine ⟨Nat.le_succ_of_le le, cited, fun h made later => ?_⟩
    obtain made | made := List.mem_append.mp made
    · exact behind h made later
    · obtain rfl := List.mem_singleton.mp made
      obtain ⟨n, keys⟩ := ordered
      have known : k ∈ state.keys := List.mem_map_of_mem mem
      rw [keys] at known
      exact rank_lt (List.mem_of_mem_take known) enabled (of_decide_eq_true kept)

/-- The state on the disk, if there is one, is tied to the receipts. -/
def TiedSite (s : Site) : Prop := ∀ state, s.disk.state = some state → Tied s.disk state

theorem TiedSite.wrote {new : State} (wrote : Wrote s new t) (tied : Tied s.disk new) :
    TiedSite t := by
  intro state found
  obtain rfl := Option.some.inj (wrote.state.symm.trans found)
  exact tied.same wrote.receipts

theorem TiedSite.replaced (h : TiedSite s) (sorted : s.disk.Sorted) {old new : Receipt}
    (filed : Filed s new t) (found : old ∈ s.disk.receipts) (running : old.status = .running)
    (origin : old.SameOrigin new) : TiedSite t := by
  intro state saved
  have tied := h state (filed.state ▸ saved)
  have receipts := filed.receipts.trans (keep_known found origin.id.symm)
  refine tied.receipts_change ?_ ?_
  · intro r mem
    rw [receipts] at mem
    obtain rfl | ⟨mem, -⟩ := mem_replace mem
    · rw [origin.revision]
      exact tied.receipts old found
    · exact tied.receipts r mem
  · intro r mem succeeded
    have other : r.id ≠ new.id := by
      intro same
      obtain rfl := sorted.unique mem found (same.trans origin.id)
      exact nomatch running.symm.trans succeeded
    rw [receipts]
    exact List.mem_map.mpr ⟨r, mem, if_neg other⟩

theorem Deed.tied (deed : Deed host c entry s t) (sorted : s.disk.Sorted) (ordered : InOrder s)
    (h : TiedSite s) : TiedSite t := by
  cases deed with
  | still still =>
      intro state found
      exact (h state (still.disk.state ▸ found)).same still.disk.receipts
  | created args state command vacant unused stages history revision inputs wrote =>
      refine .wrote wrote ⟨⟨?_, ?_⟩, ?_, ?_⟩
      · rw [revision, history, List.length_nil]
      · rw [history, List.map_nil, List.length_nil, List.range'_zero]
      · intro r mem
        rw [unused] at mem
        cases mem
      · intro k time revision files executions note mem
        rw [stages] at mem
        cases mem
  | registered state stage step record found ready justified covers wrote =>
      refine .wrote wrote ?_
      rw [← ready.id]
      refine (h state found).register ready.current ?_
      rintro time revision files executions note rfl
      exact ⟨justified.1, justified.2.2⟩
  | reopened state stage time reason found resolved enabled wrote =>
      exact .wrote wrote ((h state found).reopened (ordered state found).1 enabled time reason)
  | refreshed state time reason refs found resolved inputs wrote =>
      obtain ⟨numbered, receipts, records⟩ := h _ found
      exact .wrote wrote ⟨⟨numbered.revision, numbered.history⟩, receipts, records⟩
  | upgraded state time reason legacy found resolved wrote =>
      obtain ⟨numbered, receipts, records⟩ := h _ found
      exact .wrote wrote ⟨⟨numbered.revision, numbered.history⟩, receipts, records⟩
  | opened args state receipt command found resolved budget fresh running revision outputs inputs
      logs filed =>
      intro state' saved
      have receipts := filed.receipts.trans (keep_fresh fresh)
      obtain rfl := Option.some.inj (found.symm.trans (filed.state ▸ saved))
      refine (h state found).receipts_change ?_ ?_
      · intro r mem
        rw [receipts] at mem
        obtain mem | mem := List.mem_append.mp mem
        · exact (h state found).receipts r mem
        · rw [List.mem_singleton.mp mem, revision]
      · exact fun r mem _ => receipts ▸ List.mem_append_left _ mem
  | updated args old new command own found running origin outputs filed earned =>
      exact h.replaced sorted filed found running origin.toSameOrigin
  | abandoned reason old new command found running origin outputs failed filed =>
      exact h.replaced sorted filed found running origin.toSameOrigin

theorem Session.tied {m : Session} (reachable : Session.Reachable host m) : TiedSite m.state := by
  refine (Session.induction (I := fun s => s.disk.Sorted ∧ InOrder s ∧ TiedSite s)
    ⟨⟨List.nodup_nil, ?_⟩, nofun, nofun⟩ (fun c s h => h) ?_ reachable).2.2
  · intro r mem
    cases mem
  · rintro c entry s t - ⟨sorted, ordered, tied⟩ deed
    exact ⟨deed.turned.sorted sorted, deed.inOrder ordered, deed.tied sorted ordered tied⟩

/-- The receipts of an earlier session are still there, with their origin. -/
theorem Session.receipts_persist {m m' : Session} (reachable : Session.Reachable host m)
    (later : Relation.ReflTransGen (Session.Step host) m m') :
    ∀ r ∈ m.state.disk.receipts, ∃ r' ∈ m'.state.disk.receipts, r.SameOrigin r' := by
  induction later with
  | refl => exact fun r mem => ⟨r, mem, rfl, rfl, rfl, rfl⟩
  | @tail m₁ m₂ later step ih =>
      intro r mem
      obtain ⟨r', mem', origin⟩ := ih r mem
      have between := reachable.trans later
      obtain same | ⟨c, -, entered⟩ | ⟨c, entry, d, -, -, deed⟩ := Session.step between step
      · exact ⟨r', same ▸ mem', origin⟩
      · exact ⟨r', entered ▸ mem', origin⟩
      · obtain ⟨r'', mem'', next, -⟩ :=
          deed.turned.persists (Session.sorted between) r' mem'
        exact ⟨r'', mem'', origin.trans next⟩

/-- No evidence from before a rework counts after it. The executions that a done stage lists
succeeded in this stage at the revision of the record; every rework since the record was made
started behind the stage; and an execution that was there when a rework from this stage, or
from one before it, was still to come is not listed. -/
theorem no_stale_evidence {m : Session} (reachable : Session.Reachable host m) {state : State}
    (saved : m.state.disk.state = some state) {k : StageId} {time : String} {revision : Nat}
    {files : List Ref} {executions : List String} {note : String}
    (done : (k, Record.done time revision files executions note) ∈ state.stages) :
    (∀ id ∈ executions, (∃ r ∈ m.state.disk.receipts, r.id = id) ∧
      ∀ r ∈ m.state.disk.receipts, r.id = id →
        r.status = .succeeded ∧ r.stage = k ∧ r.revision = revision) ∧
    (∀ h ∈ state.history, revision ≤ h.revision → k.rank < h.start.rank) ∧
    (∀ m₀ state₀, Session.Reachable host m₀ → Relation.ReflTransGen (Session.Step host) m₀ m →
      m₀.state.disk.state = some state₀ →
      ∀ r ∈ m₀.state.disk.receipts, ∀ h ∈ state.history.drop state₀.history.length,
        h.start.rank ≤ k.rank → r.id ∉ executions) := by
  have sorted := Session.sorted reachable
  have tied := Session.tied reachable state saved
  obtain ⟨-, cited, behind⟩ := tied.records k time revision files executions note done
  have receipt : ∀ id ∈ executions, ∀ r ∈ m.state.disk.receipts, r.id = id →
      r.status = .succeeded ∧ r.stage = k ∧ r.revision = revision := by
    rintro id named r mem rfl
    obtain ⟨r', mem', same, facts⟩ := cited r.id named
    rwa [sorted.unique mem mem' same.symm]
  refine ⟨fun id named => ⟨?_, receipt id named⟩, behind, ?_⟩
  · obtain ⟨r, mem, same, -⟩ := cited id named
    exact ⟨r, mem, same⟩
  · intro m₀ state₀ reachable₀ later saved₀ r mem h made before named
    have tied₀ := Session.tied reachable₀ state₀ saved₀
    obtain ⟨r', mem', origin⟩ := Session.receipts_persist reachable₀ later r mem
    have number : r.revision = revision := by
      rw [← origin.revision]
      exact (receipt r.id named r' mem' origin.id).2.2
    have started : r.revision ≤ state₀.history.length + 1 := by
      rw [← tied₀.numbered.revision]
      exact tied₀.receipts r mem
    have rework := tied.numbered.le_of_drop made
    have := behind h (List.mem_of_mem_drop made) (by omega)
    omega

/-- Some stage is done with exactly the given executions. -/
def State.doneWith (state : State) (executions : List String) : Bool :=
  state.stages.any fun e =>
    match e.2 with
    | .done _ _ _ cited _ => cited == executions
    | .skipped _ _ => false

namespace Scenario

/-- The execution after the rework. -/
def again : String := String.ofList (List.replicate 32 'b')

def againFiles : List (Path × Node) :=
  files ++ [([".workflow", "executions", again ++ ".stdout"], .file []),
    ([".workflow", "executions", again ++ ".stderr"], .file [])]

def againOracle : Oracle
  | .exists _ => ([], .proceed)
  | .uuid4 => (againFiles, .text again)
  | q => (againFiles, (oracle q).2)

/-- The first stage is completed again, with an execution of its own. -/
def renewal : List (Command × Oracle × Nat) :=
  [(.reopen .understand "wrong", oracle, 100), (.run runArgs, againOracle, 100),
    (.complete { completeArgs with execution := [again] }, againOracle, 200)]

end Scenario

set_option maxRecDepth 100000 in
/-- The first stage, completed again after a rework: with a new execution, and not with the one
from before. -/
theorem no_stale_evidence_renewed : ∃ state k time revision files executions note,
    (Scenario.site (Scenario.completed .v2 ++ Scenario.renewal)).disk.state = some state ∧
    (k, Record.done time revision files executions note) ∈ state.stages ∧
    Scenario.again ∈ executions ∧ Scenario.id ∉ executions ∧
    ∃ r ∈ (Scenario.site (Scenario.completed .v2 ++ Scenario.renewal)).disk.receipts,
      r.id = Scenario.again ∧ r.status = .succeeded ∧ r.stage = k ∧ r.revision = revision := by
  obtain ⟨state, saved, shape⟩ := Scenario.saved (Scenario.completed .v2 ++ Scenario.renewal)
    (fun state => state.doneWith [Scenario.again] && state.history.map (·.start) == [.understand])
    (by decide +kernel)
  obtain ⟨old, saved₀, first⟩ := Scenario.saved (Scenario.completed .v2)
    (fun state => state.history.isEmpty) (by decide +kernel)
  have listed : ((Scenario.site (Scenario.completed .v2)).disk.receipts.any
      fun r => r.id = Scenario.id) = true := by decide +kernel
  obtain ⟨r₀, there₀, own⟩ := List.any_eq_true.mp listed
  rw [Bool.and_eq_true, beq_iff_eq] at shape
  obtain ⟨⟨k, record⟩, mem, cites⟩ := List.any_eq_true.mp shape.1
  obtain ⟨rework, history, start⟩ : ∃ h, state.history = [h] ∧ h.start = .understand := by
    obtain ⟨h, same, start⟩ := List.map_eq_singleton_iff.mp shape.2
    exact ⟨h, same, start⟩
  have later : Relation.ReflTransGen (Session.Step Scenario.host)
      ⟨Scenario.site (Scenario.completed .v2), none⟩
      ⟨Scenario.site (Scenario.completed .v2 ++ Scenario.renewal), none⟩ := by
    rw [Scenario.site, Scenario.site, scenario_append]
    exact scenario_reaches _ _ _
  cases record with
  | skipped reason time => cases cites
  | done time revision files executions note =>
      obtain rfl := beq_iff_eq.mp cites
      obtain ⟨cited, -, stale⟩ := no_stale_evidence
        (Scenario.reachable (Scenario.completed .v2 ++ Scenario.renewal)) saved mem
      obtain ⟨⟨r, there, same⟩, facts⟩ := cited Scenario.again (List.mem_singleton.mpr rfl)
      have made : rework ∈ state.history.drop old.history.length := by
        rw [List.isEmpty_iff.mp first, history]
        exact List.mem_singleton.mpr rfl
      have before : rework.start.rank ≤ k.rank := by
        rw [start]
        exact Nat.zero_le _
      have unlisted := stale ⟨Scenario.site (Scenario.completed .v2), none⟩ old
        (Scenario.reachable _) later saved₀ r₀ there₀ rework made before
      rw [of_decide_eq_true own] at unlisted
      exact ⟨state, k, time, revision, files, _, note, saved, mem, List.mem_singleton.mpr rfl,
        unlisted, r, there, same, facts r there same⟩

end Mathmodel.Workflow
