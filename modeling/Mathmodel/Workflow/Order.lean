import Mathmodel.Workflow.Governed
import Mathmodel.Workflow.Scenario

/-!
# The order of the stages

In every saved state the registered stages are the first ones of the list in
force, in its order, and only an optional stage is skipped. The list in force
has no stage twice, so the next stage is the one after the registered ones, and
what a rework removes is everything from some place on. An upgrade changes the
list, but only behind the stages that it leaves registered.
-/

namespace Mathmodel.Workflow

section Lists

variable {α β : Type} [DecidableEq β]

/-- The first element whose key is not among the first `n` keys. -/
theorem find?_not_mem_take {l : List α} {f : α → β} (nodup : (l.map f).Nodup) (n : Nat) :
    (l.find? fun a => f a ∉ (l.map f).take n) = l[n]? := by
  induction n generalizing l with
  | zero => cases l <;> simp
  | succ n ih =>
      cases l with
      | nil => rfl
      | cons a rest =>
          rw [List.map_cons, List.nodup_cons] at nodup
          rw [List.getElem?_cons_succ, ← ih nodup.2, List.find?_cons_of_neg (by simp)]
          refine List.find?_congr fun b mem => ?_
          have other : f b ≠ f a := fun same => nodup.1 (same ▸ List.mem_map_of_mem mem)
          simp [other]

/-- What is left of the first `n` when everything from place `i` on is removed. -/
theorem filter_not_mem_drop {l : List β} (nodup : l.Nodup) (n i : Nat) :
    ((l.take n).filter fun b => b ∉ l.drop i) = l.take (min n i) := by
  induction l generalizing n i with
  | nil => simp
  | cons a rest ih =>
      rw [List.nodup_cons] at nodup
      cases n with
      | zero => simp
      | succ n =>
          cases i with
          | zero =>
              rw [Nat.min_zero, List.take_zero, List.filter_eq_nil_iff]
              intro b mem
              simpa [or_iff_not_imp_left] using List.mem_of_mem_take mem
          | succ i =>
              have kept : a ∉ rest.drop i := fun mem => nodup.1 (List.mem_of_mem_drop mem)
              simpa [kept] using ih nodup.2 n i

end Lists

namespace State

/-- The registered stages are the first `n` of the list in force. -/
def Ordered (state : State) : Prop := ∃ n, state.keys = state.activeIds.take n

/-- Only an optional stage is recorded as skipped. -/
def SkipsOptional (state : State) : Prop :=
  ∀ k reason time, (k, Record.skipped reason time) ∈ state.stages →
    ∃ step ∈ state.active, step.id = k ∧ step.optional = true

variable {state : State}

theorem activeIds_nodup (state : State) : state.activeIds.Nodup := by
  unfold activeIds active
  cases state.format <;> cases state.requirePdf <;> decide

theorem since_legacy (legacy : state.format = .v1) (k : StageId) :
    k ∈ state.since .report ↔ k = .report ∨ k = .deliver := by
  unfold since activeIds active
  rw [legacy]
  cases state.requirePdf <;> cases k <;> decide

/-- The next stage is the one behind the registered ones. -/
theorem current_eq {n : Nat} (keys : state.keys = state.activeIds.take n) :
    state.current = state.active[n]? := by
  unfold current
  rw [keys]
  exact find?_not_mem_take state.activeIds_nodup n

theorem keys_register {stage : StageId} {record : Record} (fresh : stage ∉ state.keys) :
    (state.register stage record).stages = state.stages ++ [(stage, record)] := by
  have absent : ¬ (state.stages.any fun e => e.1 = stage) = true := by
    intro known
    obtain ⟨e, mem, same⟩ := List.any_eq_true.mp known
    rw [decide_eq_true_eq] at same
    exact fresh (same ▸ List.mem_map_of_mem mem)
  exact if_neg absent

/-- A stage that may be worked on has no record yet. -/
theorem current_not_mem {step : Stage} (current : state.current = some step) :
    step.id ∉ state.keys := by
  simpa using List.find?_some current

theorem Ordered.register {step : Stage} {record : Record} (ordered : state.Ordered)
    (current : state.current = some step) : (state.register step.id record).Ordered := by
  obtain ⟨n, keys⟩ := ordered
  refine ⟨n + 1, ?_⟩
  have next : state.activeIds[n]? = some step.id := by
    rw [activeIds, List.getElem?_map, ← current_eq keys, current]
    rfl
  calc (state.register step.id record).keys
      = state.keys ++ [step.id] := by
        rw [State.keys, keys_register (current_not_mem current), List.map_append]
        rfl
    _ = state.activeIds.take n ++ [step.id] := by rw [keys]
    _ = state.activeIds.take (n + 1) := by rw [List.take_add_one, next]; rfl

theorem keys_reopened (state : State) (stage : StageId) (time reason : String) :
    (state.reopened stage time reason).keys = state.keys.filter fun k => k ∉ state.since stage := by
  simp only [reopened, State.keys, List.filter_map]
  rfl

/-- A rework leaves the stages before it. -/
theorem keys_reopened_eq {n : Nat} (keys : state.keys = state.activeIds.take n) (stage : StageId)
    (time reason : String) : (state.reopened stage time reason).keys =
      state.activeIds.take (min n (state.activeIds.idxOf stage)) := by
  rw [keys_reopened, keys]
  exact filter_not_mem_drop state.activeIds_nodup n _

theorem Ordered.reopened (ordered : state.Ordered) (stage : StageId) (time reason : String) :
    (state.reopened stage time reason).Ordered := by
  obtain ⟨n, keys⟩ := ordered
  exact ⟨_, keys_reopened_eq keys stage time reason⟩

theorem SkipsOptional.register {step : Stage} {record : Record} (skips : state.SkipsOptional)
    (current : state.current = some step)
    (optional : ∀ reason time, record = .skipped reason time → step.optional = true) :
    (state.register step.id record).SkipsOptional := by
  intro k reason time mem
  rw [keys_register (current_not_mem current)] at mem
  obtain mem | mem := List.mem_append.mp mem
  · exact skips k reason time mem
  · obtain ⟨rfl, rfl⟩ := Prod.mk.inj (List.mem_singleton.mp mem)
    exact ⟨step, List.mem_of_find?_eq_some current, rfl, optional reason time rfl⟩

theorem SkipsOptional.reopened (skips : state.SkipsOptional) (stage : StageId)
    (time reason : String) : (state.reopened stage time reason).SkipsOptional := by
  intro k reason' time' mem
  exact skips k reason' time' (List.mem_of_mem_filter mem)

/-- Both lists agree on what comes before the report. -/
theorem take_stagesOf (pdf : Bool) {n : Nat} (before : n ≤ 5) :
    ((stagesOf .v2 pdf).map (·.id)).take n = ((stagesOf .v1 pdf).map (·.id)).take n := by
  have same : ((stagesOf .v2 pdf).map (·.id)).take 5 = ((stagesOf .v1 pdf).map (·.id)).take 5 := by
    cases pdf <;> decide
  calc ((stagesOf .v2 pdf).map (·.id)).take n
      = (((stagesOf .v2 pdf).map (·.id)).take 5).take n := by
        rw [List.take_take, Nat.min_eq_left before]
    _ = ((stagesOf .v1 pdf).map (·.id)).take n := by
        rw [same, List.take_take, Nat.min_eq_left before]

theorem idxOf_report (legacy : state.format = .v1) : state.activeIds.idxOf .report = 5 := by
  unfold activeIds active
  rw [legacy]
  cases state.requirePdf <;> decide

/-- A state without records from the report on stays ordered under the new list. -/
theorem Ordered.switch (ordered : state.Ordered) (legacy : state.format = .v1)
    (dropped : ∀ k ∈ state.keys, k ∉ state.since .report) :
    { state with format := .v2 }.Ordered := by
  obtain ⟨n, keys⟩ := ordered
  have all : state.keys.filter (fun k => k ∉ state.since .report) = state.keys :=
    List.filter_eq_self.mpr fun k mem => by simpa using dropped k mem
  have short : state.keys = state.activeIds.take (min n 5) := by
    rw [← all, keys, ← idxOf_report legacy]
    exact filter_not_mem_drop state.activeIds_nodup n _
  refine ⟨min n 5, short.trans ?_⟩
  have same := take_stagesOf state.requirePdf (Nat.min_le_right n 5)
  rw [activeIds, active, legacy]
  exact same.symm

theorem SkipsOptional.switch (skips : state.SkipsOptional) (legacy : state.format = .v1) :
    { state with format := .v2 }.SkipsOptional := by
  have optional : ∀ step ∈ stagesOf .v1 state.requirePdf, step.optional = true →
      step ∈ stagesOf .v2 state.requirePdf := by
    cases state.requirePdf <;> decide
  intro k reason time mem
  obtain ⟨step, active, id, allowed⟩ := skips k reason time mem
  rw [State.active, legacy] at active
  exact ⟨step, optional step active allowed, id, allowed⟩

/-- After a rework nothing is registered from its stage on. -/
theorem not_mem_since_reopened (state : State) (stage : StageId) (time reason : String) :
    ∀ k ∈ (state.reopened stage time reason).keys, k ∉ state.since stage := by
  intro k mem
  rw [keys_reopened] at mem
  simpa using (List.mem_filter.mp mem).2

theorem Ordered.upgraded (ordered : state.Ordered) (legacy : state.format = .v1)
    (time reason : String) : (state.upgraded time reason).Ordered :=
  (ordered.reopened .report time reason).switch legacy
    (state.not_mem_since_reopened .report time reason)

theorem SkipsOptional.upgraded (skips : state.SkipsOptional) (legacy : state.format = .v1)
    (time reason : String) : (state.upgraded time reason).SkipsOptional :=
  (skips.reopened .report time reason).switch legacy

/-- The upgrade keeps the records of all stages but the report and the delivery. -/
theorem upgraded_stages (legacy : state.format = .v1) (time reason : String) (k : StageId)
    (record : Record) : (k, record) ∈ (state.upgraded time reason).stages ↔
      (k, record) ∈ state.stages ∧ k ≠ .report ∧ k ≠ .deliver := by
  change (k, record) ∈ state.stages.filter _ ↔ _
  simp [since_legacy legacy]

end State

/-- A saved state is ordered and skips optional stages only. -/
def InOrder (s : Site) : Prop :=
  ∀ state, s.disk.state = some state → state.Ordered ∧ state.SkipsOptional

theorem InOrder.wrote {s t : Site} {new : State} (wrote : Wrote s new t)
    (good : new.Ordered ∧ new.SkipsOptional) : InOrder t := by
  intro state found
  obtain rfl := Option.some.inj (wrote.state.symm.trans found)
  exact good

theorem InOrder.unchanged {s t : Site} (same : t.disk.state = s.disk.state) (h : InOrder s) :
    InOrder t := fun state found => h state (same ▸ found)

theorem Deed.inOrder {host : Host} {c : Command} {entry s t : Site} (deed : Deed host c entry s t)
    (h : InOrder s) : InOrder t := by
  cases deed with
  | still still => exact h.unchanged still.disk.state
  | created args state command vacant unused stages history revision inputs wrote =>
      refine .wrote wrote ⟨⟨0, ?_⟩, ?_⟩
      · simp [State.keys, stages]
      · intro k reason time mem
        rw [stages] at mem
        cases mem
  | registered state stage step record found ready justified covers wrote =>
      obtain ⟨ordered, skips⟩ := h state found
      refine .wrote wrote ?_
      rw [← ready.id]
      refine ⟨ordered.register ready.current, skips.register ready.current ?_⟩
      rintro reason time rfl
      exact justified
  | reopened state stage time reason found resolved enabled wrote =>
      obtain ⟨ordered, skips⟩ := h state found
      exact .wrote wrote ⟨ordered.reopened stage time reason, skips.reopened stage time reason⟩
  | refreshed state time reason refs found resolved inputs wrote =>
      obtain ⟨ordered, skips⟩ := h _ found
      exact .wrote wrote ⟨ordered, skips⟩
  | upgraded state time reason legacy found resolved wrote =>
      obtain ⟨ordered, skips⟩ := h _ found
      exact .wrote wrote ⟨ordered.switch legacy (state.not_mem_since_reopened .report time reason),
        skips.switch legacy⟩
  | opened _ _ _ _ _ _ _ _ _ _ _ _ _ filed => exact h.unchanged filed.state
  | updated _ _ _ _ _ _ _ _ _ filed _ => exact h.unchanged filed.state
  | abandoned _ _ _ _ _ _ _ _ _ filed => exact h.unchanged filed.state

theorem Session.inOrder {host : Host} {m : Session} (reachable : Session.Reachable host m) :
    InOrder m.state := by
  refine Session.induction (I := InOrder) nofun (fun c s h => h) ?_ reachable
  exact fun c entry s t _ h deed => deed.inOrder h

/-- In every saved state the registered stages are the first ones of the list in force and
only optional stages are skipped. An upgrade takes a format 1 state with this property to a
format 2 state with it, keeps every record before the report and drops the report and the
delivery; and this is the state that an upgrade has saved when it returns. -/
theorem stage_order (host : Host) :
    (∀ m, Session.Reachable host m → ∀ state, m.state.disk.state = some state →
      state.Ordered ∧ state.SkipsOptional) ∧
    (∀ (state : State) time reason, state.format = .v1 → state.Ordered → state.SkipsOptional →
      (state.upgraded time reason).format = .v2 ∧ (state.upgraded time reason).Ordered ∧
      (state.upgraded time reason).SkipsOptional ∧
      ∀ k record, (k, record) ∈ (state.upgraded time reason).stages ↔
        (k, record) ∈ state.stages ∧ k ≠ .report ∧ k ≠ .deliver) ∧
    (∀ m reason entry out, Session.Reachable host m →
      m.process = some (.upgrade reason, entry, .ret out) →
      ∃ state time, entry.disk.state = some state ∧ state.format = .v1 ∧
        m.state.disk.state = some (state.upgraded time reason)) := by
  refine ⟨?_, ?_, ?_⟩
  · exact fun m reachable => Session.inOrder reachable
  · intro state time reason legacy ordered skips
    exact ⟨rfl, ordered.upgraded legacy time reason, skips.upgraded legacy time reason,
      state.upgraded_stages legacy time reason⟩
  · intro m reason entry out reachable returned
    obtain ⟨-, done⟩ := (Session.governed reachable).process _ _ _ returned
    exact done.2

set_option maxRecDepth 100000 in
/-- A project with a completed stage, upgraded from format 1. -/
theorem stage_order_upgraded : ∃ state, (Scenario.site Scenario.upgraded).disk.state = some state ∧
    state.format = .v2 ∧ state.keys = [.understand] ∧ state.Ordered ∧ state.SkipsOptional := by
  obtain ⟨state, saved, shape⟩ := Scenario.saved Scenario.upgraded
    (fun state => state.format == .v2 && state.keys == [.understand]) (by decide +kernel)
  rw [Bool.and_eq_true, beq_iff_eq, beq_iff_eq] at shape
  exact ⟨state, saved, shape.1, shape.2,
    (stage_order Scenario.host).1 _ (Scenario.reachable Scenario.upgraded) state saved⟩

end Mathmodel.Workflow
