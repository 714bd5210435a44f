import Mathmodel.Workflow.Rework

/-!
# Nothing recorded is lost

The log holds every state that was ever saved, also those between two saves of
one command. A record is registered when a saved state has it and the one before
had no record of the stage. The registrations of a project are, as a multiset,
the records in its state together with those in its history, so each is in exactly
one place; every version of the inputs is in the state or in the history, and all
references have their blobs.
-/

namespace Mathmodel.Workflow

variable {host : Host} {c : Command} {entry s t : Site}

/-- The states that were saved, in order. -/
def saves (log : List Event) : List State :=
  log.filterMap fun
    | .answered (.saveState state) (.ok _) => some state
    | _ => none

/-- The records of stages that had none before. -/
def newRecords (old new : List (StageId × Record)) : List (StageId × Record) :=
  new.filter fun e => e.1 ∉ old.map (·.1)

/-- The records registered by a sequence of saved states, after one with the given records. -/
def registrations (old : List (StageId × Record)) : List State → List (StageId × Record)
  | [] => []
  | state :: rest => newRecords old state.stages ++ registrations state.stages rest

namespace State

/-- All places where a record can be: the history and the stages. -/
def places (state : State) : List (StageId × Record) :=
  state.history.flatMap (·.stages) ++ state.stages

/-- The references of the inputs, the stages and the history. -/
def allReferences (state : State) : List Ref :=
  state.references ++
    state.history.flatMap fun h => h.inputs ++ h.stages.flatMap fun e => e.2.files

end State

section Lists

theorem lookup_eq_some_iff_mem {κ ν : Type} [DecidableEq κ] {table : List (κ × ν)}
    (nodup : (table.map (·.1)).Nodup) {k : κ} {v : ν} :
    table.lookup k = some v ↔ (k, v) ∈ table := by
  induction table with
  | nil => simp
  | cons e rest ih =>
      obtain ⟨key, value⟩ := e
      rw [List.map_cons, List.nodup_cons] at nodup
      by_cases same : k = key
      · subst same
        have absent : (k, v) ∉ rest := fun mem => nodup.1 (List.mem_map_of_mem (f := (·.1)) mem)
        simp [absent, eq_comm]
      · simp [List.lookup_cons, same, beq_eq_false_iff_ne.mpr same, ih nodup.2]

/-- What is picked out of a table by some of its keys is the part of the table with those. -/
theorem perm_filterMap_lookup {κ ν : Type} [DecidableEq κ] {ks : List κ} {table : List (κ × ν)}
    (distinct : ks.Nodup) (nodup : (table.map (·.1)).Nodup) :
    (ks.filterMap fun k => (table.lookup k).map (k, ·)).Perm (table.filter fun e => e.1 ∈ ks) := by
  refine (List.perm_ext_iff_of_nodup ?_ (nodup.of_map.filter _)).mpr ?_
  · refine distinct.filterMap ?_
    simp only [Option.mem_def, Option.map_eq_some_iff]
    rintro a a' e ⟨v, -, rfl⟩ ⟨v', -, same⟩
    exact (Prod.mk.inj same).1.symm
  · rintro ⟨k, v⟩
    simp only [List.mem_filterMap, Option.map_eq_some_iff, Prod.mk.injEq, List.mem_filter,
      decide_eq_true_eq, ← lookup_eq_some_iff_mem nodup]
    constructor
    · rintro ⟨_, mem, _, found, rfl, rfl⟩
      exact ⟨found, mem⟩
    · rintro ⟨found, mem⟩
      exact ⟨k, mem, v, found, rfl, rfl⟩

/-- One more saved state registers what the last one had no record of. -/
theorem registrations_append {states : List State} {last : State}
    (ends : states.getLast? = some last) (old : List (StageId × Record)) (state : State) :
    registrations old (states ++ [state]) =
      registrations old states ++ newRecords last.stages state.stages := by
  induction states generalizing old with
  | nil => cases ends
  | cons first rest ih =>
      rw [List.cons_append, registrations, registrations, List.append_assoc]
      congr 1
      cases rest with
      | nil =>
          obtain rfl := Option.some.inj ends
          simp [registrations]
      | cons second more => exact ih (by simpa [List.getLast?_cons_cons] using ends) first.stages

end Lists

namespace State

variable {state : State}

theorem Ordered.keys_nodup (ordered : state.Ordered) : (state.stages.map (·.1)).Nodup := by
  obtain ⟨n, keys⟩ := ordered
  change state.keys.Nodup
  rw [keys]
  exact state.activeIds_nodup.sublist (List.take_sublist n _)

/-- What `reopen` takes out of the stages, it puts into the history. -/
theorem moved_perm (ordered : state.Ordered) (stage : StageId) :
    (((state.since stage).filterMap fun s => (state.stages.lookup s).map (s, ·)) ++
      state.stages.filter fun e => e.1 ∉ state.since stage).Perm state.stages := by
  have distinct : (state.since stage).Nodup :=
    state.activeIds_nodup.sublist (List.drop_sublist _ _)
  refine ((perm_filterMap_lookup distinct ordered.keys_nodup).append_right _).trans ?_
  have parts := List.filter_append_perm (fun e => decide (e.1 ∈ state.since stage)) state.stages
  simpa only [decide_not] using parts

theorem places_reopened (ordered : state.Ordered) (stage : StageId) (time reason : String) :
    (state.reopened stage time reason).places.Perm state.places := by
  simp only [places, reopened, List.flatMap_append, List.flatMap_cons, List.flatMap_nil,
    List.append_nil, List.append_assoc]
  exact (moved_perm ordered stage).append_left _

theorem places_register {step : Stage} {record : Record} (current : state.current = some step) :
    (state.register step.id record).places = state.places ++ [(step.id, record)] := by
  rw [places, keys_register (current_not_mem current), places, List.append_assoc]
  rfl

theorem newRecords_reopened (state : State) (stage : StageId) (time reason : String) :
    newRecords state.stages (state.reopened stage time reason).stages = [] := by
  refine List.filter_eq_nil_iff.mpr fun e mem => ?_
  have known : e.1 ∈ state.stages.map (·.1) := List.mem_map_of_mem (List.mem_of_mem_filter mem)
  simpa using known

theorem newRecords_self (stages : List (StageId × Record)) : newRecords stages stages = [] := by
  refine List.filter_eq_nil_iff.mpr fun e mem => ?_
  have known : e.1 ∈ stages.map (·.1) := List.mem_map_of_mem mem
  simpa using known

theorem newRecords_register {step : Stage} {record : Record}
    (current : state.current = some step) :
    newRecords state.stages (state.register step.id record).stages = [(step.id, record)] := by
  have fresh := current_not_mem current
  have none := newRecords_self state.stages
  rw [keys_register fresh, newRecords, List.filter_append]
  rw [newRecords] at none
  rw [none]
  simpa [State.keys] using fresh

end State

/-- What is kept of everything that was ever saved. -/
structure Preserved (host : Host) (s : Site) (state : State) : Prop where
  last : (saves s.log).getLast? = some state
  once : (registrations [] (saves s.log)).Perm state.places
  records : ∀ old ∈ saves s.log, ∀ e ∈ old.stages, e ∈ state.places
  inputs : ∀ old ∈ saves s.log,
    old.inputs = state.inputs ∨ ∃ h ∈ state.history, h.inputs = old.inputs
  blobs : s.disk.Holds host state.allReferences

structure Archived (host : Host) (s : Site) : Prop where
  unsaved : s.disk.state = none → saves s.log = []
  saved : ∀ state, s.disk.state = some state → Preserved host s state

theorem saves_plain {events : List Event} (plain : ∀ e ∈ events, e.isPlain = true) :
    saves events = [] := by
  refine List.filterMap_eq_nil_iff.mpr fun e mem => ?_
  have := plain e mem
  split
  next => cases this
  next => rfl

theorem saves_extends (h : s.Extends t) : saves t.log = saves s.log := by
  obtain ⟨events, log, plain⟩ := h
  rw [log, saves, List.filterMap_append]
  change saves s.log ++ saves events = saves s.log
  rw [saves_plain plain, List.append_nil]

theorem Wrote.saves {new : State} (wrote : Wrote s new t) :
    saves t.log = saves s.log ++ [new] := by
  rw [wrote.log, Workflow.saves, List.filterMap_append]
  rfl

/-- Nothing was saved and no blob is gone. -/
theorem Archived.extends (h : Archived host s) (log : s.Extends t)
    (state : t.disk.state = s.disk.state)
    (blobs : ∀ sha content, s.disk.blobs.lookup sha = some content →
      t.disk.blobs.lookup sha = some content) : Archived host t := by
  refine ⟨?_, ?_⟩
  · rw [state, saves_extends log]
    exact h.unsaved
  · intro current found
    obtain ⟨last, once, records, inputs, held⟩ := h.saved current (state ▸ found)
    rw [← saves_extends log] at last once records inputs
    exact ⟨last, once, records, inputs, held.of_blobs blobs⟩

/-- One more state is saved that keeps the history, moves records at most, and adds the
records it registers. -/
theorem Archived.wrote (h : Archived host s) {state new : State} (wrote : Wrote s new t)
    (found : s.disk.state = some state)
    (places : new.places.Perm (state.places ++ newRecords state.stages new.stages))
    (history : state.history ⊆ new.history)
    (inputs : state.inputs = new.inputs ∨ ∃ e ∈ new.history, e.inputs = state.inputs)
    (blobs : s.disk.Holds host new.allReferences) : Archived host t := by
  have before := h.saved state found
  have all : ∀ old ∈ saves t.log, old ∈ saves s.log ∨ old = new := by
    intro old mem
    rw [wrote.saves] at mem
    simpa using mem
  refine ⟨fun none => (nomatch wrote.state.symm.trans none), ?_⟩
  intro current saved
  obtain rfl := Option.some.inj (wrote.state.symm.trans saved)
  refine ⟨?_, ?_, ?_, ?_, blobs.of_blobs fun sha content stored => wrote.blobs ▸ stored⟩
  · rw [wrote.saves]
    simp
  · rw [wrote.saves, registrations_append before.last]
    exact (before.once.append_right _).trans places.symm
  · intro old mem e has
    obtain mem | rfl := all old mem
    · exact places.symm.subset (List.mem_append_left _ (before.records old mem e has))
    · exact List.mem_append_right _ has
  · intro old mem
    obtain mem | rfl := all old mem
    · obtain same | ⟨entry, made, same⟩ := before.inputs old mem
      · rw [same]
        exact inputs
      · exact .inr ⟨entry, history made, same⟩
    · exact .inl rfl

namespace State

theorem mem_allReferences {state : State} {ref : Ref} :
    ref ∈ state.allReferences ↔ ref ∈ state.inputs ∨ (∃ h ∈ state.history, ref ∈ h.inputs) ∨
      ∃ e ∈ state.places, ref ∈ e.2.files := by
  simp only [allReferences, references, places, List.mem_append, List.mem_flatMap]
  constructor
  · rintro ((mem | ⟨e, has, mem⟩) | ⟨h, made, mem | ⟨e, has, mem⟩⟩)
    · exact .inl mem
    · exact .inr (.inr ⟨e, .inr has, mem⟩)
    · exact .inr (.inl ⟨h, made, mem⟩)
    · exact .inr (.inr ⟨e, .inl ⟨h, made, has⟩, mem⟩)
  · rintro (mem | ⟨h, made, mem⟩ | ⟨e, ⟨h, made, has⟩ | has, mem⟩)
    · exact .inl (.inl mem)
    · exact .inr ⟨h, made, .inl mem⟩
    · exact .inr ⟨h, made, .inr ⟨e, has, mem⟩⟩
    · exact .inl (.inr ⟨e, has, mem⟩)

/-- The references of a reopened state are those of the state. -/
theorem allReferences_reopened {state : State} (ordered : state.Ordered) (stage : StageId)
    (time reason : String) {ref : Ref}
    (mem : ref ∈ (state.reopened stage time reason).allReferences) : ref ∈ state.allReferences := by
  rw [mem_allReferences] at mem ⊢
  obtain mem | ⟨h, made, mem⟩ | ⟨e, has, mem⟩ := mem
  · exact .inl mem
  · obtain made | made := List.mem_append.mp made
    · exact .inr (.inl ⟨h, made, mem⟩)
    · obtain rfl := List.mem_singleton.mp made
      exact .inl mem
  · exact .inr (.inr ⟨e, (places_reopened ordered stage time reason).subset has, mem⟩)

end State

theorem Deed.archived (deed : Deed host c entry s t) (ordered : InOrder s) (h : Archived host s) :
    Archived host t := by
  cases deed with
  | still still => exact h.extends still.log still.disk.state still.disk.blobs
  | created args state command vacant unused stages history revision inputs wrote =>
      have only : saves t.log = [state] := by
        rw [wrote.saves, h.unsaved vacant, List.nil_append]
      refine ⟨fun none => (nomatch wrote.state.symm.trans none), ?_⟩
      intro current saved
      obtain rfl := Option.some.inj (wrote.state.symm.trans saved)
      refine ⟨?_, ?_, ?_, ?_, ?_⟩
      · rw [only]
        rfl
      · simp [only, registrations, newRecords, State.places, stages, history]
      · intro old mem e has
        rw [only, List.mem_singleton] at mem
        rw [mem, stages] at has
        cases has
      · intro old mem
        rw [only, List.mem_singleton] at mem
        exact .inl (mem ▸ rfl)
      · intro ref mem
        simp only [State.allReferences, State.references, stages, history, List.flatMap_nil,
          List.append_nil] at mem
        exact inputs.of_blobs (fun sha content stored => wrote.blobs ▸ stored) ref mem
  | registered state stage step record found ready justified covers wrote =>
      rw [← ready.id] at wrote
      refine h.wrote wrote found ?_ (List.Subset.refl _) (.inl rfl) ?_
      · rw [State.places_register ready.current, State.newRecords_register ready.current]
      · intro ref mem
        rw [State.mem_allReferences, State.places_register ready.current] at mem
        have before := (h.saved state found).blobs ref
        rw [State.mem_allReferences] at before
        obtain mem | mem | ⟨e, has, mem⟩ := mem
        · exact before (.inl mem)
        · exact before (.inr (.inl mem))
        · obtain has | has := List.mem_append.mp has
          · exact before (.inr (.inr ⟨e, has, mem⟩))
          · obtain rfl := List.mem_singleton.mp has
            cases record with
            | done time revision files executions note => exact justified.2.1 ref mem
            | skipped reason time => cases mem
  | reopened state stage time reason found resolved enabled wrote =>
      obtain ⟨inOrder, -⟩ := ordered state found
      refine h.wrote wrote found ?_ (List.subset_append_left _ _) (.inl rfl) ?_
      · rw [State.newRecords_reopened, List.append_nil]
        exact State.places_reopened inOrder stage time reason
      · exact fun ref mem => (h.saved state found).blobs ref
          (State.allReferences_reopened inOrder stage time reason mem)
  | refreshed state time reason refs found resolved inputs wrote =>
      refine h.wrote wrote found ?_ (List.Subset.refl _) ?_ ?_
      · change (state.reopened .understand time reason).places.Perm (_ ++ newRecords _
          (state.reopened .understand time reason).stages)
        rw [State.newRecords_self, List.append_nil]
      · refine .inr ⟨_, List.mem_append_right _ (List.mem_singleton.mpr rfl), rfl⟩
      · intro ref mem
        have before := (h.saved _ found).blobs ref
        rw [State.mem_allReferences] at mem before
        obtain mem | mem | mem := mem
        · exact inputs ref mem
        · exact before (.inr (.inl mem))
        · exact before (.inr (.inr mem))
  | upgraded state time reason legacy found resolved wrote =>
      refine h.wrote wrote found ?_ (List.Subset.refl _) (.inl rfl) ?_
      · change (state.reopened .report time reason).places.Perm (_ ++ newRecords _
          (state.reopened .report time reason).stages)
        rw [State.newRecords_self, List.append_nil]
      · exact (h.saved _ found).blobs
  | opened _ _ _ _ _ _ _ _ _ _ _ _ _ filed =>
      exact h.extends (.single filed.log rfl) filed.state fun sha content stored =>
        filed.blobs ▸ stored
  | updated _ _ _ _ _ _ _ _ _ filed _ =>
      exact h.extends (.single filed.log rfl) filed.state fun sha content stored =>
        filed.blobs ▸ stored
  | abandoned _ _ _ _ _ _ _ _ _ filed =>
      exact h.extends (.single filed.log rfl) filed.state fun sha content stored =>
        filed.blobs ▸ stored

theorem Session.archived {m : Session} (reachable : Session.Reachable host m) :
    InOrder m.state ∧ Archived host m.state := by
  refine Session.induction (I := fun s => InOrder s ∧ Archived host s)
    ⟨nofun, ⟨fun _ => rfl, nofun⟩⟩ ?_ ?_ reachable
  · rintro c s ⟨ordered, archived⟩
    have same : saves (s.enter c).log = saves s.log := by
      change saves (s.log ++ [.began c]) = _
      rw [saves, List.filterMap_append]
      exact List.append_nil _
    refine ⟨ordered, ⟨fun none => same.trans (archived.unsaved none), fun state found => ?_⟩⟩
    obtain ⟨last, once, records, inputs, blobs⟩ := archived.saved state found
    rw [← same] at last once records inputs
    exact ⟨last, once, records, inputs, blobs⟩
  · rintro c entry s t - ⟨ordered, archived⟩ deed
    exact ⟨deed.inOrder ordered, deed.archived ordered archived⟩

/-- Every reference of the saved state has a blob and a place. -/
theorem Session.backs {m : Session} (reachable : Session.Reachable host m) {state : State}
    (saved : m.state.disk.state = some state) {ref : Ref} (mem : ref ∈ state.references) :
    m.state.disk.Backs host ref :=
  ((Session.archived reachable).2.saved state saved).blobs ref (List.mem_append_left _ mem)

/-- Nothing recorded is ever lost, whenever a command is killed. The history is numbered
without a gap; the registrations are, each once, the records in the state and in the history;
every saved version of the inputs is there; and every reference has its blob. -/
theorem nothing_lost {m : Session} (reachable : Session.Reachable host m) {state : State}
    (saved : m.state.disk.state = some state) :
    state.revision = state.history.length + 1 ∧
    state.history.map (·.revision) = List.range' 1 state.history.length ∧
    (registrations [] (saves m.state.log)).Perm state.places ∧
    (∀ old ∈ saves m.state.log, ∀ e ∈ old.stages, e ∈ state.places) ∧
    (∀ old ∈ saves m.state.log,
      old.inputs = state.inputs ∨ ∃ h ∈ state.history, h.inputs = old.inputs) ∧
    ∀ ref ∈ state.allReferences, m.state.disk.HasBlob ref.sha256 := by
  have numbered := (Session.tied reachable state saved).numbered
  obtain ⟨-, once, records, inputs, blobs⟩ := (Session.archived reachable).2.saved state saved
  exact ⟨numbered.revision, numbered.history, once, records, inputs, fun ref mem =>
    (blobs ref mem).blob.hasBlob⟩

set_option maxRecDepth 100000 in
/-- After a rework the record of the first stage is in the history. -/
theorem nothing_lost_reworked : ∃ state,
    (Scenario.site Scenario.reworked).disk.state = some state ∧ state.history.length = 1 ∧
    (registrations [] (saves (Scenario.site Scenario.reworked).log)).Perm state.places ∧
    state.places.map (·.1) = [.understand] := by
  obtain ⟨state, saved, shape⟩ := Scenario.saved Scenario.reworked
    (fun state => state.history.length == 1 && state.places.map (·.1) == [.understand])
    (by decide +kernel)
  rw [Bool.and_eq_true, beq_iff_eq, beq_iff_eq] at shape
  obtain ⟨-, -, once, -⟩ := nothing_lost (Scenario.reachable Scenario.reworked) saved
  exact ⟨state, saved, shape.1, once, shape.2⟩

end Mathmodel.Workflow
