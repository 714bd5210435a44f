import Mathmodel.Backend.Ledger
import Mathmodel.Backend.Script

/-!
# Recovery after a crash

A new process finds nothing but the database. It marks the runs whose execution was under
way and touches no other row, so a recovery that is itself cut short is completed by the
next one, and a second restart finds nothing to do.
-/

namespace Mathmodel

open M Program

def restartMessage : String :=
  "Service restarted; reconcile runtime history before continuing"

/-- The run was under execution and needs reconciliation now. -/
structure Run.Marked (r r' : Run) : Prop where
  executing : r.status.isExecuting = true
  status : r'.status = .recoveryRequired
  settled : r'.hasPending = false
  last : ∃ a, r.lastAttempt = some a ∧ r'.attempts = r.attempts.dropLast ++
    [{ a with status := .recoveryRequired, error := some restartMessage }]
  version : r'.stateVersion = r.stateVersion + 1
  kept : r'.runId = r.runId ∧ r'.projectId = r.projectId ∧ r'.task = r.task ∧
    r'.review = r.review ∧ r'.createdAt = r.createdAt

/-- Some of the runs under execution are marked, and nothing else differs but the events. -/
structure Db.PartlyRecovered (db db' : Db) : Prop where
  projects : db'.projects = db.projects
  receipts : db'.receipts = db.receipts
  runs : ∀ id, db'.runs.lookup id = db.runs.lookup id ∨
    ∃ r r', db.runs.lookup id = some r ∧ db'.runs.lookup id = some r' ∧ r.Marked r'

/-- All of the runs under execution are marked. -/
structure Db.Recovered (db db' : Db) : Prop extends db.PartlyRecovered db' where
  none : ∀ id r, db'.runs.lookup id = some r → r.status.isExecuting = false

namespace Db.PartlyRecovered

variable {a b c : Db}

theorem refl (a : Db) : a.PartlyRecovered a := ⟨rfl, rfl, fun _ => .inl rfl⟩

theorem trans (h : a.PartlyRecovered b) (h' : b.PartlyRecovered c) : a.PartlyRecovered c := by
  refine ⟨h'.projects.trans h.projects, h'.receipts.trans h.receipts, fun id => ?_⟩
  obtain same | ⟨r, r', found, found', marked⟩ := h.runs id
  · rw [← same]
    exact h'.runs id
  · obtain same | ⟨s, s', was, -, marked'⟩ := h'.runs id
    · exact .inr ⟨r, r', found, same.trans found', marked⟩
    · cases found'.symm.trans was
      have executing := marked'.executing
      rw [marked.status] at executing
      cases executing

theorem recovered (h : a.PartlyRecovered b) (h' : b.Recovered c) : a.Recovered c :=
  ⟨h.trans h'.toPartlyRecovered, h'.none⟩

end Db.PartlyRecovered

/-- Without a run under execution there is nothing to recover. -/
theorem Db.Recovered.runs_eq {a b : Db} (h : a.Recovered b)
    (none : ∀ id r, a.runs.lookup id = some r → r.status.isExecuting = false) (id : String) :
    b.runs.lookup id = a.runs.lookup id := by
  obtain same | ⟨r, r', found, -, marked⟩ := h.runs id
  · exact same
  · have executing := marked.executing
    rw [none id r found] at executing
    cases executing

theorem Change.Saves.marked {m : Moment} {r r' : Run}
    (saves : (Change.uncertain restartMessage).Saves m r r')
    (executing : r.status.isExecuting = true) (started : r.attempts ≠ []) :
    r.Marked (Db.bump m r') := by
  have text : slice restartMessage 2000 = restartMessage := by decide
  cases saves with
  | @uncertain _ a last =>
      refine ⟨executing, rfl, Run.expire_hasPending { r with status := .recoveryRequired },
        ⟨a, last, ?_⟩, rfl, rfl, rfl, rfl, rfl, rfl⟩
      rw [text]
      rfl
  | uncertainNew none => exact absurd none (by simpa [Run.lastAttempt] using started)

theorem Db.allRuns_nodup {db : Db} (sound : db.Sound) : (db.allRuns.map Run.runId).Nodup := by
  have perm : (db.allRuns.map Run.runId).Perm (db.runs.entries.map Sigma.fst) := by
    refine ((List.perm_insertionSort _ _).map Run.runId).trans ?_
    rw [List.map_map]
    refine .of_eq (List.map_congr_left ?_)
    rintro ⟨id, r⟩ member
    exact sound.keyed id r (AList.mem_lookup_iff.mpr member)
  exact perm.nodup_iff.mpr db.runs.nodupKeys

section Recovery

variable {env : Env} {w : World} {id : String}

/-- A run under execution is marked, in one transaction. -/
theorem wp_uncertain_executing {message : String} {r : Run} {post : Unit → World → Prop}
    {failed : Err → World → Prop} (sound : w.Sound env) (found : w.db.runs.lookup id = some r)
    (executing : r.status.isExecuting = true)
    (done : ∀ r' db, w.db.Writes (env.moment w.clock) id (.uncertain message) r r' db →
      post () (w.commit (.update id (.uncertain message) .service) db)) :
    wp (Service.uncertain env id message) post failed w := by
  have unsettled : ¬ (r.status.isTerminal = true ∨ r.status = .recoveryRequired) := by
    revert executing
    cases r.status <;> simp [RunStatus.isTerminal, RunStatus.isExecuting]
  obtain ⟨a, last⟩ := (sound.db.runs id r found).lastAttempt_of_isExecuting executing
  obtain ⟨r', db, result, writes⟩ := sound.db.update_uncertain (env.moment w.clock) message found
    (Run.attempts_ne_nil_of_lastAttempt last)
  simp only [Service.uncertain, wp_bind, loadRun, wp_get, Db.run_ok.mpr found, wp_lift_ok,
    wp_ite, Bool.or_eq_true, beq_iff_eq, wp_pure]
  refine ⟨fun settled => absurd settled unsettled, fun _ => ?_⟩
  simp only [update, wp_bind, wp_get, result, wp_modify]
  exact done r' db writes

/-- Some transactions later, with everything outside the database in place. -/
def World.Advanced (w w' : World) : Prop :=
  ∃ entries db, w' = { w with db := db, log := entries ++ w.log } ∧ w.db.PartlyRecovered db

theorem World.Advanced.trans {w' w'' : World} (h : w.Advanced w') (h' : w'.Advanced w'') :
    w.Advanced w'' := by
  obtain ⟨entries, db, rfl, partly⟩ := h
  obtain ⟨entries', db', rfl, partly'⟩ := h'
  refine ⟨entries' ++ entries, db', ?_, partly.trans partly'⟩
  rw [List.append_assoc]

theorem Db.Writes.partlyRecovered {db db' : Db} {m : Moment} {r r' : Run}
    (writes : db.Writes m id (.uncertain restartMessage) r r' db') (sound : db.Sound)
    (executing : r.status.isExecuting = true) : db.PartlyRecovered db' := by
  obtain ⟨a, last⟩ := (sound.runs id r writes.found).lastAttempt_of_isExecuting executing
  have started := Run.attempts_ne_nil_of_lastAttempt last
  refine ⟨?_, ?_, fun other => ?_⟩
  · obtain ⟨type, payload, -, rfl⟩ := writes.result
    rfl
  · obtain ⟨type, payload, -, rfl⟩ := writes.result
    rfl
  · by_cases same : other = id
    · subst same
      exact .inr ⟨r, _, writes.found, writes.lookup_self sound,
        writes.saves.marked executing started⟩
    · exact .inl (writes.lookup_ne sound same)

/-- A run that is not under execution stays as it is. -/
theorem Db.PartlyRecovered.settled {db db' : Db} (h : db.PartlyRecovered db') {r r' : Run}
    (found : db.runs.lookup id = some r) (settled : r.status.isExecuting = false)
    (found' : db'.runs.lookup id = some r') : r'.status.isExecuting = false := by
  obtain same | ⟨s, s', was, -, marked⟩ := h.runs id
  · cases (found'.symm.trans same).trans found
    exact settled
  · cases found.symm.trans was
    have executing := marked.executing
    rw [settled] at executing
    cases executing

/-- The loop of `recover` marks the listed runs that are under execution. -/
theorem wp_recoverRuns_exact {runs : List Run} {failed : Err → World → Prop}
    (sound : w.Sound env) (nodup : (runs.map Run.runId).Nodup)
    (stored : ∀ r ∈ runs, w.db.runs.lookup r.runId = some r) :
    wp (Service.recoverRuns env runs) (fun _ w' => w.Advanced w' ∧ w'.Sound env ∧
      ∀ r ∈ runs, ∀ r', w'.db.runs.lookup r.runId = some r' → r'.status.isExecuting = false)
      failed w := by
  induction runs generalizing w with
  | nil => exact ⟨⟨[], w.db, rfl, .refl _⟩, sound, by simp⟩
  | cons r rest ih =>
      have active : r.status.isActive = true ∧ r.status ≠ .queued ↔
          r.status.isExecuting = true := by
        cases r.status <;> simp [RunStatus.isActive, RunStatus.isExecuting]
      have found := stored r List.mem_cons_self
      rw [List.map_cons, List.nodup_cons] at nodup
      dsimp only [Service.recoverRuns]
      rw [wp_ite, active]
      constructor
      · intro executing
        rw [wp_bind]
        refine wp_uncertain_executing sound found executing fun r' db writes => ?_
        have first : w.Advanced
            (w.commit (.update r.runId (.uncertain restartMessage) .service) db) := ⟨[_], db, rfl,
              writes.partlyRecovered sound.db executing⟩
        have unsettled : r.status.isTerminal = false ∧ r.status ≠ .recoveryRequired := by
          revert executing
          cases r.status <;> simp [RunStatus.isTerminal, RunStatus.isExecuting]
        obtain ⟨a, last⟩ := (sound.db.runs _ r found).lastAttempt_of_isExecuting executing
        have sound' := sound.uncertain
          (.marked unsettled (Run.attempts_ne_nil_of_lastAttempt last) writes)
        refine wp_mono (ih sound' nodup.2 fun s member => ?_) ?_ (fun _ _ thrown => thrown)
        · have ne : s.runId ≠ r.runId := fun same => nodup.1 (same ▸ List.mem_map_of_mem member)
          exact (writes.lookup_ne sound.db ne).trans (stored s (List.mem_cons_of_mem _ member))
        · rintro - w' ⟨advanced, sound'', none⟩
          refine ⟨first.trans advanced, sound'', List.forall_mem_cons.mpr ⟨?_, none⟩⟩
          intro r' found'
          obtain ⟨entries, db', rfl, partly⟩ := advanced
          refine partly.settled (writes.lookup_self sound.db) ?_ found'
          have saves := writes.saves
          cases saves <;> rfl
      · intro settled
        rw [Bool.not_eq_true] at settled
        refine wp_mono (ih sound nodup.2 fun s member => stored s (List.mem_cons_of_mem _ member))
          ?_ (fun _ _ thrown => thrown)
        rintro - w' ⟨advanced, sound', none⟩
        refine ⟨advanced, sound', List.forall_mem_cons.mpr ⟨?_, none⟩⟩
        intro r' found'
        obtain ⟨entries, db', rfl, partly⟩ := advanced
        exact partly.settled found settled found'

/-- A process that has just started and has one thing to do: look for a queued run. -/
structure World.Fresh (w : World) : Prop where
  live : w.live.entries = []
  codex : ∀ g, w.codex g = .absent
  tasks : w.tasks = [⟨.schedule, .ready (.ok .null)⟩]
  running : w.stopping = false

theorem wp_restart_exact {failed : Err → World → Prop} (sound : w.Sound env) :
    wp (Service.restart env)
      (fun _ w' => w.db.Recovered w'.db ∧ w'.Fresh ∧ w'.Sound env) failed w := by
  have start : w.reset.Sound env := sound.reset
  simp only [Service.restart, Service.recover, wp_bind, wp_modify, wp_get]
  change wp (Service.recoverRuns env w.reset.db.allRuns) _ _ w.reset
  refine wp_mono (wp_recoverRuns_exact start (Db.allRuns_nodup start.db) ?_) ?_
    (fun _ _ thrown => thrown)
  · intro r member
    obtain ⟨id, found⟩ := Db.mem_allRuns.mp member
    rw [start.db.keyed id r found]
    exact found
  · rintro - w' ⟨⟨entries, db, rfl, partly⟩, sound', none⟩
    simp only [Service.schedule, wp_bind, wp_get, wp_ite, wp_pure, background, M.push, wp_modify]
    refine ⟨fun stops => (by cases stops), fun _ =>
      ⟨⟨partly, ?_⟩, ⟨rfl, fun _ => rfl, rfl, rfl⟩, ?_⟩⟩
    · intro id r found
      obtain same | ⟨s, s', was, now, marked⟩ := partly.runs id
      · have listed := same.symm.trans found
        exact none r (Db.mem_allRuns.mpr ⟨id, listed⟩) r
          (by rw [start.db.keyed id r listed]; exact found)
      · cases found.symm.trans now
        rw [marked.status]
        rfl
    · have course : Course env .restart _ _ := .refl sound'
      exact (course.step (.pushed .schedule trivial trivial (by rintro _ _ _ ⟨⟩))).sound

theorem restart_exact (sound : w.Sound env) :
    w.db.Recovered ((Service.restart env).after w).db ∧ ((Service.restart env).after w).Fresh ∧
      ((Service.restart env).after w).Sound env := by
  have done : wp (Service.restart env)
      (fun _ w' => w.db.Recovered w'.db ∧ w'.Fresh ∧ w'.Sound env) (fun _ _ => False) w :=
    wp_restart_exact sound
  exact after_of_wp (wp_mono done (fun _ _ h => h) (fun _ _ => False.elim))

end Recovery

end Mathmodel
