import Mathmodel.Backend.History

/-!
# History of attempts

The attempts of a run are numbered from one. A transaction changes the last of them or
appends the next one, so whatever an attempt said when the next one began, it says for
ever.
-/

namespace Mathmodel

/-- What a transaction may do to the attempts of a run. -/
inductive Advances : List Attempt → List Attempt → Prop where
  | same (xs : List Attempt) : Advances xs xs
  | last {older : List Attempt} {a a' : Attempt} (number : a'.attempt = a.attempt)
      (created : a'.createdAt = a.createdAt) : Advances (older ++ [a]) (older ++ [a'])
  | next {older : List Attempt} {a : Attempt} (number : a.attempt = older.length + 1)
      (unbound : a.threadId = none ∧ a.turnId = none) : Advances older (older ++ [a])

/-- The attempts are numbered in the order in which they were appended. -/
def Numbered (xs : List Attempt) : Prop :=
  ∀ (i : Nat) (a : Attempt), xs[i]? = some a → a.attempt = i + 1

/-- A later state of the attempts: all but the last are as they were, and the last kept
its number and the time it was created. -/
structure Continues (xs ys : List Attempt) : Prop where
  frozen : xs.dropLast <+: ys
  named : ∀ (i : Nat) (a : Attempt), xs[i]? = some a →
    ∃ a' : Attempt, ys[i]? = some a' ∧ a'.attempt = a.attempt ∧ a'.createdAt = a.createdAt

theorem numbered_concat {older : List Attempt} {a : Attempt} :
    Numbered (older ++ [a]) ↔ Numbered older ∧ a.attempt = older.length + 1 := by
  constructor
  · intro numbered
    refine ⟨fun i b found => numbered i b ?_, numbered older.length a (by simp)⟩
    rw [List.getElem?_append_left (List.getElem?_eq_some_iff.mp found).1]
    exact found
  · rintro ⟨numbered, number⟩ i b found
    obtain within | rfl | beyond := lt_trichotomy i older.length
    · rw [List.getElem?_append_left within] at found
      exact numbered i b found
    · simp only [List.getElem?_concat_length, Option.some.injEq] at found
      rw [← found, number]
    · rw [List.getElem?_eq_none (by simp; omega)] at found
      cases found

theorem Advances.numbered {xs ys : List Attempt} (h : Advances xs ys) (numbered : Numbered xs) :
    Numbered ys := by
  cases h with
  | same => exact numbered
  | last number created =>
      rw [numbered_concat] at numbered ⊢
      exact ⟨numbered.1, number.trans numbered.2⟩
  | next number unbound => exact numbered_concat.mpr ⟨numbered, number⟩

namespace Continues

variable {xs ys zs : List Attempt}

theorem refl (xs : List Attempt) : Continues xs xs :=
  ⟨List.dropLast_prefix xs, fun _ a found => ⟨a, found, rfl, rfl⟩⟩

theorem length_le (h : Continues xs ys) : xs.length ≤ ys.length := by
  by_contra short
  have some : xs[ys.length]? = some xs[ys.length] := List.getElem?_eq_getElem (by omega)
  obtain ⟨a', found, -⟩ := h.named _ _ some
  rw [List.getElem?_eq_none le_rfl] at found
  cases found

theorem trans (h : Continues xs ys) (h' : Continues ys zs) : Continues xs zs := by
  constructor
  · have short : xs.dropLast.length ≤ ys.dropLast.length := by
      have := h.length_le
      simp only [List.length_dropLast]
      omega
    exact (List.prefix_of_prefix_length_le h.frozen (List.dropLast_prefix ys) short).trans
      h'.frozen
  · intro i a found
    obtain ⟨b, found', number, created⟩ := h.named i a found
    obtain ⟨c, found'', number', created'⟩ := h'.named i b found'
    exact ⟨c, found'', number'.trans number, created'.trans created⟩

end Continues

theorem Advances.continues {xs ys : List Attempt} (h : Advances xs ys) : Continues xs ys := by
  cases h with
  | same => exact .refl xs
  | @last older a a' number created =>
      constructor
      · rw [List.dropLast_concat]
        exact List.prefix_append _ _
      · intro i b found
        by_cases within : i < older.length
        · rw [List.getElem?_append_left within] at found ⊢
          exact ⟨b, found, rfl, rfl⟩
        · have bound := (List.getElem?_eq_some_iff.mp found).1
          simp only [List.length_append, List.length_singleton] at bound
          obtain rfl : i = older.length := by omega
          simp only [List.getElem?_concat_length, Option.some.injEq] at found ⊢
          exact ⟨a', rfl, found ▸ number, found ▸ created⟩
  | next number unbound =>
      constructor
      · exact (List.dropLast_prefix xs).trans (List.prefix_append _ _)
      · intro i b found
        refine ⟨b, ?_, rfl, rfl⟩
        rw [List.getElem?_append_left (List.getElem?_eq_some_iff.mp found).1]
        exact found

theorem Run.setLast_advances {r : Run} {a b : Attempt} (last : r.lastAttempt = some a)
    (number : b.attempt = a.attempt) (created : b.createdAt = a.createdAt) :
    Advances r.attempts (r.setLast b).attempts := by
  have shape := Run.attempts_eq_of_lastAttempt last
  change Advances r.attempts (r.attempts.dropLast ++ [b])
  generalize r.attempts.dropLast = older at shape ⊢
  rw [shape]
  exact .last number created

theorem Change.Saves.advances {m : Moment} {r r' : Run} {change : Change}
    (h : change.Saves m r r') : Advances r.attempts r'.attempts := by
  cases h with
  | startAttempt status => exact .next rfl ⟨rfl, rfl⟩
  | review status last => exact Run.setLast_advances last rfl rfl
  | bindThread last typed => exact Run.setLast_advances last rfl rfl
  | cancelBeforeTurn last => exact Run.setLast_advances last rfl rfl
  | failBeforeDispatch last => exact Run.setLast_advances last rfl rfl
  | bindTurn last unbound typed => exact Run.setLast_advances last rfl rfl
  | message last => exact Run.setLast_advances last rfl rfl
  | finish last typed => exact Run.setLast_advances last rfl rfl
  | uncertain last =>
      have last' : ({ r with status := .recoveryRequired } : Run).expire.lastAttempt = _ := last
      exact Run.setLast_advances last' rfl rfl
  | _ => exact .same _

/-- A later state of a run. -/
structure Run.Continues (r r' : Run) : Prop where
  identity : r'.runId = r.runId ∧ r'.projectId = r.projectId ∧ r'.task = r.task ∧
    r'.createdAt = r.createdAt
  attempts : Mathmodel.Continues r.attempts r'.attempts

namespace Run.Continues

variable {r s t : Run}

theorem refl (r : Run) : r.Continues r := ⟨⟨rfl, rfl, rfl, rfl⟩, .refl _⟩

theorem trans (h : r.Continues s) (h' : s.Continues t) : r.Continues t := by
  obtain ⟨runId, projectId, task, created⟩ := h.identity
  obtain ⟨runId', projectId', task', created'⟩ := h'.identity
  exact ⟨⟨runId'.trans runId, projectId'.trans projectId, task'.trans task,
    created'.trans created⟩, h.attempts.trans h'.attempts⟩

end Run.Continues

theorem Change.Saves.continues {m m' : Moment} {r r' : Run} {change : Change}
    (h : change.Saves m r r') : r.Continues (Db.bump m' r') := by
  obtain ⟨runId, projectId, task, -, -⟩ := h.identity
  have created : r'.createdAt = r.createdAt := by cases h <;> rfl
  exact ⟨⟨runId, projectId, task, created⟩, h.advances.continues⟩

/-- What a transaction does to the attempts of a stored run: it may change the last of
them, and only the start of a queued run appends one. -/
structure Db.Attempted (origin : Origin) (id : String) (r r' : Run) : Prop where
  advances : Advances r.attempts r'.attempts
  continues : r.Continues r'
  appended : r'.attempts.length ≠ r.attempts.length →
    origin = .update id .startAttempt .service ∧ r.status = .queued ∧ r'.status = .starting

section Transactions

variable {env : Env} {cause : Cause} {w : World} {origin : Origin} {before after : Db}

theorem Commit.attempted (commit : Commit env cause w origin before after) (sound : before.Sound)
    {id : String} {r : Run} (found : before.runs.lookup id = some r) :
    ∃ r', after.runs.lookup id = some r' ∧ Db.Attempted origin id r r' := by
  obtain ⟨r', found'⟩ : ∃ r', after.runs.lookup id = some r' := by
    obtain ⟨same, -⟩ | ⟨body, event, moves⟩ := commit.shape.together sound id
    · exact ⟨r, same.trans found⟩
    · exact ⟨body, moves.stored⟩
  refine ⟨r', found', ?_⟩
  obtain same | ⟨m, projectId, task, none, -⟩ |
    ⟨s, s', change, via, rfl, was, why, saves, rfl⟩ |
    ⟨s, s', c, version, op, rfl, -, -, request, -, was, saves, rfl⟩ := commit.run sound found'
  · cases found.symm.trans same
    exact ⟨.same _, .refl _, fun more => absurd rfl more⟩
  · cases found.symm.trans none
  · cases found.symm.trans was
    refine ⟨saves.advances, saves.continues, fun more => ?_⟩
    obtain same | ⟨rfl, status, -⟩ := saves.attempts_length
    · exact absurd same more
    · cases why
      exact ⟨rfl, status, saves.starting⟩
  · cases found.symm.trans was
    refine ⟨saves.advances, saves.continues, fun more => ?_⟩
    obtain same | ⟨is, -⟩ := saves.attempts_length
    · exact absurd same more
    · cases is

theorem Commit.numbered (commit : Commit env cause w origin before after) (sound : before.Sound)
    (h : ∀ id r, before.runs.lookup id = some r → Numbered r.attempts) (id : String) (r' : Run)
    (found' : after.runs.lookup id = some r') : Numbered r'.attempts := by
  cases found : before.runs.lookup id with
  | some r =>
      obtain ⟨s, stored, attempted⟩ := commit.attempted sound found
      cases found'.symm.trans stored
      exact attempted.advances.numbered (h id r found)
  | none =>
      obtain same | ⟨m, projectId, task, -, rfl⟩ | ⟨r, -, -, -, -, was, -⟩ |
        ⟨r, -, -, -, -, -, -, -, -, -, was, -⟩ := commit.run sound found'
      · cases found.symm.trans same
      · intro i a listed
        simp [Db.bump, Service.newRun] at listed
      · cases found.symm.trans was
      · cases found.symm.trans was

end Transactions

/-- Every stored run is still there, in a later state. -/
def Db.RunsContinue (before after : Db) : Prop :=
  ∀ id r, before.runs.lookup id = some r →
    ∃ r', after.runs.lookup id = some r' ∧ r.Continues r'

namespace Db.RunsContinue

variable {a b c : Db}

theorem refl (a : Db) : a.RunsContinue a := fun _ r found => ⟨r, found, .refl r⟩

theorem trans (h : a.RunsContinue b) (h' : b.RunsContinue c) : a.RunsContinue c := by
  intro id r found
  obtain ⟨s, found', continues⟩ := h id r found
  obtain ⟨t, found'', continues'⟩ := h' id s found'
  exact ⟨t, found'', continues.trans continues'⟩

end Db.RunsContinue

section Runs

variable {env : Env} {w w' : World}

theorem Effect.runsContinue {cause : Cause} (sound : w.Sound env)
    (effect : Effect env cause w w') : w.db.RunsContinue w'.db := by
  obtain ⟨entries, -, ledger⟩ := effect.ledger sound
  refine ledger.keeps (.refl _) ?_
  intro origin before after sound kept commit
  refine kept.trans fun id r found => ?_
  obtain ⟨r', found', attempted⟩ := commit.attempted sound found
  exact ⟨r', found', attempted.continues⟩

theorem step_runsContinue {a : Action} (sound : w.Sound env) (taken : Step env w a w') :
    w.db.RunsContinue w'.db := by
  obtain ⟨cause, w₀, w₁, begins, course, rfl⟩ := step_course sound taken
  have start : w₀.db = w.db := by cases begins <;> rfl
  refine course.keeps (I := fun v => w.db.RunsContinue v.db) (begins.sound sound) ?_ ?_
  · rw [start]
    exact .refl _
  · intro v v' sound effect kept
    exact kept.trans (effect.runsContinue sound)

theorem numbered_reached (run : Reaches (Step env) .init w) :
    ∀ id r, w.db.runs.lookup id = some r → Numbered r.attempts := by
  refine run.ledger (I := fun _ db => ∀ id r, db.runs.lookup id = some r → Numbered r.attempts)
    ?_ ?_ (fun _ _ _ _ h => h)
  · intro id r found
    simp [Db.empty] at found
  · intro cause w origin before after log _ sound commit h
    exact commit.numbered sound h

theorem attempted_reached (run : Reaches (Step env) .init w) :
    ∀ origin before after, .commit origin before after ∈ w.log →
      ∀ id r, before.runs.lookup id = some r →
        ∃ r', after.runs.lookup id = some r' ∧ Db.Attempted origin id r r' := by
  refine run.ledger (I := fun log _ => ∀ origin before after, .commit origin before after ∈ log →
    ∀ id r, before.runs.lookup id = some r →
      ∃ r', after.runs.lookup id = some r' ∧ Db.Attempted origin id r r') (by simp) ?_ ?_
  · intro cause w origin before after log _ sound commit h origin' before' after' member
    rcases List.mem_cons.mp member with same | old
    · cases same
      exact fun id r found => commit.attempted sound found
    · exact h origin' before' after' old
  · intro e log db plain h origin before after member
    rcases List.mem_cons.mp member with same | old
    · subst same
      cases plain
    · exact h origin before after old

/-- The attempts of a run are numbered and at most a thousand. Every transaction changes the
last attempt or, for a queued run that starts, appends the next; so every earlier attempt
stays as it is in all later states, after a restart too. -/
theorem attempt_history (run : Reaches (Step env) .init w) :
    (∀ id r, w.db.runs.lookup id = some r →
      r.attempts.length ≤ 1000 ∧ Numbered r.attempts) ∧
    (∀ origin before after, .commit origin before after ∈ w.log →
      ∀ id r, before.runs.lookup id = some r →
        ∃ r', after.runs.lookup id = some r' ∧ Db.Attempted origin id r r') ∧
    ∀ w', Reaches (Step env) w w' → w.db.RunsContinue w'.db := by
  refine ⟨?_, attempted_reached run, ?_⟩
  · intro id r found
    exact ⟨((World.Sound.reached run).db.runs id r found).valid.2.2.2.1.1,
      numbered_reached run id r found⟩
  · intro w' later
    refine later.invariant (I := fun v => w.db.RunsContinue v.db) (.refl _) ?_
    intro u a v between kept taken
    exact kept.trans (step_runsContinue (World.Sound.reached (run.trans between)) taken)

end Runs

set_option maxRecDepth 100000 in
/-- In a script that has started a run there is one attempt. -/
theorem attempt_history_started : ∃ w, Reaches (Step (Script.env [])) .init w ∧
    (Script.run w).any (·.attempts.length == 1) = true ∧
    (∀ id r, w.db.runs.lookup id = some r →
      r.attempts.length ≤ 1000 ∧ Numbered r.attempts) ∧
    (∀ origin before after, .commit origin before after ∈ w.log →
      ∀ id r, before.runs.lookup id = some r →
        ∃ r', after.runs.lookup id = some r' ∧ Db.Attempted origin id r r') ∧
    ∀ w', Reaches (Step (Script.env [])) w w' → w.db.RunsContinue w'.db := by
  obtain ⟨w, run, one⟩ := Script.reaches [] Script.started
    (fun w => (Script.run w).any (·.attempts.length == 1)) (by decide +kernel)
  exact ⟨w, run.ofNode, one, attempt_history run.ofNode⟩

end Mathmodel
