import Mathmodel.Backend.Ledger
import Mathmodel.Backend.Script
import Mathmodel.Json.Canonical

/-!
# Receipts of commands

A receipt is written in the transaction of its command and never again. What a
command does is therefore decided by the receipts alone as soon as its key is
known, whatever became of the run in the meantime.
-/

namespace Mathmodel

open Program

/-- Receipts stay as they are. -/
def Db.KeepsReceipts (before after : Db) : Prop :=
  ∀ key receipt, before.receipts.lookup key = some receipt →
    after.receipts.lookup key = some receipt

namespace Db.KeepsReceipts

variable {a b c : Db}

theorem refl (a : Db) : a.KeepsReceipts a := fun _ _ h => h

theorem trans (h : a.KeepsReceipts b) (h' : b.KeepsReceipts c) : a.KeepsReceipts c :=
  fun key receipt found => h' key receipt (h key receipt found)

theorem insert {key : String} {receipt : Receipt} {next : Db}
    (unused : a.receipts.lookup key = none) (same : next.receipts = a.receipts) :
    a.KeepsReceipts { next with receipts := next.receipts.insert key receipt } := by
  intro other prior found
  have ne : other ≠ key := by
    rintro rfl
    rw [unused] at found
    cases found
  rw [AList.lookup_insert_ne ne, same]
  exact found

end Db.KeepsReceipts

theorem Db.Writes.receipts {db db' : Db} {m : Moment} {id : String} {change : Change}
    {r r' : Run} (h : db.Writes m id change r r' db') : db'.receipts = db.receipts := by
  obtain ⟨type, payload, -, rfl⟩ := h.result
  rfl

section Keeping

variable {env : Env} {cause : Cause} {w w' : World}

theorem Commit.keepsReceipts {origin : Origin} {before after : Db}
    (commit : Commit env cause w origin before after) : before.KeepsReceipts after := by
  cases commit with
  | skipped => exact .refl _
  | replayed => exact .refl _
  | wrote why writes =>
      intro key receipt found
      rw [writes.receipts]
      exact found
  | projectCreated request unused => exact .insert unused rfl
  | runCreated request unused run fresh object => exact .insert unused rfl
  | commanded command request unused current writes => exact .insert unused writes.receipts

theorem Effect.keepsReceipts (sound : w.Sound env) (effect : Effect env cause w w') :
    w.db.KeepsReceipts w'.db := by
  obtain ⟨entries, -, ledger⟩ := effect.ledger sound
  refine ledger.keeps (.refl _) ?_
  intro origin before after _ kept commit
  exact kept.trans commit.keepsReceipts

theorem Course.keepsReceipts (course : Course env cause w w') (sound : w.Sound env) :
    w.db.KeepsReceipts w'.db := by
  refine course.keeps (I := fun v => w.db.KeepsReceipts v.db) sound (.refl _) ?_
  intro v v' sound effect kept
  exact kept.trans (effect.keepsReceipts sound)

theorem step_keepsReceipts {a : Action} (sound : w.Sound env) (taken : Step env w a w') :
    w.db.KeepsReceipts w'.db := by
  obtain ⟨cause, w₀, w₁, begins, course, rfl⟩ := step_course sound taken
  have start : w₀.db = w.db := by cases begins <;> rfl
  exact start ▸ course.keepsReceipts (begins.sound sound)

theorem Reaches.keepsReceipts (run : Reaches (Step env) .init w)
    (later : Reaches (Step env) w w') : w.db.KeepsReceipts w'.db := by
  refine later.invariant (I := fun v => w.db.KeepsReceipts v.db) (.refl _) ?_
  intro u a v between kept taken
  exact kept.trans (step_keepsReceipts (World.Sound.reached (run.trans between)) taken)

end Keeping

/-- How a command ends: it is malformed, the service stops, the store refuses it, its
key is known, or it is accepted and then followed by its effects. -/
inductive Answered (env : Env) (w : World) (body : Json) :
    Except Err Db.Outcome → World → Prop where
  | malformed (decoded : Command.ofJson body = none) :
      Answered env w body (.error ((env.moment w.clock).schemaError "command")) w
  | stopping {c : Command} (decoded : Command.ofJson body = some c) (stops : w.stopping = true) :
      Answered env w body (.error (.domain .runtimeUnavailable "Service is stopping")) w
  | refused {c : Command} {e : Err} (decoded : Command.ofJson body = some c)
      (runs : w.stopping = false)
      (refused : w.db.command c.idempotencyKey (env.sha256 body.canonical)
        (Service.handle env w (env.moment w.clock) c.request) = .error e) :
      Answered env w body (.error e) w
  | replayed {c : Command} {prior : Receipt} (decoded : Command.ofJson body = some c)
      (runs : w.stopping = false)
      (known : w.db.receipts.lookup c.idempotencyKey = some prior)
      (same : prior.digest = env.sha256 body.canonical) :
      Answered env w body (.ok ⟨true, prior.body⟩) (w.accept c true w.db)
  | accepted {c : Command} {value : ReceiptValue} {w' : World}
      (decoded : Command.ofJson body = some c) (runs : w.stopping = false)
      (unused : w.db.receipts.lookup c.idempotencyKey = none)
      (stored : w'.db.receipts.lookup c.idempotencyKey =
        some ⟨env.sha256 body.canonical, value⟩) : Answered env w body (.ok ⟨false, value⟩) w'

section Answers

variable {env : Env} {w w' : World} {body : Json}

theorem wp_answered (body : Json) (sound : w.Sound env) :
    wp (Service.command env body) (fun outcome => Answered env w body (.ok outcome))
      (fun e => Answered env w body (.error e)) w := by
  simp only [Service.command, wp_bind, wp_get]
  cases decoded : Command.ofJson body with
  | none => exact .malformed decoded
  | some c =>
      dsimp only
      rw [wp_ite]
      refine ⟨fun stops => .stopping decoded stops, fun runs => ?_⟩
      rw [Bool.not_eq_true] at runs
      cases result : w.db.command c.idempotencyKey (env.sha256 body.canonical)
          (Service.handle env w (env.moment w.clock) c.request) with
      | error e => exact .refused decoded runs result
      | ok answer =>
          obtain ⟨outcome, db⟩ := answer
          simp only [wp_bind, wp_modify]
          obtain ⟨prior, known, same, rfl, rfl⟩ | ⟨value, next, unused, handled, rfl, rfl⟩ :=
            Db.command_ok result
          · exact .replayed decoded runs known same
          · rw [wp_ite]
            refine ⟨(by rintro ⟨⟩), fun _ => ?_⟩
            rw [wp_bind]
            have start : Course env (.command w.tasks) w w := .refl sound
            have accepted : (w.accept c false { next with
                receipts := next.receipts.insert c.idempotencyKey
                  ⟨env.sha256 body.canonical, value⟩ }).Sound env :=
              (start.step (accepted_effect rfl unused handled)).sound
            refine wp_mono (wp_accepted sound (.refl accepted) rfl handled) ?_
              (fun _ _ thrown => thrown)
            intro _ w' course
            refine .accepted decoded runs unused (course.keepsReceipts accepted _ _ ?_)
            exact AList.lookup_insert _

theorem answered_of_exec (sound : w.Sound env) {result : Except Err Db.Outcome}
    (done : (Service.command env body).exec w = (result, w')) : Answered env w body result w' := by
  have answered := wp_answered body sound
  cases result with
  | ok outcome => exact (wp_of_exec_ok done).mp answered
  | error e => exact (wp_of_exec_error done).mp answered

/-- A command is a step, however it ends. -/
theorem step_command {result : Except Err Db.Outcome}
    (done : (Service.command env body).exec w = (result, w')) :
    Step env w (.command body) w'.tick := by
  simp only [Step, step, perform, after, done, Option.map_some]

/-- An accepted command left its receipt, whether it was a replay or not. -/
theorem Answered.receipt {c : Command} {outcome : Db.Outcome}
    (answered : Answered env w body (.ok outcome) w') (decoded : Command.ofJson body = some c) :
    w'.db.receipts.lookup c.idempotencyKey = some ⟨env.sha256 body.canonical, outcome.value⟩ := by
  cases answered with
  | replayed decoded' runs known same =>
      cases decoded.symm.trans decoded'
      rw [← same]
      exact known
  | accepted decoded' runs unused stored =>
      cases decoded.symm.trans decoded'
      exact stored

/-- A rejected command changes nothing. -/
theorem Answered.rejected {e : Err} (answered : Answered env w body (.error e) w') : w' = w := by
  cases answered <;> rfl

end Answers

/-- The key of a command is taken: the same body is answered with the value, any other
body is a conflict. Neither changes a table, starts a task or writes to a runtime. -/
structure World.Remembers (env : Env) (w : World) (key : String) (body : Json)
    (value : ReceiptValue) : Prop where
  same : ∀ body' c, Command.ofJson body' = some c → c.idempotencyKey = key →
    body'.units.Distinct → body'.units.Same body.units →
    (Service.command env body').exec w = (.ok ⟨true, value⟩, w.accept c true w.db)
  other : ∀ body' c, Command.ofJson body' = some c → c.idempotencyKey = key →
    body'.units.Distinct → ¬ body'.units.Same body.units →
    (Service.command env body').exec w =
      (.error (.domain .conflict "Idempotency key reused"), w)

theorem World.remembers_of_receipt {env : Env} {w : World} {key : String} {body : Json}
    {value : ReceiptValue} (digests : Function.Injective env.sha256) (sound : w.Sound env)
    (runs : w.stopping = false) (distinct : body.units.Distinct)
    (receipt : w.db.receipts.lookup key = some ⟨env.sha256 body.canonical, value⟩) :
    w.Remembers env key body value := by
  have digest : ∀ body' : Json, body'.units.Distinct →
      (env.sha256 body.canonical = env.sha256 body'.canonical ↔
        body'.units.Same body.units) := by
    intro body' distinct'
    rw [digests.eq_iff, eq_comm, Json.canonical_eq_iff distinct' distinct]
  constructor
  case same =>
      rintro body' c decoded rfl distinct' same
      have equal := (digest body' distinct').mpr same
      rcases done : (Service.command env body').exec w with ⟨result, w'⟩
      have answered := answered_of_exec sound done
      cases answered with
      | malformed decoded' => cases decoded.symm.trans decoded'
      | stopping decoded' stops => cases stops.symm.trans runs
      | refused decoded' _ refused =>
          cases decoded.symm.trans decoded'
          simp only [Db.command, receipt] at refused
          rw [if_neg (not_not.mpr equal)] at refused
          cases refused
      | replayed decoded' _ known same =>
          cases decoded.symm.trans decoded'
          cases receipt.symm.trans known
          rfl
      | accepted decoded' _ unused stored =>
          cases decoded.symm.trans decoded'
          cases receipt.symm.trans unused
  case other =>
      rintro body' c decoded rfl distinct' other
      have differ := fun equal => other ((digest body' distinct').mp equal)
      rcases done : (Service.command env body').exec w with ⟨result, w'⟩
      have answered := answered_of_exec sound done
      cases answered with
      | malformed decoded' => cases decoded.symm.trans decoded'
      | stopping decoded' stops => cases stops.symm.trans runs
      | refused decoded' _ refused =>
          cases decoded.symm.trans decoded'
          simp only [Db.command, receipt] at refused
          rw [if_pos differ] at refused
          cases refused
          rfl
      | replayed decoded' _ known same =>
          cases decoded.symm.trans decoded'
          cases receipt.symm.trans known
          exact absurd same differ
      | accepted decoded' _ unused stored =>
          cases decoded.symm.trans decoded'
          cases receipt.symm.trans unused

/-- A rejected command changes nothing. An accepted command is remembered for ever, across
restarts: its body is answered with its receipt, every other body under its key is a
conflict, and neither has an effect. -/
theorem commands_idempotent {env : Env} {w : World} {body : Json}
    (digests : Function.Injective env.sha256) (run : Reaches (Step env) .init w)
    (distinct : body.units.Distinct) :
    (∀ e w', (Service.command env body).exec w = (.error e, w') → w' = w) ∧
    ∀ c outcome w₁, Command.ofJson body = some c →
      (Service.command env body).exec w = (.ok outcome, w₁) →
      ∀ w₂, Reaches (Step env) w₁.tick w₂ → w₂.stopping = false →
        w₂.Remembers env c.idempotencyKey body outcome.value := by
  have sound := World.Sound.reached run
  constructor
  · intro e w' done
    exact (answered_of_exec sound done).rejected
  · intro c outcome w₁ decoded done w₂ later runs
    have there := run.tail (step_command done)
    have receipt := (answered_of_exec sound done).receipt decoded
    have kept := there.keepsReceipts later _ _ (show w₁.tick.db.receipts.lookup _ = _ from receipt)
    exact World.remembers_of_receipt digests (World.Sound.reached (there.trans later)) runs
      distinct kept

theorem Script.createProject_distinct : Script.createProject.units.Distinct := by
  refine .obj (by decide) ?_
  intro field member
  simp only [Json.unitsFields, List.mem_cons, List.not_mem_nil, or_false] at member
  rcases member with rfl | rfl | rfl <;> exact .str _

set_option maxRecDepth 100000 in
/-- The first command of the script is still remembered when a run has been started. -/
theorem commands_idempotent_project : ∃ w₁ w₂ outcome,
    (Service.command (Script.env []) Script.createProject).exec .init = (.ok outcome, w₁) ∧
    Reaches (Step (Script.env [])) w₁.tick w₂ ∧ (Script.run w₂).isSome = true ∧
    w₂.Remembers (Script.env []) "k1" Script.createProject outcome.value := by
  let env := Script.env []
  obtain ⟨w₁, outcome, done⟩ : ∃ w₁ outcome,
      (Service.command env Script.createProject).exec .init = (.ok outcome, w₁) := by
    exact ⟨_, _, rfl⟩
  have played : ((play (nodeStep env) ((Service.command env Script.createProject).exec .init).2.tick
      Script.started.tail).any fun w => (Script.run w).isSome && !w.stopping) = true := by
    decide +kernel
  rw [done] at played
  obtain ⟨w₂, later, holds⟩ := (Option.any_eq_true _ _).mp played
  rw [Bool.and_eq_true, Bool.not_eq_true'] at holds
  have reached := (reaches_node_iff.mpr ⟨_, later⟩).ofNode
  have distinct := Script.createProject_distinct
  exact ⟨w₁, w₂, outcome, done, reached, holds.1, (commands_idempotent Script.digests_injective
    (.refl _) distinct).2 ⟨"k1", .createProject "p"⟩ outcome w₁ (by decide +kernel) done w₂
      reached holds.2⟩

end Mathmodel
