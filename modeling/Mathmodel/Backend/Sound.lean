import Mathmodel.Backend.Effects

/-!
# The invariant of the service

`World.Sound` holds in every state the service can reach, whatever the order of
commands, frames, faults, continuations and restarts. It has one part for each
thing that several pieces of code must agree on: the tables, the wiring of runs
to runtimes, the promises that tasks wait for, the requests an attempt may still
send, and the identifiers handed out.
-/

namespace Mathmodel

namespace World

/-- Runs, live runtimes and adapters fit together. -/
structure Wired (w : World) : Prop where
  era : w.lifetime ≤ w.created
  single : ∀ id g id' g', w.live.lookup id = some g → w.live.lookup id' = some g' → id = id'
  idle : ∀ id r, w.db.runs.lookup id = some r → r.status = .queued → w.live.entries = []
  started : ∀ id g, w.live.lookup id = some g →
    w.Current g ∧ ∃ r, w.db.runs.lookup id = some r ∧ r.attempts ≠ []
  listener : ∀ g id, (w.codex g).listener = some id →
    w.live.lookup id = some g ∧
      ∃ r, w.db.runs.lookup id = some r ∧
        (w.codex g).purpose = .execution id r.attempts.length
  attached : ∀ g id k, (w.codex g).closed = false → (w.codex g).purpose = .execution id k →
    (w.codex g).listener = some id
  connected : ∀ g, (w.codex g).closed = false → ∃ id, w.live.lookup id = some g
  running : ∀ g, (w.codex g).process = .running → ∃ id, w.live.lookup id = some g
  closed : ∀ g, (w.codex g).closed = true →
    (w.codex g).pending = [] ∧ (w.codex g).approvals = []
  purposes : ∀ g id k, w.Current g → (w.codex g).purpose = .execution id k →
    ∃ r, w.db.runs.lookup id = some r ∧ 1 ≤ k ∧ k ≤ r.attempts.length
  distinct : ∀ g g' id k, w.Current g → w.Current g' → (w.codex g).purpose = .execution id k →
    (w.codex g').purpose = .execution id k → g = g'

/-- The frame awaits a reply of the runtime. -/
def AwaitsReply (g : Nat) : Frame → Prop
  | .handshake h _ | .threadStarted _ h _ | .turnStarted _ h _ | .threadRead _ h _ => h = g
  | .interrupted _ => True
  | _ => False

/-- What a task waits for can still happen. -/
def Awaits (w : World) (t : Task) : Prop :=
  match t.wait with
  | .reply g n => (∃ call, (n, call) ∈ (w.codex g).pending) ∧ AwaitsReply g t.frame
  | .exit g => (w.codex g).process = .running ∧ ∃ id closing, t.frame = .released id g closing
  | .ready _ => ∀ id g closing, t.frame = .released id g closing →
      (w.codex g).process ≠ .running

/-- Every task belongs to its runtime and waits for something that can happen. -/
structure Waiting (w : World) : Prop where
  owns : ∀ t ∈ w.tasks, w.Owns t.frame
  awaits : ∀ t ∈ w.tasks, w.Awaits t

/-- No runtime receives a second `thread/start` or `turn/start`. -/
structure Accounted (w : World) : Prop where
  thread : ∀ g, w.threadBudget g ≤ 1
  turn : ∀ g, w.turnBudget g ≤ 1
  unused : ∀ g, w.created ≤ g → w.threadBudget g = 0 ∧ w.turnBudget g = 0

/-- Run ids come from the stream of random identifiers. -/
def Issued (env : Env) (w : World) : Prop :=
  ∀ id r, w.db.runs.lookup id = some r → ∃ n, n < w.uuids ∧ id = env.uuid n

/-- A run whose turn is being interrupted has an attempt. -/
def Interrupts (w : World) : Prop :=
  ∀ id, Frame.interrupted id ∈ w.tasks.map Task.frame →
    ∃ r, w.db.runs.lookup id = some r ∧ r.attempts ≠ []

structure Sound (env : Env) (w : World) : Prop where
  db : w.db.Sound
  wired : w.Wired
  waiting : w.Waiting
  interrupts : w.Interrupts
  accounted : w.Accounted
  issued : w.Issued env

theorem init_sound (env : Env) : init.Sound env where
  db := Db.empty_sound
  wired := by
    constructor <;> simp [init, Db.empty, Codex.absent, Codex.fresh]
  waiting := by constructor <;> simp [init]
  interrupts := by simp [Interrupts, init]
  accounted := by constructor <;> simp [init, threadBudget, turnBudget]
  issued := by simp [Issued, init, Db.empty]

end World

end Mathmodel
