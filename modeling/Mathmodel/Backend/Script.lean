import Mathmodel.Backend.Service
import Mathmodel.Library.Tabled
import Mathmodel.Library.Transition

/-!
# Scripted runs

The steps of the event loop can be computed, so a run of the service is a list
of actions, and the states it reaches are those that some list computes. The
environment below answers as the real one does in a script where every write
and every start of a process succeeds and the runtime sends the given frames.
-/

namespace Mathmodel

instance (w : World) : Decidable w.Idle :=
  inferInstanceAs (Decidable (∀ t ∈ w.tasks, t.isReady = false))

instance (a : Action) (w : World) : Decidable (a.InTurn w) :=
  match a with
  | .run _ | .restart => isTrue trivial
  | .command _ | .chunk .. | .stdinError _ | .processError _ | .timeout .. | .processClose _
  | .close => inferInstanceAs (Decidable w.Idle)

/-- A step of the event loop. -/
def nodeStep (env : Env) (w : World) (a : Action) : Option World :=
  if a.InTurn w then step env w a else none

theorem nodeStep_eq_some {env : Env} {w w' : World} {a : Action} :
    nodeStep env w a = some w' ↔ NodeStep env w a w' := by
  unfold nodeStep NodeStep Step
  split
  · rename_i turn
    exact ⟨fun h => ⟨turn, h⟩, fun h => h.2⟩
  · rename_i turn
    exact ⟨nofun, fun h => absurd h.1 turn⟩

/-- The event loop reaches what some list of actions computes. -/
theorem reaches_node_iff {env : Env} {w w' : World} :
    Reaches (NodeStep env) w w' ↔ ∃ actions, play (nodeStep env) w actions = some w' := by
  have same : NodeStep env = fun w a w' => nodeStep env w a = some w' := by
    funext w a w'
    exact propext nodeStep_eq_some.symm
  rw [same]
  exact reaches_iff_play

theorem Reaches.ofNode {env : Env} {w w' : World} (h : Reaches (NodeStep env) w w') :
    Reaches (Step env) w w' := h.mono fun _ _ _ taken => taken.2

namespace Script

/-- Identifiers are told apart by their length. -/
def uuid (n : Nat) : String := String.ofList (List.replicate (n + 1) 'u')

theorem uuid_injective : Function.Injective uuid := by
  intro a b h
  have := congrArg (fun s => s.toList.length) h
  simpa [uuid] using this

/-- The digests of the commands of the scripts, by their canonical texts. -/
def digests : List (String × String) :=
  [("\x7b\"command\":\"create_project\",\"idempotency_key\":\"k1\",\"name\":\"p\"\x7d",
      "42ac2bdc3bf70449cc5b006c7fd08152f6e6679dce37c209ed3d695a914a6953"),
    ("\x7b\"command\":\"create_run\",\"idempotency_key\":\"k2\",\"project_id\":\"u\"," ++
      "\"task\":\x7b\"acceptance_criteria\":[\"c\"],\"prompt\":\"p\",\"title\":\"t\"\x7d\x7d",
      "2e3e1136e7dd67f39197770efe21342396b8006418b6397fe7de726a172d72e3"),
    ("\x7b\"command\":\"start_run\",\"expected_version\":1," ++
      "\"idempotency_key\":\"k3\",\"run_id\":\"uu\"\x7d",
      "e231971734268401766b65847399ae662b9d48eb6f1c4352c932d65004428db4"),
    ("\x7b\"command\":\"cancel_run\",\"expected_version\":4," ++
      "\"idempotency_key\":\"k4\",\"run_id\":\"uu\"\x7d",
      "2173b61e5cfb9df3df1a7c655d636a64a482c5f2a106ffe568186fcaa765623b"),
    ("\x7b\"command\":\"retry_run\",\"expected_version\":6," ++
      "\"idempotency_key\":\"k4\",\"run_id\":\"uu\"\x7d",
      "b3b69e7f928994109d7fb2bdc42923af198b44c278bd8d5c989e8a18f2375e86"),
    ("\x7b\"approval_id\":\"uuuuu\",\"command\":\"resolve_approval\",\"decision\":\"accept\"," ++
      "\"expected_version\":6,\"idempotency_key\":\"k4\",\"run_id\":\"uu\"\x7d",
      "8ba3a7b4400be665b6b8e3dbde7f51bd59b04c84fb9cf4f8937caeae1dbe552c")]

/-- Any other text, told apart from the digests. -/
def undigested (text : String) : String := String.ofList (' ' :: text.toList)

theorem undigested_injective : Function.Injective undigested := by
  intro a b same
  exact String.toList_inj.mp (List.cons.inj (String.ofList_injective same)).2

theorem digests_injective : Function.Injective (tabled digests undigested) := by
  refine tabled_injective (by decide +kernel) undigested_injective fun text e listed same => ?_
  have blank : e.2.toList.head? ≠ some ' ' :=
    (show ∀ e ∈ digests, e.2.toList.head? ≠ some ' ' by decide +kernel) e listed
  rw [← same, undigested, String.toList_ofList] at blank
  exact blank rfl

/-- The surroundings of a script in which the runtime sends the given frames. -/
def env (frames : List Json) : Env where
  parse text := match frames.find? fun m => m.write id == text.toList with
    | some m => .ok m
    | none => .error "Unexpected token"
  sha256 := tabled digests undigested
  uuid := uuid
  uuid_injective := uuid_injective
  stdin _ _ := ⟨true, 0⟩
  launch _ := ⟨.ok "/w/p", none, none⟩
  moment _ := ⟨"2026-01-01T00:00:00.000Z", "invalid"⟩
  workspaceRoot := "/w"

/-- A chunk with one frame on each line. -/
def lines (frames : List Json) : List Char := frames.flatMap fun m => m.write id ++ ['\n']

def reply (n : Nat) (result : Json) : Json := .obj [("id", .num (.ofNat n)), ("result", result)]

/-- Replies to `initialize`, `thread/start` and `turn/start`. -/
def initialized : Json := reply 1 (.obj [])
def threadStarted : Json := reply 2 (.obj [("thread", .obj [("id", .str "t1")])])
def turnStarted : Json := reply 3 (.obj [("turn", .obj [("id", .str "u1")])])

/-- A notification about the turn of the script. -/
def turnCompleted (status : Json) : Json := .obj
  [("method", .str "turn/completed"),
    ("params", .obj [("threadId", .str "t1"),
      ("turn", .obj [("id", .str "u1"), ("status", status)])])]

def createProject : Json := .obj
  [("command", .str "create_project"), ("idempotency_key", .str "k1"), ("name", .str "p")]

def createRun : Json := .obj
  [("command", .str "create_run"), ("idempotency_key", .str "k2"), ("project_id", .str "u"),
    ("task", .obj [("title", .str "t"), ("prompt", .str "p"),
      ("acceptance_criteria", .arr [.str "c"])])]

/-- A command on the run of the script, at the given version. -/
def onRun (command key : String) (version : Nat) : Json := .obj
  [("command", .str command), ("idempotency_key", .str key), ("run_id", .str "uu"),
    ("expected_version", .num (.ofNat version))]

/-- The run is created and started, and its runtime is spawned. -/
def started : List Action :=
  [.command createProject, .run 0, .command createRun, .run 0,
    .command (onRun "start_run" "k3" 1), .run 0]

/-- The runtime has its thread, and `turn/start` is on its way. -/
def dispatched : List Action :=
  started ++ [.chunk 0 (lines [initialized]), .run 0, .run 0,
    .chunk 0 (lines [threadStarted]), .run 0]

/-- The turn is bound. -/
def bound : List Action := dispatched ++ [.chunk 0 (lines [turnStarted]), .run 0]

/-- The runtime asks for an approval, under request id 7. -/
def approvalRequest : Json := .obj
  [("id", .num (.ofNat 7)), ("method", .str "item/commandExecution/requestApproval"),
    ("params", .obj [("threadId", .str "t1"), ("turnId", .str "u1")])]

def asked : List Action := bound ++ [.chunk 0 (lines [approvalRequest])]

/-- The command that decides on the approval of the script. -/
def resolve (decision : String) : Json := .obj
  [("command", .str "resolve_approval"), ("idempotency_key", .str "k4"), ("run_id", .str "uu"),
    ("expected_version", .num (.ofNat 6)), ("approval_id", .str "uuuuu"),
    ("decision", .str decision)]

/-- Frames up to the request for approval. -/
def approvalFrames : List Json := [initialized, threadStarted, turnStarted, approvalRequest]

def run (w : World) : Option Run := w.db.runs.lookup "uu"

/-- A script that ends in a state with the property reaches such a state. -/
theorem reaches (frames : List Json) (actions : List Action) (p : World → Bool)
    (h : (play (nodeStep (env frames)) .init actions).any p = true) :
    ∃ w, Reaches (NodeStep (env frames)) .init w ∧ p w = true := by
  obtain ⟨w, done, holds⟩ := (Option.any_eq_true _ _).mp h
  exact ⟨w, reaches_node_iff.mpr ⟨actions, done⟩, holds⟩

/-- The same for a script all of whose steps pass a check. -/
theorem reachesIn (frames : List Json) (check : World → Action → Bool) (actions : List Action)
    (p : World → Bool)
    (h : (play (fun w a => if check w a then nodeStep (env frames) w a else none) .init
      actions).any p = true) :
    ∃ w, Reaches (fun w a w' => NodeStep (env frames) w a w' ∧ check w a = true) .init w ∧
      p w = true := by
  obtain ⟨w, done, holds⟩ := (Option.any_eq_true _ _).mp h
  refine ⟨w, (reaches_iff_play.mpr ⟨actions, done⟩).mono ?_, holds⟩
  intro u a v taken
  split at taken
  · rename_i passed
    exact ⟨nodeStep_eq_some.mp taken, passed⟩
  · cases taken

end Script

end Mathmodel
