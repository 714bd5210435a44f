import Mathmodel.Backend.Sound

/-!
# Wiring of runs and runtimes

Operations on the world keep runs, live runtimes and adapters together. Most
operations on an adapter only take something away from it, or change it inside
while it is open; they share the relation `Codex.Fades`.
-/

namespace Mathmodel

namespace Task

@[simp] theorem reject_frame (g : Nat) (e : Err) (t : Task) : (t.reject g e).frame = t.frame := by
  unfold reject
  split
  · split <;> rfl
  · rfl

@[simp] theorem settle_frame (g n : Nat) (result : Except Err Json) (t : Task) :
    (t.settle g n result).frame = t.frame := by
  unfold settle
  split
  · split <;> rfl
  · rfl

@[simp] theorem exit_frame (g : Nat) (t : Task) : (t.exit g).frame = t.frame := by
  unfold exit
  split
  · split <;> rfl
  · rfl

end Task

/-- The adapter loses its listener, its process or its open connection, or changes
inside while it stays open. -/
structure Codex.Fades (c c' : Codex) : Prop where
  generation : c'.generation = c.generation
  purpose : c'.purpose = c.purpose
  closed : c.closed = true → c'.closed = true
  listener : c'.listener = c.listener ∨ (c'.listener = none ∧ c'.closed = true)
  process : c'.process = .running → c.process = .running
  empty : c'.closed = true → c'.pending = [] ∧ c'.approvals = []

/-- Every run is still there, with at least its attempts. -/
def Db.Grows (db db' : Db) : Prop :=
  ∀ id r, db.runs.lookup id = some r →
    ∃ r', db'.runs.lookup id = some r' ∧ r.attempts.length ≤ r'.attempts.length

/-- Every run is still there, with as many attempts. -/
def Db.Steady (db db' : Db) : Prop :=
  ∀ id r, db.runs.lookup id = some r →
    ∃ r', db'.runs.lookup id = some r' ∧ r'.attempts.length = r.attempts.length

theorem Db.Steady.grows {db db' : Db} (h : db.Steady db') : db.Grows db' := by
  intro id r found
  obtain ⟨r', found', same⟩ := h id r found
  exact ⟨r', found', same.ge⟩

theorem Db.Steady.refl (db : Db) : db.Steady db := fun _ r found => ⟨r, found, rfl⟩

theorem Db.Grows.refl (db : Db) : db.Grows db := (Db.Steady.refl db).grows

theorem Db.Writes.grows {db db' : Db} {m : Moment} {id : String} {change : Change} {r r' : Run}
    (h : db.Writes m id change r r' db') (sound : db.Sound) : db.Grows db' := by
  intro other s found
  by_cases same : other = id
  · subst same
    rw [h.found, Option.some.injEq] at found
    subst found
    exact ⟨_, h.lookup_self sound, h.saves.attempts_length_le⟩
  · exact ⟨s, by rw [h.lookup_ne sound same, found], le_rfl⟩

theorem Db.Writes.steady {db db' : Db} {m : Moment} {id : String} {change : Change} {r r' : Run}
    (h : db.Writes m id change r r' db') (sound : db.Sound) (ne : change ≠ .startAttempt) :
    db.Steady db' := by
  intro other s found
  by_cases same : other = id
  · subst same
    rw [h.found, Option.some.injEq] at found
    subst found
    refine ⟨_, h.lookup_self sound, ?_⟩
    obtain length | ⟨start, -⟩ := h.saves.attempts_length
    · exact length
    · exact absurd start ne
  · exact ⟨s, by rw [h.lookup_ne sound same, found], rfl⟩

namespace World.Wired

variable {w w' : World}

theorem of_live_nil {id : String} {g : Nat} (empty : w.live.entries = []) :
    w.live.lookup id ≠ some g := by
  intro found
  have := AList.mem_lookup_iff.mp (show g ∈ w.live.lookup id from found)
  rw [empty] at this
  cases this

/-- Changes of adapters that take something away, with everything else in place. -/
theorem fades (h : w.Wired) (db : w'.db.runs = w.db.runs) (live : w'.live = w.live)
    (created : w'.created = w.created) (lifetime : w'.lifetime = w.lifetime)
    (codex : ∀ g, (w.codex g).Fades (w'.codex g)) : w'.Wired := by
  have current : ∀ g, w'.Current g ↔ w.Current g := by
    intro g
    simp only [Current, created, lifetime]
  have opened : ∀ g, (w'.codex g).closed = false → (w.codex g).closed = false := by
    intro g open_
    by_contra closed
    simp [(codex g).closed (by simpa using closed)] at open_
  constructor
  case era => rw [created, lifetime]; exact h.era
  case single => rw [live]; exact h.single
  case idle => rw [db, live]; exact h.idle
  case started =>
      intro id g found
      rw [live] at found
      rw [current, db]
      exact h.started id g found
  case listener =>
      intro g id listener
      obtain same | ⟨none, -⟩ := (codex g).listener
      · rw [live, db, (codex g).purpose]
        exact h.listener g id (same ▸ listener)
      · rw [none] at listener
        cases listener
  case attached =>
      intro g id k open_ purpose
      obtain same | ⟨-, closed⟩ := (codex g).listener
      · rw [same]
        exact h.attached g id k (opened g open_) ((codex g).purpose ▸ purpose)
      · simp [closed] at open_
  case connected =>
      intro g open_
      rw [live]
      exact h.connected g (opened g open_)
  case running =>
      intro g running
      rw [live]
      exact h.running g ((codex g).process running)
  case closed => exact fun g closed => (codex g).empty closed
  case purposes =>
      intro g id k range purpose
      rw [db]
      exact h.purposes g id k ((current g).mp range) ((codex g).purpose ▸ purpose)
  case distinct =>
      intro g g' id k range range' purpose purpose'
      exact h.distinct g g' id k ((current g).mp range) ((current g').mp range')
        ((codex g).purpose ▸ purpose) ((codex g').purpose ▸ purpose')

/-- A transaction leaves the wiring in place. -/
theorem commit (h : w.Wired) {origin : Origin} {db : Db} (grows : w.db.Grows db)
    (steady : w.live.entries = [] ∨ w.db.Steady db)
    (queued : ∀ id r, db.runs.lookup id = some r → r.status = .queued → w.live.entries = []) :
    (w.commit origin db).Wired := by
  constructor
  case era => exact h.era
  case single => exact h.single
  case idle => exact queued
  case started =>
      intro id g live
      obtain ⟨range, r, found, some⟩ := h.started id g live
      obtain ⟨r', found', le⟩ := grows id r found
      refine ⟨range, r', found', List.length_pos_iff.mp ?_⟩
      exact lt_of_lt_of_le (List.length_pos_iff.mpr some) le
  case listener =>
      intro g id listener
      obtain ⟨live, r, found, purpose⟩ := h.listener g id listener
      obtain empty | steady := steady
      · exact absurd live (of_live_nil empty)
      · obtain ⟨r', found', same⟩ := steady id r found
        exact ⟨live, r', found', by rw [same]; exact purpose⟩
  case attached => exact h.attached
  case connected => exact h.connected
  case running => exact h.running
  case closed => exact h.closed
  case purposes =>
      intro g id k range purpose
      obtain ⟨r, found, pos, le⟩ := h.purposes g id k range purpose
      obtain ⟨r', found', more⟩ := grows id r found
      exact ⟨r', found', pos, le.trans more⟩
  case distinct => exact h.distinct

/-- The wiring after a transaction that saved a run. -/
theorem writes (h : w.Wired) (sound : w.db.Sound) {origin : Origin} {m : Moment} {id : String}
    {change : Change} {r r' : Run} {db : Db} (writes : w.db.Writes m id change r r' db)
    (start : change = .startAttempt → w.live.entries = [])
    (view : ∀ view op, change = .command view op → view.connected = false →
      w.live.entries = []) : (w.commit origin db).Wired := by
  refine h.commit (writes.grows sound) ?_ ?_
  · by_cases starts : change = .startAttempt
    · exact .inl (start starts)
    · exact .inr (writes.steady sound starts)
  · intro other s found queued
    obtain ⟨rfl, rfl⟩ | ⟨-, found⟩ := writes.lookup sound found
    · obtain old | ⟨v, op, rfl, -, free, -⟩ := writes.saves.queued queued
      · exact h.idle _ r writes.found old
      · exact view v op rfl free
    · exact h.idle other s found queued

theorem lookup_of_live_nil (empty : w.live.entries = []) (id : String) :
    w.live.lookup id = none := by
  cases found : w.live.lookup id with
  | none => rfl
  | some g => exact absurd found (of_live_nil empty)

theorem enter_lookup {g : Nat} {id other : String} {h : Nat} (empty : w.live.entries = [])
    (found : (w.live.insert id g).lookup other = some h) : other = id ∧ h = g := by
  by_cases same : other = id
  · subst same
    rw [AList.lookup_insert, Option.some.injEq] at found
    exact ⟨rfl, found.symm⟩
  · rw [AList.lookup_insert_ne same, lookup_of_live_nil empty] at found
    cases found

/-- A new adapter enters the empty slot for a run with attempts. -/
theorem opened (h : w.Wired) {env : Env} {id : String} {r : Run} {purpose : Purpose}
    {listener : Option String}
    (empty : w.live.entries = []) (found : w.db.runs.lookup id = some r)
    (started : r.attempts ≠ [])
    (unqueued : ∀ id r, w.db.runs.lookup id = some r → r.status ≠ .queued)
    (kind : (purpose = .execution id r.attempts.length ∧ listener = some id ∧
        ∀ g k, w.Current g → (w.codex g).purpose = .execution id k → k < r.attempts.length) ∨
      (purpose = .inspection id ∧ listener = none)) :
    World.Wired { (w.create env purpose).enter id w.created with
      codex := Function.update w.codex w.created
        { Codex.fresh (env.uuid w.uuids) purpose with listener := listener } } := by
  have shut : ∀ g, (w.codex g).closed = true := by
    intro g
    by_contra open_
    obtain ⟨id, live⟩ := h.connected g (by simpa using open_)
    exact of_live_nil empty live
  have mute : ∀ g, (w.codex g).listener = none := by
    intro g
    cases heard : (w.codex g).listener with
    | none => rfl
    | some id => exact absurd (h.listener g id heard).1 (of_live_nil empty)
  have current : ∀ g, g ≠ w.created → w.lifetime ≤ g → g < w.created + 1 → w.Current g := by
    intro g ne low high
    exact ⟨low, by omega⟩
  constructor
  case era => exact h.era.trans (Nat.le_succ _)
  case single =>
      intro id₁ g₁ id₂ g₂ found₁ found₂
      rw [(enter_lookup empty found₁).1, (enter_lookup empty found₂).1]
  case idle => exact fun id r found queued => absurd queued (unqueued id r found)
  case started =>
      intro id' g live
      obtain ⟨rfl, rfl⟩ := enter_lookup empty live
      exact ⟨⟨h.era, Nat.lt_succ_self _⟩, r, found, started⟩
  case listener =>
      intro g id' heard
      by_cases new : g = w.created
      · subst new
        simp only [Function.update_self] at heard ⊢
        obtain ⟨rfl, rfl, -⟩ | ⟨-, rfl⟩ := kind
        · cases heard
          exact ⟨AList.lookup_insert _, r, found, rfl⟩
        · cases heard
      · simp only [Function.update_of_ne new, mute] at heard
        cases heard
  case attached =>
      intro g id' k open_ execution
      by_cases new : g = w.created
      · subst new
        simp only [Function.update_self] at execution ⊢
        obtain ⟨rfl, rfl, -⟩ | ⟨rfl, rfl⟩ := kind
        · cases execution
          rfl
        · cases execution
      · simp only [Function.update_of_ne new, shut] at open_
        cases open_
  case connected =>
      intro g open_
      by_cases new : g = w.created
      · exact ⟨id, by rw [new]; exact AList.lookup_insert _⟩
      · simp only [Function.update_of_ne new, shut] at open_
        cases open_
  case running =>
      intro g running
      by_cases new : g = w.created
      · exact ⟨id, by rw [new]; exact AList.lookup_insert _⟩
      · simp only [Function.update_of_ne new] at running
        obtain ⟨id', live⟩ := h.running g running
        exact absurd live (of_live_nil empty)
  case closed =>
      intro g closed
      by_cases new : g = w.created
      · subst new
        simp [Codex.fresh]
      · simp only [Function.update_of_ne new]
        exact h.closed g (shut g)
  case purposes =>
      intro g id' k range execution
      by_cases new : g = w.created
      · subst new
        simp only [Function.update_self] at execution
        obtain ⟨rfl, -⟩ | ⟨rfl, -⟩ := kind
        · cases execution
          exact ⟨r, found, List.length_pos_iff.mpr started, le_rfl⟩
        · cases execution
      · simp only [Function.update_of_ne new] at execution
        exact h.purposes g id' k (current g new range.1 range.2) execution
  case distinct =>
      intro g g' id' k range range' execution execution'
      by_cases new : g = w.created <;> by_cases new' : g' = w.created
      · rw [new, new']
      · subst new
        simp only [Function.update_self, Function.update_of_ne new'] at execution execution'
        obtain ⟨rfl, -, unused⟩ | ⟨rfl, -⟩ := kind
        · cases execution
          have := unused g' _ (current g' new' range'.1 range'.2) execution'
          omega
        · cases execution
      · subst new'
        simp only [Function.update_self, Function.update_of_ne new] at execution execution'
        obtain ⟨rfl, -, unused⟩ | ⟨rfl, -⟩ := kind
        · cases execution'
          have := unused g _ (current g new range.1 range.2) execution
          omega
        · cases execution'
      · simp only [Function.update_of_ne new, Function.update_of_ne new'] at execution execution'
        exact h.distinct g g' id' k (current g new range.1 range.2)
          (current g' new' range'.1 range'.2) execution execution'

/-- The process of a live runtime is spawned. -/
theorem spawned (h : w.Wired) {g : Nat} {id : String} (live : w.live.lookup id = some g) :
    (w.setCodex g fun c => { c with process := .running }).Wired := by
  have same : ∀ g', (w.setCodex g fun c => { c with process := .running }).codex g' =
      { w.codex g' with process := if g' = g then .running else (w.codex g').process } := by
    intro g'
    by_cases eq : g' = g
    · subst eq
      simp [setCodex]
    · simp [setCodex, eq]
  constructor
  case era => exact h.era
  case single => exact h.single
  case idle => exact h.idle
  case started => exact h.started
  case listener => intro g'; rw [same]; exact h.listener g'
  case attached => intro g'; rw [same]; exact h.attached g'
  case connected => intro g'; rw [same]; exact h.connected g'
  case running =>
      intro g' running
      by_cases eq : g' = g
      · exact ⟨id, by rw [eq]; exact live⟩
      · rw [same] at running
        simp only [eq, if_false] at running
        exact h.running g' running
  case closed => intro g'; rw [same]; exact h.closed g'
  case purposes => intro g'; rw [same]; exact h.purposes g'
  case distinct => intro g₁ g₂; rw [same, same]; exact h.distinct g₁ g₂

/-- A closed runtime whose process has exited leaves the slot. -/
theorem freed (h : w.Wired) {g : Nat} {id : String} (closed : (w.codex g).closed = true)
    (listener : (w.codex g).listener = none) (process : (w.codex g).process ≠ .running) :
    World.Wired { w with
      live := if w.live.lookup id = some g then w.live.erase id else w.live } := by
  by_cases live : w.live.lookup id = some g
  · rw [if_pos live]
    have only : ∀ id' g', w.live.lookup id' = some g' → id' = id ∧ g' = g := by
      intro id' g' live'
      have same := h.single id' g' id g live' live
      subst same
      rw [live, Option.some.injEq] at live'
      exact ⟨rfl, live'.symm⟩
    have none : ∀ id', (w.live.erase id).lookup id' = none := by
      intro id'
      by_cases same : id' = id
      · rw [same, AList.lookup_erase]
      · rw [AList.lookup_erase_ne same]
        cases live' : w.live.lookup id' with
        | none => rfl
        | some g' => exact absurd (only id' g' live').1 same
    have others : ∀ g', (∃ id', w.live.lookup id' = some g') → g' = g := by
      rintro g' ⟨id', live'⟩
      exact (only id' g' live').2
    constructor
    case era => exact h.era
    case single => intro id₁ g₁ id₂ g₂ found; simp [none] at found
    case idle =>
        intro id' r found queued
        have := h.idle id' r found queued
        exact absurd live (of_live_nil this)
    case started => intro id' g' found; simp [none] at found
    case listener =>
        intro g' id' heard
        have := others g' ⟨_, (h.listener g' id' heard).1⟩
        rw [this] at heard
        simp [listener] at heard
    case attached => exact h.attached
    case connected =>
        intro g' open_
        have := others g' (h.connected g' open_)
        rw [this] at open_
        simp [closed] at open_
    case running =>
        intro g' running
        have := others g' (h.running g' running)
        rw [this] at running
        exact absurd running process
    case closed => exact h.closed
    case purposes => exact h.purposes
    case distinct => exact h.distinct
  · rw [if_neg live]
    exact h

theorem reset (w : World) : w.reset.Wired where
  era := le_rfl
  single := by simp [World.reset]
  idle := by intros; rfl
  started := by simp [World.reset]
  listener := by simp [World.reset, Codex.absent, Codex.fresh]
  attached := by simp [World.reset, Codex.absent]
  connected := by simp [World.reset, Codex.absent]
  running := by simp [World.reset, Codex.absent, Codex.fresh]
  closed := by simp [World.reset, Codex.absent, Codex.fresh]
  purposes := by
    intro g id k range
    have := range.1
    have := range.2
    simp only [World.reset] at *
    omega
  distinct := by
    intro g g' id k range
    have := range.1
    have := range.2
    simp only [World.reset] at *
    omega

end World.Wired

namespace World

variable {w w' : World}

@[simp] theorem setCodex_self (w : World) (g : Nat) (f : Codex → Codex) :
    (w.setCodex g f).codex g = f (w.codex g) := by
  simp [setCodex]

theorem setCodex_ne (w : World) {g i : Nat} (f : Codex → Codex) (h : i ≠ g) :
    (w.setCodex g f).codex i = w.codex i := by
  simp [setCodex, h]

theorem Wired.fades_refl (h : w.Wired) (g : Nat) : (w.codex g).Fades (w.codex g) :=
  ⟨rfl, rfl, id, .inl rfl, id, h.closed g⟩

/-- An adapter that fades, among adapters that stay. -/
theorem Wired.setCodex_fades (h : w.Wired) {g : Nat} {f : Codex → Codex}
    (fades : (w.codex g).Fades (f (w.codex g))) (i : Nat) :
    (w.codex i).Fades ((w.setCodex g f).codex i) := by
  by_cases eq : i = g
  · subst eq
    rw [setCodex_self]
    exact fades
  · rw [setCodex_ne w f eq]
    exact h.fades_refl i

theorem Wired.shut_fades (h : w.Wired) (g : Nat) (e : Err) (i : Nat) :
    (w.codex i).Fades ((w.shut g e).codex i) := by
  refine h.setCodex_fades (g := g)
    (f := fun c => { c with closed := true, pending := [], approvals := [] }) ?_ i
  exact ⟨rfl, rfl, fun _ => rfl, .inl rfl, fun h => h, fun _ => ⟨rfl, rfl⟩⟩

section Release

variable (w : World) (id : String) (g : Nat) (closing : Bool)

theorem shutOnce_frame : (w.shutOnce g).db = w.db ∧ (w.shutOnce g).live = w.live ∧
    (w.shutOnce g).created = w.created ∧ (w.shutOnce g).lifetime = w.lifetime ∧
    (w.shutOnce g).log = w.log ∧ (w.shutOnce g).uuids = w.uuids ∧
    (w.shutOnce g).tasks.map Task.frame = w.tasks.map Task.frame := by
  unfold shutOnce
  split
  · exact ⟨rfl, rfl, rfl, rfl, rfl, rfl, rfl⟩
  · exact ⟨rfl, rfl, rfl, rfl, rfl, rfl, by simp [World.shut, Function.comp_def]⟩

@[simp] theorem release_db : (w.release id g closing).db = w.db :=
  (shutOnce_frame (w.detach g) g).1

@[simp] theorem release_live : (w.release id g closing).live = w.live :=
  (shutOnce_frame (w.detach g) g).2.1

@[simp] theorem release_created : (w.release id g closing).created = w.created :=
  (shutOnce_frame (w.detach g) g).2.2.1

@[simp] theorem release_lifetime : (w.release id g closing).lifetime = w.lifetime :=
  (shutOnce_frame (w.detach g) g).2.2.2.1

@[simp] theorem release_log : (w.release id g closing).log = w.log :=
  (shutOnce_frame (w.detach g) g).2.2.2.2.1

@[simp] theorem release_uuids : (w.release id g closing).uuids = w.uuids :=
  (shutOnce_frame (w.detach g) g).2.2.2.2.2.1

/-- A release leaves every task at its frame and adds its own. -/
theorem release_frames : (w.release id g closing).tasks.map Task.frame =
    w.tasks.map Task.frame ++ [.released id g closing] := by
  have := (shutOnce_frame (w.detach g) g).2.2.2.2.2.2
  simp only [World.release, World.push, List.map_append, this]
  rfl

end Release

/-- An adapter after its release. -/
def released (c : Codex) : Codex :=
  { c with closed := true, pending := [], approvals := [], listener := none }

theorem Wired.release_codex (h : w.Wired) (id : String) (g : Nat) (closing : Bool) :
    (w.release id g closing).codex = Function.update w.codex g (released (w.codex g)) := by
  simp only [World.release, World.push, shutOnce, detach, setCodex_self]
  split
  · rename_i closed
    have := h.closed g closed
    simp only [setCodex, released]
    congr 1
    rw [← this.1, ← this.2, ← closed]
  · simp [World.shut, setCodex, released]

theorem Wired.release_fades (h : w.Wired) (id : String) (g : Nat) (closing : Bool) (i : Nat) :
    (w.codex i).Fades ((w.release id g closing).codex i) := by
  rw [h.release_codex]
  refine h.setCodex_fades (f := released) ?_ i
  exact ⟨rfl, rfl, fun _ => rfl, .inr ⟨rfl, rfl⟩, fun h => h, fun _ => ⟨rfl, rfl⟩⟩

end World

end Mathmodel
