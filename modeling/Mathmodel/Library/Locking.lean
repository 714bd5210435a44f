import Mathmodel.Library.Outcome

/-!
# Programs under one lock

Several processes run programs on one state. Their requests are answered in any
order, and any of them can be killed before any answer. One kind of answer
grants a lock, which the process keeps until it ends or is killed; the lock is
granted to nobody while a process has it.

`Dialogue.Waits` says of a program that it changes nothing and cannot return
before the lock is granted to it. Where all programs wait, the crowd of processes
does no more than the machine that runs one process at a time: `Crowd.Serial`
relates the two, and `Guarded.run` follows every run of the crowd on the machine.
-/

namespace Mathmodel

namespace Dialogue

variable {Q : Type} {A : Q → Type} {ε α β : Type}

/-- Until the lock is granted, only requests of the given kind are asked and nothing is
returned. What is left once the lock is granted has the property `inside`. Answers that
are not possible are left aside. -/
def Waits (quiet : Q → Prop) (possible grants : (q : Q) → Except ε (A q) → Prop)
    (inside : Dialogue Q A ε α → Prop) : Dialogue Q A ε α → Prop
  | .ret _ => False
  | .raise _ => True
  | .ask q next => quiet q ∧ ∀ r, possible q r →
      (grants q r → inside (next r)) ∧
      (¬ grants q r → Waits quiet possible grants inside (next r))

variable {quiet : Q → Prop} {possible grants : (q : Q) → Except ε (A q) → Prop}
variable {inside : Dialogue Q A ε α → Prop}

theorem waits_raise (e : ε) :
    (raise e : Dialogue Q A ε α).Waits quiet possible grants inside := trivial

/-- Requests that grant nothing may come before the lock. -/
theorem waits_bind {x : Dialogue Q A ε β} {f : β → Dialogue Q A ε α}
    (uses : x.Uses fun q => quiet q ∧ ∀ r, ¬ grants q r)
    (rest : ∀ b, (f b).Waits quiet possible grants inside) :
    (x >>= f).Waits quiet possible grants inside := by
  change (x.bind f).Waits quiet possible grants inside
  induction x with
  | ret b => exact rest b
  | raise e => trivial
  | ask q next ih =>
      refine ⟨uses.1.1, ?_⟩
      intro r _
      exact ⟨fun granted => absurd granted (uses.1.2 r), fun _ => ih r (uses.2 r)⟩

/-- A request whose refusal is raised. -/
theorem waits_request {q : Q} {f : A q → Dialogue Q A ε α} (asks : quiet q)
    (refused : ∀ e, ¬ grants q (.error e))
    (rest : ∀ a, possible q (.ok a) → (grants q (.ok a) → inside (f a)) ∧
      (¬ grants q (.ok a) → (f a).Waits quiet possible grants inside)) :
    (request q >>= f).Waits quiet possible grants inside := by
  refine ⟨asks, ?_⟩
  intro r might
  cases r with
  | ok a => exact rest a might
  | error e => exact ⟨fun granted => absurd granted (refused e), fun _ => trivial⟩

end Dialogue

/-- Processes at work on one state, each under its number with its label and what is left
of it, and the process that has the lock. -/
structure Crowd (δ κ : Type) (Q : Type) (A : Q → Type) (ε ω : Type) where
  state : δ
  processes : Nat → Option (κ × Dialogue Q A ε ω)
  holder : Option Nat

namespace Crowd

variable {δ κ : Type} {Q : Type} {A : Q → Type} {ε ω : Type}

/-- One event among the processes. The lock is granted while nobody has it, and is free
again when its holder goes away. -/
inductive Step (program : κ → Dialogue Q A ε ω) (serve : δ → (q : Q) → Except ε (A q) → δ → Prop)
    (grants : (q : Q) → Except ε (A q) → Prop) :
    Crowd δ κ Q A ε ω → Crowd δ κ Q A ε ω → Prop where
  | start {m : Crowd δ κ Q A ε ω} {p : Nat} (idle : m.processes p = none) (c : κ) :
      Step program serve grants m
        { m with processes := Function.update m.processes p (some (c, program c)) }
  | answer {m : Crowd δ κ Q A ε ω} {p : Nat} {c : κ} {q : Q}
      {next : Except ε (A q) → Dialogue Q A ε ω} {r : Except ε (A q)} {t : δ}
      (working : m.processes p = some (c, .ask q next)) (served : serve m.state q r t)
      (kept : ¬ grants q r) :
      Step program serve grants m
        { m with state := t, processes := Function.update m.processes p (some (c, next r)) }
  | acquire {m : Crowd δ κ Q A ε ω} {p : Nat} {c : κ} {q : Q}
      {next : Except ε (A q) → Dialogue Q A ε ω} {r : Except ε (A q)} {t : δ}
      (working : m.processes p = some (c, .ask q next)) (served : serve m.state q r t)
      (granted : grants q r) (free : m.holder = none) :
      Step program serve grants m
        ⟨t, Function.update m.processes p (some (c, next r)), some p⟩
  | leave {m : Crowd δ κ Q A ε ω} (p : Nat) :
      Step program serve grants m
        ⟨m.state, Function.update m.processes p none,
          if m.holder = some p then none else m.holder⟩

/-- Nobody is at work. -/
def idle (d : δ) : Crowd δ κ Q A ε ω := ⟨d, fun _ => none, none⟩

variable {σ : Type}

/-- The machine at work on what the holder of the lock is at work on, and the others
waiting for the lock. -/
structure Serial (quiet : Q → Prop) (possible grants : (q : Q) → Except ε (A q) → Prop)
    (inside : κ → Dialogue Q A ε ω → Prop) (Like : σ → δ → Prop) (m : Crowd δ κ Q A ε ω)
    (k : Machine σ κ Q A ε ω) : Prop where
  like : Like k.state m.state
  vacant : m.holder = none → k.process = none
  holds : ∀ p, m.holder = some p → ∃ c entry d,
    m.processes p = some (c, d) ∧ k.process = some (c, entry, d)
  outside : ∀ p c d, m.processes p = some (c, d) → m.holder ≠ some p →
    d.Waits quiet possible grants (inside c)

end Crowd

/-- The process at work on the machine runs its first part to the end. -/
theorem Machine.reaches_bind {σ κ : Type} {Q : Type} {A : Q → Type} {ε ω β : Type}
    {program : κ → Dialogue Q A ε ω} {enter : κ → σ → σ}
    {serve : σ → (q : Q) → Except ε (A q) → σ → Prop} {x : Dialogue Q A ε β}
    {f : β → Dialogue Q A ε ω} {b : β} {s t : σ} (c : κ) (entry : σ)
    (ends : Dialogue.Ends serve x s (.ok b) t) :
    Relation.ReflTransGen (Step program enter serve) ⟨s, some (c, entry, x >>= f)⟩
      ⟨t, some (c, entry, f b)⟩ := by
  induction x generalizing s with
  | ret b' =>
      cases ends
      exact .refl
  | raise e => cases ends
  | ask q next ih =>
      cases ends with
      | ask served rest => exact .head (.answer served) (ih _ rest)

section Guarded

variable {δ σ κ : Type} {Q : Type} {A : Q → Type} {ε ω : Type}

/-- The programs wait for the lock, and the machine that runs one of them at a time can
answer as the crowd is answered. -/
structure Guarded (program : κ → Dialogue Q A ε ω) (enter : κ → σ → σ)
    (serial : σ → (q : Q) → Except ε (A q) → σ → Prop)
    (serve : δ → (q : Q) → Except ε (A q) → δ → Prop) (quiet : Q → Prop)
    (possible grants : (q : Q) → Except ε (A q) → Prop)
    (inside : κ → Dialogue Q A ε ω → Prop) (Like : σ → δ → Prop) : Prop where
  answers : ∀ {s d q r d'}, Like s d → serve d q r d' → ∃ t, serial s q r t ∧ Like t d'
  admits : ∀ {s d q r d'}, Like s d → serve d q r d' → possible q r
  still : ∀ {s d q r d'}, Like s d → serve d q r d' → quiet q → Like s d'
  waits : ∀ c, (program c).Waits quiet possible grants (inside c)
  enters : ∀ {s d c x}, Like s d → inside c x → ∃ entry t,
    Relation.ReflTransGen (Machine.Step program enter serial) ⟨s, none⟩ ⟨t, some (c, entry, x)⟩ ∧
    Like t d

variable {program : κ → Dialogue Q A ε ω} {enter : κ → σ → σ}
variable {serial : σ → (q : Q) → Except ε (A q) → σ → Prop}
variable {serve : δ → (q : Q) → Except ε (A q) → δ → Prop} {quiet : Q → Prop}
variable {possible grants : (q : Q) → Except ε (A q) → Prop}
variable {inside : κ → Dialogue Q A ε ω → Prop} {Like : σ → δ → Prop}
variable {m m' : Crowd δ κ Q A ε ω} {k : Machine σ κ Q A ε ω}

/-- What one process becomes leaves the others as they are. -/
theorem outside_update {p : Nat} {x : Option (κ × Dialogue Q A ε ω)} {holder : Option Nat}
    {W : κ → Dialogue Q A ε ω → Prop}
    (outside : ∀ p' c d, m.processes p' = some (c, d) → m.holder ≠ some p' → W c d)
    (others : ∀ p', p' ≠ p → holder ≠ some p' → m.holder ≠ some p')
    (own : ∀ c d, x = some (c, d) → holder ≠ some p → W c d) :
    ∀ p' c d, Function.update m.processes p x p' = some (c, d) → holder ≠ some p' → W c d := by
  intro p' c d found free
  by_cases same : p' = p
  · subst same
    rw [Function.update_self] at found
    exact own c d found free
  · rw [Function.update_of_ne same] at found
    exact outside p' c d found (others p' same free)

/-- One event among the processes is some events of the machine. -/
theorem Guarded.step
    (guarded : Guarded program enter serial serve quiet possible grants inside Like)
    (related : m.Serial quiet possible grants inside Like k)
    (step : Crowd.Step program serve grants m m') :
    ∃ k', Relation.ReflTransGen (Machine.Step program enter serial) k k' ∧
      m'.Serial quiet possible grants inside Like k' := by
  obtain ⟨s, process⟩ := k
  cases step with
  | @start p idle c =>
      refine ⟨_, .refl, related.like, related.vacant, ?_, ?_⟩
      · intro p' held
        obtain ⟨c', entry, d, working, same⟩ := related.holds p' held
        have other : p' ≠ p := by
          rintro rfl
          cases idle.symm.trans working
        exact ⟨c', entry, d, (Function.update_of_ne other ..).trans working, same⟩
      · refine outside_update related.outside (fun _ _ free => free) ?_
        rintro _ _ ⟨⟩ _
        exact guarded.waits c
  | @answer p c q next r t working served kept =>
      by_cases held : m.holder = some p
      · -- The holder of the lock: the machine answers the same request.
        obtain ⟨c', entry, d, found, same⟩ := related.holds p held
        cases working.symm.trans found
        cases same
        obtain ⟨s', answered, like⟩ := guarded.answers related.like served
        refine ⟨_, .single (.answer answered), like, ?_, ?_, ?_⟩
        · intro free
          cases held.symm.trans free
        · intro p' held'
          cases held.symm.trans held'
          exact ⟨c, entry, next r, Function.update_self .., rfl⟩
        · exact outside_update related.outside (fun _ _ free => free)
            fun _ _ _ free => absurd held free
      · obtain ⟨asks, rest⟩ := related.outside p c _ working held
        have waits := (rest r (guarded.admits related.like served)).2 kept
        refine ⟨_, .refl, guarded.still related.like served asks, related.vacant, ?_, ?_⟩
        · intro p' held'
          obtain ⟨c', entry, d, found, same⟩ := related.holds p' held'
          have other : p' ≠ p := by
            rintro rfl
            exact held held'
          exact ⟨c', entry, d, (Function.update_of_ne other ..).trans found, same⟩
        · refine outside_update related.outside (fun _ _ free => free) ?_
          rintro _ _ ⟨⟩ _
          exact waits
  | @acquire p c q next r t working served granted free =>
      have held : m.holder ≠ some p := by
        rw [free]
        exact nofun
      obtain ⟨asks, rest⟩ := related.outside p c _ working held
      have within := (rest r (guarded.admits related.like served)).1 granted
      obtain rfl : process = none := related.vacant free
      obtain ⟨entry, s', path, like⟩ :=
        guarded.enters (guarded.still related.like served asks) within
      refine ⟨_, path, like, nofun, ?_, ?_⟩
      · rintro _ ⟨⟩
        exact ⟨c, entry, next r, Function.update_self .., rfl⟩
      · refine outside_update related.outside ?_ fun _ _ _ free' => absurd rfl free'
        intro p' _ _
        rw [free]
        exact nofun
  | leave p =>
      by_cases held : m.holder = some p
      · obtain ⟨c', entry, d, found, same⟩ := related.holds p held
        cases same
        refine ⟨_, .single (.leave _ _), related.like, fun _ => rfl, ?_, ?_⟩
        · intro p' held'
          rw [if_pos held] at held'
          cases held'
        · refine outside_update related.outside ?_ nofun
          intro p' other _ held'
          cases held.symm.trans held'
          exact other rfl
      · refine ⟨_, .refl, related.like, ?_, ?_, ?_⟩
        · intro free
          rw [if_neg held] at free
          exact related.vacant free
        · intro p' held'
          rw [if_neg held] at held'
          obtain ⟨c', entry, d, found, same⟩ := related.holds p' held'
          have other : p' ≠ p := by
            rintro rfl
            exact held held'
          exact ⟨c', entry, d, (Function.update_of_ne other ..).trans found, same⟩
        · refine outside_update related.outside ?_ nofun
          intro p' _ free
          rwa [if_neg held] at free

/-- Every run of the crowd is one of the machine. -/
theorem Guarded.run
    (guarded : Guarded program enter serial serve quiet possible grants inside Like)
    (related : m.Serial quiet possible grants inside Like k)
    (run : Relation.ReflTransGen (Crowd.Step program serve grants) m m') :
    ∃ k', Relation.ReflTransGen (Machine.Step program enter serial) k k' ∧
      m'.Serial quiet possible grants inside Like k' := by
  induction run with
  | refl => exact ⟨k, .refl, related⟩
  | tail _ step ih =>
      obtain ⟨k', before, related'⟩ := ih
      obtain ⟨k'', after, related''⟩ := guarded.step related' step
      exact ⟨k'', before.trans after, related''⟩

/-- Before anybody is at work the crowd is like the machine at rest. -/
theorem Crowd.Serial.idle {s : σ} {d : δ} (like : Like s d) :
    (Crowd.idle d : Crowd δ κ Q A ε ω).Serial quiet possible grants inside Like ⟨s, none⟩ where
  like := like
  vacant _ := rfl
  holds := nofun
  outside := nofun

end Guarded

end Mathmodel
