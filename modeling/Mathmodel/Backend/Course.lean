import Mathmodel.Backend.Keeping

/-!
# Sections are sequences of effects: connections

A `Course` is a sequence of effects of one section, with the invariant at its
end. Each function of the service gets one rule that says which course it takes;
the rules below are for the store, for the adapter and for the release of a
runtime.
-/

namespace Mathmodel

open M Program

/-- The world was reached by effects of one section, and the invariant holds. -/
structure Course (env : Env) (cause : Cause) (w₀ w : World) : Prop where
  effects : Relation.ReflTransGen (Effect env cause) w₀ w
  sound : w.Sound env

namespace Course

variable {env : Env} {cause : Cause} {w₀ w w' : World}

theorem refl (h : w.Sound env) : Course env cause w w := ⟨.refl, h⟩

theorem step (h : Course env cause w₀ w) (effect : Effect env cause w w') :
    Course env cause w₀ w' :=
  ⟨h.effects.tail effect, effect.sound h.sound⟩

/-- What every effect of the section keeps holds at its end. -/
theorem keeps {I : World → Prop} (h : Course env cause w₀ w) (sound : w₀.Sound env)
    (start : I w₀) (keep : ∀ v v', v.Sound env → Effect env cause v v' → I v → I v') : I w := by
  have both : w.Sound env ∧ I w := by
    obtain ⟨effects, -⟩ := h
    induction effects with
    | refl => exact ⟨sound, start⟩
    | tail _ effect ih => exact ⟨effect.sound ih.1, keep _ _ ih.1 effect ih.2⟩
  exact both.2

end Course

section Primitives

variable {env : Env} {cause : Cause} {w₀ w : World} {α : Type}

theorem wp_lift_of {x : Except Err α} {post : α → World → Prop} {failed : Err → World → Prop}
    (ok : ∀ a, x = .ok a → post a w) (bad : ∀ e, x = .error e → failed e w) :
    wp (Program.lift x : M α) post failed w := by
  cases x with
  | ok a => exact ok a rfl
  | error e => exact bad e rfl

theorem wp_loadRun {id : String} {post : Run → World → Prop} {failed : Err → World → Prop}
    (ok : ∀ r, w.db.runs.lookup id = some r → post r w) (bad : ∀ e, failed e w) :
    wp (loadRun id) post failed w := by
  simp only [loadRun, wp_bind, wp_get, wp_lift]
  cases found : w.db.run id with
  | ok r => exact ok r (Db.run_ok.mp found)
  | error e => exact bad e

theorem wp_update {id : String} {change : Change} {via : Via} {post : Unit → World → Prop}
    {failed : Err → World → Prop}
    (ok : ∀ db, w.db.update (env.moment w.clock) id change = .ok db →
      post () (w.commit (.update id change via) db))
    (bad : ∀ e, failed e w) : wp (update env id change via) post failed w := by
  simp only [update, wp_bind, wp_get]
  cases result : w.db.update (env.moment w.clock) id change with
  | error e => exact bad e
  | ok db => exact ok db result

theorem wp_update_ok {id : String} {change : Change} {via : Via} {db : Db}
    {post : Unit → World → Prop} {failed : Err → World → Prop}
    (result : w.db.update (env.moment w.clock) id change = .ok db)
    (done : post () (w.commit (.update id change via) db)) :
    wp (update env id change via) post failed w := by
  simp only [update, wp_bind, wp_get, result]
  exact done

/-- One more write was tried. -/
def World.tallied (w : World) (g : Nat) : World :=
  w.setCodex g fun c => { c with sends := c.sends + 1 }

theorem World.setCodex_quiet {g : Nat} {f : Codex → Codex}
    (alike : (w.codex g).Alike (f (w.codex g))) : w.Quiet (w.setCodex g f) := by
  refine ⟨rfl, rfl, rfl, rfl, rfl, rfl, le_rfl, ?_⟩
  intro i
  by_cases eq : i = g
  · subst eq
    rw [World.setCodex_self]
    exact alike
  · rw [World.setCodex_ne w f eq]
    rfl

theorem wp_send {g : Nat} {message : Outbound} {post : Unit → World → Prop}
    {failed : Err → World → Prop}
    (ok : (w.codex g).closed = false → post () ((w.tallied g).wrote g message))
    (bad : ∀ e, failed e (w.tallied g)) : wp (Codex.send env g message) post failed w := by
  simp only [Codex.send, wp_bind, wp_get, modifyCodex, wp_modify, wp_ite, wp_throw, record]
  refine ⟨fun _ => bad _, fun usable => ⟨fun _ => bad _, fun _ => ?_⟩⟩
  simp only [not_or] at usable
  exact ok (by simpa using usable.1)

theorem wp_uncertain {id message : String} {r : Run} {post : Unit → World → Prop}
    {failed : Err → World → Prop} (h : w.Sound env)
    (found : w.db.runs.lookup id = some r) (started : r.attempts ≠ [])
    (done : ∀ w', w.Uncertain env id w' → post () w') :
    wp (Service.uncertain env id message) post failed w := by
  simp only [Service.uncertain, wp_bind, loadRun, wp_get, Db.run_ok.mpr found, wp_lift_ok,
    wp_ite, Bool.or_eq_true, beq_iff_eq, wp_pure]
  refine ⟨fun settled => done w (.settled found settled), fun active => ?_⟩
  obtain ⟨r', db, result, writes⟩ :=
    h.db.update_uncertain (env.moment w.clock) message found started
  simp only [update, wp_bind, wp_get, result, wp_modify]
  simp only [not_or, Bool.not_eq_true] at active
  exact done _ (.marked active started writes)

end Primitives

section Connection

variable {env : Env} {cause : Cause} {w₀ w : World}

theorem wp_fail {g : Nat} {e : Err} {failed : Err → World → Prop}
    (h : Course env cause w₀ w) :
    wp (Codex.fail env g e) (fun _ => Course env cause w₀) failed w := by
  simp only [Codex.fail, wp_bind, wp_get, wp_ite, wp_pure, modifyCodex, wp_modify]
  refine ⟨fun _ => h, fun open_ => ?_⟩
  simp only [Bool.not_eq_true] at open_
  cases listener : (w.codex g).listener with
  | none =>
      refine h.step (.cut open_ ?_)
      simp [listener]
  | some id =>
      simp only [Service.onFault, wp_bind, wp_get, wp_ite, wp_pure, background, M.push]
      have live := (h.sound.wired.listener g id listener).1
      refine ⟨fun _ => ?_, fun other => absurd live other⟩
      obtain ⟨-, r, found, started⟩ := h.sound.wired.started id g live
      refine wp_uncertain (w := w.shut g e) (h.sound.shut g e) found started ?_
      intro w' uncertain
      exact h.step (.lost open_ listener live uncertain)

theorem wp_fail_unheard {g : Nat} {e : Err} {post : Unit → World → Prop}
    {failed : Err → World → Prop} (unheard : (w.codex g).listener = none)
    (done : post () (if (w.codex g).closed = true then w else w.shut g e)) :
    wp (Codex.fail env g e) post failed w := by
  simp only [Codex.fail, wp_bind, wp_get, wp_ite, wp_pure, modifyCodex, wp_modify, unheard]
  constructor
  · intro closed
    rwa [if_pos closed] at done
  · intro open_
    rwa [if_neg open_] at done

theorem wp_release {id : String} {g : Nat} {closing : Bool} {post : Unit → World → Prop}
    {failed : Err → World → Prop} (done : post () (w.release id g closing)) :
    wp (Service.release env id g closing) post failed w := by
  simp only [Service.release, wp_bind, modifyCodex, wp_modify]
  refine wp_fail_unheard (w := w.detach g) (by simp [World.detach]) ?_
  exact done

/-- Issue a request. It is registered and written, or the connection fails. -/
theorem wp_request {g : Nat} {call : Rpc} {frame : Frame} {failed : Err → World → Prop}
    (h : Course env cause w₀ w) (issues : Issues g call frame)
    (follows : Follows cause w frame) (owns : w.Owns frame) (allows : w.Allows frame) :
    wp (Codex.request env g call frame) (fun _ => Course env cause w₀) failed w := by
  simp only [Codex.request, wp_bind, wp_get, wp_ite, modifyCodex, wp_modify, M.push, wp_tryCatch]
  constructor
  · intro closed
    exact h.step (.pushed follows owns allows (fun _ _ _ _ => ⟨_, rfl⟩))
  · intro open_
    simp only [Bool.not_eq_true] at open_
    have asked : Course env cause w₀ (w.ask g call frame) :=
      h.step (.registered open_ issues follows owns allows)
    have tallied : Course env cause w₀ ((w.ask g call frame).tallied g) :=
      asked.step (.quiet (World.setCodex_quiet rfl))
    have purpose : (((w.ask g call frame).tallied g).codex g).purpose =
        (w.codex g).purpose := by
      simp [World.tallied, World.ask, World.push, World.setCodex]
    refine wp_send (w := w.ask g call frame) ?_ ?_
    · intro _
      refine tallied.step (.sent ?_ ?_ ?_)
      · simp [World.tallied, World.ask, World.push, open_]
      · rintro directory rfl
        cases issues
        refine ⟨?_, _, _, purpose.trans owns.2⟩
        simpa [World.threadBudget, World.tallied, World.ask, World.push, World.setCodex,
          Frame.launches] using allows.1
      · rintro threadId task rfl
        cases issues
        refine ⟨?_, _, _, purpose.trans owns.2⟩
        have unsent : w.turnBudget g = 0 := allows
        simpa [World.turnBudget, World.tallied, World.ask, World.push, World.setCodex,
          Frame.precedesTurn] using unsent
    · intro e
      exact wp_fail tallied

theorem wp_respond {g : Nat} {key : MapKey} {decision : Decision} {post : Unit → World → Prop}
    {failed : Err → World → Prop}
    (ok : key ∈ (w.codex g).approvals → (w.codex g).closed = false →
      post () (((w.tallied g).wrote g (.decision key decision)).forget g key))
    (bad : ∀ e, failed e w) (broken : ∀ e, failed e (w.tallied g)) :
    wp (Codex.respond env g key decision) post failed w := by
  simp only [Codex.respond, wp_bind, wp_get, wp_ite, wp_throw, modifyCodex, not_not]
  exact ⟨fun _ => bad _, fun listed => wp_send (fun open_ => ok listed open_) broken⟩

/-- Connect a runtime that has just taken the slot. -/
theorem wp_connect {g : Nat} {launch : Launch} {caller : Caller} {id : String}
    {failed : Err → World → Prop} (h : Course env cause w₀ w)
    (open_ : (w.codex g).closed = false) (live : w.live.lookup id = some g)
    (follows : ∀ w', w'.db = w.db → w'.live = w.live →
      (w'.codex g).listener = (w.codex g).listener →
      Follows cause w' (.handshake g caller) ∧ Follows cause w' (.connected g caller))
    (owns : w.Owns (.connected g caller)) (allows : w.Allows (.connected g caller)) :
    wp (Codex.connect env g launch caller) (fun _ => Course env cause w₀) failed w := by
  simp only [Codex.connect, wp_bind, wp_get, wp_ite, M.push, wp_modify]
  have here := follows w rfl rfl rfl
  refine ⟨fun _ => h.step (.pushed here.2 owns allows (by rintro _ _ _ ⟨⟩)), fun usable => ?_⟩
  simp only [not_or, not_not] at usable
  cases launch.spawn with
  | some message => exact h.step (.pushed here.2 owns allows (by rintro _ _ _ ⟨⟩))
  | none =>
      simp only [wp_bind, modifyCodex, wp_modify]
      have spawned := h.step (.spawned open_ usable.1 live)
      have next := follows (w.setCodex g fun c => { c with process := .running }) rfl rfl
        (by simp)
      refine wp_request spawned .initializeRuntime next.1 ?_ ?_
      · cases caller <;> simpa [World.Owns, World.setCodex, World.Current] using owns
      · cases caller with
        | execute => exact allows
        | reconcile => trivial

end Connection

end Mathmodel
