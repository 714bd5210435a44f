import Mathlib.Data.List.Nodup
import Mathlib.Logic.Function.Defs

/-!
# Functions given by a table

A function that is known at some arguments, and told apart from there on: a table says what
it is where it is known, and some other function answers elsewhere.
-/

namespace Mathmodel

variable {α β : Type} [DecidableEq α]

/-- The entry of the table, or the answer of the other function where there is none. -/
def tabled (table : List (α × β)) (other : α → β) (a : α) : β := (table.lookup a).getD (other a)

theorem tabled_of_not_mem {table : List (α × β)} {other : α → β} {a : α}
    (absent : a ∉ table.map Prod.fst) : tabled table other a = other a := by
  have unlisted : table.lookup a = none := by
    refine List.lookup_eq_none_iff.mpr fun e mem => ?_
    refine bne_iff_ne.mpr ?_
    rintro rfl
    exact absent (List.mem_map_of_mem mem)
  rw [tabled, unlisted]
  rfl

/-- The value is one of the table, or that of the other function. -/
theorem tabled_cases (table : List (α × β)) (other : α → β) (a : α) :
    (a, tabled table other a) ∈ table ∨ tabled table other a = other a := by
  unfold tabled
  cases listed : table.lookup a with
  | none => exact .inr rfl
  | some b =>
      refine .inl ?_
      induction table with
      | nil => cases listed
      | cons e rest ih =>
          rw [List.lookup_cons] at listed
          split at listed
          next same =>
            cases listed
            rw [beq_iff_eq.mp same]
            exact List.mem_cons_self
          next => exact List.mem_cons_of_mem _ (ih listed)

/-- What holds of the values of the table and of the other function holds of all values. -/
theorem tabled_all {table : List (α × β)} {other : α → β} {P : β → Prop}
    (listed : ∀ e ∈ table, P e.2) (elsewhere : ∀ a, P (other a)) (a : α) :
    P (tabled table other a) := by
  obtain mem | same := tabled_cases table other a
  · exact listed _ mem
  · rw [same]
    exact elsewhere a

/-- Different arguments have different values, if the values of the table differ from each other
and from those of an injective function elsewhere. -/
theorem tabled_injective {table : List (α × β)} {other : α → β}
    (values : (table.map Prod.snd).Nodup) (injective : Function.Injective other)
    (apart : ∀ a, ∀ e ∈ table, other a ≠ e.2) : Function.Injective (tabled table other) := by
  intro a a' same
  obtain mem | value := tabled_cases table other a
  · obtain mem' | value' := tabled_cases table other a'
    · rw [same] at mem
      exact (Prod.mk.inj (List.inj_on_of_nodup_map values mem mem' rfl)).1
    · exact absurd (value'.symm.trans same.symm) (apart a' _ mem)
  · obtain mem' | value' := tabled_cases table other a'
    · exact absurd (value.symm.trans same) (apart a _ mem')
    · exact injective (value.symm.trans (same.trans value'))

end Mathmodel
