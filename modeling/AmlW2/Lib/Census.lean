import Mathlib.Algebra.BigOperators.Group.Finset.Basic
import Mathlib.Algebra.BigOperators.Group.Finset.Piecewise
import Mathlib.Data.Fintype.BigOperators

/-!
# Counting the members with a property

A finite family and the number of its members that have a property, under the change of one member.
-/

namespace AmlW2

variable {ι α : Type*} [Fintype ι]

/-- How many members of the family have the property. -/
def census (family : ι → α) (p : α → Prop) [DecidablePred p] : Nat :=
  (Finset.univ.filter fun i => p (family i)).card

variable {p : α → Prop} [DecidablePred p]

theorem census_eq_zero {family : ι → α} : census family p = 0 ↔ ∀ i, ¬p (family i) := by
  rw [census, Finset.card_eq_zero, Finset.filter_eq_empty_iff]
  exact ⟨fun none i => none (Finset.mem_univ i), fun none i _ => none i⟩

theorem census_pos {family : ι → α} : 0 < census family p ↔ ∃ i, p (family i) := by
  rw [Nat.pos_iff_ne_zero, Ne, census_eq_zero, not_forall_not]

/-- A member without the property leaves the count below the number of members. -/
theorem census_lt {family : ι → α} {i : ι} (lacks : ¬p (family i)) :
    census family p < Fintype.card ι := by
  apply Finset.card_lt_univ_of_notMem
  rw [Finset.mem_filter]
  exact fun member => lacks member.2

/-- A property no member of the family has more or less than before counts the same. -/
theorem census_congr {family family' : ι → α} (same : ∀ i, p (family' i) ↔ p (family i)) :
    census family' p = census family p := by
  rw [census, census]
  congr 1
  exact Finset.filter_congr fun i _ => same i

variable [DecidableEq ι]

/-- One member changes: the old one is no longer counted, the new one is. -/
theorem census_update (family : ι → α) (i : ι) (a : α) :
    census (Function.update family i a) p + (if p (family i) then 1 else 0) =
      census family p + (if p a then 1 else 0) := by
  have others : ∀ f : ι → α, census f p =
      (if p (f i) then 1 else 0) + ∑ j ∈ Finset.univ.erase i, if p (f j) then 1 else 0 := by
    intro f
    rw [census, Finset.card_filter]
    exact (Finset.add_sum_erase _ (fun j => if p (f j) then 1 else 0) (Finset.mem_univ i)).symm
  have unchanged : ∑ j ∈ Finset.univ.erase i, (if p (Function.update family i a j) then 1 else 0) =
      ∑ j ∈ Finset.univ.erase i, if p (family j) then 1 else 0 := by
    apply Finset.sum_congr rfl
    intro j member
    rw [Function.update_of_ne (Finset.ne_of_mem_erase member)]
  rw [others (Function.update family i a), others family, unchanged, Function.update_self]
  omega

/-- A member comes to have the property. -/
theorem census_update_join {family : ι → α} {i : ι} {a : α} (before : ¬p (family i)) (after : p a) :
    census (Function.update family i a) p = census family p + 1 := by
  have changed := census_update (p := p) family i a
  rw [if_neg before, if_pos after] at changed
  exact changed

/-- A member loses the property. -/
theorem census_update_leave {family : ι → α} {i : ι} {a : α} (before : p (family i))
    (after : ¬p a) :
    census (Function.update family i a) p + 1 = census family p := by
  have changed := census_update (p := p) family i a
  rw [if_pos before, if_neg after] at changed
  exact changed

/-- A member keeps what it had of the property. -/
theorem census_update_keep {family : ι → α} {i : ι} {a : α} (same : p a ↔ p (family i)) :
    census (Function.update family i a) p = census family p := by
  apply census_congr
  intro j
  rcases eq_or_ne j i with rfl | other
  · rw [Function.update_self, same]
  · rw [Function.update_of_ne other]

end AmlW2
