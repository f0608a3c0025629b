import Mathlib.Data.List.Basic
import Mathlib.Order.Basic

/-!
# Rising lists

Lists of numbers that increase strictly through a half-open interval, as the output of a component
does that hands up what it received in one order.
-/

namespace AmlW2

/-- The list increases strictly and stays between `lo` and `hi`. -/
structure Rising (lo hi : Nat) (xs : List Nat) : Prop where
  sorted : xs.Pairwise (· < ·)
  bounds : ∀ x ∈ xs, lo ≤ x ∧ x < hi

namespace Rising

variable {lo mid hi : Nat} {xs ys : List Nat}

theorem nil : Rising lo hi [] := ⟨List.Pairwise.nil, by simp⟩

theorem singleton (x : Nat) : Rising x (x + 1) [x] :=
  ⟨List.pairwise_singleton _ _, by simp⟩

/-- Two lists that rise one after the other rise together. -/
theorem append (first : Rising lo mid xs) (second : Rising mid hi ys) (lo_le : lo ≤ mid)
    (le_hi : mid ≤ hi) : Rising lo hi (xs ++ ys) := by
  constructor
  · rw [List.pairwise_append]
    refine ⟨first.sorted, second.sorted, fun x x_mem y y_mem => ?_⟩
    exact Nat.lt_of_lt_of_le (first.bounds x x_mem).2 (second.bounds y y_mem).1
  · intro x member
    rcases List.mem_append.mp member with left | right
    · have := first.bounds x left
      omega
    · have := second.bounds x right
      omega

theorem sublist (rising : Rising lo hi ys) (part : xs.Sublist ys) : Rising lo hi xs :=
  ⟨rising.sorted.sublist part, fun x member => rising.bounds x (part.subset member)⟩

theorem mono (rising : Rising lo mid xs) (le_hi : mid ≤ hi) : Rising lo hi xs :=
  ⟨rising.sorted, fun x member => by have := rising.bounds x member; omega⟩

end Rising

end AmlW2
