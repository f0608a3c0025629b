import AmlW2.Lib.Loop
import Mathlib.Data.List.Perm.Basic

/-!
# Sorting by adjacent swaps

A pass over a list swaps each two neighbours that stand in the wrong order, and passes are made
until one of them swaps nothing.  This file bounds the number of passes by the inversions of the
list.
-/

namespace AmlW2.Bubble

variable {α : Type*} (wrong : α → α → Bool)

/-- The rest of a pass that carries `a`, and whether it swapped anything. -/
def carry (a : α) : List α → List α × Bool
  | [] => ([a], false)
  | b :: l =>
      if wrong a b then (b :: (carry a l).1, true)
      else (a :: (carry b l).1, (carry b l).2)

/-- One pass. -/
def pass : List α → List α × Bool
  | [] => ([], false)
  | a :: l => carry wrong a l

/-- Passes as long as something was swapped. -/
def loop : Loop (List α × Bool) where
  goes s := s.2
  pass s := pass wrong s.1

/-- The state after as many passes as are needed. -/
def sort (l : List α) : List α × Bool := (loop wrong).after (l.length * l.length + 1) (l, true)

/-- The pairs in the wrong order. -/
def inversions : List α → Nat
  | [] => 0
  | a :: l => l.countP (wrong a) + inversions l

theorem carry_perm (a : α) (l : List α) : (carry wrong a l).1.Perm (a :: l) := by
  induction l generalizing a with
  | nil => exact .refl [a]
  | cons b l induction =>
      rw [carry]
      split
      · exact ((induction a).cons b).trans (List.Perm.swap a b l)
      · exact (induction b).cons a

theorem pass_perm (l : List α) : (pass wrong l).1.Perm l := by
  cases l with
  | nil => exact .refl []
  | cons a l => exact carry_perm wrong a l

section

variable {wrong} (asymm : ∀ a b, wrong a b = true → wrong b a = false)

include asymm

/-- A pass that swaps lowers the inversions, and no pass adds one. -/
theorem inversions_carry (a : α) (l : List α) :
    inversions wrong (carry wrong a l).1 + (if (carry wrong a l).2 then 1 else 0) ≤
      inversions wrong (a :: l) := by
  induction l generalizing a with
  | nil => exact Nat.le_refl _
  | cons b l induction =>
      rw [carry]
      by_cases swap : wrong a b = true
      · have same := (carry_perm wrong a l).countP_eq (wrong b)
        have later := induction a
        have back := asymm a b swap
        rw [if_pos swap]
        simp only [inversions, same, List.countP_cons, swap, back] at later ⊢
        simp
        omega
      · have same := (carry_perm wrong b l).countP_eq (wrong a)
        have later := induction b
        rw [if_neg swap]
        simp only [inversions, same] at later ⊢
        omega

theorem inversions_pass (l : List α) :
    inversions wrong (pass wrong l).1 + (if (pass wrong l).2 then 1 else 0) ≤
      inversions wrong l := by
  cases l with
  | nil => exact Nat.le_refl 0
  | cons a l => exact inversions_carry asymm a l

omit asymm in
theorem inversions_le (l : List α) : inversions wrong l ≤ l.length * l.length := by
  induction l with
  | nil => exact Nat.le_refl 0
  | cons a l induction =>
      have first := l.countP_le_length (p := wrong a)
      rw [inversions, List.length_cons, Nat.succ_mul_succ]
      omega

/-- The passes end. -/
theorem sort_ends (l : List α) : (sort wrong l).2 = false := by
  have lower (s : List α × Bool) (going : (loop wrong).goes s = true) :
      inversions wrong (pass wrong s.1).1 + (if (pass wrong s.1).2 then 1 else 0) <
        inversions wrong s.1 + if s.2 then 1 else 0 := by
    have going : s.2 = true := going
    rw [if_pos going]
    exact Nat.lt_succ_of_le (inversions_pass asymm s.1)
  show (loop wrong).goes ((loop wrong).after _ (l, true)) = false
  exact Loop.goes_after_of_measure
    (fun s => inversions wrong s.1 + if s.2 then 1 else 0) lower
    (Nat.add_le_add_right (inversions_le l) 1)

end

theorem sort_perm (l : List α) : (sort wrong l).1.Perm l := by
  have kept (s : List α × Bool) (perm : s.1.Perm l) (_ : (loop wrong).goes s = true) :
      ((loop wrong).pass s).1.Perm l :=
    (pass_perm wrong s.1).trans perm
  exact Loop.after_invariant kept (.refl l) _

end AmlW2.Bubble
