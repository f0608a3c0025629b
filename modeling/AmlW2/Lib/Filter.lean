import Mathlib.Data.List.Basic

/-!
# Filters with a state

A filter inspects the elements of a sequence one by one; its state after an element depends on the
element, and so does whether the element passes.  The elements of a list split into those that pass
and those that are stopped.
-/

namespace AmlW2.Filter

variable {σ α : Type*} (step : σ → α → σ × Bool)

/-- State after a list of elements. -/
def after : σ → List α → σ
  | state, [] => state
  | state, x :: xs => after (step state x).1 xs

/-- The elements that pass, in order. -/
def passed : σ → List α → List α
  | _, [] => []
  | state, x :: xs =>
      if (step state x).2 then x :: passed (step state x).1 xs else passed (step state x).1 xs

/-- The elements that are stopped, in order. -/
def stopped : σ → List α → List α
  | _, [] => []
  | state, x :: xs =>
      if (step state x).2 then stopped (step state x).1 xs else x :: stopped (step state x).1 xs

@[simp]
theorem after_append (state : σ) (left right : List α) :
    after step state (left ++ right) = after step (after step state left) right := by
  induction left generalizing state with
  | nil => rfl
  | cons x xs induction => exact induction _

@[simp]
theorem passed_append (state : σ) (left right : List α) :
    passed step state (left ++ right) =
      passed step state left ++ passed step (after step state left) right := by
  induction left generalizing state with
  | nil => rfl
  | cons x xs induction =>
      simp only [List.cons_append, passed, after]
      split <;> simp [induction]

@[simp]
theorem stopped_append (state : σ) (left right : List α) :
    stopped step state (left ++ right) =
      stopped step state left ++ stopped step (after step state left) right := by
  induction left generalizing state with
  | nil => rfl
  | cons x xs induction =>
      simp only [List.cons_append, stopped, after]
      split <;> simp [induction]

/-- The elements that pass form a sublist: a filter neither reorders nor repeats. -/
theorem passed_sublist (state : σ) (xs : List α) : (passed step state xs).Sublist xs := by
  induction xs generalizing state with
  | nil => exact List.Sublist.refl []
  | cons x xs induction =>
      simp only [passed]
      split
      · exact (induction _).cons_cons x
      · exact (induction _).cons x

/-- A filter loses nothing: what passes and what is stopped make up the sequence. -/
theorem passed_append_stopped (state : σ) (xs : List α) :
    (passed step state xs ++ stopped step state xs).Perm xs := by
  induction xs generalizing state with
  | nil => exact List.Perm.refl []
  | cons x xs induction =>
      simp only [passed, stopped]
      split
      · exact (induction _).cons x
      · exact List.perm_middle.trans ((induction _).cons x)

end AmlW2.Filter
