import Mathlib.Order.Basic

/-!
# Loops that test before each pass

A loop is a test and a pass.  This file defines the state after any number of passes and the two
rules for such loops: an invariant of the pass holds after every number of passes, and a loop whose
pass lowers a measure ends.
-/

namespace AmlW2

/-- A loop on a state. -/
structure Loop (σ : Type*) where
  /-- The test before a pass. -/
  goes : σ → Bool
  pass : σ → σ

namespace Loop

variable {σ : Type*} {loop : Loop σ} {s : σ} {n : Nat}

/-- The state after `n` passes, or where the loop ended before. -/
def after (loop : Loop σ) : Nat → σ → σ
  | 0, s => s
  | n + 1, s => if loop.goes s then loop.after n (loop.pass s) else s

/-- The loop ends. -/
def Ends (loop : Loop σ) (s : σ) : Prop := ∃ n, loop.goes (loop.after n s) = false

theorem after_stopped (stopped : loop.goes s = false) (n : Nat) : loop.after n s = s := by
  cases n with
  | zero => rfl
  | succ n => rw [after, stopped, if_neg Bool.false_ne_true]

theorem after_goes (going : loop.goes s = true) (n : Nat) :
    loop.after (n + 1) s = loop.after n (loop.pass s) := by
  rw [after, going, if_pos rfl]

/-- One more pass is made at the end. -/
theorem after_succ (n : Nat) (s : σ) :
    loop.after (n + 1) s = loop.after 1 (loop.after n s) := by
  induction n generalizing s with
  | zero => rfl
  | succ n induction =>
      cases going : loop.goes s with
      | false => rw [after_stopped going, after_stopped going, after_stopped going]
      | true => rw [after_goes going, induction, ← after_goes going]

theorem after_succ_goes (going : loop.goes (loop.after n s) = true) :
    loop.after (n + 1) s = loop.pass (loop.after n s) := by
  rw [after_succ, after_goes going]
  rfl

/-- What each pass keeps holds after every number of passes. -/
theorem after_invariant {invariant : σ → Prop}
    (preserved : ∀ s, invariant s → loop.goes s = true → invariant (loop.pass s))
    (initial : invariant s) (n : Nat) : invariant (loop.after n s) := by
  induction n generalizing s with
  | zero => exact initial
  | succ n induction =>
      cases going : loop.goes s with
      | false =>
          rw [after_stopped going]
          exact initial
      | true =>
          rw [after_goes going]
          exact induction (preserved s initial going)

/-- A loop ends when each pass from an invariant state lowers a measure. -/
theorem ends_of_measure {invariant : σ → Prop} (measure : σ → Nat)
    (preserved : ∀ s, invariant s → loop.goes s = true →
      invariant (loop.pass s) ∧ measure (loop.pass s) < measure s)
    (initial : invariant s) : loop.Ends s := by
  generalize bound : measure s = m
  induction m using Nat.strongRecOn generalizing s with
  | ind m induction =>
      cases going : loop.goes s with
      | false => exact ⟨0, going⟩
      | true =>
          obtain ⟨kept, lower⟩ := preserved s initial going
          obtain ⟨n, ended⟩ := induction _ (bound ▸ lower) kept rfl
          exact ⟨n + 1, by rwa [after_goes going]⟩

/-- It has ended after as many passes as the measure tells. -/
theorem goes_after_of_measure (measure : σ → Nat)
    (lower : ∀ s, loop.goes s = true → measure (loop.pass s) < measure s)
    (bound : measure s ≤ n) : loop.goes (loop.after n s) = false := by
  induction n generalizing s with
  | zero =>
      cases going : loop.goes s with
      | false => exact going
      | true => exact absurd (Nat.lt_of_lt_of_le (lower s going) bound) (Nat.not_lt_zero _)
  | succ n induction =>
      cases going : loop.goes s with
      | false => rwa [after_stopped going]
      | true =>
          rw [after_goes going]
          exact induction (Nat.le_of_lt_succ (Nat.lt_of_lt_of_le (lower s going) bound))

end Loop

end AmlW2
