import AmlW2.Lib.Serial
import Mathlib.Logic.Function.Basic

/-!
# Marks in a ring of slots

A front passes over the numbers one after the other, and the slots of a ring keep a bit for the
number passed last in each.  The bits are sound when each one that is set is that of a number of a
list, the one its slot was passed by last.
-/

namespace AmlW2

/-- Each bit that is set belongs to a number of the list, one of the last `w` before the front. -/
def Marked (w front : Nat) (numbers : List Nat) (bits : Nat → Bool) : Prop :=
  ∀ slot < w, bits slot = true → ∃ m ∈ numbers, m < front ∧ front ≤ m + w ∧ m % w = slot

namespace Marked

variable {w front : Nat} {numbers : List Nat} {bits : Nat → Bool}

theorem of_clear (clear : ∀ slot < w, bits slot = false) : Marked w front numbers bits := by
  intro slot slot_lt set
  rw [clear slot slot_lt] at set
  cases set

theorem of_subset (marked : Marked w front numbers bits) {bits' : Nat → Bool}
    (subset : ∀ slot < w, bits' slot = true → bits slot = true) : Marked w front numbers bits' :=
  fun slot slot_lt set => marked slot slot_lt (subset slot slot_lt set)

/-- A number of the window behind the front shares its slot with the front only if it is the
oldest. -/
private theorem lt_add_of_other {m : Nat} (recent : front ≤ m + w) (other : m % w ≠ front % w) :
    front < m + w := by
  rcases Nat.lt_or_eq_of_le recent with later | same
  · exact later
  · rw [same, Nat.add_mod_right] at other
    exact absurd rfl other

/-- The front passes a number of the list. -/
theorem pass_set (marked : Marked w front numbers bits) :
    Marked w (front + 1) (numbers ++ [front]) (Function.update bits (front % w) true) := by
  intro slot slot_lt set
  rcases eq_or_ne slot (front % w) with rfl | other
  · have w_pos : 0 < w := by omega
    exact ⟨front, List.mem_append_right numbers List.mem_cons_self, by omega, by omega, rfl⟩
  · rw [Function.update_of_ne other] at set
    obtain ⟨m, member, before, recent, rfl⟩ := marked slot slot_lt set
    have later := lt_add_of_other recent other
    exact ⟨m, List.mem_append_left _ member, by omega, by omega, rfl⟩

/-- It passes a number that is not. -/
theorem pass_clear (marked : Marked w front numbers bits) :
    Marked w (front + 1) numbers (Function.update bits (front % w) false) := by
  intro slot slot_lt set
  rcases eq_or_ne slot (front % w) with rfl | other
  · rw [Function.update_self] at set
    cases set
  · rw [Function.update_of_ne other] at set
    obtain ⟨m, member, before, recent, rfl⟩ := marked slot slot_lt set
    have later := lt_add_of_other recent other
    exact ⟨m, member, by omega, by omega, rfl⟩

/-- The front jumps over numbers, of which those whose slots it passes last have clear slots. -/
theorem jump (marked : Marked w front numbers bits) {next : Nat} (le : front ≤ next)
    (clear : ∀ x, front ≤ x → x < next → next ≤ x + w → bits (x % w) = false) :
    Marked w next numbers bits := by
  intro slot slot_lt set
  obtain ⟨m, member, before, recent, rfl⟩ := marked slot slot_lt set
  refine ⟨m, member, by omega, ?_, rfl⟩
  by_contra passed
  -- The last number before `next` in the slot of `m` was jumped over.
  obtain ⟨i, i_lt, same⟩ := Serial.exists_slot (next - w) slot_lt
  have cleared := clear (next - w + i) ?_ (by omega) (by omega)
  · rw [same, set] at cleared
    cases cleared
  · have apart : m % w = (next - w + i) % w := same.symm
    by_contra early
    have closer : w ∣ next - w + i - m :=
        (Nat.modEq_iff_dvd' (show m ≤ next - w + i by omega)).mp apart
    have := Nat.le_of_dvd (by omega) closer
    omega

/-- A front that is behind by whole rounds of the numbers, and still past all of the list. -/
theorem round (marked : Marked w front numbers bits) {modulus back : Nat} (w_le : w ≤ modulus)
    (behind : back ≤ front) (rounds : back % modulus = front % modulus)
    (past : ∀ m ∈ numbers, m < back) : Marked w back numbers bits := by
  rcases Nat.lt_or_eq_of_le behind with earlier | rfl
  · intro slot slot_lt set
    obtain ⟨m, member, before, recent, -⟩ := marked slot slot_lt set
    have whole : modulus ≤ front - back :=
      Nat.le_of_dvd (by omega) ((Nat.modEq_iff_dvd' behind).mp rounds)
    have := past m member
    omega
  · exact marked

end Marked

end AmlW2
