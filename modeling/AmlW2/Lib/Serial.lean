import Mathlib.Data.List.Nodup
import Mathlib.Data.Nat.Bitwise
import Mathlib.Data.Nat.ModEq

/-!
# Serial numbers kept in a ring of slots

Numbers run modulo `m` and a ring of `w` slots, with `w` dividing `m`, holds those of a window of
at most `w` consecutive numbers.  Numbers are located by their gap from the start of the window;
distinct gaps below `w` fall into distinct slots.
-/

namespace AmlW2.Serial

variable {m w : Nat}

/-- Forward distance from `a` to `b` modulo `m`. -/
def gap (m a b : Nat) : Nat := (b + (m - a % m)) % m

theorem gap_lt (m_pos : 0 < m) (a b : Nat) : gap m a b < m := Nat.mod_lt _ m_pos

/-- Walking the gap from the first number reaches the second. -/
theorem add_gap (m_pos : 0 < m) (a b : Nat) : (a + gap m a b) % m = b % m := by
  have remainder : a % m < m := Nat.mod_lt _ m_pos
  calc
    (a + gap m a b) % m = (a % m + (b + (m - a % m))) % m := by
      rw [gap, Nat.add_mod_mod, Nat.mod_add_mod]
    _ = (b + m) % m := by congr 1; omega
    _ = b % m := Nat.add_mod_right b m

/-- Walking less than `m` is recovered as the gap. -/
theorem gap_add {a d : Nat} (d_lt : d < m) : gap m a ((a + d) % m) = d := by
  have m_pos : 0 < m := by omega
  have remainder : a % m < m := Nat.mod_lt _ m_pos
  calc
    gap m a ((a + d) % m) = (a % m + d + (m - a % m)) % m := by
      rw [gap, Nat.mod_add_mod, Nat.add_right_comm, Nat.add_right_comm (a % m),
        Nat.add_assoc, Nat.add_assoc, ← Nat.mod_add_mod a]
    _ = (d + m) % m := by congr 1; omega
    _ = d := by rw [Nat.add_mod_right, Nat.mod_eq_of_lt d_lt]

/-- The slot of a number depends on the number modulo the ring only. -/
theorem slot_mod (divides : w ∣ m) (n : Nat) : n % m % w = n % w := Nat.mod_mod_of_dvd n divides

/-- The slots after that of the start follow it up to the end of the ring and go on at its first. -/
theorem slot_add {a i : Nat} (i_lt : i < w) :
    (a + i) % w = if a % w + i < w then a % w + i else a % w + i - w := by
  have start_lt : a % w < w := Nat.mod_lt a (by omega)
  rw [← Nat.mod_add_mod]
  split_ifs with inside
  · exact Nat.mod_eq_of_lt inside
  · rw [Nat.mod_eq_sub_mod (by omega), Nat.mod_eq_of_lt (by omega)]

/-- Two numbers less than `w` apart from one start share a slot only if they are equal. -/
theorem slot_inj {a i j : Nat} (i_lt : i < w) (j_lt : j < w)
    (same : (a + i) % w = (a + j) % w) : i = j := by
  have congruent : i ≡ j [MOD w] := Nat.ModEq.add_left_cancel' a same
  exact congruent.eq_of_lt_of_lt i_lt j_lt

/-- Every slot is the slot of some number less than `w` past the start. -/
theorem exists_slot (a : Nat) {slot : Nat} (slot_lt : slot < w) :
    ∃ i < w, (a + i) % w = slot := by
  have w_pos : 0 < w := by omega
  refine ⟨gap w a slot, gap_lt w_pos a slot, ?_⟩
  rw [add_gap w_pos, Nat.mod_eq_of_lt slot_lt]

/-- Reading the ring from another slot permutes it. -/
theorem rotate_perm (a w : Nat) :
    ((List.range w).map fun i => (a + i) % w).Perm (List.range w) := by
  rw [List.perm_ext_iff_of_nodup _ List.nodup_range]
  · intro slot
    simp only [List.mem_map, List.mem_range]
    constructor
    · rintro ⟨i, i_lt, rfl⟩
      exact Nat.mod_lt _ (by omega)
    · exact fun slot_lt => exists_slot a slot_lt
  · apply List.Nodup.map_on _ List.nodup_range
    intro i i_mem j j_mem same
    exact slot_inj (List.mem_range.mp i_mem) (List.mem_range.mp j_mem) same

/-- Masking with a power of two less one is reduction modulo it. -/
theorem mask_eq_mod (k n : Nat) : n &&& (2 ^ k - 1) = n % 2 ^ k :=
  Nat.and_two_pow_sub_one_eq_mod n k

end AmlW2.Serial
