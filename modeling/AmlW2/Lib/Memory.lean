import Mathlib.Algebra.Ring.Nat

/-!
# Byte memories

A memory gives the byte at every position.  Words are read and written in little-endian order.
Whatever is read from positions that a write leaves alone is what was there before.
-/

namespace AmlW2

/-- The bytes of a memory, by position. -/
abbrev Memory := Nat → UInt8

namespace Memory

/-- The 16-bit word at a position. -/
def u16 (m : Memory) (p : Nat) : Nat := (m p).toNat + 256 * (m (p + 1)).toNat

/-- The 32-bit word at a position. -/
def u32 (m : Memory) (p : Nat) : Nat := m.u16 p + 65536 * m.u16 (p + 2)

/-- Replace `n` bytes from position `p` on. -/
def put (m : Memory) (p n : Nat) (data : Nat → UInt8) : Memory :=
  fun i => if p ≤ i ∧ i < p + n then data (i - p) else m i

/-- Write a 32-bit word. -/
def set32 (m : Memory) (p v : Nat) : Memory :=
  m.put p 4 fun i => UInt8.ofNat (v / 256 ^ i)

/-- Two memories hold the same `n` bytes, each from its own position on. -/
def Same (m : Memory) (p : Nat) (m' : Memory) (p' n : Nat) : Prop :=
  ∀ i < n, m (p + i) = m' (p' + i)

variable {m m' m'' : Memory} {p p' p'' n k : Nat} {data : Nat → UInt8}

theorem put_of_lt {i : Nat} (before : i < p) : m.put p n data i = m i := by
  rw [put, if_neg]
  omega

theorem put_of_le {i : Nat} (after : p + n ≤ i) : m.put p n data i = m i := by
  rw [put, if_neg]
  omega

theorem put_inside {i : Nat} (inside : i < n) : m.put p n data (p + i) = data i := by
  rw [put, if_pos (by omega), Nat.add_sub_cancel_left]

theorem Same.refl (m : Memory) (p n : Nat) : Same m p m p n := fun _ _ => rfl

theorem Same.trans (first : Same m p m' p' n) (second : Same m' p' m'' p'' n) :
    Same m p m'' p'' n := fun i inside => (first i inside).trans (second i inside)

theorem Same.drop (same : Same m p m' p' n) (k : Nat) :
    Same m (p + k) m' (p' + k) (n - k) := by
  intro i inside
  rw [Nat.add_assoc, Nat.add_assoc]
  exact same (k + i) (by omega)

/-- A write leaves the bytes before it alone. -/
theorem same_put_of_le {q : Nat} (before : q + k ≤ p) : Same (m.put p n data) q m q k :=
  fun _ _ => put_of_lt (by omega)

/-- A write leaves the bytes after it alone. -/
theorem same_put_of_ge {q : Nat} (after : p + n ≤ q) : Same (m.put p n data) q m q k :=
  fun _ _ => put_of_le (by omega)

theorem Same.u16_eq (same : Same m p m' p' n) (inside : 2 ≤ n) : m.u16 p = m'.u16 p' := by
  have first := same 0 (by omega)
  rw [Nat.add_zero, Nat.add_zero] at first
  rw [u16, u16, first, same 1 (by omega)]

theorem Same.u32_eq (same : Same m p m' p' n) (inside : 4 ≤ n) : m.u32 p = m'.u32 p' := by
  rw [u32, u32, same.u16_eq (by omega), (same.drop 2).u16_eq (by omega)]

/-- A word is read back as it was written. -/
theorem u32_set32 {v : Nat} (small : v < 2 ^ 32) : (m.set32 p v).u32 p = v := by
  have byte : ∀ i < 4, (m.set32 p v (p + i)).toNat = v / 256 ^ i % 256 := by
    intro i inside
    rw [set32, put_inside inside, UInt8.toNat_ofNat']
  have zero := byte 0 (by omega)
  rw [Nat.add_zero] at zero
  rw [u32, u16, u16, zero, byte 1 (by omega), byte 2 (by omega), byte 3 (by omega)]
  omega

end Memory

end AmlW2
