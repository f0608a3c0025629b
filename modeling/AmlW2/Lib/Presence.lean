import Mathlib.Algebra.Ring.Nat
import Mathlib.Data.Nat.Bitwise

/-!
# Fields under a presence bitmap

A record begins with words that tell by their bits which fields it has.  The fields of a word follow
in the order of their bits, each at the next offset that its alignment allows.
-/

namespace AmlW2.Presence

/-- How a field is laid out. -/
structure Shape where
  align : Nat
  size : Nat

/-- A field, by its bit, with its place. -/
structure Field where
  bit : Nat
  offset : Nat
  size : Nat
deriving DecidableEq, Repr

/-- The first multiple from an offset on. -/
def alignUp (off align : Nat) : Nat := (off + (align - 1)) / align * align

/-- The fields of the bits of a word below a bound, and the offset behind them. -/
def place (shape : Nat → Shape) (word start : Nat) : Nat → List Field × Nat
  | 0 => ([], start)
  | bit + 1 =>
      let before := place shape word start bit
      if word.testBit bit then
        let off := alignUp before.2 (shape bit).align
        (before.1 ++ [⟨bit, off, (shape bit).size⟩], off + (shape bit).size)
      else before

variable {shape : Nat → Shape} {word word' start bound bit bit' stop : Nat} {fields : List Field}

theorem le_alignUp (off align : Nat) (positive : 0 < align) : off ≤ alignUp off align := by
  have := Nat.div_add_mod (off + (align - 1)) align
  have small := Nat.mod_lt (off + (align - 1)) positive
  rw [Nat.mul_comm] at this
  rw [alignUp]
  omega

@[simp] theorem alignUp_one (off : Nat) : alignUp off 1 = off := by simp [alignUp]

theorem place_congr (same : ∀ i < bound, word.testBit i = word'.testBit i) :
    place shape word start bound = place shape word' start bound := by
  induction bound with
  | zero => rfl
  | succ bound induction =>
      rw [place, place, induction fun i small => same i (Nat.lt_succ_of_lt small),
        same bound (Nat.lt_succ_self bound)]

/-- Bits that are not set add nothing. -/
theorem place_of_clear (clear : ∀ i, bit ≤ i → i < bound → word.testBit i = false)
    (le : bit ≤ bound) : place shape word start bound = place shape word start bit := by
  induction bound with
  | zero => rw [Nat.le_zero.mp le]
  | succ bound induction =>
      rcases Nat.lt_or_eq_of_le le with lt | rfl
      · have last : word.testBit bound = false := clear bound (by omega) (by omega)
        simpa [place, last] using induction (fun i low high => clear i low (by omega)) (by omega)
      · rfl

/-- Every field has the size of its bit. -/
theorem size_of_mem {f : Field} (member : f ∈ (place shape word start bound).1) :
    f.size = (shape f.bit).size := by
  induction bound with
  | zero => simp [place] at member
  | succ bound induction =>
      rw [place] at member
      dsimp only at member
      split at member
      · rcases List.mem_append.mp member with before | last
        · exact induction before
        · rw [List.mem_singleton.mp last]
      · exact induction member

/-- The fields of the bits of a word below one of them, with no bit from there up to a bound. -/
structure Laid (shape : Nat → Shape) (bound word start bit : Nat) (fields : List Field)
    (stop : Nat) : Prop where
  placed : place shape word start bit = (fields, stop)
  clear : ∀ i, bit ≤ i → i < bound → word.testBit i = false

theorem Laid.nil (clear : ∀ i < bound, word.testBit i = false) :
    Laid shape bound word start 0 [] start :=
  ⟨rfl, fun i _ below => clear i below⟩

/-- A bit is set, and its field put at the next offset. -/
theorem Laid.add (laid : Laid shape bound word start bit fields stop) (bit' : Nat) (le : bit ≤ bit')
    (lt : bit' < bound) {off : Nat} (aligned : off = alignUp stop (shape bit').align) :
    Laid shape bound (word ||| 2 ^ bit') start (bit' + 1)
      (fields ++ [⟨bit', off, (shape bit').size⟩]) (off + (shape bit').size) := by
  obtain ⟨placed, clear⟩ := laid
  have below : place shape (word ||| 2 ^ bit') start bit' = (fields, stop) := by
    rw [← placed, ← place_of_clear (fun i low high => clear i low (by omega)) le]
    refine place_congr fun i small => ?_
    simp [Nat.testBit_or, Nat.testBit_two_pow_of_ne (Nat.ne_of_gt small)]
  have set : (word ||| 2 ^ bit').testBit bit' = true := by simp [Nat.testBit_or]
  refine ⟨?_, fun i low high => ?_⟩
  · rw [place, below, set, aligned]
    rfl
  · have other : bit' ≠ i := by omega
    simp [Nat.testBit_or, clear i (by omega) high, Nat.testBit_two_pow_of_ne other]

/-- Bits that are not set are passed. -/
theorem Laid.later (laid : Laid shape bound word start bit fields stop) (le : bit ≤ bit')
    (within : bit' ≤ bound) : Laid shape bound word start bit' fields stop := by
  obtain ⟨placed, clear⟩ := laid
  refine ⟨?_, fun i low high => clear i (le.trans low) high⟩
  rw [place_of_clear (fun i low high => clear i low (by omega)) le, placed]

theorem Laid.place_eq (laid : Laid shape bound word start bit fields stop) (le : bit ≤ bound) :
    place shape word start bound = (fields, stop) := by
  rw [place_of_clear laid.clear le, laid.placed]

end AmlW2.Presence
