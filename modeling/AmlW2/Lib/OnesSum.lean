import Mathlib.Algebra.Ring.Nat
import Mathlib.Data.Nat.ModEq

/-!
# One's complement sums

Sums of 16-bit words in which every carry is added again at the low end.  Up to multiples of 65535
such a sum is the plain one, so it is all ones just when the plain sum is a positive multiple of
65535, whichever byte of a word comes first.
-/

namespace AmlW2.OnesSum

/-- The 16-bit words of bytes, the low byte first; a last byte alone is filled up with a zero. -/
def wordsLe : List UInt8 → List Nat
  | a :: b :: bytes => (a.toNat + 256 * b.toNat) :: wordsLe bytes
  | [a] => [a.toNat]
  | [] => []

/-- The 16-bit words of bytes, the high byte first; a last byte alone is filled up with a zero. -/
def wordsBe : List UInt8 → List Nat
  | a :: b :: bytes => (256 * a.toNat + b.toNat) :: wordsBe bytes
  | [a] => [256 * a.toNat]
  | [] => []

/-- The plain sum of words. -/
def total : List Nat → Nat
  | [] => 0
  | word :: words => word + total words

/-- The sum of two words, its carry added at the low end. -/
def add (x y : Nat) : Nat := (x + y) % 2 ^ 16 + (x + y) / 2 ^ 16

/-- The one's complement sum of words. -/
def sum : List Nat → Nat
  | [] => 0
  | word :: words => add word (sum words)

theorem total_append (front back : List Nat) :
    total (front ++ back) = total front + total back := by
  induction front with
  | nil => simp [total]
  | cons word front induction =>
      rw [List.cons_append, total, total, induction, Nat.add_assoc]

/-- Behind an even number of bytes the words start anew. -/
theorem wordsLe_append {front : List UInt8} (back : List UInt8) (even : front.length % 2 = 0) :
    wordsLe (front ++ back) = wordsLe front ++ wordsLe back := by
  induction front using wordsLe.induct with
  | case1 a b front induction =>
      have rest : front.length % 2 = 0 := by
        simp only [List.length_cons] at even
        omega
      simp [wordsLe, induction rest]
  | case2 a => simp at even
  | case3 => rfl

theorem wordsBe_lt (bytes : List UInt8) : ∀ word ∈ wordsBe bytes, word < 2 ^ 16 := by
  induction bytes using wordsBe.induct with
  | case1 a b bytes induction =>
      intro word member
      have high := a.toNat_lt
      have low := b.toNat_lt
      rcases List.mem_cons.mp member with rfl | member
      · omega
      · exact induction word member
  | case2 a =>
      intro word member
      have high := a.toNat_lt
      rw [List.mem_singleton.mp member]
      omega
  | case3 =>
      intro word member
      cases member

/-- Swapping the bytes of every word multiplies the sum by 256. -/
theorem total_wordsBe (bytes : List UInt8) :
    total (wordsBe bytes) ≡ 256 * total (wordsLe bytes) [MOD 65535] := by
  induction bytes using wordsLe.induct with
  | case1 a b bytes induction =>
      have first : 256 * a.toNat + b.toNat ≡ 256 * (a.toNat + 256 * b.toNat) [MOD 65535] := by
        unfold Nat.ModEq
        omega
      simp only [wordsBe, wordsLe, total]
      rw [Nat.mul_add]
      exact first.add induction
  | case2 a => rfl
  | case3 => rfl

/-- No word is lost by the swap. -/
theorem total_wordsLe_le (bytes : List UInt8) :
    total (wordsLe bytes) ≤ 256 * total (wordsBe bytes) := by
  induction bytes using wordsLe.induct with
  | case1 a b bytes induction =>
      simp only [wordsBe, wordsLe, total]
      omega
  | case2 a =>
      simp only [wordsBe, wordsLe, total]
      omega
  | case3 => exact Nat.zero_le _

theorem add_modEq (x y : Nat) : add x y ≡ x + y [MOD 65535] := by
  unfold Nat.ModEq add
  omega

theorem sum_modEq (words : List Nat) : sum words ≡ total words [MOD 65535] := by
  induction words with
  | nil => rfl
  | cons word words induction =>
      exact (add_modEq word (sum words)).trans (induction.add_left word)

theorem sum_lt {words : List Nat} (small : ∀ word ∈ words, word < 2 ^ 16) :
    sum words < 2 ^ 16 := by
  induction words with
  | nil => simp [sum]
  | cons word words induction =>
      have first := small word List.mem_cons_self
      have rest := induction fun other member => small other (List.mem_cons_of_mem _ member)
      simp only [sum, add]
      omega

theorem sum_pos {words : List Nat} (some_word : 0 < total words) : 0 < sum words := by
  induction words with
  | nil => simp [total] at some_word
  | cons word words induction =>
      simp only [total] at some_word
      have rest : total words ≠ 0 → 0 < sum words := fun more =>
        induction (Nat.pos_of_ne_zero more)
      have carried : word + sum words ≠ 0 := by
        by_cases more : total words = 0
        · omega
        · have := rest more
          omega
      simp only [sum, add]
      omega

/-- A sum is all ones when the plain one is a positive multiple of 65535. -/
theorem sum_eq_ones {words : List Nat} (small : ∀ word ∈ words, word < 2 ^ 16)
    (some_word : 0 < total words) (multiple : 65535 ∣ total words) : sum words = 0xffff := by
  have bound := sum_lt small
  have pos := sum_pos some_word
  have same : sum words ≡ 0 [MOD 65535] :=
    (sum_modEq words).trans (Nat.modEq_zero_iff_dvd.mpr multiple)
  unfold Nat.ModEq at same
  omega

/-- In network order the sum is all ones as well. -/
theorem sum_wordsBe_eq_ones {bytes : List UInt8} (some_word : 0 < total (wordsLe bytes))
    (multiple : 65535 ∣ total (wordsLe bytes)) : sum (wordsBe bytes) = 0xffff := by
  apply sum_eq_ones (wordsBe_lt bytes)
  · have kept := total_wordsLe_le bytes
    omega
  · exact (Nat.modEq_zero_iff_dvd.mp
      ((total_wordsBe bytes).trans (Nat.modEq_zero_iff_dvd.mpr (multiple.mul_left 256))))

end AmlW2.OnesSum
