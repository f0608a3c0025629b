import Mathlib.Algebra.Ring.Nat

/-!
# Numerals in text

Numbers as `printf` writes them, filled up on the left to a width, and the hexadecimal digits a
scanner reads back.
-/

namespace AmlW2.Numerals

/-- A number in a base, filled up on the left to a width. -/
def padded (base width : Nat) (fill : Char) (n : Nat) : List Char :=
  List.leftpad width fill (Nat.toDigits base n)

/-- The value of a hexadecimal digit. -/
def hexVal (c : Char) : Option Nat :=
  if 48 ≤ c.toNat ∧ c.toNat ≤ 57 then some (c.toNat - 48)
  else if 97 ≤ c.toNat ∧ c.toNat ≤ 102 then some (c.toNat - 87)
  else if 65 ≤ c.toNat ∧ c.toNat ≤ 70 then some (c.toNat - 55)
  else none

/-- The number whose digits come first in a text, read on from a value, and the rest of the text. -/
def scanHex (value : Nat) : List Char → Nat × List Char
  | [] => (value, [])
  | c :: text =>
      match hexVal c with
      | none => (value, c :: text)
      | some digit => scanHex (16 * value + digit) text

variable {base width n value : Nat} {fill c : Char} {text : List Char}

/-- A number that fits takes up the width. -/
theorem length_padded (base_gt : 1 < base) (pos : 0 < width) (fits : n < base ^ width) :
    (padded base width fill n).length = width := by
  have short := (Nat.length_toDigits_le_iff base_gt pos).mpr fits
  simp only [padded, List.leftpad, List.length_append, List.length_replicate]
  omega

theorem hexVal_digitChar : ∀ digit < 16, hexVal digit.digitChar = some digit := by decide

theorem hexVal_zero : hexVal '0' = some 0 := by decide

theorem scanHex_digit {digit : Nat} (found : hexVal c = some digit) (text : List Char) :
    scanHex value (c :: text) = scanHex (16 * value + digit) text := by
  simp [scanHex, found]

/-- The scan ends where the digits do. -/
theorem scanHex_stop (stop : text.head?.bind hexVal = none) :
    scanHex value text = (value, text) := by
  cases text with
  | nil => rfl
  | cons c text =>
      have none : hexVal c = none := stop
      simp [scanHex, none]

theorem scanHex_toDigits (n : Nat) (text : List Char) :
    scanHex 0 (Nat.toDigits 16 n ++ text) = scanHex n text := by
  induction n using Nat.strongRecOn generalizing text with
  | ind n induction =>
      rcases Nat.lt_or_ge n 16 with small | large
      · rw [Nat.toDigits_of_lt_base small, List.singleton_append,
          scanHex_digit (hexVal_digitChar n small), Nat.mul_zero, Nat.zero_add]
      · have last := hexVal_digitChar (n % 16) (Nat.mod_lt n (by decide))
        rw [Nat.toDigits_of_base_le (by decide) large, List.append_assoc,
          induction (n / 16) (by omega), List.singleton_append, scanHex_digit last,
          Nat.div_add_mod]

theorem scanHex_zeros (k : Nat) (text : List Char) :
    scanHex 0 (List.replicate k '0' ++ text) = scanHex 0 text := by
  induction k with
  | zero => rfl
  | succ k induction =>
      rw [List.replicate_succ, List.cons_append, scanHex_digit hexVal_zero]
      exact induction

/-- What is written is read back, with the digits that follow it. -/
theorem scanHex_padded (width n : Nat) (text : List Char) :
    scanHex 0 (padded 16 width '0' n ++ text) = scanHex n text := by
  rw [padded, List.leftpad, List.append_assoc, scanHex_zeros, scanHex_toDigits]

theorem hexVal_of_mem_toDigits (member : c ∈ Nat.toDigits 16 n) : hexVal c ≠ none := by
  induction n using Nat.strongRecOn with
  | ind n induction =>
      rcases Nat.lt_or_ge n 16 with small | large
      · rw [Nat.toDigits_of_lt_base small, List.mem_singleton] at member
        rw [member, hexVal_digitChar n small]
        exact Option.some_ne_none n
      · rw [Nat.toDigits_of_base_le (by decide) large, List.mem_append,
          List.mem_singleton] at member
        rcases member with earlier | last
        · exact induction (n / 16) (by omega) earlier
        · rw [last, hexVal_digitChar _ (Nat.mod_lt n (by decide))]
          exact Option.some_ne_none _

/-- A padded hexadecimal number consists of digits. -/
theorem hexVal_of_mem_padded (member : c ∈ padded 16 width '0' n) : hexVal c ≠ none := by
  rw [padded, List.leftpad, List.mem_append] at member
  rcases member with zero | digit
  · rw [List.eq_of_mem_replicate zero, hexVal_zero]
    exact Option.some_ne_none 0
  · exact hexVal_of_mem_toDigits digit

/-- A fact about a byte is one about its 256 values. -/
theorem forall_byte {P : UInt8 → Prop} (all : ∀ b : BitVec 8, P ⟨b⟩) (b : UInt8) : P b :=
  all b.toBitVec

end AmlW2.Numerals
