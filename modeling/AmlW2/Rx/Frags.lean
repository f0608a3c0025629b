import Mathlib.Data.List.Basic

/-!
# Buffers in two parts

A received frame lies in the receive ring in one piece, or in two when it crosses the end of the
ring.  `aml_frags_copy` reads a range of it across the border.
-/

namespace AmlW2.Rx

/-- An array of two `aml_frag`; the second has no data when the frame is in one piece. -/
structure Frags where
  first : List UInt8
  second : Option (List UInt8)

/-- The length of both parts. -/
def Frags.len (frags : Frags) : Nat := frags.first.length + (frags.second.getD []).length

/-- The frame itself. -/
def Frags.bytes (frags : Frags) : List UInt8 := frags.first ++ frags.second.getD []

/-- `aml_frags_copy`: the bytes copied, or `none` when the range is refused and the destination
keeps what it held. -/
def amlFragsCopy (frags : Frags) (offset len : Nat) : Option (List UInt8) :=
  let finish := offset + len
  if finish ≤ frags.first.length then
    some ((frags.first.drop offset).take len)
  else
    match frags.second with
    | none => none
    | some second =>
        if frags.first.length + second.length < finish then
          none
        else if offset < frags.first.length then
          some (frags.first.drop offset ++ second.take (len - (frags.first.length - offset)))
        else
          some ((second.drop (offset - frags.first.length)).take len)

@[simp]
theorem Frags.bytes_length (frags : Frags) : frags.bytes.length = frags.len :=
  List.length_append

/-- The copy is the range of the whole frame, wherever it is cut. -/
theorem amlFragsCopy_of_le {frags : Frags} {offset len : Nat} (inside : offset + len ≤ frags.len) :
    amlFragsCopy frags offset len = some ((frags.bytes.drop offset).take len) := by
  obtain ⟨first, second⟩ := frags
  simp only [amlFragsCopy, Frags.bytes]
  simp only [Frags.len] at inside
  by_cases whole : offset + len ≤ first.length
  · rw [if_pos whole, List.drop_append_of_le_length (by omega),
      List.take_append_of_le_length (by rw [List.length_drop]; omega)]
  · rw [if_neg whole]
    cases second with
    | none =>
        rw [Option.getD_none, List.length_nil] at inside
        exact absurd inside whole
    | some second =>
        rw [Option.getD_some] at inside ⊢
        simp only [if_neg (show ¬first.length + second.length < offset + len by omega)]
        by_cases straddles : offset < first.length
        · have head : (first.drop offset).take len = first.drop offset :=
            List.take_of_length_le (by rw [List.length_drop]; omega)
          rw [if_pos straddles, List.drop_append_of_le_length (by omega), List.take_append, head,
            List.length_drop]
        · have head : first.drop offset = [] := List.drop_eq_nil_of_le (by omega)
          rw [if_neg straddles, List.drop_append, head, List.nil_append]

end AmlW2.Rx
