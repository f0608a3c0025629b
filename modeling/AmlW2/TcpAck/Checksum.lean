import AmlW2.Lib.OnesSum

/-!
# The checksum of a TCP segment

A SYN ACK whose window scale is rewritten gets a new checksum.  `tcp_checksum` adds 16-bit words as
a little-endian machine reads them, in an `int`, and folds the carries in at the end.
-/

namespace AmlW2.TcpAck

open OnesSum

/-- An `unsigned int` as it lies in memory. -/
def uintBytes (x : BitVec 32) : List UInt8 :=
  [UInt8.ofNat x.toNat, UInt8.ofNat (x.toNat / 2 ^ 8), UInt8.ofNat (x.toNat / 2 ^ 16),
    UInt8.ofNat (x.toNat / 2 ^ 24)]

/-- `pseudo_hdr`: the addresses as the IP header holds them, the protocol, and the length in network
order. -/
def pseudoHdr (sip dip : BitVec 32) (len : Nat) : List UInt8 :=
  uintBytes sip ++ uintBytes dip ++ [0, 6, UInt8.ofNat (len / 2 ^ 8), UInt8.ofNat len]

/-- `sum += w` in an `int`; nothing is said of a sum that overflows. -/
def addInt (sum w : Nat) : Option Nat := if sum + w < 2 ^ 31 then some (sum + w) else none

/-- A loop that adds words as long as two bytes are left: the sum, and what is left. -/
def addWords : List UInt8 → Nat → Option (Nat × List UInt8)
  | a :: b :: bytes, sum => (addInt sum (a.toNat + 256 * b.toNat)).bind (addWords bytes)
  | bytes, sum => some (sum, bytes)

/-- The end of `tcp_checksum`: the carries are folded in, and the sum is inverted. -/
def foldCarries (sum : Nat) : Nat :=
  let sum := sum / 2 ^ 16 + sum % 2 ^ 16
  let sum := sum + sum / 2 ^ 16
  0xffff - sum % 2 ^ 16

/-- `tcp_checksum` -/
def tcpChecksum (data : List UInt8) (sip dip : BitVec 32) : Option Nat := do
  let (sum, _) ← addWords (pseudoHdr sip dip data.length) 0
  let (sum, rest) ← addWords data sum
  let sum ← match rest with
    | [oddbyte] => addInt sum oddbyte.toNat
    | _ => some sum
  return foldCarries sum

/-- `tcphdr->check = check` -/
def setCheck (segment : List UInt8) (check : Nat) : List UInt8 :=
  segment.take 16 ++ [UInt8.ofNat check, UInt8.ofNat (check / 2 ^ 8)] ++ segment.drop 18

/-- What `aml_check_tcp_ack_type` does to the checksum of a segment it has rewritten. -/
def updateCheck (segment : List UInt8) (sip dip : BitVec 32) : Option (List UInt8) :=
  (tcpChecksum (setCheck segment 0) sip dip).map (setCheck segment)

/-! ## The sum -/

/-- The loop adds the words of all bytes but the odd one, which is left. -/
theorem addWords_eq (bytes : List UInt8) (sum : Nat)
    (fits : sum + total (wordsLe bytes) < 2 ^ 31) :
    ∃ whole rest, addWords bytes sum = some (whole, rest) ∧
      whole + total (wordsLe rest) = sum + total (wordsLe bytes) ∧
      (rest = [] ∧ bytes.length % 2 = 0 ∨ ∃ oddbyte, rest = [oddbyte] ∧ bytes.length % 2 = 1) := by
  induction bytes using wordsLe.induct generalizing sum with
  | case1 a b bytes induction =>
      simp only [wordsLe, total] at fits
      have first : addInt sum (a.toNat + 256 * b.toNat) = some (sum + (a.toNat + 256 * b.toNat)) :=
        if_pos (by omega)
      obtain ⟨whole, rest, added, kept, left⟩ :=
        induction (sum + (a.toNat + 256 * b.toNat)) (by omega)
      refine ⟨whole, rest, ?_, ?_, ?_⟩
      · simp only [addWords, first, Option.bind_some]
        exact added
      · simp only [wordsLe, total]
        omega
      · simpa only [List.length_cons, Nat.add_assoc, Nat.add_mod_right] using left
  | case2 a => exact ⟨sum, [a], rfl, rfl, .inr ⟨a, rfl, rfl⟩⟩
  | case3 => exact ⟨sum, [], rfl, rfl, .inl ⟨rfl, rfl⟩⟩

/-- Together with the folded sum, the sum is a multiple of 65535. -/
theorem dvd_add_foldCarries {sum : Nat} (fits : sum < 2 ^ 31) :
    65535 ∣ sum + foldCarries sum := by
  have parts := Nat.div_add_mod sum (2 ^ 16)
  have high : sum / 2 ^ 16 < 2 ^ 15 := by omega
  have low : sum % 2 ^ 16 < 2 ^ 16 := by omega
  simp only [foldCarries]
  generalize sum / 2 ^ 16 = high_word at *
  generalize sum % 2 ^ 16 = low_word at *
  -- The first fold leaves a carry of one at most, and the second none.
  by_cases carry : high_word + low_word < 2 ^ 16
  · exact ⟨high_word + 1, by omega⟩
  · exact ⟨high_word + 2, by omega⟩

theorem foldCarries_lt (sum : Nat) : foldCarries sum < 2 ^ 16 := by
  simp only [foldCarries]
  omega

/-- A word is at most 65535, and a byte that is left at most 255. -/
theorem total_wordsLe_bound (bytes : List UInt8) :
    2 * total (wordsLe bytes) ≤ 65535 * bytes.length := by
  induction bytes using wordsLe.induct with
  | case1 a b bytes induction =>
      have low := a.toNat_lt
      have high := b.toNat_lt
      simp only [wordsLe, total, List.length_cons]
      omega
  | case2 a =>
      have low := a.toNat_lt
      simp only [wordsLe, total, List.length_singleton]
      omega
  | case3 => exact Nat.zero_le _

theorem pseudoHdr_length (sip dip : BitVec 32) (len : Nat) :
    (pseudoHdr sip dip len).length = 12 := rfl

/-- The checksum of a segment that fits in an IP packet: the accumulator does not overflow. -/
theorem tcpChecksum_eq {data : List UInt8} (short : data.length ≤ 65515) (sip dip : BitVec 32) :
    tcpChecksum data sip dip =
        some (foldCarries (total (wordsLe (pseudoHdr sip dip data.length ++ data)))) ∧
      total (wordsLe (pseudoHdr sip dip data.length ++ data)) < 2 ^ 31 := by
  have header := total_wordsLe_bound (pseudoHdr sip dip data.length)
  have body := total_wordsLe_bound data
  rw [pseudoHdr_length] at header
  have parts : total (wordsLe (pseudoHdr sip dip data.length ++ data)) =
      total (wordsLe (pseudoHdr sip dip data.length)) + total (wordsLe data) := by
    rw [wordsLe_append data (by rw [pseudoHdr_length]), total_append]
  obtain ⟨first, none, added, kept, left⟩ :=
    addWords_eq (pseudoHdr sip dip data.length) 0 (by omega)
  obtain ⟨rfl, -⟩ : none = [] ∧ _ := left.resolve_right (by
    rintro ⟨oddbyte, -, odd⟩
    rw [pseudoHdr_length] at odd
    omega)
  obtain ⟨whole, rest, added', kept', left'⟩ := addWords_eq data first (by
    simp only [wordsLe, total] at kept
    omega)
  simp only [wordsLe, total] at kept
  refine ⟨?_, by omega⟩
  rw [tcpChecksum, added]
  simp only [Option.bind_eq_bind, Option.bind_some, added']
  rcases left' with ⟨rfl, -⟩ | ⟨oddbyte, rfl, -⟩
  · simp only [wordsLe, total] at kept'
    have same : whole = total (wordsLe (pseudoHdr sip dip data.length ++ data)) := by omega
    rw [same]
    rfl
  · simp only [wordsLe, total] at kept'
    have last : addInt whole oddbyte.toNat =
        some (total (wordsLe (pseudoHdr sip dip data.length ++ data))) := by
      rw [addInt, if_pos (by omega)]
      congr 1
      omega
    simp only [last]
    rfl

/-! ## Inserting the checksum -/

theorem setCheck_length {segment : List UInt8} (header : 18 ≤ segment.length) (check : Nat) :
    (setCheck segment check).length = segment.length := by
  simp only [setCheck, List.length_append, List.length_take, List.length_cons, List.length_nil,
    List.length_drop]
  omega

/-- The checksum is one of the words of the segment. -/
theorem total_setCheck {segment : List UInt8} (header : 18 ≤ segment.length) {check : Nat}
    (small : check < 2 ^ 16) :
    total (wordsLe (setCheck segment check)) = total (wordsLe (setCheck segment 0)) + check := by
  have front : (segment.take 16).length = 16 := by
    rw [List.length_take]
    omega
  have split : ∀ value < 2 ^ 16, total (wordsLe (setCheck segment value)) =
      total (wordsLe (segment.take 16)) + (value + total (wordsLe (segment.drop 18))) := by
    intro value bound
    rw [setCheck, List.append_assoc, wordsLe_append _ (by rw [front]), total_append]
    simp only [List.cons_append, List.nil_append, wordsLe, total, UInt8.toNat_ofNat']
    omega
  rw [split check small, split 0 (by decide)]
  omega

/-- The protocol is in the pseudo header, so the sum is not zero. -/
theorem total_pseudoHdr_pos (sip dip : BitVec 32) (len : Nat) :
    0 < total (wordsLe (pseudoHdr sip dip len)) := by
  simp only [pseudoHdr, uintBytes, List.cons_append, List.nil_append, wordsLe, total]
  have protocol : (6 : UInt8).toNat = 6 := rfl
  omega

/-- With the checksum of a segment inserted, the one's complement sum of pseudo header and segment
is all ones, and the accumulator does not overflow on the way. -/
theorem updateCheck_sum {segment : List UInt8} (header : 20 ≤ segment.length)
    (short : segment.length ≤ 65515) (sip dip : BitVec 32) :
    ∃ check updated, tcpChecksum (setCheck segment 0) sip dip = some check ∧
      updateCheck segment sip dip = some updated ∧ updated = setCheck segment check ∧
      sum (wordsBe (pseudoHdr sip dip updated.length ++ updated)) = 0xffff := by
  have same_length := setCheck_length (show 18 ≤ segment.length by omega)
  obtain ⟨computed, fits⟩ := tcpChecksum_eq ((same_length 0).trans_le short) sip dip
  rw [same_length] at computed fits
  have even : (pseudoHdr sip dip segment.length).length % 2 = 0 := by
    rw [pseudoHdr_length]
  refine ⟨_, _, computed, by rw [updateCheck, computed]; rfl, rfl, ?_⟩
  rw [same_length]
  have inserted : total (wordsLe (pseudoHdr sip dip segment.length ++ setCheck segment
      (foldCarries (total (wordsLe (pseudoHdr sip dip segment.length ++ setCheck segment 0)))))) =
      total (wordsLe (pseudoHdr sip dip segment.length ++ setCheck segment 0)) +
        foldCarries (total (wordsLe (pseudoHdr sip dip segment.length ++ setCheck segment 0))) := by
    rw [wordsLe_append _ even, total_append,
      total_setCheck (show 18 ≤ segment.length by omega) (foldCarries_lt _), ← Nat.add_assoc,
      ← total_append, ← wordsLe_append _ even]
  apply sum_wordsBe_eq_ones
  · rw [wordsLe_append _ even, total_append]
    exact Nat.add_pos_left (total_pseudoHdr_pos sip dip segment.length) _
  · rw [inserted]
    exact dvd_add_foldCarries fits

/-- A SYN ACK with no options and a byte of data. -/
theorem updateCheck_sum_oddSegment :
    ∃ check updated,
      tcpChecksum (setCheck (List.replicate 20 0 ++ [7]) 0) 0x0100A8C0 0x0200A8C0 = some check ∧
        updateCheck (List.replicate 20 0 ++ [7]) 0x0100A8C0 0x0200A8C0 = some updated ∧
        updated = setCheck (List.replicate 20 0 ++ [7]) check ∧
        sum (wordsBe (pseudoHdr 0x0100A8C0 0x0200A8C0 updated.length ++ updated)) = 0xffff :=
  updateCheck_sum (by decide) (by decide) 0x0100A8C0 0x0200A8C0

example : updateCheck (List.replicate 20 0 ++ [7]) 0x0100A8C0 0x0200A8C0 =
    some (List.replicate 16 0 ++ [0x77, 0x90] ++ [0, 0, 7]) := by decide +kernel

end AmlW2.TcpAck
