import AmlW2.Rx.Frags

/-!
# A-MSDU deaggregation

`aml_amsdu_to_msdu` splits an A-MSDU into its MSDUs.  Its output is a function of the bytes of the
A-MSDU alone: the MSDUs of the subframes, in order, if the bytes are a sequence of subframes, and
nothing if they are not.
-/

namespace AmlW2.Rx

/-! ## The driver -/

/-- `ETH_P_802_3_MIN`. -/
def ethP8023Min : Nat := 0x0600

/-- `ETH_P_AARP`. -/
def ethPAarp : Nat := 0x80F3

/-- `ETH_P_IPX`. -/
def ethPIpx : Nat := 0x8137

/-- `rfc1042_header`. -/
def rfc1042Header : List UInt8 := [0xAA, 0xAA, 0x03, 0x00, 0x00, 0x00]

/-- `bridge_tunnel_header`. -/
def bridgeTunnelHeader : List UInt8 := [0xAA, 0xAA, 0x03, 0x00, 0x00, 0xF8]

/-- `ntohs` on two bytes in network order. -/
def ntohs (raw : List UInt8) : Nat := (raw.getD 0 0).toNat * 256 + (raw.getD 1 0).toNat

/-- `htons`, as two bytes in network order. -/
def htons (n : Nat) : List UInt8 := [UInt8.ofNat (n / 256), UInt8.ofNat n]

/-- `struct ethhdr`. -/
structure EthHdr where
  hDest : List UInt8
  hSource : List UInt8
  /-- Two bytes in network order. -/
  hProto : List UInt8

/-- The header laid over its bytes. -/
def EthHdr.read (bytes : List UInt8) : EthHdr :=
  ⟨bytes.take 6, (bytes.drop 6).take 6, (bytes.drop 12).take 2⟩

def EthHdr.bytes (eth : EthHdr) : List UInt8 := eth.hDest ++ (eth.hSource ++ eth.hProto)

/-- `is_multicast_ether_addr`. -/
def isMulticastEtherAddr (addr : List UInt8) : Bool := addr.headD 0 &&& 1 != 0

/-- What a call finds in memory that it did not write, by offset: the header on the stack, the room
of a new buffer, and whether the buffer is allocated. -/
structure Scratch where
  eth : Nat → List UInt8
  room : Nat → List UInt8
  alloc : Nat → Bool

/-- Whether the subframe is passed over, for the destination or the source wanted. -/
def amsduSkips (checkDa checkSa : Option (List UInt8)) (eth : EthHdr) : Bool :=
  (checkDa.isSome && !isMulticastEtherAddr eth.hDest && decide (checkDa ≠ some eth.hDest)) ||
    (checkSa.isSome && decide (checkSa ≠ some eth.hSource))

/-- The header and the payload after the room of an LLC header is removed. -/
def amsduDecap (eth : EthHdr) (payload : List UInt8) : EthHdr × List UInt8 :=
  if rfc1042Header.length + 2 ≤ payload.length then
    let ethertype := (payload.getD 6 0).toNat <<< 8 ||| (payload.getD 7 0).toNat
    if (payload.take 6 = rfc1042Header ∧ ethertype ≠ ethPAarp ∧ ethertype ≠ ethPIpx) ∨
        payload.take 6 = bridgeTunnelHeader then
      ({ eth with hProto := htons ethertype }, payload.drop (rfc1042Header.length + 2))
    else
      (eth, payload)
  else
    (eth, payload)

/-- One pass of the loop of `aml_amsdu_to_msdu`: the next offset and the MSDU queued, or `none` when
it purges the list. -/
def amsduPass (m : Scratch) (frags : Frags) (checkDa checkSa : Option (List UInt8))
    (offset : Nat) : Option (Nat × Option (List UInt8)) :=
  let eth := EthHdr.read ((amlFragsCopy frags offset 14).getD (m.eth offset))
  let offset := offset + 14
  let len := ntohs eth.hProto
  if ethP8023Min ≤ len then
    none
  else
    let padding := ((4 - (14 + len : Int)) % 4).toNat
    if frags.len < offset + len then
      none
    else if eth.hDest = rfc1042Header then
      none
    else if amsduSkips checkDa checkSa eth then
      some (offset + len + padding, none)
    else if !m.alloc offset then
      none
    else
      let payload := (amlFragsCopy frags offset len).getD (m.room offset)
      let (eth, payload) := amsduDecap eth payload
      some (offset + len + padding, some (eth.bytes ++ payload))

/-- The loop of `aml_amsdu_to_msdu`; `none` when the fuel runs out. -/
def amsduLoop (m : Scratch) (frags : Frags) (checkDa checkSa : Option (List UInt8)) :
    Nat → Nat → List (List UInt8) → Option (List (List UInt8))
  | 0, _, _ => none
  | fuel + 1, offset, msdus =>
      if offset < frags.len then
        match amsduPass m frags checkDa checkSa offset with
        | none => some []
        | some (offset, msdu) =>
            amsduLoop m frags checkDa checkSa fuel offset (msdus ++ msdu.toList)
      else
        some msdus

/-- `aml_amsdu_to_msdu`: the MSDUs queued when it returns. -/
def amlAmsduToMsdu (m : Scratch) (frags : Frags) (checkDa checkSa : Option (List UInt8)) :
    Option (List (List UInt8)) :=
  amsduLoop m frags checkDa checkSa (frags.len + 1) 0 []

/-! ## A-MSDUs -/

/-- A subframe of an A-MSDU. -/
@[ext]
structure Subframe where
  dest : List UInt8
  source : List UInt8
  payload : List UInt8
  dest_length : dest.length = 6
  source_length : source.length = 6
  payload_lt : payload.length < ethP8023Min
  dest_ne : dest ≠ rfc1042Header

namespace Subframe

/-- The bytes of the subframe, without padding. -/
def encode (s : Subframe) : List UInt8 :=
  s.dest ++ (s.source ++ (htons s.payload.length ++ s.payload))

/-- The number of bytes that make the length of the subframe a multiple of four. -/
def padding (s : Subframe) : Nat := (4 - (14 + s.payload.length) % 4) % 4

/-- Whether the addresses are the ones wanted; a multicast destination is. -/
def Wanted (checkDa checkSa : Option (List UInt8)) (s : Subframe) : Prop :=
  (∀ da ∈ checkDa, isMulticastEtherAddr s.dest = true ∨ da = s.dest) ∧
    ∀ sa ∈ checkSa, sa = s.source

instance (checkDa checkSa : Option (List UInt8)) : DecidablePred (Wanted checkDa checkSa) :=
  fun _ => instDecidableAnd

/-- The MSDU of the subframe: an LLC header that carries an Ethernet type gives way to the type. -/
def msdu (s : Subframe) : List UInt8 :=
  match s.payload with
  | a :: b :: c :: d :: e :: f :: t :: u :: body =>
      if [a, b, c, d, e, f] = bridgeTunnelHeader ∨ [a, b, c, d, e, f] = rfc1042Header ∧
          ntohs [t, u] ≠ ethPAarp ∧ ntohs [t, u] ≠ ethPIpx then
        s.dest ++ (s.source ++ (t :: u :: body))
      else
        s.encode
  | _ => s.encode

end Subframe

/-- The bytes are the subframes in order, each padded; after the last one the padding may be cut
short. -/
inductive Amsdu : List Subframe → List UInt8 → Prop
  | nil : Amsdu [] []
  | cons (s : Subframe) (pad rest : List UInt8) (subframes : List Subframe)
      (padded : pad.length = s.padding ∨ rest = [] ∧ pad.length ≤ s.padding)
      (follow : Amsdu subframes rest) : Amsdu (s :: subframes) (s.encode ++ (pad ++ rest))

/-! ## Headers -/

theorem ntohs_htons {n : Nat} (n_lt : n < 65536) : ntohs (htons n) = n := by
  simp only [ntohs, htons, List.getD_cons_zero, List.getD_cons_succ, UInt8.toNat_ofNat']
  omega

theorem htons_ntohs (a b : UInt8) : htons (ntohs [a, b]) = [a, b] := by
  have b_lt := b.toNat_lt
  have a_lt := a.toNat_lt
  simp only [ntohs, htons, List.getD_cons_zero, List.getD_cons_succ]
  congr 1
  · rw [show (a.toNat * 256 + b.toNat) / 256 = a.toNat by omega, UInt8.ofNat_toNat]
  · congr 1
    apply UInt8.toNat_inj.mp
    rw [UInt8.toNat_ofNat']
    omega

@[simp]
theorem htons_length (n : Nat) : (htons n).length = 2 := rfl

/-- Reading a header needs its fourteen bytes only. -/
theorem EthHdr.read_take (bytes : List UInt8) :
    EthHdr.read (bytes.take 14) = EthHdr.read bytes := by
  simp only [EthHdr.read, List.take_take, List.drop_take]
  rfl

theorem Subframe.encode_length (s : Subframe) : s.encode.length = 14 + s.payload.length := by
  simp only [Subframe.encode, List.length_append, s.dest_length, s.source_length, htons_length]
  omega

/-- The header of a subframe. -/
def Subframe.header (s : Subframe) : EthHdr := ⟨s.dest, s.source, htons s.payload.length⟩

theorem Subframe.read_encode (s : Subframe) (tail : List UInt8) :
    EthHdr.read (s.encode ++ tail) = s.header := by
  have dest_length := s.dest_length
  have source_length := s.source_length
  have past_dest : s.dest.drop 12 = [] := List.drop_eq_nil_of_le (by omega)
  simp [EthHdr.read, Subframe.encode, Subframe.header, List.take_append, List.drop_append,
    dest_length, source_length, past_dest, htons]

theorem Subframe.drop_encode (s : Subframe) (tail : List UInt8) :
    ((s.encode ++ tail).drop 14).take s.payload.length = s.payload := by
  have dest_length := s.dest_length
  have source_length := s.source_length
  have past_dest : s.dest.drop 14 = [] := List.drop_eq_nil_of_le (by omega)
  have past_source : s.source.drop 8 = [] := List.drop_eq_nil_of_le (by omega)
  simp [Subframe.encode, List.drop_append, dest_length, source_length, past_dest, past_source,
    htons]

/-- Bytes that start with a header whose length they hold start with a subframe. -/
theorem exists_subframe {bytes : List UInt8} (header : 14 ≤ bytes.length)
    (length_lt : ntohs (EthHdr.read bytes).hProto < ethP8023Min)
    (held : 14 + ntohs (EthHdr.read bytes).hProto ≤ bytes.length)
    (dest_ne : (EthHdr.read bytes).hDest ≠ rfc1042Header) :
    ∃ (s : Subframe) (tail : List UInt8), bytes = s.encode ++ tail := by
  obtain ⟨proto, proto_eq⟩ : ∃ a b, (EthHdr.read bytes).hProto = [a, b] := by
    have two : ((bytes.drop 12).take 2).length = 2 := by
      rw [List.length_take, List.length_drop]
      omega
    exact List.length_eq_two.mp two
  obtain ⟨proto', proto_eq⟩ := proto_eq
  let s : Subframe :=
    { dest := bytes.take 6
      source := (bytes.drop 6).take 6
      payload := (bytes.drop 14).take (ntohs (EthHdr.read bytes).hProto)
      dest_length := by
        rw [List.length_take]
        omega
      source_length := by
        rw [List.length_take, List.length_drop]
        omega
      payload_lt := by
        rw [List.length_take, List.length_drop]
        omega
      dest_ne }
  have payload_length : s.payload.length = ntohs (EthHdr.read bytes).hProto := by
    rw [List.length_take, List.length_drop]
    omega
  refine ⟨s, bytes.drop (14 + ntohs (EthHdr.read bytes).hProto), ?_⟩
  have proto_bytes : htons s.payload.length = (bytes.drop 12).take 2 := by
    rw [payload_length, proto_eq, htons_ntohs, ← proto_eq]
    rfl
  have rejoin : ∀ i n, (bytes.drop i).take n ++ bytes.drop (i + n) = bytes.drop i := by
    intro i n
    rw [← List.drop_drop, List.take_append_drop]
  rw [Subframe.encode, proto_bytes, List.append_assoc, List.append_assoc, List.append_assoc,
    rejoin 14, rejoin 12 2, rejoin 6 6, List.take_append_drop]

/-! ## LLC headers -/

theorem exists_eight {payload : List UInt8} (long : 8 ≤ payload.length) :
    ∃ a b c d e f t u body, payload = a :: b :: c :: d :: e :: f :: t :: u :: body := by
  match payload, long with
  | a :: b :: c :: d :: e :: f :: t :: u :: body, _ => exact ⟨a, b, c, d, e, f, t, u, body, rfl⟩

/-- The Ethernet type is put together as in network order. -/
theorem ethertype_eq (t u : UInt8) : t.toNat <<< 8 ||| u.toNat = ntohs [t, u] := by
  rw [← Nat.shiftLeft_add_eq_or_of_lt (show u.toNat < 2 ^ 8 from u.toNat_lt), Nat.shiftLeft_eq]
  rfl

/-- The header and payload left by the driver are the MSDU. -/
theorem amsduDecap_msdu (s : Subframe) :
    (amsduDecap s.header s.payload).1.bytes ++ (amsduDecap s.header s.payload).2 = s.msdu := by
  have plain : s.header.bytes ++ s.payload = s.encode := by
    simp only [EthHdr.bytes, Subframe.header, Subframe.encode, List.append_assoc]
  by_cases long : rfc1042Header.length + 2 ≤ s.payload.length
  · obtain ⟨a, b, c, d, e, f, t, u, body, payload_eq⟩ := exists_eight long
    have type_eq : (s.payload.getD 6 0).toNat <<< 8 ||| (s.payload.getD 7 0).toNat =
        ntohs [t, u] := by
      rw [payload_eq]
      exact ethertype_eq t u
    have llc : s.payload.take 6 = [a, b, c, d, e, f] := by rw [payload_eq]; rfl
    have body_eq : s.payload.drop 8 = body := by rw [payload_eq]; rfl
    rw [amsduDecap, if_pos long]
    simp only [type_eq, llc]
    by_cases encapsulated : [a, b, c, d, e, f] = bridgeTunnelHeader ∨
        [a, b, c, d, e, f] = rfc1042Header ∧ ntohs [t, u] ≠ ethPAarp ∧ ntohs [t, u] ≠ ethPIpx
    · rw [if_pos (Or.comm.mp encapsulated), Subframe.msdu, payload_eq]
      simp only [if_pos encapsulated, htons_ntohs, EthHdr.bytes, Subframe.header]
      simp [rfc1042Header]
    · rw [if_neg (fun encapsulated' => encapsulated (Or.comm.mp encapsulated')), plain,
        Subframe.msdu, payload_eq]
      simp only [if_neg encapsulated]
  · rw [amsduDecap, if_neg long, plain, Subframe.msdu]
    split
    · rename_i payload_eq
      rw [payload_eq] at long
      simp [rfc1042Header] at long
    · rfl

/-! ## One pass -/

theorem amsduSkips_header (checkDa checkSa : Option (List UInt8)) (s : Subframe) :
    amsduSkips checkDa checkSa s.header = !decide (s.Wanted checkDa checkSa) := by
  rw [Bool.eq_iff_iff]
  cases checkDa <;> cases checkSa <;>
    simp [amsduSkips, Subframe.Wanted, Subframe.header]

theorem Subframe.padding_eq (s : Subframe) :
    ((4 - (14 + s.payload.length : Int)) % 4).toNat = s.padding := by
  rw [Subframe.padding]
  omega

/-- What the frame holds from an offset on. -/
theorem Frags.drop_length (frags : Frags) (offset : Nat) :
    (frags.bytes.drop offset).length = frags.len - offset := by
  rw [List.length_drop, frags.bytes_length]

variable {m : Scratch} {frags : Frags} {checkDa checkSa : Option (List UInt8)} {offset : Nat}

/-- A pass at a subframe steps over it and its padding, and queues its MSDU if it is wanted. -/
theorem amsduPass_encode (alloc : ∀ offset, m.alloc offset = true) (s : Subframe)
    (tail : List UInt8) (at_subframe : frags.bytes.drop offset = s.encode ++ tail) :
    amsduPass m frags checkDa checkSa offset =
      some (offset + 14 + s.payload.length + s.padding,
        if s.Wanted checkDa checkSa then some s.msdu else none) := by
  have size := frags.drop_length offset
  rw [at_subframe, List.length_append, s.encode_length] at size
  have payload_lt := s.payload_lt
  have payload_small : s.payload.length < 65536 := by
    simp only [ethP8023Min] at payload_lt
    omega
  have eth : EthHdr.read ((amlFragsCopy frags offset 14).getD (m.eth offset)) = s.header := by
    rw [amlFragsCopy_of_le (by omega), Option.getD_some, EthHdr.read_take, at_subframe,
      s.read_encode]
  have payload : (amlFragsCopy frags (offset + 14) s.payload.length).getD
      (m.room (offset + 14)) = s.payload := by
    rw [amlFragsCopy_of_le (by omega), Option.getD_some, ← List.drop_drop, at_subframe,
      s.drop_encode]
  have len : ntohs s.header.hProto = s.payload.length := ntohs_htons payload_small
  simp only [amsduPass, eth, len, s.padding_eq]
  rw [if_neg (by omega), if_neg (by omega), if_neg (show ¬s.header.hDest = _ from s.dest_ne),
    amsduSkips_header, alloc, payload]
  by_cases wanted : s.Wanted checkDa checkSa
  · simp only [wanted, decide_true, Bool.not_true, Bool.false_eq_true, if_false, if_true,
      amsduDecap_msdu]
  · simp only [wanted, decide_false, Bool.not_false, if_true, if_false]

/-- A pass that is not at a subframe purges the list, whatever it finds in memory. -/
theorem amsduPass_purge (not_at : ∀ (s : Subframe) tail, frags.bytes.drop offset ≠ s.encode ++ tail)
    (inside : offset < frags.len) : amsduPass m frags checkDa checkSa offset = none := by
  have size := frags.drop_length offset
  simp only [amsduPass]
  split
  · rfl
  rename_i length_lt
  split
  · rfl
  rename_i held
  split
  · rfl
  rename_i dest_ne
  exfalso
  have header : offset + 14 ≤ frags.len := by omega
  rw [amlFragsCopy_of_le header, Option.getD_some, EthHdr.read_take] at length_lt held dest_ne
  obtain ⟨s, tail, at_subframe⟩ := exists_subframe (by omega) (by omega) (by omega) dest_ne
  exact not_at s tail at_subframe

/-! ## The loop -/

/-- The first subframe of an A-MSDU is determined by the bytes, and so is the rest. -/
theorem encode_append_inj {s s' : Subframe} {tail tail' : List UInt8}
    (same : s.encode ++ tail = s'.encode ++ tail') : s = s' ∧ tail = tail' := by
  have headers : s.header = s'.header := by
    rw [← s.read_encode tail, same, s'.read_encode]
  simp only [Subframe.header, EthHdr.mk.injEq] at headers
  obtain ⟨dest, source, length⟩ := headers
  have small := s.payload_lt
  have small' := s'.payload_lt
  simp only [ethP8023Min] at small small'
  have lengths : s.payload.length = s'.payload.length := by
    have := congrArg ntohs length
    rwa [ntohs_htons (by omega), ntohs_htons (by omega)] at this
  have payloads : s.payload = s'.payload := by
    rw [← s.drop_encode tail, same, lengths, s'.drop_encode]
  have equal := Subframe.ext dest source payloads
  subst equal
  exact ⟨rfl, List.append_cancel_left same⟩

/-- An A-MSDU that starts with a subframe goes on after its padding. -/
theorem amsdu_encode_iff {s : Subframe} {tail : List UInt8} {subframes : List Subframe} :
    Amsdu subframes (s.encode ++ tail) ↔
      ∃ rest, subframes = s :: rest ∧ Amsdu rest (tail.drop s.padding) := by
  constructor
  · intro amsdu
    generalize bytes_eq : s.encode ++ tail = bytes at amsdu
    cases amsdu with
    | nil =>
        have := congrArg List.length bytes_eq
        rw [List.length_append, s.encode_length] at this
        simp at this
    | cons s' pad rest subframes padded follow =>
        obtain ⟨rfl, rfl⟩ := encode_append_inj bytes_eq
        refine ⟨subframes, rfl, ?_⟩
        rcases padded with exact_length | ⟨rfl, short⟩
        · rwa [← exact_length, List.drop_left]
        · rwa [List.append_nil, List.drop_eq_nil_of_le short]
  · rintro ⟨rest, rfl, follow⟩
    rw [← List.take_append_drop s.padding tail]
    refine Amsdu.cons s _ _ rest ?_ follow
    rw [List.length_take]
    by_cases short : tail.length < s.padding
    · exact Or.inr ⟨List.drop_eq_nil_of_le (by omega), by omega⟩
    · exact Or.inl (by omega)

/-- The MSDUs of the subframes wanted. -/
def msdusOf (checkDa checkSa : Option (List UInt8)) (subframes : List Subframe) :
    List (List UInt8) :=
  (subframes.filter fun s => decide (s.Wanted checkDa checkSa)).map Subframe.msdu

theorem msdusOf_cons (s : Subframe) (rest : List Subframe) :
    msdusOf checkDa checkSa (s :: rest) =
      (if s.Wanted checkDa checkSa then some s.msdu else none).toList ++
        msdusOf checkDa checkSa rest := by
  by_cases wanted : s.Wanted checkDa checkSa
  · simp [msdusOf, wanted]
  · simp [msdusOf, wanted]

/-- The loop from an offset on, on an A-MSDU and on anything else. -/
theorem amsduLoop_eq (alloc : ∀ offset, m.alloc offset = true) (fuel offset : Nat)
    (msdus : List (List UInt8)) (enough : frags.len - offset < fuel) :
    (∀ subframes, Amsdu subframes (frags.bytes.drop offset) →
      amsduLoop m frags checkDa checkSa fuel offset msdus =
        some (msdus ++ msdusOf checkDa checkSa subframes)) ∧
    ((¬∃ subframes, Amsdu subframes (frags.bytes.drop offset)) →
      amsduLoop m frags checkDa checkSa fuel offset msdus = some []) := by
  induction fuel generalizing offset msdus with
  | zero => omega
  | succ fuel induction =>
      have size := frags.drop_length offset
      simp only [amsduLoop]
      by_cases inside : offset < frags.len
      · rw [if_pos inside]
        by_cases at_subframe : ∃ (s : Subframe) (tail : List UInt8),
            frags.bytes.drop offset = s.encode ++ tail
        · obtain ⟨s, tail, bytes_eq⟩ := at_subframe
          have next : frags.bytes.drop (offset + 14 + s.payload.length + s.padding) =
              tail.drop s.padding := by
            rw [show offset + 14 + s.payload.length + s.padding =
              offset + (s.encode.length + s.padding) by rw [s.encode_length]; omega,
              ← List.drop_drop, bytes_eq, ← List.drop_drop, List.drop_left]
          obtain ⟨good, bad⟩ := induction (offset + 14 + s.payload.length + s.padding)
            (msdus ++ (if s.Wanted checkDa checkSa then some s.msdu else none).toList) (by omega)
          rw [next] at good bad
          simp only [amsduPass_encode alloc s tail bytes_eq, bytes_eq]
          constructor
          · intro subframes amsdu
            obtain ⟨rest, rfl, follow⟩ := amsdu_encode_iff.mp amsdu
            rw [good rest follow, msdusOf_cons, List.append_assoc]
          · intro malformed
            apply bad
            rintro ⟨rest, follow⟩
            exact malformed ⟨s :: rest, amsdu_encode_iff.mpr ⟨rest, rfl, follow⟩⟩
        · have not_at : ∀ (s : Subframe) tail, frags.bytes.drop offset ≠ s.encode ++ tail :=
            fun s tail bytes_eq => at_subframe ⟨s, tail, bytes_eq⟩
          rw [amsduPass_purge not_at inside]
          refine ⟨fun subframes amsdu => ?_, fun _ => rfl⟩
          generalize bytes_eq : frags.bytes.drop offset = bytes at amsdu
          cases amsdu with
          | nil =>
              rw [bytes_eq] at size
              simp at size
              omega
          | cons s pad rest subframes _ _ => exact (not_at s (pad ++ rest) bytes_eq).elim
      · have finished : frags.bytes.drop offset = [] := List.length_eq_zero_iff.mp (by omega)
        rw [if_neg inside, finished]
        constructor
        · intro subframes amsdu
          generalize bytes_eq : ([] : List UInt8) = bytes at amsdu
          cases amsdu with
          | nil => rw [msdusOf, List.filter_nil, List.map_nil, List.append_nil]
          | cons s pad rest subframes _ _ =>
              have := congrArg List.length bytes_eq
              rw [List.length_append, s.encode_length] at this
              simp at this
              omega
        · exact fun malformed => absurd ⟨[], Amsdu.nil⟩ malformed

/-- Deaggregation terminates.  Its output is the wanted MSDUs of the subframes, in order, when the
bytes are an A-MSDU, and nothing otherwise; it depends on the bytes alone, not on how they are split
or on what memory holds. -/
theorem amlAmsduToMsdu_eq (m : Scratch) (frags : Frags) (checkDa checkSa : Option (List UInt8))
    (alloc : ∀ offset, m.alloc offset = true) :
    (∀ subframes, Amsdu subframes frags.bytes →
      amlAmsduToMsdu m frags checkDa checkSa = some (msdusOf checkDa checkSa subframes)) ∧
    ((¬∃ subframes, Amsdu subframes frags.bytes) →
      amlAmsduToMsdu m frags checkDa checkSa = some []) ∧
    ∀ (m' : Scratch) (frags' : Frags), (∀ offset, m'.alloc offset = true) →
      frags'.bytes = frags.bytes →
      amlAmsduToMsdu m' frags' checkDa checkSa = amlAmsduToMsdu m frags checkDa checkSa := by
  have whole : ∀ (m : Scratch) (frags : Frags), (∀ offset, m.alloc offset = true) →
      (∀ subframes, Amsdu subframes frags.bytes →
        amlAmsduToMsdu m frags checkDa checkSa = some (msdusOf checkDa checkSa subframes)) ∧
      ((¬∃ subframes, Amsdu subframes frags.bytes) →
        amlAmsduToMsdu m frags checkDa checkSa = some []) :=
    fun m frags alloc => amsduLoop_eq alloc (frags.len + 1) 0 [] (by omega)
  obtain ⟨good, bad⟩ := whole m frags alloc
  refine ⟨good, bad, fun m' frags' alloc' same => ?_⟩
  obtain ⟨good', bad'⟩ := whole m' frags' alloc'
  rw [same] at good' bad'
  by_cases parsed : ∃ subframes, Amsdu subframes frags.bytes
  · obtain ⟨subframes, amsdu⟩ := parsed
    rw [good subframes amsdu, good' subframes amsdu]
  · rw [bad parsed, bad' parsed]

/-- Memory that holds nothing of use. -/
def blank : Scratch := ⟨fun _ => [], fun _ => [], fun _ => true⟩

/-- A subframe with an LLC header that carries the type of IPv4. -/
def wrapped : Subframe where
  dest := [2, 0, 0, 0, 0, 1]
  source := [2, 0, 0, 0, 0, 2]
  payload := rfc1042Header ++ [8, 0, 7]
  dest_length := rfl
  source_length := rfl
  payload_lt := by decide
  dest_ne := by decide

/-- A subframe without one, for a group. -/
def grouped : Subframe where
  dest := [1, 0, 0, 0, 0, 9]
  source := [2, 0, 0, 0, 0, 2]
  payload := [8, 9, 10]
  dest_length := rfl
  source_length := rfl
  payload_lt := by decide
  dest_ne := by decide

/-- The two with their padding, in a frame that is split in the header of the second. -/
def aggregate : Frags :=
  ⟨wrapped.encode ++ ([0] ++ grouped.encode.take 5), some (grouped.encode.drop 5 ++ [0, 0, 0])⟩

theorem amlAmsduToMsdu_two :
    amlAmsduToMsdu blank aggregate (some [2, 0, 0, 0, 0, 1]) none =
      some [[2, 0, 0, 0, 0, 1, 2, 0, 0, 0, 0, 2, 8, 0, 7],
        [1, 0, 0, 0, 0, 9, 2, 0, 0, 0, 0, 2, 0, 3, 8, 9, 10]] :=
  (amlAmsduToMsdu_eq blank aggregate (some [2, 0, 0, 0, 0, 1]) none fun _ => rfl).1
    [wrapped, grouped]
    (Amsdu.cons wrapped [0] _ _ (Or.inl rfl)
      (Amsdu.cons grouped [0, 0, 0] [] [] (Or.inl rfl) Amsdu.nil))

end AmlW2.Rx
