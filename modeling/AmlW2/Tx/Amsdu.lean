import AmlW2.Lib.Run
import AmlW2.Rx.Amsdu

/-!
# A-MSDU aggregation

`aml_amsdu_add_subframe_header` turns an Ethernet frame into a subframe of an A-MSDU, in place.
What it makes of a list of frames is what `aml_amsdu_to_msdu` takes apart again, but for two
Ethernet types.
-/

namespace AmlW2.Tx

open AmlW2.Rx

/-! ## Buffers -/

/-- A socket buffer: what lies before its data, and its data. -/
structure Skb where
  headroom : List UInt8
  data : List UInt8
  deriving DecidableEq, Repr

/-- `skb_push` -/
def Skb.push (skb : Skb) (len : Nat) : Skb where
  headroom := skb.headroom.take (skb.headroom.length - len)
  data := skb.headroom.drop (skb.headroom.length - len) ++ skb.data

/-- `skb_pull` -/
def Skb.pull (skb : Skb) (len : Nat) : Skb where
  headroom := skb.headroom ++ skb.data.take len
  data := skb.data.drop len

/-- Write bytes over the ones from a position on. -/
def overlay (buf : List UInt8) (pos : Nat) (bytes : List UInt8) : List UInt8 :=
  buf.take pos ++ bytes ++ buf.drop (pos + bytes.length)

theorem overlay_append (front old new back : List UInt8) (same : new.length = old.length) :
    overlay (front ++ (old ++ back)) front.length new = front ++ (new ++ back) := by
  rw [overlay, List.take_left, same, ← List.append_assoc front old, ← List.length_append,
    List.drop_left, List.append_assoc]

/-! ## The driver -/

/-- `AMSDU_PADDING` -/
def amsduPadding (x : Nat) : Nat := (4 - x % 4) % 4

/-- `struct aml_amsdu_txhdr`, for the buffer of one subframe. -/
structure AmsduTxhdr where
  skb : Skb
  pad : Nat
  msduLen : Nat
  deriving DecidableEq, Repr

/-- `struct aml_amsdu`, with the lengths told to the firmware. -/
structure AmsduTx where
  hdrs : List AmsduTxhdr := []
  len : Nat := 0
  nb : Nat := 0
  pad : Nat := 0
  packetLen : List Nat := []
  deriving DecidableEq, Repr

/-- The room for an LLC header and a type, which a frame with a type needs. -/
def llcRoom (eth : EthHdr) : Nat :=
  if ethP8023Min ≤ ntohs eth.hProto then rfc1042Header.length + 2 else 0

/-- `aml_amsdu_subframe_length` -/
def amlAmsduSubframeLength (eth : EthHdr) (frameLen : Nat) : Nat := frameLen + llcRoom eth

/-- The headers written over the buffer once it has its headroom; a `struct aml_amsdu_txhdr` takes
`size` bytes. -/
def writeSubframeHeader (size pad msduLen : Nat) (eth : EthHdr) (buf : List UInt8) : List UInt8 :=
  let pos := size
  let buf := overlay buf pos eth.bytes
  let pos := pos + 14
  let buf := overlay buf pos (List.replicate pad 0)
  let pos := pos + pad
  let buf := overlay buf pos (eth.hDest ++ (eth.hSource ++ htons msduLen))
  let pos := pos + 14
  if ethP8023Min ≤ ntohs eth.hProto then overlay buf pos rfc1042Header else buf

/-- `aml_amsdu_add_subframe_header`: the A-MSDU with the subframe, or the buffer as it is given
back. `mapped` tells whether the buffer could be mapped where that is needed. -/
def amlAmsduAddSubframeHeader (size : Nat) (mapped : Bool) (amsdu : AmsduTx) (skb : Skb) :
    Except Skb AmsduTx :=
  let eth := EthHdr.read skb.data
  let msduLen := skb.data.length - 14 + llcRoom eth
  let headroomNeed := size + amsdu.pad + 14 + llcRoom eth
  let amsduLen := msduLen + 14 + amsdu.pad
  if skb.headroom.length < headroomNeed then .error skb
  else
    let pushed := skb.push headroomNeed
    let buf := writeSubframeHeader size amsdu.pad msduLen eth pushed.data
    if !mapped then
      .error ({ pushed with data := overlay buf headroomNeed eth.bytes }.pull headroomNeed)
    else
      .ok {
        hdrs := amsdu.hdrs ++ [⟨{ pushed with data := buf }, amsdu.pad, msduLen⟩]
        len := amsdu.len + amsduLen
        nb := amsdu.nb + 1
        pad := amsduPadding (amsduLen - amsdu.pad)
        packetLen := amsdu.packetLen ++ [amsduLen] }

/-- What is sent of a subframe: `amsdu_len` bytes from `amsdu_start` on. -/
def AmsduTxhdr.packet (size : Nat) (hdr : AmsduTxhdr) : List UInt8 :=
  (hdr.skb.data.drop (size + 14)).take (hdr.msduLen + 14 + hdr.pad)

/-- The A-MSDU as it is sent. -/
def AmsduTx.bytes (size : Nat) (amsdu : AmsduTx) : List UInt8 :=
  amsdu.hdrs.flatMap (AmsduTxhdr.packet size)

/-- Frames added one after the other.  The firmware writes the header of the first in the same
form, and it has no padding before it. -/
def addSubframes (size : Nat) : List Skb → AmsduTx → Except Skb AmsduTx
  | [], amsdu => .ok amsdu
  | skb :: skbs, amsdu =>
      match amlAmsduAddSubframeHeader size true amsdu skb with
      | .ok amsdu => addSubframes size skbs amsdu
      | .error skb => .error skb

/-! ## Frames -/

/-- An Ethernet frame with a type, short enough for a subframe. -/
structure EtherFrame where
  dest : List UInt8
  source : List UInt8
  /-- Two bytes in network order. -/
  proto : List UInt8
  payload : List UInt8
  dest_length : dest.length = 6
  source_length : source.length = 6
  proto_length : proto.length = 2
  type_ge : ethP8023Min ≤ ntohs proto
  payload_lt : payload.length + 8 < ethP8023Min
  dest_ne : dest ≠ rfc1042Header

namespace EtherFrame

def bytes (f : EtherFrame) : List UInt8 := f.dest ++ (f.source ++ (f.proto ++ f.payload))

/-- The header of the frame. -/
def header (f : EtherFrame) : EthHdr := ⟨f.dest, f.source, f.proto⟩

/-- With the RFC 1042 header in front, the payload is still short of the smallest type. -/
theorem encapsulated_lt (f : EtherFrame) :
    (rfc1042Header ++ (f.proto ++ f.payload)).length < ethP8023Min := by
  have payload_lt := f.payload_lt
  have proto_length := f.proto_length
  simp only [List.length_append, rfc1042Header, List.length_cons, List.length_nil]
  omega

/-- The subframe that carries the frame. -/
def subframe (f : EtherFrame) : Subframe where
  dest := f.dest
  source := f.source
  payload := rfc1042Header ++ (f.proto ++ f.payload)
  dest_length := f.dest_length
  source_length := f.source_length
  payload_lt := f.encapsulated_lt
  dest_ne := f.dest_ne

/-- The types that the receiver leaves behind an RFC 1042 header. -/
def Bridged (f : EtherFrame) : Prop := ntohs f.proto = ethPAarp ∨ ntohs f.proto = ethPIpx

instance (f : EtherFrame) : Decidable f.Bridged := inferInstanceAs (Decidable (_ ∨ _))

theorem bytes_length (f : EtherFrame) : f.bytes.length = 14 + f.payload.length := by
  have dest_length := f.dest_length
  have source_length := f.source_length
  have proto_length := f.proto_length
  simp only [bytes, List.length_append]
  omega

theorem read_bytes (f : EtherFrame) : EthHdr.read f.bytes = f.header := by
  have dest_length := f.dest_length
  have source_length := f.source_length
  have proto_length := f.proto_length
  have past_dest : f.dest.drop 12 = [] := List.drop_eq_nil_of_le (by omega)
  simp [EthHdr.read, bytes, header, List.drop_append, dest_length,
    source_length, proto_length, past_dest]

theorem subframe_payload_length (f : EtherFrame) :
    f.subframe.payload.length = f.payload.length + 8 := by
  have proto_length := f.proto_length
  simp only [subframe, rfc1042Header, List.length_append, List.length_cons, List.length_nil]
  omega

/-- The subframe is opened again, but for the bridged types. -/
theorem subframe_msdu (f : EtherFrame) :
    f.subframe.msdu = if f.Bridged then f.subframe.encode else f.bytes := by
  obtain ⟨t, u, proto⟩ := List.length_eq_two.mp f.proto_length
  have payload : f.subframe.payload =
      0xAA :: 0xAA :: 0x03 :: 0x00 :: 0x00 :: 0x00 :: t :: u :: f.payload := by
    simp [subframe, rfc1042Header, proto]
  have opened : f.dest ++ (f.source ++ (t :: u :: f.payload)) = f.bytes := by
    simp [bytes, proto]
  rw [Subframe.msdu, payload]
  by_cases bridged : f.Bridged
  · have kept : ¬([0xAA, 0xAA, 0x03, 0x00, 0x00, 0x00] = bridgeTunnelHeader ∨
        [0xAA, 0xAA, 0x03, 0x00, 0x00, 0x00] = rfc1042Header ∧
          ntohs [t, u] ≠ ethPAarp ∧ ntohs [t, u] ≠ ethPIpx) := by
      rw [Bridged, proto] at bridged
      rintro (tunnel | ⟨_, not_aarp, not_ipx⟩)
      · revert tunnel
        decide
      · exact bridged.elim not_aarp not_ipx
    rw [if_pos bridged]
    simp only [if_neg kept]
  · have dropped : [0xAA, 0xAA, 0x03, 0x00, 0x00, 0x00] = rfc1042Header ∧
        ntohs [t, u] ≠ ethPAarp ∧ ntohs [t, u] ≠ ethPIpx := by
      rw [Bridged, proto] at bridged
      exact ⟨rfl, not_or.mp bridged⟩
    rw [if_neg bridged, ← opened]
    simp only [if_pos (Or.inr dropped)]
    rfl

/-- A frame comes back as it was just when its type is not a bridged one. -/
theorem subframe_msdu_eq_iff (f : EtherFrame) : f.subframe.msdu = f.bytes ↔ ¬f.Bridged := by
  rw [subframe_msdu]
  split
  · next bridged =>
      refine ⟨fun same => ?_, fun unbridged => absurd bridged unbridged⟩
      have lengths := congrArg List.length same
      rw [Subframe.encode_length, subframe_payload_length, bytes_length] at lengths
      omega
  · next unbridged => exact ⟨fun _ => unbridged, fun _ => rfl⟩

end EtherFrame

/-! ## The header of a subframe -/

theorem llcRoom_header (f : EtherFrame) : llcRoom f.header = 8 := if_pos f.type_ge

/-- The writes leave the subframe after its padding, behind the room for the transmit header and the
frame's own Ethernet header. -/
theorem writeSubframeHeader_eq (f : EtherFrame) (msduLen : Nat) (txhdr : List UInt8)
    {copy : List UInt8} (pad : List UInt8) {room : List UInt8}
    (copy_length : copy.length = 14) (room_length : room.length = 8) :
    writeSubframeHeader txhdr.length pad.length msduLen f.header
        (txhdr ++ (copy ++ (pad ++ (room ++ f.bytes)))) =
      txhdr ++ (f.header.bytes ++ (List.replicate pad.length 0 ++
        (f.dest ++
            (f.source ++ (htons msduLen ++ (rfc1042Header ++ (f.proto ++ f.payload))))))) := by
  have dest_length := f.dest_length
  have source_length := f.source_length
  have proto_length := f.proto_length
  have header_length : f.header.bytes.length = 14 := by
    simp [EthHdr.bytes, EtherFrame.header, dest_length, source_length, proto_length]
  have hdr_length : (f.dest ++ (f.source ++ htons msduLen)).length = 14 := by
    simp [dest_length, source_length]
  -- The A-MSDU header goes over the room made and the frame's destination, the LLC header over its
  -- source; the type stays where it was.
  have first := overlay_append txhdr copy f.header.bytes (pad ++ (room ++ f.bytes))
    (by omega)
  have second := overlay_append (txhdr ++ f.header.bytes) pad (List.replicate pad.length 0)
    (room ++ f.bytes) List.length_replicate
  have third := overlay_append (txhdr ++ f.header.bytes ++ List.replicate pad.length 0)
    (room ++ f.dest) (f.dest ++ (f.source ++ htons msduLen)) (f.source ++ (f.proto ++ f.payload))
    (by rw [hdr_length, List.length_append]; omega)
  have fourth := overlay_append (txhdr ++ f.header.bytes ++ List.replicate pad.length 0 ++
      (f.dest ++ (f.source ++ htons msduLen))) f.source rfc1042Header (f.proto ++ f.payload)
    (by rw [source_length]; rfl)
  simp only [List.length_append, List.length_replicate, header_length, dest_length, source_length,
    htons_length] at second third fourth
  simp only [List.append_assoc] at first second third fourth
  simp only [writeSubframeHeader, first, second]
  rw [if_pos (show ethP8023Min ≤ ntohs f.header.hProto from f.type_ge),
    show f.header.hDest = f.dest from rfl, show f.header.hSource = f.source from rfl,
    EtherFrame.bytes, third]
  exact fourth

/-- What follows a frame in the air: its padding, unless it is the last. -/
def subframesFrom : Nat → List EtherFrame → List UInt8
  | _, [] => []
  | pad, f :: frames =>
      List.replicate pad 0 ++ (f.subframe.encode ++ subframesFrom f.subframe.padding frames)

/-- Adding a frame that has its headroom adds its subframe to the bytes sent. -/
theorem addSubframeHeader_bytes {size : Nat} (amsdu : AmsduTx) (f : EtherFrame)
    {headroom : List UInt8} (roomy : size + amsdu.pad + 22 ≤ headroom.length) :
    ∃ next, amlAmsduAddSubframeHeader size true amsdu ⟨headroom, f.bytes⟩ = .ok next ∧
      next.bytes size = amsdu.bytes size ++ (List.replicate amsdu.pad 0 ++ f.subframe.encode) ∧
      next.pad = f.subframe.padding := by
  have proto_length := f.proto_length
  have msdu_len : (⟨headroom, f.bytes⟩ : Skb).data.length - 14 + 8 = f.subframe.payload.length := by
    rw [f.subframe_payload_length]
    simp [f.bytes_length]
  let pushed := headroom.drop (headroom.length - (size + amsdu.pad + 14 + 8))
  -- The headroom taken: the transmit header, the copy of the Ethernet header, the padding, and what
  -- the A-MSDU header needs beyond the Ethernet header it replaces.
  obtain ⟨txhdr, copy, pad, room, split, txhdr_length, copy_length, pad_length, room_length⟩ :
      ∃ txhdr copy pad room : List UInt8, pushed = txhdr ++ (copy ++ (pad ++ room)) ∧
        txhdr.length = size ∧ copy.length = 14 ∧ pad.length = amsdu.pad ∧ room.length = 8 := by
    have length : pushed.length = size + amsdu.pad + 14 + 8 := by
      simp only [pushed, List.length_drop]
      omega
    refine ⟨pushed.take size, (pushed.drop size).take 14,
      ((pushed.drop size).drop 14).take amsdu.pad, ((pushed.drop size).drop 14).drop amsdu.pad,
      by simp only [List.take_append_drop], ?_, ?_, ?_, ?_⟩ <;>
      simp only [List.length_take, List.length_drop] <;> omega
  have written := writeSubframeHeader_eq f f.subframe.payload.length txhdr pad copy_length
    room_length
  rw [txhdr_length, pad_length] at written
  let data := txhdr ++ (f.header.bytes ++ (List.replicate amsdu.pad 0 ++ f.subframe.encode))
  let len := f.subframe.payload.length + 14 + amsdu.pad
  have added : amlAmsduAddSubframeHeader size true amsdu ⟨headroom, f.bytes⟩ = .ok {
      hdrs := amsdu.hdrs ++
        [⟨⟨headroom.take (headroom.length - (size + amsdu.pad + 14 + 8)), data⟩, amsdu.pad,
          f.subframe.payload.length⟩]
      len := amsdu.len + len
      nb := amsdu.nb + 1
      pad := amsduPadding (len - amsdu.pad)
      packetLen := amsdu.packetLen ++ [len] } := by
    have front : pushed ++ f.bytes = txhdr ++ (copy ++ (pad ++ (room ++ f.bytes))) := by
      simp only [split, List.append_assoc]
    simp only [amlAmsduAddSubframeHeader, f.read_bytes, llcRoom_header, msdu_len, Skb.push]
    rw [if_neg (by omega), front, written]
    simp only [Bool.not_true, Bool.false_eq_true, if_false]
    rfl
  refine ⟨_, added, ?_, ?_⟩
  · have header_length : f.header.bytes.length = 14 := by
      simp [EthHdr.bytes, EtherFrame.header, f.dest_length, f.source_length, proto_length]
    have sent : AmsduTxhdr.packet size
        ⟨⟨headroom.take (headroom.length - (size + amsdu.pad + 14 + 8)), data⟩, amsdu.pad,
          f.subframe.payload.length⟩ = List.replicate amsdu.pad 0 ++ f.subframe.encode := by
      have start : size + 14 = (txhdr ++ f.header.bytes).length := by
        rw [List.length_append, txhdr_length, header_length]
      have whole : f.subframe.payload.length + 14 + amsdu.pad =
          (List.replicate amsdu.pad (0 : UInt8) ++ f.subframe.encode).length := by
        rw [List.length_append, List.length_replicate, f.subframe.encode_length]
        omega
      rw [AmsduTxhdr.packet, start, whole]
      simp only [data, ← List.append_assoc txhdr, List.drop_left, List.take_length]
    simp only [AmsduTx.bytes, List.flatMap_append, List.flatMap_singleton, sent]
  · show amsduPadding (len - amsdu.pad) = f.subframe.padding
    simp only [amsduPadding, Subframe.padding, len]
    omega

/-- Adding frames one after the other sends them one after the other. -/
theorem addSubframes_bytes {size : Nat} {buffers : List (EtherFrame × List UInt8)}
    (roomy : ∀ buffer ∈ buffers, size + 25 ≤ buffer.2.length) (amsdu : AmsduTx)
    (pad_le : amsdu.pad ≤ 3) :
    ∃ done, addSubframes size (buffers.map fun buffer => ⟨buffer.2, buffer.1.bytes⟩) amsdu =
        .ok done ∧
      done.bytes size = amsdu.bytes size ++ subframesFrom amsdu.pad (buffers.map Prod.fst) := by
  induction buffers generalizing amsdu with
  | nil => exact ⟨amsdu, rfl, (List.append_nil _).symm⟩
  | cons buffer buffers induction =>
      have enough := roomy buffer List.mem_cons_self
      have room : size + amsdu.pad + 22 ≤ buffer.2.length := by omega
      obtain ⟨next, added, sent, pad⟩ := addSubframeHeader_bytes amsdu buffer.1 room
      have small : next.pad ≤ 3 := by
        rw [pad, Subframe.padding]
        omega
      obtain ⟨done, rest, sent_rest⟩ := induction
        (fun other member => roomy other (List.mem_cons_of_mem _ member)) next small
      refine ⟨done, ?_, ?_⟩
      · simp only [List.map_cons, addSubframes, added]
        exact rest
      · rw [sent_rest, sent, pad]
        simp only [List.map_cons, subframesFrom, List.append_assoc]

/-- The subframes of a list of frames, in order and each padded but the last, are an A-MSDU. -/
theorem amsdu_subframes (f : EtherFrame) (frames : List EtherFrame) :
    Amsdu (f.subframe :: frames.map EtherFrame.subframe)
      (f.subframe.encode ++ subframesFrom f.subframe.padding frames) := by
  induction frames generalizing f with
  | nil =>
      have last := Amsdu.cons f.subframe [] [] [] (.inr ⟨rfl, Nat.zero_le _⟩) .nil
      simpa [subframesFrom] using last
  | cons next frames induction =>
      exact Amsdu.cons f.subframe (List.replicate f.subframe.padding 0) _ _
        (.inl List.length_replicate) (induction next)

/-- What the receiver makes of frames sent in one A-MSDU. -/
theorem msdusOf_subframes (frames : List EtherFrame) :
    msdusOf none none (frames.map EtherFrame.subframe) =
      frames.map fun f => f.subframe.msdu := by
  have wanted : ∀ s : Subframe, s.Wanted none none := fun s => ⟨by simp, by simp⟩
  simp [msdusOf, wanted]

/-- Frames sent in one A-MSDU come back in order and byte for byte, just when none has a type that
the receiver leaves behind an RFC 1042 header. -/
theorem roundTrip_iff {size : Nat} {buffers : List (EtherFrame × List UInt8)}
    (roomy : ∀ buffer ∈ buffers, size + 25 ≤ buffer.2.length) :
    ∃ amsdu, addSubframes size (buffers.map fun buffer => ⟨buffer.2, buffer.1.bytes⟩) {} =
        .ok amsdu ∧
      ∀ (m : Scratch) (frags : Frags), (∀ offset, m.alloc offset = true) →
        frags.bytes = amsdu.bytes size →
        (amlAmsduToMsdu m frags none none = some (buffers.map fun buffer => buffer.1.bytes) ↔
          ∀ buffer ∈ buffers, ¬buffer.1.Bridged) := by
  obtain ⟨amsdu, added, sent⟩ := addSubframes_bytes roomy {} (Nat.zero_le _)
  refine ⟨amsdu, added, fun m frags alloc same => ?_⟩
  have parsed : Amsdu ((buffers.map Prod.fst).map EtherFrame.subframe) frags.bytes := by
    rw [same, sent]
    cases buffers with
    | nil => exact .nil
    | cons buffer buffers => exact amsdu_subframes buffer.1 (buffers.map Prod.fst)
  have whole : amlAmsduToMsdu m frags none none = some ([] ++ msdusOf none none _) :=
    (amsduLoop_eq alloc (frags.len + 1) 0 [] (by omega)).1 _ parsed
  rw [whole, List.nil_append, msdusOf_subframes, List.map_map, Option.some.injEq]
  constructor
  · intro equal buffer member
    have one := List.map_inj_left.mp equal buffer member
    exact buffer.1.subframe_msdu_eq_iff.mp one
  · intro unbridged
    apply List.map_inj_left.mpr
    intro buffer member
    exact buffer.1.subframe_msdu_eq_iff.mpr (unbridged buffer member)

theorem oneByte_lt : ([7] : List UInt8).length + 8 < ethP8023Min := by decide

theorem station_length : ([2, 0, 0, 0, 0, 1] : List UInt8).length = 6 := rfl

theorem peer_length : ([2, 0, 0, 0, 0, 2] : List UInt8).length = 6 := rfl

theorem station_ne : ([2, 0, 0, 0, 0, 1] : List UInt8) ≠ rfc1042Header := by decide

/-- A frame of a given type with one byte of payload. -/
def shortFrame (proto : List UInt8) (proto_length : proto.length = 2)
    (type_ge : ethP8023Min ≤ ntohs proto) : EtherFrame where
  dest := [2, 0, 0, 0, 0, 1]
  source := [2, 0, 0, 0, 0, 2]
  proto := proto
  payload := [7]
  dest_length := station_length
  source_length := peer_length
  proto_length := proto_length
  type_ge := type_ge
  payload_lt := oneByte_lt
  dest_ne := station_ne

/-- An IPv4 frame and an ARP frame. -/
def plainFrames : List (EtherFrame × List UInt8) :=
  [(shortFrame [8, 0] rfl (by decide), List.replicate 65 0),
    (shortFrame [8, 6] rfl (by decide), List.replicate 65 0)]

theorem roundTrip_plainFrames :
    ∃ amsdu, addSubframes 40 (plainFrames.map fun buffer => ⟨buffer.2, buffer.1.bytes⟩) {} =
        .ok amsdu ∧
      ∀ (m : Scratch) (frags : Frags), (∀ offset, m.alloc offset = true) →
        frags.bytes = amsdu.bytes 40 →
        (amlAmsduToMsdu m frags none none = some (plainFrames.map fun buffer => buffer.1.bytes) ↔
          ∀ buffer ∈ plainFrames, ¬buffer.1.Bridged) :=
  roundTrip_iff (by decide)

/-- An IPX frame. -/
def ipxFrame : EtherFrame := shortFrame [0x81, 0x37] rfl (by decide)

/-- An IPX frame comes back with its length in the place of its type and an LLC header before its
payload. -/
theorem ipxFrame_changed :
    ∃ amsdu, addSubframes 40 [⟨List.replicate 65 0, ipxFrame.bytes⟩] {} = .ok amsdu ∧
      amlAmsduToMsdu blank ⟨amsdu.bytes 40, none⟩ none none ≠ some [ipxFrame.bytes] := by
  obtain ⟨amsdu, added, sent⟩ := Run.ends_of_toOption
    (show (addSubframes 40 [⟨List.replicate 65 0, ipxFrame.bytes⟩] {}).toOption.map
        (AmsduTx.bytes 40) = some ipxFrame.subframe.encode by decide +kernel)
  refine ⟨amsdu, added, ?_⟩
  rw [sent]
  decide +kernel

end AmlW2.Tx
