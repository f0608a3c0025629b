import AmlW2.Tx.Amsdu
import AmlW2.Tx.Txq

/-!
# The A-MSDU in construction

`aml_start_xmit` adds a frame to the A-MSDU in construction, starts one with the last frame queued,
or queues the frame.  The A-MSDU is described by the header of its first frame, and its further
frames carry what is needed to take it apart again.  A queue is looked at behind the frames to be
sent again.
-/

namespace AmlW2.Tx

open Rx (EthHdr)

namespace Aggregate

/-! ## Headers -/

/-- The bits of `flags` in a descriptor. -/
inductive TxuCntrl
  | use4Addr
  | tdls
  | meshFwd
  | spFrame
  | amsdu
deriving DecidableEq, Repr

/-- What `aml_start_xmit` reads of a `struct aml_vif`. -/
structure Vif where
  index : Nat
  /-- `ap_vlan.master`, of an AP_VLAN. -/
  master : Option Nat
  use4Addr : Bool
  /-- The TDLS peer, when its link is active. -/
  tdlsPeer : Option (List UInt8)
  /-- A mesh point that forwards a frame. -/
  reSending : Bool
deriving DecidableEq, Repr

/-- `struct hostdesc`. -/
@[ext]
structure HostDesc where
  /-- `packet_addr[0]`; on PCIe the position in the buffer. -/
  packetAddr : Nat
  /-- `packet_len[0]`. -/
  packetLen : Nat
  packetCnt : Nat
  ethDestAddr : List UInt8
  ethSrcAddr : List UInt8
  ethertype : List UInt8
  flags : Finset TxuCntrl
  tid : Nat
  vifIdx : Nat
  staid : Nat
deriving DecidableEq

/-- `struct aml_sw_txhdr`. -/
structure SwTxhdr where
  vif : Nat
  frameLen : Nat
  amsdu : AmsduTx
  jiffies : Nat
  desc : HostDesc
deriving DecidableEq

/-- A buffer in `sk_list`. -/
structure Buffer where
  hdr : SwTxhdr
  /-- The frame from its Ethernet header on. -/
  data : List UInt8
  /-- `HW_MPDU_LEN_SET`, on SDIO. -/
  mpduLen : Nat
deriving DecidableEq

/-- A frame that comes to `aml_start_xmit`. -/
structure Offer where
  skb : Skb
  vif : Vif
  spFrame : Bool
  jiffies : Nat
  header_le : 14 ≤ skb.data.length
  length_lt : skb.data.length < 65536

/-- The frame is laid out as the Ethernet header it starts with and its payload. -/
def Offer.eth (o : Offer) : EthHdr := EthHdr.read o.skb.data

/-- `NX_REMOTE_STA_MAX`. -/
def nxRemoteStaMax : Nat := 10

/-- `NX_TX_PAYLOAD_MAX`. -/
def nxTxPayloadMax : Int := 6

/-- `USB_AMSDU_BUF_LEN`. -/
def usbAmsduBufLen : Nat := 4624

/-- `AML_TX_HEADROOM`, `AML_SDIO_TX_HEADROOM` and `AML_USB_TX_HEADROOM`. -/
def txHeadroom : Bus → Nat
  | .pcie => 8
  | .sdio => 84
  | .usb => 80

/-- `AML_TX_AMSDU_HEADROOM`; a `struct aml_amsdu_txhdr` takes `size` bytes. -/
def amsduHeadroom (size : Nat) : Nat := size + 14 + 4 + 8

/-- `tx_max_headroom`. -/
def txMaxHeadroom (bus : Bus) (size : Nat) : Nat := max (txHeadroom bus) (amsduHeadroom size)

/-- Where a queue sends. -/
structure Conf where
  bus : Bus
  /-- The size of a `struct aml_amsdu_txhdr`. -/
  size : Nat
  sta : Nat
  tid : Nat

namespace Conf

/-- A buffer that is short of headroom is copied into one that has it. -/
def expand (c : Conf) (skb : Skb) : Skb :=
  if skb.headroom.length < txMaxHeadroom c.bus c.size then
    ⟨List.replicate (txMaxHeadroom c.bus c.size) 0, skb.data⟩
  else skb

/-- The flags that `aml_start_xmit` gives a frame. -/
def flagsOf (c : Conf) (o : Offer) : Finset TxuCntrl :=
  (if o.vif.use4Addr = true ∧ c.sta < nxRemoteStaMax then {.use4Addr} else ∅) ∪
    (if o.vif.tdlsPeer = some o.eth.hDest then {.tdls} else ∅) ∪
    (if o.vif.reSending then {.meshFwd} else ∅) ∪ (if o.spFrame then {.spFrame} else ∅)

/-- What `aml_start_xmit` makes of a frame that is queued; `skb` is its buffer. -/
def prepare (c : Conf) (o : Offer) (skb : Skb) : Buffer where
  hdr :=
    { vif := o.vif.index
      frameLen := skb.data.length - 14
      amsdu := {}
      jiffies := o.jiffies
      desc :=
        { packetAddr := if c.bus = .pcie then skb.headroom.length + 14 else 1
          packetLen := skb.data.length - 14
          packetCnt := 1
          ethDestAddr := (EthHdr.read skb.data).hDest
          ethSrcAddr := (EthHdr.read skb.data).hSource
          ethertype := (EthHdr.read skb.data).hProto
          flags := c.flagsOf o
          tid := c.tid
          vifIdx := o.vif.master.getD o.vif.index
          staid := c.sta } }
  data := skb.data
  mpduLen := if c.bus = .sdio then skb.data.length - 14 else 0

/-- What `aml_start_xmit` makes of a frame alone. -/
def alone (c : Conf) (o : Offer) : Buffer := c.prepare o (c.expand o.skb)

/-- A subframe is added to the header of a buffer; buffers are mapped on PCIe alone. -/
def addHeader (c : Conf) (hdr : SwTxhdr) (mapped : Bool) (skb : Skb) : Except Skb SwTxhdr :=
  match amlAmsduAddSubframeHeader c.size (mapped || decide (c.bus ≠ .pcie)) hdr.amsdu skb with
  | .error skb => .error skb
  | .ok amsdu =>
      .ok { hdr with amsdu, desc := { hdr.desc with packetCnt := hdr.desc.packetCnt + 1 } }

end Conf

/-! ## A transmit queue -/

/-- A buffer in `sk_list`, with what it was made of. -/
structure Entry where
  buf : Buffer
  offers : List Offer
  /-- `amsdu_maxnb` when the last of them was added. -/
  maxnb : Int

/-- What concerns A-MSDUs of a `struct aml_txq`, with `amsdu_maxnb`. -/
structure State where
  conf : Conf
  skList : List Entry
  /-- The place of `amsdu` in `sk_list`. -/
  amsdu : Option Nat
  amsduLen : Nat
  maxnb : Int

namespace State

/-- `aml_adjust_amsdu_maxnb`, and the limit on USB. -/
def adjust (s : State) : State :=
  let maxnb :=
    if nxTxPayloadMax < s.maxnb then nxTxPayloadMax else if s.maxnb = 0 then 1 else s.maxnb
  { s with maxnb := if s.conf.bus = .usb ∧ 3 < maxnb then 3 else maxnb }

/-- The frame is for the destination of the descriptor, and from its source. -/
def SameAddr (desc : HostDesc) (o : Offer) : Prop :=
  o.eth.hDest = desc.ethDestAddr ∧ o.eth.hSource = desc.ethSrcAddr

instance (desc : HostDesc) (o : Offer) : Decidable (SameAddr desc o) :=
  inferInstanceAs (Decidable (_ ∧ _))

/-- The frame fits in the A-MSDU in construction. -/
def Joins (s : State) (hdr : SwTxhdr) (o : Offer) : Prop :=
  SameAddr hdr.desc o ∧ o.spFrame = false ∧ .spFrame ∉ hdr.desc.flags ∧
    hdr.amsdu.len + hdr.amsdu.pad + amlAmsduSubframeLength o.eth o.skb.data.length ≤ s.amsduLen

instance (s : State) (hdr : SwTxhdr) (o : Offer) : Decidable (s.Joins hdr o) :=
  inferInstanceAs (Decidable (_ ∧ _ ∧ _ ∧ _))

/-- `len1`. -/
def firstLength (buf : Buffer) : Nat :=
  amlAmsduSubframeLength (EthHdr.read buf.data) (buf.hdr.frameLen + 14)

/-- The frame and the last one queued fit in an A-MSDU. -/
def Pairs (s : State) (buf : Buffer) (o : Offer) : Prop :=
  buf.hdr.amsdu.len = 0 ∧ .spFrame ∉ buf.hdr.desc.flags ∧ o.spFrame = false ∧
    SameAddr buf.hdr.desc o ∧
    firstLength buf + amsduPadding (firstLength buf) +
      amlAmsduSubframeLength o.eth o.skb.data.length ≤ s.amsduLen

instance (s : State) (buf : Buffer) (o : Offer) : Decidable (s.Pairs buf o) :=
  inferInstanceAs (Decidable (_ ∧ _ ∧ _ ∧ _ ∧ _))

/-- A buffer is made the first one of an A-MSDU. -/
def first (buf : Buffer) : SwTxhdr :=
  { buf.hdr with
    amsdu :=
      { hdrs := [], len := firstLength buf, nb := 1, pad := amsduPadding (firstLength buf),
        packetLen := [] } }

/-- A buffer in the queue gets a header. -/
def setHdr (s : State) (i : Nat) (hdr : SwTxhdr) : State :=
  { s with skList := s.skList.modify i fun e => { e with buf := { e.buf with hdr } } }

/-- A frame is added to a buffer in the queue, which gets a header for it. -/
def grow (s : State) (i : Nat) (hdr : SwTxhdr) (o : Offer) : State :=
  { s with
    skList := s.skList.modify i fun e => ⟨{ e.buf with hdr }, e.offers ++ [o], s.maxnb⟩ }

/-- `aml_amsdu_add_subframe` with an A-MSDU in construction; the buffer, when it is not added. -/
def joinOpen (s : State) (i : Nat) (e : Entry) (o : Offer) (mapped : Bool) : State × Option Skb :=
  if s.Joins e.buf.hdr o then
    match s.conf.addHeader e.buf.hdr mapped (s.conf.expand o.skb) with
    | .error skb => ({ s with amsdu := none }, some skb)
    | .ok hdr =>
        ({ s.grow i hdr o with
          amsdu := if s.maxnb ≤ hdr.amsdu.nb then none else some i }, none)
  else ({ s with amsdu := none }, some (s.conf.expand o.skb))

/-- `aml_amsdu_add_subframe` with the last buffer queued. -/
def pairLast (s : State) (i : Nat) (e : Entry) (o : Offer) (mapped : Bool) : State × Option Skb :=
  if s.Pairs e.buf o then
    match s.conf.addHeader (first e.buf) mapped (s.conf.expand o.skb) with
    | .error skb => (s.setHdr i (first e.buf), some skb)
    | .ok hdr =>
        let hdr := { hdr with desc := { hdr.desc with flags := insert .amsdu hdr.desc.flags } }
        ({ s.grow i hdr o with
          amsdu := if (hdr.amsdu.nb : Int) < s.maxnb then some i else none }, none)
  else (s, some (s.conf.expand o.skb))

/-- `aml_amsdu_add_subframe`. -/
def addSubframe (s : State) (o : Offer) (mapped : Bool) : State × Option Skb :=
  let s := s.adjust
  if s.amsduLen = 0 ∨ s.maxnb < 2 then (s, some (s.conf.expand o.skb))
  else
    match s.amsdu with
    | some i =>
        match s.skList[i]? with
        | none => (s, some (s.conf.expand o.skb))
        | some e => s.joinOpen i e o mapped
    | none =>
        match s.skList.getLast? with
        | none => (s, some (s.conf.expand o.skb))
        | some e => s.pairLast (s.skList.length - 1) e o mapped

/-- The part of `aml_start_xmit` from `aml_amsdu_add_subframe` on; `alloc` tells whether a frame
that is queued gets its header, and `mapped` whether its buffer can be mapped. -/
def startXmit (s : State) (o : Offer) (mapped alloc : Bool) : State :=
  match s.addSubframe o mapped with
  | (s, none) => s
  | (s, some skb) =>
      if alloc then { s with skList := s.skList ++ [⟨s.conf.prepare o skb, [o], s.maxnb⟩] } else s

end State

/-! ## Taking an A-MSDU apart -/

/-- `aml_amsdu_del_subframe_header`. -/
def delSubframeHeader (size : Nat) (hdr : AmsduTxhdr) : Skb :=
  let eth := EthHdr.read (hdr.skb.data.drop size)
  let pos := size + (hdr.pad + 14) + llcRoom eth
  { hdr.skb with data := overlay hdr.skb.data pos eth.bytes }.pull pos

/-- The header that is left of an A-MSDU. -/
def SwTxhdr.reduced (hdr : SwTxhdr) : SwTxhdr :=
  { hdr with
    amsdu := { hdr.amsdu with hdrs := [], len := 0, nb := 0, packetLen := [] }
    desc := { hdr.desc with flags := hdr.desc.flags.erase .amsdu, packetCnt := 1 } }

/-- What `aml_amsdu_dismantle` makes of a further subframe, unless it fails. -/
def Conf.part (c : Conf) (main : SwTxhdr) (alloc : Bool) (hdr : AmsduTxhdr) : Option Buffer :=
  -- `ipc_data`, as mapped with the A-MSDU header
  let dmaAddr := hdr.skb.headroom.length + c.size + 14
  let ipcSize := hdr.msduLen + 14 + hdr.pad
  let skb := delSubframeHeader c.size hdr
  let frameLen := skb.data.length - 14
  if skb.headroom.length < txHeadroom c.bus ∨ alloc = false ∨
      (c.bus = .pcie ∧ ipcSize < frameLen) then
    none
  else
    let packetAddr := if c.bus = .pcie then dmaAddr + (ipcSize - frameLen) else main.desc.packetAddr
    some {
      hdr :=
        { main with
          frameLen
          desc := { main.desc with packetAddr, packetLen := frameLen, packetCnt := 1 } }
      data := skb.data
      mpduLen := if c.bus = .sdio then frameLen else 0 }

/-- `aml_amsdu_dismantle`: what is queued in the place of an A-MSDU, where it does not fail. -/
def Conf.parts (c : Conf) (alloc : Nat → Bool) (buf : Buffer) : List (Option Buffer) :=
  some { buf with hdr := buf.hdr.reduced } ::
    buf.hdr.amsdu.hdrs.mapIdx fun j hdr => c.part buf.hdr.reduced (alloc j) hdr

/-- A frame that is queued again. -/
def ofPart (maxnb : Int) (part : Option Buffer × Offer) : Option Entry :=
  part.1.map fun buf => ⟨buf, [part.2], maxnb⟩

/-- `aml_amsdu_dismantle`; each subframe is appended behind the one before. -/
def Entry.dismantle (c : Conf) (alloc : Nat → Bool) (e : Entry) : List Entry :=
  ((c.parts alloc e.buf).zip e.offers).filterMap (ofPart e.maxnb)

namespace State

/-- The length that is set. -/
def amsduLenOn (bus : Bus) (amsduLen : Nat) : Nat :=
  if bus = .usb then min amsduLen usbAmsduBufLen else amsduLen

/-- `aml_amsdu_update_len`. -/
def updateLen (s : State) (amsduLen : Nat) (alloc : Nat → Nat → Bool) : State :=
  if s.amsduLen ≤ amsduLen then { s with amsduLen := amsduLenOn s.conf.bus amsduLen }
  else
    { s with
      skList := (s.skList.mapIdx fun i e =>
        if .amsdu ∈ e.buf.hdr.desc.flags ∧ amsduLen < e.buf.hdr.amsdu.len then
          e.dismantle s.conf (alloc i)
        else [e]).flatten
      amsdu := none
      amsduLen := amsduLenOn s.conf.bus amsduLen }

/-- Frames are taken out to be pushed. -/
def push (s : State) (count : Nat) : State :=
  { s with
    skList := s.skList.drop count
    amsdu := s.amsdu.bind fun i => if i < count then none else some (i - count) }

/-! ## Runs -/

inductive Event
  | startXmit (o : Offer) (mapped alloc : Bool)
  /-- `amsdu_maxnb` is changed. -/
  | setMaxnb (maxnb : Int)
  | updateLen (amsduLen : Nat) (alloc : Nat → Nat → Bool)
  | push (count : Nat)

def step (s : State) : Event → State
  | .startXmit o mapped alloc => s.startXmit o mapped alloc
  | .setMaxnb maxnb => { s with maxnb }
  | .updateLen amsduLen alloc => s.updateLen amsduLen alloc
  | .push count => s.push count

/-- A queue as `aml_txq_init` leaves it. -/
def init (conf : Conf) (maxnb : Int) : State := ⟨conf, [], none, 0, maxnb⟩

/-- Events one after the other. -/
def after (s : State) (events : List Event) : State := events.foldl step s

end State

end Aggregate

/-! ## Bytes -/

section

variable {buf bytes : List UInt8} {pos k n : Nat}

theorem overlay_length (inside : pos + bytes.length ≤ buf.length) :
    (overlay buf pos bytes).length = buf.length := by
  simp only [overlay, List.length_append, List.length_take, List.length_drop]
  omega

/-- What is behind the bytes written stays. -/
theorem drop_overlay (inside : pos ≤ buf.length) (behind : pos + bytes.length ≤ k) :
    (overlay buf pos bytes).drop k = buf.drop k := by
  have front : (buf.take pos ++ bytes).length = pos + bytes.length := by
    rw [List.length_append, List.length_take, Nat.min_eq_left inside]
  rw [overlay, List.drop_append, List.drop_eq_nil_of_le (by omega), List.nil_append, front,
    List.drop_drop]
  congr 1
  omega

/-- What is before the bytes written stays. -/
theorem take_drop_overlay (inside : pos ≤ buf.length) (before : k + n ≤ pos) :
    ((overlay buf pos bytes).drop k).take n = (buf.drop k).take n := by
  have cut : ((overlay buf pos bytes).take pos) = buf.take pos := by
    rw [overlay, List.append_assoc, List.take_append, List.take_take, Nat.min_self,
      List.length_take, Nat.min_eq_left inside, Nat.sub_self, List.take_zero, List.append_nil]
  have short : ∀ l : List UInt8, (l.drop k).take n = ((l.take pos).drop k).take n := by
    intro l
    rw [List.drop_take, List.take_take, Nat.min_eq_left (by omega)]
  rw [short, cut, ← short]

/-- What is written is read, and what is behind it. -/
theorem drop_overlay_self (inside : pos ≤ buf.length) :
    (overlay buf pos bytes).drop pos = bytes ++ buf.drop (pos + bytes.length) := by
  rw [overlay, List.append_assoc, List.drop_append, List.length_take, Nat.min_eq_left inside,
    Nat.sub_self, List.drop_zero, List.drop_eq_nil_of_le (List.length_take_le _ _),
    List.nil_append]

end

theorem ethHdr_bytes_read {data : List UInt8} (header : 14 ≤ data.length) :
    (EthHdr.read data).bytes = data.take 14 ∧ (EthHdr.read data).bytes.length = 14 := by
  have split : (EthHdr.read data).bytes = data.take 14 := by
    change data.take 6 ++ ((data.drop 6).take 6 ++ (data.drop 12).take 2) = data.take (6 + (6 + 2))
    rw [List.take_add, List.take_add, List.drop_drop]
  refine ⟨split, ?_⟩
  rw [split, List.length_take]
  omega

/-! ## A subframe and its header -/

/-- What the header writes leave of a buffer: the copy of the Ethernet header, and the payload. -/
structure Framed (size tail : Nat) (eth : EthHdr) (before after : List UInt8) : Prop where
  length : after.length = before.length
  copy : (after.drop size).take 14 = eth.bytes
  tail : after.drop tail = before.drop tail

theorem Framed.overlay {size tail : Nat} {eth : EthHdr} {before after : List UInt8}
    (framed : Framed size tail eth before after) (pos : Nat) (bytes : List UInt8)
      (behind : size + 14 ≤ pos)
    (within : pos + bytes.length ≤ tail) (room : tail ≤ before.length) :
    Framed size tail eth before (overlay after pos bytes) := by
  have inside : pos + bytes.length ≤ after.length := by
    rw [framed.length]
    omega
  refine ⟨(overlay_length inside).trans framed.length, ?_, ?_⟩
  · rw [take_drop_overlay (by omega) behind, framed.copy]
  · rw [drop_overlay (by omega) within, framed.tail]

/-- The header writes stay within the room made for them and the frame's own header. -/
theorem framed_writeSubframeHeader {size pad msduLen : Nat} {eth : EthHdr} {buf : List UInt8}
    (header : eth.bytes.length = 14) (dest : eth.hDest.length = 6) (source : eth.hSource.length = 6)
    (room : size + pad + 14 + llcRoom eth + 14 ≤ buf.length) :
    Framed size (size + pad + 14 + llcRoom eth + 14) eth buf
      (writeSubframeHeader size pad msduLen eth buf) := by
  have copied : Framed size (size + pad + 14 + llcRoom eth + 14) eth buf
      (overlay buf size eth.bytes) := by
    have inside : size ≤ buf.length := by omega
    refine ⟨overlay_length (by omega), ?_, drop_overlay inside (by omega)⟩
    rw [drop_overlay_self inside, List.take_left' header]
  have padded := copied.overlay (size + 14) (List.replicate pad 0) (by omega)
    (by rw [List.length_replicate]; omega) room
  have addressed := padded.overlay (size + 14 + pad)
    (eth.hDest ++ (eth.hSource ++ Rx.htons msduLen)) (by omega)
    (by rw [List.length_append, List.length_append, dest, source, Rx.htons_length]; omega)
    room
  rw [writeSubframeHeader]
  split_ifs with typed
  · refine addressed.overlay _ _ (by omega) ?_ room
    have llc : Rx.rfc1042Header.length = 6 := rfl
    rw [llcRoom, if_pos typed, llc]
    omega
  · exact addressed

/-- A subframe as it can be taken out of the A-MSDU again. -/
structure Subframed (size : Nat) (amsdu : AmsduTx) (skb : Skb) (hdr : AmsduTxhdr) : Prop where
  msduLen : hdr.msduLen + 14 = amlAmsduSubframeLength (EthHdr.read skb.data) skb.data.length
  pad : hdr.pad = amsdu.pad
  headroom : hdr.skb.headroom.length + (size + amsdu.pad + 14 + llcRoom (EthHdr.read skb.data)) =
    skb.headroom.length
  restored : (Aggregate.delSubframeHeader size hdr).data = skb.data
  room : (Aggregate.delSubframeHeader size hdr).headroom.length = skb.headroom.length

section

variable {size pad msduLen need : Nat} {skb : Skb} {headroom after : List UInt8}

/-- With its Ethernet header moved back, the frame is as it was. -/
theorem pull_framed (header : 14 ≤ skb.data.length) (roomy : headroom.length = need)
    (framed : Framed size (need + 14) (EthHdr.read skb.data) (headroom ++ skb.data) after)
    (kept : List UInt8) :
    Skb.pull ⟨kept, overlay after need (EthHdr.read skb.data).bytes⟩ need =
      ⟨kept ++ after.take need, skb.data⟩ := by
  obtain ⟨bytes, length⟩ := ethHdr_bytes_read header
  have tail : after.drop (need + 14) = skb.data.drop 14 := by
    rw [framed.tail, ← roomy, List.drop_append, List.drop_eq_nil_of_le (Nat.le_add_right _ _),
      List.nil_append, Nat.add_sub_cancel_left]
  have inside : need ≤ after.length := by
    rw [framed.length, List.length_append]
    omega
  have front : ((overlay after need (EthHdr.read skb.data).bytes).drop 0).take need =
      (after.drop 0).take need := take_drop_overlay inside (by omega)
  have back : (overlay after need (EthHdr.read skb.data).bytes).drop need = skb.data := by
    rw [drop_overlay_self inside, length, tail, bytes, List.take_append_drop]
  simp only [Skb.pull]
  rw [back, ← List.drop_zero (l := overlay _ _ _), front, List.drop_zero]

/-- `aml_amsdu_del_subframe_header` undoes what was written. -/
theorem delSubframeHeader_framed (header : 14 ≤ skb.data.length)
    (needs : size + (pad + 14) + llcRoom (EthHdr.read skb.data) = need)
    (roomy : headroom.length = need)
    (framed : Framed size (need + 14) (EthHdr.read skb.data) (headroom ++ skb.data) after)
    (kept : List UInt8) :
    Aggregate.delSubframeHeader size ⟨⟨kept, after⟩, pad, msduLen⟩ =
      ⟨kept ++ after.take need, skb.data⟩ := by
  have copy : EthHdr.read (after.drop size) = EthHdr.read skb.data := by
    rw [← Rx.EthHdr.read_take, framed.copy, (ethHdr_bytes_read header).1,
      Rx.EthHdr.read_take]
  rw [Aggregate.delSubframeHeader]
  simp only [copy, needs]
  exact pull_framed header roomy framed kept

end

/-- What `aml_amsdu_add_subframe_header` makes of a frame that has its headroom. -/
theorem amlAmsduAddSubframeHeader_eq {size : Nat} {amsdu : AmsduTx} {skb : Skb} (mapped : Bool)
    (header : 14 ≤ skb.data.length)
    (roomy : size + amsdu.pad + 14 + llcRoom (EthHdr.read skb.data) ≤ skb.headroom.length) :
    (mapped = false → ∃ back, amlAmsduAddSubframeHeader size mapped amsdu skb = .error back ∧
      back.data = skb.data ∧ back.headroom.length = skb.headroom.length) ∧
    (mapped = true → ∃ hdr, Subframed size amsdu skb hdr ∧
      amlAmsduAddSubframeHeader size mapped amsdu skb = .ok {
        hdrs := amsdu.hdrs ++ [hdr]
        len := amsdu.len +
          (amlAmsduSubframeLength (EthHdr.read skb.data) skb.data.length + amsdu.pad)
        nb := amsdu.nb + 1
        pad := amsduPadding (amlAmsduSubframeLength (EthHdr.read skb.data) skb.data.length)
        packetLen := amsdu.packetLen ++
          [amlAmsduSubframeLength (EthHdr.read skb.data) skb.data.length + amsdu.pad] }) := by
  have bytes := (ethHdr_bytes_read header).2
  have addrs : (EthHdr.read skb.data).hDest.length = 6 ∧
      (EthHdr.read skb.data).hSource.length = 6 := by
    simp only [EthHdr.read, List.length_take, List.length_drop]
    omega
  have len : skb.data.length - 14 + llcRoom (EthHdr.read skb.data) + 14 =
      amlAmsduSubframeLength (EthHdr.read skb.data) skb.data.length := by
    rw [amlAmsduSubframeLength]
    omega
  obtain ⟨room, need⟩ :
      ∃ room, size + amsdu.pad + 14 + llcRoom (EthHdr.read skb.data) = room := ⟨_, rfl⟩
  have enough : ¬skb.headroom.length < room := by omega
  have front : (skb.headroom.drop (skb.headroom.length - room)).length = room := by
    rw [List.length_drop]
    omega
  have framed : Framed size (room + 14) (EthHdr.read skb.data)
      (skb.headroom.drop (skb.headroom.length - room) ++ skb.data)
      (writeSubframeHeader size amsdu.pad (skb.data.length - 14 + llcRoom (EthHdr.read skb.data))
        (EthHdr.read skb.data) (skb.push room).data) := by
    have inside :
        room + 14 ≤ (skb.headroom.drop (skb.headroom.length - room) ++ skb.data).length := by
      rw [List.length_append, front]
      omega
    rw [← need] at inside ⊢
    exact framed_writeSubframeHeader bytes addrs.1 addrs.2 inside
  have taken : (skb.push room).headroom.length + room = skb.headroom.length := by
    simp only [Skb.push, List.length_take]
    omega
  have whole : ∀ after : List UInt8, room + 14 ≤ after.length →
      ((skb.push room).headroom ++ after.take room).length = skb.headroom.length := by
    intro after long
    rw [List.length_append, List.length_take]
    omega
  have written : room + 14 ≤ (writeSubframeHeader size amsdu.pad
      (skb.data.length - 14 + llcRoom (EthHdr.read skb.data)) (EthHdr.read skb.data)
      (skb.push room).data).length := by
    rw [framed.length, List.length_append, front]
    omega
  rw [amlAmsduAddSubframeHeader]
  simp only [len, Nat.add_sub_cancel, need, if_neg enough]
  constructor
  · intro unmapped
    rw [unmapped]
    refine ⟨_, rfl, ?_⟩
    rw [pull_framed header front framed]
    exact ⟨rfl, whole _ written⟩
  · intro done
    rw [done]
    have undone : Aggregate.delSubframeHeader size ⟨⟨(skb.push room).headroom, _⟩, amsdu.pad,
        skb.data.length - 14 + llcRoom (EthHdr.read skb.data)⟩ = _ :=
      delSubframeHeader_framed header (by omega) front framed (skb.push room).headroom
    refine ⟨⟨⟨(skb.push room).headroom, _⟩, amsdu.pad, _⟩, ⟨len, rfl, ?_, ?_, ?_⟩, rfl⟩
    · rw [need]
      exact taken
    · rw [undone]
    · rw [undone]
      exact whole _ written

/-- Removing a subframe header undoes adding it, for every frame, type and padding: the data starts
where it did, and its bytes are the same. -/
theorem delSubframeHeader_of_added {size : Nat} {mapped : Bool} {amsdu next : AmsduTx} {skb : Skb}
    (header : 14 ≤ skb.data.length)
    (added : amlAmsduAddSubframeHeader size mapped amsdu skb = .ok next) :
    ∃ hdr, next.hdrs = amsdu.hdrs ++ [hdr] ∧
      (Aggregate.delSubframeHeader size hdr).headroom.length = skb.headroom.length ∧
      (Aggregate.delSubframeHeader size hdr).data = skb.data := by
  by_cases roomy : size + amsdu.pad + 14 + llcRoom (EthHdr.read skb.data) ≤ skb.headroom.length
  · obtain ⟨fails, adds⟩ := amlAmsduAddSubframeHeader_eq mapped header roomy
    cases mapped with
    | false =>
        obtain ⟨back, failed, -⟩ := fails rfl
        rw [failed] at added
        cases added
    | true =>
        obtain ⟨hdr, subframed, same⟩ := adds rfl
        rw [same] at added
        obtain rfl := Except.ok.inj added
        exact ⟨hdr, rfl, subframed.room, subframed.restored⟩
  · have refused : amlAmsduAddSubframeHeader size mapped amsdu skb = .error skb :=
      if_pos (Nat.not_le.mp roomy)
    rw [refused] at added
    cases added

/-- A frame with a type, behind three bytes of padding. -/
theorem delSubframeHeader_of_added_padded :
    ∃ next, amlAmsduAddSubframeHeader 40 true { pad := 3 }
        ⟨List.replicate 65 0, List.replicate 12 1 ++ [8, 0, 5]⟩ = .ok next ∧
      ∃ hdr, next.hdrs = [] ++ [hdr] ∧
        (Aggregate.delSubframeHeader 40 hdr).headroom.length =
          (List.replicate 65 (0 : UInt8)).length ∧
        (Aggregate.delSubframeHeader 40 hdr).data = List.replicate 12 1 ++ [8, 0, 5] := by
  obtain ⟨next, added, -⟩ := Run.ends_of_toOption
    (show (amlAmsduAddSubframeHeader 40 true { pad := 3 }
        ⟨List.replicate 65 0, List.replicate 12 1 ++ [8, 0, 5]⟩).toOption.map AmsduTx.nb = some 1 by
      decide +kernel)
  exact ⟨next, added, delSubframeHeader_of_added (by decide) added⟩

end AmlW2.Tx
