import AmlW2.Lib.Memory

/-!
# The receive ring of the host

The bus task reads received descriptors from the device into the host's buffer, and the receive task
consumes them.  `aml_sdio_usb_rx_buf_get` finds room, `aml_sdio_usb_rx_desc_fetch` reads and walks
the new descriptors to link them, and `aml_sdio_usb_rx_desc_next` follows the links.
-/

namespace AmlW2.Ring

/-! ## Descriptors -/

/-- `RX_DESC_SIZE`, with `sizeof(struct rxdesc)` bytes. -/
def rxDescSize : Nat := 128

/-- `RX_PD_LEN`, the size of a payload descriptor. -/
def rxPdLen : Nat := 36

/-- `UNWRAP_SIZE`. -/
def unwrapSize : Nat := 56

/-- `AML_RX_FRAG0_MINI_SIZE`. -/
def amlRxFrag0MiniSize : Nat := rxDescSize + rxPdLen + unwrapSize

/-- `AML_RX_WRAP_FLAG`, bit 31. -/
def amlRxWrapFlag : Nat := 2 ^ 31

/-- A position or an address without the flag. -/
def clearWrap (w : Nat) : Nat := w % amlRxWrapFlag

/-- `RXBUF_START_ADDR`, the start of the device's buffer. -/
def rxbufStartAddr : Nat := 0x6001B400

/-- `SDIO_BLKSIZE`. -/
def sdioBlksize : Nat := 512

/-- `SDIO_READ_MAX`. -/
def sdioReadMax : Nat := 131072

/-- `ALIGN`. -/
def align (x a : Nat) : Nat := (x + (a - 1)) / a * a

/-- `aml_rhd_frm_len`: `hwvect.len` of the descriptor at a position. -/
def amlRhdFrmLen (m : Memory) (rxdesc : Nat) : Nat := m.u16 (rxdesc + 48)

/-- `payl_offset` of `aml_rhd0`. -/
def paylOffset (m : Memory) (rxdesc : Nat) : Nat := (m (rxdesc + 52)).toNat

/-- `aml_rx_desc_next_ptr`: where the next pointer of a descriptor is. -/
def amlRxDescNextPtr (rxdesc : Nat) : Nat := rxdesc + 76

/-- The next pointer of the descriptor at a position. -/
def newRead (m : Memory) (rxdesc : Nat) : Nat := m.u32 (amlRxDescNextPtr rxdesc)

/-- `flags_is_80211_mpdu`. -/
def flagsIs80211Mpdu (m : Memory) (rxdesc : Nat) : Bool := (m (rxdesc + 96)).toNat / 2 % 2 == 1

/-- The `pkt_len` of the walk: the RX descriptor, the payload descriptor if there is a payload, and
the payload. -/
def pktLen (m : Memory) (rxdesc : Nat) : Nat :=
  let pktLen := paylOffset m rxdesc + amlRhdFrmLen m rxdesc
  rxDescSize + (if pktLen ≠ 0 then rxPdLen else 0) + align pktLen 4

/-! ## State -/

/-- `enum aml_rx_buf_layout`. -/
inductive Layout
  | narrow
  | expand
deriving DecidableEq, Repr

/-- `struct aml_sharedmem_layout`. -/
structure SharedmemLayout where
  txPage : Nat
  rxEnd : Nat
deriving DecidableEq, Repr

/-- The part `fw` of `struct aml_rx`: addresses in the device. -/
structure Fw where
  /-- `FW_BUFFER_NARROW` or `FW_BUFFER_EXPAND`, as indicated by the firmware. -/
  state : Nat
  head : Nat
  tail : Nat
  /-- `confirm.flags`. -/
  confirmFlags : Nat
  /-- `end`: the end of the device's buffer in the current layout. -/
  rxEnd : Nat
  /-- The length read so far of the descriptor at the end of the last read. -/
  frag0 : Nat
  skip : Nat

/-- `struct aml_rx`, with the bytes of `buf` and the TX pages of the layout applied. -/
structure Rx where
  layouts : Layout → SharedmemLayout
  start : Bool
  reset : Bool
  buf : Memory
  bufSz : Nat
  head : Nat
  tail : Nat
  /-- The last descriptor linked by the producer. -/
  last : Nat
  /-- The length of the part at the end of the buffer, of a descriptor stored in two parts. -/
  frag0 : Nat
  fw : Fw
  txPage : Nat

/-- The assertions of the receive path. -/
inductive Bug
  /-- A read outside the device's buffer. -/
  | readRange
  /-- Less is carried than the part at the end of the host's buffer. -/
  | shortCarry
  /-- A descriptor at a position that is not a multiple of 4. -/
  | misaligned
  /-- A next pointer outside the device's buffer. -/
  | nextRange
  /-- A descriptor cut at the device's end is longer than its packet. -/
  | longCut
  /-- The next descriptor starts inside this one. -/
  | shortTotal
  /-- The walk leaves the host's or the device's buffer. -/
  | walkRange
  /-- A consumed descriptor reaches the end of the host's buffer. -/
  | consumeRange
  /-- The device's tail is restarted although it is at the head. -/
  | restart
  /-- Less is available than is to be skipped. -/
  | skip
  /-- The device's tail leaves its buffer. -/
  | tailRange
  /-- A read of negative length, which the code does not assert against. -/
  | negativeRead
deriving DecidableEq, Repr

/-- `aml_sdio_usb_rx_pos_in_range`. -/
def amlSdioUsbRxPosInRange (fw : Fw) (pos len : Nat) : Bool :=
  decide (rxbufStartAddr ≤ pos) && decide (pos + len ≤ fw.rxEnd)

/-! ## Room in the buffer -/

/-- What a read of `len` bytes may take: whole blocks, once it is longer than one. -/
def busLen (len : Nat) : Nat := if sdioBlksize < len then align len sdioBlksize else len

/-- `aml_sdio_usb_rx_buf_get`, with `none` for `-1`. -/
def amlSdioUsbRxBufGet (head tail bufSz len frag0 : Nat) : Option Nat :=
  -- include the first fragment of the last mpdu, which is already read
  let head := head + frag0
  let len := busLen len
  if head < tail then
    if len < tail - head then some head else none
  else if head + len < bufSz then some head
  else
    -- later a short first fragment is moved to the beginning
    let len := if frag0 < amlRxFrag0MiniSize then len + frag0 else len
    if len < tail then some 0 else none

/-- The part of `aml_sdio_usb_rx_desc_fetch` that settles where the read goes. -/
def fetchPlace (rx : Rx) (pos : Nat) : Except Bug (Rx × Nat) :=
  if pos = 0 then
    if rx.fw.frag0 < amlRxFrag0MiniSize then
      -- the mpdu is in one part, its first fragment moved to the beginning
      .ok ({ rx with buf := rx.buf.put 0 rx.fw.frag0 fun i => rx.buf (rx.head + i), frag0 := 0 },
        rx.fw.frag0)
    else if rx.frag0 = 0 then
      -- the mpdu is stored in two parts
      .ok ({ rx with frag0 := rx.fw.frag0 }, 0)
    else if rx.fw.frag0 < rx.frag0 then .error .shortCarry
    -- the third read of an mpdu in two parts goes after its second part
    else .ok (rx, rx.fw.frag0 - rx.frag0)
  else .ok (rx, pos)

/-! ## The walk over new descriptors -/

/-- The variables of the walk. -/
structure Walk where
  buf : Memory
  rxdesc : Nat
  pos : Int
  fwPos : Int
  len : Nat
  /-- The next pointer of the previous descriptor. -/
  pnext : Option Nat
  last : Nat
  skip : Nat

/-- The length kept of a descriptor that wraps in the device, and the skip at the device's start. -/
def cutAtEnd (m : Memory) (rxdesc len skip : Nat) : Except Bug (Nat × Nat) :=
  if len < rxDescSize + rxPdLen then .ok (rxDescSize, skip)
  else if flagsIs80211Mpdu m rxdesc then .ok (rxDescSize + rxPdLen, skip)
  else if len < rxDescSize + rxPdLen + unwrapSize then .ok (rxDescSize + rxPdLen, skip)
  -- 12 for the icv and the fcs
  else if pktLen m rxdesc + 12 < len then .error .longCut
  else .ok (len, rxPdLen)

/-- How far the next descriptor is, negative when this one wraps in the device. -/
def totLen (fw : Fw) (w : Walk) : Int :=
  let next := newRead w.buf w.rxdesc
  if next - w.fwPos < 0 ∧ next = rxbufStartAddr then fw.rxEnd - w.fwPos else next - w.fwPos

/-- Link the previous descriptor to this one, and move to the next one. -/
def walkNext (w : Walk) (pos0 totLen : Nat) : Walk :=
  { buf := match w.pnext with
      | some pnext => w.buf.set32 pnext w.pos.toNat
      | none => w.buf
    rxdesc := (w.pos + totLen).toNat
    pos := w.pos + totLen
    fwPos := w.fwPos + totLen
    len := w.len - totLen
    pnext := some (amlRxDescNextPtr w.rxdesc)
    last := if w.pos < 0 then pos0 else w.pos.toNat
    skip := w.skip }

/-- One turn of the walk; the flag tells whether it goes on. -/
def walkTurn (fw : Fw) (bufSz : Nat) (reachEnd : Bool) (pos0 : Nat) (w : Walk) :
    Except Bug (Walk × Bool) :=
  if w.len < rxDescSize then
    -- the next pointer is unavailable yet, or this is the padding at the device's end
    .ok ({ w with len := if reachEnd then 0 else w.len }, false)
  else if w.rxdesc % 4 ≠ 0 then .error .misaligned
  else if !amlSdioUsbRxPosInRange fw (newRead w.buf w.rxdesc) 0 then .error .nextRange
  else
    let totLen := totLen fw w
    if totLen < 0 then
      if !reachEnd then .ok (w, false)
      else
        match cutAtEnd w.buf w.rxdesc w.len w.skip with
        | .error bug => .error bug
        | .ok (len, skip) => .ok ({ w with len, skip }, false)
    else if totLen < pktLen w.buf w.rxdesc then .error .shortTotal
    else if w.len < totLen then .ok (w, false)
    else
      let w := walkNext w pos0 totLen.toNat
      if w.pos < 0 ∨ bufSz ≤ w.pos ∨ w.fwPos < rxbufStartAddr ∨ fw.rxEnd < w.fwPos then
        .error .walkRange
      else .ok (w, true)

/-- The walk.  Each turn that goes on takes at least a descriptor off the length, so as many turns
as there are bytes are enough. -/
def walk (fw : Fw) (bufSz : Nat) (reachEnd : Bool) (pos0 : Nat) : Nat → Walk → Except Bug Walk
  | 0, w => .ok w
  | fuel + 1, w =>
      if w.len = 0 then .ok w
      else
        match walkTurn fw bufSz reachEnd pos0 w with
        | .error bug => .error bug
        | .ok (w, false) => .ok w
        | .ok (w, true) => walk fw bufSz reachEnd pos0 fuel w

/-! ## Fetching -/

/-- The walk as it starts after a read of `received` bytes at `pos`: the carried fragment is aligned
to the head. -/
def walkStart (rx : Rx) (fwPos received pos : Nat) : Walk :=
  let pos : Int := pos - rx.fw.frag0
  { buf := rx.buf
    rxdesc := if pos < 0 then rx.head else pos.toNat
    pos
    fwPos := fwPos - rx.fw.frag0
    len := received + rx.fw.frag0
    pnext := none
    last := rx.last
    skip := rx.fw.skip }

/-- The end of `aml_sdio_usb_rx_desc_fetch`: the new descriptors are linked to the last one, so that
the consumer can take them. -/
def fetchLink (rx : Rx) (pos0 : Nat) (w : Walk) : Except Bug Rx :=
  let rx' := { rx with
    buf := w.buf
    last := w.last
    head := if 0 ≤ w.pos then w.pos.toNat else rx.head
    fw := { rx.fw with frag0 := w.len % 65536, skip := w.skip } }
  if rx.last = w.last then .ok rx'
  else if rx.last % 4 ≠ 0 then .error .misaligned
  else
    let pos0 := if w.pos < pos0 then pos0 + amlRxWrapFlag else pos0
    .ok { rx' with buf := w.buf.set32 (amlRxDescNextPtr rx.last) pos0 }

/-- The outcome of `hi_rx_buffer_read`: the bytes it leaves in the host's buffer, and how many of
them are received, 0 if it fails. -/
structure Bus where
  data : Nat → UInt8
  received : Nat

/-- `aml_sdio_usb_rx_error`. -/
def amlSdioUsbRxError (rx : Rx) : Rx :=
  if rx.reset then rx else { rx with reset := true, start := false }

/-- The part of `aml_sdio_usb_rx_desc_fetch` after the place is settled. -/
def fetchRead (rx : Rx) (fwPos len pos : Nat) (bus : Bus) : Except Bug (Nat × Rx) :=
  let rx := { rx with buf := rx.buf.put pos (busLen len) bus.data }
  let received := min bus.received len
  if received = 0 then .ok (0, amlSdioUsbRxError rx)
  else
    let w := walkStart rx fwPos received pos
    match walk rx.fw rx.bufSz (rx.fw.rxEnd == fwPos + len) w.rxdesc w.len w with
    | .error bug => .error bug
    | .ok after => (fetchLink rx w.rxdesc after).map fun rx => (received, rx)

/-- `aml_sdio_usb_rx_desc_fetch`: the length received, 0 if there is no room or the read fails. -/
def amlSdioUsbRxDescFetch (rx : Rx) (fwPos len : Nat) (bus : Bus) : Except Bug (Nat × Rx) :=
  match amlSdioUsbRxBufGet rx.head rx.tail rx.bufSz len rx.fw.frag0 with
  | none => .ok (0, rx)
  | some pos =>
      if !amlSdioUsbRxPosInRange rx.fw fwPos len then .error .readRange
      else
        match fetchPlace rx pos with
        | .error bug => .error bug
        | .ok (rx, pos) => fetchRead rx fwPos len pos bus

/-! ## Consuming -/

/-- `aml_sdio_usb_rx_desc_next`: the next descriptor, and the length of its first part if it is
stored in two. -/
def amlSdioUsbRxDescNext (rx : Rx) (rxdesc : Nat) : Option (Nat × Nat × Rx) :=
  let pos := clearWrap (newRead rx.buf rxdesc)
  if pos < rx.bufSz then
    if amlRxWrapFlag ≤ newRead rx.buf rxdesc then some (pos, rx.frag0, { rx with frag0 := 0 })
    else some (pos, 0, rx)
  else none

/-- Where a descriptor ends in the host's buffer: its first part, or its packet data. -/
def descEnd (m : Memory) (rxdesc frag0 : Nat) : Nat :=
  let frmlen := amlRhdFrmLen m rxdesc
  if frag0 ≠ 0 then rxdesc + frag0
  else rxdesc + rxDescSize + (if frmlen ≠ 0 then rxPdLen else 0) + paylOffset m rxdesc + frmlen

/-- One turn of the loop of `aml_sdio_usb_rx_buf_put`: the descriptor handed on, if there is one,
and the length of its first part. -/
def amlSdioUsbRxBufPut (rx : Rx) : Except Bug (Option (Nat × Nat) × Rx) :=
  if rx.tail % 4 ≠ 0 then .error .misaligned
  else
    match amlSdioUsbRxDescNext rx rx.tail with
    | none => .ok (none, rx)
    | some (rxdesc, frag0, rx) =>
        if rx.bufSz ≤ descEnd rx.buf rxdesc frag0 then .error .consumeRange
        else .ok (some (rxdesc, frag0), { rx with tail := rxdesc })

end AmlW2.Ring
