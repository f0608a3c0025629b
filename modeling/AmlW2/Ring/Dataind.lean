import AmlW2.Ring.Fetch
import AmlW2.Lib.Run

/-!
# The receive path of the host

The bus task is told the firmware's head by `aml_sdio_usb_fw_rx_head_ind` and calls
`aml_sdio_usb_rxdataind`, whose loop fetches up to that head and then confirms what it read by
`aml_sdio_usb_rx_confirm`.  That is also where a change of the shared memory layout is applied.  The
receive task consumes descriptors between any two turns of the loop.
-/

namespace AmlW2.Ring

/-! ## Flags -/

/-- `SHARED_MEM_BASE_ADDR`. -/
def sharedMemBaseAddr : Nat := 0x60000000

/-- `RX_WRAP_TEMP_FLAG`, bit 19. -/
def rxWrapTempFlag : Nat := 2 ^ 19

/-- `FW_BUFFER_NARROW`, bit 20. -/
def fwBufferNarrow : Nat := 2 ^ 20

/-- `FW_BUFFER_EXPAND`, bit 21. -/
def fwBufferExpand : Nat := 2 ^ 21

/-- `RX_ENLARGE_READ_RX_DATA_FINISH`, bit 25. -/
def rxEnlargeReadRxDataFinish : Nat := 2 ^ 25

/-- `HOST_RXBUF_ENLARGE_FINISH`, bit 26. -/
def hostRxbufEnlargeFinish : Nat := 2 ^ 26

/-- `RX_REDUCE_READ_RX_DATA_FINISH`, bit 27. -/
def rxReduceReadRxDataFinish : Nat := 2 ^ 27

/-- `HOST_RXBUF_REDUCE_FINISH`, bit 28. -/
def hostRxbufReduceFinish : Nat := 2 ^ 28

/-- A word without `AML_RX_BUF_FW_FLAGS`, bits 19 to 21. -/
def clearFwFlags (w : Nat) : Nat := w &&& 0xFFC7FFFF

/-! ## The firmware's head -/

/-- `aml_sdio_usb_fw_rx_head_ind`; an address out of range is ignored. -/
def amlSdioUsbFwRxHeadInd (rx : Rx) (fwRxHead : Nat) : Rx :=
  let head := sharedMemBaseAddr ||| clearFwFlags fwRxHead
  -- the device is initializing while the word is 0
  if fwRxHead = 0 ∨ amlSdioUsbRxPosInRange rx.fw head 0 = false then rx
  else
    { rx with fw := { rx.fw with
        head := if fwRxHead &&& rxWrapTempFlag ≠ 0 then head + amlRxWrapFlag else head
        state := fwRxHead &&& (fwBufferNarrow ||| fwBufferExpand) } }

/-! ## Confirmation -/

/-- `aml_shared_mem_layout_appy`, with the TX pages handed to the transmit path. -/
def amlSharedMemLayoutApply (rx : Rx) (layout : Layout) : Rx :=
  { rx with
    fw := { rx.fw with rxEnd := (rx.layouts layout).rxEnd }
    txPage := (rx.layouts layout).txPage }

/-- The `switch` of `aml_sdio_usb_rx_confirm`: the flags to confirm. -/
def confirmSwitch (rx : Rx) : Nat × Rx :=
  let flags := rx.fw.confirmFlags
  let state := rx.fw.state ||| flags
  if state = fwBufferNarrow then
    let rx :=
      if (rx.layouts .narrow).rxEnd ≤ clearWrap rx.fw.head then
        { rx with fw := { rx.fw with head := rxbufStartAddr, tail := rxbufStartAddr } }
      else rx
    (rxReduceReadRxDataFinish, amlSharedMemLayoutApply rx .narrow)
  else if state = fwBufferNarrow ||| rxReduceReadRxDataFinish then (flags, rx)
  else if state = rxReduceReadRxDataFinish then (hostRxbufReduceFinish, rx)
  else if state = fwBufferExpand then
    (rxEnlargeReadRxDataFinish, amlSharedMemLayoutApply rx .expand)
  else if state = fwBufferExpand ||| rxEnlargeReadRxDataFinish then (flags, rx)
  else if state = rxEnlargeReadRxDataFinish then (hostRxbufEnlargeFinish, rx)
  else if state = 0 then (0, rx)
  -- an invalid state
  else (flags, rx)

/-- `aml_sdio_usb_rx_confirm`, up to the word handed to the bus. -/
def amlSdioUsbRxConfirm (rx : Rx) : Rx :=
  let (flags, rx) := confirmSwitch rx
  -- the host's switch is completed by the last two flags
  let done := flags = hostRxbufReduceFinish ∨ flags = hostRxbufEnlargeFinish
  { rx with fw := { rx.fw with confirmFlags := if done then 0 else flags } }

/-! ## The loop -/

/-- `aml_sdio_usb_fw_tail_restart`. -/
def amlSdioUsbFwTailRestart (rx : Rx) (rxTail : Nat) : Except Bug (Rx × Nat) :=
  if rx.fw.tail = rx.fw.head then .error .restart
  else if rxTail = rx.fw.rxEnd ∨ rx.fw.rxEnd < rxTail - rx.fw.frag0 + rxDescSize then
    let wrap := if amlRxWrapFlag ≤ rx.fw.head then amlRxWrapFlag else 0
    .ok ({ rx with fw := { rx.fw with
        -- a remainder too short for a descriptor is padding
        frag0 := if rxTail = rx.fw.rxEnd then rx.fw.frag0 else 0
        tail := rxbufStartAddr + wrap } }, rxbufStartAddr)
  else .ok (rx, rxTail)

/-- The variables of `aml_sdio_usb_rxdataind`. -/
structure Call where
  rxHead : Nat
  rxTail : Nat
  received : Nat

/-- The skip over the payload descriptor at the device's start: the state, tail and length. -/
def turnSkip (rx : Rx) (rxTail len : Nat) : Except Bug (Rx × Nat × Nat) :=
  if rx.fw.skip ≠ 0 ∧ rxTail = rxbufStartAddr then
    if len ≤ rx.fw.skip then .error .skip
    else
      .ok ({ rx with fw := { rx.fw with tail := rx.fw.tail + rx.fw.skip, skip := 0 } },
        rxTail + rx.fw.skip, len - rx.fw.skip)
  else .ok (rx, rxTail, len)

/-- The read a turn of the loop asks for: up to the head, or up to the device's end. -/
def turnArgs (rx : Rx) (c : Call) : Except Bug (Rx × Nat × Nat) :=
  if c.rxTail < c.rxHead then turnSkip rx c.rxTail (c.rxHead - c.rxTail)
  else if rx.fw.rxEnd < c.rxTail then .error .negativeRead
  else turnSkip rx c.rxTail (rx.fw.rxEnd - c.rxTail)

/-- The length of one read, at most `SDIO_READ_MAX`. -/
def readLen (len : Nat) : Nat := if len < sdioReadMax then len else sdioReadMax

/-- The end of a turn that received data. -/
def turnAdvance (rx : Rx) (c : Call) (rxTail received : Nat) : Except Bug (Rx × Call) :=
  let rxTail := rxTail + received
  let rx := { rx with fw := { rx.fw with tail := rx.fw.tail + received } }
  let c := { c with received := c.received + received, rxTail }
  if rx.fw.rxEnd < rxTail then .error .tailRange
  else if rx.fw.tail = rx.fw.head then .ok (rx, c)
  else (amlSdioUsbFwTailRestart rx rxTail).map fun (rx, rxTail) => (rx, { c with rxTail })

/-- One turn of the loop of `aml_sdio_usb_rxdataind`; the flag tells whether it goes on. -/
def rxdataindTurn (rx : Rx) (c : Call) (bus : Bus) : Except Bug (Rx × Call × Bool) :=
  match turnArgs rx c with
  | .error bug => .error bug
  | .ok (rx, rxTail, len) =>
      if len = 0 then .ok (rx, { c with rxTail }, false)
      else
        match amlSdioUsbRxDescFetch rx rxTail (readLen len) bus with
        | .error bug => .error bug
        | .ok (0, rx) => .ok (rx, { c with rxTail }, false)
        | .ok (received, rx) =>
            (turnAdvance rx c rxTail received).map fun (rx, c) => (rx, c, true)

/-- `aml_sdio_usb_rxdataind` after the loop. -/
def rxdataindLeave (rx : Rx) (c : Call) : Rx :=
  if c.received ≠ 0 then amlSdioUsbRxConfirm rx else rx

/-- The pending reset at the start of `aml_sdio_usb_rxdataind`; `newTail` is what the device's
register holds. -/
def rxdataindReset (rx : Rx) (newTail : Nat) : Option Rx :=
  if rx.reset then
    if amlSdioUsbRxPosInRange rx.fw (clearWrap newTail) 0 then
      some { rx with
        reset := false
        frag0 := 0
        fw := { rx.fw with frag0 := 0, skip := 0, tail := newTail } }
    else none
  else some rx

/-- `aml_sdio_usb_rxdataind` up to the loop: the call goes on to the loop if its variables are
returned. -/
def rxdataindEnter (rx : Rx) (busErr : Bool) (newTail : Nat) : Except Bug (Rx × Option Call) :=
  if busErr then .ok (amlSdioUsbRxError rx, none)
  else if !rx.start then .ok (rx, none)
  else
    match rxdataindReset rx newTail with
    | none => .ok (rx, none)
    | some rx =>
        if rx.fw.tail = rx.fw.head then
          -- no new data, but the layout may be changing
          if rx.fw.state ≠ 0 ∨ rx.fw.confirmFlags ≠ 0 then .ok (amlSdioUsbRxConfirm rx, none)
          else .ok (rx, none)
        else
          (amlSdioUsbFwTailRestart rx (clearWrap rx.fw.tail)).map fun (rx, rxTail) =>
            (rx, some { rxHead := clearWrap rx.fw.head, rxTail, received := 0 })

/-! ## Stopping and restarting -/

/-- `aml_sdio_usb_rx_restart`. -/
def amlSdioUsbRxRestart (rx : Rx) : Rx :=
  let rx := { rx with reset := true }
  if rx.start then rx else amlSharedMemLayoutApply { rx with start := true } .expand

/-- `PREALLOC_BUF_TYPE_RXBUF_SIZE`. -/
def preallocBufTypeRxbufSize : Nat := 5 * 324 * 1024

/-- `RXBUF_END_ADDR_LARGE`, the last end any layout has. -/
def rxbufEndAddrLarge : Nat := 0x60069800

/-- What a driver is configured with: the layouts, and a buffer of the size asked for or, when
memory is short, of a half or a quarter of it. -/
structure Config where
  layouts : Layout → SharedmemLayout
  end_ge : ∀ layout, rxbufStartAddr + rxDescSize ≤ (layouts layout).rxEnd
  end_le : ∀ layout, (layouts layout).rxEnd ≤ rxbufEndAddrLarge
  bufSz : Nat
  bufSz_mem : bufSz ∈ [preallocBufTypeRxbufSize, preallocBufTypeRxbufSize / 2,
    preallocBufTypeRxbufSize / 4]

/-- `aml_sdio_usb_rx_init`. -/
def amlSdioUsbRxInit (config : Config) : Rx :=
  let bufSz := config.bufSz
  amlSharedMemLayoutApply
    { layouts := config.layouts
      start := false
      reset := false
      -- a dummy last descriptor
      buf := Memory.set32 (fun _ => 0) (amlRxDescNextPtr (bufSz - rxDescSize)) rxbufStartAddr
      bufSz
      head := 0
      tail := bufSz - rxDescSize
      last := bufSz - rxDescSize
      frag0 := 0
      fw :=
        { state := 0, head := rxbufStartAddr, tail := rxbufStartAddr, confirmFlags := 0
          rxEnd := 0, frag0 := 0, skip := 0 }
      txPage := 0 } .expand

/-! ## The system -/

/-- The receive path with the call of `aml_sdio_usb_rxdataind` in progress. -/
structure Host where
  rx : Rx
  call : Option Call

/-- What happens to the receive path.  The bus task handles one event at a time, so the head is
indicated and the path stopped or restarted between two calls only. -/
inductive Event
  /-- The firmware's head is read. -/
  | headInd (fwRxHead : Nat)
  /-- `aml_sdio_usb_rxdataind` is called. -/
  | dataind (busErr : Bool) (newTail : Nat)
  /-- The loop of the call makes a turn or ends. -/
  | turn (bus : Bus)
  /-- The receive task takes a descriptor. -/
  | put
  /-- `aml_sdio_usb_rx_stop`. -/
  | stop
  /-- `aml_sdio_usb_rx_restart`. -/
  | restart

/-- The loop of a call makes a turn, or the call ends. -/
def Host.turn (s : Host) (c : Call) (bus : Bus) : Except Bug Host :=
  if s.rx.fw.tail = s.rx.fw.head then .ok ⟨rxdataindLeave s.rx c, none⟩
  else
    match rxdataindTurn s.rx c bus with
    | .error bug => .error bug
    | .ok (rx, c, true) => .ok ⟨rx, some c⟩
    | .ok (rx, c, false) => .ok ⟨rxdataindLeave rx c, none⟩

/-- One event. -/
def Host.step (s : Host) : Event → Except Bug Host
  | .put => (amlSdioUsbRxBufPut s.rx).map fun (_, rx) => { s with rx }
  | .turn bus =>
      match s.call with
      | some c => s.turn c bus
      | none => .ok s
  | .headInd fwRxHead =>
      if s.call.isSome then .ok s else .ok { s with rx := amlSdioUsbFwRxHeadInd s.rx fwRxHead }
  | .dataind busErr newTail =>
      if s.call.isSome then .ok s
      else (rxdataindEnter s.rx busErr newTail).map fun (rx, call) => ⟨rx, call⟩
  | .stop => if s.call.isSome then .ok s else .ok { s with rx := { s.rx with start := false } }
  | .restart => if s.call.isSome then .ok s else .ok { s with rx := amlSdioUsbRxRestart s.rx }

/-- The receive path as `aml_sdio_usb_rx_init` leaves it. -/
def Host.init (config : Config) : Host := ⟨amlSdioUsbRxInit config, none⟩

end AmlW2.Ring
