import AmlW2.Ring.Tail

/-!
# The handshake over the layout

The firmware asks for a layout in its status word, the host confirms when it has drained and when it
has finished, and the firmware moves on as it reads the confirmations.  The host's word may reach
the device at once, with a later command on USB, or not at all while SDIO or the bus is suspended.
-/

namespace AmlW2.Ring

/-! ## The firmware -/

/-- The bit of the status word that asks for the layout. -/
def Layout.request : Layout → Nat
  | .narrow => fwBufferNarrow
  | .expand => fwBufferExpand

/-- The confirmation that the host has drained. -/
def Layout.drained : Layout → Nat
  | .narrow => rxReduceReadRxDataFinish
  | .expand => rxEnlargeReadRxDataFinish

/-- The confirmation that the host has finished. -/
def Layout.finish : Layout → Nat
  | .narrow => hostRxbufReduceFinish
  | .expand => hostRxbufEnlargeFinish

/-- Where the firmware is. -/
inductive Phase
  | idle
  /-- It has asked, and waits for the host to drain. -/
  | waiting (layout : Layout)
  /-- It has changed its buffer and cleared its request, and waits for the host to finish. -/
  | switched (layout : Layout)

/-- What the firmware asks for in the words it writes. -/
def Phase.request : Phase → Nat
  | .idle => 0
  | .waiting layout => layout.request
  | .switched _ => 0

/-- A status word with the given request. -/
def withRequest (word request : Nat) : Nat := word &&& 0xFFCFFFFF ||| request

/-- The request of a status word. -/
def requestOf (word : Nat) : Nat := word &&& (fwBufferNarrow ||| fwBufferExpand)

/-! ## The two parties -/

/-- The host, the bus and the firmware. -/
structure Handshake where
  host : Host
  /-- `aml_bus_type` is `USB_MODE`, else `SDIO_MODE`. -/
  usb : Bool
  /-- `aml_hw->state` is not `WIFI_SUSPEND_STATE_NONE`. -/
  suspended : Bool
  /-- `bus_suspend_cnt` is not 0: `aml_sdio_block_bus_opt` and `auc_bulk_msg` let nothing pass. -/
  down : Bool
  /-- `rx->fw.confirm.last` -/
  last : Nat
  /-- The confirmation embedded in the USB command buffer. -/
  embedded : Option Nat
  /-- `RG_WIFI_IF_FW2HST_IRQ_CFG`, the firmware's status word. -/
  register : Nat
  /-- The confirmation the device was last told. -/
  told : Nat
  phase : Phase
  asked : Nat
  finished : Nat
  /-- The `default` of the `switch` was taken. -/
  unexpected : Bool

/-- What can happen. -/
inductive HandshakeEvent
  /-- An event of the receive path, whose indications read the status word. -/
  | host (e : Event)
  /-- The firmware asks for a layout. -/
  | ask (layout : Layout)
  /-- The firmware writes its head. -/
  | report (word : Nat)
  /-- The firmware reads the confirmation. -/
  | take
  /-- A USB command carries the embedded confirmation. -/
  | carry
  /-- The driver is suspended or resumed. -/
  | suspend (suspended : Bool)
  /-- The bus is suspended or resumed. -/
  | bus (down : Bool)

/-- An indication of the head indicates what the status word holds. -/
def Event.polled (register : Nat) : Event → Event
  | .headInd _ => .headInd register
  | e => e

/-- The states the `switch` has a branch for. -/
def expectedStates : List Nat :=
  [fwBufferNarrow, fwBufferNarrow ||| rxReduceReadRxDataFinish, rxReduceReadRxDataFinish,
    fwBufferExpand, fwBufferExpand ||| rxEnlargeReadRxDataFinish, rxEnlargeReadRxDataFinish, 0]

/-- The word of a confirmation. -/
def confirmWord (rx : Rx) : Nat := (confirmSwitch rx).1 ||| (confirmSwitch rx).2.fw.tail

/-- A word tells that the host has finished. -/
def Finishing (word : Nat) : Prop :=
  hostFlags word = hostFlags hostRxbufReduceFinish ∨
    hostFlags word = hostFlags hostRxbufEnlargeFinish

instance (word : Nat) : Decidable (Finishing word) := inferInstanceAs (Decidable (_ ∨ _))

/-- What the call in progress has received. -/
def Host.received (s : Host) : Nat :=
  match s.call with
  | some c => c.received
  | none => 0

namespace Handshake

/-- The device is told a word. -/
def tell (s : Handshake) (word : Nat) : Handshake :=
  { s with told := word, finished := s.finished + if Finishing word then 1 else 0 }

/-- A USB command is sent; `auc_cmd_rxrd_clear` follows it. -/
def carry (s : Handshake) : Handshake :=
  match s.embedded with
  | none => s
  | some word => { s.tell word with embedded := none }

/-- On USB `aml_sdio_usb_rx_confirm` does not leave a new word to the next command. -/
def Direct (s : Handshake) (rx : Rx) (received : Nat) : Prop :=
  rx.fw.state ||| rx.fw.confirmFlags ≠ 0 ∨ (confirmSwitch rx).1 ≠ 0 ∨
    ((confirmSwitch rx).2.fw.rxEnd - rxbufStartAddr) / 4 ≤ received ∨ s.embedded ≠ none

instance (s : Handshake) (rx : Rx) (received : Nat) : Decidable (s.Direct rx received) :=
  inferInstanceAs (Decidable (_ ∨ _))

/-- A new word is written to the device at once, by `hi_sram_write`. -/
def Writes (s : Handshake) (rx : Rx) (received : Nat) : Prop :=
  s.down = false ∧ if s.usb then s.Direct rx received else s.suspended = false

instance (s : Handshake) (rx : Rx) (received : Nat) : Decidable (s.Writes rx received) :=
  inferInstanceAs (Decidable (_ ∧ _))

/-- What a read of the status word gives.  On USB the word is one of `fw_ptrs`, in memory. -/
def statusWord (s : Handshake) : Nat := if s.usb = false ∧ s.down = true then 0 else s.register

/-- The status word after a confirmation: on SDIO the host resets a head beyond the narrow end. -/
def registerAfter (s : Handshake) (rx : Rx) : Nat :=
  if s.usb = false ∧ s.down = false ∧ rx.fw.state ||| rx.fw.confirmFlags = fwBufferNarrow ∧
      (rx.layouts .narrow).rxEnd ≤ clearWrap rx.fw.head then
    -- `RXBUF_START_ADDR & SDIO_ADDR_MASK`
    rxbufStartAddr % sdioReadMax
  else s.register

/-- The part of `aml_sdio_usb_rx_confirm` that deals with the device. -/
def confirm (s : Handshake) (rx : Rx) (received : Nat) : Handshake :=
  let word := confirmWord rx
  let noted := { s with
    register := s.registerAfter rx
    unexpected := s.unexpected || !expectedStates.contains (rx.fw.state ||| rx.fw.confirmFlags) }
  if s.last = word then noted
  else if s.Writes rx received then { noted with last := word }.carry.tell word
  else if s.usb = true ∧ ¬s.Direct rx received then
    { noted with last := word, embedded := some word }
  else { noted with last := word }

/-- The firmware reads the confirmation and moves on. -/
def take (s : Handshake) : Handshake :=
  match s.phase with
  | .waiting layout =>
      if hostFlags s.told = hostFlags layout.drained then
        { s with phase := .switched layout, register := withRequest s.register 0 }
      else s
  | .switched layout =>
      if hostFlags s.told = hostFlags layout.finish then { s with phase := .idle } else s
  | .idle => s

/-- One event. -/
def step (s : Handshake) : HandshakeEvent → Except Bug Handshake
  | .host e =>
      match s.host.step (e.polled s.statusWord) with
      | .error bug => .error bug
      | .ok host =>
          match s.host.confirms (e.polled s.statusWord) with
          | none => .ok { s with host }
          | some rx => .ok { s.confirm rx s.host.received with host }
  | .ask layout =>
      match s.phase with
      | .idle =>
          .ok { s with
            phase := .waiting layout
            asked := s.asked + 1
            register := withRequest s.register layout.request }
      | _ => .ok s
  | .report word => .ok { s with register := withRequest word s.phase.request }
  | .take => .ok s.take
  | .carry => .ok (if s.down then s else s.carry)
  | .suspend suspended => .ok { s with suspended }
  | .bus down => .ok { s with down }

/-- Both parties before the first event. -/
def init (config : Config) (usb : Bool) : Handshake where
  host := .init config
  usb
  suspended := false
  down := false
  last := 0
  embedded := none
  register := 0
  told := 0
  phase := .idle
  asked := 0
  finished := 0
  unexpected := false

/-! ## What is claimed of the handshake -/

/-- A request is finished once, when the host has drained and the firmware has changed over. -/
def Counted (s : Handshake) : Prop :=
  match s.phase with
  | .idle => s.asked = s.finished
  | .waiting _ => s.asked = s.finished + 1
  | .switched _ => s.asked = s.finished ∨ s.asked = s.finished + 1

/-- The host meets no state it does not expect, finishes each request once, and its record is what
the device was last told. -/
structure Agreed (s : Handshake) : Prop where
  expected : s.unexpected = false
  counted : s.Counted
  told : s.last = s.told

/-- A new word is written at once, and the host does not finish before the firmware has changed
over. -/
def Synchronous (s : Handshake) : HandshakeEvent → Prop
  | .host e => ∀ rx, s.host.confirms (e.polled s.statusWord) = some rx →
      (confirmWord rx ≠ s.last → s.Writes rx s.host.received) ∧
      (rx.fw.state = 0 → ∀ layout, rx.fw.confirmFlags = layout.drained → s.phase ≠ .waiting layout)
  | _ => True

end Handshake

/-! ## Flags -/

theorem requestOf_withRequest (word : Nat) {request : Nat}
    (bits : request &&& (fwBufferNarrow ||| fwBufferExpand) = request) :
    requestOf (withRequest word request) = request := by
  have clear : 0xFFCFFFFF &&& (fwBufferNarrow ||| fwBufferExpand) = 0 := by decide
  rw [requestOf, withRequest, Nat.and_or_distrib_right, Nat.and_assoc, clear, Nat.and_zero,
    Nat.zero_or, bits]

theorem Phase.request_bits (phase : Phase) :
    phase.request &&& (fwBufferNarrow ||| fwBufferExpand) = phase.request := by
  cases phase with
  | idle => exact Nat.zero_and _
  | waiting layout => cases layout <;> decide
  | switched layout => exact Nat.zero_and _

/-- The flags that the `switch` chooses for a state of the firmware and the flags before. -/
def switchFlags (state flags : Nat) : Nat :=
  if state ||| flags = fwBufferNarrow then rxReduceReadRxDataFinish
  else if state ||| flags = fwBufferNarrow ||| rxReduceReadRxDataFinish then flags
  else if state ||| flags = rxReduceReadRxDataFinish then hostRxbufReduceFinish
  else if state ||| flags = fwBufferExpand then rxEnlargeReadRxDataFinish
  else if state ||| flags = fwBufferExpand ||| rxEnlargeReadRxDataFinish then flags
  else if state ||| flags = rxEnlargeReadRxDataFinish then hostRxbufEnlargeFinish
  else if state ||| flags = 0 then 0
  else flags

/-- The flags that a confirmation saves. -/
def savedFlags (state flags : Nat) : Nat :=
  if switchFlags state flags = hostRxbufReduceFinish ∨
      switchFlags state flags = hostRxbufEnlargeFinish then 0
  else switchFlags state flags

theorem confirmSwitch_flags (rx : Rx) :
    (confirmSwitch rx).1 = switchFlags rx.fw.state rx.fw.confirmFlags := by
  simp only [confirmSwitch, switchFlags]
  split_ifs <;> rfl

theorem confirm_state (rx : Rx) : (amlSdioUsbRxConfirm rx).fw.state = rx.fw.state := by
  simp only [amlSdioUsbRxConfirm, confirmSwitch, amlSharedMemLayoutApply]
  split_ifs <;> rfl

theorem confirm_flags (rx : Rx) :
    (amlSdioUsbRxConfirm rx).fw.confirmFlags = savedFlags rx.fw.state rx.fw.confirmFlags := by
  rw [savedFlags, ← confirmSwitch_flags]
  rfl

theorem hostFlags_confirmWord {rx : Rx} (situated : Situated rx) :
    hostFlags (confirmWord rx) = hostFlags (switchFlags rx.fw.state rx.fw.confirmFlags) := by
  have inside : InBuffer (confirmSwitch rx).2.fw.tail := situated.confirm.tail
  rw [confirmWord, hostFlags_or inside, confirmSwitch_flags]

/-! ## How far a request has come -/

/-- Neither confirmation that the host has drained. -/
def NotDrained (told : Nat) : Prop := ∀ layout : Layout, told ≠ hostFlags layout.drained

/-- How the two parties can stand: the firmware's phase, the host's copy of the request, the flags
the host saved, the request in the status word, the flags the device was told, and the requests that
are not finished. -/
inductive Stage : Phase → Nat → Nat → Nat → Nat → Nat → Prop
  | idle {told : Nat} (old : NotDrained told) : Stage .idle 0 0 0 told 0
  | asked {told state : Nat} (layout : Layout) (old : NotDrained told)
      (seen : state = 0 ∨ state = layout.request) :
      Stage (.waiting layout) state 0 layout.request told 1
  | drained {state register : Nat} (layout : Layout) (seen : state = 0 ∨ state = layout.request)
      (reset : register = 0 ∨ register = layout.request) :
      Stage (.waiting layout) state layout.drained register (hostFlags layout.drained) 1
  | switched {state : Nat} (layout : Layout) (seen : state = 0 ∨ state = layout.request) :
      Stage (.switched layout) state layout.drained 0 (hostFlags layout.drained) 1
  | finished {told : Nat} (layout : Layout) (old : NotDrained told) :
      Stage (.switched layout) 0 0 0 told 0

variable {phase : Phase} {state flags register told open' : Nat}

theorem notDrained_zero : NotDrained 0 := by
  intro layout
  cases layout <;> decide

theorem notDrained_finish (layout : Layout) : NotDrained (hostFlags layout.finish) := by
  intro other
  cases layout <;> cases other <;> decide

/-- The host reads the status word. -/
theorem Stage.poll (stage : Stage phase state flags register told open') :
    Stage phase register flags register told open' := by
  cases stage with
  | idle old => exact .idle old
  | asked layout old _ => exact .asked layout old (.inr rfl)
  | drained layout _ reset => exact .drained layout reset reset
  | switched layout _ => exact .switched layout (.inl rfl)
  | finished layout old => exact .finished layout old

/-- The firmware writes the status word. -/
theorem Stage.report (stage : Stage phase state flags register told open') :
    Stage phase state flags phase.request told open' := by
  cases stage with
  | idle old => exact .idle old
  | asked layout old seen => exact .asked layout old seen
  | drained layout seen _ => exact .drained layout seen (.inr rfl)
  | switched layout seen => exact .switched layout seen
  | finished layout old => exact .finished layout old

/-- The next confirmation. -/
structure Confirms (phase : Phase) (state flags register told open' : Nat) : Prop where
  expected : expectedStates.contains (state ||| flags) = true
  /-- A word that finishes is a new one. -/
  finish : Finishing (switchFlags state flags) → told ≠ hostFlags (switchFlags state flags)
  one : Finishing (switchFlags state flags) → open' = 1
  stage : Stage phase state (savedFlags state flags) register (hostFlags (switchFlags state flags))
    (open' - if Finishing (switchFlags state flags) then 1 else 0)
  /-- The host resets the status word only where it confirms a narrow request. -/
  reset : state ||| flags = fwBufferNarrow →
    Stage phase state (savedFlags state flags) 0 (hostFlags (switchFlags state flags))
      (open' - if Finishing (switchFlags state flags) then 1 else 0)

/-- The firmware asks for a layout. -/
theorem Stage.ask (stage : Stage .idle state flags register told open') (layout : Layout) :
    Stage (.waiting layout) state flags (Phase.waiting layout).request told 1 := by
  cases stage with
  | idle old => exact .asked layout old (.inl rfl)

/-- The firmware reads that the host has drained. -/
theorem Stage.takeDrained {layout : Layout}
    (stage : Stage (.waiting layout) state flags register told open')
    (read : told = hostFlags layout.drained) :
    Stage (.switched layout) state flags 0 told open' := by
  cases stage with
  | asked _ old seen => exact absurd read (old layout)
  | drained _ seen reset => exact .switched layout seen

/-- The firmware reads that the host has finished. -/
theorem Stage.takeFinish {layout : Layout}
    (stage : Stage (.switched layout) state flags register told open')
    (read : told = hostFlags layout.finish) : Stage .idle state flags register told open' := by
  cases stage with
  | switched _ seen => cases layout <;> exact absurd read (by decide)
  | finished _ old => exact .idle old

/-- The device was told of the drained buffer whose flags the host saved. -/
theorem Stage.told_drained {layout : Layout}
    (stage : Stage (.waiting layout) state flags register told open')
    (saved : flags = layout.drained) : told = hostFlags layout.drained := by
  cases stage with
  | asked _ old seen => cases layout <;> exact absurd saved (by decide)
  | drained _ seen reset => rfl

/-- How many requests are not finished in each phase. -/
theorem Stage.open_eq (stage : Stage phase state flags register told open') :
    match phase with
    | .idle => open' = 0
    | .waiting _ => open' = 1
    | .switched _ => open' = 0 ∨ open' = 1 := by
  cases stage with
  | idle old => rfl
  | asked layout old seen => rfl
  | drained layout seen reset => rfl
  | switched layout seen => exact .inr rfl
  | finished layout old => exact .inl rfl

/-- A confirmation that neither finishes a request nor answers a narrow one. -/
theorem Confirms.of_open (expected : expectedStates.contains (state ||| flags) = true)
    (going : ¬Finishing (switchFlags state flags)) (wide : state ||| flags ≠ fwBufferNarrow)
    (stage : Stage phase state (savedFlags state flags) register
      (hostFlags (switchFlags state flags)) open') :
    Confirms phase state flags register told open' := by
  refine ⟨expected, fun done => absurd done going, fun done => absurd done going, ?_,
    fun narrow => absurd narrow wide⟩
  rwa [if_neg going]

theorem Stage.confirms (stage : Stage phase state flags register told open')
    (ready : state = 0 → ∀ layout : Layout, flags = layout.drained → phase ≠ .waiting layout) :
    Confirms phase state flags register told open' := by
  cases stage with
  | idle old => exact .of_open (by decide) (by decide) (by decide) (.idle notDrained_zero)
  | asked layout old seen =>
      rcases seen with rfl | rfl
      · exact .of_open (by decide) (by decide) (by decide)
          (.asked layout notDrained_zero (.inl rfl))
      · cases layout with
        | narrow =>
            exact ⟨by decide, fun done => absurd done (by decide), fun _ => rfl,
              .drained .narrow (.inr rfl) (.inr rfl), fun _ =>
                .drained .narrow (.inr rfl) (.inl rfl)⟩
        | expand =>
            exact .of_open (by decide) (by decide) (by decide)
              (.drained .expand (.inr rfl) (.inr rfl))
  | drained layout seen reset =>
      rcases seen with rfl | rfl
      · exact absurd rfl (ready rfl layout rfl)
      · cases layout with
        | narrow =>
            exact .of_open (by decide) (by decide) (by decide) (.drained .narrow (.inr rfl) reset)
        | expand =>
            exact .of_open (by decide) (by decide) (by decide) (.drained .expand (.inr rfl) reset)
  | switched layout seen =>
      rcases seen with rfl | rfl
      · cases layout with
        | narrow =>
            exact ⟨by decide, fun _ => by decide, fun _ => rfl,
              .finished .narrow (notDrained_finish .narrow),
              fun narrow => absurd narrow (by decide)⟩
        | expand =>
            exact ⟨by decide, fun _ => by decide, fun _ => rfl,
              .finished .expand (notDrained_finish .expand),
              fun narrow => absurd narrow (by decide)⟩
      · cases layout with
        | narrow =>
            exact .of_open (by decide) (by decide) (by decide) (.switched .narrow (.inr rfl))
        | expand =>
            exact .of_open (by decide) (by decide) (by decide) (.switched .expand (.inr rfl))
  | finished layout old =>
      exact .of_open (by decide) (by decide) (by decide) (.finished layout notDrained_zero)

/-! ## Runs -/

namespace Handshake

variable {s : Handshake}

/-- The two parties are in step. -/
structure InStep (s : Handshake) : Prop where
  situated : Situated s.host.rx
  tracks : s.host.Tracks
  expected : s.unexpected = false
  told : s.last = s.told
  embedded : s.embedded = none
  stage : ∃ open', s.asked = s.finished + open' ∧
    Stage s.phase s.host.rx.fw.state s.host.rx.fw.confirmFlags (requestOf s.register)
      (hostFlags s.told) open'

theorem InStep.agreed (inStep : s.InStep) : s.Agreed := by
  obtain ⟨open', count, stage⟩ := inStep.stage
  have left := stage.open_eq
  refine ⟨inStep.expected, ?_, inStep.told⟩
  unfold Counted
  split at left <;> simp only [*] <;> omega

theorem init_inStep (config : Config) (usb : Bool) : (init config usb).InStep := by
  have register : requestOf 0 = 0 := by decide
  have told : hostFlags 0 = 0 := by decide
  refine ⟨init_situated config, init_tracks config, rfl, rfl, rfl, 0, rfl, ?_⟩
  show Stage .idle 0 0 (requestOf 0) (hostFlags 0) 0
  rw [register, told]
  exact .idle notDrained_zero

/-! ### Confirmations -/

/-- The status word after a confirmation asks for what it did before, or, reset by the host, for
nothing. -/
theorem requestOf_registerAfter (s : Handshake) (rx : Rx) :
    requestOf (s.registerAfter rx) = requestOf s.register ∨
      (rx.fw.state ||| rx.fw.confirmFlags = fwBufferNarrow ∧
          requestOf (s.registerAfter rx) = 0) := by
  unfold registerAfter
  split
  · next reset => exact .inr ⟨reset.2.2.1, by decide⟩
  · exact .inl rfl

/-- What a confirmation that is written at once, or is no new one, makes of the two parties. -/
theorem confirm_eq (embedded : s.embedded = none) (told : s.last = s.told) {rx : Rx}
    {received : Nat} (writes : confirmWord rx ≠ s.last → s.Writes rx received) :
    s.confirm rx received = { s with
      register := s.registerAfter rx
      unexpected := s.unexpected || !expectedStates.contains (rx.fw.state ||| rx.fw.confirmFlags)
      last := confirmWord rx
      told := confirmWord rx
      finished := s.finished +
        if s.last ≠ confirmWord rx ∧ Finishing (confirmWord rx) then 1 else 0 } := by
  obtain ⟨host, usb, suspended, down, last, embedded', register, told', phase, asked, finished,
    unexpected⟩ := s
  obtain rfl : embedded' = none := embedded
  obtain rfl : last = told' := told
  simp only at writes
  simp only [confirm]
  by_cases same : last = confirmWord rx
  · have again : ¬(last ≠ confirmWord rx ∧ Finishing (confirmWord rx)) := fun new => new.1 same
    rw [if_pos same, if_neg again, ← same]
    rfl
  · have written := writes fun new => same new.symm
    rw [if_neg same, if_pos written]
    by_cases done : Finishing (confirmWord rx)
    · rw [if_pos ⟨same, done⟩]
      simp only [carry, tell, if_pos done]
    · rw [if_neg fun both => done both.2]
      simp only [carry, tell, if_neg done]

theorem InStep.confirm (inStep : s.InStep) {host : Host} {rx : Rx} (quiet : Quiet s.host.rx rx)
    (tracks : host.Tracks) (after : host.rx = amlSdioUsbRxConfirm rx) {received : Nat}
    (writes : confirmWord rx ≠ s.last → s.Writes rx received)
    (ready : rx.fw.state = 0 → ∀ layout, rx.fw.confirmFlags = layout.drained →
      s.phase ≠ .waiting layout) : InStep { s.confirm rx received with host } := by
  obtain ⟨open', count, stage⟩ := inStep.stage
  rw [← quiet.state, ← quiet.confirmFlags] at stage
  have confirms := stage.confirms ready
  have word := hostFlags_confirmWord quiet.situated
  have finishing : Finishing (confirmWord rx) ↔
      Finishing (switchFlags rx.fw.state rx.fw.confirmFlags) := by
    rw [Finishing, Finishing, word]
  have new : s.last ≠ confirmWord rx ∧ Finishing (confirmWord rx) ↔
      Finishing (switchFlags rx.fw.state rx.fw.confirmFlags) := by
    refine ⟨fun both => finishing.mp both.2, fun done => ⟨fun same => ?_, finishing.mpr done⟩⟩
    apply confirms.finish done
    rw [← inStep.told, same, word]
  rw [confirm_eq inStep.embedded inStep.told writes]
  refine ⟨after ▸ quiet.situated.confirm, tracks, ?_, rfl, inStep.embedded, ?_⟩
  · dsimp only
    rw [inStep.expected, confirms.expected]
    rfl
  · have state_eq : host.rx.fw.state = rx.fw.state := by rw [after, confirm_state]
    have flags_eq : host.rx.fw.confirmFlags = savedFlags rx.fw.state rx.fw.confirmFlags := by
      rw [after, confirm_flags]
    have left : s.asked =
        (s.finished + if Finishing (switchFlags rx.fw.state rx.fw.confirmFlags) then 1 else 0) +
          (open' - if Finishing (switchFlags rx.fw.state rx.fw.confirmFlags) then 1 else 0) := by
      have one := confirms.one
      split_ifs with done
      · have := one done
        omega
      · omega
    refine ⟨_, by simp only [new]; exact left, ?_⟩
    simp only [state_eq, flags_eq, word]
    rcases requestOf_registerAfter s rx with same | ⟨narrow, reset⟩
    · rw [same]
      exact confirms.stage
    · rw [reset]
      exact confirms.reset narrow

/-! ### Single events -/

theorem polled_headInd {e : Event} {register : Nat} (indicates : (e.polled register).Indicates) :
    e.polled register = .headInd register := by
  cases e <;> first
    | rfl
    | exact absurd indicates id

/-- A status word that could not be read changes nothing. -/
theorem headInd_zero (h : Host) : h.step (.headInd 0) = .ok h := by
  rw [Host.step, amlSdioUsbFwRxHeadInd]
  simp only [true_or, if_true, ite_self]

/-- The host reads the status word. -/
theorem InStep.poll (inStep : s.InStep) {host : Host}
    (ran : s.host.step (.headInd s.statusWord) = .ok host) : InStep { s with host } := by
  obtain ⟨open', count, stage⟩ := inStep.stage
  have tracks := inStep.tracks.step ran
  rw [statusWord] at ran
  split at ran
  · rw [headInd_zero] at ran
    cases ran
    exact inStep
  rw [Host.step] at ran
  split at ran <;> cases ran
  · exact inStep
  · obtain ⟨situated, flags, state⟩ := inStep.situated.headInd s.register
    refine ⟨situated, tracks, inStep.expected, inStep.told, inStep.embedded, open', count, ?_⟩
    dsimp only
    rw [flags]
    rcases state with same | read
    · rw [same]
      exact stage
    · rw [read]
      exact stage.poll

theorem InStep.host (inStep : s.InStep) {e : Event} {next : Handshake}
    (synchronous : s.Synchronous (.host e)) (stepped : s.step (.host e) = .ok next) :
    next.InStep := by
  simp only [step] at stepped
  cases ran : s.host.step (e.polled s.statusWord) with
  | error bug =>
      rw [ran] at stepped
      cases stepped
  | ok host =>
      rw [ran] at stepped
      by_cases indicates : (e.polled s.statusWord).Indicates
      · have polled := polled_headInd indicates
        rw [polled] at ran stepped
        cases stepped
        exact inStep.poll ran
      · have reports := inStep.situated.reports inStep.tracks indicates ran
        have tracks := inStep.tracks.step ran
        rw [Host.Reports] at reports
        cases confirms : s.host.confirms (e.polled s.statusWord) with
        | none =>
            rw [confirms] at reports stepped
            cases stepped
            obtain ⟨open', count, stage⟩ := inStep.stage
            rw [← reports.state, ← reports.confirmFlags] at stage
            exact ⟨reports.situated, tracks, inStep.expected, inStep.told, inStep.embedded,
              open', count, stage⟩
        | some rx =>
            rw [confirms] at reports stepped
            cases stepped
            obtain ⟨writes, ready⟩ := synchronous rx confirms
            exact inStep.confirm reports.1 tracks reports.2 writes ready

/-- The firmware moves on only when the host has come so far. -/
theorem InStep.take (inStep : s.InStep) : s.take.InStep := by
  obtain ⟨open', count, stage⟩ := inStep.stage
  have clear : requestOf (withRequest s.register 0) = 0 := requestOf_withRequest _ (Nat.zero_and _)
  unfold Handshake.take
  split
  · next layout waiting =>
      split
      · next drained =>
          rw [waiting] at stage
          refine ⟨inStep.situated, inStep.tracks, inStep.expected, inStep.told, inStep.embedded,
            open', count, ?_⟩
          dsimp only
          rw [clear]
          exact stage.takeDrained drained
      · exact inStep
  · next layout switched =>
      split
      · next finish =>
          rw [switched] at stage
          exact ⟨inStep.situated, inStep.tracks, inStep.expected, inStep.told, inStep.embedded,
            open', count, stage.takeFinish finish⟩
      · exact inStep
  · exact inStep

theorem InStep.step (inStep : s.InStep) {event : HandshakeEvent} {next : Handshake}
    (synchronous : s.Synchronous event) (stepped : s.step event = .ok next) : next.InStep := by
  obtain ⟨open', count, stage⟩ := inStep.stage
  cases event with
  | host e => exact inStep.host synchronous stepped
  | ask layout =>
      simp only [Handshake.step] at stepped
      split at stepped
      · next idle =>
          cases stepped
          rw [idle] at stage
          obtain rfl : open' = 0 := stage.open_eq
          refine ⟨inStep.situated, inStep.tracks, inStep.expected, inStep.told, inStep.embedded, 1,
            by dsimp only; omega, ?_⟩
          have asks : requestOf (withRequest s.register layout.request) = layout.request :=
            requestOf_withRequest _ (Phase.request_bits (.waiting layout))
          dsimp only
          rw [asks]
          exact stage.ask layout
      · cases stepped
        exact inStep
  | report word =>
      cases stepped
      refine ⟨inStep.situated, inStep.tracks, inStep.expected, inStep.told, inStep.embedded, open',
        count, ?_⟩
      dsimp only
      rw [requestOf_withRequest _ s.phase.request_bits]
      exact stage.report
  | take =>
      cases stepped
      exact inStep.take
  | carry =>
      have carried : s.carry = s := by rw [carry, inStep.embedded]
      rw [Handshake.step, carried, ite_self] at stepped
      cases stepped
      exact inStep
  | suspend suspended =>
      cases stepped
      exact ⟨inStep.situated, inStep.tracks, inStep.expected, inStep.told, inStep.embedded, open',
        count, stage⟩
  | bus down =>
      cases stepped
      exact ⟨inStep.situated, inStep.tracks, inStep.expected, inStep.told, inStep.embedded, open',
        count, stage⟩

/-! ### Confirmations out of step -/

/-- A word that is not written at once is on record and not told. -/
theorem confirm_unwritten (told : s.last = s.told) {rx : Rx} {received : Nat}
    (new : confirmWord rx ≠ s.last) (unwritten : ¬s.Writes rx received) :
    (s.confirm rx received).last ≠ (s.confirm rx received).told := by
  unfold confirm
  rw [if_neg new.symm, if_neg unwritten]
  split
  · exact told ▸ new
  · exact told ▸ new

/-- What the host confirms once the firmware has cleared its request. -/
theorem switchFlags_drained (layout : Layout) : switchFlags 0 layout.drained = layout.finish := by
  cases layout <;> decide

/-- A request finished before the firmware has changed over. -/
theorem InStep.confirm_early (inStep : s.InStep) {rx : Rx} (quiet : Quiet s.host.rx rx)
    {received : Nat} (writes : confirmWord rx ≠ s.last → s.Writes rx received)
    (state : rx.fw.state = 0) {layout : Layout} (flags : rx.fw.confirmFlags = layout.drained)
    (waiting : s.phase = .waiting layout) : ¬(s.confirm rx received).Counted := by
  obtain ⟨open', count, stage⟩ := inStep.stage
  rw [waiting] at stage
  obtain rfl : open' = 1 := stage.open_eq
  have told := stage.told_drained (quiet.confirmFlags.symm.trans flags)
  have word : hostFlags (confirmWord rx) = hostFlags layout.finish := by
    rw [hostFlags_confirmWord quiet.situated, state, flags, switchFlags_drained]
  have new : s.last ≠ confirmWord rx := by
    intro same
    rw [← inStep.told, same, word] at told
    exact notDrained_finish layout layout told
  have done : Finishing (confirmWord rx) := by
    rw [Finishing, word]
    cases layout <;> decide
  rw [confirm_eq inStep.embedded inStep.told writes]
  simp only [Counted, waiting, if_pos (And.intro new done)]
  omega

theorem host_step_of_confirms {h : Host} {e : Event} {rx : Rx} (confirms : h.confirms e = some rx) :
    ∃ next, h.step e = .ok next := by
  cases e with
  | turn bus =>
      rw [Host.confirms] at confirms
      cases call : h.call with
      | none =>
          rw [call] at confirms
          cases confirms
      | some c =>
          rw [call, Option.bind_some, Host.turnConfirms] at confirms
          rw [Host.step, call]
          simp only [Host.turn]
          split_ifs at confirms ⊢ with drained
          · exact ⟨_, rfl⟩
          · split at confirms
            · next turned =>
                rw [turned]
                exact ⟨_, rfl⟩
            · cases confirms
  | dataind busErr newTail =>
      rw [Host.confirms] at confirms
      split_ifs at confirms with idle
      rw [not_or, not_or] at idle
      cases reset : rxdataindReset h.rx newTail with
      | none =>
          rw [reset] at confirms
          cases confirms
      | some rx₁ =>
          rw [reset] at confirms
          simp only at confirms
          split_ifs at confirms with drained
          rw [Host.step, if_neg idle.1, rxdataindEnter, if_neg idle.2.1, if_neg idle.2.2, reset]
          simp only [if_pos drained.1, if_pos drained.2]
          exact ⟨_, rfl⟩
  | headInd word => cases confirms
  | put => cases confirms
  | stop => cases confirms
  | restart => cases confirms

/-- Where a confirmation is not synchronous, the parties no longer agree. -/
theorem InStep.asynchronous (inStep : s.InStep) {event : HandshakeEvent}
    (asynchronous : ¬s.Synchronous event) : ∃ next, s.step event = .ok next ∧ ¬next.Agreed := by
  cases event with
  | host e =>
      simp only [Synchronous, not_forall] at asynchronous
      obtain ⟨rx, confirms, wrong⟩ := asynchronous
      have other : ¬(e.polled s.statusWord).Indicates := by
        intro indicates
        rw [polled_headInd indicates] at confirms
        cases confirms
      obtain ⟨host, ran⟩ := host_step_of_confirms confirms
      have reports := inStep.situated.reports inStep.tracks other ran
      rw [Host.Reports, confirms] at reports
      refine ⟨{ s.confirm rx s.host.received with host },
        by simp only [Handshake.step, ran, confirms], ?_⟩
      intro agreed
      by_cases writes : confirmWord rx ≠ s.last → s.Writes rx s.host.received
      · apply wrong
        exact ⟨writes, fun state layout flags waiting =>
          inStep.confirm_early reports.1 writes state flags waiting agreed.counted⟩
      · rw [Classical.not_imp] at writes
        exact confirm_unwritten inStep.told writes.1 writes.2 agreed.told
  | ask layout => exact absurd trivial asynchronous
  | report word => exact absurd trivial asynchronous
  | take => exact absurd trivial asynchronous
  | carry => exact absurd trivial asynchronous
  | suspend suspended => exact absurd trivial asynchronous
  | bus down => exact absurd trivial asynchronous

/-- In every run, with any suspends and resumes, the host and the firmware agree throughout just
when every confirmation is synchronous. -/
theorem agreed_iff_synchronous (config : Config) (usb : Bool) (events : List HandshakeEvent) :
    Run.Throughout step Agreed events (init config usb) ↔
      Run.Guarded step Synchronous events (init config usb) := by
  have kept : ∀ (s : Handshake) (event : HandshakeEvent) (next : Handshake), s.InStep → True →
      s.Synchronous event → s.step event = .ok next → next.InStep :=
    fun _ _ _ inStep _ synchronous stepped => inStep.step synchronous stepped
  refine Run.throughout_iff_guarded kept (fun s inStep => inStep.agreed) ?_ (fun _ _ => trivial)
    (init_inStep config usb)
  exact fun s event inStep _ asynchronous => inStep.asynchronous asynchronous

end Handshake

/-! ## A request answered while suspended -/

/-- SDIO is suspended when the host answers a request for the narrow layout.  After the resume the
host looks again. -/
def answeredAsleep : List HandshakeEvent :=
  [.host .restart, .report rxbufStartAddr, .ask .narrow, .suspend true, .host (.headInd 0),
    .host (.dataind false rxbufStartAddr), .suspend false, .host (.headInd 0),
    .host (.dataind false rxbufStartAddr)]

/-- The host has the answer on record, and the device was told nothing. -/
theorem answeredAsleep_unheard :
    ∃ s, Run.run Handshake.step answeredAsleep (.init sdioConfig false) = .ok s ∧
      s.last = rxReduceReadRxDataFinish ||| rxbufStartAddr ∧ s.told = 0 ∧ ¬s.Agreed := by
  obtain ⟨s, ran, words⟩ := Run.ends_of_toOption
    (show (Run.run Handshake.step answeredAsleep (.init sdioConfig false)).toOption.map
        (fun s => (s.last, s.told)) = some (rxReduceReadRxDataFinish ||| rxbufStartAddr, 0) by
      decide +kernel)
  obtain ⟨last, told⟩ := Prod.mk.inj words
  refine ⟨s, ran, last, told, fun agreed => ?_⟩
  have same := agreed.told
  rw [last, told] at same
  exact absurd same (by decide)

end AmlW2.Ring
