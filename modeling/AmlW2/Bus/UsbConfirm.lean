import AmlW2.Bus.UsbCommand
import AmlW2.Lib.Rereads
import AmlW2.Lib.Run

/-!
# Confirmations on USB

The read pointer of the receive ring goes to the firmware in a write of its own, or it is embedded
in the command block and goes with whatever is sent next.  Transfers fail, the bus is suspended, and
the block of a read goes out with the pointer still in it.  For each run of the driver on the bus,
this file says what the device gets of the confirmations, and in which order.
-/

namespace AmlW2.Bus

/-- `CMD_DOWN_FIFO_FDH_ADDR`. -/
def cmdDownFifoFdhAddr : Nat := 0x00a10038

/-- What becomes of a bulk message that is sent. -/
inductive Outcome
  | done
  /-- It fails, and the device does not get it. -/
  | lost
  /-- It fails, yet the device gets it. -/
  | unacknowledged
  deriving DecidableEq, Repr

/-- How `auc_bulk_msg` goes. -/
structure Bulk where
  /-- The bus is suspended, shut down or being reset. -/
  refused : Bool
  outcome : Outcome
  /-- A failure is a bus error: the driver is loaded and no recovery is going on. -/
  watched : Bool
  deriving DecidableEq, Repr

/-- What the driver does on the bus. -/
inductive Command
  /-- A command that is built by `auc_build_cbw` and followed by no `auc_cmd_rxrd_clear`. -/
  | order (order : Order)
  /-- `auc_write_sram_by_ep`, of anything but a confirmation. -/
  | writeSram (addr len : Nat) (data : Nat → UInt8) (other : addr ≠ cmdDownFifoFdhAddr)
  /-- `w2_usb_send_frame`. -/
  | sendFrame (trb : TxTrbInfo)
  /-- `aml_sdio_usb_rx_confirm` with a new word; it is not to wait when the layout changes or much
  has been received. -/
  | confirm (word : UInt32) (direct : Bool)

/-- A command and what it meets. -/
structure UsbEvent where
  command : Command
  /-- `coex_flag` -/
  coex : Bool
  /-- `bus_state_detect.bus_reset_ongoing` -/
  resetOngoing : Bool
  cmdStage : Bulk
  /-- There is a buffer for the data stage. -/
  buffer : Bool
  dataStage : Bulk

/-- The driver, and what the device got. -/
structure Usb where
  /-- `g_cmd_buf` -/
  cbw : Cbw
  /-- `bus_state_detect.bus_err` -/
  busErr : Bool
  /-- The confirmations, in order. -/
  issued : List Nat
  /-- The read pointers that the device got, with every block and in the writes of their own. -/
  seen : List Nat
  /-- Those that came with a write. -/
  told : List Nat

/-- A frame with more packets than `struct tx_trb_info_ex` has sizes. -/
inductive Overrun
  | packets
  deriving DecidableEq, Repr

namespace Usb

/-- `auc_probe`. -/
def probe : Usb where
  cbw := ⟨0, 0, 0, 0, 0, 0, fun _ => 0, fun _ => 0⟩
  busErr := false
  issued := []
  seen := []
  told := []

/-- The device gets read pointers. -/
def hear (s : Usb) (seen told : List Nat) : Usb :=
  { s with seen := s.seen ++ seen, told := s.told ++ told }

/-- `auc_bulk_msg` of a message with read pointers in it; whether it succeeds. -/
def aucBulkMsg (s : Usb) (bulk : Bulk) (seen told : List Nat) : Bool × Usb :=
  if bulk.refused || s.busErr then (false, s)
  else
    match bulk.outcome with
    | .done => (true, s.hear seen told)
    | .lost => (false, { s with busErr := bulk.watched })
    | .unacknowledged => (false, { s.hear seen told with busErr := bulk.watched })

/-- `auc_cmd_rxrd_clear`. -/
def rxrdClear (s : Usb) : Usb := { s with cbw := aucCmdRxrdClear s.cbw }

/-- The word of a confirmation in the data of a write. -/
def wordIn (addr : Nat) (data : Memory) : List Nat :=
  if addr = cmdDownFifoFdhAddr then [data.u32 4] else []

/-- `auc_write_sram_by_ep` where the data go with the command. -/
def writeCarried (s : Usb) (e : UsbEvent) (order : Order) (data : Nat → UInt8) : Usb :=
  let s := { s with cbw := aucBuildCbwAddData s.cbw order data }
  let words := s.cbw.embedded.toList ++ wordIn order.addr s.cbw.carriedData
  let (success, s) := s.aucBulkMsg e.cmdStage words words
  if success then
    let s := s.rxrdClear
    { s with cbw := { s.cbw with resv := s.cbw.resv.put 479 2 fun _ => 0 } }
  else s

/-- `auc_write_sram_by_ep` with a data stage. -/
def writeStaged (s : Usb) (e : UsbEvent) (order : Order) (data : Nat → UInt8) : Usb :=
  let s := { s with cbw := aucBuildCbw s.cbw order }
  let (success, s) := s.aucBulkMsg e.cmdStage s.cbw.embedded.toList s.cbw.embedded.toList
  if success then
    let s := s.rxrdClear
    if e.buffer then (s.aucBulkMsg e.dataStage (wordIn order.addr data) (wordIn order.addr data)).2
    else s
  else s

/-- `auc_write_sram_by_ep_for_wifi`, with `auc_write_sram_by_ep`. -/
def writeSram (s : Usb) (e : UsbEvent) (addr len : Nat) (data : Nat → UInt8) : Usb :=
  if len = 0 ∨ s.busErr = true ∨ e.resetOngoing = true then s
  else
    let order : Order := ⟨amlXferToDevice, len, cmdWriteSram, addr, 0, len⟩
    if e.coex = true ∧ len < min usbTxcmdCarryRxrdIndex writeSramDataLen then
      s.writeCarried e order data
    else s.writeStaged e order data

/-- `w2_usb_send_frame`. -/
def sendFrame (s : Usb) (e : UsbEvent) (trb : TxTrbInfo) : Except Overrun Usb :=
  if s.busErr = true ∨ e.resetOngoing = true then .ok s
  else if 128 < trb.packetNum then .error .packets
  else
    let s := { s with cbw := trb.build s.cbw (UInt8.ofNat cmdWritePacket) }
    let (success, s) := s.aucBulkMsg e.cmdStage s.cbw.embedded.toList s.cbw.embedded.toList
    .ok (if success then s.rxrdClear else s)

/-- The data of `__aml_sdio_usb_rx_confirm`. -/
def confirmData (word : UInt32) : Memory :=
  (Memory.set32 (fun _ => 0) 0 1).set32 4 word.toNat

/-- The end of `aml_sdio_usb_rx_confirm`. -/
def rxConfirm (s : Usb) (e : UsbEvent) (word : UInt32) (direct : Bool) : Usb :=
  let s := { s with issued := s.issued ++ [word.toNat] }
  if direct = true then s.writeSram e cmdDownFifoFdhAddr 8 (confirmData word)
  else
    match aucCmdRxrdSet s.cbw word.toNat with
    | none => s.writeSram e cmdDownFifoFdhAddr 8 (confirmData word)
    | some cbw => { s with cbw }

/-- A command is carried out. -/
def step (s : Usb) (e : UsbEvent) : Except Overrun Usb :=
  match e.command with
  | .order order =>
      let s := { s with cbw := aucBuildCbw s.cbw order }
      .ok (s.aucBulkMsg e.cmdStage s.cbw.embedded.toList []).2
  | .writeSram addr len data _ => .ok (s.writeSram e addr len data)
  | .sendFrame trb => s.sendFrame e trb
  | .confirm word direct => .ok (s.rxConfirm e word direct)

/-! ## What the device gets -/

/-- The device has got confirmations in their order, and with the writes none of them twice. -/
def Sound (s : Usb) : Prop := Rereads s.issued s.seen ∧ s.told.Sublist s.issued

/-- It may get these as well. -/
def Open (s : Usb) (words : List Nat) : Prop :=
  Rereads s.issued (s.seen ++ words) ∧ (s.told ++ words).Sublist s.issued

/-- What holds between two commands: until the bus fails, the read pointer in the block may be
sent. -/
structure Informed (s : Usb) : Prop where
  flagged : s.cbw.Flagged
  sound : s.Sound
  waiting : s.busErr = false → s.Open s.cbw.embedded.toList

variable {s : Usb}

theorem Open.sound {words : List Nat} (opened : s.Open words) : s.Sound :=
  ⟨opened.1.of_append, (List.sublist_append_left _ _).trans opened.2⟩

theorem Open.of_append {words more : List Nat} (opened : s.Open (words ++ more)) :
    s.Open words := by
  have seen := opened.1
  have told := opened.2
  rw [← List.append_assoc] at seen told
  exact ⟨seen.of_append, (List.sublist_append_left _ _).trans told⟩

/-- What it may get, it gets. -/
theorem Open.hear {words more : List Nat} (opened : s.Open (words ++ more)) :
    (s.hear words words).Open more := by
  have seen := opened.1
  have told := opened.2
  rw [← List.append_assoc] at seen told
  exact ⟨seen, told⟩

theorem aucBulkMsg_cases {bulk : Bulk} (watched : bulk.watched = true) (seen told : List Nat) :
    s.aucBulkMsg bulk seen told = (true, s.hear seen told) ∨
      s.aucBulkMsg bulk seen told = (false, s) ∨
      s.aucBulkMsg bulk seen told = (false, { s with busErr := true }) ∨
      s.aucBulkMsg bulk seen told = (false, { s.hear seen told with busErr := true }) := by
  rw [aucBulkMsg]
  split
  · exact Or.inr (Or.inl rfl)
  · cases bulk.outcome with
    | done => exact Or.inl rfl
    | lost => rw [watched]; exact Or.inr (Or.inr (Or.inl rfl))
    | unacknowledged => rw [watched]; exact Or.inr (Or.inr (Or.inr rfl))

theorem Informed.fail (flagged : s.cbw.Flagged) (sound : s.Sound) :
    Informed { s with busErr := true } :=
  ⟨flagged, sound, fun healthy => by cases healthy⟩

/-- A block without a read pointer, after what was to be got. -/
theorem Informed.cleared {cbw : Cbw} (flagged : cbw.Flagged) (free : cbw.embedded = none)
    (sound : s.Sound) : Informed { s with cbw } := by
  refine ⟨flagged, sound, fun _ => ?_⟩
  rw [free]
  have seen := sound.1
  have told := sound.2
  rw [← List.append_nil s.seen] at seen
  rw [← List.append_nil s.told] at told
  exact ⟨seen, told⟩

/-! ## One command -/

theorem wordIn_of_ne {addr : Nat} (other : addr ≠ cmdDownFifoFdhAddr) (data : Memory) :
    wordIn addr data = [] := if_neg other

theorem wordIn_confirm (word : UInt32) :
    wordIn cmdDownFifoFdhAddr (confirmData word) = [word.toNat] := by
  rw [wordIn, if_pos rfl, confirmData, Memory.u32_set32 word.toNat_lt]

/-- The word is the same in the block and in the data it was built from. -/
theorem wordIn_carried (cbw : Cbw) (order : Order) (data : Nat → UInt8)
    (short : order.len < usbTxcmdCarryRxrdIndex)
    (whole : order.addr = cmdDownFifoFdhAddr → 8 ≤ order.len) :
    wordIn order.addr (aucBuildCbwAddData cbw order data).carriedData = wordIn order.addr data := by
  by_cases confirms : order.addr = cmdDownFifoFdhAddr
  · have long := whole confirms
    have same := (carriedData_addData cbw order data short).drop 4
    rw [Nat.zero_add] at same
    rw [wordIn, wordIn, if_pos confirms, if_pos confirms, same.u32_eq (by omega)]
  · rw [wordIn_of_ne confirms, wordIn_of_ne confirms]

/-- A block is sent: the device gets what is in it, or what may be got later stays as it is. -/
theorem aucBulkMsg_write {bulk : Bulk} {words more : List Nat} {success : Bool} {after : Usb}
    (sent : s.aucBulkMsg bulk words words = (success, after)) (watched : bulk.watched = true)
    (flagged : s.cbw.Flagged) (ready : s.busErr = false → s.Open s.cbw.embedded.toList)
    (opened : s.Open (words ++ more)) :
    (success = false → after.Informed) ∧
      (success = true → after.cbw = s.cbw ∧ after.Open more) := by
  rcases aucBulkMsg_cases watched words words with done | refused | lost | mute
  · rw [done] at sent
    cases sent
    exact ⟨fun failed => (by cases failed), fun _ => ⟨rfl, opened.hear⟩⟩
  · rw [refused] at sent
    cases sent
    exact ⟨fun _ => ⟨flagged, opened.sound, ready⟩, fun passed => (by cases passed)⟩
  · rw [lost] at sent
    cases sent
    exact ⟨fun _ => Informed.fail flagged opened.sound, fun passed => (by cases passed)⟩
  · rw [mute] at sent
    cases sent
    have heard : (s.hear words words).Sound := opened.hear.sound
    exact ⟨fun _ => Informed.fail flagged heard, fun passed => (by cases passed)⟩

/-- A new block with the read pointer of the old one. -/
theorem Open.rebuilt {cbw : Cbw} {words : List Nat}
    (opened : s.Open (s.cbw.embedded.toList ++ words)) (slot : cbw.SameSlot s.cbw) :
    Open { s with cbw } (cbw.embedded.toList ++ words) := by
  rw [slot.embedded]
  exact opened

theorem writeCarried_informed {e : UsbEvent} {order : Order} {data : Nat → UInt8}
    (watched : e.cmdStage.watched = true) (flagged : s.cbw.Flagged)
    (opened : s.Open (s.cbw.embedded.toList ++ wordIn order.addr data))
    (short : order.len < usbTxcmdCarryRxrdIndex)
    (whole : order.addr = cmdDownFifoFdhAddr → 8 ≤ order.len) :
    (s.writeCarried e order data).Informed := by
  have slot := sameSlot_addData s.cbw order data short
  have kept := slot.flagged flagged
  have built := opened.rebuilt slot
  rw [writeCarried]
  dsimp only
  rw [wordIn_carried s.cbw order data short whole]
  generalize sent : aucBulkMsg _ _ _ _ = result
  obtain ⟨success, after⟩ := result
  have whole' := built
  rw [← List.append_nil (_ ++ _)] at whole'
  obtain ⟨failed, passed⟩ := aucBulkMsg_write sent watched kept (fun _ => built.of_append) whole'
  cases success with
  | false => exact failed rfl
  | true =>
      obtain ⟨_, rest⟩ := passed rfl
      have blank := sameSlot_marks (aucCmdRxrdClear after.cbw) fun _ => 0
      exact Informed.cleared (blank.flagged (flagged_clear _))
        (blank.embedded.trans (embedded_clear _)) rest.sound

theorem writeStaged_informed {e : UsbEvent} {order : Order} {data : Nat → UInt8}
    (watched : e.cmdStage.watched = true) (watched' : e.dataStage.watched = true)
    (flagged : s.cbw.Flagged)
    (opened : s.Open (s.cbw.embedded.toList ++ wordIn order.addr data)) :
    (s.writeStaged e order data).Informed := by
  have slot := sameSlot_buildCbw s.cbw order
  have built := opened.rebuilt slot
  rw [writeStaged]
  dsimp only
  generalize sent : aucBulkMsg _ _ _ _ = result
  obtain ⟨success, after⟩ := result
  obtain ⟨failed, passed⟩ := aucBulkMsg_write sent watched (slot.flagged flagged)
    (fun _ => built.of_append) built
  cases success with
  | false => exact failed rfl
  | true =>
      obtain ⟨_, rest⟩ := passed rfl
      have free : after.rxrdClear.cbw.embedded = none := embedded_clear _
      have clean : after.rxrdClear.cbw.Flagged := flagged_clear _
      have cleared : after.rxrdClear.Informed := Informed.cleared clean free rest.sound
      dsimp only
      rw [if_pos rfl]
      split
      · have open' : after.rxrdClear.Open (wordIn order.addr data ++ []) := by
          rw [List.append_nil]
          exact rest
        generalize sent' : aucBulkMsg _ _ _ _ = result
        obtain ⟨success', after'⟩ := result
        obtain ⟨failed', passed'⟩ := aucBulkMsg_write sent' watched' clean cleared.waiting open'
        cases success' with
        | false => exact failed' rfl
        | true =>
            obtain ⟨block, last⟩ := passed' rfl
            have final := Informed.cleared (s := after') clean free last.sound
            rw [← block] at final
            exact final
      · exact cleared

/-- A write in which the device may get its words. -/
theorem writeSram_informed {e : UsbEvent} {addr len : Nat} {data : Nat → UInt8}
    (watched : e.cmdStage.watched = true) (watched' : e.dataStage.watched = true)
    (flagged : s.cbw.Flagged) (sound : s.Sound)
    (opened : s.busErr = false → s.Open (s.cbw.embedded.toList ++ wordIn addr data))
    (whole : addr = cmdDownFifoFdhAddr → 8 ≤ len) : (s.writeSram e addr len data).Informed := by
  rw [writeSram]
  split
  · exact ⟨flagged, sound, fun healthy => (opened healthy).of_append⟩
  · rename_i begun
    have healthy : s.busErr = false := by
      rw [Bool.eq_false_iff]
      exact fun failed => begun (Or.inr (Or.inl failed))
    dsimp only
    split
    · rename_i short
      exact writeCarried_informed watched flagged (opened healthy)
        (Nat.lt_of_lt_of_le short.2 (Nat.min_le_left _ _)) whole
    · exact writeStaged_informed watched watched' flagged (opened healthy)

theorem Informed.writeSram {e : UsbEvent} {addr len : Nat} {data : Nat → UInt8}
    (informed : s.Informed) (watched : e.cmdStage.watched = true)
    (watched' : e.dataStage.watched = true) (other : addr ≠ cmdDownFifoFdhAddr) :
    (s.writeSram e addr len data).Informed := by
  apply writeSram_informed watched watched' informed.flagged informed.sound
  · intro healthy
    rw [wordIn_of_ne other, List.append_nil]
    exact informed.waiting healthy
  · exact fun same => absurd same other

theorem Informed.sendFrame {e : UsbEvent} {trb : TxTrbInfo} {after : Usb}
    (informed : s.Informed) (watched : e.cmdStage.watched = true)
    (ran : s.sendFrame e trb = .ok after) : after.Informed := by
  rw [Usb.sendFrame] at ran
  split at ran
  · cases ran
    exact informed
  · rename_i begun
    have healthy : s.busErr = false := by
      rw [Bool.eq_false_iff]
      exact fun failed => begun (Or.inl failed)
    split at ran
    · cases ran
    · rename_i few
      have slot := trb.sameSlot_build s.cbw (UInt8.ofNat cmdWritePacket) (by omega)
      have waiting := informed.waiting healthy
      rw [← List.append_nil s.cbw.embedded.toList] at waiting
      have built := waiting.rebuilt slot
      dsimp only at ran
      generalize sent : aucBulkMsg _ _ _ _ = result at ran
      obtain ⟨success, after'⟩ := result
      obtain ⟨failed, passed⟩ := aucBulkMsg_write sent watched (slot.flagged informed.flagged)
        (fun _ => built.of_append) built
      cases ran
      cases success with
      | false => exact failed rfl
      | true =>
          obtain ⟨_, rest⟩ := passed rfl
          exact Informed.cleared (flagged_clear _) (embedded_clear _) rest.sound

/-- A confirmation is issued. -/
def issue (s : Usb) (word : Nat) : Usb := { s with issued := s.issued ++ [word] }

theorem Sound.issue (sound : s.Sound) (word : Nat) : (s.issue word).Sound :=
  ⟨sound.1.missed word, sound.2.trans (List.sublist_append_left _ _)⟩

/-- The new confirmation may be got after what may be got anyway. -/
theorem Open.issue {words : List Nat} (opened : s.Open words) (word : Nat) :
    (s.issue word).Open (words ++ [word]) := by
  have seen := opened.1.first word
  rw [List.append_assoc] at seen
  refine ⟨seen, ?_⟩
  rw [← List.append_assoc]
  exact opened.2.append (List.Sublist.refl [word])

theorem Informed.confirmDirectly {e : UsbEvent} {word : UInt32} (informed : s.Informed)
    (watched : e.cmdStage.watched = true) (watched' : e.dataStage.watched = true) :
    ((s.issue word.toNat).writeSram e cmdDownFifoFdhAddr 8 (confirmData word)).Informed := by
  apply writeSram_informed (s := s.issue word.toNat) watched watched' informed.flagged
    (informed.sound.issue word.toNat)
  · intro healthy
    rw [wordIn_confirm]
    exact (informed.waiting healthy).issue word.toNat
  · exact fun _ => le_refl 8

theorem Informed.rxConfirm {e : UsbEvent} (informed : s.Informed)
    (watched : e.cmdStage.watched = true) (watched' : e.dataStage.watched = true)
    (word : UInt32) (direct : Bool) : (s.rxConfirm e word direct).Informed := by
  rw [Usb.rxConfirm]
  dsimp only
  split
  · exact informed.confirmDirectly watched watched'
  · rcases aucCmdRxrdSet_cases informed.flagged word.toNat_lt with taken | free
    · rw [taken.1]
      exact informed.confirmDirectly watched watched'
    · obtain ⟨cbw, set, _, embedded, flagged⟩ := free
      rw [set]
      refine ⟨flagged, informed.sound.issue word.toNat, fun _ => ?_⟩
      have empty : s.Open [] := by
        have seen := informed.sound.1
        have told := informed.sound.2
        rw [← List.append_nil s.seen] at seen
        rw [← List.append_nil s.told] at told
        exact ⟨seen, told⟩
      rw [embedded]
      exact empty.issue word.toNat

/-- The block of a read: the read pointer is seen, and stays in the block. -/
theorem Informed.order {bulk : Bulk} (informed : s.Informed) (watched : bulk.watched = true) :
    (s.aucBulkMsg bulk s.cbw.embedded.toList []).2.Informed := by
  by_cases healthy : s.busErr = false
  · have waiting := informed.waiting healthy
    have heard : Open (s.hear s.cbw.embedded.toList []) s.cbw.embedded.toList := by
      have told := waiting.2
      rw [← List.append_nil s.told] at told
      refine ⟨?_, told⟩
      have seen := waiting.1
      change Rereads s.issued (s.seen ++ s.cbw.embedded.toList ++ s.cbw.embedded.toList)
      cases embedded : s.cbw.embedded with
      | none =>
          rw [embedded] at seen
          rwa [Option.toList_none, List.append_nil]
      | some word =>
          rw [embedded] at seen
          exact seen.again
    rcases aucBulkMsg_cases watched s.cbw.embedded.toList [] with done | refused | lost | mute
    · rw [done]
      exact ⟨informed.flagged, heard.sound, fun _ => heard⟩
    · rw [refused]
      exact informed
    · rw [lost]
      exact Informed.fail informed.flagged informed.sound
    · rw [mute]
      exact Informed.fail (s := s.hear s.cbw.embedded.toList []) informed.flagged heard.sound
  · have failed : s.busErr = true := by simpa using healthy
    rw [aucBulkMsg, failed, Bool.or_true, if_pos rfl]
    exact informed

/-- A failure of the command is a bus error: the driver is loaded and no recovery is going on. -/
def Watched (e : UsbEvent) : Prop := e.cmdStage.watched = true ∧ e.dataStage.watched = true

theorem step_informed {e : UsbEvent} {next : Usb} (informed : s.Informed) (watched : Watched e)
    (stepped : s.step e = .ok next) : next.Informed := by
  rw [step] at stepped
  cases command : e.command with
  | order order =>
      rw [command] at stepped
      cases stepped
      have slot := sameSlot_buildCbw s.cbw order
      have built : Informed { s with cbw := aucBuildCbw s.cbw order } :=
        ⟨slot.flagged informed.flagged, informed.sound, informed.waiting⟩
      exact built.order watched.1
  | writeSram addr len data other =>
      rw [command] at stepped
      cases stepped
      exact informed.writeSram watched.1 watched.2 other
  | sendFrame trb =>
      rw [command] at stepped
      exact informed.sendFrame watched.1 stepped
  | confirm word direct =>
      rw [command] at stepped
      cases stepped
      exact informed.rxConfirm watched.1 watched.2 word direct

theorem probe_informed : probe.Informed := by
  have free : probe.cbw.resv.u32 usbTxcmdCarryRxrdIndex = 0 := rfl
  have none : probe.cbw.embedded = none := by
    rw [Cbw.embedded, free, if_neg (by decide)]
  exact Informed.cleared (s := probe) (Or.inl free) none ⟨Rereads.nil, List.Sublist.refl _⟩

/-! ## Where nothing fails -/

/-- Nothing gets into the way of the command. -/
def Smooth (e : UsbEvent) : Prop :=
  e.resetOngoing = false ∧ e.buffer = true ∧ e.cmdStage.refused = false ∧
    e.cmdStage.outcome = .done ∧ e.dataStage.refused = false ∧ e.dataStage.outcome = .done

/-- Every confirmation was told, or it is the last one and in the block. -/
structure Settled (s : Usb) : Prop where
  healthy : s.busErr = false
  flagged : s.cbw.Flagged
  complete : s.told ++ s.cbw.embedded.toList = s.issued

theorem aucBulkMsg_done {bulk : Bulk} (healthy : s.busErr = false) (begun : bulk.refused = false)
    (done : bulk.outcome = .done) (seen told : List Nat) :
    s.aucBulkMsg bulk seen told = (true, s.hear seen told) := by
  rw [aucBulkMsg, begun, healthy, done]
  rfl

theorem writeCarried_settled {e : UsbEvent} {order : Order} {data : Nat → UInt8}
    (smooth : Smooth e) (healthy : s.busErr = false)
    (complete : s.told ++ (s.cbw.embedded.toList ++ wordIn order.addr data) = s.issued)
    (short : order.len < usbTxcmdCarryRxrdIndex)
    (whole : order.addr = cmdDownFifoFdhAddr → 8 ≤ order.len) :
    (s.writeCarried e order data).Settled := by
  have sent := aucBulkMsg_done (s := { s with cbw := aucBuildCbwAddData s.cbw order data })
    healthy smooth.2.2.1 smooth.2.2.2.1
  rw [writeCarried]
  dsimp only
  rw [sent, wordIn_carried s.cbw order data short whole,
    (sameSlot_addData s.cbw order data short).embedded]
  dsimp only
  rw [if_pos rfl]
  have blank := sameSlot_marks (aucCmdRxrdClear (aucBuildCbwAddData s.cbw order data)) fun _ => 0
  refine ⟨healthy, blank.flagged (flagged_clear _), ?_⟩
  have free := blank.embedded.trans (embedded_clear _)
  rw [← complete, ← List.append_nil (s.told ++ _)]
  exact congrArg _ (congrArg Option.toList free)

theorem writeStaged_settled {e : UsbEvent} {order : Order} {data : Nat → UInt8}
    (smooth : Smooth e) (healthy : s.busErr = false)
    (complete : s.told ++ (s.cbw.embedded.toList ++ wordIn order.addr data) = s.issued) :
    (s.writeStaged e order data).Settled := by
  obtain ⟨_, buffer, begun, done, begun', done'⟩ := smooth
  have sent := aucBulkMsg_done (s := { s with cbw := aucBuildCbw s.cbw order }) healthy begun done
  have sent' := fun words => aucBulkMsg_done
    (s := (hear { s with cbw := aucBuildCbw s.cbw order } words words).rxrdClear)
    healthy begun' done'
  rw [writeStaged]
  dsimp only
  rw [sent]
  dsimp only
  rw [if_pos rfl, buffer, if_pos rfl, sent']
  refine ⟨healthy, flagged_clear _, ?_⟩
  have free : (aucCmdRxrdClear (aucBuildCbw s.cbw order)).embedded = none := embedded_clear _
  rw [← List.append_assoc] at complete
  rw [← complete, ← List.append_nil (s.told ++ _ ++ _)]
  exact congrArg _ (congrArg Option.toList free)

/-- The words of a write are told after the read pointer of the block. -/
theorem writeSram_settled {e : UsbEvent} {addr len : Nat} {data : Nat → UInt8} (smooth : Smooth e)
    (healthy : s.busErr = false) (some' : len ≠ 0)
    (complete : s.told ++ (s.cbw.embedded.toList ++ wordIn addr data) = s.issued)
    (whole : addr = cmdDownFifoFdhAddr → 8 ≤ len) : (s.writeSram e addr len data).Settled := by
  rw [writeSram, if_neg (by rw [healthy, smooth.1]; simpa using some')]
  dsimp only
  split
  · rename_i short
    exact writeCarried_settled smooth healthy complete
      (Nat.lt_of_lt_of_le short.2 (Nat.min_le_left _ _)) whole
  · exact writeStaged_settled smooth healthy complete

theorem Settled.writeSram {e : UsbEvent} {addr len : Nat} {data : Nat → UInt8}
    (settled : s.Settled) (smooth : Smooth e) (other : addr ≠ cmdDownFifoFdhAddr) :
    (s.writeSram e addr len data).Settled := by
  by_cases empty : len = 0
  · rw [Usb.writeSram, if_pos (Or.inl empty)]
    exact settled
  · apply writeSram_settled smooth settled.healthy empty
    · rw [wordIn_of_ne other, List.append_nil]
      exact settled.complete
    · exact fun same => absurd same other

theorem Settled.sendFrame {e : UsbEvent} {trb : TxTrbInfo} {after : Usb} (settled : s.Settled)
    (smooth : Smooth e) (ran : s.sendFrame e trb = .ok after) : after.Settled := by
  have sent := aucBulkMsg_done
    (s := { s with cbw := trb.build s.cbw (UInt8.ofNat cmdWritePacket) })
    settled.healthy smooth.2.2.1 smooth.2.2.2.1
  rw [Usb.sendFrame, if_neg (by rw [settled.healthy, smooth.1]; simp)] at ran
  split at ran
  · cases ran
  · rename_i few
    have slot := trb.sameSlot_build s.cbw (UInt8.ofNat cmdWritePacket) (by omega)
    dsimp only at ran
    rw [sent, slot.embedded] at ran
    cases ran
    refine ⟨settled.healthy, flagged_clear _, ?_⟩
    have free := embedded_clear (trb.build s.cbw (UInt8.ofNat cmdWritePacket))
    have complete := settled.complete
    rw [← List.append_nil (s.told ++ _)] at complete
    exact (congrArg _ (congrArg Option.toList free)).trans complete

theorem Settled.confirmDirectly {e : UsbEvent} {word : UInt32} (settled : s.Settled)
    (smooth : Smooth e) :
    ((s.issue word.toNat).writeSram e cmdDownFifoFdhAddr 8 (confirmData word)).Settled := by
  apply writeSram_settled (s := s.issue word.toNat) smooth settled.healthy
  · omega
  · rw [wordIn_confirm, ← List.append_assoc]
    exact congrArg (· ++ [word.toNat]) settled.complete
  · exact fun _ => le_refl 8

theorem Settled.rxConfirm {e : UsbEvent} (settled : s.Settled) (smooth : Smooth e)
    (word : UInt32) (direct : Bool) : (s.rxConfirm e word direct).Settled := by
  rw [Usb.rxConfirm]
  dsimp only
  split
  · exact settled.confirmDirectly smooth
  · rcases aucCmdRxrdSet_cases settled.flagged word.toNat_lt with taken | free
    · rw [taken.1]
      exact settled.confirmDirectly smooth
    · obtain ⟨cbw, set, before, embedded, flagged⟩ := free
      rw [set]
      refine ⟨settled.healthy, flagged, ?_⟩
      have complete := settled.complete
      rw [before, Option.toList_none, List.append_nil] at complete
      rw [embedded, ← complete]
      rfl

theorem step_settled {e : UsbEvent} {next : Usb} (settled : s.Settled) (smooth : Smooth e)
    (stepped : s.step e = .ok next) : next.Settled := by
  rw [step] at stepped
  cases command : e.command with
  | order order =>
      rw [command] at stepped
      cases stepped
      have sent := aucBulkMsg_done (s := { s with cbw := aucBuildCbw s.cbw order })
        settled.healthy smooth.2.2.1 smooth.2.2.2.1
      dsimp only
      rw [sent]
      refine ⟨settled.healthy, settled.flagged, ?_⟩
      have complete := settled.complete
      rw [← List.append_nil s.told] at complete
      exact complete
  | writeSram addr len data other =>
      rw [command] at stepped
      cases stepped
      exact settled.writeSram smooth other
  | sendFrame trb =>
      rw [command] at stepped
      exact settled.sendFrame smooth stepped
  | confirm word direct =>
      rw [command] at stepped
      cases stepped
      exact settled.rxConfirm smooth word direct

theorem probe_settled : probe.Settled := by
  have free : probe.cbw.resv.u32 usbTxcmdCarryRxrdIndex = 0 := rfl
  have none : probe.cbw.embedded = none := by
    rw [Cbw.embedded, free, if_neg (by decide)]
  refine ⟨rfl, Or.inl free, ?_⟩
  rw [none]
  rfl

/-- In every run of the driver on the bus with the driver loaded and no recovery going on, so that a
failure is a bus error, whatever fails and whatever is refused, the device sees the confirmations in
the order in which they were issued, and never an older one after a newer one.  With the writes none
of them comes twice, and where nothing fails none is left out: all but one that is still in the
block have come. -/
theorem confirmations_in_order {events : List UsbEvent} {final : Usb}
    (watched : ∀ e ∈ events, Watched e) (ran : Run.run step events probe = .ok final) :
    Rereads final.issued final.seen ∧ final.told.Sublist final.issued ∧
      ((∀ e ∈ events, Smooth e) →
        final.told ++ final.cbw.embedded.toList = final.issued) := by
  have informed : final.Informed := Run.kept_of_run
    (fun _ _ _ informed watched stepped => step_informed informed watched stepped) watched ran
    probe_informed
  refine ⟨informed.sound.1, informed.sound.2, fun smooth => ?_⟩
  have settled : final.Settled := Run.kept_of_run
    (fun _ _ _ settled smooth stepped => step_settled settled smooth stepped) smooth ran
    probe_settled
  exact settled.complete

/-- A message that goes through. -/
private def through : Bulk := ⟨false, .done, true⟩

/-- A pointer is embedded and seen with a read, a frame takes it along, the next one goes with a
confirmation of its own, and the bus fails under the last frame, which the device gets. -/
private def piggybacked : List UsbEvent :=
  [⟨.confirm 0x6000 false, true, false, through, true, through⟩,
    ⟨.order ⟨0x80, 4, 0xC4, 0x00a0b000, 0, 4⟩, true, false, through, true, through⟩,
    ⟨.sendFrame ⟨2, fun _ => 1500⟩, true, false, through, true, through⟩,
    ⟨.confirm 0x6200 false, true, false, through, true, through⟩,
    ⟨.confirm 0x6400 true, true, false, through, true, through⟩,
    ⟨.confirm 0x6800 false, true, false, through, true, through⟩,
    ⟨.sendFrame ⟨20, fun _ => 1500⟩, true, false, ⟨false, .unacknowledged, true⟩, true, through⟩,
    ⟨.confirm 0x6a00 true, true, false, through, true, through⟩]

private theorem piggybacked_ends :
    ∃ final, Run.run step piggybacked probe = .ok final ∧
      (final.issued, final.seen, final.told) =
        ([0x6000, 0x6200, 0x6400, 0x6800, 0x6a00], [0x6000, 0x6000, 0x6200, 0x6400, 0x6800],
          [0x6000, 0x6200, 0x6400, 0x6800]) :=
  Run.ends_of_toOption (by decide +kernel)

theorem confirmations_in_order_piggybacked :
    ∃ final, (∀ e ∈ piggybacked, Watched e) ∧ Run.run step piggybacked probe = .ok final ∧
      (final.issued, final.seen, final.told) =
        ([0x6000, 0x6200, 0x6400, 0x6800, 0x6a00], [0x6000, 0x6000, 0x6200, 0x6400, 0x6800],
          [0x6000, 0x6200, 0x6400, 0x6800]) ∧
      Rereads final.issued final.seen ∧ final.told.Sublist final.issued ∧
        ((∀ e ∈ piggybacked, Smooth e) →
          final.told ++ final.cbw.embedded.toList = final.issued) := by
  obtain ⟨final, ran, ends⟩ := piggybacked_ends
  have watched : ∀ e ∈ piggybacked, Watched e := by
    intro e member
    simp only [piggybacked, List.mem_cons, List.not_mem_nil, or_false] at member
    rcases member with rfl | rfl | rfl | rfl | rfl | rfl | rfl | rfl <;> exact ⟨rfl, rfl⟩
  exact ⟨final, watched, ran, ends, confirmations_in_order watched ran⟩

end Usb

end AmlW2.Bus
