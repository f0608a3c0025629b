import AmlW2.Lib.Memory
import Mathlib.Data.Nat.Bitwise

/-!
# The command block on USB

All commands to the firmware are built in one block, `g_cmd_buf`.  The fields of a mass-storage
command say what is to be done; the sizes of the packets of a transfer lie all over the block, and
the reserved bytes behind it carry the data of short writes and the read pointer of the receive
ring.  None of these writes touches what another one put there.
-/

namespace AmlW2.Bus

/-- `USB_TXCMD_CARRY_RXRD_INDEX`. -/
def usbTxcmdCarryRxrdIndex : Nat := 401

/-- `WRITE_SRAM_DATA_LEN`. -/
def writeSramDataLen : Nat := 477

/-- `UPDATE_FLAG`. -/
def updateFlag : Nat := 0x11223344

/-- `AML_SIG_CBW`. -/
def amlSigCbw : Nat := 0x43425355

/-- `AML_TAG_CBW`. -/
def amlTagCbw : Nat := 0x5da729a0

/-- `CMD_WRITE_PACKET`. -/
def cmdWritePacket : Nat := 0xC6

/-- `CMD_WRITE_SRAM`. -/
def cmdWriteSram : Nat := 0xC8

/-- `AML_XFER_TO_DEVICE`. -/
def amlXferToDevice : Nat := 0

/-- `struct crg_msc_cbw`. -/
structure Cbw where
  sig : Nat
  tag : Nat
  dataLen : Nat
  flag : Nat
  lun : Nat
  len : Nat
  /-- Four words. -/
  cdb : Nat → Nat
  resv : Memory

/-- What a call of `auc_build_cbw` says. -/
structure Order where
  dir : Nat
  len : Nat
  cmd : Nat
  addr : Nat
  flag : Nat
  dataLen : Nat

/-- `auc_build_cbw`. -/
def aucBuildCbw (cbw : Cbw) (order : Order) : Cbw where
  sig := amlSigCbw
  tag := amlTagCbw
  dataLen := order.len
  flag := order.dir
  len := 16
  lun := 0
  cdb := fun i =>
    if i = 0 then order.cmd
    else if i = 1 then order.addr
    else if i = 2 then order.flag
    else order.dataLen
  resv := cbw.resv

/-- `auc_build_cbw_add_data` with data, as long as its assertions hold. -/
def aucBuildCbwAddData (cbw : Cbw) (order : Order) (data : Nat → UInt8) : Cbw :=
  let cbw := aucBuildCbw cbw order
  { cbw with resv := (cbw.resv.put 1 order.len data).put 479 2 fun _ => 0xff }

/-- `struct tx_trb_info_ex`: the packets of a transfer, with their sizes. -/
structure TxTrbInfo where
  packetNum : Nat
  bufferSize : Nat → UInt16

namespace TxTrbInfo

/-- Two sizes in a word. -/
def pair (trb : TxTrbInfo) (i : Nat) : Nat :=
  (trb.bufferSize i).toNat ||| (trb.bufferSize (i + 1)).toNat <<< 16

/-- The size at a byte of `resv`, from the packet at the first byte on. -/
def byte (trb : TxTrbInfo) (k : Nat) : UInt8 :=
  let size := (trb.bufferSize (14 + k / 2)).toNat
  if k % 2 = 0 then UInt8.ofNat (size &&& 0xff) else UInt8.ofNat (size >>> 8 &&& 0xff)

/-- `aml_usb_build_tx_packet_info`. -/
def build (trb : TxTrbInfo) (cbw : Cbw) (cdb1 : UInt8) : Cbw where
  sig := trb.pair 0
  tag := trb.pair 2
  dataLen := trb.pair 4
  flag := trb.packetNum % 256
  len := (trb.bufferSize 13).toNat &&& 0xff
  lun := (trb.bufferSize 13).toNat >>> 8 &&& 0xff
  cdb := fun i =>
    if i = 0 then cdb1.toNat ||| (trb.bufferSize 12).toNat <<< 16
    else if i = 1 then trb.pair 6
    else if i = 2 then trb.pair 8
    else trb.pair 10
  resv :=
    if 15 ≤ trb.packetNum then cbw.resv.put 0 (2 * (trb.packetNum - 14)) trb.byte else cbw.resv

end TxTrbInfo

/-- `__auc_cmd_rxrd_set`. -/
def cmdRxrdSet (cbw : Cbw) (flag rxrd : Nat) : Cbw :=
  { cbw with
    resv := (cbw.resv.set32 usbTxcmdCarryRxrdIndex flag).set32 (usbTxcmdCarryRxrdIndex + 4) rxrd }

/-- `auc_cmd_rxrd_clear`. -/
def aucCmdRxrdClear (cbw : Cbw) : Cbw := cmdRxrdSet cbw 0 0

/-- `auc_cmd_rxrd_set`; nothing where a read pointer is embedded already. -/
def aucCmdRxrdSet (cbw : Cbw) (rxrd : Nat) : Option Cbw :=
  if cbw.resv.u32 usbTxcmdCarryRxrdIndex ≠ 0 then none else some (cmdRxrdSet cbw updateFlag rxrd)

/-! ## Reading the block -/

/-- The lower half of a word. -/
def low (word : Nat) : Nat := word % 65536

/-- The upper half of a word. -/
def high (word : Nat) : Nat := word / 65536

/-- Where the size of a packet is found in a block. -/
def Cbw.packetSize (cbw : Cbw) : Nat → Nat
  | 0 => low cbw.sig
  | 1 => high cbw.sig
  | 2 => low cbw.tag
  | 3 => high cbw.tag
  | 4 => low cbw.dataLen
  | 5 => high cbw.dataLen
  | 6 => low (cbw.cdb 1)
  | 7 => high (cbw.cdb 1)
  | 8 => low (cbw.cdb 2)
  | 9 => high (cbw.cdb 2)
  | 10 => low (cbw.cdb 3)
  | 11 => high (cbw.cdb 3)
  | 12 => high (cbw.cdb 0)
  | 13 => cbw.len + 256 * cbw.lun
  | i => cbw.resv.u16 (2 * (i - 14))

/-- The read pointer carried by a block. -/
def Cbw.embedded (cbw : Cbw) : Option Nat :=
  if cbw.resv.u32 usbTxcmdCarryRxrdIndex = updateFlag then
    some (cbw.resv.u32 (usbTxcmdCarryRxrdIndex + 4))
  else none

/-- The data of a short write. -/
def Cbw.carriedData (cbw : Cbw) : Memory := fun i => cbw.resv (1 + i)

theorem or_shift {a b : Nat} (small : a < 65536) : a ||| b <<< 16 = a + 65536 * b := by
  have split := Nat.shiftLeft_add_eq_or_of_lt (show a < 2 ^ 16 from small) b
  rw [Nat.lor_comm, ← split, Nat.shiftLeft_eq, Nat.add_comm, Nat.mul_comm]

theorem low_or_shift {a b : Nat} (small : a < 65536) : low (a ||| b <<< 16) = a := by
  rw [low, or_shift small]
  omega

theorem high_or_shift {a b : Nat} (small : a < 65536) : high (a ||| b <<< 16) = b := by
  rw [high, or_shift small]
  omega

namespace TxTrbInfo

theorem size_lt (trb : TxTrbInfo) (i : Nat) : (trb.bufferSize i).toNat < 65536 :=
  (trb.bufferSize i).toNat_lt

theorem low_pair (trb : TxTrbInfo) (i : Nat) : low (trb.pair i) = (trb.bufferSize i).toNat :=
  low_or_shift (trb.size_lt i)

theorem high_pair (trb : TxTrbInfo) (i : Nat) :
    high (trb.pair i) = (trb.bufferSize (i + 1)).toNat :=
  high_or_shift (trb.size_lt i)

/-- Two bytes of `resv` hold the size they were written for. -/
theorem byte_pair (trb : TxTrbInfo) (k : Nat) :
    (trb.byte (2 * k)).toNat + 256 * (trb.byte (2 * k + 1)).toNat =
      (trb.bufferSize (14 + k)).toNat := by
  have even : trb.byte (2 * k) = UInt8.ofNat ((trb.bufferSize (14 + k)).toNat &&& 0xff) := by
    rw [byte, if_pos (by omega), Nat.mul_div_cancel_left k (by omega)]
  have odd : trb.byte (2 * k + 1) =
      UInt8.ofNat ((trb.bufferSize (14 + k)).toNat >>> 8 &&& 0xff) := by
    rw [byte, if_neg (by omega), show (2 * k + 1) / 2 = k by omega]
  have small := trb.size_lt (14 + k)
  have mask : ∀ n, n &&& 0xff = n % 256 := fun n => Nat.and_two_pow_sub_one_eq_mod n 8
  rw [even, odd, mask, mask, Nat.shiftRight_eq_div_pow, UInt8.toNat_ofNat', UInt8.toNat_ofNat']
  omega

/-- The size of the packet is in the reserved bytes from the fifteenth packet on. -/
theorem resv_build (trb : TxTrbInfo) (cbw : Cbw) (cdb1 : UInt8) {k : Nat}
    (inside : 14 + k < trb.packetNum) :
    (trb.build cbw cdb1).resv.u16 (2 * k) = (trb.bufferSize (14 + k)).toNat := by
  have written : ∀ j < 2 * (trb.packetNum - 14),
      cbw.resv.put 0 (2 * (trb.packetNum - 14)) trb.byte j = trb.byte j := by
    intro j inside
    conv_lhs => rw [← Nat.zero_add j]
    exact Memory.put_inside inside
  have resv : (trb.build cbw cdb1).resv =
      cbw.resv.put 0 (2 * (trb.packetNum - 14)) trb.byte := if_pos (by omega)
  rw [resv, Memory.u16, written _ (by omega), written _ (by omega), byte_pair]

/-- The packets of a transfer are read back from its command block, whatever was in the block
before. -/
theorem packetSize_build (trb : TxTrbInfo) (cbw : Cbw) (cdb1 : UInt8) {i : Nat}
    (inside : i < trb.packetNum) :
    (trb.build cbw cdb1).packetSize i = (trb.bufferSize i).toNat := by
  unfold Cbw.packetSize
  split
  case _ => exact trb.low_pair 0
  case _ => exact trb.high_pair 0
  case _ => exact trb.low_pair 2
  case _ => exact trb.high_pair 2
  case _ => exact trb.low_pair 4
  case _ => exact trb.high_pair 4
  case _ => exact trb.low_pair 6
  case _ => exact trb.high_pair 6
  case _ => exact trb.low_pair 8
  case _ => exact trb.high_pair 8
  case _ => exact trb.low_pair 10
  case _ => exact trb.high_pair 10
  case _ =>
    have small := cdb1.toNat_lt
    exact high_or_shift (by omega)
  case _ =>
    have small := trb.size_lt 13
    have mask : ∀ n, n &&& 0xff = n % 256 := fun n => Nat.and_two_pow_sub_one_eq_mod n 8
    simp only [build, mask, Nat.shiftRight_eq_div_pow]
    omega
  case _ =>
    have beyond : 14 ≤ i := by grind
    obtain ⟨k, rfl⟩ := Nat.exists_eq_add_of_le beyond
    rw [Nat.add_sub_cancel_left]
    exact trb.resv_build cbw cdb1 inside

end TxTrbInfo

/-! ## The embedded read pointer -/

namespace Cbw

/-- The flag of the read pointer is one of the two that the driver writes. -/
def Flagged (cbw : Cbw) : Prop :=
  cbw.resv.u32 usbTxcmdCarryRxrdIndex = 0 ∨ cbw.resv.u32 usbTxcmdCarryRxrdIndex = updateFlag

/-- Two blocks have the same flag and the same read pointer. -/
def SameSlot (cbw cbw' : Cbw) : Prop :=
  cbw.resv.Same usbTxcmdCarryRxrdIndex cbw'.resv usbTxcmdCarryRxrdIndex 8

variable {cbw cbw' : Cbw}

theorem SameSlot.flag (same : cbw.SameSlot cbw') :
    cbw.resv.u32 usbTxcmdCarryRxrdIndex = cbw'.resv.u32 usbTxcmdCarryRxrdIndex :=
  Memory.Same.u32_eq same (by omega)

theorem SameSlot.embedded (same : cbw.SameSlot cbw') : cbw.embedded = cbw'.embedded := by
  have word := (same.drop 4).u32_eq (by omega)
  rw [Cbw.embedded, Cbw.embedded, same.flag, word]

theorem SameSlot.flagged (same : cbw.SameSlot cbw') (flagged : cbw'.Flagged) : cbw.Flagged := by
  rw [Flagged, same.flag]
  exact flagged

end Cbw

theorem Cbw.SameSlot.trans {cbw cbw' cbw'' : Cbw} (first : cbw.SameSlot cbw')
    (second : cbw'.SameSlot cbw'') : cbw.SameSlot cbw'' := Memory.Same.trans first second

theorem sameSlot_buildCbw (cbw : Cbw) (order : Order) : (aucBuildCbw cbw order).SameSlot cbw :=
  Memory.Same.refl _ _ _

/-- The marks of a short write lie behind the read pointer. -/
theorem sameSlot_marks (cbw : Cbw) (marks : Nat → UInt8) :
    Cbw.SameSlot { cbw with resv := cbw.resv.put 479 2 marks } cbw := by
  have behind : usbTxcmdCarryRxrdIndex + 8 ≤ 479 := by
    rw [usbTxcmdCarryRxrdIndex]
    omega
  rw [Cbw.SameSlot]
  exact Memory.same_put_of_le behind

/-- The data of a short write end before the read pointer. -/
theorem sameSlot_addData (cbw : Cbw) (order : Order) (data : Nat → UInt8)
    (short : order.len < usbTxcmdCarryRxrdIndex) :
    (aucBuildCbwAddData cbw order data).SameSlot cbw := by
  have inside : 1 + order.len ≤ usbTxcmdCarryRxrdIndex := by omega
  have written : Memory.Same (cbw.resv.put 1 order.len data) usbTxcmdCarryRxrdIndex cbw.resv
      usbTxcmdCarryRxrdIndex 8 := Memory.same_put_of_ge inside
  exact (sameSlot_marks { aucBuildCbw cbw order with resv := cbw.resv.put 1 order.len data }
    fun _ => 0xff).trans written

/-- The sizes of the packets end before the read pointer. -/
theorem TxTrbInfo.sameSlot_build (trb : TxTrbInfo) (cbw : Cbw) (cdb1 : UInt8)
    (few : trb.packetNum ≤ 128) : (trb.build cbw cdb1).SameSlot cbw := by
  have inside : 0 + 2 * (trb.packetNum - 14) ≤ usbTxcmdCarryRxrdIndex := by
    rw [usbTxcmdCarryRxrdIndex]
    omega
  by_cases many : 15 ≤ trb.packetNum
  · have resv : (trb.build cbw cdb1).resv =
        cbw.resv.put 0 (2 * (trb.packetNum - 14)) trb.byte := if_pos many
    rw [Cbw.SameSlot, resv]
    exact Memory.same_put_of_ge inside
  · have resv : (trb.build cbw cdb1).resv = cbw.resv := if_neg many
    rw [Cbw.SameSlot, resv]
    exact Memory.Same.refl _ _ _

/-- The data of a short write are read back from the block. -/
theorem carriedData_addData (cbw : Cbw) (order : Order) (data : Nat → UInt8)
    (short : order.len < usbTxcmdCarryRxrdIndex) :
    Memory.Same (aucBuildCbwAddData cbw order data).carriedData 0 data 0 order.len := by
  intro i inside
  have before : 1 + (0 + i) < 479 := by
    rw [usbTxcmdCarryRxrdIndex] at short
    omega
  have written : cbw.resv.put 1 order.len data (1 + (0 + i)) = data (0 + i) :=
    Memory.put_inside (by omega)
  have resv : (aucBuildCbwAddData cbw order data).resv =
      (cbw.resv.put 1 order.len data).put 479 2 fun _ => 0xff := rfl
  rw [Cbw.carriedData, resv, Memory.put_of_lt before, written]

theorem flag_cmdRxrdSet (cbw : Cbw) {flag : Nat} (rxrd : Nat) (small : flag < 2 ^ 32) :
    (cmdRxrdSet cbw flag rxrd).resv.u32 usbTxcmdCarryRxrdIndex = flag := by
  have kept : ((cbw.resv.set32 usbTxcmdCarryRxrdIndex flag).set32 (usbTxcmdCarryRxrdIndex + 4)
      rxrd).Same usbTxcmdCarryRxrdIndex (cbw.resv.set32 usbTxcmdCarryRxrdIndex flag)
      usbTxcmdCarryRxrdIndex 4 := Memory.same_put_of_le (le_refl _)
  exact (kept.u32_eq (le_refl _)).trans (Memory.u32_set32 small)

theorem embedded_clear (cbw : Cbw) : (aucCmdRxrdClear cbw).embedded = none := by
  have flag := flag_cmdRxrdSet cbw 0 (show 0 < 2 ^ 32 by omega)
  rw [aucCmdRxrdClear, Cbw.embedded, flag, if_neg (by decide)]

theorem flagged_clear (cbw : Cbw) : (aucCmdRxrdClear cbw).Flagged :=
  Or.inl (flag_cmdRxrdSet cbw 0 (by omega))

/-- A read pointer is embedded only where none is. -/
theorem aucCmdRxrdSet_cases {cbw : Cbw} (flagged : cbw.Flagged) {rxrd : Nat}
    (small : rxrd < 2 ^ 32) :
    (aucCmdRxrdSet cbw rxrd = none ∧ cbw.embedded ≠ none) ∨
      ∃ cbw', aucCmdRxrdSet cbw rxrd = some cbw' ∧ cbw.embedded = none ∧
        cbw'.embedded = some rxrd ∧ cbw'.Flagged := by
  rcases flagged with free | taken
  · right
    have flag := flag_cmdRxrdSet cbw rxrd (show updateFlag < 2 ^ 32 by decide)
    have word : (cmdRxrdSet cbw updateFlag rxrd).resv.u32 (usbTxcmdCarryRxrdIndex + 4) = rxrd :=
      Memory.u32_set32 small
    refine ⟨cmdRxrdSet cbw updateFlag rxrd, ?_, ?_, ?_, Or.inr flag⟩
    · rw [aucCmdRxrdSet, if_neg (not_not_intro free)]
    · rw [Cbw.embedded, if_neg (by rw [free]; decide)]
    · rw [Cbw.embedded, if_pos flag, word]
  · left
    constructor
    · rw [aucCmdRxrdSet, if_pos (by rw [taken]; decide)]
    · rw [Cbw.embedded, if_pos taken]
      exact Option.some_ne_none _

/-- A frame's command block tells the firmware what is sent: the number of packets, the size of
each of them and the command.  It does so whatever earlier commands have left in the block, and it
leaves the read pointer in the block as it is. -/
theorem frame_command_read_back (trb : TxTrbInfo) (cbw : Cbw) (cdb1 : UInt8)
    (few : trb.packetNum ≤ 128) :
    (trb.build cbw cdb1).flag = trb.packetNum ∧
      (∀ i < trb.packetNum, (trb.build cbw cdb1).packetSize i = (trb.bufferSize i).toNat) ∧
      low ((trb.build cbw cdb1).cdb 0) = cdb1.toNat ∧
      (trb.build cbw cdb1).embedded = cbw.embedded := by
  have slot := trb.sameSlot_build cbw cdb1 few
  refine ⟨?_, fun i => trb.packetSize_build cbw cdb1, ?_, slot.embedded⟩
  · exact Nat.mod_eq_of_lt (by omega)
  · have small := cdb1.toNat_lt
    exact low_or_shift (by omega)

/-- Thirty packets, in a block that holds a read pointer. -/
theorem frame_command_read_back_thirty :
    30 ≤ 128 ∧
      (let trb : TxTrbInfo := ⟨30, fun i => UInt16.ofNat (1000 * i)⟩
       let cbw := cmdRxrdSet ⟨0, 0, 0, 0, 0, 0, fun _ => 0, fun _ => 0⟩ updateFlag 0x1234
       (trb.build cbw 0xC6).flag = 30 ∧
        (∀ i < 30, (trb.build cbw 0xC6).packetSize i = (trb.bufferSize i).toNat) ∧
        low ((trb.build cbw 0xC6).cdb 0) = 0xC6 ∧
        (trb.build cbw 0xC6).embedded = cbw.embedded) :=
  ⟨by decide, frame_command_read_back ⟨30, fun i => UInt16.ofNat (1000 * i)⟩ _ 0xC6 (by decide)⟩

end AmlW2.Bus
