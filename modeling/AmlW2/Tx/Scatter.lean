import AmlW2.Bus.Suspend
import AmlW2.Tx.Pages
import AmlW2.Tx.Staging
import Mathlib.Data.Nat.Bitwise
import Mathlib.NumberTheory.Divisors

/-!
# The scatter list of a batch

On SDIO a batch goes to the card in one command, which counts blocks in nine bits.  The frames of a
batch are limited by their pages, the entries of its list by the length of an array, and the bytes
of the command by what the host controller takes in one request.  This file says that a batch that
was collected is sent whole or not at all, and when it is not.
-/

namespace AmlW2.Tx.Pages

/-! ## The command -/

/-- `SDIO_MAX_BLK_CNT`. -/
def sdioMaxBlkCnt : Nat := 511

/-- `SCAT_ITEM_MAX`. -/
def scatItemMax : Nat := 160

/-- What is known of `SDIO_FUNC4` and of the host controller of its card. -/
structure SdioFunc where
  curBlksize : Nat
  /-- `max_blk_count` and `max_req_size` of the host. -/
  maxBlkCount : Nat
  maxReqSize : Nat
deriving DecidableEq, Repr

/-- `max_req_size` of `aml_sdio_cmd53_sg_blk_size`. -/
def SdioFunc.reqSize (func : SdioFunc) : Nat :=
  min (min func.maxBlkCount sdioMaxBlkCnt * func.curBlksize) func.maxReqSize

/-- The loop of `aml_sdio_sg_blocks` over the entries that are left of `sgLen`, with the length of
those before. -/
def sgLoop (func : SdioFunc) (sgLen : Nat) : List Nat → Nat → Option Nat
  | [], len => some len
  | length :: sgs, len =>
      if length &&& 3 ≠ 0 then none
      else if 1 < sgLen ∧ length &&& (func.curBlksize - 1) ≠ 0 then none
      else if func.reqSize < len + length then none
      else sgLoop func sgLen sgs (len + length)

/-- `aml_sdio_sg_blocks`. -/
def amlSdioSgBlocks (func : SdioFunc) (sgs : List Nat) : Option Nat :=
  (sgLoop func sgs.length sgs 0).map (· / func.curBlksize)

/-- What decides whether the bus is used. -/
structure BusState where
  pm : AmlW2.Bus.Pm
  isShutDown : Int
  busErr : Nat

/-- `aml_sdio_block_bus_opt`. -/
def BusState.blocked (b : BusState) : Bool :=
  b.pm.amlSdioBlockBusOpt b.isShutDown (decide (b.busErr = 1)) .func4

/-- The card can be asked. -/
def BusState.Usable (b : BusState) : Prop := b.blocked = false ∧ b.busErr = 0

/-- The command and the data of a `struct mmc_request`. -/
structure MmcRequest where
  write : Bool
  addr : Nat
  /-- The count of the argument. -/
  count : Nat
  blksz : Nat
  blocks : Nat
  sgs : List Nat
deriving DecidableEq, Repr

/-- The errors of `aml_sdio_cmd53_sg`. -/
inductive Errno
  | einval
  | eio
deriving DecidableEq, Repr

/-- `aml_sdio_cmd53_sg` up to `mmc_wait_for_req`. -/
def amlSdioCmd53Sg (func : SdioFunc) (b : BusState) (write : Bool) (addr : Nat) (sgs : List Nat) :
    Except Errno MmcRequest :=
  if addr &&& 0x1ffff ≠ addr then .error .einval
  else
    match amlSdioSgBlocks func sgs with
    | none => .error .einval
    | some blocks =>
        if b.blocked then .error .eio
        else if b.busErr ≠ 0 then .error .eio
        else .ok {
          write, addr, count := blocks &&& 0x1ff, blksz := func.curBlksize, blocks, sgs }

/-- The length of the entry of a frame, on SDIO.  A frame that is no A-MSDU has one packet, of its
`frame_len`. -/
def TxFrame.sgLength (frame : TxFrame) : Nat :=
  Aggregate.align (frame.totLen + sdioTxheaderLen) Aggregate.sdioBlksize

/-- The scatter list. -/
def Sys.scatList (s : Sys) : List Nat := s.batch.map TxFrame.sgLength

/-- `aml_sdio_send_frame` of the batch. -/
def Sys.sendFrame (s : Sys) (func : SdioFunc) (b : BusState) : Except Errno MmcRequest :=
  amlSdioCmd53Sg func b true 0 s.scatList

/-! ## What is asked of a list -/

theorem and_blksize_pred {length blksize : Nat} (power : blksize ∣ Aggregate.sdioBlksize)
    (whole : Aggregate.sdioBlksize ∣ length) : length &&& (blksize - 1) = 0 := by
  obtain ⟨k, -, rfl⟩ := (Nat.dvd_prime_pow Nat.prime_two (m := 9)).mp power
  rw [Nat.and_two_pow_sub_one_eq_mod]
  exact Nat.mod_eq_zero_of_dvd (power.trans whole)

/-- Of entries that are made of whole blocks only the length is looked at. -/
theorem sgLoop_eq (func : SdioFunc) (block : func.curBlksize ∣ Aggregate.sdioBlksize) (sgLen : Nat)
    {sgs : List Nat} (whole : ∀ length ∈ sgs, Aggregate.sdioBlksize ∣ length) (len : Nat)
    (before : len ≤ func.reqSize) :
    sgLoop func sgLen sgs len =
      if len + sgs.sum ≤ func.reqSize then some (len + sgs.sum) else none := by
  induction sgs generalizing len with
  | nil => simp [sgLoop, before]
  | cons length sgs induction =>
      have blocks : Aggregate.sdioBlksize ∣ length := whole length List.mem_cons_self
      have four : length &&& (4 - 1) = 0 := and_blksize_pred (by decide) blocks
      rw [sgLoop, if_neg (not_not.mpr four),
        if_neg fun odd => odd.2 (and_blksize_pred block blocks), List.sum_cons, ← Nat.add_assoc]
      split_ifs with more fits fits
      · omega
      · rfl
      · rw [induction (fun other member => whole other (List.mem_cons_of_mem _ member)) _
          (Nat.le_of_not_lt more), if_pos fits]
      · rw [induction (fun other member => whole other (List.mem_cons_of_mem _ member)) _
          (Nat.le_of_not_lt more), if_neg fits]

theorem blksize_dvd_sum {blksize : Nat} (block : blksize ∣ Aggregate.sdioBlksize) {sgs : List Nat}
    (whole : ∀ length ∈ sgs, Aggregate.sdioBlksize ∣ length) : blksize ∣ sgs.sum :=
  List.dvd_sum fun length member => block.trans (whole length member)

/-- The count of a command does not wrap. -/
theorem count_lt (func : SdioFunc) {len : Nat} (fits : len ≤ func.reqSize) :
    len / func.curBlksize < 512 := by
  have most : len ≤ sdioMaxBlkCnt * func.curBlksize :=
    fits.trans ((Nat.min_le_left _ _).trans (Nat.mul_le_mul_right _ (Nat.min_le_right _ _)))
  exact Nat.lt_succ_of_le (Nat.div_le_of_le_mul (by rwa [Nat.mul_comm]))

/-- A list of whole blocks that is short enough is sent. -/
theorem amlSdioCmd53Sg_eq (func : SdioFunc) (block : func.curBlksize ∣ Aggregate.sdioBlksize)
    {sgs : List Nat} (whole : ∀ length ∈ sgs, Aggregate.sdioBlksize ∣ length) {b : BusState}
    (usable : b.Usable) (fits : sgs.sum ≤ func.reqSize) :
    amlSdioCmd53Sg func b true 0 sgs = .ok {
      write := true, addr := 0, count := sgs.sum / func.curBlksize, blksz := func.curBlksize,
      blocks := sgs.sum / func.curBlksize, sgs } := by
  have blocks : amlSdioSgBlocks func sgs = some (sgs.sum / func.curBlksize) := by
    rw [amlSdioSgBlocks, sgLoop_eq func block _ whole 0 (Nat.zero_le _), Nat.zero_add, if_pos fits]
    rfl
  have count : sgs.sum / func.curBlksize &&& 0x1ff = sgs.sum / func.curBlksize := by
    rw [Nat.and_two_pow_sub_one_eq_mod _ 9]
    exact Nat.mod_eq_of_lt (count_lt func fits)
  simp [amlSdioCmd53Sg, blocks, usable.1, usable.2, count]

/-- What is sent could be. -/
theorem usable_of_sent {func : SdioFunc} (block : func.curBlksize ∣ Aggregate.sdioBlksize)
    {sgs : List Nat} (whole : ∀ length ∈ sgs, Aggregate.sdioBlksize ∣ length) {b : BusState}
    {request : MmcRequest} (sent : amlSdioCmd53Sg func b true 0 sgs = .ok request) :
    b.Usable ∧ sgs.sum ≤ func.reqSize := by
  rw [amlSdioCmd53Sg, if_neg (by decide)] at sent
  cases counted : amlSdioSgBlocks func sgs with
  | none =>
      rw [counted] at sent
      cases sent
  | some blocks =>
      simp only [counted] at sent
      split_ifs at sent with blocked err
      refine ⟨⟨Bool.eq_false_of_not_eq_true blocked, not_not.mp err⟩, ?_⟩
      by_contra long
      rw [amlSdioSgBlocks, sgLoop_eq func block _ whole 0 (Nat.zero_le _), Nat.zero_add,
        if_neg long] at counted
      cases counted

/-! ## The batch -/

/-- A frame whose pages an `unsigned char` counts. -/
def TxFrame.Light (frame : TxFrame) : Prop :=
  howmanypage (frame.totLen + sdioDataOffset) sdioPageLen < 256

instance (frame : TxFrame) : Decidable frame.Light := Nat.decLt _ _

theorem dvd_sgLength (frame : TxFrame) : Aggregate.sdioBlksize ∣ frame.sgLength :=
  Nat.dvd_mul_left _ _

/-- A frame takes at least one page, and its entry has no more bytes than its pages. -/
theorem TxFrame.Light.pages {frame : TxFrame} (light : frame.Light) :
    1 ≤ chargedPages .sdio frame ∧ frame.sgLength ≤ sdioPageLen * chargedPages .sdio frame := by
  have same : chargedPages .sdio frame = howmanypage (frame.totLen + sdioDataOffset) sdioPageLen :=
    Nat.mod_eq_of_lt light
  rw [same]
  simp only [TxFrame.sgLength, Aggregate.align, howmanypage, sdioTxheaderLen, sdioDataOffset,
    sdioPageLen, Aggregate.sdioBlksize]
  omega

/-- What holds between two events of a run in which frames are light and `tx_page_once` is not above
a limit. -/
structure Collected (limit : Nat) (s : Sys) : Prop where
  bus : s.bus = .sdio
  once : s.once ≤ limit
  light : ∀ frame ∈ s.saved ++ s.batch, frame.Light
  pages : pagesOf .sdio s.batch ≤ s.totPage
  total : s.totPage ≤ 255
  length : s.batch.length ≤ max limit 1

/-- The frames that are pushed are light, and `tx_page_once` is not set above a limit. -/
def Moderate (limit : Nat) : Event → Prop
  | .push frame => frame.Light
  | .setOnce once => once.toNat ≤ limit
  | _ => True

instance (limit : Nat) : DecidablePred (Moderate limit) := fun e =>
  match e with
  | .push frame => inferInstanceAs (Decidable frame.Light)
  | .setOnce once => Nat.decLe once.toNat limit
  | .wake | .collect _ | .send | .confirm _ => .isTrue trivial

theorem length_le_pagesOf {frames : List TxFrame} (light : ∀ frame ∈ frames, frame.Light) :
    frames.length ≤ pagesOf .sdio frames := by
  induction frames with
  | nil => exact Nat.le_refl 0
  | cons frame frames induction =>
      have one := (light frame List.mem_cons_self).pages.1
      have rest := induction fun other member => light other (List.mem_cons_of_mem _ member)
      rw [pagesOf, List.map_cons, List.sum_cons, List.length_cons]
      rw [pagesOf] at rest
      omega

theorem sum_scatList_le {frames : List TxFrame} (light : ∀ frame ∈ frames, frame.Light) :
    (frames.map TxFrame.sgLength).sum ≤ sdioPageLen * pagesOf .sdio frames := by
  induction frames with
  | nil => exact Nat.zero_le _
  | cons frame frames induction =>
      have entry := (light frame List.mem_cons_self).pages.2
      have rest := induction fun other member => light other (List.mem_cons_of_mem _ member)
      rw [pagesOf, List.map_cons, List.map_cons, List.sum_cons, List.sum_cons, Nat.mul_add]
      exact Nat.add_le_add entry rest

variable {limit : Nat} {s : Sys}

/-- A frame that fits leaves the pages of the batch countable, and the batch short. -/
theorem Collected.room (collected : Collected limit s) (small : limit ≤ 255) {frame : TxFrame}
    (light : frame.Light) (fits : s.Fits frame) :
    s.totPage + chargedPages .sdio frame ≤ 255 ∧ s.batch.length + 1 ≤ max limit 1 := by
  obtain ⟨bus, once, light', pages, -, -⟩ := collected
  have one := light.pages.1
  have least : chargedPages .sdio frame ≤ 255 :=
    Nat.le_of_lt_succ (Nat.mod_lt _ (by decide))
  have length := length_le_pagesOf fun other member =>
    light' other (List.mem_append_right _ member)
  obtain ⟨-, within | first⟩ := fits
  · rw [bus] at within
    exact ⟨by omega, by omega⟩
  · rw [first]
    exact ⟨by omega, by omega⟩

theorem Collected.collect (collected : Collected limit s) (small : limit ≤ 255) (kmalloc : Bool) :
    Collected limit (s.collect kmalloc) := by
  obtain ⟨bus, once, light, pages, total, length⟩ := collected
  rw [Sys.collect]
  cases saved : s.saved with
  | nil =>
      rw [saved] at light
      exact ⟨bus, once, light, pages, total, length⟩
  | cons frame rest =>
      simp only
      split_ifs with fits
      · have first : frame.Light := light frame (by simp [saved])
        obtain ⟨room, short⟩ :=
          Collected.room ⟨bus, once, light, pages, total, length⟩ small first fits
        cases prepared : (s.charge frame).prepare frame kmalloc with
        | none =>
            refine ⟨bus, once, light, pages.trans (Nat.le_add_right _ _), ?_, length⟩
            simpa only [Sys.charge, bus] using room
        | some t =>
            obtain ⟨amsduFree, amsduUsed, rfl⟩ := prepare_pooled prepared
            refine ⟨bus, once, fun other member => light other ?_, ?_, ?_, ?_⟩
            · simp only [Sys.charge, List.mem_append, List.mem_singleton] at member
              simp only [saved, List.mem_append, List.mem_cons]
              tauto
            · simp only [Sys.charge, pagesOf_append, pagesOf_singleton, bus]
              omega
            · simpa only [Sys.charge, bus] using room
            · simpa only [Sys.charge, List.length_append, List.length_singleton] using short
      · exact ⟨bus, once, saved ▸ light, pages, total, length⟩

theorem Collected.step (collected : Collected limit s) (small : limit ≤ 255) {s' : Sys} {e : Event}
    (moderate : Moderate limit e) (ran : s.step e = .ok s') : Collected limit s' := by
  have same := collected
  obtain ⟨bus, once, light, pages, total, length⟩ := collected
  cases e with
  | push frame =>
      cases ran
      split_ifs
      · exact same
      · refine ⟨bus, once, fun other member => ?_, pages, total, length⟩
        simp only [List.mem_append, List.mem_singleton] at member
        rcases member with (old | rfl) | batch
        · exact light other (List.mem_append_left _ old)
        · exact moderate
        · exact light other (List.mem_append_right _ batch)
  | wake =>
      cases ran
      split_ifs
      · exact ⟨bus, once, light, pages, total, length⟩
      · exact same
  | collect kmalloc =>
      cases ran
      split_ifs
      · exact same.collect small kmalloc
      · exact same
  | send =>
      cases ran
      split_ifs
      · rw [Sys.send]
        split_ifs
        · exact ⟨bus, once, light, pages, total, length⟩
        · exact ⟨bus, once, fun other member => light other (by
            simpa using Or.inl (by simpa using member)), Nat.zero_le _, Nat.zero_le _,
            Nat.zero_le _⟩
      · exact same
  | confirm frame =>
      cases ran
      split_ifs
      · exact ⟨bus, once, light, pages, total, length⟩
      · exact same
  | setOnce once =>
      cases ran
      exact ⟨bus, moderate, light, pages, total, length⟩

theorem Collected.init (pages amsdus : Nat) {once : UInt8} (within : once.toNat ≤ limit) :
    Collected limit (Sys.init .sdio pages once.toNat amsdus) :=
  ⟨rfl, within, fun _ member => (by cases member), Nat.zero_le _, Nat.zero_le _, Nat.zero_le _⟩

/-- A batch is never longer than its pages. -/
theorem Collected.sum_le (collected : Collected limit s) :
    s.scatList.sum ≤ sdioPageLen * 255 := by
  have light : ∀ frame ∈ s.batch, frame.Light := fun frame member =>
    collected.light frame (List.mem_append_right _ member)
  calc
    s.scatList.sum ≤ sdioPageLen * pagesOf .sdio s.batch := sum_scatList_le light
    _ ≤ sdioPageLen * 255 := Nat.mul_le_mul_left _ (collected.pages.trans collected.total)

theorem dvd_scatList (s : Sys) : ∀ length ∈ s.scatList, Aggregate.sdioBlksize ∣ length := by
  intro length member
  obtain ⟨frame, -, rfl⟩ := List.mem_map.mp member
  exact dvd_sgLength frame

theorem sum_scatList_pos (batch : s.batch ≠ []) : 0 < s.scatList.sum := by
  obtain ⟨frame, frames, eq⟩ := List.exists_cons_of_ne_nil batch
  have entry : frame.totLen + sdioTxheaderLen ≤ frame.sgLength :=
    Aggregate.le_align _ (by decide)
  rw [Sys.scatList, eq, List.map_cons, List.sum_cons]
  rw [sdioTxheaderLen] at entry
  omega

/-- A command for a batch counts its blocks exactly, and there is one. -/
theorem sendFrame_whole {func : SdioFunc} (block : func.curBlksize ∣ Aggregate.sdioBlksize)
    {b : BusState} {request : MmcRequest} (sent : s.sendFrame func b = .ok request)
    (batch : s.batch ≠ []) :
    request.sgs = s.scatList ∧ request.count * request.blksz = s.scatList.sum ∧
      0 < request.count ∧ request.count < 512 := by
  obtain ⟨usable, fits⟩ := usable_of_sent block (dvd_scatList s) sent
  have whole := blksize_dvd_sum block (dvd_scatList s)
  rw [Sys.sendFrame, amlSdioCmd53Sg_eq func block (dvd_scatList s) usable fits] at sent
  cases sent
  have positive := sum_scatList_pos batch
  exact ⟨rfl, Nat.div_mul_cancel whole,
    Nat.div_pos (Nat.le_of_dvd positive whole) (Nat.pos_of_dvd_of_pos block (by decide)),
    count_lt func fits⟩

/-- In every run on SDIO a batch fits in the array of its scatter list if `tx_page_once` does; it is
sent if and only if the bus can be used and the host takes as many bytes in a request; what is sent
are whole frames, in blocks that the command counts exactly; and a host without limits narrower than
the command's takes every batch. -/
theorem batch_sent_whole (small : limit ≤ 255) (pages amsdus : Nat) {once : UInt8}
    (within : once.toNat ≤ limit) {events : List Event}
    (moderate : ∀ e ∈ events, Moderate limit e)
    (ran : Run.run Sys.step events (Sys.init .sdio pages once.toNat amsdus) = .ok s)
    {func : SdioFunc} (block : func.curBlksize ∣ Aggregate.sdioBlksize) (b : BusState) :
    (limit ≤ scatItemMax → s.batch.length ≤ scatItemMax) ∧
      ((∃ request, s.sendFrame func b = .ok request) ↔
        b.Usable ∧ s.scatList.sum ≤ func.reqSize) ∧
      (s.batch ≠ [] → ∀ request, s.sendFrame func b = .ok request →
        request.sgs = s.batch.map TxFrame.sgLength ∧
          request.count * request.blksz = request.sgs.sum ∧
          0 < request.count ∧ request.count < 512) ∧
      (func.curBlksize = Aggregate.sdioBlksize → sdioMaxBlkCnt ≤ func.maxBlkCount →
        sdioMaxBlkCnt * Aggregate.sdioBlksize ≤ func.maxReqSize → b.Usable →
        ∃ request, s.sendFrame func b = .ok request) := by
  have collected : Collected limit s := Run.kept_of_run
    (fun _ _ _ collected moderate stepped => collected.step small moderate stepped)
    moderate ran (Collected.init pages amsdus within)
  have sends : b.Usable → s.scatList.sum ≤ func.reqSize →
      ∃ request, s.sendFrame func b = .ok request := fun usable fits =>
    ⟨_, amlSdioCmd53Sg_eq func block (dvd_scatList s) usable fits⟩
  refine ⟨fun array => ?_, ⟨?_, fun both => sends both.1 both.2⟩, ?_, ?_⟩
  · exact collected.length.trans (Nat.max_le.mpr ⟨array, by decide⟩)
  · rintro ⟨request, sent⟩
    exact usable_of_sent block (dvd_scatList s) sent
  · intro batch request sent
    obtain ⟨sgs, count⟩ := sendFrame_whole block sent batch
    rw [sgs]
    exact ⟨rfl, count⟩
  · intro size blocks bytes usable
    refine sends usable (collected.sum_le.trans (Nat.le_min.mpr ⟨?_, ?_⟩))
    · rw [size, Nat.min_eq_right blocks]
      decide
    · exact Nat.le_trans (by decide) bytes

/-- An A-MSDU of three packets. -/
def threePackets : TxFrame where
  hostid := 2
  packetLen := [1514, 1500, 1486]
  packetCnt_le := by decide
  amsdu := true

/-- A frame and an A-MSDU are collected. -/
def oneOfEach : List Event :=
  [.push plainFrame, .push threePackets, .wake, .collect true, .collect false]

theorem batch_sent_whole_one_of_each :
    ∃ s, Run.run Sys.step oneOfEach (Sys.init .sdio 255 (65 : UInt8).toNat 40) = .ok s ∧
      s.scatList = [512, 4608] ∧ s.batch.length ≤ scatItemMax ∧
      ∃ request, s.sendFrame ⟨512, 511, 0x40000⟩ ⟨{}, 0, 0⟩ = .ok request ∧
        request.count * request.blksz = 5120 := by
  obtain ⟨s, ran, list⟩ := Run.ends_of_toOption (f := Sys.scatList)
    (show ((Run.run Sys.step oneOfEach (Sys.init .sdio 255 (65 : UInt8).toNat 40)).toOption.map
      Sys.scatList) = some [512, 4608] by decide +kernel)
  have block : (SdioFunc.mk 512 511 0x40000).curBlksize ∣ Aggregate.sdioBlksize := by decide
  have moderate : ∀ e ∈ oneOfEach, Moderate 65 e := by decide
  obtain ⟨array, -, whole, takes⟩ :=
    batch_sent_whole (by decide) 255 40 (by decide) moderate ran block ⟨{}, 0, 0⟩
  obtain ⟨request, sent⟩ := takes rfl (Nat.le_refl _) (by decide) ⟨rfl, rfl⟩
  have batch : s.batch ≠ [] := fun empty => by
    rw [Sys.scatList, empty] at list
    cases list
  obtain ⟨sgs, count, -⟩ := whole batch request sent
  refine ⟨s, ran, list, array (by decide), request, sent, ?_⟩
  rw [count, sgs]
  change s.scatList.sum = 5120
  rw [list]
  rfl

end AmlW2.Tx.Pages
