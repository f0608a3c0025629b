import AmlW2.Lib.Run
import Mathlib.Algebra.BigOperators.Group.List.Basic
import Mathlib.Algebra.Ring.Nat
import Mathlib.Data.List.Perm.Basic

/-!
# Pages of the firmware's TX buffer

On SDIO and USB a frame is charged for pages of the firmware's memory when it is collected into a
batch, and the pages are free again when the frame is confirmed.  A frame whose buffer cannot be
allocated has been charged by then.
-/

namespace AmlW2.Tx.Pages

/-! ## Frames -/

/-- The buses on which the host counts pages. -/
inductive Bus
  | sdio
  | usb
deriving DecidableEq, Repr

/-- `NX_TX_PAYLOAD_MAX`. -/
def nxTxPayloadMax : Nat := 6

/-- A frame with its descriptor: the lengths of its first `packet_cnt` packets. -/
structure TxFrame where
  hostid : Nat
  packetLen : List UInt16
  packetCnt_le : packetLen.length ≤ nxTxPayloadMax
  /-- `TXU_CNTRL_AMSDU`. -/
  amsdu : Bool
deriving DecidableEq

def TxFrame.totLen (frame : TxFrame) : Nat := (frame.packetLen.map UInt16.toNat).sum

/-- `howmanypage`. -/
def howmanypage (x y : Nat) : Nat := (x - 12 + (y - 12 - 1)) / (y - 12)

/-- `SDIO_PAGE_LEN`. -/
def sdioPageLen : Nat := 1024

/-- `SDIO_DATA_OFFSET`. -/
def sdioDataOffset : Nat := 12 + 72

/-- `SDIO_TXHEADER_LEN`. -/
def sdioTxheaderLen : Nat := 4 + 72

/-- The pages `aml_tx_task` charges, an `unsigned char`. -/
def chargedPages (bus : Bus) (frame : TxFrame) : Nat :=
  if bus = .usb then 1 else howmanypage (frame.totLen + sdioDataOffset) sdioPageLen % 256

/-- The pages `aml_tx_cfm_task` credits, an `unsigned char`. -/
def creditedPages (bus : Bus) (frame : TxFrame) : Nat :=
  if bus = .sdio then howmanypage (frame.totLen + sdioDataOffset) sdioPageLen % 256 else 1

theorem creditedPages_eq (bus : Bus) (frame : TxFrame) :
    creditedPages bus frame = chargedPages bus frame := by
  cases bus <;> rfl

/-! ## State -/

/-- Where `aml_tx_task` is. -/
inductive Phase
  | idle
  /-- In the loop over `tx_desc_save`. -/
  | collecting
  /-- Behind the loop. -/
  | sending
deriving DecidableEq, Repr

structure Sys where
  bus : Bus
  /-- `tx_page_tot_num`. -/
  totNum : Nat
  /-- `tx_page_free_num`. -/
  freeNum : Nat
  /-- `tot_page_num`, the pages of the batch. -/
  totPage : Nat
  /-- `tx_page_once`. -/
  once : Nat
  /-- `tx_desc_save`. -/
  saved : List TxFrame
  phase : Phase
  /-- The frames in the scatter list. -/
  batch : List TxFrame
  /-- The lengths of `tx_amsdu_buf_free_list` and `tx_amsdu_buf_used_list`. -/
  amsduFree : Nat
  amsduUsed : Nat
  /-- The frames handed to the bus and not confirmed. -/
  flight : List TxFrame
  /-- The frames charged so far. -/
  charged : List TxFrame
  /-- The frames put into a scatter list so far. -/
  staged : List TxFrame

/-! ## Collecting a batch -/

/-- There are pages for one more frame. -/
def Sys.Fits (s : Sys) (frame : TxFrame) : Prop :=
  chargedPages s.bus frame + 1 ≤ s.freeNum ∧
    (s.totPage + chargedPages s.bus frame ≤ s.once ∨ s.totPage = 0)

instance (s : Sys) (frame : TxFrame) : Decidable (s.Fits frame) := instDecidableAnd

/-- A buffer of `tx_amsdu_buf_free_list` is taken. -/
def Sys.getFreeTxAmsduBuf (s : Sys) : Option Sys :=
  if s.amsduFree = 0 then none
  else some { s with amsduFree := s.amsduFree - 1, amsduUsed := s.amsduUsed + 1 }

/-- `kmalloc`, which succeeds or not. -/
def Sys.kmallocBuf (s : Sys) (kmalloc : Bool) : Option Sys := if kmalloc then some s else none

/-- The memory for a frame. -/
def Sys.prepare (s : Sys) (frame : TxFrame) (kmalloc : Bool) : Option Sys :=
  match s.bus with
  | .sdio =>
      if frame.amsdu ∧ 4096 ≤ frame.totLen + sdioTxheaderLen then s.getFreeTxAmsduBuf
      else s.kmallocBuf kmalloc
  | .usb =>
      if frame.amsdu then
        match s.getFreeTxAmsduBuf with
        | some s => some s
        | none => s.kmallocBuf kmalloc
      else some s

/-- The pages of a frame are taken. -/
def Sys.charge (s : Sys) (frame : TxFrame) : Sys :=
  { s with
    totPage := s.totPage + chargedPages s.bus frame
    freeNum := s.freeNum - chargedPages s.bus frame
    charged := s.charged ++ [frame] }

/-- A turn of the loop over `tx_desc_save`. -/
def Sys.collect (s : Sys) (kmalloc : Bool) : Sys :=
  match s.saved with
  | [] => { s with phase := .sending }
  | frame :: saved =>
      if s.Fits frame then
        -- the pages are taken before the memory is there
        match (s.charge frame).prepare frame kmalloc with
        | some s => { s with saved, batch := s.batch ++ [frame], staged := s.staged ++ [frame] }
        | none => { s.charge frame with phase := .sending }
      else { s with phase := .sending }

/-- The end of a turn of `aml_tx_task`. -/
def Sys.send (s : Sys) : Sys :=
  if s.batch = [] then { s with phase := .idle }
  else
    { s with
      phase := .idle
      batch := []
      flight := s.flight ++ s.batch
      amsduFree := s.amsduFree + s.amsduUsed
      amsduUsed := 0
      totPage := 0 }

/-- `aml_tx_cfm_task` finds the frame of a confirmation. -/
def Sys.confirm (s : Sys) (frame : TxFrame) : Sys :=
  { s with
    flight := s.flight.erase frame
    freeNum := s.freeNum + creditedPages s.bus frame }

/-! ## The system -/

inductive Event
  /-- A frame is pushed to `tx_desc_save`, which is locked while a batch is collected. -/
  | push (frame : TxFrame)
  /-- `aml_tx_task` wakes up. -/
  | wake
  | collect (kmalloc : Bool)
  | send
  | confirm (frame : TxFrame)
  /-- `tx_page_once` is set. -/
  | setOnce (once : UInt8)

/-- One event.  An event that cannot happen changes nothing. -/
def Sys.step (s : Sys) : Event → Except Empty Sys
  | .push frame =>
      .ok (if s.phase = .collecting then s else { s with saved := s.saved ++ [frame] })
  | .wake =>
      .ok (if s.phase = .idle ∧ s.saved ≠ [] then { s with phase := .collecting } else s)
  | .collect kmalloc => .ok (if s.phase = .collecting then s.collect kmalloc else s)
  | .send => .ok (if s.phase = .sending then s.send else s)
  | .confirm frame => .ok (if frame ∈ s.flight then s.confirm frame else s)
  | .setOnce once => .ok { s with once := once.toNat }

/-- After `aml_sdio_usb_tx_page_apply` and `aml_tx_amsdu_list_init`. -/
def Sys.init (bus : Bus) (pages once amsdus : Nat) : Sys where
  bus
  totNum := pages
  freeNum := pages
  totPage := 0
  once
  saved := []
  phase := .idle
  batch := []
  amsduFree := amsdus
  amsduUsed := 0
  flight := []
  charged := []
  staged := []

/-! ## Accounting -/

/-- The pages of some frames. -/
def pagesOf (bus : Bus) (frames : List TxFrame) : Nat := (frames.map (chargedPages bus)).sum

@[simp] theorem pagesOf_nil (bus : Bus) : pagesOf bus [] = 0 := rfl

@[simp] theorem pagesOf_append (bus : Bus) (frames frames' : List TxFrame) :
    pagesOf bus (frames ++ frames') = pagesOf bus frames + pagesOf bus frames' := by
  rw [pagesOf, List.map_append, List.sum_append]
  rfl

@[simp] theorem pagesOf_singleton (bus : Bus) (frame : TxFrame) :
    pagesOf bus [frame] = chargedPages bus frame := List.sum_singleton

theorem pagesOf_erase (bus : Bus) {frames : List TxFrame} {frame : TxFrame}
    (member : frame ∈ frames) :
    chargedPages bus frame + pagesOf bus (frames.erase frame) = pagesOf bus frames := by
  have perm := (List.perm_cons_erase member).map (chargedPages bus)
  exact perm.sum_eq.symm

/-- Every page is free or taken by a frame that is to be confirmed; a batch without a frame has no
pages; and each frame staged, and no other, has been charged, once. -/
structure Balanced (s : Sys) : Prop where
  conserved : s.freeNum + pagesOf s.bus (s.batch ++ s.flight) = s.totNum
  batch : s.batch = [] → s.totPage = 0
  charged : s.charged = s.staged

/-- The memory for a frame that is charged is there. -/
def Prepared (s : Sys) : Event → Prop
  | .collect kmalloc =>
      s.phase = .collecting → ∀ frame, s.saved.head? = some frame → s.Fits frame →
        ((s.charge frame).prepare frame kmalloc).isSome
  | _ => True

/-- A-MSDU buffers are taken, and nothing else. -/
def Pooled (s s' : Sys) : Prop := ∃ amsduFree amsduUsed, s' = { s with amsduFree, amsduUsed }

theorem getFreeTxAmsduBuf_pooled {s s' : Sys} (taken : s.getFreeTxAmsduBuf = some s') :
    Pooled s s' := by
  rw [Sys.getFreeTxAmsduBuf] at taken
  split_ifs at taken
  exact ⟨_, _, (Option.some.inj taken).symm⟩

theorem kmallocBuf_pooled {s s' : Sys} {kmalloc : Bool} (there : s.kmallocBuf kmalloc = some s') :
    Pooled s s' := by
  rw [Sys.kmallocBuf] at there
  split_ifs at there
  exact ⟨s.amsduFree, s.amsduUsed, (Option.some.inj there).symm⟩

theorem prepare_pooled {s s' : Sys} {frame : TxFrame} {kmalloc : Bool}
    (prepared : s.prepare frame kmalloc = some s') : Pooled s s' := by
  rw [Sys.prepare] at prepared
  split at prepared
  · split_ifs at prepared
    · exact getFreeTxAmsduBuf_pooled prepared
    · exact kmallocBuf_pooled prepared
  · split_ifs at prepared
    · split at prepared
      · rename_i taken
        cases prepared
        exact getFreeTxAmsduBuf_pooled taken
      · exact kmallocBuf_pooled prepared
    · cases prepared
      exact ⟨s.amsduFree, s.amsduUsed, rfl⟩

theorem init_balanced (bus : Bus) (pages once amsdus : Nat) :
    Balanced (Sys.init bus pages once amsdus) := ⟨rfl, fun _ => rfl, rfl⟩

theorem Balanced.collect {s : Sys} {kmalloc : Bool} (balanced : Balanced s)
    (prepared : ∀ frame, s.saved.head? = some frame → s.Fits frame →
      ((s.charge frame).prepare frame kmalloc).isSome) : Balanced (s.collect kmalloc) := by
  rw [Sys.collect]
  cases saved : s.saved with
  | nil => exact ⟨balanced.conserved, balanced.batch, balanced.charged⟩
  | cons frame rest =>
      simp only
      split_ifs with fits
      · have there := prepared frame (by rw [saved]; rfl) fits
        obtain ⟨t, eq⟩ := Option.isSome_iff_exists.mp there
        obtain ⟨amsduFree, amsduUsed, rfl⟩ := prepare_pooled eq
        rw [eq]
        have pages := balanced.conserved
        have enough : chargedPages s.bus frame ≤ s.freeNum := Nat.le_of_succ_le fits.1
        refine ⟨?_, fun none => ?_, ?_⟩
        · simp only [Sys.charge, pagesOf_append, pagesOf_singleton] at pages ⊢
          omega
        · exact absurd none (List.append_ne_nil_of_right_ne_nil _ (List.cons_ne_nil frame []))
        · simp only [Sys.charge, balanced.charged]
      · exact ⟨balanced.conserved, balanced.batch, balanced.charged⟩

theorem Balanced.send {s : Sys} (balanced : Balanced s) : Balanced s.send := by
  rw [Sys.send]
  split_ifs
  · exact ⟨balanced.conserved, balanced.batch, balanced.charged⟩
  · refine ⟨?_, fun _ => rfl, balanced.charged⟩
    have pages := balanced.conserved
    simp only [pagesOf_append, pagesOf_nil] at pages ⊢
    omega

/-- What is credited for a frame is what it has been charged. -/
theorem Balanced.confirm {s : Sys} {frame : TxFrame} (balanced : Balanced s)
    (member : frame ∈ s.flight) : Balanced (s.confirm frame) := by
  refine ⟨?_, balanced.batch, balanced.charged⟩
  have pages := balanced.conserved
  have rest := pagesOf_erase s.bus member
  simp only [Sys.confirm, pagesOf_append, creditedPages_eq] at pages ⊢
  omega

theorem Balanced.step {s s' : Sys} {e : Event} (balanced : Balanced s) (prepared : Prepared s e)
    (ran : s.step e = .ok s') : Balanced s' := by
  cases e with
  | push frame =>
      cases ran
      split_ifs
      · exact balanced
      · exact ⟨balanced.conserved, balanced.batch, balanced.charged⟩
  | wake =>
      cases ran
      split_ifs
      · exact ⟨balanced.conserved, balanced.batch, balanced.charged⟩
      · exact balanced
  | collect kmalloc =>
      cases ran
      split_ifs with collecting
      · exact balanced.collect (prepared collecting)
      · exact balanced
  | send =>
      cases ran
      split_ifs
      · exact balanced.send
      · exact balanced
  | confirm frame =>
      cases ran
      split_ifs with member
      · exact balanced.confirm member
      · exact balanced
  | setOnce once =>
      cases ran
      exact ⟨balanced.conserved, balanced.batch, balanced.charged⟩

/-- A frame without memory has been charged, and stays behind. -/
theorem not_balanced_of_not_prepared {s : Sys} {e : Event} (balanced : Balanced s)
    (bare : ¬Prepared s e) : ∃ s', s.step e = .ok s' ∧ ¬Balanced s' := by
  cases e with
  | collect kmalloc =>
      rw [Prepared] at bare
      push Not at bare
      obtain ⟨collecting, frame, head, fits, none⟩ := bare
      obtain ⟨rest, saved⟩ := List.head?_eq_some_iff.mp head
      refine ⟨_, rfl, fun after => ?_⟩
      rw [ne_eq, Option.not_isSome_iff_eq_none] at none
      rw [if_pos collecting, Sys.collect, saved] at after
      simp only [if_pos fits, none] at after
      have charged := after.charged
      simp only [Sys.charge, balanced.charged] at charged
      exact List.cons_ne_nil frame [] (List.append_right_eq_self.mp charged)
  | _ => exact absurd trivial bare

/-- The pages are balanced throughout exactly those runs in which every frame that is charged gets
its memory. -/
theorem balanced_iff_prepared (bus : Bus) (pages once amsdus : Nat) (events : List Event) :
    Run.Safe Sys.step Balanced events (Sys.init bus pages once amsdus) ↔
      Run.Guarded Sys.step Prepared events (Sys.init bus pages once amsdus) := by
  have preserved : ∀ s e, Balanced s → Prepared s e → ∃ s', s.step e = .ok s' ∧ Balanced s' := by
    intro s e balanced prepared
    cases ran : s.step e with
    | ok s' => exact ⟨s', rfl, balanced.step prepared ran⟩
    | error fault => cases fault
  have sharp : ∀ s e s', Balanced s → ¬Prepared s e → s.step e = .ok s' → ¬Balanced s' := by
    intro s e s' balanced bare ran
    obtain ⟨t, ran', unbalanced⟩ := not_balanced_of_not_prepared balanced bare
    rw [ran] at ran'
    cases ran'
    exact unbalanced
  exact Run.safe_iff_guarded preserved (fun _ => id) sharp (init_balanced bus pages once amsdus)

/-! ## A failed allocation -/

/-- A frame of one page. -/
def plainFrame : TxFrame where
  hostid := 1
  packetLen := [60]
  packetCnt_le := by decide
  amsdu := false

/-- The memory for the only frame cannot be allocated. -/
def failedAlone : List Event := [.push plainFrame, .wake, .collect false]

/-- The page of the frame is lost. -/
theorem failed_allocation_loses_page :
    ¬∀ bus pages once amsdus events,
      Run.Safe Sys.step Balanced events (Sys.init bus pages once amsdus) := by
  intro all
  obtain ⟨s, ran, balanced⟩ :=
    all .sdio 255 65 40 failedAlone failedAlone [] (List.append_nil _).symm
  have fields : (Run.run Sys.step failedAlone (Sys.init .sdio 255 65 40)).toOption.map
      (fun s => (s.batch.length, s.totPage)) = some (0, 1) := by decide
  rw [ran] at fields
  simp only [Except.toOption, Option.map_some, Option.some.injEq, Prod.mk.injEq] at fields
  have none := balanced.batch (List.length_eq_zero_iff.mp fields.1)
  rw [fields.2] at none
  cases none

end AmlW2.Tx.Pages
