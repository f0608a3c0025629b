import AmlW2.Lib.Run
import Mathlib.Algebra.Ring.Nat
import Mathlib.Data.List.Basic
import Mathlib.Data.List.Nodup

/-!
# Receive buffers on PCIe

The firmware receives into buffers that the host has pushed to it.  A descriptor with the bit
`RX_STAT_ALLOC` carries a frame in buffers that are the host's from then on: one, and one more for
every further subframe of a long A-MSDU.  The host is to push as many new ones.
-/

namespace AmlW2.Rx.Buffers

/-! ## Descriptors -/

/-- `RX_STAT_FORWARD`. -/
def rxStatForward : UInt16 := 1

/-- `RX_STAT_ALLOC`. -/
def rxStatAlloc : UInt16 := 2

/-- `RX_STAT_DELETE`. -/
def rxStatDelete : UInt16 := 4

/-- `RX_STAT_LEN_UPDATE`. -/
def rxStatLenUpdate : UInt16 := 8

/-- `RX_STAT_SPURIOUS`. -/
def rxStatSpurious : UInt16 := 64

/-- `RX_STAT_MONITOR`. -/
def rxStatMonitor : UInt16 := 128

/-- `AML_RXBUFF_MAX`. -/
def amlRxbuffMax : Nat := 64 * 8 * 10

/-- `NORMAL_AMSDU_MAX_LEN`. -/
def normalAmsduMaxLen : Nat := 2304

/-- `NX_VIRT_DEV_MAX`. -/
def nxVirtDevMax : Nat := 4

/-- What of a `struct hw_rxhdr` decides over the buffers of a frame. -/
structure RxHdr where
  /-- `hwvect.len`. -/
  len : UInt32
  flagsIsAmsdu : Bool
  flagsIs80211Mpdu : Bool
  flagsVifIdx : UInt8
  flagsStaIdx : UInt8
  amsduHostids : List UInt32
  amsduHostids_length : amsduHostids.length = 7

/-- The host ids of the further subframes. -/
def RxHdr.continuations (hdr : RxHdr) : List UInt32 :=
  if hdr.flagsIsAmsdu then hdr.amsduHostids.takeWhile (· ≠ 0) else []

/-- A buffer, by the number of times the length of a `struct hw_rxhdr` is reserved in it. -/
structure Skb where
  /-- What is read as `struct hw_rxhdr` at `skb->data`. -/
  hdr : Nat → RxHdr
  /-- `skb_tailroom`. -/
  tailroom : Nat → Nat
  /-- The number of frames `ieee80211_amsdu_to_8023s` finds. -/
  subframes : Nat → Nat
  /-- The buffers are of `rxbuf_sz` bytes. -/
  roomy : normalAmsduMaxLen ≤ tailroom 1

structure Vif where
  up : Bool
  /-- `iftype` is `NL80211_IFTYPE_MONITOR`. -/
  monitor : Bool

/-- A receive descriptor with the main buffer of its frame, and what the host finds while it
processes them. -/
structure Upload where
  status : UInt16
  hostId : UInt32
  skb : Skb
  vifTable : Nat → Option Vif
  monitorVif : Nat
  /-- The `vlan_idx` of the valid stations. -/
  staTable : Nat → Option Nat
  /-- A recovery of the firmware is under way. -/
  recovery : Bool
  /-- `bus_suspend_cnt` is not zero. -/
  suspended : Bool
  /-- `g_pci_shutdown`. -/
  shutdown : Bool
  /-- Whether `aml_ipc_rxskb_alloc` succeeds, by the number of buffers still to come. -/
  memory : Nat → Bool

namespace Upload

def has (u : Upload) (bit : UInt16) : Prop := u.status &&& bit ≠ 0

instance (u : Upload) (bit : UInt16) : Decidable (u.has bit) :=
  inferInstanceAs (Decidable (_ ≠ _))

/-- `aml_rx_get_vif`. -/
def getVif (u : Upload) (vifIdx : Nat) : Option Vif :=
  if vifIdx < nxVirtDevMax then (u.vifTable vifIdx).filter (·.up) else none

/-- The interface a frame goes to: where its station is on an AP_VLAN interface, this one. -/
def vif (u : Upload) (hdr : RxHdr) : Option Vif :=
  match u.getVif hdr.flagsVifIdx.toNat with
  | none => none
  | some vif =>
      match u.staTable hdr.flagsStaIdx.toNat with
      | none => some vif
      | some vlan => if vlan = hdr.flagsVifIdx.toNat then some vif else u.vifTable vlan

/-- A monitor interface is open. -/
def monitorOpen (u : Upload) : Bool := (u.getVif u.monitorVif).any (·.monitor)

/-- The branch for the monitor interface is taken: it skips the header. -/
def Skipped (u : Upload) : Prop := u.has rxStatMonitor ∧ u.monitorOpen

instance (u : Upload) : Decidable u.Skipped := inferInstanceAs (Decidable (_ ∧ _))

end Upload

/-! ## The buffers of the host -/

structure Sys where
  /-- `rxbufs`: the host ids of those that have a buffer. -/
  rxbufs : Nat → Option UInt32
  rxbufIdx : Nat
  repushRxbuffCnt : Nat
  /-- The number of new buffers pushed. -/
  fresh : Nat
  /-- The number of times a buffer was pushed again. -/
  repushed : Nat
  /-- The number of buffers that could not be allocated. -/
  failed : Nat
  /-- The number of buffers that came with frames. -/
  used : Nat

inductive Fault
  /-- A host id whose index is negative passes `AML_RXBUFF_VALID_IDX`. -/
  | beforeTable
  /-- `skb_put` beyond the end of a buffer. -/
  | skbOverPanic
deriving DecidableEq, Repr

namespace Sys

/-- `aml_ipc_buf_e2a_release` and `aml_ipc_rxbuf_dealloc`, for the table. -/
def release (s : Sys) (idx : Nat) : Sys :=
  { s with rxbufs := fun i => if i = idx then none else s.rxbufs i }

/-- `aml_ipc_rxbuf_from_hostid`. -/
def rxbufFromHostid (s : Sys) (hostid : UInt32) : Except Fault (Option Nat × Sys) :=
  if hostid = 0 ∨ 2 ^ 31 < hostid.toNat then .error .beforeTable
  else
    let idx := hostid.toNat - 1
    if idx < amlRxbuffMax then
      match s.rxbufs idx with
      | none => .ok (none, s)
      | some own => if own = hostid then .ok (some idx, s) else .ok (none, s.release idx)
    else .ok (none, s)

/-- The search of `aml_ipc_rxbuf_alloc` for a free place, from `idx` on. -/
def freePlace (s : Sys) : Nat → Nat → Option Nat
  | 0, _ => none
  | left + 1, idx =>
      match s.rxbufs idx with
      | none => some idx
      | some _ => s.freePlace left ((idx + 1) % amlRxbuffMax)

/-- `aml_ipc_rxbuf_alloc`; the push is refused when the bus is shut down. -/
def rxbufAlloc (s : Sys) (memory shutdown : Bool) : Sys :=
  match s.freePlace amlRxbuffMax s.rxbufIdx with
  | none => { s with failed := s.failed + 1 }
  | some idx =>
      let s := { s with rxbufIdx := (idx + 1) % amlRxbuffMax }
      if memory then
        { s with
          rxbufs := fun i => if i = idx then some (UInt32.ofNat (idx + 1)) else s.rxbufs i
          fresh := if shutdown then s.fresh else s.fresh + 1 }
      else
        { s with failed := s.failed + 1 }

/-- The loop that replaces `nb_buff` buffers. -/
def rxbufsAlloc (u : Upload) : Nat → Sys → Sys
  | 0, s => s
  | nbBuff + 1, s =>
      rxbufsAlloc u nbBuff
        (if u.suspended then { s with repushRxbuffCnt := s.repushRxbuffCnt + 1 }
        else s.rxbufAlloc (u.memory nbBuff) u.shutdown)

/-- The loop of `aml_rx_amsdu_free`. -/
def amsduFreeFrom : List UInt32 → Nat → Sys → Except Fault (Nat × Sys)
  | [], res, s => .ok (res, s)
  | hostid :: hostids, res, s =>
      if hostid = 0 then .ok (res, s)
      else
        match s.rxbufFromHostid hostid with
        | .error fault => .error fault
        | .ok (none, s) => amsduFreeFrom hostids res s
        | .ok (some idx, s) => amsduFreeFrom hostids (res + 1) (s.release idx)

/-- `aml_rx_amsdu_free`. -/
def rxAmsduFree (s : Sys) (hdr : RxHdr) : Except Fault (Nat × Sys) :=
  if hdr.flagsIsAmsdu then amsduFreeFrom hdr.amsduHostids 1 s else .ok (1, s)

/-- The loop of `aml_rx_data_skb` over the further subframes. -/
def subframesFrom : List UInt32 → Nat → Sys → Except Fault (Nat × Sys)
  | [], res, s => .ok (res, s)
  | hostid :: hostids, res, s =>
      if hostid = 0 then .ok (res, s)
      else
        match s.rxbufFromHostid hostid with
        | .error fault => .error fault
        | .ok (none, s) => .ok (res, s)
        | .ok (some idx, s) => subframesFrom hostids (res + 1) (s.release idx)

/-- `aml_rx_data_skb`: the number of buffers processed. -/
def rxDataSkb (s : Sys) (skb : Skb) (reserved : Nat) (hdr : RxHdr) : Except Fault (Nat × Sys) :=
  if hdr.flagsIsAmsdu then
    if normalAmsduMaxLen < hdr.len.toNat then subframesFrom hdr.amsduHostids 1 s
    else if skb.tailroom reserved < hdr.len.toNat then .error .skbOverPanic
    else .ok (if skb.subframes reserved = 0 then 0 else 1, s)
  else .ok (1, s)

/-- From `check_alloc` on, with what was counted. -/
def checkAlloc (u : Upload) : Except Fault (Nat × Sys) → Except Fault Sys
  | .ok (nbBuff, s) => .ok (if u.has rxStatAlloc then rxbufsAlloc u nbBuff s else s)
  | .error fault => .error fault

/-- A frame that goes on to the network stack; `reserved` headers were skipped before. -/
def forward (s : Sys) (u : Upload) (reserved : Nat) : Except Fault Sys :=
  let hdr := u.skb.hdr reserved
  if hdr.flagsIs80211Mpdu then
    if u.skb.tailroom (reserved + 1) < hdr.len.toNat then .ok s
    else checkAlloc u (.ok (1, s))
  else
    match u.vif hdr with
    | none => checkAlloc u (s.rxAmsduFree hdr)
    | some _ => checkAlloc u (s.rxDataSkb u.skb (reserved + 1) hdr)

/-- From `check_len_update` on; in the branch for the monitor interface one header was skipped. -/
def checkLenUpdate (s : Sys) (u : Upload) (idx reserved : Nat) : Except Fault Sys :=
  if u.has rxStatLenUpdate then .ok s
  else if u.has rxStatSpurious then .ok { s with repushed := s.repushed + 1 }
  else if u.has rxStatForward then (s.release idx).forward u reserved
  else if reserved = 0 then checkAlloc u (.ok (1 + (u.skb.hdr 0).continuations.length, s))
  else checkAlloc u (.ok (1, s))

/-- `aml_pci_rxdataind`. -/
def rxdataind (s : Sys) (u : Upload) : Except Fault Sys :=
  if u.recovery ∨ u.status = 0 then .ok s
  else
    match s.rxbufFromHostid u.hostId with
    | .error fault => .error fault
    | .ok (none, s) => checkAlloc u (.ok (1, s))
    | .ok (some idx, s) =>
        if u.has rxStatDelete then
          checkAlloc u ((s.rxAmsduFree (u.skb.hdr 0)).map fun r => (r.1, r.2.release idx))
        else if u.Skipped then
          if u.status = rxStatMonitor then .ok (rxbufsAlloc u 1 (s.release idx))
          else s.checkLenUpdate u idx 1
        else s.checkLenUpdate u idx 0

/-- The firmware uploads a frame: with `RX_STAT_ALLOC`, its buffers are the host's. -/
def step (s : Sys) (u : Upload) : Except Fault Sys :=
  rxdataind
    { s with
      used := if u.has rxStatAlloc then s.used + (1 + (u.skb.hdr 0).continuations.length)
        else s.used } u

end Sys

/-! ## What is to be replaced -/

/-- The host id is that of a buffer. -/
def Sys.Valid (s : Sys) (hostid : UInt32) : Prop :=
  hostid ≠ 0 ∧ hostid.toNat ≤ amlRxbuffMax ∧ s.rxbufs (hostid.toNat - 1) = some hostid

/-- A descriptor with `RX_STAT_ALLOC`, whose host ids are valid and different, comes while the
device is awake, and every allocation for it succeeds. -/
structure Sound (s : Sys) (u : Upload) : Prop where
  alloc : u.has rxStatAlloc
  awake : u.recovery = false ∧ u.suspended = false ∧ u.shutdown = false
  main : s.Valid u.hostId
  others : ∀ hostid ∈ (u.skb.hdr 0).continuations, s.Valid hostid
  distinct : (u.hostId :: (u.skb.hdr 0).continuations).Nodup
  allocated : ∀ s', s.step u = .ok s' → s'.failed = s.failed

/-- The firmware has got a new buffer for every one that came with a frame. -/
def Conserved (s : Sys) : Prop := s.fresh = s.used

namespace Upload

/-- A frame that is forwarded is no truncated management frame and no short A-MSDU without
subframes, and only a long A-MSDU, or one that is dropped, has further buffers. -/
def Delivered (u : Upload) : Prop :=
  let hdr := u.skb.hdr 0
  if hdr.flagsIs80211Mpdu then
    hdr.len.toNat ≤ u.skb.tailroom 1 ∧ hdr.continuations = []
  else
    (u.vif hdr).isSome → hdr.flagsIsAmsdu → hdr.len.toNat ≤ normalAmsduMaxLen →
      u.skb.subframes 1 ≠ 0 ∧ hdr.continuations = []

/-- The frame is deleted; or it is neither updated nor spurious, and is either delivered, with its
header in place, or stays where it is, with its header in place or a single buffer. -/
def Replaced (u : Upload) : Prop :=
  u.has rxStatDelete ∨
    ¬u.has rxStatLenUpdate ∧ ¬u.has rxStatSpurious ∧
      if u.has rxStatForward then ¬u.Skipped ∧ u.Delivered
      else u.Skipped → (u.skb.hdr 0).continuations = []

/-- The header of a frame that is forwarded is read where it is. -/
def InPlace (u : Upload) : Prop :=
  ¬u.has rxStatDelete → ¬u.has rxStatLenUpdate → ¬u.has rxStatSpurious →
    u.has rxStatForward → ¬u.Skipped

theorem Replaced.inPlace {u : Upload} (replaced : u.Replaced) : u.InPlace := by
  intro kept _ _ forwarded
  obtain deleted | ⟨-, -, rest⟩ := replaced
  · exact absurd deleted kept
  · rw [if_pos forwarded] at rest
    exact rest.1

end Upload

/-! ## Counting -/

namespace Sys

/-- Two states that differ in their tables only. -/
structure SameCounts (s s' : Sys) : Prop where
  fresh : s.fresh = s'.fresh
  failed : s.failed = s'.failed
  used : s.used = s'.used

theorem SameCounts.refl (s : Sys) : SameCounts s s := ⟨rfl, rfl, rfl⟩

theorem SameCounts.trans {s s' s'' : Sys} (first : SameCounts s s') (second : SameCounts s' s'') :
    SameCounts s s'' :=
  ⟨first.fresh.trans second.fresh, first.failed.trans second.failed, first.used.trans second.used⟩

theorem sameCounts_release (s : Sys) (idx : Nat) : SameCounts (s.release idx) s := ⟨rfl, rfl, rfl⟩

theorem rxbufFromHostid_valid {s : Sys} {hostid : UInt32} (valid : s.Valid hostid) :
    s.rxbufFromHostid hostid = .ok (some (hostid.toNat - 1), s) := by
  obtain ⟨nonzero, small, own⟩ := valid
  have positive : hostid.toNat ≠ 0 := fun zero => nonzero (UInt32.toNat_inj.mp zero)
  have bound : amlRxbuffMax = 5120 := rfl
  have table : ¬(hostid = 0 ∨ 2 ^ 31 < hostid.toNat) := by
    rintro (zero | large)
    · exact nonzero zero
    · omega
  have inside : hostid.toNat - 1 < amlRxbuffMax := by omega
  rw [rxbufFromHostid, if_neg table, if_pos inside, own]
  simp only [if_true]

/-- Another buffer is still there when one is released. -/
theorem Valid.release {s : Sys} {hostid other : UInt32} (valid : s.Valid hostid)
    (valid' : s.Valid other) (different : hostid ≠ other) :
    (s.release (other.toNat - 1)).Valid hostid := by
  obtain ⟨nonzero, small, own⟩ := valid
  have apart : hostid.toNat - 1 ≠ other.toNat - 1 := by
    intro same
    rw [same, valid'.2.2] at own
    exact different (Option.some.inj own).symm
  exact ⟨nonzero, small, (if_neg apart).trans own⟩

/-- Both loops over the further subframes count them all. -/
theorem amsduFreeFrom_valid {hostids : List UInt32} {s : Sys} (res : Nat)
    (valid : ∀ hostid ∈ hostids.takeWhile (· ≠ 0), s.Valid hostid)
    (distinct : (hostids.takeWhile (· ≠ 0)).Nodup) :
    ∃ s', amsduFreeFrom hostids res s = .ok (res + (hostids.takeWhile (· ≠ 0)).length, s') ∧
      subframesFrom hostids res s = .ok (res + (hostids.takeWhile (· ≠ 0)).length, s') ∧
      SameCounts s' s := by
  induction hostids generalizing res s with
  | nil => exact ⟨s, rfl, rfl, .refl s⟩
  | cons hostid hostids induction =>
      by_cases zero : hostid = 0
      · have none : (hostid :: hostids).takeWhile (· ≠ 0) = [] :=
          List.takeWhile_cons_of_neg (by simpa using zero)
        rw [none, amsduFreeFrom, subframesFrom, if_pos zero, if_pos zero]
        exact ⟨s, rfl, rfl, .refl s⟩
      · have split : (hostid :: hostids).takeWhile (· ≠ 0) =
            hostid :: hostids.takeWhile (· ≠ 0) :=
          List.takeWhile_cons_of_pos (by simpa using zero)
        rw [split] at valid distinct ⊢
        have first := valid hostid List.mem_cons_self
        obtain ⟨absent, distinct⟩ := List.nodup_cons.mp distinct
        obtain ⟨s', freed, taken, same⟩ := induction (s := s.release (hostid.toNat - 1)) (res + 1)
          (fun other member => (valid other (List.mem_cons_of_mem _ member)).release first
            (fun same => absent (same ▸ member))) distinct
        have count : res + (hostid :: hostids.takeWhile (· ≠ 0)).length =
            res + 1 + (hostids.takeWhile (· ≠ 0)).length := by
          rw [List.length_cons]
          omega
        rw [count, amsduFreeFrom, subframesFrom, if_neg zero, if_neg zero,
          rxbufFromHostid_valid first]
        exact ⟨s', freed, taken, same.trans (sameCounts_release s _)⟩

/-- A new buffer is pushed, or one could not be allocated. -/
theorem rxbufAlloc_counts (s : Sys) (memory : Bool) :
    (s.rxbufAlloc memory false).used = s.used ∧ s.failed ≤ (s.rxbufAlloc memory false).failed ∧
      (s.rxbufAlloc memory false).fresh + (s.rxbufAlloc memory false).failed =
        s.fresh + s.failed + 1 := by
  rw [rxbufAlloc]
  cases s.freePlace amlRxbuffMax s.rxbufIdx with
  | none => exact ⟨rfl, Nat.le_succ _, rfl⟩
  | some idx =>
      cases memory with
      | true =>
          refine ⟨rfl, Nat.le_refl _, ?_⟩
          simp only [if_true, Bool.false_eq_true, if_false]
          omega
      | false => exact ⟨rfl, Nat.le_succ _, rfl⟩

/-- As many buffers are pushed as are counted, but for those that could not be allocated. -/
theorem rxbufsAlloc_counts {u : Upload} (awake : u.suspended = false) (still : u.shutdown = false)
    (nbBuff : Nat) (s : Sys) :
    (rxbufsAlloc u nbBuff s).used = s.used ∧ s.failed ≤ (rxbufsAlloc u nbBuff s).failed ∧
      (rxbufsAlloc u nbBuff s).fresh + (rxbufsAlloc u nbBuff s).failed =
        s.fresh + s.failed + nbBuff := by
  induction nbBuff generalizing s with
  | zero => exact ⟨rfl, Nat.le_refl _, rfl⟩
  | succ nbBuff induction =>
      rw [rxbufsAlloc, awake, still, if_neg Bool.false_ne_true]
      obtain ⟨used, failed, fresh⟩ := rxbufAlloc_counts s (u.memory nbBuff)
      obtain ⟨used', failed', fresh'⟩ := induction (s.rxbufAlloc (u.memory nbBuff) false)
      exact ⟨used'.trans used, Nat.le_trans failed failed', by omega⟩

/-- What was counted for a descriptor is the number of its buffers. -/
def Counts (u : Upload) (nbBuff : Nat) : Prop :=
  nbBuff = 1 + (u.skb.hdr 0).continuations.length

theorem rxAmsduFree_valid {s : Sys} {hdr : RxHdr}
    (valid : ∀ hostid ∈ hdr.continuations, s.Valid hostid) (distinct : hdr.continuations.Nodup) :
    ∃ s', s.rxAmsduFree hdr = .ok (1 + hdr.continuations.length, s') ∧ SameCounts s' s := by
  rw [RxHdr.continuations] at valid distinct ⊢
  rw [rxAmsduFree]
  split_ifs at valid distinct ⊢ with amsdu
  · obtain ⟨s', freed, -, same⟩ := amsduFreeFrom_valid 1 valid distinct
    exact ⟨s', freed, same⟩
  · exact ⟨s, rfl, .refl s⟩

/-- The buffers of a data frame are counted, but for a short A-MSDU. -/
theorem rxDataSkb_valid {s : Sys} {skb : Skb} {hdr : RxHdr}
    (valid : ∀ hostid ∈ hdr.continuations, s.Valid hostid) (distinct : hdr.continuations.Nodup) :
    ∃ nbBuff s', s.rxDataSkb skb 1 hdr = .ok (nbBuff, s') ∧ SameCounts s' s ∧
      (nbBuff = 1 + hdr.continuations.length ↔ (hdr.flagsIsAmsdu →
        hdr.len.toNat ≤ normalAmsduMaxLen → skb.subframes 1 ≠ 0 ∧ hdr.continuations = [])) := by
  by_cases amsdu : hdr.flagsIsAmsdu = true
  · by_cases long : normalAmsduMaxLen < hdr.len.toNat
    · have all : hdr.continuations = hdr.amsduHostids.takeWhile (· ≠ 0) := by
        rw [RxHdr.continuations, if_pos amsdu]
      rw [all] at valid distinct
      obtain ⟨s', -, taken, same⟩ := amsduFreeFrom_valid 1 valid distinct
      rw [rxDataSkb, if_pos amsdu, if_pos long, all]
      exact ⟨_, s', taken, same, fun _ _ short => absurd short (Nat.not_le.mpr long), fun _ => rfl⟩
    · have short := Nat.not_lt.mp long
      have fits : ¬skb.tailroom 1 < hdr.len.toNat :=
        Nat.not_lt.mpr (Nat.le_trans short skb.roomy)
      rw [rxDataSkb, if_pos amsdu, if_neg long, if_neg fits]
      refine ⟨_, s, rfl, .refl s, ?_⟩
      rw [← List.length_eq_zero_iff]
      constructor
      · intro counted _ _
        split_ifs at counted with none
        · omega
        · exact ⟨none, by omega⟩
      · intro held
        obtain ⟨some, single⟩ := held amsdu short
        rw [if_neg some, single]
  · have single : hdr.continuations = [] := by rw [RxHdr.continuations, if_neg amsdu]
    rw [rxDataSkb, if_neg amsdu, single]
    exact ⟨1, s, rfl, .refl s, fun _ is => absurd is amsdu, fun _ => rfl⟩

/-- A frame that is forwarded is counted right exactly when it is delivered. -/
theorem forward_valid {s : Sys} {u : Upload} (alloc : u.has rxStatAlloc)
    (valid : ∀ hostid ∈ (u.skb.hdr 0).continuations, s.Valid hostid)
    (distinct : (u.skb.hdr 0).continuations.Nodup) :
    ∃ nbBuff s', s.forward u 0 = .ok (rxbufsAlloc u nbBuff s') ∧ SameCounts s' s ∧
      (Counts u nbBuff ↔ u.Delivered) := by
  rw [forward, Upload.Delivered]
  simp only [Counts]
  by_cases mpdu : (u.skb.hdr 0).flagsIs80211Mpdu = true
  · rw [if_pos mpdu, if_pos mpdu, ← List.length_eq_zero_iff]
    by_cases truncated : u.skb.tailroom (0 + 1) < (u.skb.hdr 0).len.toNat
    · rw [if_pos truncated]
      refine ⟨0, s, rfl, .refl s, fun counted => ?_, fun fits => ?_⟩
      · omega
      · exact absurd fits.1 (Nat.not_le.mpr truncated)
    · rw [if_neg truncated, checkAlloc, if_pos alloc]
      refine ⟨1, s, rfl, .refl s, fun counted => ⟨Nat.not_lt.mp truncated, ?_⟩, fun fits => ?_⟩
      · omega
      · omega
  · rw [if_neg mpdu, if_neg mpdu]
    cases vif : u.vif (u.skb.hdr 0) with
    | none =>
        obtain ⟨s', freed, same⟩ := rxAmsduFree_valid valid distinct
        refine ⟨_, s', ?_, same, fun _ none => absurd none Bool.false_ne_true, fun _ => rfl⟩
        rw [freed, checkAlloc, if_pos alloc]
    | some vif =>
        obtain ⟨nbBuff, s', processed, same, counted⟩ :=
          @rxDataSkb_valid _ u.skb _ valid distinct
        refine ⟨nbBuff, s', ?_, same, counted.trans ⟨fun held _ => held, fun held => held rfl⟩⟩
        rw [processed, checkAlloc, if_pos alloc]

/-- A descriptor is counted right exactly when its buffers are replaced. -/
theorem rxdataind_valid {s : Sys} {u : Upload} (alloc : u.has rxStatAlloc)
    (awake : u.recovery = false) (main : s.Valid u.hostId)
    (others : ∀ hostid ∈ (u.skb.hdr 0).continuations, s.Valid hostid)
    (distinct : (u.hostId :: (u.skb.hdr 0).continuations).Nodup) (inPlace : u.InPlace) :
    ∃ nbBuff s', s.rxdataind u = .ok (rxbufsAlloc u nbBuff s') ∧ SameCounts s' s ∧
      (Counts u nbBuff ↔ u.Replaced) := by
  obtain ⟨absent, distinct⟩ := List.nodup_cons.mp distinct
  have started : ¬(u.recovery = true ∨ u.status = 0) := by
    rintro (recovery | idle)
    · exact Bool.false_ne_true (awake.symm.trans recovery)
    · rw [Upload.has, idle] at alloc
      exact alloc rfl
  have single : u.status ≠ rxStatMonitor := by
    intro only
    rw [Upload.has, only] at alloc
    exact alloc rfl
  rw [rxdataind, if_neg started, rxbufFromHostid_valid main]
  simp only
  by_cases deleted : u.has rxStatDelete
  · obtain ⟨s', freed, same⟩ := rxAmsduFree_valid others distinct
    rw [if_pos deleted, freed, Except.map, checkAlloc, if_pos alloc]
    exact ⟨_, _, rfl, (sameCounts_release s' _).trans same, fun _ => .inl deleted, fun _ => rfl⟩
  · rw [if_neg deleted, Upload.Replaced]
    have way : (if u.Skipped then
          if u.status = rxStatMonitor then
            .ok (rxbufsAlloc u 1 (s.release (u.hostId.toNat - 1)))
          else s.checkLenUpdate u (u.hostId.toNat - 1) 1
        else s.checkLenUpdate u (u.hostId.toNat - 1) 0) =
        s.checkLenUpdate u (u.hostId.toNat - 1) (if u.Skipped then 1 else 0) := by
      rw [if_neg single]
      by_cases skipped : u.Skipped
      · rw [if_pos skipped, if_pos skipped]
      · rw [if_neg skipped, if_neg skipped]
    rw [way, checkLenUpdate]
    by_cases updated : u.has rxStatLenUpdate
    · rw [if_pos updated]
      exact ⟨0, s, rfl, .refl s, fun counted => absurd counted (by rw [Counts]; omega),
        fun replaced => absurd updated (replaced.resolve_left deleted).1⟩
    by_cases spurious : u.has rxStatSpurious
    · rw [if_neg updated, if_pos spurious]
      exact ⟨0, _, rfl, ⟨rfl, rfl, rfl⟩, fun counted => absurd counted (by rw [Counts]; omega),
        fun replaced => absurd spurious (replaced.resolve_left deleted).2.1⟩
    rw [if_neg updated, if_neg spurious]
    by_cases forwarded : u.has rxStatForward
    · have header := inPlace deleted updated spurious forwarded
      rw [if_pos forwarded, if_pos forwarded, if_neg header]
      obtain ⟨nbBuff, s', ran, same, counted⟩ := forward_valid (s := s.release (u.hostId.toNat - 1))
        alloc (fun hostid member => (others hostid member).release main
          (fun same => absent (same ▸ member))) distinct
      refine ⟨nbBuff, s', ran, same.trans (sameCounts_release s _), counted.trans ?_⟩
      exact ⟨fun delivered => .inr ⟨updated, spurious, header, delivered⟩,
        fun replaced => (replaced.resolve_left deleted).2.2.2⟩
    · rw [if_neg forwarded, if_neg forwarded]
      by_cases skipped : u.Skipped
      · rw [if_pos skipped, if_neg Nat.one_ne_zero, checkAlloc, if_pos alloc]
        refine ⟨1, s, rfl, .refl s, fun counted => .inr ⟨updated, spurious, fun _ => ?_⟩, ?_⟩
        · rw [← List.length_eq_zero_iff]
          rw [Counts] at counted
          omega
        · intro replaced
          rw [Counts, (replaced.resolve_left deleted).2.2 skipped]
          rfl
      · rw [if_neg skipped, if_pos rfl, checkAlloc, if_pos alloc]
        exact ⟨_, s, rfl, .refl s, fun _ => .inr ⟨updated, spurious, fun is => absurd is skipped⟩,
          fun _ => rfl⟩

/-- As many new buffers are pushed as came exactly when they are replaced. -/
theorem step_counts {s : Sys} {u : Upload} (sound : Sound s u) (inPlace : u.InPlace) :
    ∃ s', s.step u = .ok s' ∧
      s'.used = s.used + (1 + (u.skb.hdr 0).continuations.length) ∧
      (s'.fresh = s.fresh + (1 + (u.skb.hdr 0).continuations.length) ↔ u.Replaced) := by
  obtain ⟨awake, active, still⟩ := sound.awake
  obtain ⟨nbBuff, s₀, ran, same, counted⟩ := rxdataind_valid
    (s := { s with used := s.used + (1 + (u.skb.hdr 0).continuations.length) }) sound.alloc awake
    sound.main sound.others sound.distinct inPlace
  have stepped : s.step u = .ok (rxbufsAlloc u nbBuff s₀) := by
    rw [step, if_pos sound.alloc]
    exact ran
  obtain ⟨used, -, fresh⟩ := rxbufsAlloc_counts active still nbBuff s₀
  have allocated := sound.allocated _ stepped
  have before : s₀.fresh = s.fresh := same.fresh
  have unfailed : s₀.failed = s.failed := same.failed
  refine ⟨_, stepped, used.trans same.used, Iff.trans ?_ counted⟩
  rw [Counts]
  omega

end Sys

/-- The firmware gets a new buffer for every one that comes with a frame in all runs whose frames
are replaced; and, where no header is read in the wrong place, in no others. -/
theorem conserved_iff_replaced (s : Sys) (frames : List Upload) (start : s.fresh = s.used)
    (sound : Run.Guarded Sys.step Sound frames s) :
    (Run.Guarded Sys.step (fun _ u => u.Replaced) frames s → Run.Safe Sys.step Conserved frames s) ∧
      (Run.Guarded Sys.step (fun _ u => u.InPlace) frames s →
        Run.Safe Sys.step Conserved frames s →
          Run.Guarded Sys.step (fun _ u => u.Replaced) frames s) := by
  constructor
  · intro replaced
    have preserved : ∀ s u, Conserved s → Sound s u ∧ u.Replaced →
        ∃ s', s.step u = .ok s' ∧ Conserved s' := by
      rintro s u conserved ⟨sound, replaced⟩
      obtain ⟨s', ran, used, fresh⟩ := Sys.step_counts sound replaced.inPlace
      exact ⟨s', ran, by rw [Conserved, used, fresh.mpr replaced, conserved]⟩
    exact (sound.and replaced).safe preserved (fun _ => id) start
  · intro inPlace safe
    have preserved : ∀ s u, Conserved s → Sound s u ∧ u.InPlace → u.Replaced →
        ∃ s', s.step u = .ok s' ∧ Conserved s' := by
      rintro s u conserved ⟨sound, inPlace⟩ replaced
      obtain ⟨s', ran, used, fresh⟩ := Sys.step_counts sound inPlace
      exact ⟨s', ran, by rw [Conserved, used, fresh.mpr replaced, conserved]⟩
    have sharp : ∀ s u s', Conserved s → Sound s u ∧ u.InPlace → ¬u.Replaced →
        s.step u = .ok s' → ¬Conserved s' := by
      rintro s u s' conserved ⟨sound, inPlace⟩ bad ran conserved'
      obtain ⟨t, ran', used, fresh⟩ := Sys.step_counts sound inPlace
      obtain rfl : s' = t := Except.ok.inj (ran.symm.trans ran')
      rw [Conserved] at conserved conserved'
      exact bad (fresh.mp (by omega))
    exact (Run.safe_iff_guarded_within preserved (fun _ => id) sharp (sound.and inPlace) start).mp
      safe

/-! ## A truncated management frame -/

/-- A frame of one buffer. -/
def plainHdr (mpdu : Bool) (len : UInt32) : RxHdr where
  len
  flagsIsAmsdu := false
  flagsIs80211Mpdu := mpdu
  flagsVifIdx := 0
  flagsStaIdx := 0
  amsduHostids := List.replicate 7 0
  amsduHostids_length := rfl

/-- It comes in the buffer with host id 1, to be forwarded and replaced. -/
def upload (hdr : RxHdr) : Upload where
  status := rxStatForward ||| rxStatAlloc
  hostId := 1
  skb := ⟨fun _ => hdr, fun _ => 2304, fun _ => 1, Nat.le_refl _⟩
  vifTable := fun _ => some ⟨true, false⟩
  monitorVif := 255
  staTable := fun _ => none
  recovery := false
  suspended := false
  shutdown := false
  memory := fun _ => true

/-- The host has one buffer. -/
def oneBuffer : Sys where
  rxbufs := fun i => if i = 0 then some 1 else none
  rxbufIdx := 1
  repushRxbuffCnt := 0
  fresh := 0
  repushed := 0
  failed := 0
  used := 0

theorem upload_sound {hdr : RxHdr} (single : hdr.continuations = [])
    (allocated : (oneBuffer.step (upload hdr)).toOption.map (·.failed) = some 0) :
    Run.Guarded Sys.step Sound [upload hdr] oneBuffer := by
  have alone : ((upload hdr).skb.hdr 0).continuations = [] := single
  refine ⟨⟨?_, ⟨rfl, rfl, rfl⟩, ⟨?_, ?_, rfl⟩, ?_, ?_, fun s' ran => ?_⟩, fun _ _ => trivial⟩
  · exact (by decide : (rxStatForward ||| rxStatAlloc) &&& rxStatAlloc ≠ 0)
  · exact (by decide : (1 : UInt32) ≠ 0)
  · exact (by decide : (1 : UInt32).toNat ≤ amlRxbuffMax)
  · rw [alone]
    exact fun _ member => absurd member List.not_mem_nil
  · rw [alone]
    exact List.nodup_singleton _
  · rw [ran] at allocated
    exact Option.some.inj allocated

/-- A management frame that fits its buffer. -/
theorem fitting_conserved :
    Run.Safe Sys.step Conserved [upload (plainHdr true 300)] oneBuffer :=
  (conserved_iff_replaced oneBuffer [upload (plainHdr true 300)] rfl
    (upload_sound rfl (by decide))).1
    ⟨.inr ⟨by decide, by decide, by decide, by decide, rfl⟩, fun _ _ => trivial⟩

/-- For one that does not, no new buffer is pushed. -/
theorem truncated_not_replaced :
    ¬∀ s frames, s.fresh = s.used → Run.Guarded Sys.step Sound frames s →
      Run.Safe Sys.step Conserved frames s := by
  intro all
  obtain ⟨s, ran, conserved⟩ := all oneBuffer [upload (plainHdr true 3000)] rfl
    (upload_sound rfl (by decide)) [upload (plainHdr true 3000)] [] rfl
  have counts : (Run.run Sys.step [upload (plainHdr true 3000)] oneBuffer).toOption.map
      (fun s => (s.fresh, s.used)) = some (0, 1) := by decide
  rw [ran] at counts
  simp only [Except.toOption, Option.map_some, Option.some.injEq, Prod.mk.injEq] at counts
  rw [Conserved, counts.1, counts.2] at conserved
  cases conserved

end AmlW2.Rx.Buffers
