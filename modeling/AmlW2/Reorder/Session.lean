import AmlW2.Kernel
import AmlW2.Lib.Run
import Mathlib.Logic.Function.Basic

/-!
# Receive reorder sessions

The reorder sessions of `aml_reorder.c`: one session per station and traffic identifier buffers the
MPDUs received out of order under a block-ack agreement and hands them up in sequence-number order.
Each function below follows the function of the source it is named after.  The buffer of an MPDU
carries a payload of an arbitrary type, which no function reads.
-/

namespace AmlW2.Reorder

/-- Ways in which a call does not return. -/
inductive Fault
  /-- A `BUG_ON` assertion of the driver fails. -/
  | bug
  /-- A loop of the driver never exits. -/
  | spin
deriving DecidableEq, Repr

/-! ## Sequence numbers -/

/-- `IEEE80211_SN_MODULO`. -/
def snModulo : Nat := 4096

/-- `IEEE80211_MAX_SN`. -/
def maxSn : Nat := 4095

/-- `ieee80211_sn_sub`: `(sn1 - sn2) & 0xfff`. -/
def snSub (sn1 sn2 : Nat) : Nat := (sn1 + (4096 - sn2 % 4096)) % 4096

/-- `ieee80211_sn_add`. -/
def snAdd (sn1 sn2 : Nat) : Nat := (sn1 + sn2) % 4096

/-- `ieee80211_sn_inc`. -/
def snInc (sn : Nat) : Nat := snAdd sn 1

/-- `ieee80211_sn_less`: `sn1` lies in the half space behind `sn2`. -/
def snLess (sn1 sn2 : Nat) : Bool := decide (2048 < snSub sn1 sn2)

/-! ## Session state -/

/-- A received MPDU: its buffer and the extended receive descriptor `aml_rhd_ext` kept with it. -/
structure Mpdu (α : Type*) where
  /-- Sequence number, a 12-bit field. -/
  sn : Fin 4096
  /-- Whether the descriptor carries a packet number. -/
  pnPresent : Bool
  /-- Packet number `pn[0]`, meaningful only when present. -/
  pn : Nat
  /-- The frame itself. -/
  data : α
deriving DecidableEq, Repr

/-- One slot of the reorder window, `aml_reo_entry`. -/
structure Entry (α : Type*) where
  /-- Buffered MPDU, if the slot is occupied. -/
  skb : Option (Mpdu α)
  /-- Time after which the buffered MPDU is expired. -/
  deadline : Jiffies

/-- Counters of a session; all but `inBuffer` are reported only. -/
structure Stats where
  /-- Number of MPDUs still buffered. -/
  inBuffer : Int
  rx : UInt32
  dup : UInt32
  miss : UInt32
  stale : UInt32
  outWin : UInt32
  pnErr : UInt32
  timeout : UInt32

/-- A reorder session, `aml_reo_session`. -/
structure Session (α : Type*) where
  /-- Buffer size negotiated with the peer. -/
  bufSize : Nat
  /-- Number of slots, the power of two that `bufSize` was rounded up to. -/
  winSize : Nat
  /-- Age at which a buffered MPDU expires. -/
  timeoutTicks : Jiffies
  /-- Start of the window: the next sequence number to hand up. -/
  ssn : Nat
  /-- Last buffered sequence number, or `ssn` when nothing is buffered. -/
  lsn : Nat
  /-- Set until the first MPDU after a power resume or a recovery. -/
  reset : Bool
  /-- Whether packet numbers are checked. -/
  pnCheck : Bool
  /-- Last accepted packet number. -/
  pn : Nat
  /-- Whether `aging_entry` is linked in the receiver's aging list. -/
  onAgingList : Bool
  /-- Time of the last aging scan. -/
  lastAging : Jiffies
  stats : Stats
  /-- Bitmap of the slots whose latest MPDU was handed up. -/
  delivered : Nat → Bool
  /-- The slots. -/
  buf : Nat → Entry α

/-- A session with the delivery list of the running call and the buffers it released, in order. -/
structure Ctx (α : Type*) where
  reo : Session α
  /-- MPDUs appended to a delivery list. -/
  frames : List (Mpdu α)
  /-- MPDUs passed to `aml_mpdu_free`. -/
  freed : List (Mpdu α)

variable {α : Type*}

/-- `aml_reo_has_buffer`. -/
def amlReoHasBuffer (reo : Session α) : Bool := decide (reo.lsn ≠ reo.ssn)

/-- `aml_reo_entry_index`. -/
def amlReoEntryIndex (reo : Session α) (sn : Nat) : Nat := sn &&& (reo.winSize - 1)

/-- Replace the buffer pointer of one slot. -/
def Session.putSkb (reo : Session α) (index : Nat) (skb : Option (Mpdu α)) : Session α :=
  { reo with buf := Function.update reo.buf index { reo.buf index with skb } }

/-- `aml_reo_entry_skb_set`. -/
def amlReoEntrySkbSet (now : Jiffies) (reo : Session α) (index : Nat) (skb : Mpdu α) :
    Session α :=
  { reo with buf := Function.update reo.buf index ⟨some skb, now + reo.timeoutTicks⟩ }

/-- `aml_reo_session_add_to_aging_list`. -/
def amlReoSessionAddToAgingList (reo : Session α) : Session α := { reo with onAgingList := true }

/-- `aml_mpdu_free`. -/
def Ctx.amlMpduFree (c : Ctx α) (skb : Mpdu α) : Ctx α := { c with freed := c.freed ++ [skb] }

/-! ## Release of buffered frames -/

/-- `aml_reo_pn_check`, with whether the check succeeds. -/
def amlReoPnCheck (reo : Session α) (hd : Mpdu α) : Session α × Bool :=
  -- auto-learning
  let reo := { reo with pnCheck := hd.pnPresent || reo.pnCheck }
  if reo.pnCheck then
    if !hd.pnPresent || decide (hd.pn ≤ reo.pn) then
      ({ reo with stats.pnErr := reo.stats.pnErr + 1 }, false)
    else
      ({ reo with pn := hd.pn }, true)
  else
    (reo, true)

/-- `aml_reo_dequeue`, with whether the frame was handed up. -/
def amlReoDequeue (c : Ctx α) (skb : Mpdu α) (index : Nat) : Ctx α × Bool :=
  match amlReoPnCheck c.reo skb with
  | (reo, false) => (({ c with reo }).amlMpduFree skb, false)
  | (reo, true) =>
      ({ c with
          reo := { reo with delivered := Function.update reo.delivered index true }
          frames := c.frames ++ [skb] }, true)

/-- Take the frame of one slot out of the window, with whether there was one and it was handed
up. -/
def popSlot (c : Ctx α) (index : Nat) : Ctx α × Bool :=
  match (c.reo.buf index).skb with
  | some skb =>
      let reo := { c.reo with stats.inBuffer := c.reo.stats.inBuffer - 1 }
      amlReoDequeue { c with reo := reo.putSkb index none } skb index
  | none => (c, false)

/-- Count the number of one slot as lost. -/
def giveUp (c : Ctx α) (index : Nat) : Ctx α :=
  let reo := { c.reo with stats.miss := c.reo.stats.miss + 1 }
  { c with reo := { reo with delivered := Function.update reo.delivered index false } }

/-- One pass of the loop of `aml_reo_shift_to` at `sn`, with whether the loop goes on. -/
def shiftPass (ssn : Nat) (c : Ctx α) (sn : Nat) : Ctx α × Bool :=
  let index := amlReoEntryIndex c.reo sn
  match popSlot c index with
  | (c, true) => (c, true)
  | (c, false) =>
      -- no skb or its packet number is wrong
      if !snLess sn ssn then (c, false) else (giveUp c index, true)

/-- The loop of `aml_reo_shift_to`, with the sequence number at which it stops. -/
def shiftLoop (ssn : Nat) : Nat → Ctx α → Nat → Ctx α × Nat
  | 0, c, sn => (c, sn)
  | fuel + 1, c, sn =>
      match shiftPass ssn c sn with
      | (c, true) => shiftLoop ssn fuel c (snInc sn)
      | (c, false) => (c, sn)

/-- A bound on the passes of the loop: at most 2047 numbers are given up between two pops. -/
def shiftFuel (reo : Session α) : Nat := (reo.winSize + 1) * 4096

/-- The end of `aml_reo_shift_to`, once the loop stopped at `sn`. -/
def shiftFinish (c : Ctx α) (sn : Nat) : Ctx α :=
  let reo := { c.reo with ssn := sn, lsn := if snLess c.reo.lsn sn then sn else c.reo.lsn }
  -- off the aging list if nothing is buffered
  { c with reo := { reo with onAgingList := amlReoHasBuffer reo && reo.onAgingList } }

/-- `aml_reo_shift_to`. -/
def amlReoShiftTo (c : Ctx α) (ssn : Nat) : Ctx α :=
  let (c, sn) := shiftLoop ssn (shiftFuel c.reo) c c.reo.ssn
  shiftFinish c sn

/-! ## Aging -/

/-- `aml_reo_entry_expired`, without its counter. -/
def amlReoEntryExpired (reo : Session α) (index : Nat) (now : Jiffies) : Bool :=
  (reo.buf index).skb.isSome && timeAfter now (reo.buf index).deadline

/-- The highest expired slot from `lo` up to but not including the given one. -/
def lastExpired (reo : Session α) (now : Jiffies) (lo : Nat) : Nat → Option Nat
  | 0 => none
  | index + 1 =>
      if lo ≤ index then
        if amlReoEntryExpired reo index now then some index else lastExpired reo now lo index
      else
        none

/-- `aml_reo_entry_expired_lsn`: the number after the last expired frame, if any. -/
def amlReoEntryExpiredLsn (reo : Session α) (now : Jiffies) : Option Nat :=
  let head := amlReoEntryIndex reo reo.ssn
  let index := amlReoEntryIndex reo reo.lsn
  if index < head then
    match lastExpired reo now 0 (index + 1) with
    | some index => some (snAdd reo.ssn (reo.winSize + index - head + 1))
    | none =>
        (lastExpired reo now (head + 1) reo.winSize).map
          fun index => snAdd reo.ssn (index - head + 1)
  else
    (lastExpired reo now (head + 1) (index + 1)).map
      fun index => snAdd reo.ssn (index - head + 1)

/-- `aml_reo_entry_aging`. -/
def amlReoEntryAging (now : Jiffies) (c : Ctx α) : Except Fault (Ctx α) :=
  if !amlReoHasBuffer c.reo then
    .error .bug
  else if c.reo.lastAging = now then
    .ok c
  else
    match amlReoEntryExpiredLsn c.reo now with
    | none => .ok { c with reo := { c.reo with lastAging := now } }
    | some ssn =>
        if ssn = c.reo.ssn then
          .error .bug
        else
          let reo := { c.reo with stats.timeout := c.reo.stats.timeout + 1 }
          let c := amlReoShiftTo { c with reo } ssn
          .ok { c with reo := { c.reo with lastAging := now } }

/-- `aml_reo_aging` as one session sees it: the list is walked, and the session may be on it. -/
def amlReoAging (now : Jiffies) (c : Ctx α) : Except Fault (Ctx α) :=
  if c.reo.onAgingList then amlReoEntryAging now c else .ok c

/-! ## Reception -/

/-- `aml_reo_enqueue`: move the window if the number exceeds it. -/
def makeRoom (c : Ctx α) (sn : Nat) : Ctx α :=
  if !snLess sn (c.reo.ssn + c.reo.bufSize) then
    let reo := { c.reo with stats.outWin := c.reo.stats.outWin + 1 }
    amlReoShiftTo { c with reo } (snSub sn (c.reo.bufSize - 1))
  else c

/-- `reo->ssn` set. -/
def Ctx.startAt (c : Ctx α) (ssn : Nat) : Ctx α := { c with reo := { c.reo with ssn } }

/-- `aml_reo_enqueue`: the new frame is in the range of the window. -/
def placeInWindow (now : Jiffies) (c : Ctx α) (skb : Mpdu α) : Ctx α :=
  let sn := skb.sn.val
  let index := amlReoEntryIndex c.reo sn
  match (c.reo.buf index).skb with
  | some skb0 =>
      -- we already stored this frame
      let reo := { c.reo with stats.dup := c.reo.stats.dup + 1 }
      if (reo.pnCheck || skb.pnPresent) && (!skb0.pnPresent || decide (skb0.pn < skb.pn)) then
        ({ c with reo := amlReoEntrySkbSet now reo index skb }).amlMpduFree skb0
      else
        ({ c with reo }).amlMpduFree skb
  | none =>
      if sn = c.reo.ssn then
        match amlReoDequeue c skb index with
        | (c, true) =>
            -- dequeue the contiguous frames that follow
            amlReoShiftTo (c.startAt (snInc sn)) (snInc sn)
        | (c, false) => c
      else
        -- buffer the frame
        let reo := { c.reo with stats.inBuffer := c.reo.stats.inBuffer + 1 }
        let reo := amlReoEntrySkbSet now reo index skb
        let reo := { reo with lsn := if snLess reo.lsn sn then sn else reo.lsn }
        { c with
          reo := if reo.stats.inBuffer = 1 then amlReoSessionAddToAgingList reo else reo }

/-- `aml_reo_enqueue`: drop a frame with an out of date number. -/
def dropStale (c : Ctx α) (skb : Mpdu α) : Ctx α :=
  let dup := c.reo.delivered (amlReoEntryIndex c.reo skb.sn) &&
    decide (snSub c.reo.ssn skb.sn ≤ c.reo.winSize)
  let stats :=
    if dup then { c.reo.stats with dup := c.reo.stats.dup + 1 }
    else { c.reo.stats with stale := c.reo.stats.stale + 1 }
  ({ c with reo := { c.reo with stats } }).amlMpduFree skb

/-- The part of `aml_reo_enqueue` that follows the reset of the window. -/
def enqueueInWindow (now : Jiffies) (c : Ctx α) (skb : Mpdu α) : Ctx α :=
  if snLess skb.sn c.reo.ssn then dropStale c skb
  else placeInWindow now (makeRoom c skb.sn) skb

/-- `aml_reo_enqueue`. -/
def amlReoEnqueue (now : Jiffies) (c : Ctx α) (skb : Mpdu α) : Except Fault (Ctx α) :=
  let reo := { c.reo with stats.rx := c.reo.stats.rx + 1 }
  -- the first frame after power resume or recovery
  if reo.reset then
    if amlReoHasBuffer reo then
      .error .bug
    else
      .ok (enqueueInWindow now
        { c with reo := { reo with reset := false, ssn := skb.sn, lsn := skb.sn } } skb)
  else
    .ok (enqueueInWindow now { c with reo } skb)

/-! ## Window moves from outside -/

/-- `bitmap_clear` of `n` bits from `start`. -/
def bitmapClear (map : Nat → Bool) (start n : Nat) : Nat → Bool :=
  fun bit => if start ≤ bit ∧ bit < start + n then false else map bit

/-- `aml_reo_reset_ssn`. -/
def amlReoResetSsn (reo : Session α) (ssn : Nat) : Session α :=
  let n := snSub ssn reo.lsn
  let delivered :=
    if reo.winSize ≤ n then
      bitmapClear reo.delivered 0 reo.winSize
    else
      let start := amlReoEntryIndex reo reo.lsn
      let finish := amlReoEntryIndex reo ssn
      let (map, start) :=
        if finish < start then
          (bitmapClear reo.delivered start (reo.winSize - start), 0)
        else
          (reo.delivered, start)
      if start < finish then bitmapClear map start (finish - start) else map
  { reo with delivered, ssn, lsn := ssn }

/-- `aml_reo_forward_to`; its own delivery list is forwarded when it returns. -/
def amlReoForwardTo (c : Ctx α) (ssn : Nat) : Ctx α :=
  if ssn = c.reo.ssn then
    c
  else if !amlReoHasBuffer c.reo then
    { c with reo := amlReoResetSsn c.reo ssn }
  else if !snLess c.reo.ssn ssn && !snLess c.reo.lsn ssn then
    amlReoShiftTo c ssn
  else
    -- forward all buffered frames and reset ssn and lsn
    let c := amlReoShiftTo c (snInc c.reo.lsn)
    { c with reo := amlReoResetSsn c.reo ssn }

/-- `aml_reo_forward_all`. -/
def amlReoForwardAll (c : Ctx α) : Ctx α := amlReoForwardTo c c.reo.lsn

/-- `aml_reo_reset_all` as one session sees it. -/
def amlReoResetAll (c : Ctx α) : Ctx α :=
  amlReoForwardAll { c with reo := { c.reo with reset := true } }

/-- `aml_reo_session_release`, up to the release of the session itself. -/
def amlReoSessionRelease (c : Ctx α) : Ctx α :=
  amlReoForwardAll { c with reo := { c.reo with onAgingList := false } }

/-- `aml_reo_sta_addkey` as one session sees it. -/
def amlReoStaAddkey (reo : Session α) : Session α := { reo with pn := 0, pnCheck := true }

/-! ## Creation -/

/-- `IEEE80211_MAX_AMPDU_BUF_HT`. -/
def maxAmpduBufHt : Nat := 64

/-- `AML_REO_TIMEOUT_TU_DEFAULT`, the same for each traffic identifier. -/
def amlReoTimeoutTuDefault : Nat := 200

/-- `aml_reo_session_timeout_set` on a value in its range. -/
def amlReoSessionTimeoutSet (kernel : Kernel) (tu : Nat) : Jiffies :=
  let ticks := kernel.usecsToJiffies (tu <<< 10)
  if ticks = 0 then 1 else ticks

/-- The search for the window size, on a 16-bit variable; `none` when it never ends. -/
def findWinSize (sz : Nat) : Nat → Nat → Option Nat
  | 0, _ => none
  | fuel + 1, winSize =>
      if winSize < sz then findWinSize sz fuel (winSize <<< 1 % 65536) else some winSize

/-- A zeroed session filled in by `aml_reo_session_create`. -/
def freshSession (kernel : Kernel) (now : Jiffies) (bufSize winSize ssn : Nat) : Session α where
  bufSize
  winSize
  timeoutTicks := amlReoSessionTimeoutSet kernel amlReoTimeoutTuDefault
  ssn
  lsn := ssn
  reset := false
  pnCheck := false
  pn := 0
  onAgingList := false
  lastAging := now
  stats := ⟨0, 0, 0, 0, 0, 0, 0, 0⟩
  delivered := fun _ => false
  buf := fun _ => ⟨none, 0⟩

/-- The part of `struct aml_sta` that session creation reads. -/
structure Sta where
  /-- Whether the station is a high-efficiency one. -/
  he : Bool

/-- Arguments of `aml_reo_session_create`, and whether its allocation succeeds. -/
structure CreateReq where
  sta : Option Sta
  tid : Fin 256
  sz : Fin 65536
  ssn : Fin 65536
  allocated : Bool

/-- The buffer size after the clamps of `aml_reo_session_create`. -/
def clampBufSize (kernel : Kernel) (he : Bool) (sz : Nat) : Nat :=
  let maxBufSz := if he then kernel.maxAmpduBuf else maxAmpduBufHt
  if sz < 1 then 1 else if maxBufSz < sz then maxBufSz else sz

/-- A session's place in the station table, with everything handed to it, delivered and released. -/
structure Endpoint (α : Type*) where
  /-- `sta->reos[tid]`. -/
  reo : Option (Session α)
  /-- MPDUs passed to `aml_reo_enqueue`, in order. -/
  handed : List (Mpdu α)
  frames : List (Mpdu α)
  freed : List (Mpdu α)

/-- The place of a traffic identifier without a session. -/
def Endpoint.vacant : Endpoint α := ⟨none, [], [], []⟩

/-- What a call on the session of the place starts from. -/
def Endpoint.ctx (e : Endpoint α) (reo : Session α) : Ctx α := ⟨reo, e.frames, e.freed⟩

/-- The place after a call that leaves the session in it. -/
def Endpoint.live (e : Endpoint α) (c : Ctx α) : Endpoint α :=
  { e with reo := some c.reo, frames := c.frames, freed := c.freed }

/-- The place after a call that frees the session. -/
def Endpoint.vacate (e : Endpoint α) (c : Ctx α) : Endpoint α :=
  { e with reo := none, frames := c.frames, freed := c.freed }

/-- `aml_reo_session_create`, with whether it succeeds. -/
def amlReoSessionCreate (kernel : Kernel) (now : Jiffies) (req : CreateReq) (e : Endpoint α) :
    Except Fault (Endpoint α × Bool) :=
  match findWinSize req.sz 17 1 with
  | none => .error .spin
  | some winSize =>
      if req.sz ≤ winSize >>> 1 then
        .error .bug
      else if snModulo < winSize then
        .error .bug
      else
        match req.sta with
        | none => .ok (e, false)
        | some sta =>
            if 8 ≤ req.tid.val then
              .ok (e, false)
            else if maxSn < req.ssn then
              .ok (e, false)
            else
              let sz := clampBufSize kernel sta.he req.sz
              let fresh := freshSession kernel now sz winSize req.ssn
              let build (e : Endpoint α) :=
                if req.allocated then ({ e with reo := some fresh }, true) else (e, false)
              match e.reo with
              | some reo =>
                  if reo.bufSize = sz then
                    -- re-ADDBA to shift the start without DELBA prior
                    .ok (e.live (amlReoForwardTo (e.ctx reo) req.ssn), true)
                  else
                    .ok (build (e.vacate (amlReoSessionRelease (e.ctx reo))))
              | none => .ok (build e)

/-! ## Runs -/

/-- What happens to a session. -/
inductive Event (α : Type*)
  | enqueue (now : Jiffies) (skb : Mpdu α)
  | bar (ssn : Fin 4096)
  | aging (now : Jiffies)
  | resetAll
  | addkey
  | release

/-- One event on a session; a release frees it. -/
def Endpoint.stepSession (e : Endpoint α) (reo : Session α) :
    Event α → Except Fault (Endpoint α)
  | .enqueue now skb =>
      (amlReoEnqueue now (e.ctx reo) skb).map
        { e with handed := e.handed ++ [skb] }.live
  | .bar ssn => .ok (e.live (amlReoForwardTo (e.ctx reo) ssn))
  | .aging now => (amlReoAging now (e.ctx reo)).map e.live
  | .resetAll => .ok (e.live (amlReoResetAll (e.ctx reo)))
  | .addkey => .ok (e.live (e.ctx (amlReoStaAddkey reo)))
  | .release => .ok (e.vacate (amlReoSessionRelease (e.ctx reo)))

/-- One event; where there is no session, none of its functions is called. -/
def Endpoint.step (e : Endpoint α) (event : Event α) : Except Fault (Endpoint α) :=
  match e.reo with
  | none => .ok e
  | some reo => e.stepSession reo event

/-- Run the events of a list in order. -/
abbrev Endpoint.run : List (Event α) → Endpoint α → Except Fault (Endpoint α) :=
  Run.run Endpoint.step

/-- `aml_reo_session_create` made a session where there was none. -/
def Created (kernel : Kernel) (now : Jiffies) (req : CreateReq) (e : Endpoint α) : Prop :=
  amlReoSessionCreate kernel now req Endpoint.vacant = .ok (e, true)

end AmlW2.Reorder
