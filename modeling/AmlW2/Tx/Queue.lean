import AmlW2.Lib.Run
import Mathlib.Algebra.Ring.Nat
import Mathlib.Data.List.Nodup
import Mathlib.Data.List.Perm.Basic

/-!
# The frames of a transmit queue

`sk_list` of a `struct aml_txq` holds the frames that the firmware has given back to be sent again
before those that were never pushed.  The border between them is kept by hand: `nb_retry` counts the
former, and `last_retry_skb` points to the last of them.
-/

namespace AmlW2.Tx

/-! ## Frames -/

/-- A further subframe of an A-MSDU; the buffers are numbered. -/
structure Subframe where
  skb : Nat
  /-- `aml_amsdu_subframe_length`. -/
  len : Nat
deriving DecidableEq, Repr

/-- What becomes of a frame that `aml_ipc_txdesc_push` gets. -/
inductive Fate
  | sent
  /-- On PCIe, the bus is suspended or the host shuts down. -/
  | suspended
  /-- No host id is left. -/
  | noHostid
  /-- On PCIe, the descriptor could not be mapped. -/
  | unmapped
deriving DecidableEq, Repr

/-- `NX_TXQ_CNT`. -/
abbrev nxTxqCnt : Nat := 5

instance nxTxqCnt.neZero : NeZero nxTxqCnt := ⟨by decide⟩

/-- A frame to send: a buffer with its `struct aml_sw_txhdr`. -/
structure Frame where
  skb : Nat
  jiffies : Nat
  /-- `aml_amsdu_subframe_length`. -/
  len : Nat
  /-- The addresses of destination and source. -/
  addr : Nat
  /-- `TXU_CNTRL_SP_FRAME`. -/
  sp : Bool
  /-- `TXU_CNTRL_RETRY`. -/
  retry : Bool
  /-- `amsdu.len`. -/
  amsduLen : Nat
  /-- `amsdu.pad`. -/
  pad : Nat
  /-- `amsdu.hdrs`: the frame is an A-MSDU when there are some. -/
  hdrs : List Subframe
  hwQueue : Fin nxTxqCnt
  /-- What became of it, once pushed. -/
  fate : Option Fate
deriving DecidableEq, Repr

/-- A frame that comes from the network stack or from `aml_start_mgmt_xmit`. -/
structure Arrival where
  jiffies : Nat
  len : Nat
  addr : Nat
  sp : Bool

namespace Frame

/-- The buffers of a frame. -/
def skbs (f : Frame) : List Nat := f.skb :: f.hdrs.map Subframe.skb

/-- `AMSDU_PADDING`. -/
def amsduPadding (n : Nat) : Nat := (4 - n % 4) % 4

/-- The frame is made the first subframe of an A-MSDU. -/
def start (f : Frame) : Frame :=
  { f with amsduLen := f.len, pad := amsduPadding f.len, hdrs := [] }

/-- `aml_amsdu_add_subframe_header`. -/
def add (f : Frame) (sub : Subframe) : Frame :=
  { f with
    amsduLen := f.amsduLen + (sub.len + f.pad)
    pad := amsduPadding sub.len
    hdrs := f.hdrs ++ [sub] }

/-- `aml_amsdu_dismantle`: the frames queued, but for those that get no `struct aml_sw_txhdr`. -/
def dismantle (f : Frame) (alloc : Nat → Bool) : List Frame :=
  { f with amsduLen := 0, hdrs := [] } ::
    (f.hdrs.filter fun sub => alloc sub.skb).map fun sub =>
      { f with skb := sub.skb, len := sub.len, amsduLen := 0, hdrs := [] }

end Frame

/-- What a list has up to a buffer, and what it has behind. -/
def splitAfter (skb : Nat) : List Frame → List Frame × List Frame
  | [] => ([], [])
  | f :: rest =>
      if f.skb = skb then ([f], rest)
      else (f :: (splitAfter skb rest).1, (splitAfter skb rest).2)

/-! ## Queues -/

structure Queue where
  /-- Frames for a TID, rather than management frames. -/
  data : Bool
  skList : List Frame
  lastRetrySkb : Option Nat
  nbRetry : Nat
  /-- The A-MSDU in construction. -/
  amsdu : Option Nat
  amsduLen : Nat
  /-- The frames pushed and not confirmed yet. -/
  flight : List Frame
  /-- The frames the firmware has returned to be sent again. -/
  returned : List Nat
  /-- The number of the next buffer. -/
  next : Nat
  /-- A `WARN` has fired. -/
  warned : Bool

namespace Queue

/-- What is before `last_retry_skb`, and what is behind. -/
def halves (q : Queue) : List Frame × List Frame :=
  match q.lastRetrySkb with
  | none => ([], q.skList)
  | some skb => splitAfter skb q.skList

/-- `aml_txq_queue_skb`, for a new frame. -/
def queueNew (q : Queue) (a : Arrival) : Queue :=
  { q with
    skList := q.skList ++ [⟨q.next, a.jiffies, a.len, a.addr, a.sp, false, 0, 0, [], 0, none⟩]
    next := q.next + 1 }

/-- `aml_txq_queue_skb`, for a frame to be sent again. -/
def queueRetry (q : Queue) (f : Frame) : Queue :=
  { q with
    skList := q.halves.1 ++ f :: q.halves.2
    lastRetrySkb := some f.skb
    nbRetry := q.nbRetry + 1
    returned := q.returned ++ [f.skb] }

/-- What `aml_tx_push` does with the queue of a frame that was taken out. -/
def txPush (q : Queue) (hwQueue : Fin nxTxqCnt) (fate : Fate) (f : Frame) : Queue :=
  { q with
    nbRetry := q.nbRetry - 1
    lastRetrySkb := if q.nbRetry = 1 then none else q.lastRetrySkb
    amsdu := if q.amsdu = some f.skb then none else q.amsdu
    flight := q.flight ++ [{ f with retry := false, hwQueue, fate := some fate }]
    warned := q.warned || decide (q.nbRetry = 1 ∧ q.lastRetrySkb ≠ some f.skb) ||
      decide (q.nbRetry ≠ 0 ∧ q.amsdu = some f.skb) }

/-- Frames that were taken out are pushed. -/
def txPushAll (q : Queue) (hwQueue : Fin nxTxqCnt) (frames : List (Frame × Fate)) : Queue :=
  frames.foldl (fun q pushed => q.txPush hwQueue pushed.2 pushed.1) q

/-- As many frames as there are fates were taken out, and are pushed. -/
def push (q : Queue) (hwQueue : Fin nxTxqCnt) (fates : List Fate) : Queue :=
  { q with skList := q.skList.drop fates.length }.txPushAll hwQueue (q.skList.zip fates)

/-- `aml_txq_drop_skb`. -/
def dropSkb (q : Queue) (f : Frame) (retryPacket : Bool) : Queue :=
  { q with
    skList := q.skList.eraseP fun g => g.skb = f.skb
    amsdu := if f.hdrs ≠ [] ∧ q.amsdu = some f.skb then none else q.amsdu
    nbRetry := if retryPacket then q.nbRetry - 1 else q.nbRetry
    lastRetrySkb := if retryPacket = true ∧ q.nbRetry = 1 then none else q.lastRetrySkb
    warned := q.warned ||
      decide (retryPacket = true ∧ q.nbRetry = 1 ∧ q.lastRetrySkb ≠ some f.skb) }

/-- The loop of `aml_txq_flush`. -/
def flushLoop : Nat → Queue → Queue
  | 0, q => q
  | fuel + 1, q =>
      match q.skList with
      | [] => q
      | f :: _ => flushLoop fuel (q.dropSkb f (decide (q.nbRetry ≠ 0)))

/-- `aml_txq_flush`: every turn drops a frame. -/
def flush (q : Queue) : Queue := flushLoop q.skList.length q

/-- The loop at the end of `aml_txq_credit_update`. -/
def dropRetriesFrom : Nat → Nat → Queue → Queue
  | 0, _, q => q
  | fuel + 1, packet, q =>
      if packet < q.nbRetry then
        match q.skList with
        | [] => dropRetriesFrom fuel (packet + 1) q
        | f :: _ => dropRetriesFrom fuel (packet + 1) (q.dropSkb f true)
      else q

/-- There are at most as many turns as frames to be sent again. -/
def dropRetries (q : Queue) : Queue := dropRetriesFrom q.nbRetry 0 q

/-- The walk of `aml_txq_drop_old_traffic`. -/
def dropOldFrom (now timeout : Nat) : List Frame → Nat → Queue → Queue
  | [], _, q => q
  | _ :: rest, retryPacket + 1, q => dropOldFrom now timeout rest retryPacket q
  | f :: rest, 0, q =>
      if f.jiffies + timeout < now then dropOldFrom now timeout rest 0 (q.dropSkb f false) else q

/-- `aml_txq_drop_old_traffic`. -/
def dropOld (q : Queue) (now timeout : Nat) : Queue :=
  dropOldFrom now timeout q.skList q.nbRetry q

/-- The descriptor of a queued frame is changed. -/
def modify (q : Queue) (skb : Nat) (change : Frame → Frame) : Queue :=
  { q with skList := q.skList.map fun f => if f.skb = skb then change f else f }

/-- `aml_amsdu_add_subframe`; `room` tells whether the headers can be added. -/
def addSubframe (q : Queue) (a : Arrival) (maxnb : Nat) (room : Bool) : Queue :=
  if q.data = false ∨ q.amsduLen = 0 ∨ maxnb < 2 then q
  else
    match q.amsdu with
    | some skb =>
        match q.skList.find? fun f => f.skb = skb with
        | none => q
        | some f =>
            if a.addr ≠ f.addr ∨ a.sp = true ∨ f.sp = true ∨
              q.amsduLen < f.amsduLen + f.pad + a.len ∨
                room = false then
              { q with amsdu := none }
            else
              { q.modify skb fun f => f.add ⟨q.next, a.len⟩ with
                amsdu := if maxnb ≤ f.hdrs.length + 2 then none else some skb
                next := q.next + 1 }
    | none =>
        match q.skList.getLast? with
        | none => q
        | some f =>
            if f.amsduLen ≠ 0 ∨ f.retry = true ∨ f.sp = true ∨ a.sp = true ∨ a.addr ≠ f.addr ∨
                q.amsduLen < f.len + Frame.amsduPadding f.len + a.len then q
            else if room = false then q.modify f.skb Frame.start
            else
              { q.modify f.skb fun f => f.start.add ⟨q.next, a.len⟩ with
                amsdu := if 2 < maxnb then some f.skb else none
                next := q.next + 1 }

/-- The walk of `aml_amsdu_update_len` over one queue, when the length is reduced. -/
def dismantle (q : Queue) (amsduLen : Nat) (alloc : Nat → Bool) : Queue :=
  { q with
    skList := q.halves.1 ++ q.halves.2.flatMap fun f =>
      if f.hdrs ≠ [] ∧ amsduLen < f.amsduLen then f.dismantle alloc else [f]
    amsdu := if ∃ f ∈ q.halves.2, q.amsdu = some f.skb then none else q.amsdu }

/-! ## Runs -/

inductive Op
  /-- A new frame is queued. -/
  | queue (a : Arrival)
  /-- A new frame is added to an A-MSDU, if it can. -/
  | subframe (a : Arrival) (maxnb : Nat) (room : Bool)
  /-- As many frames are pushed as there are credits for; each has its fate. -/
  | push (hwQueue : Fin nxTxqCnt) (fates : List Fate)
  /-- The firmware confirms a frame. -/
  | confirm (i : Nat)
  /-- The firmware returns a frame to be sent again. -/
  | retry (i : Nat)
  /-- A credit update drops frames to be sent again. -/
  | dropRetries
  | flush
  | dropOld (now timeout : Nat)
  | dismantle (amsduLen : Nat) (alloc : Nat → Bool)
  | setAmsduLen (amsduLen : Nat)
  /-- `aml_txq_init`, of a queue that was in use before. -/
  | reset

/-- The firmware confirms one of the frames it has. -/
def confirm (q : Queue) (i : Nat) : Queue :=
  match q.flight[i]? with
  | none => q
  | some f => if f.fate = some .sent then { q with flight := q.flight.eraseIdx i } else q

/-- The firmware returns one of the frames it has, and `aml_tx_retry` queues it. -/
def retry (q : Queue) (i : Nat) : Queue :=
  match q.flight[i]? with
  | none => q
  | some f =>
      if f.fate = some .sent then
        { q with flight := q.flight.eraseIdx i }.queueRetry
          { f with retry := q.data || f.retry, fate := none }
      else q

/-- The frames in flight are not forgotten. -/
def reset (q : Queue) : Queue :=
  { q with skList := [], lastRetrySkb := none, nbRetry := 0, amsdu := none, amsduLen := 0 }

def step (q : Queue) : Op → Queue
  | .queue a => q.queueNew a
  | .subframe a maxnb room => q.addSubframe a maxnb room
  | .push hwQueue fates => q.push hwQueue fates
  | .confirm i => q.confirm i
  | .retry i => q.retry i
  | .dropRetries => q.dropRetries
  | .flush => q.flush
  | .dropOld now timeout => q.dropOld now timeout
  | .dismantle amsduLen alloc => { q.dismantle amsduLen alloc with amsduLen }
  | .setAmsduLen amsduLen => { q with amsduLen }
  | .reset => q.reset

/-- `aml_txq_init`. -/
def init (data : Bool) : Queue where
  data
  skList := []
  lastRetrySkb := none
  nbRetry := 0
  amsdu := none
  amsduLen := 0
  flight := []
  returned := []
  next := 0
  warned := false

end Queue

end AmlW2.Tx
