import AmlW2.Tx.Queue
import Mathlib.Data.Finset.Basic
import Mathlib.Data.List.Rotate
import Mathlib.Logic.Function.Basic

/-!
# Transmit queues and hardware queues

A transmit queue is put on the list of its hardware queue when it is not stopped and has credits and
frames.  The hardware queue pushes frames to the firmware from the queues on its list, as far as the
credits of both go; the firmware gives the credits back as it confirms the frames.
-/

namespace AmlW2.Tx

inductive Bus
  | pcie
  | sdio
  | usb
deriving DecidableEq, Repr

/-- The reasons of `AML_TXQ_STOP`. -/
inductive Stop
  | full
  | csa
  | staPs
  | vifPs
  | chan
  | coexInactive
  | suspend
  | dismantleAmsdu
deriving DecidableEq, Repr

/-- `NX_NB_TXQ`. -/
abbrev nxNbTxq : Nat := 99

instance nxNbTxq.neZero : NeZero nxNbTxq := ⟨by decide⟩

/-- `NX_TXQ_INITIAL_CREDITS`. -/
def nxTxqInitialCredits : Int := 4

/-- The `size` of a hardware queue: `nx_txdesc_cnt` on PCIe, `nx_txdesc_cnt_ext` on the others. -/
def hwqSize (bus : Bus) (h : Fin nxTxqCnt) : Nat :=
  if h = 4 then 8 else if bus = .pcie then 64 else 124

/-- The host ids there are: `IPC_TXCFM_CNT` on PCIe, `IPC_HOSTID_CNT` on the others. -/
def hostidCnt (bus : Bus) : Nat := if bus = .pcie then 264 else 520

structure Txq where
  queue : Queue
  /-- `idx` is not `TXQ_INACTIVE`. -/
  active : Bool
  stops : Finset Stop
  /-- `AML_TXQ_IN_HWQ_LIST`. -/
  inHwqList : Bool
  credits : Int
  pktSent : Nat
  pktPushed : Nat
  pushLimit : Int
  hwq : Fin nxTxqCnt
  /-- It belongs to a station. -/
  sta : Bool
  /-- `ps_id` is `LEGACY_PS_ID`. -/
  legacyPs : Bool

structure Hwq (n : Nat) where
  list : List (Fin n)
  credits : Int
  needProcessing : Bool

/-- The part of `struct aml_hw` that is under `tx_lock`. -/
structure Hw (n : Nat) where
  bus : Bus
  txqs : Fin n → Txq
  hwqs : Fin nxTxqCnt → Hwq n
  /-- How many host ids are available. -/
  hostids : Nat
  /-- What would become of a frame on PCIe, by its buffer. -/
  fate : Nat → Fate
  /-- The sanity check of `aml_hwq_process` has failed. -/
  sanityError : Bool
  /-- `skb_queue_extract` was called for no frame, which breaks the list it is given. -/
  broken : Bool

namespace Txq

/-- `aml_txq_skb_ready`. -/
def SkbReady (q : Txq) : Prop := q.queue.skList ≠ []

instance (q : Txq) : Decidable q.SkbReady := inferInstanceAs (Decidable (q.queue.skList ≠ []))

/-- `aml_txq_get_credits`, in an `s8`. -/
def getCredits (q : Txq) : Int :=
  if q.pushLimit ≠ 0 ∧ q.pushLimit < q.credits.bmod 256 then q.pushLimit.bmod 256
  else q.credits.bmod 256

/-- `aml_txq_get_skb_to_push`: the number of frames, and whether the queue is done. -/
def skbToPush (q : Txq) (hwqCredits : Int) : Int × Bool :=
  if q.queue.skList.length ≤ min q.getCredits hwqCredits then (q.queue.skList.length, true)
  else
    (min q.getCredits hwqCredits,
      decide (q.pushLimit ≠ 0 ∧ min q.getCredits hwqCredits = q.pushLimit))

/-- What `aml_tx_push` takes from the queue of a frame. -/
def charge (q : Txq) (fate : Fate) (f : Frame) : Txq :=
  { q with
    queue := q.queue.txPush q.hwq fate f
    pktSent := if q.queue.nbRetry = 0 then q.pktSent + 1 else q.pktSent
    credits := q.credits - 1
    pktPushed := q.pktPushed + 1
    pushLimit := if q.pushLimit ≠ 0 then q.pushLimit - 1 else 0 }

/-- The credits after `aml_txq_credit_update`. -/
def creditsAfter (q : Txq) (bus : Bus) (update : Int) : Int :=
  let update := if bus ≠ .pcie ∧ nxTxqInitialCredits < update then
    hwqSize bus q.hwq - nxTxqInitialCredits else update
  if (bus = .pcie ∨ 0 < q.credits + update) ∧
      q.credits + q.pktPushed + update < hwqSize bus q.hwq then q.credits + update
  else hwqSize bus q.hwq - q.pktPushed

end Txq

namespace Hw

variable {n : Nat}

def setTxq (s : Hw n) (t : Fin n) (q : Txq) : Hw n := { s with txqs := Function.update s.txqs t q }

def setHwq (s : Hw n) (h : Fin nxTxqCnt) (x : Hwq n) : Hw n :=
  { s with hwqs := Function.update s.hwqs h x }

def setQueue (s : Hw n) (t : Fin n) (queue : Queue) : Hw n :=
  s.setTxq t { s.txqs t with queue }

@[simp] theorem setTxq_self (s : Hw n) (t : Fin n) (q : Txq) : (s.setTxq t q).txqs t = q :=
  Function.update_self _ _ _

theorem setTxq_of_ne (s : Hw n) {t u : Fin n} (q : Txq) (other : u ≠ t) :
    (s.setTxq t q).txqs u = s.txqs u :=
  Function.update_of_ne other _ _

/-- What holds of all queues still does when it holds of the one changed. -/
theorem forall_setTxq {s : Hw n} {t : Fin n} {q : Txq} {P : Fin n → Txq → Prop} (self : P t q)
    (all : ∀ u, P u (s.txqs u)) (u : Fin n) : P u ((s.setTxq t q).txqs u) := by
  by_cases same : u = t
  · subst same
    rw [setTxq_self]
    exact self
  · rw [setTxq_of_ne s q same]
    exact all u

@[simp] theorem setHwq_self (s : Hw n) (h : Fin nxTxqCnt) (x : Hwq n) : (s.setHwq h x).hwqs h = x :=
  Function.update_self _ _ _

theorem setHwq_of_ne (s : Hw n) {h g : Fin nxTxqCnt} (x : Hwq n) (other : g ≠ h) :
    (s.setHwq h x).hwqs g = s.hwqs g :=
  Function.update_of_ne other _ _

theorem forall_setHwq {s : Hw n} {h : Fin nxTxqCnt} {x : Hwq n} {P : Fin nxTxqCnt → Hwq n → Prop}
    (self : P h x) (all : ∀ g, P g (s.hwqs g)) (g : Fin nxTxqCnt) :
        P g ((s.setHwq h x).hwqs g) := by
  by_cases same : g = h
  · subst same
    rw [setHwq_self]
    exact self
  · rw [setHwq_of_ne s x same]
    exact all g

/-! ## Scheduling -/

/-- What `aml_txq_add_to_hw_list` does under the lock of the queue. -/
def enlist (s : Hw n) (t : Fin n) : Hw n :=
  if (s.txqs t).inHwqList = false ∧ 0 < (s.txqs t).credits ∧ (s.txqs t).SkbReady then
    (s.setTxq t { s.txqs t with inHwqList := true }).setHwq (s.txqs t).hwq
      { s.hwqs (s.txqs t).hwq with
        list := (s.hwqs (s.txqs t).hwq).list ++ [t]
        needProcessing := true }
  else s

/-- `aml_txq_del_from_hw_list`. -/
def delFromHwList (s : Hw n) (t : Fin n) : Hw n :=
  if (s.txqs t).inHwqList then
    (s.setTxq t { s.txqs t with inHwqList := false }).setHwq (s.txqs t).hwq
      { s.hwqs (s.txqs t).hwq with list := (s.hwqs (s.txqs t).hwq).list.erase t }
  else s

/-- `aml_txq_stop`. -/
def stop (s : Hw n) (t : Fin n) (reason : Finset Stop) : Hw n :=
  if (s.txqs t).active then
    (s.setTxq t { s.txqs t with stops := (s.txqs t).stops ∪ reason }).delFromHwList t
  else s

/-! ## Pushing -/

/-- What `aml_ipc_txdesc_push` does with a buffer. -/
def fateOf (s : Hw n) (skb : Nat) : Fate :=
  if s.bus = .pcie ∧ s.fate skb = .suspended then .suspended
  else if s.hostids = 0 then .noHostid
  else if s.bus = .pcie ∧ s.fate skb ≠ .sent then .unmapped
  else .sent

/-- A buffer that is sent, or could not be mapped, takes a host id. -/
def ipcTxdescPush (s : Hw n) (skb : Nat) : Hw n :=
  if s.fateOf skb = .sent ∨ s.fateOf skb = .unmapped then { s with hostids := s.hostids - 1 } else s

/-- What `aml_tx_push` takes from a queue. -/
def charge (s : Hw n) (t : Fin n) (f : Frame) : Hw n :=
  s.setTxq t ((s.txqs t).charge (s.fateOf f.skb) f)

/-- A queue without credits is stopped. -/
def stopFull (s : Hw n) (t : Fin n) : Hw n :=
  if (s.txqs t).credits ≤ 0 then s.stop t {.full} else s

/-- `aml_tx_push`. -/
def txPush (s : Hw n) (t : Fin n) (f : Frame) : Hw n :=
  let s' := ((s.charge t f).stopFull t).ipcTxdescPush f.skb
  s'.setHwq (s.txqs t).hwq
    { s'.hwqs (s.txqs t).hwq with credits := (s'.hwqs (s.txqs t).hwq).credits - 1 }

/-- The first frames of a queue are taken out and pushed. -/
def pushSkbs (s : Hw n) (t : Fin n) (count : Nat) : Hw n :=
  ((s.txqs t).queue.skList.take count).foldl (fun s f => s.txPush t f)
    (s.setQueue t { (s.txqs t).queue with skList := (s.txqs t).queue.skList.drop count })

/-- What becomes of the place of a queue that has pushed. -/
def endTurn (s : Hw n) (h : Fin nxTxqCnt) (t : Fin n) (done : Bool) : Hw n :=
  if done then
    (s.delFromHwList t).setTxq t { (s.delFromHwList t).txqs t with pktSent := 0 }
  else if (s.hwqs h).credits = 0 ∧ (s.txqs t).inHwqList = true ∧
      hwqSize s.bus h < (s.txqs t).pktSent then
    (s.setTxq t { s.txqs t with pktSent := 0 }).setHwq h
      { s.hwqs h with list := (s.hwqs h).list.rotate 1 }
  else s

/-- In legacy power save a service period that cannot be completed is given up. -/
def endService (s : Hw n) (t : Fin n) : Hw n :=
  if (s.txqs t).pushLimit ≠ 0 ∧ (s.txqs t).sta = true ∧ (s.txqs t).legacyPs = true then
    s.setTxq t { s.txqs t with pushLimit := 0 }
  else s

/-- The turn of a queue in `aml_hwq_process`. -/
def turn (s : Hw n) (h : Fin nxTxqCnt) (t : Fin n) : Hw n :=
  let push := (s.txqs t).skbToPush (s.hwqs h).credits
  let marked := { s with broken := s.broken || decide (push.1 ≤ 0) }
  ((marked.pushSkbs t push.1.toNat).endTurn h t push.2).endService t

/-- The walk of `aml_hwq_process`. -/
def hwqProcessFrom (h : Fin nxTxqCnt) : List (Fin n) → Hw n → Hw n
  | [], s => s
  | t :: rest, s =>
      if (s.txqs t).inHwqList = true ∧ (s.txqs t).active = true ∧ 0 < (s.txqs t).credits ∧
          (s.txqs t).SkbReady then
        if (s.hwqs h).credits = 0 then s else hwqProcessFrom h rest (s.turn h t)
      else hwqProcessFrom h rest { s with sanityError := true }

/-- `aml_hwq_process`. -/
def hwqProcess (s : Hw n) (h : Fin nxTxqCnt) : Hw n :=
  hwqProcessFrom h (s.hwqs h).list (s.setHwq h { s.hwqs h with needProcessing := false })

/-- `aml_hwq_process_all`. -/
def hwqProcessAll (s : Hw n) : Hw n :=
  (List.finRange nxTxqCnt).reverse.foldl
    (fun s h => if (s.hwqs h).needProcessing then s.hwqProcess h else s) s

/-- `aml_txq_add_to_hw_list`. -/
def addToHwList (s : Hw n) (t : Fin n) : Hw n :=
  if (s.txqs t).stops ≠ ∅ then s
  else if s.bus = .pcie ∧ ((s.enlist t).txqs t).inHwqList = true then
    (s.enlist t).hwqProcess (s.txqs t).hwq
  else s.enlist t

/-- `aml_txq_start`. -/
def start (s : Hw n) (t : Fin n) (reason : Finset Stop) : Hw n :=
  if (s.txqs t).active = true ∧ (s.txqs t).stops ∩ reason ≠ ∅ then
    (s.setTxq t { s.txqs t with stops := (s.txqs t).stops \ reason }).addToHwList t
  else s

/-! ## Answers of the firmware -/

def setCredits (s : Hw n) (t : Fin n) (credits : Int) : Hw n :=
  s.setTxq t { s.txqs t with credits }

/-- A queue is stopped or started as its credits tell. -/
def settle (s : Hw n) (t : Fin n) : Hw n :=
  if (s.txqs t).credits ≤ 0 then s.stop t {.full} else s.start t {.full}

/-- A frame is counted as confirmed, and its host id is available again. -/
def uncount (s : Hw n) (t : Fin n) : Hw n :=
  { s.setTxq t { s.txqs t with pktPushed := (s.txqs t).pktPushed - 1 } with
    hostids := s.hostids + 1 }

/-- `aml_txq_confirm_any`. -/
def confirmAny (s : Hw n) (t : Fin n) (h : Fin nxTxqCnt) : Hw n :=
  if (hwqSize s.bus h : Int) < (s.hwqs h).credits then s.uncount t
  else
    (s.uncount t).setHwq h
      { s.hwqs h with credits := (s.hwqs h).credits + 1, needProcessing := true }

/-- `aml_tx_retry`. -/
def txRetry (s : Hw n) (t : Fin n) (i : Nat) (credits : Nat) : Hw n :=
  let queued := (s.setQueue t ((s.txqs t).queue.retry i)).addToHwList t
  let given := queued.setCredits t ((queued.txqs t).credits + credits)
  if 0 < (given.txqs t).credits then given.start t {.full} else given

/-- What `aml_txdatacfm` and `aml_tx_cfm_task` do with the credits of a frame that is not sent
again. -/
def txConfirm (s : Hw n) (t : Fin n) (i : Nat) (credits : Nat) : Hw n :=
  let done := s.setQueue t ((s.txqs t).queue.confirm i)
  if (s.txqs t).active = true ∧ credits ≠ 0 then
    (done.setCredits t ((done.txqs t).credits + credits)).settle t
  else done

/-- The firmware confirms a frame; on SDIO and USB each frame brings one credit back. -/
def txCfm (s : Hw n) (t : Fin n) (i : Nat) (again : Bool) (credits : Nat) : Hw n :=
  match (s.txqs t).queue.flight[i]? with
  | none => s
  | some f =>
      if f.fate = some .sent then
        let credits := if s.bus = .pcie then credits else 1
        if (s.txqs t).active = true ∧ again = true then
          (s.confirmAny t f.hwQueue).txRetry t i credits
        else (s.confirmAny t f.hwQueue).txConfirm t i credits
      else s

/-- The part of `aml_txq_credit_update` that updates the credits. -/
def updateCredits (s : Hw n) (t : Fin n) (update : Int) : Hw n :=
  if (s.txqs t).active then
    (s.setCredits t ((s.txqs t).creditsAfter s.bus update)).settle t
  else s

/-- `aml_txq_credit_update`: in the end the frames to be sent again are dropped. -/
def creditUpdate (s : Hw n) (t : Fin n) (update : Int) : Hw n :=
  let s := s.updateCredits t update
  if update < nxTxqInitialCredits then s.setQueue t (s.txqs t).queue.dropRetries else s

/-! ## Frames and queues that come and go -/

/-- `aml_txq_queue_skb`, for a new frame; nothing is queued on a queue that is not in use. -/
def queueSkb (s : Hw n) (t : Fin n) (a : Arrival) : Hw n :=
  if (s.txqs t).active then
    (s.setQueue t ((s.txqs t).queue.queueNew a)).addToHwList t
  else s

/-- `aml_amsdu_add_subframe`. -/
def addSubframe (s : Hw n) (t : Fin n) (a : Arrival) (maxnb : Nat) (room : Bool) : Hw n :=
  if (s.txqs t).active then
    s.setQueue t ((s.txqs t).queue.addSubframe a maxnb room)
  else s

/-- `aml_txq_drop_old_traffic`. -/
def dropOldTraffic (s : Hw n) (t : Fin n) (now timeout : Nat) : Hw n :=
  if (s.txqs t).active then
    let dropped := s.setQueue t ((s.txqs t).queue.dropOld now timeout)
    if (dropped.txqs t).SkbReady then dropped
    else
      (dropped.delFromHwList t).setTxq t { (dropped.delFromHwList t).txqs t with pktSent := 0 }
  else s

/-- The length that a queue gets; `USB_AMSDU_BUF_LEN` is the most on USB. -/
def amsduLenOn (bus : Bus) (amsduLen : Nat) : Nat :=
  if bus = .usb then min amsduLen 4624 else amsduLen

/-- What `aml_amsdu_update_len` does with a queue, and with each of its station. -/
def amsduUpdateLen (s : Hw n) (t : Fin n) (amsduLen : Nat) (alloc : Nat → Bool) : Hw n :=
  if (s.txqs t).queue.amsduLen ≤ amsduLen then
    s.setQueue t { (s.txqs t).queue with amsduLen := amsduLenOn s.bus amsduLen }
  else if (s.txqs t).sta = false then s.setQueue t { (s.txqs t).queue with amsduLen := 0 }
  else
    let stopped := s.stop t {.dismantleAmsdu}
    (stopped.setQueue t
      { (stopped.txqs t).queue.dismantle amsduLen alloc with
        amsduLen := amsduLenOn s.bus amsduLen }).start t {.dismantleAmsdu}

/-- `aml_txq_deinit`. -/
def deinit (s : Hw n) (t : Fin n) : Hw n :=
  if (s.txqs t).active then
    let gone := s.delFromHwList t
    gone.setTxq t { gone.txqs t with queue := (gone.txqs t).queue.flush, active := false }
  else s

/-- `aml_txq_init`. -/
def initTxq (s : Hw n) (t : Fin n) (status : Finset Stop) (hwq : Fin nxTxqCnt)
    (sta legacyPs : Bool) : Hw n :=
  s.setTxq t
    { queue := (s.txqs t).queue.reset
      active := true
      stops := status
      inHwqList := false
      credits := nxTxqInitialCredits
      pktSent := 0
      pktPushed := 0
      pushLimit := 0
      hwq
      sta
      legacyPs }

/-! ## Runs -/

inductive Event (n : Nat)
  | init (t : Fin n) (status : Finset Stop) (hwq : Fin nxTxqCnt) (sta legacyPs : Bool)
  | deinit (t : Fin n)
  | queueSkb (t : Fin n) (a : Arrival)
  | addSubframe (t : Fin n) (a : Arrival) (maxnb : Nat) (room : Bool)
  /-- `aml_tx_task` processes the hardware queues. -/
  | hwqProcessAll
  | start (t : Fin n) (reason : Finset Stop)
  | stop (t : Fin n) (reason : Finset Stop)
  /-- Power save code sets the push limit. -/
  | pushLimit (t : Fin n) (limit : Int)
  /-- The firmware confirms a frame, which may have to be sent again. -/
  | txCfm (t : Fin n) (i : Nat) (again : Bool) (credits : Nat)
  | creditUpdate (t : Fin n) (update : Int)
  | amsduUpdateLen (t : Fin n) (amsduLen : Nat) (alloc : Nat → Bool)
  | dropOldTraffic (t : Fin n) (now timeout : Nat)
  /-- The bus is suspended or resumed, or memory for DMA comes short. -/
  | fate (fate : Nat → Fate)

/-- `aml_txq_init` was called for a queue that is in use. -/
inductive Fault
  | inUse
deriving DecidableEq, Repr

def step (s : Hw n) : Event n → Except Fault (Hw n)
  | .init t status hwq sta legacyPs =>
      if (s.txqs t).active then .error .inUse else .ok (s.initTxq t status hwq sta legacyPs)
  | .deinit t => .ok (s.deinit t)
  | .queueSkb t a => .ok (s.queueSkb t a)
  | .addSubframe t a maxnb room => .ok (s.addSubframe t a maxnb room)
  | .hwqProcessAll => .ok s.hwqProcessAll
  | .start t reason => .ok (s.start t reason)
  | .stop t reason => .ok (s.stop t reason)
  | .pushLimit t limit => .ok (s.setTxq t { s.txqs t with pushLimit := limit })
  | .txCfm t i again credits => .ok (s.txCfm t i again credits)
  | .creditUpdate t update => .ok (s.creditUpdate t update)
  | .amsduUpdateLen t amsduLen alloc => .ok (s.amsduUpdateLen t amsduLen alloc)
  | .dropOldTraffic t now timeout => .ok (s.dropOldTraffic t now timeout)
  | .fate fate => .ok { s with fate }

/-- `aml_txq_prepare` and `aml_hwq_init`: no queue is in use; `data` tells which are for a TID. -/
def init (bus : Bus) (data : Fin n → Bool) : Hw n where
  bus
  txqs t :=
    { queue := Queue.init (data t)
      active := false
      stops := ∅
      inHwqList := false
      credits := 0
      pktSent := 0
      pktPushed := 0
      pushLimit := 0
      hwq := 0
      sta := false
      legacyPs := false }
  hwqs h := ⟨[], hwqSize bus h, false⟩
  hostids := hostidCnt bus
  fate _ := .sent
  sanityError := false
  broken := false

end Hw

end AmlW2.Tx
