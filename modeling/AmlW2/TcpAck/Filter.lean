import AmlW2.Lib.Run
import Mathlib.Algebra.Ring.Nat
import Mathlib.Logic.Function.Basic

/-!
# The TCP acknowledgement filter

Pure acknowledgements on their way to the device are held back, one for each TCP session, until a
newer one replaces them, a count is reached or a timer fires.  Calls of the filter run on several
CPUs at once, and each session and the manager have a lock of their own.  A step of the system is
one section under a lock, or one access to what is shared without a lock.
-/

namespace AmlW2.TcpAck

/-! ## Packets -/

/-- `AML_U32_BEFORE`. -/
def U32Before (a b : BitVec 32) : Prop := (a - b).toInt ≤ 0

instance (a b : BitVec 32) : Decidable (U32Before a b) := inferInstanceAs (Decidable (_ ≤ _))

/-- What `aml_check_tcp_ack_type` answers. -/
inductive AckType
  /-- 0: not a TCP ACK. -/
  | none
  /-- 1: a TCP ACK. -/
  | ack
  /-- 2: a TCP ACK with other information. -/
  | other
deriving DecidableEq

/-- The addresses and ports that tell sessions apart, of `struct aml_pkt_info`. -/
structure Flow where
  source : BitVec 16
  dest : BitVec 16
  saddr : BitVec 32
  daddr : BitVec 32
deriving DecidableEq

/-- An `sk_buff`, with what `aml_check_tcp_ack_type` reads in it. -/
structure Skb where
  /-- Which buffer it is. -/
  id : Nat
  len : Nat
  type : AckType
  flow : Flow
  seq : BitVec 32
  win : BitVec 16
  /-- The window scale option, or 0. -/
  winScale : BitVec 16
deriving DecidableEq

/-! ## State -/

/-- `AML_TCP_SESS_NUM`. -/
def tcpSessNum : Nat := 128

theorem tcpSessNum_ne_zero : tcpSessNum ≠ 0 := by decide

instance tcpSessNum_neZero : NeZero tcpSessNum := ⟨tcpSessNum_ne_zero⟩

/-- The index of a session. -/
abbrev SessIdx := Fin tcpSessNum

/-- `struct aml_tcp_sess_info`. -/
structure TcpSess where
  busy : Bool
  dropCnt : BitVec 8
  winScale : BitVec 16
  lastTime : Nat
  /-- When `timer` expires, while it is pending. -/
  timer : Option Nat
  /-- The timer has expired and its handler has not yet taken the lock. -/
  firing : Bool
  skb : Option Skb
  flow : Flow
  seq : BitVec 32

/-- `force_delay_ack`. -/
inductive ForceDelayAck
  | auto
  | disable
  | enable
deriving DecidableEq

/-- `struct aml_tcp_sess_mgr` but for the sessions. -/
structure TcpSessMgr where
  enable : Bool
  forceDelayAck : ForceDelayAck
  dynamicAdjust : Bool
  usedNum : Int
  /-- `free_index`, unless negative. -/
  freeIndex : Option SessIdx
  lastTime : Nat
  maxDropCnt : Int
  /-- In milliseconds. -/
  maxTimeout : Nat
  ackWinsize : BitVec 32
  winScale : BitVec 16
  /-- `aml_alloc_tcp_sess` is at work under `lock`. -/
  locked : Bool

/-- Where a call of `aml_filter_tx_tcp_ack` is. -/
inductive Place
  /-- About to see whether it is time for `aml_tcp_sess_ageout`. -/
  | gate
  /-- At a session in `aml_tcp_sess_ageout`. -/
  | sweep (i : SessIdx)
  /-- About to adjust the drop count in `aml_tcp_sess_ageout`. -/
  | adjust
  /-- The type is known. -/
  | classified
  /-- About to read `enable`. -/
  | enabled
  /-- At a session in `aml_tcp_sess_find`. -/
  | find (i : SessIdx)
  /-- The session is found. -/
  | found (i : SessIdx)
  /-- Its window scale is up to date. -/
  | scaled (i : SessIdx)
  | replace (i : SessIdx) (type : AckType)
  | alloc
  /-- At a session in `aml_alloc_tcp_sess`. -/
  | scan (i : SessIdx)
  /-- The session is allocated. -/
  | allocated (i : SessIdx)
  /-- About to set up the session. -/
  | setup (i : SessIdx) (dropCnt : BitVec 8)

/-- The next section is one under the lock of the manager. -/
def Place.locks : Place → Bool
  | .gate => true
  | .alloc => true
  | _ => false

/-- A call of `aml_filter_tx_tcp_ack`. -/
structure Call where
  skb : Skb
  place : Place

/-- Whose an skb is. -/
inductive Owner
  /-- The caller's, or nobody's yet. -/
  | caller
  /-- A call of the filter is at work on it. -/
  | offered
  /-- The filter has reported that it took it. -/
  | filter
deriving DecidableEq

/-- What becomes of an skb. -/
inductive Fate
  | queued
  | freed
deriving DecidableEq

/-- The filter and the calls in progress.  Neither `jiffies` nor what is counted from it wraps. -/
structure Filter where
  /-- `aml_bus_type` is `USB_MODE`. -/
  usb : Bool
  /-- `HZ`. -/
  hz : Nat
  jiffies : Nat
  mgr : TcpSessMgr
  /-- `tcp_info` -/
  info : SessIdx → TcpSess
  calls : Nat → Option Call
  owner : Skb → Owner
  /-- The skbs that the filter has reported no interest in and that `aml_start_xmit` is at work
  on. -/
  sending : List Skb
  /-- What has become of those that it is done with. -/
  sent : List (Skb × Fate)
  /-- What has become of the skbs that the filter took. -/
  disposed : List (Skb × Fate)

/-- `MAX_TCP_ACK_LEN`. -/
def maxTcpAckLen : Nat := 200

/-- `MAX_DROP_TCP_ACK_CNT_USB` or `MAX_DROP_TCP_ACK_CNT`. -/
def maxDropTcpAckCnt (usb : Bool) : Nat := if usb then 5 else 8

/-- `TCK_SESS_TIMEOUT_TIME`. -/
def tckSessTimeoutTime : Nat := 1000

/-- `MAX_TCP_ACK_TIMEOUT`. -/
def maxTcpAckTimeout : Nat := 30

/-- `msecs_to_jiffies`. -/
def msecsToJiffies (hz m : Nat) : Nat := (m * hz + 999) / 1000

namespace Filter

/-- The `timeout` of the manager and of each session. -/
def timeout (s : Filter) : Nat := msecsToJiffies s.hz tckSessTimeoutTime

def setInfo (s : Filter) (i : SessIdx) (info : TcpSess) : Filter :=
  { s with info := Function.update s.info i info }

/-- `dev_kfree_skb_any`, of an skb that may be `NULL`. -/
def kfree (s : Filter) (skb : Option Skb) : Filter :=
  { s with disposed := s.disposed ++ skb.toList.map fun skb => (skb, .freed) }

/-- The call goes on at a place. -/
def goto (s : Filter) (t : Nat) (skb : Skb) (place : Place) : Filter :=
  { s with calls := Function.update s.calls t (some ⟨skb, place⟩) }

/-- The call returns 1. -/
def take (s : Filter) (t : Nat) (skb : Skb) : Filter :=
  { s with
    calls := Function.update s.calls t none
    owner := Function.update s.owner skb .filter }

/-- The call returns 0. -/
def pass (s : Filter) (t : Nat) (skb : Skb) : Filter :=
  { s with
    calls := Function.update s.calls t none
    owner := Function.update s.owner skb .caller
    sending := s.sending ++ [skb] }

/-- What the rest of `aml_start_xmit` depends on. -/
structure Xmit where
  /-- The txq is not `TXQ_INACTIVE`. -/
  active : Bool
  /-- `aml_amsdu_add_subframe` takes the skb into an A-MSDU. -/
  subframe : Bool
  /-- `kmem_cache_zalloc` of the `sw_txhdr` succeeds. -/
  header : Bool
  /-- `aml_prep_dma_tx` succeeds. -/
  mapped : Bool
  /-- The txq is not `TXQ_INACTIVE` under `tx_lock`. -/
  stillActive : Bool

/-- The skb gets to its txq; at every other exit it is freed. -/
def Xmit.queues (e : Xmit) : Bool :=
  e.active && (e.subframe || e.header && e.mapped && e.stillActive)

/-- `aml_start_xmit` is done with an skb. -/
def xmit (s : Filter) (skb : Skb) (e : Xmit) : Filter :=
  { s with
    sending := s.sending.erase skb
    sent := s.sent ++ [(skb, if e.queues then .queued else .freed)] }

/-! ## Sessions -/

/-- `aml_tcp_sess_ageout`, at one session. -/
def ageout (s : Filter) (i : SessIdx) : Filter :=
  if (s.info i).busy ∧ (s.info i).lastTime + s.timeout < s.jiffies then
    { s.setInfo i { s.info i with busy := false } with
      mgr.freeIndex := some i
      mgr.usedNum := s.mgr.usedNum - 1 }
  else s

/-- The drop count for the number of sessions in use. -/
def dropCntFor (s : Filter) : Nat :=
  if s.mgr.dynamicAdjust ∧ !s.usb then
    if s.mgr.usedNum < 5 then 1
    else if s.mgr.usedNum < 10 then (s.mgr.usedNum / 2).toNat
    else maxDropTcpAckCnt s.usb
  else maxDropTcpAckCnt s.usb

/-- The drop count in use follows the number of sessions. -/
def adjustDropCnt (s : Filter) : Filter :=
  if s.mgr.dynamicAdjust then { s with mgr.maxDropCnt := s.dropCntFor } else s

/-- `aml_tcp_sess_find`, at one session. -/
def Matches (s : Filter) (i : SessIdx) (flow : Flow) : Prop :=
  (s.info i).busy ∧ (s.info i).flow = flow

instance (s : Filter) (i : SessIdx) (flow : Flow) : Decidable (s.Matches i flow) :=
  inferInstanceAs (Decidable (_ ∧ _))

/-- `mod_timer` unless `timer_pending`. -/
def armed (s : Filter) (info : TcpSess) : TcpSess :=
  { info with
    timer := some (info.timer.getD (s.jiffies + msecsToJiffies s.hz s.mgr.maxTimeout)) }

/-- `aml_replace_tcp_ack`, with what it returns. -/
def replaceTcpAck (s : Filter) (skb : Skb) (i : SessIdx) (type : AckType) : Filter × Bool :=
  let info := { s.info i with lastTime := s.jiffies }
  if type = .other then
    if U32Before info.seq skb.seq then
      ((s.setInfo i { info with
          seq := skb.seq
          skb := none
          timer := if info.skb.isSome then none else info.timer
          dropCnt := .ofInt 8 s.mgr.maxDropCnt }).kfree info.skb, false)
    else ((s.setInfo i info).kfree (some skb), true)
  else if U32Before info.seq skb.seq then
    if s.mgr.maxDropCnt ≤ (info.dropCnt + 1).toNat then
      ((s.setInfo i { info with
          seq := skb.seq
          skb := none
          dropCnt := 0
          timer := none }).kfree info.skb, false)
    else
      ((s.setInfo i (s.armed { info with
          seq := skb.seq
          skb := some skb
          dropCnt := info.dropCnt + 1 })).kfree info.skb, true)
  else ((s.setInfo i info).kfree (some skb), true)

/-- What a session becomes when it accepts the number of an skb. -/
structure Accepted (s : Filter) (skb : Skb) (i : SessIdx) (info : TcpSess) : Prop where
  busy : info.busy = (s.info i).busy
  flow : info.flow = (s.info i).flow
  firing : info.firing = (s.info i).firing
  lastTime : info.lastTime = s.jiffies
  seq : info.seq = skb.seq

/-- The ways of `aml_replace_tcp_ack`: the skb is freed, returned or held. -/
theorem replaceTcpAck_cases (s : Filter) (skb : Skb) (i : SessIdx) (type : AckType) :
    (¬U32Before (s.info i).seq skb.seq ∧
      s.replaceTcpAck skb i type =
        ((s.setInfo i { s.info i with lastTime := s.jiffies }).kfree (some skb), true)) ∨
    (U32Before (s.info i).seq skb.seq ∧ ∃ info, s.Accepted skb i info ∧
      (info.skb = none ∧ (info.timer = none ∨ info.timer = (s.info i).timer) ∧
          s.replaceTcpAck skb i type = ((s.setInfo i info).kfree (s.info i).skb, false) ∨
        info.skb = some skb ∧ info.timer = (s.armed (s.info i)).timer ∧
          s.replaceTcpAck skb i type = ((s.setInfo i info).kfree (s.info i).skb, true))) := by
  by_cases before : U32Before (s.info i).seq skb.seq
  · refine .inr ⟨before, ?_⟩
    by_cases other : type = .other
    · simp only [replaceTcpAck, if_pos other, if_pos before]
      refine ⟨_, ?_, .inl ⟨?_, ?_, rfl⟩⟩
      · exact ⟨rfl, rfl, rfl, rfl, rfl⟩
      · rfl
      · exact ite_eq_or_eq _ _ _
    · simp only [replaceTcpAck, if_neg other, if_pos before]
      by_cases count : s.mgr.maxDropCnt ≤ ((s.info i).dropCnt + 1).toNat
      · rw [if_pos count]
        refine ⟨_, ?_, .inl ⟨?_, .inl ?_, rfl⟩⟩
        · exact ⟨rfl, rfl, rfl, rfl, rfl⟩
        · rfl
        · rfl
      · rw [if_neg count]
        refine ⟨_, ?_, .inr ⟨?_, ?_, rfl⟩⟩
        · exact ⟨rfl, rfl, rfl, rfl, rfl⟩
        · rfl
        · rfl
  · refine .inl ⟨before, ?_⟩
    simp only [replaceTcpAck, if_neg before, ite_self]

/-- The session is set up for the flow of an skb. -/
def setup (s : Filter) (skb : Skb) (i : SessIdx) (dropCnt : BitVec 8) : Filter :=
  s.setInfo i (s.armed { s.info i with
    busy := true
    lastTime := s.jiffies
    dropCnt := dropCnt
    winScale := s.mgr.winScale
    flow := skb.flow
    seq := skb.seq })

/-! ## Sending a held ACK -/

/-- What `aml_send_tcp_ack` depends on. -/
structure Sending where
  /-- `kmem_cache_alloc` of the `sw_txhdr` succeeds. -/
  header : Bool
  /-- The chip is in recovery. -/
  recovering : Bool
  /-- `aml_prep_dma_tx` succeeds. -/
  mapped : Bool
  /-- The txq is not `TXQ_INACTIVE`. -/
  active : Bool

/-- The ACK gets to its txq. -/
def Sending.queues (e : Sending) : Bool := e.header && !e.recovering && e.mapped && e.active

/-- `aml_send_tcp_ack`. -/
def sendTcpAck (s : Filter) (skb : Skb) (e : Sending) : Filter :=
  -- At this exit the local `skb` is still `NULL`.
  if !e.header then s.kfree none
  else if e.recovering then s.kfree (some skb)
  else if !e.mapped then s.kfree (some skb)
  else if !e.active then s.kfree (some skb)
  else { s with disposed := s.disposed ++ [(skb, .queued)] }

/-- `aml_tcp_ack_timeout`. -/
def tcpAckTimeout (s : Filter) (i : SessIdx) (e : Sending) : Filter :=
  let info := { s.info i with firing := false }
  match info.skb with
  | some skb =>
      if info.busy then (s.setInfo i { info with skb := none, dropCnt := 0 }).sendTcpAck skb e
      else s.setInfo i info
  | none => s.setInfo i info

/-- `aml_tcp_delay_ack_deinit`, at one session. -/
def release (s : Filter) (i : SessIdx) : Filter :=
  (s.setInfo i { s.info i with timer := none, skb := none }).kfree (s.info i).skb

/-! ## Control -/

/-- `aml_set_tcp_ack_auto`. -/
def setTcpAckAuto (s : Filter) (trafficBusy : Bool) : Filter :=
  if s.mgr.forceDelayAck = .auto then { s with mgr.enable := trafficBusy } else s

/-- `aml_set_tcp_delay_ack`. -/
def setTcpDelayAck (s : Filter) (force : ForceDelayAck) (minSize : BitVec 32) : Filter :=
  { s with
    mgr.forceDelayAck := force
    mgr.enable := match force with
      | .disable => false
      | .enable => true
      | .auto => s.mgr.enable
    mgr.ackWinsize := minSize }

/-- `aml_set_max_drop_num`. -/
def setMaxDropNum (s : Filter) (num : Int) : Filter :=
  if num < 0 then
    { s with mgr.maxDropCnt := maxDropTcpAckCnt s.usb, mgr.dynamicAdjust := true }
  else { s with mgr.maxDropCnt := num, mgr.dynamicAdjust := false }

/-- `aml_set_max_timeout`. -/
def setMaxTimeout (s : Filter) (time : Nat) : Filter := { s with mgr.maxTimeout := time }

/-! ## Steps -/

/-- The next section of `aml_filter_tx_tcp_ack`, for a call at a place. -/
def advance (s : Filter) (t : Nat) (skb : Skb) : Place → Filter
  | .gate =>
      if s.mgr.lastTime + s.timeout < s.jiffies then
        { s with mgr.lastTime := s.jiffies }.goto t skb (.sweep 127)
      else s.goto t skb .classified
  | .sweep i =>
      (s.ageout i).goto t skb <| match i with
        | ⟨0, _⟩ => .adjust
        | ⟨j + 1, lt⟩ => .sweep ⟨j, Nat.lt_of_succ_lt lt⟩
  | .adjust => s.adjustDropCnt.goto t skb .classified
  | .classified =>
      let s := if skb.winScale ≠ 0 then { s with mgr.winScale := skb.winScale } else s
      if skb.type = .none then s.pass t skb else s.goto t skb .enabled
  | .enabled => if s.mgr.enable then s.goto t skb (.find 0) else s.pass t skb
  | .find i =>
      if s.Matches i skb.flow then s.goto t skb (.found i)
      else s.goto t skb (if lt : i.val + 1 < tcpSessNum then .find ⟨i.val + 1, lt⟩ else .alloc)
  | .found i =>
      let s := if s.mgr.winScale ≠ 0 then
        s.setInfo i { s.info i with winScale := s.mgr.winScale } else s
      s.goto t skb (.scaled i)
  | .scaled i =>
      let win := (s.info i).winScale.setWidth 32 * skb.win.setWidth 32
      s.goto t skb (.replace i (if win < s.mgr.ackWinsize * 1024 then .other else skb.type))
  | .replace i type =>
      if (s.replaceTcpAck skb i type).2 then (s.replaceTcpAck skb i type).1.take t skb
      else (s.replaceTcpAck skb i type).1.pass t skb
  | .alloc =>
      if s.mgr.usedNum = tcpSessNum then s.pass t skb
      else match s.mgr.freeIndex with
        | some i =>
            { s with mgr.freeIndex := none, mgr.usedNum := s.mgr.usedNum + 1 }.goto t skb
              (.allocated i)
        | none => { s with mgr.locked := true }.goto t skb (.scan 0)
  | .scan i =>
      if (s.info i).busy then
        if lt : i.val + 1 < tcpSessNum then s.goto t skb (.scan ⟨i.val + 1, lt⟩)
        else { s with mgr.locked := false }.pass t skb
      else
        { s with
          mgr.freeIndex := none
          mgr.usedNum := s.mgr.usedNum + 1
          mgr.locked := false }.goto t skb (.allocated i)
  | .allocated i => s.adjustDropCnt.goto t skb (.setup i (.ofNat 8 s.dropCntFor))
  | .setup i dropCnt => (s.setup skb i dropCnt).pass t skb

/-! ## Steps of the system -/

/-- What can happen. -/
inductive Event
  /-- A call of `aml_filter_tx_tcp_ack` begins. -/
  | call (t : Nat) (skb : Skb)
  /-- A call goes on. -/
  | go (t : Nat)
  /-- `aml_start_xmit` goes on with an skb that the filter has reported no interest in. -/
  | xmit (skb : Skb) (e : Xmit)
  | tick
  /-- The timer of a session expires. -/
  | expire (i : SessIdx)
  /-- The handler of a timer that has expired runs. -/
  | timeout (i : SessIdx) (e : Sending)
  | setTcpAckAuto (trafficBusy : Bool)
  | setTcpDelayAck (force : ForceDelayAck) (minSize : BitVec 32)
  | setMaxDropNum (num : Int)
  | setMaxTimeout (time : Nat)
  /-- `aml_tcp_delay_ack_deinit` begins. -/
  | stop
  /-- It comes to a session. -/
  | release (i : SessIdx)

/-- What the event does, unless it cannot happen. -/
def step (s : Filter) : Event → Except Unit Filter
  | .call t skb =>
      if (s.calls t).isSome ∨ s.owner skb ≠ .caller then .error ()
      else if maxTcpAckLen < skb.len then .ok (s.pass t skb)
      else .ok ({ s with owner := Function.update s.owner skb .offered }.goto t skb .gate)
  | .go t =>
      match s.calls t with
      | none => .error ()
      | some c =>
          if c.place.locks ∧ s.mgr.locked then .error () else .ok (s.advance t c.skb c.place)
  | .xmit skb e => if skb ∈ s.sending then .ok (s.xmit skb e) else .error ()
  | .tick => .ok { s with jiffies := s.jiffies + 1 }
  | .expire i =>
      match (s.info i).timer with
      | none => .error ()
      | some expires =>
          if s.jiffies < expires ∨ (s.info i).firing then .error ()
          else .ok (s.setInfo i { s.info i with timer := none, firing := true })
  | .timeout i e => if (s.info i).firing then .ok (s.tcpAckTimeout i e) else .error ()
  | .setTcpAckAuto trafficBusy => .ok (s.setTcpAckAuto trafficBusy)
  | .setTcpDelayAck force minSize => .ok (s.setTcpDelayAck force minSize)
  | .setMaxDropNum num => .ok (s.setMaxDropNum num)
  | .setMaxTimeout time => .ok (s.setMaxTimeout time)
  | .stop => .ok { s with mgr.enable := false }
  | .release i => .ok (s.release i)

/-- `aml_tcp_delay_ack_init`. -/
def init (usb : Bool) (hz jiffies : Nat) : Filter where
  usb
  hz
  jiffies
  mgr :=
    { enable := false
      forceDelayAck := .auto
      dynamicAdjust := !usb
      usedNum := 0
      freeIndex := some 0
      lastTime := jiffies
      maxDropCnt := maxDropTcpAckCnt usb
      maxTimeout := maxTcpAckTimeout
      ackWinsize := 96
      winScale := 1
      locked := false }
  info := fun _ =>
    { busy := false
      dropCnt := 0
      winScale := 0
      lastTime := jiffies
      timer := none
      firing := false
      skb := none
      flow := ⟨0, 0, 0, 0⟩
      seq := 0 }
  calls := fun _ => none
  owner := fun _ => .caller
  sending := []
  sent := []
  disposed := []

end Filter

end AmlW2.TcpAck
