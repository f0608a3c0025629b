import AmlW2.Tx.Txq

/-!
# Power save of a station

While a station is in power save its transmit queues are stopped and the frames in them are counted,
and the firmware is told whether there are any.  On a request of the station some of them are
started again, with a limit on what they push.  The queues are those of the whole device, and one
station is looked at with the counters it has.
-/

namespace AmlW2.Tx

/-- `LEGACY_PS_ID` and `UAPSD_ID`. -/
inductive PsId
  | legacy
  | uapsd
deriving DecidableEq, Repr

/-- `PS_SP_INTERRUPTED`. -/
def psSpInterrupted : BitVec 16 := 255

/-- `nx_tid_prio`. -/
def nxTidPrio : List Nat := [8, 7, 6, 5, 4, 3, 0, 2, 1]

/-- What `aml_set_more_data_flag` puts in the descriptor of a frame. -/
structure Mark where
  skb : Nat
  /-- `TXU_CNTRL_EOSP`. -/
  eosp : Bool
  /-- `TXU_CNTRL_MORE_DATA`. -/
  moreData : Bool

/-- The device and `sta->ps` of one station. -/
structure PowerSave (n : Nat) where
  hw : Hw n
  /-- The txqs of the station, by TID; of a multicast station the one for TID 0. -/
  tids : List (Fin n)
  distinct : tids.Nodup
  /-- `is_multicast_sta`. -/
  multicast : Bool
  /-- The vif is a mesh point. -/
  mesh : Bool
  /-- `tdls.active`: the station is a TDLS peer with its link up. -/
  tdls : Bool
  active : Bool
  spCnt : PsId → BitVec 16
  pktReady : PsId → BitVec 16
  /-- What `aml_set_traffic_status` was called with last. -/
  available : PsId → Bool
  /-- Whether it has told the firmware then that there is traffic. -/
  told : PsId → Bool
  marks : List Mark
  /-- What is left of what was granted for a service period. -/
  left : PsId → Int
  /-- A service period has come to an end since the station entered power save, or has been granted
  less than nothing. -/
  finished : PsId → Bool
  /-- A frame was pushed in power save when nothing was left of a service period. -/
  outside : Bool

/-- `ps_id`. -/
def Txq.psId (q : Txq) : PsId := if q.legacyPs then .legacy else .uapsd

namespace PowerSave

variable {n : Nat}

/-- `ps_id` of a txq. -/
def psId (s : PowerSave n) (t : Fin n) : PsId := (s.hw.txqs t).psId

/-- The txqs in the order of `foreach_sta_txq_prio`. -/
def prio (s : PowerSave n) : List (Fin n) := nxTidPrio.filterMap fun tid => s.tids[tid]?

/-- The txq is one of a station in power save. -/
def Dozing (s : PowerSave n) (t : Fin n) : Prop := s.active = true ∧ t ∈ s.tids

instance (s : PowerSave n) (t : Fin n) : Decidable (s.Dozing t) :=
  inferInstanceAs (Decidable (_ ∧ _))

/-! ## Counters -/

/-- `aml_set_traffic_status`: of a TDLS peer traffic is indicated in either case. -/
def tell (s : PowerSave n) (id : PsId) (available : Bool) : PowerSave n :=
  { s with
    available := Function.update s.available id available
    told := Function.update s.told id (s.tdls || available) }

/-- It is called for each `ps_id` that has frames. -/
def tellReady (s : PowerSave n) (available : Bool) : PowerSave n :=
  let s' := if s.pktReady .legacy ≠ 0 then s.tell .legacy available else s
  if s.pktReady .uapsd ≠ 0 then s'.tell .uapsd available else s'

def setReady (s : PowerSave n) (id : PsId) (ready : BitVec 16) : PowerSave n :=
  { s with pktReady := Function.update s.pktReady id ready }

/-- So much of a service period is gone. -/
def spend (s : PowerSave n) (id : PsId) (count : Int) : PowerSave n :=
  { s with
    spCnt := Function.update s.spCnt id (s.spCnt id - BitVec.ofInt 16 count)
    left := Function.update s.left id (s.left id - count)
    finished := Function.update s.finished id
      (s.finished id || decide (0 < s.left id ∧ s.left id - count ≤ 0)) }

/-- What `aml_txq_queue_skb` does with the counters. -/
def countQueued (s : PowerSave n) (t : Fin n) : PowerSave n :=
  if s.Dozing t then
    let s' := s.setReady (s.psId t) (s.pktReady (s.psId t) + 1)
    if s'.pktReady (s.psId t) = 1 then s'.tell (s.psId t) true else s'
  else s

/-- A frame is no more in the txq. -/
def countGone (s : PowerSave n) (t : Fin n) : PowerSave n :=
  let s' := s.setReady (s.psId t) (s.pktReady (s.psId t) - 1)
  if s'.pktReady (s.psId t) = 0 then s'.tell (s.psId t) false else s'

/-- The descriptor of a frame is marked. -/
def mark (s : PowerSave n) (mark : Mark) (outside : Bool) : PowerSave n :=
  { s with
    marks := s.marks ++ [mark]
    outside := s.outside || outside }

/-- `aml_set_more_data_flag`. -/
def setMoreDataFlag (s : PowerSave n) (t : Fin n) (f : Frame) : PowerSave n :=
  if s.Dozing t then
    let id := s.psId t
    let s' := (s.countGone t).spend id 1
    s'.mark ⟨f.skb, decide ((id = .uapsd ∨ s.mesh = true ∨ s.tdls = true) ∧ s'.spCnt id = 0),
      decide (s'.pktReady id ≠ 0)⟩ (decide (s.left id ≤ 0))
  else s

/-- What `aml_txq_drop_old_traffic` does with the counters for a frame it drops. -/
def countDropped (s : PowerSave n) (t : Fin n) : PowerSave n :=
  if s.Dozing t then
    let s' := s.countGone t
    if s'.spCnt (s.psId t) ≠ 0 then
      let s' := s'.spend (s.psId t) 1
      { s' with
        hw := s'.hw.setTxq t
          { s'.hw.txqs t with
            pushLimit :=
              if (s'.hw.txqs t).pushLimit ≠ 0 then (s'.hw.txqs t).pushLimit - 1 else 0 } }
    else s'
  else s

/-! ## Pushing -/

/-- `aml_tx_push`. -/
def txPush (s : PowerSave n) (t : Fin n) (f : Frame) : PowerSave n :=
  { s.setMoreDataFlag t f with hw := s.hw.txPush t f }

/-- The first frames of a queue are taken out. -/
def takeOut (s : PowerSave n) (t : Fin n) (count : Nat) : PowerSave n :=
  { s with
    hw := s.hw.setQueue t
      { (s.hw.txqs t).queue with skList := (s.hw.txqs t).queue.skList.drop count } }

/-- They are pushed. -/
def pushSkbs (s : PowerSave n) (t : Fin n) (count : Nat) : PowerSave n :=
  ((s.hw.txqs t).queue.skList.take count).foldl (fun s f => s.txPush t f) (s.takeOut t count)

def endTurn (s : PowerSave n) (h : Fin nxTxqCnt) (t : Fin n) (done : Bool) : PowerSave n :=
  { s with hw := s.hw.endTurn h t done }

/-- In legacy power save a service period that cannot be completed is given up. -/
def endService (s : PowerSave n) (t : Fin n) : PowerSave n :=
  let s' :=
    if (s.hw.txqs t).pushLimit ≠ 0 ∧ (s.hw.txqs t).sta = true ∧ (s.hw.txqs t).legacyPs = true ∧
        t ∈ s.tids then
      s.spend (s.psId t) (s.hw.txqs t).pushLimit
    else s
  { s' with hw := s.hw.endService t }

/-- The turn of a queue in `aml_hwq_process`. -/
def turn (s : PowerSave n) (h : Fin nxTxqCnt) (t : Fin n) : PowerSave n :=
  let push := (s.hw.txqs t).skbToPush (s.hw.hwqs h).credits
  let marked := { s with hw.broken := s.hw.broken || decide (push.1 ≤ 0) }
  ((marked.pushSkbs t push.1.toNat).endTurn h t push.2).endService t

/-- The walk of `aml_hwq_process`. -/
def hwqProcessFrom (h : Fin nxTxqCnt) : List (Fin n) → PowerSave n → PowerSave n
  | [], s => s
  | t :: rest, s =>
      if (s.hw.txqs t).inHwqList = true ∧ (s.hw.txqs t).active = true ∧
          0 < (s.hw.txqs t).credits ∧ (s.hw.txqs t).SkbReady then
        if (s.hw.hwqs h).credits = 0 then s else hwqProcessFrom h rest (s.turn h t)
      else hwqProcessFrom h rest { s with hw.sanityError := true }

/-- `aml_hwq_process`. -/
def hwqProcess (s : PowerSave n) (h : Fin nxTxqCnt) : PowerSave n :=
  hwqProcessFrom h (s.hw.hwqs h).list
    { s with hw := s.hw.setHwq h { s.hw.hwqs h with needProcessing := false } }

/-- `aml_hwq_process_all`. -/
def hwqProcessAll (s : PowerSave n) : PowerSave n :=
  (List.finRange nxTxqCnt).reverse.foldl
    (fun s h => if (s.hw.hwqs h).needProcessing then s.hwqProcess h else s) s

/-- `aml_txq_add_to_hw_list`. -/
def addToHwList (s : PowerSave n) (t : Fin n) : PowerSave n :=
  if (s.hw.txqs t).stops ≠ ∅ then s
  else if s.hw.bus = .pcie ∧ ((s.hw.enlist t).txqs t).inHwqList = true then
    { s with hw := s.hw.enlist t }.hwqProcess (s.hw.txqs t).hwq
  else { s with hw := s.hw.enlist t }

/-- A txq is not stopped for a reason any more. -/
def unstop (s : PowerSave n) (t : Fin n) (reason : Finset Stop) : PowerSave n :=
  { s with hw := s.hw.setTxq t { s.hw.txqs t with stops := (s.hw.txqs t).stops \ reason } }

/-- `aml_txq_start`. -/
def start (s : PowerSave n) (t : Fin n) (reason : Finset Stop) : PowerSave n :=
  if (s.hw.txqs t).active = true ∧ (s.hw.txqs t).stops ∩ reason ≠ ∅ then
    (s.unstop t reason).addToHwList t
  else s

/-- `aml_txq_stop`. -/
def stop (s : PowerSave n) (t : Fin n) (reason : Finset Stop) : PowerSave n :=
  { s with hw := s.hw.stop t reason }

/-! ## Answers of the firmware -/

/-- A queue is stopped or started as its credits tell. -/
def settle (s : PowerSave n) (t : Fin n) : PowerSave n :=
  if (s.hw.txqs t).credits ≤ 0 then s.stop t {.full} else s.start t {.full}

/-- `aml_tx_retry`. -/
def txRetry (s : PowerSave n) (t : Fin n) (i : Nat) (credits : Nat) : PowerSave n :=
  let counted := s.countQueued t
  let queued := { counted with
    hw := counted.hw.setQueue t ((counted.hw.txqs t).queue.retry i) }.addToHwList t
  let given := { queued with hw := queued.hw.setCredits t ((queued.hw.txqs t).credits + credits) }
  if 0 < (given.hw.txqs t).credits then given.start t {.full} else given

/-- What `aml_txdatacfm` and `aml_tx_cfm_task` do with the credits of a frame that is not sent
again. -/
def txConfirm (s : PowerSave n) (t : Fin n) (i : Nat) (credits : Nat) : PowerSave n :=
  let done := { s with hw := s.hw.setQueue t ((s.hw.txqs t).queue.confirm i) }
  if (s.hw.txqs t).active = true ∧ credits ≠ 0 then
    { done with hw := done.hw.setCredits t ((done.hw.txqs t).credits + credits) }.settle t
  else done

/-- The firmware confirms a frame. -/
def txCfm (s : PowerSave n) (t : Fin n) (i : Nat) (again : Bool) (credits : Nat) : PowerSave n :=
  match (s.hw.txqs t).queue.flight[i]? with
  | none => s
  | some f =>
      if f.fate = some .sent then
        let credits := if s.hw.bus = .pcie then credits else 1
        let confirmed := { s with hw := s.hw.confirmAny t f.hwQueue }
        if (s.hw.txqs t).active = true ∧ again = true then confirmed.txRetry t i credits
        else confirmed.txConfirm t i credits
      else s

/-- The part of `aml_txq_credit_update` that updates the credits. -/
def updateCredits (s : PowerSave n) (t : Fin n) (update : Int) : PowerSave n :=
  if (s.hw.txqs t).active then
    { s with hw := s.hw.setCredits t ((s.hw.txqs t).creditsAfter s.hw.bus update) }.settle t
  else s

/-- `aml_txq_credit_update`: the frames dropped in the end are not counted. -/
def creditUpdate (s : PowerSave n) (t : Fin n) (update : Int) : PowerSave n :=
  let s := s.updateCredits t update
  if update < nxTxqInitialCredits then
    { s with hw := s.hw.setQueue t (s.hw.txqs t).queue.dropRetries }
  else s

/-! ## Frames and queues that come and go -/

/-- `aml_txq_queue_skb`, for a new frame. -/
def queueSkb (s : PowerSave n) (t : Fin n) (a : Arrival) : PowerSave n :=
  if (s.hw.txqs t).active then
    let counted := s.countQueued t
    { counted with
      hw := counted.hw.setQueue t ((counted.hw.txqs t).queue.queueNew a) }.addToHwList t
  else s

/-- `aml_txq_drop_old_traffic`. -/
def dropOldTraffic (s : PowerSave n) (t : Fin n) (now timeout : Nat) : PowerSave n :=
  if (s.hw.txqs t).active then
    let queue := (s.hw.txqs t).queue.dropOld now timeout
    let gone := (s.hw.txqs t).queue.skList.length - queue.skList.length
    let counted := (fun s : PowerSave n => s.countDropped t)^[gone] s
    { counted with hw := counted.hw.dropOldTraffic t now timeout }
  else s

/-- What `aml_amsdu_update_len` does with a queue: `aml_amsdu_dismantle` queues the subframes. -/
def amsduUpdateLen (s : PowerSave n) (t : Fin n) (amsduLen : Nat) (alloc : Nat → Bool) :
    PowerSave n :=
  if (s.hw.txqs t).queue.amsduLen ≤ amsduLen ∨ (s.hw.txqs t).sta = false then
    { s with hw := s.hw.amsduUpdateLen t amsduLen alloc }
  else
    let stopped := s.stop t {.dismantleAmsdu}
    let queue := (stopped.hw.txqs t).queue.dismantle amsduLen alloc
    let more := queue.skList.length - (stopped.hw.txqs t).queue.skList.length
    let counted := (fun s : PowerSave n => s.countQueued t)^[more] stopped
    let queued := { counted with
      hw := counted.hw.setQueue t { queue with amsduLen := Hw.amsduLenOn s.hw.bus amsduLen } }
    queued.start t {.dismantleAmsdu}

/-! ## Power save -/

/-- The frames of a txq are counted. -/
def addReady (s : PowerSave n) (t : Fin n) : PowerSave n :=
  s.setReady (s.psId t) (s.pktReady (s.psId t) + .ofNat 16 (s.hw.txqs t).queue.skList.length)

/-- A txq has no share of a service period any more. -/
def clearLimit (s : PowerSave n) (t : Fin n) : PowerSave n :=
  { s with hw := s.hw.setTxq t { s.hw.txqs t with pushLimit := 0 } }

/-- The station is in power save, and nothing is granted. -/
def entered (s : PowerSave n) : PowerSave n :=
  { s with
    active := true
    spCnt := fun _ => 0
    left := fun _ => 0
    finished := fun _ => false }

/-- `aml_ps_bh_enable`, to enter power save.  The hardware queue that a BC/MC txq is given here is
the one it has. -/
def enable (s : PowerSave n) : PowerSave n :=
  let stopped := s.tids.foldl (fun s t => s.stop t {.staPs}) s.entered
  (s.tids.foldl addReady { stopped with pktReady := fun _ => 0 }).tellReady true

def awoken (s : PowerSave n) : PowerSave n := { s with active := false }

/-- `aml_ps_bh_enable`, to leave power save. -/
def disable (s : PowerSave n) : PowerSave n :=
  let unlimited := s.tids.foldl clearLimit s.awoken
  (s.tids.foldl (fun s t => s.start t {.staPs}) unlimited).tellReady false

/-- A txq gets a share of a service period. -/
def give (s : PowerSave n) (id : PsId) (t : Fin n) (count : Int) : PowerSave n :=
  { s with
    hw := s.hw.setTxq t { s.hw.txqs t with pushLimit := count }
    spCnt := Function.update s.spCnt id (s.spCnt id + BitVec.ofInt 16 count)
    left := Function.update s.left id (s.left id + count)
    finished := Function.update s.finished id (s.finished id || decide (count < 0)) }

/-- It is started. -/
def grant (s : PowerSave n) (id : PsId) (t : Fin n) (count : Int) : PowerSave n :=
  (s.give id t count).start t {.staPs}

/-- The loop of `aml_ps_bh_traffic_req`. -/
def dispatch (id : PsId) : List (Fin n) → BitVec 16 → PowerSave n → PowerSave n
  | [], _, s => s
  | t :: rest, pktReq, s =>
      let txqLen := min ((s.hw.txqs t).queue.skList.length : Int) (s.hw.txqs t).credits
      if s.psId t ≠ id then dispatch id rest pktReq s
      else if txqLen = 0 then dispatch id rest pktReq s
      else if txqLen < pktReq.toNat then
        dispatch id rest (pktReq - .ofInt 16 txqLen) (s.grant id t txqLen)
      else s.grant id t pktReq.toNat

/-- Nothing of a U-APSD service period is left. -/
def forfeit (s : PowerSave n) : PowerSave n :=
  { s with
    spCnt := Function.update s.spCnt .uapsd 0
    left := Function.update s.left .uapsd 0
    finished :=
      Function.update s.finished .uapsd (s.finished .uapsd || decide (0 < s.left .uapsd)) }

/-- A service period is interrupted. -/
def interrupt (s : PowerSave n) : PowerSave n := s.tids.foldl clearLimit s.forfeit

/-- `aml_ps_bh_traffic_req`. -/
def trafficReq (s : PowerSave n) (pktReq : BitVec 16) (id : PsId) : PowerSave n :=
  if s.active = false then s
  else if pktReq = psSpInterrupted ∧ id = .uapsd then s.interrupt
  else
    let pktReadyAll : Int := (s.pktReady id).toNat - (s.spCnt id).toNat
    if s.spCnt id ≠ 0 ∨ pktReadyAll ≤ 0 then s
    else
      let pktReq :=
        if pktReq = 0 ∨ pktReadyAll < pktReq.toNat then .ofInt 16 pktReadyAll else pktReq
      if s.multicast then
        match s.tids with
        | [] => s
        | t :: _ =>
            if (s.hw.txqs t).credits ≤ 0 then s
            else s.grant id t (min pktReq.toNat (s.hw.txqs t).credits)
      else dispatch id s.prio pktReq s

/-! ## Runs -/

inductive PsEvent (n : Nat)
  /-- An event of the txqs. -/
  | hw (e : Hw.Event n)
  | enable
  | disable
  | trafficReq (pktReq : BitVec 16) (id : PsId)
  /-- The TDLS link of the station is up, or is given up. -/
  | tdls (active : Bool)

/-- What cannot happen. -/
inductive PsFault
  /-- `aml_txq_init` was called for a queue that is in use. -/
  | inUse
  /-- A txq of the station is not set up as such, or its power save is not left to the events that
  are for it. -/
  | reserved
deriving DecidableEq, Repr

/-- An event of the txqs, with what it does to the counters of the station. -/
def stepHw (s : PowerSave n) : Hw.Event n → Except PsFault (PowerSave n)
  | .init t status hwq sta legacyPs =>
      if (s.hw.txqs t).active then .error .inUse
      else if t ∈ s.tids ∧ (sta = false ∨ s.multicast = true ∧ legacyPs = false) then
        .error .reserved
      else .ok { s with hw := s.hw.initTxq t status hwq sta legacyPs }
  | .deinit t => .ok { s with hw := s.hw.deinit t }
  | .queueSkb t a => .ok (s.queueSkb t a)
  | .addSubframe t a maxnb room => .ok { s with hw := s.hw.addSubframe t a maxnb room }
  | .hwqProcessAll => .ok s.hwqProcessAll
  | .start t reason =>
      if t ∈ s.tids ∧ Stop.staPs ∈ reason then .error .reserved else .ok (s.start t reason)
  | .stop t reason =>
      if t ∈ s.tids ∧ Stop.staPs ∈ reason then .error .reserved else .ok (s.stop t reason)
  | .pushLimit t limit =>
      if t ∈ s.tids then .error .reserved
      else .ok { s with hw := s.hw.setTxq t { s.hw.txqs t with pushLimit := limit } }
  | .txCfm t i again credits => .ok (s.txCfm t i again credits)
  | .creditUpdate t update => .ok (s.creditUpdate t update)
  | .amsduUpdateLen t amsduLen alloc => .ok (s.amsduUpdateLen t amsduLen alloc)
  | .dropOldTraffic t now timeout => .ok (s.dropOldTraffic t now timeout)
  | .fate fate => .ok { s with hw.fate := fate }

def step (s : PowerSave n) : PsEvent n → Except PsFault (PowerSave n)
  | .hw e => s.stepHw e
  | .enable => .ok s.enable
  | .disable => .ok s.disable
  | .trafficReq pktReq id => .ok (s.trafficReq pktReq id)
  | .tdls active => .ok { s with tdls := active }

/-- The station is not in power save and its txqs are not in use; `LEGACY_PS_ID` is zero. -/
def init (bus : Bus) (data : Fin n → Bool) (tids : List (Fin n)) (distinct : tids.Nodup)
    (multicast mesh : Bool) : PowerSave n where
  hw :=
    { Hw.init bus data with
      txqs := fun t => { (Hw.init bus data).txqs t with legacyPs := true } }
  tids
  distinct
  multicast
  mesh
  tdls := false
  active := false
  spCnt _ := 0
  pktReady _ := 0
  available _ := false
  told _ := false
  marks := []
  left _ := 0
  finished _ := false
  outside := false

/-- The txqs of the first station. -/
def firstTids : List (Fin nxNbTxq) := [0, 1, 2, 3, 4, 5, 6, 7, 8]

theorem firstTids_nodup : firstTids.Nodup := by
  decide

end PowerSave

end AmlW2.Tx
