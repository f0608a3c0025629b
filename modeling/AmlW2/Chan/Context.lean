import AmlW2.Tx.Txq
import Mathlib.Data.List.FinRange

/-!
# Channel contexts and interfaces

The firmware works on up to three channel contexts.  An interface is linked to one of them while it
has a channel, and its transmit queues are stopped while the radio is on another one.  Each handler
is given as the list of what it does, in order, so that the states in between can be spoken of.
Notifications to cfg80211 and the regulatory power requests are left out, and so are `AP_VLAN`
interfaces, which have neither a channel context nor queues of their own.
-/

namespace AmlW2.Chan

/-- `NX_CHAN_CTXT_CNT`. -/
abbrev nxChanCtxtCnt : Nat := 3

/-- `NX_VIRT_DEV_MAX`. -/
abbrev nxVirtDevMax : Nat := 4

/-- `NX_REMOTE_STA_MAX`. -/
def nxRemoteStaMax : Nat := 10

/-- `NX_NB_TXQ_PER_STA`. -/
def nxNbTxqPerSta : Nat := 9

/-- `AML_CH_NOT_SET`. -/
def amlChNotSet : Nat := 0xff

abbrev CtxtId := Fin nxChanCtxtCnt

abbrev VifId := Fin nxVirtDevMax

inductive Iftype where
  | station
  | p2pClient
  | ap
  | p2pGo
  | meshPoint
  | monitor
  deriving DecidableEq

/-- `struct ieee80211_channel`; `radar` is the flag `IEEE80211_CHAN_RADAR`. -/
structure Channel where
  band : Nat
  centerFreq : Nat
  radar : Bool
  deriving DecidableEq

/-- `struct cfg80211_chan_def` with its channel set. -/
structure ChanDef where
  chan : Channel
  width : Nat
  centerFreq1 : Nat
  centerFreq2 : Nat
  deriving DecidableEq

/-- `struct aml_chanctx`; nothing of `chan_def` is read while its channel is `NULL`. -/
structure Chanctx where
  chanDef : Option ChanDef
  count : Nat

/-- What the channels ask of a `struct aml_txq`. -/
structure Txq where
  /-- `idx` is not `TXQ_INACTIVE`. -/
  active : Bool
  stops : Finset Tx.Stop
  deriving DecidableEq

/-- A station and its queues. -/
structure Sta where
  staIdx : Nat
  txqs : List Txq
  deriving DecidableEq

/-- `struct aml_csa`; `scc` says which of the two works it has. -/
structure Csa where
  scc : Bool
  chandef : ChanDef
  /-- `status` is 0. -/
  ok : Bool
  chIdx : Nat
  /-- The work has been scheduled. -/
  scheduled : Bool
  deriving DecidableEq

structure Vif where
  iftype : Iftype
  /-- `vif_table` names it. -/
  inTable : Bool
  up : Bool
  /-- `none` is `AML_CH_NOT_SET`. -/
  chIndex : Option CtxtId
  bcmc : Txq
  unk : Txq
  /-- `sta.ap`. -/
  staAp : Option Sta
  /-- `sta.tdls_sta`. -/
  tdlsSta : Option Sta
  /-- `tdls_status` is `TDLS_LINK_ACTIVE`. -/
  tdlsActive : Bool
  /-- `AML_STA_EXT_AUTH`. -/
  extAuth : Bool
  /-- `ap.sta_list`. -/
  staList : List Sta
  /-- `AML_AP_USER_MESH_PM`. -/
  userMeshPm : Bool
  /-- `ap.csa`. -/
  csa : Option Csa

/-- The part of `struct aml_hw` the channel contexts are about. -/
structure Hw where
  vifs : VifId → Vif
  chanctxTable : CtxtId → Chanctx
  curChanctx : Nat
  /-- Radar detection is enabled on the operating chain. -/
  radar : Bool
  /-- `valid` of each entry of `sta_table`. -/
  staValid : Nat → Bool
  monitorVif : Option VifId
  cacVif : Option VifId
  /-- `cac_work` is pending. -/
  cacPending : Bool
  sapInitBand : Nat

/-- `CONFIG_AML_MON_DATA`, and `WIPHY_FLAG_SUPPORTS_TDLS`. -/
structure Config where
  monData : Bool
  tdls : Bool

inductive Fault where
  | nullVif
  | nullChan
  /-- An entry behind `chanctx_table` is accessed. -/
  | outOfTable

/-- The `ch_index` as it is compared with others. -/
def chIdx : Option CtxtId → Nat
  | none => amlChNotSet
  | some c => c

/-! ## Queues -/

namespace Txq

/-- `aml_txq_init`. -/
def init (status : Finset Tx.Stop) : Txq := ⟨true, status⟩

/-- `aml_txq_deinit`. -/
def deinit (q : Txq) : Txq := { q with active := false }

/-- `aml_txq_start`. -/
def start (reason : Tx.Stop) (q : Txq) : Txq :=
  if q.active = true ∧ reason ∈ q.stops then { q with stops := q.stops.erase reason } else q

/-- `aml_txq_stop`. -/
def stop (reason : Tx.Stop) (q : Txq) : Txq :=
  if q.active = true then { q with stops := insert reason q.stops } else q

end Txq

namespace Sta

/-- `aml_txq_sta_init`. -/
def init (staIdx : Nat) (status : Finset Tx.Stop) : Sta :=
  ⟨staIdx, List.replicate nxNbTxqPerSta (Txq.init status)⟩

/-- `aml_txq_sta_start` or `aml_txq_sta_stop`. -/
def map (f : Txq → Txq) (sta : Sta) : Sta := { sta with txqs := sta.txqs.map f }

end Sta

namespace Vif

/-- `aml_txq_vif_for_each_sta`, followed by the queues of the interface itself. -/
def mapTxqs (f : Txq → Txq) (vif : Vif) : Vif :=
  match vif.iftype with
  | .monitor => vif
  | .station | .p2pClient =>
      { vif with
        tdlsSta := if vif.tdlsActive then vif.tdlsSta.map (Sta.map f) else vif.tdlsSta
        staAp := vif.staAp.map (Sta.map f)
        bcmc := f vif.bcmc
        unk := f vif.unk }
  | .ap | .p2pGo | .meshPoint =>
      { vif with staList := vif.staList.map (Sta.map f), bcmc := f vif.bcmc, unk := f vif.unk }

@[simp] theorem mapTxqs_iftype (f : Txq → Txq) (vif : Vif) :
    (vif.mapTxqs f).iftype = vif.iftype := by
  rw [mapTxqs]
  split <;> rfl

@[simp] theorem mapTxqs_up (f : Txq → Txq) (vif : Vif) : (vif.mapTxqs f).up = vif.up := by
  rw [mapTxqs]
  split <;> rfl

@[simp] theorem mapTxqs_chIndex (f : Txq → Txq) (vif : Vif) :
    (vif.mapTxqs f).chIndex = vif.chIndex := by
  rw [mapTxqs]
  split <;> rfl

/-- `aml_txq_vif_start`, outside TDLS off-channel periods. -/
def txqStart (reason : Tx.Stop) (vif : Vif) : Vif := vif.mapTxqs (Txq.start reason)

/-- `aml_txq_vif_stop`. -/
def txqStop (reason : Tx.Stop) (vif : Vif) : Vif := vif.mapTxqs (Txq.stop reason)

end Vif

namespace Hw

def setVif (s : Hw) (v : VifId) (vif : Vif) : Hw := { s with vifs := Function.update s.vifs v vif }

@[simp] theorem setVif_self (s : Hw) (v : VifId) (vif : Vif) : (s.setVif v vif).vifs v = vif :=
  Function.update_self _ _ _

theorem setVif_of_ne (s : Hw) {v w : VifId} (vif : Vif) (other : w ≠ v) :
    (s.setVif v vif).vifs w = s.vifs w :=
  Function.update_of_ne other _ _

/-! ## Linking -/

/-- `aml_chanctx_link` keeps the channel definition when the one given agrees with it. -/
def defines (chandef : Option ChanDef) (old : Option ChanDef) : Option ChanDef :=
  match chandef, old with
  | none, old => old
  | some new, none => some new
  | some new, some old =>
      if new.chan.band ≠ old.chan.band ∨ new.width ≠ old.width ∨
          new.chan.centerFreq ≠ old.chan.centerFreq ∨ new.centerFreq1 ≠ old.centerFreq1 ∨
          new.centerFreq2 ≠ old.centerFreq2 then some new
      else some old

/-- `aml_chanctx_link`. -/
def link (s : Hw) (v : VifId) (ch : Nat) (chandef : Option ChanDef) : Hw :=
  if valid : ch < nxChanCtxtCnt then
    let c : CtxtId := ⟨ch, valid⟩
    { s.setVif v { s.vifs v with chIndex := some c } with
      chanctxTable := Function.update s.chanctxTable c
        { chanDef := defines chandef (s.chanctxTable c).chanDef
          count := ((s.chanctxTable c).count + 1) % 256 } }
  else s

/-- `aml_chanctx_unlink`. -/
def unlink (s : Hw) (v : VifId) : Hw :=
  match (s.vifs v).chIndex with
  | none => s
  | some c =>
      let count := (s.chanctxTable c).count - 1
      { s.setVif v { s.vifs v with chIndex := none } with
        chanctxTable := Function.update s.chanctxTable c
          { chanDef := if count = 0 then none else (s.chanctxTable c).chanDef
            count := count }
        radar := if count = 0 ∧ c = s.curChanctx then false else s.radar }

/-- `aml_radar_detection_enable_on_cur_channel`. -/
def radarOnCurChannel (s : Hw) : Hw :=
  if valid : s.curChanctx < nxChanCtxtCnt then
    match (s.chanctxTable ⟨s.curChanctx, valid⟩).chanDef with
    | none => s
    | some chandef => { s with radar := chandef.chan.radar }
  else s

end Hw

/-! ## What the handlers do -/

inductive Op where
  | link (v : VifId) (ch : Nat) (chandef : Option ChanDef)
  | unlink (v : VifId)
  /-- A context without a channel is given one. -/
  | setChan (c : CtxtId) (chandef : Option ChanDef)
  | txqStart (v : VifId) (reason : Tx.Stop)
  | txqStop (v : VifId) (reason : Tx.Stop)
  /-- `aml_sta_init` of the access point. -/
  | apInit (v : VifId) (staIdx : Nat) (status : Finset Tx.Stop)
  /-- `aml_sta_deinit` of the access point. -/
  | apDeinit (v : VifId)
  | unkInit (v : VifId)
  | unkDeinit (v : VifId)
  | extAuthClr (v : VifId)
  | peerAdd (v : VifId) (staIdx : Nat) (status : Finset Tx.Stop)
  | peerDel (staIdx : Nat)
  | setStaValid (staIdx : Nat) (valid : Bool)
  | setCurChanctx (ch : Nat)
  | radarOnCurChannel
  | radarEnable
  | setCsa (v : VifId) (csa : Option Csa)
  | setCac (vif : Option VifId) (pending : Bool)

namespace Hw

def perform (s : Hw) : Op → Hw
  | .link v ch chandef => s.link v ch chandef
  | .unlink v => s.unlink v
  | .setChan c chandef =>
      { s with
        chanctxTable := Function.update s.chanctxTable c
          { s.chanctxTable c with chanDef := (s.chanctxTable c).chanDef.or chandef } }
  | .txqStart v reason => s.setVif v ((s.vifs v).txqStart reason)
  | .txqStop v reason => s.setVif v ((s.vifs v).txqStop reason)
  | .apInit v staIdx status =>
      s.setVif v { s.vifs v with staAp := some (Sta.init staIdx status) }
  | .apDeinit v => s.setVif v { s.vifs v with staAp := none }
  | .unkInit v => s.setVif v { s.vifs v with unk := Txq.init ∅ }
  | .unkDeinit v => s.setVif v { s.vifs v with unk := (s.vifs v).unk.deinit }
  | .extAuthClr v => s.setVif v { s.vifs v with extAuth := false }
  | .peerAdd v staIdx status =>
      s.setVif v { s.vifs v with staList := (s.vifs v).staList ++ [Sta.init staIdx status] }
  | .peerDel staIdx =>
      { s with
        vifs := fun v =>
          { s.vifs v with staList := (s.vifs v).staList.filter fun sta => sta.staIdx ≠ staIdx } }
  | .setStaValid staIdx valid =>
      { s with staValid := Function.update s.staValid staIdx valid }
  | .setCurChanctx ch => { s with curChanctx := ch }
  | .radarOnCurChannel => s.radarOnCurChannel
  | .radarEnable => { s with radar := true }
  | .setCsa v csa => s.setVif v { s.vifs v with csa := csa }
  | .setCac vif pending => { s with cacVif := vif, cacPending := pending }

/-! ## The handlers -/

/-- `aml_rx_chan_pre_switch_ind`. -/
def rxChanPreSwitchInd (s : Hw) (ch : Nat) : List Op :=
  ((List.finRange nxVirtDevMax).filter fun v =>
    (s.vifs v).up && chIdx (s.vifs v).chIndex = ch).map fun v => .txqStop v .chan

/-- `aml_rx_chan_switch_ind`, outside remain-on-channel and TDLS off-channel periods. -/
def rxChanSwitchInd (s : Hw) (ch : Nat) : List Op :=
  (((List.finRange nxVirtDevMax).filter fun v =>
    (s.vifs v).up && chIdx (s.vifs v).chIndex = ch).map fun v => .txqStart v .chan) ++
    [.setCurChanctx ch, .radarOnCurChannel]

/-- `aml_external_auth_disable`. -/
def externalAuthDisable (s : Hw) (v : VifId) : List Op :=
  if (s.vifs v).extAuth then [.extAuthClr v, .unkDeinit v] else []

/-- `aml_txq_tdls_vif_init`. -/
def txqTdlsVifInit (k : Config) (v : VifId) : List Op := if k.tdls then [.unkInit v] else []

/-- `aml_txq_tdls_vif_deinit`. -/
def txqTdlsVifDeinit (k : Config) (v : VifId) : List Op := if k.tdls then [.unkDeinit v] else []

/-- The monitor interface has the channel context of the station. -/
def relinkMonitor (k : Config) (s : Hw) (ch : Nat) : List Op :=
  match s.monitorVif with
  | none => []
  | some m => if k.monData then [.unlink m, .link m ch none] else []

/-- The status the queues of a new station get. -/
def txqStatus (s : Hw) (ch : Nat) : Finset Tx.Stop := if ch = s.curChanctx then ∅ else {.chan}

/-- `aml_rx_sm_connect_ind`; `ok` is a `status_code` of 0. -/
def rxSmConnectInd (k : Config) (s : Hw) (v : VifId) (ok : Bool) (apIdx ch : Nat)
    (chandef : Option ChanDef) : Except Fault (List Op) :=
  if (s.vifs v).inTable = false then .error .nullVif
  else if ok = false then .ok (s.externalAuthDisable v)
  else if ch < nxChanCtxtCnt ∧ chandef = none then .error .nullChan
  else
    .ok ([.setStaValid apIdx true, .link v ch chandef, .apInit v apIdx (s.txqStatus ch)] ++
      txqTdlsVifInit k v ++ s.relinkMonitor k ch)

/-- `aml_rx_sm_disconnect_ind`, with or without `reassoc`. -/
def rxSmDisconnectInd (k : Config) (s : Hw) (v : VifId) : List Op :=
  if (s.vifs v).inTable = false then []
  else
    (match (s.vifs v).staAp with
      | none => []
      | some ap => [.apDeinit v] ++ txqTdlsVifDeinit k v ++ [.setStaValid ap.staIdx false]) ++
      s.externalAuthDisable v ++ [.unlink v]

/-- `aml_rx_mesh_peer_update_ind`. -/
def rxMeshPeerUpdateInd (s : Hw) (v : VifId) (staIdx : Nat) (estab : Bool) : List Op :=
  let vif := s.vifs v
  if (vif.inTable = true ∧ vif.iftype ≠ .meshPoint) ∨ nxRemoteStaMax ≤ staIdx then []
  else if vif.inTable = true ∧ vif.userMeshPm = true then
    if estab = false ∧ s.staValid staIdx = true then
      [.setStaValid staIdx false, .peerDel staIdx]
    else []
  else if estab = true then
    if vif.inTable = true ∧ s.staValid staIdx = false then
      [.setStaValid staIdx true, .link v (chIdx vif.chIndex) none,
        .peerAdd v staIdx (s.txqStatus (chIdx vif.chIndex))]
    else []
  else if s.staValid staIdx = true then [.setStaValid staIdx false, .peerDel staIdx]
  else []

/-- The interface is linked to another context, and its queues follow the current one. -/
def switchTo (s : Hw) (v : VifId) (ch : Nat) (chandef : Option ChanDef) : List Op :=
  [.unlink v, .link v ch chandef] ++
    (if s.curChanctx = ch then [.radarOnCurChannel, .txqStart v .chan] else [.txqStop v .chan])

/-- The access points and group owners switch when the work runs, the others at once. -/
def rxCsaFinishInd (s : Hw) (v : VifId) (ok : Bool) (ch : Nat) : List Op :=
  match (s.vifs v).iftype with
  | .ap | .p2pGo =>
      match (s.vifs v).csa with
      | none => []
      | some csa => [.setCsa v (some { csa with ok := ok, chIdx := ch, scheduled := true })]
  | _ => if ok then s.switchTo v ch none else []

/-- `aml_csa_finish`; `beacon` says that the beacon could be updated. -/
def csaFinish (s : Hw) (v : VifId) (csa : Csa) (beacon : Bool) : List Op :=
  (if csa.ok = true ∧ beacon = true then s.switchTo v csa.chIdx (some csa.chandef) else []) ++
    [.setCsa v none]

/-- `aml_scc_csa_finish`. -/
def sccCsaFinish (s : Hw) (v : VifId) (csa : Csa) : List Op :=
  (if csa.ok = true then s.switchTo v csa.chIdx (some csa.chandef) else []) ++ [.setCsa v none]

/-- The work of a channel switch announcement, if it has been scheduled. -/
def csaWork (s : Hw) (v : VifId) (beacon : Bool) : List Op :=
  match (s.vifs v).csa with
  | none => []
  | some csa =>
      if csa.scheduled = false then []
      else if csa.scc then s.sccCsaFinish v csa
      else s.csaFinish v csa beacon

/-- `aml_cfg80211_channel_switch`, and the end of `aml_scc_channel_switch`; `ok` says that the
beacon could be built and sent and the memory allocated. -/
def channelSwitch (s : Hw) (v : VifId) (scc : Bool) (chandef : ChanDef) (ok : Bool) : List Op :=
  if (s.vifs v).csa = none ∧ ok = true then
    [.setCsa v (some ⟨scc, chandef, true, 0, false⟩)]
  else []

/-- `aml_sta_notify_csa_ch_switch`. -/
def staNotifyCsa (s : Hw) (v : VifId) (ok : Bool) (chandef : Option ChanDef) :
    Except Fault (List Op) :=
  if (s.vifs v).iftype = .ap ∨ (s.vifs v).iftype = .p2pGo ∨ ok = false then .ok []
  else
    match (s.vifs v).chIndex with
    | none => .error .outOfTable
    | some c => .ok [.setChan c chandef]

/-- `aml_scc_get_conflict_vif_idx`. -/
def sccConflictVif (s : Hw) (v : VifId) : Option VifId :=
  (List.finRange nxVirtDevMax).find? fun w =>
    (s.vifs w).inTable && (s.vifs w).up && w ≠ v && (s.vifs w).chIndex.isSome &&
      (s.vifs v).chIndex.isSome && (s.vifs w).chIndex ≠ (s.vifs v).chIndex

/-- The context an access point is to switch to for `aml_scc_check_chan_conflict`. -/
def sccTarget (s : Hw) (v : VifId) : Except Fault (Option (CtxtId × ChanDef)) :=
  if (s.vifs v).iftype ≠ .ap then .ok none
  else
    match (s.sccConflictVif v).bind fun w => (s.vifs w).chIndex, (s.vifs v).chIndex with
    | some target, some cur =>
        match (s.chanctxTable target).chanDef with
        | none => .ok none
        | some targetDef =>
            if s.sapInitBand ≠ targetDef.chan.band ∨ targetDef.chan.radar = true then .ok none
            else if (s.chanctxTable cur).chanDef = none then .error .nullChan
            else .ok (some (target, targetDef))
    | _, _ => .ok none

/-- One interface of the loop of `aml_scc_check_chan_conflict`; `ok` says that the beacon could be
changed and the firmware agrees. -/
def sccCheckChanConflict (s : Hw) (v : VifId) (ok : Bool) : Except Fault (List Op) :=
  (s.sccTarget v).map fun
    | none => []
    | some (target, targetDef) =>
        if (s.vifs v).staList ≠ [] then s.channelSwitch v true targetDef ok
        else if ok = true then
          [.unlink v, .link v target (some targetDef)] ++
            (if s.curChanctx = target then [.txqStart v .chan] else [.txqStop v .chan])
        else []

/-- `aml_cfg80211_start_radar_detection`. -/
def startRadarDetection (s : Hw) (v : VifId) (ok : Bool) (ch : Nat) (chandef : ChanDef) : List Op :=
  [.setCac (some v) true] ++
    (if ok then
      [.link v ch (some chandef)] ++
        (if s.curChanctx = (if ch < nxChanCtxtCnt then ch else chIdx (s.vifs v).chIndex) then
          [.radarEnable] else [])
      else [])

/-- `aml_radar_cac_work`, if it is pending. -/
def radarCacWork (s : Hw) : List Op :=
  if s.cacPending = false then []
  else
    match s.cacVif with
    | none => [.setCac none false]
    | some v => [.unlink v, .setCac none false]

/-- `aml_radar_cancel_cac`. -/
def radarCancelCac (s : Hw) : List Op :=
  match s.cacVif with
  | none => []
  | some v => (if s.cacPending then [.unlink v] else []) ++ [.setCac none false]

end Hw

inductive Event where
  | chanPreSwitch (ch : Nat)
  | chanSwitch (ch : Nat)
  | smConnect (v : VifId) (ok : Bool) (apIdx ch : Nat) (chandef : Option ChanDef)
  | smDisconnect (v : VifId)
  | meshPeerUpdate (v : VifId) (staIdx : Nat) (estab : Bool)
  | channelSwitch (v : VifId) (chandef : ChanDef) (ok : Bool)
  | csaFinishInd (v : VifId) (ok : Bool) (ch : Nat)
  | csaWork (v : VifId) (beacon : Bool)
  | staNotifyCsa (v : VifId) (ok : Bool) (chandef : Option ChanDef)
  | sccCheck (v : VifId) (ok : Bool)
  | startCac (v : VifId) (ok : Bool) (ch : Nat) (chandef : ChanDef)
  | cacWork
  | cancelCac
  deriving DecidableEq

namespace Hw

def handle (k : Config) (s : Hw) : Event → Except Fault (List Op)
  | .chanPreSwitch ch => .ok (s.rxChanPreSwitchInd ch)
  | .chanSwitch ch => .ok (s.rxChanSwitchInd ch)
  | .smConnect v ok apIdx ch chandef => s.rxSmConnectInd k v ok apIdx ch chandef
  | .smDisconnect v => .ok (s.rxSmDisconnectInd k v)
  | .meshPeerUpdate v staIdx estab => .ok (s.rxMeshPeerUpdateInd v staIdx estab)
  | .channelSwitch v chandef ok => .ok (s.channelSwitch v false chandef ok)
  | .csaFinishInd v ok ch => .ok (s.rxCsaFinishInd v ok ch)
  | .csaWork v beacon => .ok (s.csaWork v beacon)
  | .staNotifyCsa v ok chandef => s.staNotifyCsa v ok chandef
  | .sccCheck v ok => s.sccCheckChanConflict v ok
  | .startCac v ok ch chandef => .ok (s.startRadarDetection v ok ch chandef)
  | .cacWork => .ok s.radarCacWork
  | .cancelCac => .ok s.radarCancelCac

/-- The operations one after the other. -/
def performAll (s : Hw) (ops : List Op) : Hw := ops.foldl perform s

def step (k : Config) (s : Hw) (e : Event) : Except Fault Hw := (s.handle k e).map s.performAll

/-- The driver before anything is linked. -/
def idle : Hw where
  vifs := fun _ =>
    { iftype := .station, inTable := true, up := true, chIndex := none, bcmc := ⟨false, ∅⟩,
      unk := ⟨false, ∅⟩, staAp := none, tdlsSta := none, tdlsActive := false, extAuth := false,
      staList := [], userMeshPm := false, csa := none }
  chanctxTable := fun _ => ⟨none, 0⟩
  curChanctx := 0
  radar := false
  staValid := fun _ => false
  monitorVif := none
  cacVif := none
  cacPending := false
  sapInitBand := 0

/-- Channel 1 of the 2.4 GHz band, 20 MHz wide. -/
def channel1 : ChanDef := ⟨⟨0, 2412, false⟩, 1, 2412, 0⟩

end Hw

end AmlW2.Chan
