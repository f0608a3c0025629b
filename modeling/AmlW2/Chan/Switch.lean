import AmlW2.Chan.Context
import AmlW2.Lib.Run

/-!
# Queues run on their own channel only

The queues of an interface are to be stopped from the pre-switch indication for its channel context
until the next switch indication for it.  The driver keeps the context of the last switch
indication, but not whether a pre-switch indication for it has arrived since, and it starts the
queues of an interface that connects or ends a channel switch in between.
-/

namespace AmlW2.Chan

/-- The last switch indication named the context, and no pre-switch indication for it has arrived
since. -/
def OnChannel (past : List Event) (ch : Nat) : Prop :=
  ∃ front back, past = front ++ .chanSwitch ch :: back ∧ (∀ ch', .chanSwitch ch' ∉ back) ∧
    .chanPreSwitch ch ∉ back

/-- What one more event makes of it. -/
theorem onChannel_concat {past : List Event} {e : Event} {ch : Nat} :
    OnChannel (past ++ [e]) ch ↔
      e = .chanSwitch ch ∨
        (OnChannel past ch ∧ (∀ ch', e ≠ .chanSwitch ch') ∧ e ≠ .chanPreSwitch ch) := by
  constructor
  · rintro ⟨front, back, split, noSwitch, noPreSwitch⟩
    rcases List.eq_nil_or_concat back with rfl | ⟨back, last, rfl⟩
    · exact .inl (List.append_singleton_inj.mp split).2
    · rw [List.concat_eq_append] at noSwitch noPreSwitch split
      rw [← List.cons_append, ← List.append_assoc] at split
      obtain ⟨rfl, rfl⟩ := List.append_singleton_inj.mp split
      refine .inr ⟨⟨front, back, rfl, ?_, ?_⟩, ?_, ?_⟩
      · exact fun ch' member => noSwitch ch' (List.mem_append_left _ member)
      · exact fun member => noPreSwitch (List.mem_append_left _ member)
      · rintro ch' rfl
        exact noSwitch ch' List.mem_concat_self
      · rintro rfl
        exact noPreSwitch List.mem_concat_self
  · rintro (rfl | ⟨⟨front, back, rfl, noSwitch, noPreSwitch⟩, other, other'⟩)
    · exact ⟨past, [], rfl, fun _ => List.not_mem_nil, List.not_mem_nil⟩
    · refine ⟨front, back ++ [e], by simp, fun ch' member => ?_, fun member => ?_⟩
      · rcases List.mem_append.mp member with member | member
        · exact noSwitch ch' member
        · exact other ch' (List.mem_singleton.mp member).symm
      · rcases List.mem_append.mp member with member | member
        · exact noPreSwitch member
        · exact other' (List.mem_singleton.mp member).symm

/-- The interface has a context, and the radio is on it. -/
def Tuned (past : List Event) (chIndex : Option CtxtId) : Prop :=
  ∃ c : CtxtId, chIndex = some c ∧ OnChannel past c

/-! ## The queues of an interface -/

/-- The queue does not carry `AML_TXQ_STOP_CHAN`. -/
def Txq.Runs (q : Txq) : Prop := q.active = true ∧ .chan ∉ q.stops

instance (q : Txq) : Decidable q.Runs := inferInstanceAs (Decidable (_ ∧ _))

namespace Vif

/-- The queues that `aml_txq_vif_start` and `aml_txq_vif_stop` reach. -/
def txqs (vif : Vif) : List Txq :=
  match vif.iftype with
  | .monitor => []
  | .station | .p2pClient =>
      (if vif.tdlsActive then vif.tdlsSta.elim [] Sta.txqs else []) ++ vif.staAp.elim [] Sta.txqs ++
        [vif.bcmc, vif.unk]
  | .ap | .p2pGo | .meshPoint => vif.staList.flatMap Sta.txqs ++ [vif.bcmc, vif.unk]

def Runs (vif : Vif) : Prop := ∃ q ∈ vif.txqs, q.Runs

instance (vif : Vif) : Decidable vif.Runs := inferInstanceAs (Decidable (∃ q ∈ vif.txqs, q.Runs))

/-- There is a queue that could run. -/
def HasActive (vif : Vif) : Prop := ∃ q ∈ vif.txqs, q.active = true

/-- While the interface is up its queues run only when the radio is on its channel context. -/
def OwnChannel (past : List Event) (vif : Vif) : Prop :=
  vif.up = true → vif.Runs → Tuned past vif.chIndex

theorem txqs_mapTxqs (f : Txq → Txq) (vif : Vif) : (vif.mapTxqs f).txqs = vif.txqs.map f := by
  obtain ⟨iftype, inTable, up, chIndex, bcmc, unk, staAp, tdlsSta, tdlsActive, extAuth, staList,
    userMeshPm, csa⟩ := vif
  have stations : (staList.map (Sta.map f)).flatMap Sta.txqs ++ [f bcmc, f unk] =
      (staList.flatMap Sta.txqs ++ [bcmc, unk]).map f := by
    rw [List.map_append, List.map_flatMap, List.flatMap_map]
    rfl
  have single : ∀ sta : Option Sta, (sta.map (Sta.map f)).elim [] Sta.txqs =
      (sta.elim [] Sta.txqs).map f := by
    rintro (_ | sta)
    · rfl
    · rfl
  have peers : (if tdlsActive then (if tdlsActive then tdlsSta.map (Sta.map f) else tdlsSta).elim []
        Sta.txqs else []) ++ (staAp.map (Sta.map f)).elim [] Sta.txqs ++ [f bcmc, f unk] =
      ((if tdlsActive then tdlsSta.elim [] Sta.txqs else []) ++ staAp.elim [] Sta.txqs ++
        [bcmc, unk]).map f := by
    rw [List.map_append, List.map_append, single staAp]
    cases tdlsActive
    · rfl
    · exact congrArg (fun front => front ++ _ ++ [f bcmc, f unk]) (single tdlsSta)
  cases iftype with
  | monitor => rfl
  | station | p2pClient => exact peers
  | ap | p2pGo | meshPoint => exact stations

/-- Queues that are started run if they are active. -/
theorem runs_txqStart (vif : Vif) : (vif.txqStart .chan).Runs ↔ vif.HasActive := by
  rw [Runs, txqStart, txqs_mapTxqs]
  constructor
  · rintro ⟨q, member, active, -⟩
    obtain ⟨q, old, rfl⟩ := List.mem_map.mp member
    refine ⟨q, old, ?_⟩
    rw [Txq.start] at active
    split_ifs at active
    · exact active
    · exact active
  · rintro ⟨q, member, active⟩
    refine ⟨_, List.mem_map_of_mem member, ?_⟩
    rw [Txq.start]
    by_cases stopped : Tx.Stop.chan ∈ q.stops
    · rw [if_pos ⟨active, stopped⟩]
      exact ⟨active, Finset.notMem_erase _ _⟩
    · rw [if_neg fun both => stopped both.2]
      exact ⟨active, stopped⟩

theorem not_runs_txqStop (vif : Vif) : ¬(vif.txqStop .chan).Runs := by
  rw [Runs, txqStop, txqs_mapTxqs]
  rintro ⟨q, member, active, running⟩
  obtain ⟨q, -, rfl⟩ := List.mem_map.mp member
  rw [Txq.stop] at active running
  split_ifs at active running with active'
  · exact running (Finset.mem_insert_self _ _)
  · exact active' active

theorem not_runs_of_monitor (vif : Vif) (monitor : vif.iftype = .monitor) : ¬vif.Runs := by
  rintro ⟨q, member, -⟩
  rw [txqs, monitor] at member
  exact List.not_mem_nil member

theorem runs_of_station (vif : Vif) (station : vif.iftype = .station ∨ vif.iftype = .p2pClient) :
    vif.Runs ↔ (vif.tdlsActive = true ∧ ∃ q ∈ vif.tdlsSta.elim [] Sta.txqs, q.Runs) ∨
      (∃ q ∈ vif.staAp.elim [] Sta.txqs, q.Runs) ∨ vif.bcmc.Runs ∨ vif.unk.Runs := by
  have queues : vif.txqs = (if vif.tdlsActive then vif.tdlsSta.elim [] Sta.txqs else []) ++
      vif.staAp.elim [] Sta.txqs ++ [vif.bcmc, vif.unk] := by
    rcases station with station | station <;> rw [txqs, station]
  rw [Runs, queues]
  cases vif.tdlsActive <;> simp [or_and_right, exists_or]

theorem runs_of_ap (vif : Vif)
    (ap : vif.iftype = .ap ∨ vif.iftype = .p2pGo ∨ vif.iftype = .meshPoint) :
    vif.Runs ↔ (∃ q ∈ vif.staList.flatMap Sta.txqs, q.Runs) ∨ vif.bcmc.Runs ∨ vif.unk.Runs := by
  have queues : vif.txqs = vif.staList.flatMap Sta.txqs ++ [vif.bcmc, vif.unk] := by
    rcases ap with ap | ap | ap <;> rw [txqs, ap]
  rw [Runs, queues]
  simp only [List.mem_append, List.mem_cons, List.not_mem_nil, or_false, or_and_right, exists_or,
    exists_eq_left]

theorem unk_mem_txqs (vif : Vif) (queues : vif.iftype ≠ .monitor) : vif.unk ∈ vif.txqs := by
  have last : ∀ qs : List Txq, vif.unk ∈ qs ++ [vif.bcmc, vif.unk] := fun qs =>
    List.mem_append_right _ (List.mem_cons_of_mem _ List.mem_cons_self)
  cases type : vif.iftype with
  | monitor => exact absurd type queues
  | station | p2pClient | ap | p2pGo | meshPoint =>
      rw [txqs, type]
      exact last _

theorem iftype_cases (iftype : Iftype) :
    iftype = .monitor ∨ (iftype = .station ∨ iftype = .p2pClient) ∨
      (iftype = .ap ∨ iftype = .p2pGo ∨ iftype = .meshPoint) := by
  cases iftype <;> decide

/-- Without the queue for unknown stations, those run that ran before. -/
theorem Runs.of_unkDeinit {vif : Vif} (running : Runs { vif with unk := vif.unk.deinit }) :
    vif.Runs := by
  have inactive : ¬vif.unk.deinit.Runs := fun runs => Bool.false_ne_true runs.1
  rcases iftype_cases vif.iftype with monitor | station | ap
  · exact absurd running (not_runs_of_monitor _ (by exact monitor))
  · rcases (runs_of_station _ (by exact station)).mp running with peer | sta | bcmc | unk
    · exact (runs_of_station vif station).mpr (.inl peer)
    · exact (runs_of_station vif station).mpr (.inr (.inl sta))
    · exact (runs_of_station vif station).mpr (.inr (.inr (.inl bcmc)))
    · exact absurd unk inactive
  · rcases (runs_of_ap _ (by exact ap)).mp running with stations | bcmc | unk
    · exact (runs_of_ap vif ap).mpr (.inl stations)
    · exact (runs_of_ap vif ap).mpr (.inr (.inl bcmc))
    · exact absurd unk inactive

/-- The queues of a station that is taken in run if they are not stopped. -/
theorem runs_init (staIdx : Nat) (status : Finset Tx.Stop) :
    (∃ q ∈ (Sta.init staIdx status).txqs, q.Runs) ↔ .chan ∉ status := by
  constructor
  · rintro ⟨q, member, -, running⟩
    rw [List.eq_of_mem_replicate member] at running
    exact running
  · exact fun running => ⟨Txq.init status, List.mem_replicate.mpr ⟨by decide, rfl⟩, rfl, running⟩

/-- The queues of an interface run that has just connected: the one for unknown stations, which is
started with TDLS, those of the access point, or others that ran before. -/
def ConnectRuns (vif : Vif) (tdls : Bool) (status : Finset Tx.Stop) : Prop :=
  (tdls = true ∧ vif.iftype ≠ .monitor) ∨
    ((vif.iftype = .station ∨ vif.iftype = .p2pClient) ∧ .chan ∉ status) ∨
    Runs { vif with staAp := none }

/-- The interface after a connect indication. -/
def connected (vif : Vif) (chIndex : Option CtxtId) (tdls : Bool) (staIdx : Nat)
    (status : Finset Tx.Stop) : Vif :=
  { vif with
    chIndex
    staAp := some (Sta.init staIdx status)
    unk := if tdls then Txq.init ∅ else vif.unk }

theorem runs_connected (vif : Vif) (chIndex : Option CtxtId) (tdls : Bool) (staIdx : Nat)
    (status : Finset Tx.Stop) :
    (vif.connected chIndex tdls staIdx status).Runs ↔ vif.ConnectRuns tdls status := by
  by_cases monitor : vif.iftype = .monitor
  · have never : ¬vif.ConnectRuns tdls status := by
      rintro (⟨-, other⟩ | ⟨station | client, -⟩ | running)
      · exact other monitor
      · exact Iftype.noConfusion (monitor.symm.trans station)
      · exact Iftype.noConfusion (monitor.symm.trans client)
      · exact not_runs_of_monitor { vif with staAp := none } monitor running
    refine iff_of_false (not_runs_of_monitor _ ?_) never
    exact monitor
  cases tdls with
  | true =>
      refine iff_of_true ?_ (.inl ⟨rfl, monitor⟩)
      exact ⟨Txq.init ∅, unk_mem_txqs (vif.connected chIndex true staIdx status) monitor,
        rfl, Finset.notMem_empty _⟩
  | false =>
      have never : ¬((false : Bool) = true ∧ vif.iftype ≠ .monitor) :=
        fun both => Bool.false_ne_true both.1
      rw [ConnectRuns, or_iff_right never]
      by_cases station : vif.iftype = .station ∨ vif.iftype = .p2pClient
      · rw [runs_of_station (vif.connected chIndex false staIdx status) station,
          runs_of_station { vif with staAp := none } station, and_iff_right station,
          ← runs_init staIdx status]
        constructor
        · rintro (peer | ap | bcmc | unk)
          · exact .inr (.inl peer)
          · exact .inl ap
          · exact .inr (.inr (.inr (.inl bcmc)))
          · exact .inr (.inr (.inr (.inr unk)))
        · rintro (ap | peer | ⟨q, member, -⟩ | bcmc | unk)
          · exact .inr (.inl ap)
          · exact .inl peer
          · exact absurd member List.not_mem_nil
          · exact .inr (.inr (.inl bcmc))
          · exact .inr (.inr (.inr unk))
      · have ap : vif.iftype = .ap ∨ vif.iftype = .p2pGo ∨ vif.iftype = .meshPoint :=
          ((iftype_cases vif.iftype).resolve_left monitor).resolve_left station
        have noAp : ¬((vif.iftype = .station ∨ vif.iftype = .p2pClient) ∧ .chan ∉ status) :=
          fun both => station both.1
        rw [or_iff_right noAp, runs_of_ap (vif.connected chIndex false staIdx status) ap,
          runs_of_ap { vif with staAp := none } ap]
        exact Iff.rfl

end Vif

/-! ## What the operations do to the interfaces -/

/-- The context an index names. -/
def ctxtOf (ch : Nat) : Option CtxtId :=
    if valid : ch < nxChanCtxtCnt then some ⟨ch, valid⟩ else none

namespace Hw

variable {s : Hw}

theorem vifs_link (s : Hw) (v : VifId) (ch : Nat) (chandef : Option ChanDef) :
    (s.link v ch chandef).vifs = Function.update s.vifs v
      { s.vifs v with chIndex := (ctxtOf ch).or (s.vifs v).chIndex } := by
  rw [link, ctxtOf]
  by_cases valid : ch < nxChanCtxtCnt
  · rw [dif_pos valid, dif_pos valid]
    rfl
  · rw [dif_neg valid, dif_neg valid]
    exact (Function.update_eq_self v s.vifs).symm

theorem vifs_unlink (s : Hw) (v : VifId) :
    (s.unlink v).vifs = Function.update s.vifs v { s.vifs v with chIndex := none } := by
  rw [unlink]
  cases linked : (s.vifs v).chIndex with
  | none =>
      have same : { s.vifs v with chIndex := none } = s.vifs v := by rw [← linked]
      rw [same, Function.update_eq_self]
  | some c => rfl

theorem vifs_radarOnCurChannel (s : Hw) : s.radarOnCurChannel.vifs = s.vifs := by
  rw [radarOnCurChannel]
  split
  · split <;> rfl
  · rfl

theorem performAll_append (s : Hw) (ops ops' : List Op) :
    s.performAll (ops ++ ops') = (s.performAll ops).performAll ops' :=
  List.foldl_append

/-- A further change of the interface that has changed. -/
theorem vifs_again {s' : Hw} {v : VifId} {vif : Vif} (f : Vif → Vif)
    (changed : s'.vifs = Function.update s.vifs v vif) :
    Function.update s'.vifs v (f (s'.vifs v)) = Function.update s.vifs v (f vif) := by
  rw [changed, Function.update_self, Function.update_idem]

/-- An interface is unlinked and linked again. -/
theorem vifs_relink (s : Hw) (v : VifId) (ch : Nat) (chandef : Option ChanDef) :
    (s.performAll [.unlink v, .link v ch chandef]).vifs =
      Function.update s.vifs v { s.vifs v with chIndex := ctxtOf ch } := by
  change ((s.unlink v).link v ch chandef).vifs = _
  rw [vifs_link, vifs_unlink, Function.update_self, Function.update_idem, Option.or_none]

/-- The interface after it has been linked to another context. -/
def switched (s : Hw) (v : VifId) (ch : Nat) : Vif :=
  let vif := { s.vifs v with chIndex := ctxtOf ch }
  if s.curChanctx = ch then vif.txqStart .chan else vif.txqStop .chan

theorem vifs_switchTo (s : Hw) (v : VifId) (ch : Nat) (chandef : Option ChanDef) :
    (s.performAll (s.switchTo v ch chandef)).vifs =
      Function.update s.vifs v (s.switched v ch) := by
  rw [switchTo, performAll_append, switched]
  have relinked := vifs_relink s v ch chandef
  split_ifs
  · refine vifs_again (Vif.txqStart .chan) ?_
    rw [← relinked]
    exact vifs_radarOnCurChannel _
  · exact vifs_again (Vif.txqStop .chan) relinked

/-- One operation for each of some interfaces. -/
theorem vifs_performAll_map {op : VifId → Op} {f : Vif → Vif}
    (effect : ∀ s v, (perform s (op v)).vifs = Function.update s.vifs v (f (s.vifs v)))
    {vs : List VifId} (nodup : vs.Nodup) (w : VifId) :
    (s.performAll (vs.map op)).vifs w = if w ∈ vs then f (s.vifs w) else s.vifs w := by
  induction vs generalizing s with
  | nil => rfl
  | cons v vs induction =>
      obtain ⟨fresh, nodup⟩ := List.nodup_cons.mp nodup
      change ((s.perform (op v)).performAll (vs.map op)).vifs w = _
      rw [induction nodup, effect]
      rcases eq_or_ne w v with rfl | other
      · rw [if_neg fresh, if_pos List.mem_cons_self, Function.update_self]
      · rw [Function.update_of_ne other]
        simp only [List.mem_cons, other, false_or]

/-- A connect indication, up to the monitor interface. -/
theorem vifs_connect (k : Config) (s : Hw) (v : VifId) (apIdx ch : Nat)
    (chandef : Option ChanDef) :
    (s.performAll ([.setStaValid apIdx true, .link v ch chandef,
        .apInit v apIdx (s.txqStatus ch)] ++ txqTdlsVifInit k v)).vifs =
      Function.update s.vifs v
        ((s.vifs v).connected ((ctxtOf ch).or (s.vifs v).chIndex) k.tdls apIdx
            (s.txqStatus ch)) := by
  have linked : (s.performAll [.setStaValid apIdx true, .link v ch chandef,
      .apInit v apIdx (s.txqStatus ch)]).vifs = Function.update s.vifs v
        { s.vifs v with
          chIndex := (ctxtOf ch).or (s.vifs v).chIndex
          staAp := some (Sta.init apIdx (s.txqStatus ch)) } :=
    vifs_again (fun vif => { vif with staAp := some (Sta.init apIdx (s.txqStatus ch)) })
      (vifs_link { s with staValid := Function.update s.staValid apIdx true } v ch chandef)
  rw [performAll_append, txqTdlsVifInit]
  cases tdls : k.tdls with
  | false => exact linked
  | true => exact vifs_again (fun vif => { vif with unk := Txq.init ∅ }) linked

/-- The monitor interface is one. -/
def Monitored (s : Hw) : Prop := ∀ m, s.monitorVif = some m → (s.vifs m).iftype = .monitor

theorem iftype_update {v : VifId} {vif : Vif} (kept : vif.iftype = (s.vifs v).iftype) (w : VifId) :
    (Function.update s.vifs v vif w).iftype = (s.vifs w).iftype := by
  rcases eq_or_ne w v with rfl | other
  · rw [Function.update_self, kept]
  · rw [Function.update_of_ne other]

theorem iftype_perform (s : Hw) (op : Op) (w : VifId) :
    ((s.perform op).vifs w).iftype = (s.vifs w).iftype ∧
      (s.perform op).monitorVif = s.monitorVif := by
  cases op with
  | link v ch chandef =>
      refine ⟨?_, ?_⟩
      · change ((s.link v ch chandef).vifs w).iftype = _
        rw [vifs_link]
        exact iftype_update (by rfl) w
      · change (s.link v ch chandef).monitorVif = _
        rw [link]
        split_ifs <;> rfl
  | unlink v =>
      refine ⟨?_, ?_⟩
      · change ((s.unlink v).vifs w).iftype = _
        rw [vifs_unlink]
        exact iftype_update (by rfl) w
      · change (s.unlink v).monitorVif = _
        rw [unlink]
        split <;> rfl
  | radarOnCurChannel =>
      refine ⟨?_, ?_⟩
      · change (s.radarOnCurChannel.vifs w).iftype = _
        rw [vifs_radarOnCurChannel]
      · change s.radarOnCurChannel.monitorVif = _
        rw [radarOnCurChannel]
        split
        · split <;> rfl
        · rfl
  | txqStart v reason | txqStop v reason =>
      exact ⟨iftype_update (Vif.mapTxqs_iftype _ _) w, rfl⟩
  | apInit | apDeinit | unkInit | unkDeinit | extAuthClr | peerAdd | setCsa =>
      exact ⟨iftype_update (by rfl) w, rfl⟩
  | setChan | peerDel | setStaValid | setCurChanctx | radarEnable | setCac => exact ⟨rfl, rfl⟩

theorem Monitored.performAll (monitored : s.Monitored) (ops : List Op) :
    (s.performAll ops).Monitored := by
  induction ops generalizing s with
  | nil => exact monitored
  | cons op ops induction =>
      apply induction
      intro m named
      rw [(iftype_perform s op m).1]
      exact monitored m ((iftype_perform s op m).2.symm.trans named)

/-! ## Handlers -/

/-- Every interface that is up runs its queues on its own channel only. -/
def OwnChannel (past : List Event) (s : Hw) : Prop := ∀ v, (s.vifs v).OwnChannel past

variable {past : List Event}

/-- All but the interface that changes are as they were. -/
theorem OwnChannel.update_iff (own : s.OwnChannel past) {s' : Hw} {v : VifId} {vif : Vif}
    (changed : s'.vifs = Function.update s.vifs v vif) :
    s'.OwnChannel past ↔ vif.OwnChannel past := by
  refine ⟨fun all => ?_, fun one w => ?_⟩
  · have at_v := all v
    rwa [changed, Function.update_self] at at_v
  · rw [changed]
    rcases eq_or_ne w v with rfl | other
    · rwa [Function.update_self]
    · rw [Function.update_of_ne other]
      exact own w

/-- The interface is on no context the radio is not on when its switch to it is over. -/
def Switches (past : List Event) (s : Hw) (v : VifId) (ch : Nat) : Prop :=
  (s.vifs v).up = true → s.curChanctx = ch → (s.vifs v).HasActive → Tuned past (ctxtOf ch)

theorem ownChannel_switched (past : List Event) (s : Hw) (v : VifId) (ch : Nat) :
    (s.switched v ch).OwnChannel past ↔ s.Switches past v ch := by
  rw [switched]
  by_cases current : s.curChanctx = ch
  · rw [if_pos current, Vif.OwnChannel, Vif.runs_txqStart, Vif.txqStart, Vif.mapTxqs_up,
      Vif.mapTxqs_chIndex, Switches, imp_iff_right current]
    exact Iff.rfl
  · rw [if_neg current]
    exact iff_of_true (fun _ running => absurd running (Vif.not_runs_txqStop _))
      fun _ current' => absurd current' current

theorem ownChannel_setCsa {v : VifId} {csa : Option Csa} :
    (s.perform (.setCsa v csa)).OwnChannel past ↔ s.OwnChannel past := by
  refine forall_congr' fun w => ?_
  rcases eq_or_ne w v with rfl | other
  · rw [perform, setVif_self]
    exact Iff.rfl
  · rw [perform, setVif_of_ne s _ other]

theorem OwnChannel.switchTo_iff (own : s.OwnChannel past) (v : VifId) (ch : Nat)
    (chandef : Option ChanDef) :
    (s.performAll (s.switchTo v ch chandef)).OwnChannel past ↔ s.Switches past v ch :=
  (own.update_iff (vifs_switchTo s v ch chandef)).trans (ownChannel_switched past s v ch)

theorem OwnChannel.csaFinish_iff (own : s.OwnChannel past) (v : VifId) (csa : Csa)
    (beacon : Bool) :
    (s.performAll (s.csaFinish v csa beacon)).OwnChannel past ↔
      (csa.ok = true → beacon = true → s.Switches past v csa.chIdx) := by
  rw [csaFinish, performAll_append]
  refine ownChannel_setCsa.trans ?_
  by_cases done : csa.ok = true ∧ beacon = true
  · rw [if_pos done, own.switchTo_iff, imp_iff_right done.1, imp_iff_right done.2]
  · rw [if_neg done]
    exact iff_of_true own fun ok beacon => absurd ⟨ok, beacon⟩ done

theorem OwnChannel.sccCsaFinish_iff (own : s.OwnChannel past) (v : VifId) (csa : Csa) :
    (s.performAll (s.sccCsaFinish v csa)).OwnChannel past ↔
      (csa.ok = true → s.Switches past v csa.chIdx) := by
  rw [sccCsaFinish, performAll_append]
  refine ownChannel_setCsa.trans ?_
  by_cases done : csa.ok = true
  · rw [if_pos done, own.switchTo_iff, imp_iff_right done]
  · rw [if_neg done]
    exact iff_of_true own fun ok => absurd ok done

theorem OwnChannel.channelSwitch (own : s.OwnChannel past) (v : VifId) (scc : Bool)
    (chandef : ChanDef) (ok : Bool) :
    (s.performAll (s.channelSwitch v scc chandef ok)).OwnChannel past := by
  rw [Hw.channelSwitch]
  split_ifs
  · exact ownChannel_setCsa.mpr own
  · exact own

theorem OwnChannel.externalAuthDisable (own : s.OwnChannel past) (v : VifId) :
    (s.performAll (s.externalAuthDisable v)).OwnChannel past := by
  rw [Hw.externalAuthDisable]
  split_ifs
  · have cleared : (s.performAll [.extAuthClr v, .unkDeinit v]).vifs = Function.update s.vifs v
        { s.vifs v with extAuth := false, unk := (s.vifs v).unk.deinit } :=
      vifs_again (fun vif => { vif with unk := vif.unk.deinit })
        (rfl : (s.perform (.extAuthClr v)).vifs = _)
    exact (own.update_iff cleared).mpr fun up running => own v up (Vif.Runs.of_unkDeinit running)
  · exact own

/-- Whatever happens to the context of a monitor interface, it has no queues. -/
theorem Monitored.ownChannel_relinkMonitor (monitored : s.Monitored) (k : Config) {s' : Hw}
    (types : ∀ m, (s'.vifs m).iftype = (s.vifs m).iftype) (ch : Nat) :
    (s'.performAll (s.relinkMonitor k ch)).OwnChannel past ↔ s'.OwnChannel past := by
  rw [relinkMonitor]
  split
  · exact Iff.rfl
  · rename_i m named
    split
    · refine forall_congr' fun w => ?_
      rw [vifs_relink]
      rcases eq_or_ne w m with rfl | other
      · have monitor : (s'.vifs w).iftype = .monitor := (types w).trans (monitored w named)
        rw [Function.update_self]
        exact iff_of_true (fun _ running =>
          absurd running (Vif.not_runs_of_monitor _ (by exact monitor)))
          fun _ running => absurd running (Vif.not_runs_of_monitor _ monitor)
      · rw [Function.update_of_ne other]
    · exact Iff.rfl

/-- A connect indication finds the radio on the context, or leaves the queues stopped. -/
def Connects (past : List Event) (k : Config) (s : Hw) (v : VifId) (ch : Nat) : Prop :=
  (s.vifs v).up = true → (s.vifs v).ConnectRuns k.tdls (s.txqStatus ch) →
    Tuned past ((ctxtOf ch).or (s.vifs v).chIndex)

theorem OwnChannel.smConnectInd_iff (own : s.OwnChannel past) (monitored : s.Monitored)
    (k : Config) (v : VifId) (ok : Bool) (apIdx ch : Nat) (chandef : Option ChanDef) :
    (∀ ops, s.rxSmConnectInd k v ok apIdx ch chandef = .ok ops →
        (s.performAll ops).OwnChannel past) ↔
      ((s.vifs v).inTable = true → ok = true → (ch < nxChanCtxtCnt → chandef ≠ none) →
        s.Connects past k v ch) := by
  rw [rxSmConnectInd]
  by_cases absent : (s.vifs v).inTable = false
  · rw [if_pos absent]
    exact ⟨fun _ present => absurd present (by rw [absent]; exact Bool.false_ne_true),
      fun _ _ failed => nomatch failed⟩
  rw [if_neg absent, imp_iff_right (eq_true_of_ne_false absent)]
  by_cases failed : ok = false
  · rw [if_pos failed, Run.forall_ok_iff rfl]
    exact iff_of_true (own.externalAuthDisable v) fun succeeded =>
      absurd succeeded (by rw [failed]; exact Bool.false_ne_true)
  rw [if_neg failed, imp_iff_right (eq_true_of_ne_false failed)]
  by_cases null : ch < nxChanCtxtCnt ∧ chandef = none
  · rw [if_pos null]
    exact ⟨fun _ defined => absurd null.2 (defined null.1), fun _ _ failed => nomatch failed⟩
  have defined : ch < nxChanCtxtCnt → chandef ≠ none := fun valid undefined =>
      null ⟨valid, undefined⟩
  rw [if_neg null, imp_iff_right defined, Run.forall_ok_iff rfl, performAll_append]
  have connected := vifs_connect k s v apIdx ch chandef
  rw [monitored.ownChannel_relinkMonitor, own.update_iff connected, Vif.OwnChannel,
    Vif.runs_connected]
  · exact Iff.rfl
  · intro m
    rw [connected]
    exact iftype_update (by rfl) m

theorem OwnChannel.csaFinishInd_iff (own : s.OwnChannel past) (v : VifId) (ok : Bool) (ch : Nat) :
    (s.performAll (s.rxCsaFinishInd v ok ch)).OwnChannel past ↔
      ((s.vifs v).iftype ≠ .ap → (s.vifs v).iftype ≠ .p2pGo → ok = true →
          s.Switches past v ch) := by
  have scheduled : ∀ csa, (s.performAll [.setCsa v csa]).OwnChannel past :=
    fun _ => ownChannel_setCsa.mpr own
  have others : (s.performAll (if ok then s.switchTo v ch none else [])).OwnChannel past ↔
      (ok = true → s.Switches past v ch) := by
    cases ok with
    | false => exact iff_of_true own fun failed => absurd failed Bool.false_ne_true
    | true => exact (own.switchTo_iff v ch none).trans (imp_iff_right rfl).symm
  rw [rxCsaFinishInd]
  cases type : (s.vifs v).iftype with
  | ap =>
      cases (s.vifs v).csa with
      | none => exact iff_of_true own fun other => absurd rfl other
      | some csa => exact iff_of_true (scheduled _) fun other => absurd rfl other
  | p2pGo =>
      cases (s.vifs v).csa with
      | none => exact iff_of_true own fun _ other => absurd rfl other
      | some csa => exact iff_of_true (scheduled _) fun _ other => absurd rfl other
  | station | p2pClient | meshPoint | monitor =>
      exact others.trans
        ⟨fun all _ _ => all, fun all => all (fun same => nomatch same) (fun same => nomatch same)⟩

theorem OwnChannel.csaWork_iff (own : s.OwnChannel past) (v : VifId) (beacon : Bool) :
    (s.performAll (s.csaWork v beacon)).OwnChannel past ↔
      ∀ csa, (s.vifs v).csa = some csa → csa.scheduled = true → csa.ok = true →
        csa.scc = true ∨ beacon = true → s.Switches past v csa.chIdx := by
  rw [csaWork]
  cases (s.vifs v).csa with
  | none => exact iff_of_true own fun csa none => nomatch none
  | some csa =>
      have only : (∀ csa', some csa = some csa' → csa'.scheduled = true → csa'.ok = true →
          csa'.scc = true ∨ beacon = true → s.Switches past v csa'.chIdx) ↔
          (csa.scheduled = true → csa.ok = true → csa.scc = true ∨ beacon = true →
            s.Switches past v csa.chIdx) :=
        ⟨fun all => all csa rfl, fun one _ same => by cases same; exact one⟩
      rw [only]
      by_cases idle : csa.scheduled = false
      · refine iff_of_true ?_ fun scheduled =>
          absurd scheduled (by rw [idle]; exact Bool.false_ne_true)
        change (s.performAll (if csa.scheduled = false then [] else _)).OwnChannel past
        rw [if_pos idle]
        exact own
      · change (s.performAll (if csa.scheduled = false then [] else _)).OwnChannel past ↔ _
        rw [if_neg idle, imp_iff_right (eq_true_of_ne_false idle)]
        cases scc : csa.scc with
        | true =>
            exact (own.sccCsaFinish_iff v csa).trans
              (imp_congr_right fun _ => (imp_iff_right (.inl rfl)).symm)
        | false =>
            refine (own.csaFinish_iff v csa beacon).trans (imp_congr_right fun _ => ?_)
            rw [or_iff_right Bool.false_ne_true]

theorem OwnChannel.sccCheck_iff (own : s.OwnChannel past) (v : VifId) (ok : Bool) :
    (∀ ops, s.sccCheckChanConflict v ok = .ok ops → (s.performAll ops).OwnChannel past) ↔
      ∀ target chandef, s.sccTarget v = .ok (some (target, chandef)) →
        (s.vifs v).staList = [] → ok = true → s.Switches past v target := by
  rw [sccCheckChanConflict]
  cases s.sccTarget v with
  | error fault => exact iff_of_true (fun _ failed => nomatch failed) fun _ _ found => nomatch found
  | ok found =>
      refine (Run.forall_ok_iff rfl).trans ?_
      obtain _ | ⟨target, chandef⟩ := found
      · exact iff_of_true own fun _ _ found => nomatch found
      have only : (∀ target' chandef', (.ok (some (target, chandef)) :
          Except Fault (Option (CtxtId × ChanDef))) = .ok (some (target', chandef')) →
            (s.vifs v).staList = [] → ok = true → s.Switches past v target') ↔
          ((s.vifs v).staList = [] → ok = true → s.Switches past v target) :=
        ⟨fun all => all target chandef rfl, fun one _ _ same => by cases same; exact one⟩
      rw [only]
      change (s.performAll (if (s.vifs v).staList ≠ [] then _ else _)).OwnChannel past ↔ _
      by_cases stations : (s.vifs v).staList ≠ []
      · rw [if_pos stations]
        exact iff_of_true (own.channelSwitch v true chandef ok) fun empty => absurd empty stations
      rw [if_neg stations, imp_iff_right (not_not.mp stations)]
      cases ok with
      | false => exact iff_of_true own fun failed => absurd failed Bool.false_ne_true
      | true =>
          rw [if_pos rfl, imp_iff_right rfl, performAll_append]
          refine (own.update_iff (v := v) ?_).trans (ownChannel_switched past s v target)
          have relinked := vifs_relink s v target (some chandef)
          rw [switched]
          split_ifs
          · exact vifs_again (Vif.txqStart .chan) relinked
          · exact vifs_again (Vif.txqStop .chan) relinked

/-! ## Channel indications -/

theorem mem_listed {v : VifId} {ch : Nat} :
    v ∈ (List.finRange nxVirtDevMax).filter (fun v =>
      (s.vifs v).up && chIdx (s.vifs v).chIndex = ch) ↔
      (s.vifs v).up = true ∧ chIdx (s.vifs v).chIndex = ch := by
  simp [List.mem_filter]

theorem vifs_chanPreSwitchInd (s : Hw) (ch : Nat) (v : VifId) :
    (s.performAll (s.rxChanPreSwitchInd ch)).vifs v =
      if (s.vifs v).up = true ∧ chIdx (s.vifs v).chIndex = ch then (s.vifs v).txqStop .chan
      else s.vifs v := by
  rw [rxChanPreSwitchInd, vifs_performAll_map (f := Vif.txqStop .chan) (fun _ _ => rfl)
    ((List.nodup_finRange _).filter _)]
  exact if_congr mem_listed rfl rfl

theorem vifs_chanSwitchInd (s : Hw) (ch : Nat) (v : VifId) :
    (s.performAll (s.rxChanSwitchInd ch)).vifs v =
      if (s.vifs v).up = true ∧ chIdx (s.vifs v).chIndex = ch then (s.vifs v).txqStart .chan
      else s.vifs v := by
  rw [rxChanSwitchInd, performAll_append]
  refine (congrFun (vifs_radarOnCurChannel _) v).trans ?_
  refine (vifs_performAll_map (f := Vif.txqStart .chan) (fun _ _ => rfl)
    ((List.nodup_finRange _).filter _) v).trans ?_
  exact if_congr mem_listed rfl rfl

/-- The pre-switch indication leaves no queue of its context running. -/
theorem OwnChannel.chanPreSwitchInd (own : s.OwnChannel past) (ch : Nat) :
    (s.performAll (s.rxChanPreSwitchInd ch)).OwnChannel (past ++ [.chanPreSwitch ch]) := by
  intro v
  rw [vifs_chanPreSwitchInd]
  split_ifs with left
  · exact fun _ running => absurd running (Vif.not_runs_txqStop _)
  · intro up running
    obtain ⟨c, linked, onChannel⟩ := own v up running
    refine ⟨c, linked, onChannel_concat.mpr (.inr ⟨onChannel, ?_, ?_⟩)⟩
    · exact fun _ => Event.noConfusion
    · intro same
      injection same with same
      rw [linked] at left
      exact left ⟨up, same.symm⟩

/-- No queue runs on a context other than the one switched to, which is there. -/
def Leaves (s : Hw) (ch : Nat) : Prop :=
  ∀ v, (s.vifs v).up = true →
    (chIdx (s.vifs v).chIndex = ch → (s.vifs v).HasActive → ch < nxChanCtxtCnt) ∧
      (chIdx (s.vifs v).chIndex ≠ ch → ¬(s.vifs v).Runs)

theorem tuned_switch {ch : Nat} {chIndex : Option CtxtId} :
    Tuned (past ++ [.chanSwitch ch]) chIndex ↔ chIdx chIndex = ch ∧ ch < nxChanCtxtCnt := by
  have only : ∀ c : Nat, OnChannel (past ++ [.chanSwitch ch]) c ↔ ch = c := by
    intro c
    rw [onChannel_concat]
    refine ⟨?_, fun same => .inl (by rw [same])⟩
    rintro (same | ⟨-, none, -⟩)
    · injection same
    · exact absurd rfl (none ch)
  constructor
  · rintro ⟨c, rfl, onChannel⟩
    obtain rfl := (only c).mp onChannel
    exact ⟨rfl, c.isLt⟩
  · rintro ⟨same, valid⟩
    cases chIndex with
    | none =>
        subst same
        exact absurd valid (by decide)
    | some c => exact ⟨c, rfl, (only c).mpr same.symm⟩

theorem chanSwitchInd_iff (past : List Event) (s : Hw) (ch : Nat) :
    (s.performAll (s.rxChanSwitchInd ch)).OwnChannel (past ++ [.chanSwitch ch]) ↔ s.Leaves ch := by
  refine forall_congr' fun v => ?_
  rw [vifs_chanSwitchInd]
  by_cases on : (s.vifs v).up = true ∧ chIdx (s.vifs v).chIndex = ch
  · rw [if_pos on, Vif.OwnChannel, Vif.runs_txqStart, Vif.txqStart, Vif.mapTxqs_up,
      Vif.mapTxqs_chIndex, tuned_switch]
    constructor
    · intro tuned up
      exact ⟨fun _ active => (tuned up active).2, fun other => absurd on.2 other⟩
    · exact fun leaves up active => ⟨on.2, (leaves up).1 on.2 active⟩
  · rw [if_neg on, Vif.OwnChannel, tuned_switch]
    constructor
    · intro tuned up
      have other : chIdx (s.vifs v).chIndex ≠ ch := fun same => on ⟨up, same⟩
      exact ⟨fun same => absurd same other, fun _ running => other (tuned up running).1⟩
    · exact fun leaves up running =>
        absurd running ((leaves up).2 fun same => on ⟨up, same⟩)

/-- Other events change nothing of what the indications say. -/
theorem tuned_concat {e : Event} (noSwitch : ∀ ch, e ≠ .chanSwitch ch)
    (noPreSwitch : ∀ ch, e ≠ .chanPreSwitch ch) (chIndex : Option CtxtId) :
    Tuned (past ++ [e]) chIndex ↔ Tuned past chIndex := by
  refine exists_congr fun c => and_congr_right fun _ => ?_
  rw [onChannel_concat, or_iff_right (noSwitch c)]
  exact and_iff_left ⟨noSwitch, noPreSwitch c⟩

theorem ownChannel_concat {e : Event} (noSwitch : ∀ ch, e ≠ .chanSwitch ch)
    (noPreSwitch : ∀ ch, e ≠ .chanPreSwitch ch) :
    s.OwnChannel (past ++ [e]) ↔ s.OwnChannel past :=
  forall_congr' fun _ => imp_congr_right fun _ => imp_congr_right fun _ =>
    tuned_concat noSwitch noPreSwitch _

end Hw

/-! ## Runs -/

/-- The driver, and the events so far. -/
structure Heard where
  past : List Event
  hw : Hw

namespace Heard

def listen (k : Config) (h : Heard) (e : Event) : Except Fault Heard :=
  (h.hw.step k e).map fun hw => ⟨h.past ++ [e], hw⟩

/-- Where the queues of an interface run that is up, the last switch indication named its channel
context and no pre-switch indication for it has arrived since. -/
def OwnChannel (h : Heard) : Prop := h.hw.OwnChannel h.past

end Heard

/-- The events the queues are followed through. -/
def Event.Listed : Event → Prop
  | .chanPreSwitch _ | .chanSwitch _ | .smConnect _ _ _ _ _ | .channelSwitch _ _ _
  | .csaFinishInd _ _ _ | .csaWork _ _ | .sccCheck _ _ => True
  | _ => False

namespace Heard

/-- A switch indication arrives when the queues of other contexts have been stopped, and an
interface that connects or ends a channel switch with queues to run finds the radio on its
context. -/
def Settled (k : Config) (h : Heard) : Event → Prop
  | .chanSwitch ch => h.hw.Leaves ch
  | .smConnect v ok _ ch chandef =>
      (h.hw.vifs v).inTable = true → ok = true → (ch < nxChanCtxtCnt → chandef ≠ none) →
        h.hw.Connects h.past k v ch
  | .csaFinishInd v ok ch =>
      (h.hw.vifs v).iftype ≠ .ap → (h.hw.vifs v).iftype ≠ .p2pGo → ok = true →
        h.hw.Switches h.past v ch
  | .csaWork v beacon => ∀ csa, (h.hw.vifs v).csa = some csa → csa.scheduled = true →
      csa.ok = true → csa.scc = true ∨ beacon = true → h.hw.Switches h.past v csa.chIdx
  | .sccCheck v ok => ∀ target chandef, h.hw.sccTarget v = .ok (some (target, chandef)) →
      (h.hw.vifs v).staList = [] → ok = true → h.hw.Switches h.past v target
  | _ => True

variable {k : Config} {h : Heard}

theorem listen_iff (e : Event) :
    (∀ next, h.listen k e = .ok next → next.OwnChannel) ↔
      ∀ ops, h.hw.handle k e = .ok ops → (h.hw.performAll ops).OwnChannel (h.past ++ [e]) := by
  constructor
  · intro all ops handled
    refine all ⟨h.past ++ [e], h.hw.performAll ops⟩ ?_
    rw [listen, Hw.step, handled]
    rfl
  · intro all next listened
    obtain ⟨hw, stepped, rfl⟩ := Run.map_eq_ok listened
    obtain ⟨ops, handled, rfl⟩ := Run.map_eq_ok stepped
    exact all ops handled

/-- An event keeps the queues on their channels exactly when it is settled. -/
theorem OwnChannel.listen_iff_settled (own : h.OwnChannel) (monitored : h.hw.Monitored)
    {e : Event} (listed : e.Listed) :
    (∀ next, h.listen k e = .ok next → next.OwnChannel) ↔ h.Settled k e := by
  rw [listen_iff]
  have quiet : (∀ ch, e ≠ .chanSwitch ch) → (∀ ch, e ≠ .chanPreSwitch ch) →
      ((∀ ops, h.hw.handle k e = .ok ops → (h.hw.performAll ops).OwnChannel (h.past ++ [e])) ↔
        ∀ ops, h.hw.handle k e = .ok ops → (h.hw.performAll ops).OwnChannel h.past) :=
    fun noSwitch noPreSwitch => forall₂_congr fun _ _ => Hw.ownChannel_concat noSwitch noPreSwitch
  have one : ∀ {ops : List Op} {good : List Op → Prop},
      (∀ ops', (.ok ops : Except Fault (List Op)) = .ok ops' → good ops') ↔ good ops :=
    Run.forall_ok_iff rfl
  cases e with
  | chanPreSwitch ch => exact iff_of_true (one.mpr (Hw.OwnChannel.chanPreSwitchInd own ch)) trivial
  | chanSwitch ch => exact one.trans (Hw.chanSwitchInd_iff h.past h.hw ch)
  | smConnect v ok apIdx ch chandef =>
      refine (quiet (fun _ => Event.noConfusion) fun _ => Event.noConfusion).trans ?_
      exact Hw.OwnChannel.smConnectInd_iff own monitored k v ok apIdx ch chandef
  | channelSwitch v chandef ok =>
      refine (quiet (fun _ => Event.noConfusion) fun _ => Event.noConfusion).trans ?_
      exact iff_of_true (one.mpr (Hw.OwnChannel.channelSwitch own v false chandef ok)) trivial
  | csaFinishInd v ok ch =>
      refine (quiet (fun _ => Event.noConfusion) fun _ => Event.noConfusion).trans ?_
      exact one.trans (Hw.OwnChannel.csaFinishInd_iff own v ok ch)
  | csaWork v beacon =>
      refine (quiet (fun _ => Event.noConfusion) fun _ => Event.noConfusion).trans ?_
      exact one.trans (Hw.OwnChannel.csaWork_iff own v beacon)
  | sccCheck v ok =>
      refine (quiet (fun _ => Event.noConfusion) fun _ => Event.noConfusion).trans ?_
      exact Hw.OwnChannel.sccCheck_iff own v ok
  | smDisconnect | meshPeerUpdate | staNotifyCsa | startCac | cacWork | cancelCac =>
      exact listed.elim

theorem monitored_listen {e : Event} {next : Heard} (monitored : h.hw.Monitored)
    (listened : h.listen k e = .ok next) : next.hw.Monitored := by
  obtain ⟨hw, stepped, rfl⟩ := Run.map_eq_ok listened
  obtain ⟨ops, -, rfl⟩ := Run.map_eq_ok stepped
  exact monitored.performAll ops

/-- The radio is on the first context, and nothing is linked. -/
def onFirst : Heard := ⟨[.chanSwitch 0], Hw.idle⟩

theorem onFirst_ownChannel : onFirst.OwnChannel := fun v _ running => by
  obtain ⟨q, member, active, -⟩ := running
  have inactive : ∀ q ∈ (Hw.idle.vifs v).txqs, q.active = false := by decide +revert
  exact absurd active (by rw [inactive q member]; exact Bool.false_ne_true)

/-- Through any channel indications, connect indications and channel switches, the queues run on
their own channels only exactly when each event is settled. -/
theorem own_channel_iff_settled (k : Config) (h : Heard) (own : h.OwnChannel)
    (monitored : h.hw.Monitored) (events : List Event) (listed : ∀ e ∈ events, e.Listed) :
    Run.Throughout (listen k) OwnChannel events h ↔
      Run.Guarded (listen k) (Settled k) events h := by
  have initial : h.OwnChannel ∧ h.hw.Monitored := ⟨own, monitored⟩
  have sound : ∀ h : Heard, h.OwnChannel ∧ h.hw.Monitored → h.OwnChannel := fun _ held => held.1
  refine Run.throughout_iff_guarded ?_ sound ?_ listed initial
  · intro h e next held listed settled listened
    exact ⟨(held.1.listen_iff_settled held.2 listed).mpr settled next listened,
      monitored_listen held.2 listened⟩
  · intro h e held listed unsettled
    rw [← held.1.listen_iff_settled (k := k) held.2 listed] at unsettled
    push Not at unsettled
    exact unsettled

/-- A connection on the context of the radio, which then leaves it. -/
theorem own_channel_iff_settled_connection :
    Run.Throughout (listen ⟨false, true⟩) OwnChannel
        [.smConnect 0 true 0 0 (some Hw.channel1), .chanPreSwitch 0, .chanSwitch 1] onFirst ↔
      Run.Guarded (listen ⟨false, true⟩) (Settled ⟨false, true⟩)
        [.smConnect 0 true 0 0 (some Hw.channel1), .chanPreSwitch 0, .chanSwitch 1] onFirst := by
  apply own_channel_iff_settled ⟨false, true⟩ onFirst onFirst_ownChannel
  · exact fun _ named => nomatch named
  · simp [Event.Listed]

/-- The radio is leaving the first context when a station connects there. -/
theorem connects_while_leaving :
    ¬Run.Throughout (listen ⟨false, false⟩) OwnChannel
      [.chanPreSwitch 0, .smConnect 0 true 0 0 (some Hw.channel1)] onFirst := by
  intro fine
  have last := fine _ [] _ (List.append_nil _).symm rfl
  obtain ⟨c, linked, onChannel⟩ := last 0 rfl (by decide)
  obtain rfl : (0 : CtxtId) = c := Option.some.inj linked
  rcases onChannel_concat.mp onChannel with same | ⟨onChannel, -, -⟩
  · exact Event.noConfusion same
  · rcases onChannel_concat.mp onChannel with same | ⟨-, -, left⟩
    · exact Event.noConfusion same
    · exact left rfl

end Heard

end AmlW2.Chan
