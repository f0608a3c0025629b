import AmlW2.Tx.PowerSave
import AmlW2.Tx.Effect
import Mathlib.Algebra.Ring.Int.Defs

/-!
# Service periods of a station in power save

Until a service period comes to its end, the txqs of the station that are of its `ps_id` push no
more frames than were granted, and before the first grant they are stopped.  Nothing stops them
again afterwards.
-/

namespace AmlW2.Tx

/-! ## Queues that stay stopped -/

/-- The queue stays stopped for power save, and is on a list only when it is not stopped at all. -/
structure Txq.Stays (q q' : Txq) : Prop where
  active : q'.active = true → q.active = true
  legacyPs : q'.legacyPs = q.legacyPs
  stopped : .staPs ∈ q.stops → .staPs ∈ q'.stops
  limit : 0 ≤ q.pushLimit → 0 ≤ q'.pushLimit
  running : (q.inHwqList = true → q.stops = ∅) → q'.inHwqList = true → q'.stops = ∅

theorem Txq.Stays.refl (q : Txq) : Txq.Stays q q :=
  ⟨id, rfl, id, id, id⟩

theorem Txq.Stays.trans {q q' q'' : Txq} (first : Txq.Stays q q') (second : Txq.Stays q' q'') :
    Txq.Stays q q'' where
  active := first.active ∘ second.active
  legacyPs := second.legacyPs.trans first.legacyPs
  stopped := second.stopped ∘ first.stopped
  limit := second.limit ∘ first.limit
  running := second.running ∘ first.running

namespace Hw

variable {n : Nat}

/-- All queues do. -/
def Stays (s s' : Hw n) : Prop := ∀ u, Txq.Stays (s.txqs u) (s'.txqs u)

namespace Stays

theorem refl (s : Hw n) : Stays s s := fun _ => Txq.Stays.refl _

theorem trans {s s' s'' : Hw n} (first : Stays s s') (second : Stays s' s'') : Stays s s'' :=
  fun u => (first u).trans (second u)

variable {s s' : Hw n} {t : Fin n}

theorem of_txqs (txqs : s'.txqs = s.txqs) : Stays s s' :=
  fun u => txqs ▸ Txq.Stays.refl (s.txqs u)

theorem setTxq {q : Txq} (stays : Txq.Stays (s.txqs t) q) : Stays s (s.setTxq t q) :=
  forall_setTxq (P := fun u q => Txq.Stays (s.txqs u) q) stays fun _ => Txq.Stays.refl _

theorem setQueue (queue : Queue) : Stays s (s.setQueue t queue) :=
  setTxq ⟨id, rfl, id, id, id⟩

theorem delFromHwList : Stays s (s.delFromHwList t) := by
  have stays : Stays s (s.setTxq t { s.txqs t with inHwqList := false }) :=
    setTxq ⟨id, rfl, id, id, fun _ flag => absurd flag Bool.false_ne_true⟩
  intro u
  rw [delFromHwList_txqs]
  exact stays u

/-- A queue that is stopped is taken off its list. -/
theorem stop (reason : Finset Stop) : Stays s (s.stop t reason) := by
  rw [Hw.stop]
  split_ifs
  · intro u
    rw [delFromHwList_txqs]
    by_cases same : u = t
    · subst same
      rw [Function.update_self, setTxq_self]
      exact ⟨id, rfl, fun stopped => Finset.mem_union_left _ stopped, id,
        fun _ flag => absurd flag Bool.false_ne_true⟩
    · rw [Function.update_of_ne same, setTxq_of_ne s _ same]
      exact Txq.Stays.refl _
  · exact refl s

theorem enlist (free : (s.txqs t).stops = ∅) : Stays s (s.enlist t) := by
  rw [Hw.enlist]
  split_ifs
  · exact setTxq (s := s) ⟨id, rfl, id, id, fun _ _ => free⟩
  · exact refl s

theorem txPush (f : Frame) : Stays s (s.txPush t f) := by
  have charged : Stays s (s.charge t f) := by
    refine setTxq ⟨id, rfl, id, fun limit => ?_, id⟩
    simp only [Txq.charge]
    split_ifs
    · omega
    · exact le_rfl
  have stopped : Stays s ((s.charge t f).stopFull t) := by
    rw [Hw.stopFull]
    split_ifs
    · exact charged.trans (stop _)
    · exact charged
  exact stopped.trans (of_txqs (txPush_txqs f))

theorem endTurn (h : Fin nxTxqCnt) (done : Bool) : Stays s (s.endTurn h t done) := by
  rw [Hw.endTurn]
  split_ifs
  · exact delFromHwList.trans (setTxq ⟨id, rfl, id, id, id⟩)
  · exact setTxq (s := s) ⟨id, rfl, id, id, id⟩
  · exact refl s

theorem endService : Stays s (s.endService t) := by
  rw [Hw.endService]
  split_ifs
  · exact setTxq ⟨id, rfl, id, fun _ => le_rfl, id⟩
  · exact refl s

theorem setCredits (credits : Int) : Stays s (s.setCredits t credits) :=
  setTxq ⟨id, rfl, id, id, id⟩

theorem confirmAny (h : Fin nxTxqCnt) : Stays s (s.confirmAny t h) := by
  have freed : Stays s (s.uncount t) := setTxq (s := s) ⟨id, rfl, id, id, id⟩
  rw [Hw.confirmAny]
  split_ifs
  · exact freed
  · exact freed

theorem dropOldTraffic (now timeout : Nat) : Stays s (s.dropOldTraffic t now timeout) := by
  rw [Hw.dropOldTraffic]
  simp only
  split_ifs
  · exact setQueue _
  · exact ((setQueue _).trans delFromHwList).trans (setTxq ⟨id, rfl, id, id, id⟩)
  · exact refl s

theorem addSubframe (a : Arrival) (maxnb : Nat) (room : Bool) :
    Stays s (s.addSubframe t a maxnb room) := by
  rw [Hw.addSubframe]
  split_ifs
  · exact setQueue _
  · exact refl s

theorem deinit : Stays s (s.deinit t) := by
  rw [Hw.deinit]
  split_ifs
  · exact delFromHwList.trans
      (setTxq ⟨fun active => absurd active Bool.false_ne_true, rfl, id, id, id⟩)
  · exact refl s

end Stays

end Hw

namespace PowerSave

variable {n : Nat}

/-- No frame is pushed in power save but from what was granted, the counter of the service period
tells what is left of this, and when nothing is left the txqs are stopped. -/
structure Contained (s : PowerSave n) : Prop where
  inside : s.outside = false
  rest : s.active = true → ∀ id, 0 ≤ s.left id ∧ (s.spCnt id).toNat = s.left id
  closed : s.active = true → ∀ id, s.left id = 0 → ∀ t ∈ s.tids, (s.hw.txqs t).active = true →
    s.psId t = id → .staPs ∈ (s.hw.txqs t).stops

/-! ## The invariant -/

/-- A service period of the `ps_id` that has not come to its end; what has still to be granted fits
the counter. -/
structure Held (room : PsId → Nat) (s : PowerSave n) (id : PsId) : Prop where
  rest : 0 ≤ s.left id
  most : s.left id + room id < 2 ^ 16
  count : s.spCnt id = .ofInt 16 (s.left id)
  closed : s.left id = 0 → ∀ t ∈ s.tids, (s.hw.txqs t).active = true → s.psId t = id →
    .staPs ∈ (s.hw.txqs t).stops

/-- As long as no service period has come to its end. -/
structure Within (o : PowerSave n) (room : PsId → Nat) (s : PowerSave n) : Prop where
  tids : s.tids = o.tids
  active : s.active = o.active
  ended : ∀ id, o.finished id = true → s.finished id = true
  running : ∀ t, (s.hw.txqs t).inHwqList = true → (s.hw.txqs t).stops = ∅
  limit : ∀ t ∈ s.tids, s.finished (s.psId t) = false → 0 ≤ (s.hw.txqs t).pushLimit
  held : s.active = true → ∀ id, s.finished id = false → Held room s id
  inside : s.outside = true → ∃ id, s.finished id = true
  legacy : s.multicast = true → ∀ t ∈ s.tids, (s.hw.txqs t).legacyPs = true
  none : s.multicast = true → s.pktReady .uapsd = 0

/-- Something is left for the txq. -/
def Open (s : PowerSave n) (t : Fin n) : Prop :=
  s.Dozing t → s.finished (s.psId t) = false → 0 < s.left (s.psId t)

/-- The station is the same, and what is left for it. -/
structure Steady (s s' : PowerSave n) : Prop where
  tids : s'.tids = s.tids
  active : s'.active = s.active
  multicast : s'.multicast = s.multicast
  spCnt : s'.spCnt = s.spCnt
  left : s'.left = s.left
  finished : s'.finished = s.finished
  outside : s'.outside = s.outside
  ready : s.multicast = true → (∀ t ∈ s.tids, (s.hw.txqs t).legacyPs = true) →
    s'.pktReady .uapsd = s.pktReady .uapsd
  hw : Hw.Stays s.hw s'.hw

namespace Steady

theorem refl (s : PowerSave n) : Steady s s :=
  ⟨rfl, rfl, rfl, rfl, rfl, rfl, rfl, fun _ _ => rfl, Hw.Stays.refl s.hw⟩

variable {s s' : PowerSave n} {t : Fin n}

theorem legacyPs (steady : Steady s s') (u : Fin n) :
    (s'.hw.txqs u).legacyPs = (s.hw.txqs u).legacyPs :=
  (steady.hw u).legacyPs

theorem psId (steady : Steady s s') (u : Fin n) : s'.psId u = s.psId u := by
  rw [PowerSave.psId, PowerSave.psId, Txq.psId, Txq.psId, steady.legacyPs]

theorem trans {s'' : PowerSave n} (first : Steady s s') (second : Steady s' s'') :
    Steady s s'' where
  tids := second.tids.trans first.tids
  active := second.active.trans first.active
  multicast := second.multicast.trans first.multicast
  spCnt := second.spCnt.trans first.spCnt
  left := second.left.trans first.left
  finished := second.finished.trans first.finished
  outside := second.outside.trans first.outside
  ready multicast legacy := by
    refine (second.ready (first.multicast.trans multicast) ?_).trans (first.ready multicast legacy)
    intro t member
    rw [first.tids] at member
    exact (first.legacyPs t).trans (legacy t member)
  hw := first.hw.trans second.hw

theorem of_hw {hw : Hw n} (stays : Hw.Stays s.hw hw) : Steady s { s with hw } :=
  ⟨rfl, rfl, rfl, rfl, rfl, rfl, rfl, fun _ _ => rfl, stays⟩

theorem dozing (steady : Steady s s') (u : Fin n) : s'.Dozing u ↔ s.Dozing u := by
  rw [Dozing, Dozing, steady.active, steady.tids]

theorem opened (steady : Steady s s') {u : Fin n} (opened : s.Open u) : s'.Open u := by
  intro dozing closed
  rw [steady.psId, steady.finished] at closed
  rw [steady.psId, steady.left]
  exact opened ((steady.dozing u).mp dozing) closed

/-- The counter of the other `ps_id` of a BC/MC station is not touched. -/
theorem setReady (member : t ∈ s.tids) (ready : BitVec 16) :
    Steady s (s.setReady (s.psId t) ready) := by
  refine ⟨rfl, rfl, rfl, rfl, rfl, rfl, rfl, fun _ legacy => ?_, Hw.Stays.refl _⟩
  have own : PsId.uapsd ≠ s.psId t := by
    rw [PowerSave.psId, Txq.psId, if_pos (legacy t member)]
    exact PsId.noConfusion
  exact Function.update_of_ne own _ _

theorem tell (id : PsId) (available : Bool) : Steady s (s.tell id available) :=
  ⟨rfl, rfl, rfl, rfl, rfl, rfl, rfl, fun _ _ => rfl, Hw.Stays.refl _⟩

theorem countQueued : Steady s (s.countQueued t) := by
  rw [PowerSave.countQueued]
  simp only
  split_ifs with dozing
  · exact (setReady dozing.2 _).trans (tell _ _)
  · exact setReady dozing.2 _
  · exact refl s

theorem countGone (member : t ∈ s.tids) : Steady s (s.countGone t) := by
  rw [PowerSave.countGone]
  split_ifs
  · exact (setReady member _).trans (tell _ _)
  · exact setReady member _

end Steady

section

variable {o s s' : PowerSave n} {room : PsId → Nat} {t : Fin n}

theorem Held.steady {id : PsId} (held : Held room s id) (steady : Steady s s') :
    Held room s' id where
  rest := by
    rw [steady.left]
    exact held.rest
  most := by
    rw [steady.left]
    exact held.most
  count := by
    rw [steady.spCnt, steady.left]
    exact held.count
  closed none u member active own := by
    rw [steady.left] at none
    rw [steady.tids] at member
    rw [steady.psId] at own
    exact (steady.hw u).stopped (held.closed none u member ((steady.hw u).active active) own)

theorem Within.steady (within : Within o room s) (steady : Steady s s') : Within o room s' where
  tids := steady.tids.trans within.tids
  active := steady.active.trans within.active
  ended id finished := steady.finished ▸ within.ended id finished
  running u := (steady.hw u).running (within.running u)
  limit u member closed := by
    rw [steady.tids] at member
    rw [steady.psId, steady.finished] at closed
    exact (steady.hw u).limit (within.limit u member closed)
  held active id closed := by
    rw [steady.active] at active
    rw [steady.finished] at closed
    exact (within.held active id closed).steady steady
  inside out := by
    rw [steady.outside] at out
    rw [steady.finished]
    exact within.inside out
  legacy multicast u member := by
    rw [steady.multicast] at multicast
    rw [steady.tids] at member
    exact (steady.legacyPs u).trans (within.legacy multicast u member)
  none multicast := by
    rw [steady.multicast] at multicast
    exact (steady.ready multicast (within.legacy multicast)).trans (within.none multicast)

theorem ofInt_sub (x y : Int) :
    BitVec.ofInt 16 x - BitVec.ofInt 16 y = BitVec.ofInt 16 (x - y) := by
  have sum := BitVec.ofInt_add (n := 16) (x - y) y
  rw [Int.sub_add_cancel] at sum
  rw [sum, BitVec.add_sub_cancel]

/-- The end of a service period shows. -/
theorem spend_finished {id : PsId} {count : Int} (closed : (s.spend id count).finished id = false) :
    s.finished id = false ∧ ¬(0 < s.left id ∧ s.left id - count ≤ 0) := by
  have read : (s.spend id count).finished id =
      (s.finished id || decide (0 < s.left id ∧ s.left id - count ≤ 0)) :=
    Function.update_self _ _ _
  rw [read, Bool.or_eq_false_iff, decide_eq_false_iff_not] at closed
  exact closed

theorem spend_finished_of_ne {id other : PsId} (ne : other ≠ id) (count : Int) :
    (s.spend id count).finished other = s.finished other :=
  Function.update_of_ne ne _ _

theorem spend_ended (id other : PsId) (count : Int) (ended : s.finished other = true) :
    (s.spend id count).finished other = true := by
  by_cases own : other = id
  · subst own
    have read : (s.spend other count).finished other =
        (s.finished other || decide (0 < s.left other ∧ s.left other - count ≤ 0)) :=
      Function.update_self _ _ _
    rw [read, ended]
    rfl
  · rw [spend_finished_of_ne own]
    exact ended

/-- What is spent is spent of what is left. -/
theorem Within.spend (within : Within o room s) {id : PsId} {count : Int}
    (some : s.active = true → s.finished id = false → 0 < s.left id)
    (nonneg : s.finished id = false → 0 ≤ count) : Within o room (s.spend id count) where
  tids := within.tids
  active := within.active
  ended other finished := spend_ended id other count (within.ended other finished)
  running := within.running
  limit u member closed := by
    refine within.limit u member ?_
    by_cases own : s.psId u = id
    · subst own
      exact (spend_finished closed).1
    · rw [← spend_finished_of_ne own count]
      exact closed
  held active other closed := by
    by_cases own : other = id
    · subst own
      obtain ⟨before, more⟩ := spend_finished closed
      have held := within.held active other before
      have positive := some active before
      have least := nonneg before
      have left : (s.spend other count).left other = s.left other - count :=
        Function.update_self _ _ _
      have spCnt : (s.spend other count).spCnt other =
          s.spCnt other - BitVec.ofInt 16 count := Function.update_self _ _ _
      have most := held.most
      refine ⟨?_, ?_, ?_, fun none => ?_⟩
      · omega
      · omega
      · rw [spCnt, left, held.count, ofInt_sub]
      · omega
    · rw [spend_finished_of_ne own] at closed
      have held := within.held active other closed
      have left : (s.spend id count).left other = s.left other := Function.update_of_ne own _ _
      have spCnt : (s.spend id count).spCnt other = s.spCnt other := Function.update_of_ne own _ _
      refine ⟨?_, ?_, ?_, ?_⟩
      · rw [left]
        exact held.rest
      · rw [left]
        exact held.most
      · rw [spCnt, left]
        exact held.count
      · rw [left]
        exact held.closed
  inside out := by
    obtain ⟨other, finished⟩ := within.inside out
    exact ⟨other, spend_ended id other count finished⟩
  legacy := within.legacy
  none := within.none

/-! ## Pushing -/

/-- While a txq is open it is open after a frame of it. -/
theorem Open.spend (opened : s.Open t) (count : Int) : (s.spend (s.psId t) count).Open t := by
  intro dozing closed
  obtain ⟨before, more⟩ := spend_finished closed
  have positive := opened dozing before
  have left : (s.spend (s.psId t) count).left (s.psId t) = s.left (s.psId t) - count :=
    Function.update_self _ _ _
  change 0 < (s.spend (s.psId t) count).left (s.psId t)
  omega

theorem Within.mark (within : Within o room s) (mark : Mark) {outside : Bool}
    (out : outside = true → ∃ id, s.finished id = true) : Within o room (s.mark mark outside) where
  tids := within.tids
  active := within.active
  ended := within.ended
  running := within.running
  limit := within.limit
  held active id closed := by
    have held := within.held active id closed
    exact ⟨held.rest, held.most, held.count, held.closed⟩
  inside either := by
    obtain before | now := Bool.or_eq_true_iff.mp either
    · exact within.inside before
    · exact out now
  legacy := within.legacy
  none := within.none

theorem Within.setMoreDataFlag (within : Within o room s) (opened : s.Open t) (f : Frame) :
    Within o room (s.setMoreDataFlag t f) ∧ (s.setMoreDataFlag t f).Open t := by
  rw [PowerSave.setMoreDataFlag]
  split_ifs with dozing
  · have gone : Steady s (s.countGone t) := Steady.countGone dozing.2
    have id : (s.countGone t).psId t = s.psId t := gone.psId t
    have opened' := gone.opened opened
    have spent : Within o room ((s.countGone t).spend (s.psId t) 1) := by
      refine (within.steady gone).spend (fun active closed => ?_) fun _ => Int.one_nonneg
      rw [← id] at closed ⊢
      exact opened' ⟨active, gone.tids.symm ▸ dozing.2⟩ closed
    have still := opened'.spend 1
    rw [id] at still
    refine ⟨spent.mark _ fun empty => ⟨s.psId t, spend_ended _ _ _ ?_⟩, still⟩
    -- nothing was left, so that the service period had come to its end before
    rw [gone.finished]
    refine Bool.eq_true_of_not_eq_false fun closed => ?_
    exact absurd (opened dozing closed) (Int.not_lt.mpr (of_decide_eq_true empty))
  · exact ⟨within, opened⟩

theorem Within.txPush (within : Within o room s) (opened : s.Open t) (f : Frame) :
    Within o room (s.txPush t f) ∧ (s.txPush t f).Open t := by
  have flagged := within.setMoreDataFlag opened f
  have hw : (s.setMoreDataFlag t f).hw = s.hw := by
    rw [PowerSave.setMoreDataFlag, PowerSave.countGone]
    split_ifs
    · rfl
    · rfl
    · rfl
  have pushed : Steady (s.setMoreDataFlag t f) (s.txPush t f) := by
    refine Steady.of_hw ?_
    rw [hw]
    exact Hw.Stays.txPush f
  exact ⟨flagged.1.steady pushed, pushed.opened flagged.2⟩

theorem Within.foldl_txPush (within : Within o room s) (opened : s.Open t) (frames : List Frame) :
    Within o room (frames.foldl (fun s f => s.txPush t f) s) ∧
      (frames.foldl (fun s f => s.txPush t f) s).Open t := by
  induction frames generalizing s with
  | nil => exact ⟨within, opened⟩
  | cons f frames induction =>
      obtain ⟨pushed, still⟩ := within.txPush opened f
      exact induction pushed still

theorem Within.pushSkbs (within : Within o room s) (opened : s.Open t) (count : Nat) :
    Within o room (s.pushSkbs t count) ∧ (s.pushSkbs t count).Open t := by
  have taken : Steady s (s.takeOut t count) := Steady.of_hw (Hw.Stays.setQueue _)
  exact (within.steady taken).foldl_txPush (taken.opened opened) _

theorem Within.endService (within : Within o room s) (opened : s.Open t) :
    Within o room (s.endService t) := by
  rw [PowerSave.endService]
  split_ifs with limited
  · have spent : Within o room (s.spend (s.psId t) (s.hw.txqs t).pushLimit) :=
      within.spend (fun active => opened ⟨active, limited.2.2.2⟩)
        (within.limit t limited.2.2.2)
    exact spent.steady (Steady.of_hw (Hw.Stays.endService (s := s.hw)))
  · exact within.steady (Steady.of_hw Hw.Stays.endService)

/-- A txq on a list is not stopped, so that something is left for it. -/
theorem Within.opened (within : Within o room s) (flag : (s.hw.txqs t).inHwqList = true)
    (active : (s.hw.txqs t).active = true) : s.Open t := by
  intro dozing closed
  have held := within.held dozing.1 (s.psId t) closed
  refine lt_of_le_of_ne held.rest fun none => ?_
  have stopped := held.closed none.symm t dozing.2 active rfl
  rw [within.running t flag] at stopped
  exact absurd stopped (Finset.notMem_empty _)

theorem Within.turn (within : Within o room s) (h : Fin nxTxqCnt)
    (flag : (s.hw.txqs t).inHwqList = true) (active : (s.hw.txqs t).active = true) :
    Within o room (s.turn h t) := by
  have marks : Steady s { s with
      hw.broken := s.hw.broken ||
        decide (((s.hw.txqs t).skbToPush (s.hw.hwqs h).credits).1 ≤ 0) } :=
    Steady.of_hw (Hw.Stays.of_txqs rfl)
  have ends : ∀ s' : PowerSave n,
      Steady s' (s'.endTurn h t ((s.hw.txqs t).skbToPush (s.hw.hwqs h).credits).2) :=
    fun s' => Steady.of_hw (Hw.Stays.endTurn h _)
  obtain ⟨pushed, opened⟩ := (within.steady marks).pushSkbs
    (marks.opened (within.opened flag active))
    ((s.hw.txqs t).skbToPush (s.hw.hwqs h).credits).1.toNat
  exact (pushed.steady (ends _)).endService ((ends _).opened opened)

theorem Within.hwqProcessFrom (within : Within o room s) (h : Fin nxTxqCnt) (list : List (Fin n)) :
    Within o room (PowerSave.hwqProcessFrom h list s) := by
  induction list generalizing s with
  | nil => exact within
  | cons t rest induction =>
      rw [PowerSave.hwqProcessFrom]
      split_ifs with ready
      · exact within
      · exact induction (within.turn h ready.1 ready.2.1)
      · exact induction (within.steady (Steady.of_hw (Hw.Stays.of_txqs rfl)))

theorem Within.hwqProcess (within : Within o room s) (h : Fin nxTxqCnt) :
    Within o room (s.hwqProcess h) := by
  have marks : Steady s
      { s with hw := s.hw.setHwq h { s.hw.hwqs h with needProcessing := false } } :=
    Steady.of_hw (Hw.Stays.of_txqs rfl)
  exact (within.steady marks).hwqProcessFrom h _

theorem Within.hwqProcessAll (within : Within o room s) : Within o room s.hwqProcessAll := by
  rw [PowerSave.hwqProcessAll]
  generalize (List.finRange nxTxqCnt).reverse = hwqs
  induction hwqs generalizing s with
  | nil => exact within
  | cons h hwqs induction =>
      refine induction ?_
      change Within o room (if (s.hw.hwqs h).needProcessing = true then s.hwqProcess h else s)
      split_ifs
      · exact within.hwqProcess h
      · exact within

theorem Within.addToHwList (within : Within o room s) : Within o room (s.addToHwList t) := by
  rw [PowerSave.addToHwList]
  split_ifs with stopped
  · exact within
  · have listed := within.steady (Steady.of_hw (Hw.Stays.enlist (not_not.mp stopped)))
    exact listed.hwqProcess _
  · exact within.steady (Steady.of_hw (Hw.Stays.enlist (not_not.mp stopped)))

/-- A txq that is not stopped for power save any more has something left. -/
theorem Within.unstop (within : Within o room s) {reason : Finset Stop}
    (opened : .staPs ∈ reason → s.Open t) : Within o room (s.unstop t reason) := by
  have running : (s.hw.txqs t).inHwqList = true → (s.hw.txqs t).stops \ reason = ∅ := by
    intro flag
    rw [within.running t flag]
    exact Finset.empty_sdiff reason
  by_cases power : .staPs ∈ reason
  · refine ⟨within.tids, within.active, within.ended, ?_, ?_, fun active id closed => ?_,
      within.inside, fun multicast => ?_, within.none⟩
    · exact Hw.forall_setTxq (P := fun _ q => q.inHwqList = true → q.stops = ∅) running
        within.running
    · exact Hw.forall_setTxq
        (P := fun u q => u ∈ s.tids → s.finished q.psId = false → 0 ≤ q.pushLimit) (within.limit t)
        within.limit
    · have held := within.held active id closed
      refine ⟨held.rest, held.most, held.count, fun none => ?_⟩
      refine Hw.forall_setTxq
        (P := fun u q => u ∈ s.tids → q.active = true → q.psId = id → .staPs ∈ q.stops)
        (fun member _ own => ?_) (held.closed none)
      have own : s.psId t = id := own
      rw [← own] at none closed
      exact absurd (opened power ⟨active, member⟩ closed) (none.symm ▸ lt_irrefl _)
    · exact Hw.forall_setTxq (P := fun u q => u ∈ s.tids → q.legacyPs = true)
        (within.legacy multicast t) (within.legacy multicast)
  · refine within.steady (Steady.of_hw (Hw.Stays.setTxq ⟨id, rfl, fun stopped => ?_, id, ?_⟩))
    · exact Finset.mem_sdiff.mpr ⟨stopped, power⟩
    · exact fun _ => running

theorem Within.start (within : Within o room s) {reason : Finset Stop}
    (opened : .staPs ∈ reason → s.Open t) : Within o room (s.start t reason) := by
  rw [PowerSave.start]
  split_ifs
  · exact (within.unstop opened).addToHwList
  · exact within

/-! ## Frames and queues that come and go -/

theorem staPs_notMem_full : .staPs ∉ ({.full} : Finset Stop) := by
  decide

theorem staPs_notMem_dismantleAmsdu : .staPs ∉ ({.dismantleAmsdu} : Finset Stop) := by
  decide

theorem Within.startFull (within : Within o room s) : Within o room (s.start t {.full}) :=
  within.start fun power => absurd power staPs_notMem_full

theorem Within.settle (within : Within o room s) : Within o room (s.settle t) := by
  rw [PowerSave.settle]
  split_ifs
  · exact within.steady (Steady.of_hw (Hw.Stays.stop _))
  · exact within.startFull

theorem Within.setQueue (within : Within o room s) (queue : Queue) :
    Within o room { s with hw := s.hw.setQueue t queue } :=
  within.steady (Steady.of_hw (Hw.Stays.setQueue _))

theorem Within.setCredits (within : Within o room s) (credits : Int) :
    Within o room { s with hw := s.hw.setCredits t credits } :=
  within.steady (Steady.of_hw (Hw.Stays.setCredits _))

theorem Within.queueSkb (within : Within o room s) (a : Arrival) :
    Within o room (s.queueSkb t a) := by
  rw [PowerSave.queueSkb]
  split_ifs
  · exact ((within.steady Steady.countQueued).setQueue _).addToHwList
  · exact within

theorem Within.txRetry (within : Within o room s) (i credits : Nat) :
    Within o room (s.txRetry t i credits) := by
  have queued := ((within.steady (Steady.countQueued (t := t))).setQueue (t := t)
    (((s.countQueued t).hw.txqs t).queue.retry i)).addToHwList (t := t)
  rw [PowerSave.txRetry]
  split_ifs
  · exact (queued.setCredits _).startFull
  · exact queued.setCredits _

theorem Within.txConfirm (within : Within o room s) (i credits : Nat) :
    Within o room (s.txConfirm t i credits) := by
  have done := within.setQueue (t := t) ((s.hw.txqs t).queue.confirm i)
  rw [PowerSave.txConfirm]
  split_ifs
  · exact (done.setCredits _).settle
  · exact done

theorem Within.txCfm (within : Within o room s) (i : Nat) (again : Bool) (credits : Nat) :
    Within o room (s.txCfm t i again credits) := by
  have counted : ∀ h, Within o room { s with hw := s.hw.confirmAny t h } :=
    fun h => within.steady (Steady.of_hw (Hw.Stays.confirmAny h))
  rw [PowerSave.txCfm]
  split
  · exact within
  · simp only
    split_ifs
    · exact (counted _).txRetry _ _
    · exact (counted _).txRetry _ _
    · exact (counted _).txConfirm _ _
    · exact (counted _).txConfirm _ _
    · exact within

theorem Within.creditUpdate (within : Within o room s) (update : Int) :
    Within o room (s.creditUpdate t update) := by
  have updated : Within o room (s.updateCredits t update) := by
    rw [updateCredits]
    split_ifs
    · exact (within.setCredits _).settle
    · exact within
  rw [PowerSave.creditUpdate]
  split_ifs
  · exact updated.setQueue _
  · exact updated

/-- A frame that is dropped is taken from what is left, when there is something. -/
theorem Within.countDropped (within : Within o room s) : Within o room (s.countDropped t) := by
  rw [PowerSave.countDropped]
  split_ifs with dozing
  · have counted := within.steady (Steady.countGone (s := s) dozing.2)
    simp only
    by_cases granted : (s.countGone t).spCnt (s.psId t) ≠ 0
    · have spent : Within o room ((s.countGone t).spend (s.psId t) 1) := by
        refine counted.spend (fun active closed => ?_) fun _ => Int.one_nonneg
        have held := counted.held active (s.psId t) closed
        refine lt_of_le_of_ne held.rest fun none => granted ?_
        rw [held.count, ← none]
        rfl
      rw [if_pos granted]
      refine spent.steady (Steady.of_hw (Hw.Stays.setTxq ⟨id, rfl, id, fun limit => ?_, id⟩))
      simp only
      split_ifs
      · omega
      · exact le_rfl
    · rw [if_neg granted]
      exact counted
  · exact within

theorem Within.iterate {change : PowerSave n → PowerSave n}
    (each : ∀ s, Within o room s → Within o room (change s)) (count : Nat)
    (within : Within o room s) : Within o room (change^[count] s) := by
  induction count generalizing s with
  | zero => exact within
  | succ count induction => exact induction (each s within)

theorem Within.dropOldTraffic (within : Within o room s) (now timeout : Nat) :
    Within o room (s.dropOldTraffic t now timeout) := by
  rw [PowerSave.dropOldTraffic]
  split_ifs
  · have counted := Within.iterate (fun s within => within.countDropped (t := t))
      ((s.hw.txqs t).queue.skList.length -
        ((s.hw.txqs t).queue.dropOld now timeout).skList.length) within
    exact counted.steady (Steady.of_hw (Hw.Stays.dropOldTraffic now timeout))
  · exact within

theorem Within.amsduUpdateLen (within : Within o room s) (amsduLen : Nat) (alloc : Nat → Bool) :
    Within o room (s.amsduUpdateLen t amsduLen alloc) := by
  rw [PowerSave.amsduUpdateLen]
  by_cases whole : (s.hw.txqs t).queue.amsduLen ≤ amsduLen ∨ (s.hw.txqs t).sta = false
  · rw [if_pos whole]
    refine within.steady (Steady.of_hw ?_)
    rw [Hw.amsduUpdateLen]
    split_ifs with short host
    · exact Hw.Stays.setQueue _
    · exact Hw.Stays.setQueue _
    · exact absurd whole (not_or.mpr ⟨short, host⟩)
  · rw [if_neg whole]
    have stopped : Within o room (s.stop t {.dismantleAmsdu}) :=
      within.steady (Steady.of_hw (Hw.Stays.stop _))
    have counted := Within.iterate (fun s within => within.steady (Steady.countQueued (t := t)))
      ((((s.stop t {.dismantleAmsdu}).hw.txqs t).queue.dismantle amsduLen alloc).skList.length -
        ((s.stop t {.dismantleAmsdu}).hw.txqs t).queue.skList.length) stopped
    exact (counted.setQueue _).start fun power => absurd power staPs_notMem_dismantleAmsdu

/-- A txq that comes into use is stopped, when nothing is left for it. -/
theorem Within.initTxq (within : Within o room s) {status : Finset Stop} (hwq : Fin nxTxqCnt)
    {sta legacyPs : Bool}
    (legacy : s.multicast = true → t ∈ s.tids → legacyPs = true)
    (closed : s.active = true → t ∈ s.tids →
      s.left (if legacyPs then .legacy else .uapsd) = 0 → .staPs ∈ status) :
    Within o room { s with hw := s.hw.initTxq t status hwq sta legacyPs } where
  tids := within.tids
  active := within.active
  ended := within.ended
  running := Hw.forall_setTxq (P := fun _ q => q.inHwqList = true → q.stops = ∅)
    (fun flag => absurd flag Bool.false_ne_true) within.running
  limit := Hw.forall_setTxq (P := fun u q => u ∈ s.tids → s.finished q.psId = false →
    0 ≤ q.pushLimit)
    (fun _ _ => le_rfl) within.limit
  held active id finished := by
    have held := within.held active id finished
    refine ⟨held.rest, held.most, held.count, fun none u => ?_⟩
    by_cases same : u = t
    · subst same
      rw [psId, Hw.initTxq, Hw.setTxq_self]
      intro member _ own
      refine closed active member ?_
      change (if legacyPs then PsId.legacy else .uapsd) = id at own
      rw [own]
      exact none
    · rw [psId, Hw.initTxq, Hw.setTxq_of_ne _ _ same]
      exact held.closed none u
  inside := within.inside
  legacy multicast := Hw.forall_setTxq (P := fun u q => u ∈ s.tids → q.legacyPs = true)
    (legacy multicast) (within.legacy multicast)
  none := within.none

/-- The limits of the other txqs are not looked at. -/
theorem Within.setLimit (within : Within o room s) (foreign : t ∉ s.tids) (limit : Int) :
    Within o room { s with hw := s.hw.setTxq t { s.hw.txqs t with pushLimit := limit } } :=
  { within with
    running := Hw.forall_setTxq (P := fun _ q => q.inHwqList = true → q.stops = ∅)
      (within.running t) within.running
    limit := Hw.forall_setTxq
      (P := fun u q => u ∈ s.tids → s.finished q.psId = false → 0 ≤ q.pushLimit)
      (fun member => absurd member foreign) within.limit
    held := fun active id finished => by
      have held := within.held active id finished
      refine ⟨held.rest, held.most, held.count, fun none => ?_⟩
      exact Hw.forall_setTxq
        (P := fun u q => u ∈ s.tids → q.active = true → q.psId = id → Stop.staPs ∈ q.stops)
        (held.closed none t) (held.closed none)
    legacy := fun multicast => Hw.forall_setTxq (P := fun u q => u ∈ s.tids → q.legacyPs = true)
      (within.legacy multicast t) (within.legacy multicast) }

/-! ## Grants -/

/-- What has still to be granted of a request. -/
def pending (id : PsId) (count : Nat) : PsId → Nat := Function.update (fun _ => 0) id count

theorem Within.trans {p : PowerSave n} {room' : PsId → Nat} (first : Within o room p)
    (second : Within p room' s) : Within o room' s where
  tids := second.tids.trans first.tids
  active := second.active.trans first.active
  ended id finished := second.ended id (first.ended id finished)
  running := second.running
  limit := second.limit
  held := second.held
  inside := second.inside
  legacy := second.legacy
  none := second.none

/-- A step starts from where it is. -/
theorem Within.here (within : Within o room s) : Within s room s where
  tids := rfl
  active := rfl
  ended _ finished := finished
  running := within.running
  limit := within.limit
  held := within.held
  inside := within.inside
  legacy := within.legacy
  none := within.none

theorem Within.mono {room' : PsId → Nat} (within : Within o room s)
    (less : ∀ id, s.finished id = false → room' id ≤ room id) : Within o room' s :=
  { within with
    held := fun active id closed => by
      have held := within.held active id closed
      have fewer := less id closed
      have most := held.most
      exact ⟨held.rest, by omega, held.count, held.closed⟩ }

theorem give_finished {id : PsId} {count : Int} (closed : (s.give id t count).finished id = false) :
    s.finished id = false ∧ 0 ≤ count := by
  have read : (s.give id t count).finished id = (s.finished id || decide (count < 0)) :=
    Function.update_self _ _ _
  rw [read, Bool.or_eq_false_iff, decide_eq_false_iff_not, Int.not_lt] at closed
  exact closed

theorem give_finished_of_ne {id other : PsId} (ne : other ≠ id) (count : Int) :
    (s.give id t count).finished other = s.finished other :=
  Function.update_of_ne ne _ _

theorem give_ended (id other : PsId) (count : Int) (ended : s.finished other = true) :
    (s.give id t count).finished other = true := by
  by_cases own : other = id
  · subst own
    have read : (s.give other t count).finished other = (s.finished other || decide (count < 0)) :=
      Function.update_self _ _ _
    rw [read, ended]
    rfl
  · rw [give_finished_of_ne own]
    exact ended

/-- The txqs that were stopped still are. -/
theorem give_closed {id other : PsId} {count : Int}
    (closed : ∀ u ∈ s.tids, (s.hw.txqs u).active = true → s.psId u = other →
      .staPs ∈ (s.hw.txqs u).stops) :
    ∀ u ∈ (s.give id t count).tids, ((s.give id t count).hw.txqs u).active = true →
      (s.give id t count).psId u = other → .staPs ∈ ((s.give id t count).hw.txqs u).stops :=
  Hw.forall_setTxq
    (P := fun u q => u ∈ s.tids → q.active = true → q.psId = other → Stop.staPs ∈ q.stops)
    (closed t) closed

/-- A share is part of what has still to be granted. -/
theorem Within.give {id : PsId} {count : Int} {before after : Nat}
    (within : Within o (pending id before) s) (own : t ∈ s.tids → s.psId t = id)
    (fits : 0 ≤ count → count + after ≤ before) :
    Within o (pending id after) (s.give id t count) where
  tids := within.tids
  active := within.active
  ended other finished := give_ended id other count (within.ended other finished)
  running := Hw.forall_setTxq (P := fun _ q => q.inHwqList = true → q.stops = ∅)
    (within.running t) within.running
  limit := by
    refine Hw.forall_setTxq
      (P := fun u q => u ∈ s.tids → (s.give id t count).finished q.psId = false → 0 ≤ q.pushLimit)
      (fun member closed => ?_) fun u member closed => within.limit u member ?_
    · change (s.give id t count).finished (s.psId t) = false at closed
      rw [own member] at closed
      exact (give_finished closed).2
    · refine Bool.eq_false_of_not_eq_true fun ended => ?_
      exact absurd (closed.symm.trans (give_ended id _ count ended)) Bool.false_ne_true
  held active other closed := by
    by_cases same : other = id
    · subst same
      obtain ⟨open_before, nonneg⟩ := give_finished closed
      have held := within.held active other open_before
      have most := held.most
      have least := held.rest
      have share := fits nonneg
      have left : (s.give other t count).left other = s.left other + count :=
        Function.update_self _ _ _
      have spCnt : (s.give other t count).spCnt other =
          s.spCnt other + BitVec.ofInt 16 count := Function.update_self _ _ _
      rw [pending, Function.update_self] at most
      refine ⟨?_, ?_, ?_, fun none => give_closed (held.closed (by omega))⟩
      · omega
      · rw [pending, Function.update_self]
        omega
      · rw [spCnt, left, held.count, ← BitVec.ofInt_add]
    · rw [give_finished_of_ne same] at closed
      have held := within.held active other closed
      have most := held.most
      have left : (s.give id t count).left other = s.left other := Function.update_of_ne same _ _
      have spCnt : (s.give id t count).spCnt other = s.spCnt other :=
        Function.update_of_ne same _ _
      rw [pending, Function.update_of_ne same] at most
      refine ⟨?_, ?_, ?_, fun none => give_closed (held.closed (left.symm.trans none))⟩
      · rw [left]
        exact held.rest
      · rw [pending, Function.update_of_ne same, left]
        exact most
      · rw [spCnt, left]
        exact held.count
  inside out := by
    obtain ⟨other, finished⟩ := within.inside out
    exact ⟨other, give_ended id other count finished⟩
  legacy multicast := Hw.forall_setTxq (P := fun u q => u ∈ s.tids → q.legacyPs = true)
    (within.legacy multicast t) (within.legacy multicast)
  none := within.none

/-- A txq with a share is open. -/
theorem Within.grant {id : PsId} {count : Int} {before : Nat}
    (within : Within o (pending id before) s) (after : Nat) (own : t ∈ s.tids → s.psId t = id)
    (fits : 0 ≤ count → count + after ≤ before) (some : s.finished id = false → count ≠ 0) :
    Within o (pending id after) (s.grant id t count) ∧
      ((s.grant id t count).finished id = false → s.finished id = false ∧ 0 ≤ count) := by
  have given := within.give own fits
  have started : Within (s.give id t count) (pending id after) (s.grant id t count) := by
    refine given.here.start fun _ dozing closed => ?_
    have same : (s.give id t count).psId t = id := by
      rw [← own dozing.2, psId, psId, PowerSave.give, Hw.setTxq_self]
      rfl
    rw [same] at closed ⊢
    obtain ⟨open_before, nonneg⟩ := give_finished closed
    have left : (s.give id t count).left id = s.left id + count := Function.update_self _ _ _
    have least := (within.held dozing.1 id open_before).rest
    have more := some open_before
    omega
  refine ⟨given.trans started, fun closed => give_finished (t := t) ?_⟩
  refine Bool.eq_false_of_not_eq_true fun ended => ?_
  exact absurd (closed.symm.trans (started.ended id ended)) Bool.false_ne_true

/-- What is granted is taken from the request. -/
theorem toNat_sub_ofInt {pktReq : BitVec 16} {count : Int} (nonneg : 0 ≤ count)
    (less : count < pktReq.toNat) :
    ((pktReq - BitVec.ofInt 16 count).toNat : Int) = pktReq.toNat - count := by
  obtain ⟨k, rfl⟩ := Int.eq_ofNat_of_zero_le nonneg
  have most := pktReq.isLt
  have small : (BitVec.ofNat 16 k).toNat = k := by
    rw [BitVec.toNat_ofNat]
    exact Nat.mod_eq_of_lt (by omega)
  rw [BitVec.ofInt_natCast, BitVec.toNat_sub_of_le (by rw [BitVec.le_def, small]; omega), small]
  omega

/-- The shares of a request do not exceed it. -/
theorem Within.dispatch {id : PsId} (list : List (Fin n)) {pktReq : BitVec 16}
    (within : Within o (pending id pktReq.toNat) s) (some : s.finished id = false →
      0 < pktReq.toNat) :
    ∃ rest, Within o (pending id rest) (PowerSave.dispatch id list pktReq s) := by
  induction list generalizing s pktReq with
  | nil => exact ⟨_, within⟩
  | cons t rest induction =>
      rw [PowerSave.dispatch]
      split_ifs with foreign empty less
      · exact induction within some
      · exact induction within some
      · generalize min ((s.hw.txqs t).queue.skList.length : Int) (s.hw.txqs t).credits = txqLen
          at empty less
        obtain ⟨granted, closed⟩ := within.grant (pktReq - BitVec.ofInt 16 txqLen).toNat
          (fun _ => not_not.mp foreign)
          (fun nonneg => by rw [toNat_sub_ofInt nonneg less]; omega) fun _ => empty
        refine induction granted fun still => ?_
        have left := toNat_sub_ofInt (closed still).2 less
        omega
      · refine ⟨0, (within.grant 0 (fun _ => not_not.mp foreign) (fun _ => ?_) fun closed => ?_).1⟩
        · exact le_rfl
        · have positive := some closed
          omega

/-- A request is granted when nothing is left of what was granted before. -/
theorem Within.reserve (within : Within o (fun _ => 0) s) {id : PsId} (none : s.spCnt id = 0)
    (pktReq : BitVec 16) : Within o (pending id pktReq.toNat) s :=
  { within with
    held := fun active other closed => by
      have held := within.held active other closed
      refine ⟨held.rest, ?_, held.count, held.closed⟩
      have most := held.most
      have least := held.rest
      by_cases own : other = id
      · subst own
        have count : (BitVec.ofInt 16 (s.left other)).toNat = 0 := by
          rw [← held.count, none]
          rfl
        rw [BitVec.toNat_ofInt] at count
        have bound := pktReq.isLt
        rw [pending, Function.update_self]
        omega
      · rw [pending, Function.update_of_ne own]
        exact most }

theorem Within.clearLimits (within : Within o room s) (list : List (Fin n)) :
    Within o room (list.foldl clearLimit s) := by
  induction list generalizing s with
  | nil => exact within
  | cons t rest induction =>
      have cleared : Steady s (s.clearLimit t) :=
        Steady.of_hw (Hw.Stays.setTxq ⟨id, rfl, id, fun _ => le_rfl, id⟩)
      exact induction (within.steady cleared)

theorem Within.forfeit (within : Within o room s) : Within o room s.forfeit := by
  have finished : s.forfeit.finished .uapsd = (s.finished .uapsd || decide (0 < s.left .uapsd)) :=
    Function.update_self PsId.uapsd _ s.finished
  have others : ∀ id, id ≠ .uapsd → s.forfeit.finished id = s.finished id ∧
      s.forfeit.left id = s.left id ∧ s.forfeit.spCnt id = s.spCnt id :=
    fun id other => ⟨Function.update_of_ne other _ _, Function.update_of_ne other _ _,
      Function.update_of_ne other _ _⟩
  have ended : ∀ id, s.finished id = true → s.forfeit.finished id = true := by
    intro id ended
    by_cases own : id = .uapsd
    · subst own
      rw [finished, ended]
      rfl
    · rw [(others id own).1]
      exact ended
  have still : ∀ id, s.forfeit.finished id = false → s.finished id = false := by
    intro id closed
    refine Bool.eq_false_of_not_eq_true fun before => ?_
    exact absurd (closed.symm.trans (ended id before)) Bool.false_ne_true
  refine ⟨within.tids, within.active, fun id before => ended id (within.ended id before),
    within.running, fun u member closed => within.limit u member (still _ closed),
    fun active id closed => ?_, fun out => ?_, within.legacy, within.none⟩
  · have held := within.held active id (still id closed)
    have most := held.most
    by_cases own : id = .uapsd
    · subst own
      rw [finished, Bool.or_eq_false_iff, decide_eq_false_iff_not] at closed
      have rest := held.rest
      have none : s.left .uapsd = 0 := by
        omega
      have left : s.forfeit.left .uapsd = 0 := Function.update_self PsId.uapsd _ s.left
      have spCnt : s.forfeit.spCnt .uapsd = 0 := Function.update_self PsId.uapsd _ s.spCnt
      refine ⟨left.ge, ?_, ?_, fun _ => held.closed none⟩
      · rw [left]
        omega
      · rw [spCnt, left]
        rfl
    · obtain ⟨-, left, spCnt⟩ := others id own
      refine ⟨left.symm ▸ held.rest, left.symm ▸ most, ?_, fun none => ?_⟩
      · rw [spCnt, left]
        exact held.count
      · exact held.closed (left.symm.trans none)
  · obtain ⟨id, before⟩ := within.inside out
    exact ⟨id, ended id before⟩

/-- A request for what is available asks for something. -/
theorem adapted_pos (pktReq : BitVec 16) {ready : Int} (some : 0 < ready) (most : ready < 2 ^ 16) :
    0 < (if pktReq = 0 ∨ ready < pktReq.toNat then BitVec.ofInt 16 ready else pktReq).toNat := by
  split_ifs with adapt
  · rw [BitVec.toNat_ofInt]
    omega
  · refine Nat.pos_of_ne_zero fun none => adapt (.inl ?_)
    exact BitVec.eq_of_toNat_eq none

theorem Within.trafficReq (within : Within o (fun _ => 0) s) (pktReq : BitVec 16) (id : PsId) :
    Within o (fun _ => 0) (s.trafficReq pktReq id) := by
  have done : ∀ {rest s'}, Within o (pending id rest) s' → Within o (fun _ => 0) s' :=
    fun within => within.mono fun _ _ => Nat.zero_le _
  rw [PowerSave.trafficReq]
  by_cases asleep : s.active = false
  · rw [if_pos asleep]
    exact within
  rw [if_neg asleep]
  by_cases interrupted : pktReq = psSpInterrupted ∧ id = .uapsd
  · rw [if_pos interrupted]
    exact within.forfeit.clearLimits s.tids
  rw [if_neg interrupted]
  by_cases busy : s.spCnt id ≠ 0 ∨ ((s.pktReady id).toNat : Int) - (s.spCnt id).toNat ≤ 0
  · rw [if_pos busy]
    exact within
  rw [if_neg busy]
  obtain ⟨free, some⟩ := not_or.mp busy
  have positive := adapted_pos pktReq (Int.not_le.mp some)
    (by have most := (s.pktReady id).isLt; omega)
  generalize (if pktReq = 0 ∨ ((s.pktReady id).toNat : Int) - (s.spCnt id).toNat < pktReq.toNat then
    BitVec.ofInt 16 ((s.pktReady id).toNat - (s.spCnt id).toNat) else pktReq) = request
    at positive ⊢
  have reserved := within.reserve (not_not.mp free) request
  split_ifs with multicast
  · cases tids : s.tids with
    | nil => exact within
    | cons t rest =>
        have member : t ∈ s.tids := by
          rw [tids]
          exact List.mem_cons_self
        have own : s.psId t = .legacy := if_pos (within.legacy multicast t member)
        have legacy : id = .legacy := by
          cases id with
          | legacy => rfl
          | uapsd =>
              rw [within.none multicast] at some
              exact absurd (Int.sub_nonpos_of_le (Int.natCast_nonneg _)) some
        simp only
        split_ifs with short
        · exact within
        · refine done (reserved.grant 0 (fun _ => own.trans legacy.symm) (fun _ => ?_)
            fun _ => ?_).1
          · omega
          · omega
  · obtain ⟨rest, granted⟩ := reserved.dispatch s.prio fun _ => positive
    exact done granted

/-! ## Power save -/

theorem Steady.foldl {change : PowerSave n → Fin n → PowerSave n}
    (each : ∀ s t, t ∈ s.tids → Steady s (change s t)) (list : List (Fin n))
    (members : ∀ t ∈ list, t ∈ s.tids) : Steady s (list.foldl change s) := by
  induction list generalizing s with
  | nil => exact refl s
  | cons t rest induction =>
      have first := each s t (members t List.mem_cons_self)
      refine first.trans (induction fun u member => ?_)
      rw [first.tids]
      exact members u (List.mem_cons_of_mem t member)

theorem Steady.tellReady (available : Bool) : Steady s (s.tellReady available) := by
  have calls : ∀ s : PowerSave n, ∀ id, Steady s (s.tell id available) := fun s id =>
    ⟨rfl, rfl, rfl, rfl, rfl, rfl, rfl, fun _ _ => rfl, Hw.Stays.refl _⟩
  rw [PowerSave.tellReady]
  split_ifs
  · exact (calls s _).trans (calls _ _)
  · exact calls s _
  · exact calls s _
  · exact refl s

theorem Steady.stops (list : List (Fin n)) (members : ∀ t ∈ list, t ∈ s.tids) :
    Steady s (list.foldl (fun s t => s.stop t {.staPs}) s) :=
  foldl (fun _ _ _ => of_hw (Hw.Stays.stop _)) list members

/-- The txqs of the station that are in use are stopped, all of them. -/
theorem foldl_stop_stops (list : List (Fin n)) (members : ∀ t ∈ list, t ∈ s.tids) {u : Fin n}
    (member : u ∈ list)
    (active : ((list.foldl (fun s t => s.stop t {.staPs}) s).hw.txqs u).active = true) :
    .staPs ∈ ((list.foldl (fun s t => s.stop t {.staPs}) s).hw.txqs u).stops := by
  induction list generalizing s with
  | nil => cases member
  | cons t rest induction =>
      have later : ∀ t ∈ rest, t ∈ s.tids := fun t inside =>
        members t (List.mem_cons_of_mem _ inside)
      obtain rfl | after := List.mem_cons.mp member
      · have stays := Steady.stops (s := s.stop u {.staPs}) rest later
        have used : (s.hw.txqs u).active = true :=
          (Hw.Stays.stop (s := s.hw) (t := u) _ u).active ((stays.hw u).active active)
        refine (stays.hw u).stopped ?_
        rw [PowerSave.stop, Hw.stop, if_pos used, Hw.delFromHwList_txqs, Function.update_self,
          Hw.setTxq_self]
        exact Finset.mem_union_right _ (Finset.mem_singleton_self _)
      · exact induction later after active

/-- A station that enters power save has no service period. -/
theorem Within.enable (within : Within o room s) (closed : ∀ id, s.finished id = false) :
    Within s.enable (fun _ => 0) s.enable := by
  have stays := Steady.stops (s := s.entered) s.tids fun t member => member
  have stops := fun u => foldl_stop_stops (s := s.entered) (u := u) s.tids fun t member => member
  rw [PowerSave.enable]
  generalize s.tids.foldl (fun s t => s.stop t {.staPs}) s.entered = stopped at stays stops ⊢
  have base : Within { stopped with pktReady := fun _ => 0 } (fun _ => 0)
      { stopped with pktReady := fun _ => 0 } := by
    refine ⟨rfl, rfl, fun _ finished => finished, fun u => ?_,
      fun u member _ => ?_, fun _ id _ => ?_,
      fun out => ?_, fun multicast u member => ?_, fun _ => rfl⟩
    · exact (stays.hw u).running (within.running u)
    · have inside : u ∈ s.tids := stays.tids ▸ member
      exact (stays.hw u).limit (within.limit u inside (closed _))
    · have none : stopped.left id = 0 := congrFun stays.left id
      have zero : stopped.spCnt id = 0 := congrFun stays.spCnt id
      refine ⟨none.ge, ?_, zero.trans (none ▸ rfl), fun _ u member active _ => ?_⟩
      · change stopped.left id + 0 < 2 ^ 16
        rw [none]
        decide
      · exact stops u (stays.tids ▸ member) active
    · obtain ⟨id, finished⟩ := within.inside (stays.outside.symm.trans out)
      exact absurd ((closed id).symm.trans finished) Bool.false_ne_true
    · have inside : u ∈ s.tids := stays.tids ▸ member
      exact (stays.legacyPs u).trans
        (within.legacy (stays.multicast.symm.trans multicast) u inside)
  have counts : Steady { stopped with pktReady := fun _ => 0 }
      (s.tids.foldl addReady { stopped with pktReady := fun _ => 0 }) :=
    Steady.foldl (fun s t member => Steady.setReady member _) s.tids fun t member =>
      stays.tids.symm ▸ member
  exact (base.steady (counts.trans (Steady.tellReady true))).here

/-- Out of power save every txq may be started. -/
theorem Within.starts (within : Within o room s) (awake : o.active = false) (list : List (Fin n)) :
    Within o room (list.foldl (fun s t => s.start t {.staPs}) s) := by
  induction list generalizing s with
  | nil => exact within
  | cons t rest induction =>
      refine induction (within.start fun _ dozing => ?_)
      exact absurd ((within.active.trans awake).symm.trans dozing.1) Bool.false_ne_true

theorem Within.disable (within : Within o room s) : Within s.disable room s.disable := by
  have awoken : Within s.awoken room s.awoken :=
    ⟨rfl, rfl, fun _ finished => finished, within.running, within.limit,
      fun active => absurd active Bool.false_ne_true, within.inside, within.legacy, within.none⟩
  exact (((awoken.clearLimits s.tids).starts rfl s.tids).steady (Steady.tellReady false)).here

end

/-! ## Runs -/

/-- A service period of the station comes to its end, or is granted less than nothing. -/
def Ends (s : PowerSave n) (e : PsEvent n) : Prop :=
  ∃ s', s.step e = .ok s' ∧ ∃ id, s'.finished id = true

/-- A txq of a station in power save comes into use without being stopped. -/
def Exposes (s : PowerSave n) : PsEvent n → Prop
  | .hw (.init t status _ _ legacyPs) =>
      s.active = true ∧ t ∈ s.tids ∧ s.left (if legacyPs then .legacy else .uapsd) = 0 ∧
        .staPs ∉ status
  | _ => False

/-- No service period has come to its end yet. -/
structure Serving (s : PowerSave n) : Prop where
  within : Within s (fun _ => 0) s
  lasting : ∀ id, s.finished id = false

theorem Serving.contained {s : PowerSave n} (serving : s.Serving) : s.Contained where
  inside := by
    refine Bool.eq_false_of_not_eq_true fun out => ?_
    obtain ⟨id, finished⟩ := serving.within.inside out
    exact absurd ((serving.lasting id).symm.trans finished) Bool.false_ne_true
  rest active id := by
    have held := serving.within.held active id (serving.lasting id)
    have most := held.most
    have rest := held.rest
    refine ⟨rest, ?_⟩
    rw [held.count, BitVec.toNat_ofInt]
    omega
  closed active id := (serving.within.held active id (serving.lasting id)).closed

section

variable {s s' : PowerSave n}

theorem Within.stepHw {e : Hw.Event n} (within : Within s (fun _ => 0) s)
    (covered : ¬s.Exposes (.hw e)) (stepped : s.stepHw e = .ok s') : Within s (fun _ => 0) s' := by
  cases e with
  | init t status hwq sta legacyPs =>
      rw [PowerSave.stepHw] at stepped
      split_ifs at stepped with used reserved
      cases stepped
      refine within.initTxq hwq (fun multicast member => ?_) fun active member none => ?_
      · refine Bool.eq_true_of_not_eq_false fun other => ?_
        exact reserved ⟨member, .inr ⟨multicast, other⟩⟩
      · by_contra running
        exact covered ⟨active, member, none, running⟩
  | deinit t =>
      cases stepped
      exact within.steady (Steady.of_hw Hw.Stays.deinit)
  | queueSkb t a =>
      cases stepped
      exact within.queueSkb a
  | addSubframe t a maxnb room =>
      cases stepped
      exact within.steady (Steady.of_hw (Hw.Stays.addSubframe a maxnb room))
  | hwqProcessAll =>
      cases stepped
      exact within.hwqProcessAll
  | start t reason =>
      rw [PowerSave.stepHw] at stepped
      split_ifs at stepped with reserved
      cases stepped
      exact within.start fun power dozing => absurd ⟨dozing.2, power⟩ reserved
  | stop t reason =>
      rw [PowerSave.stepHw] at stepped
      split_ifs at stepped
      cases stepped
      exact within.steady (Steady.of_hw (Hw.Stays.stop reason))
  | pushLimit t limit =>
      rw [PowerSave.stepHw] at stepped
      split_ifs at stepped with foreign
      cases stepped
      exact within.setLimit foreign limit
  | txCfm t i again credits =>
      cases stepped
      exact within.txCfm i again credits
  | creditUpdate t update =>
      cases stepped
      exact within.creditUpdate update
  | amsduUpdateLen t amsduLen alloc =>
      cases stepped
      exact within.amsduUpdateLen amsduLen alloc
  | dropOldTraffic t now timeout =>
      cases stepped
      exact within.dropOldTraffic now timeout
  | fate fate =>
      cases stepped
      exact within.steady (Steady.of_hw (Hw.Stays.of_txqs rfl))

theorem Serving.step {e : PsEvent n} (serving : s.Serving) (lasts : ¬s.Ends e)
    (covered : ¬s.Exposes e) (stepped : s.step e = .ok s') : s'.Serving where
  within := by
    cases e with
    | hw e => exact (serving.within.stepHw covered stepped).here
    | enable =>
        cases stepped
        exact serving.within.enable serving.lasting
    | disable =>
        cases stepped
        exact serving.within.disable
    | trafficReq pktReq id =>
        cases stepped
        exact (serving.within.trafficReq pktReq id).here
    | tdls active =>
        cases stepped
        refine (serving.within.steady ?_).here
        exact ⟨rfl, rfl, rfl, rfl, rfl, rfl, rfl, fun _ _ => rfl, Hw.Stays.refl _⟩
  lasting id := Bool.eq_false_of_not_eq_true fun finished => lasts ⟨s', stepped, id, finished⟩

theorem init_serving (bus : Bus) (data : Fin n → Bool) (tids : List (Fin n)) (distinct : tids.Nodup)
    (multicast mesh : Bool) : (init bus data tids distinct multicast mesh).Serving where
  within := by
    refine ⟨rfl, rfl, fun _ finished => finished, fun t flag => ?_,
      fun _ _ _ => le_rfl, fun active => ?_,
      fun out => ?_, fun _ _ _ => rfl, fun _ => rfl⟩
    · exact absurd flag Bool.false_ne_true
    · exact absurd active Bool.false_ne_true
    · exact absurd out Bool.false_ne_true
  lasting _ := rfl

end

/-- A run in which no service period of the station comes to its end keeps it contained: what is
pushed in power save is what was granted, and without a grant the txqs stay stopped. -/
theorem contained_of_lasting (bus : Bus) (data : Fin n → Bool) (tids : List (Fin n))
    (distinct : tids.Nodup) (multicast mesh : Bool) (events : List (PsEvent n))
    (lasts : Run.Guarded step (fun s e => ¬s.Ends e ∧ ¬s.Exposes e) events
      (init bus data tids distinct multicast mesh)) :
    Run.Throughout step Contained events (init bus data tids distinct multicast mesh) := by
  have preserved : ∀ (s : PowerSave n) e s', s.Serving → True → ¬s.Ends e ∧ ¬s.Exposes e →
      s.step e = .ok s' → s'.Serving :=
    fun s e s' serving _ lasts stepped => serving.step lasts.1 lasts.2 stepped
  exact lasts.throughout preserved (fun s serving => serving.contained) (fun _ _ => trivial)
    (init_serving bus data tids distinct multicast mesh)

/-- Two txqs have left one credit to their hardware queue; in a service period for two frames of the
third one frame is pushed. -/
def halfServed : List (PsEvent nxNbTxq) :=
  [.hw (.init 0 ∅ 4 true false), .hw (.init 1 ∅ 4 true false), .hw (.init 2 ∅ 4 true false),
    .hw (.queueSkb 0 ⟨0, 100, 1, false⟩), .hw (.queueSkb 0 ⟨0, 100, 1, false⟩),
    .hw (.queueSkb 0 ⟨0, 100, 1, false⟩), .hw (.queueSkb 0 ⟨0, 100, 1, false⟩),
    .hw (.queueSkb 1 ⟨0, 100, 1, false⟩), .hw (.queueSkb 1 ⟨0, 100, 1, false⟩),
    .hw (.queueSkb 1 ⟨0, 100, 1, false⟩), .hw .hwqProcessAll,
    .hw (.queueSkb 2 ⟨0, 100, 1, false⟩), .hw (.queueSkb 2 ⟨0, 100, 1, false⟩), .enable,
    .trafficReq 2 .uapsd, .hw .hwqProcessAll]

/-- A test for the steps of a run. -/
def lasts (s : PowerSave n) (e : PsEvent n) : Bool :=
  (s.step e).toOption.all (fun s' => !(s'.finished .legacy || s'.finished .uapsd)) &&
    match e with
    | .hw (.init _ _ _ _ _) => !s.active
    | _ => true

theorem lasts_sound (s : PowerSave n) (e : PsEvent n) (passed : s.lasts e = true) :
    ¬s.Ends e ∧ ¬s.Exposes e := by
  obtain ⟨ends, awake⟩ := Bool.and_eq_true_iff.mp passed
  refine ⟨?_, fun exposes => ?_⟩
  · rintro ⟨s', stepped, id, finished⟩
    rw [stepped] at ends
    have neither : (s'.finished .legacy || s'.finished .uapsd) = false :=
        (Bool.not_eq_true' _).mp ends
    obtain ⟨legacy, uapsd⟩ := Bool.or_eq_false_iff.mp neither
    cases id with
    | legacy => exact absurd (legacy.symm.trans finished) Bool.false_ne_true
    | uapsd => exact absurd (uapsd.symm.trans finished) Bool.false_ne_true
  · cases e with
    | hw e =>
        cases e with
        | init t status hwq sta legacyPs =>
            exact absurd (((Bool.not_eq_true' _).mp awake).symm.trans exposes.1) Bool.false_ne_true
        | _ => exact exposes
    | _ => exact exposes

theorem halfServed_contained :
    Run.Throughout step Contained halfServed
      (init .sdio (fun _ => true) firstTids firstTids_nodup false false) :=
  contained_of_lasting .sdio (fun _ => true) firstTids firstTids_nodup false false halfServed
    (Run.guarded_of_check lasts_sound (by decide +kernel))

/-- The only frame of a service period is pushed, and another frame is queued. -/
def usedUp : List (PsEvent nxNbTxq) :=
  [.hw (.init 0 ∅ 1 true true), .enable, .hw (.queueSkb 0 ⟨0, 100, 1, false⟩),
    .trafficReq 0 .legacy, .hw .hwqProcessAll, .hw (.queueSkb 0 ⟨0, 100, 1, false⟩),
    .hw .hwqProcessAll]

/-- It is pushed in power save without having been granted, and the counter wraps. -/
theorem usedUp_outside :
    ∃ s, Run.run step usedUp
        (init .sdio (fun _ => true) firstTids firstTids_nodup false false) = .ok s ∧
      s.active = true ∧ s.outside = true ∧ s.spCnt .legacy = 65535 ∧
        .staPs ∉ (s.hw.txqs 0).stops ∧ ¬s.Contained := by
  have outcome : (Run.run step usedUp
      (init .sdio (fun _ => true) firstTids firstTids_nodup false false)).toOption.map (fun s =>
        (s.active, s.outside, s.spCnt .legacy, decide (.staPs ∈ (s.hw.txqs 0).stops))) =
          some (true, true, 65535, false) := by
    decide +kernel
  obtain ⟨s, ran, ends⟩ := Run.ends_of_toOption outcome
  simp only [Prod.mk.injEq, decide_eq_false_iff_not] at ends
  obtain ⟨active, outside, spCnt, running⟩ := ends
  refine ⟨s, ran, active, outside, spCnt, running, fun contained => ?_⟩
  exact absurd (contained.inside.symm.trans outside) Bool.false_ne_true

end PowerSave

end AmlW2.Tx
