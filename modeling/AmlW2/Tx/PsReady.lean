import AmlW2.Tx.PowerSave
import AmlW2.Tx.Schedule
import Mathlib.Algebra.Order.BigOperators.Group.List
import Mathlib.Algebra.Order.Group.Nat

/-!
# The counters of the frames of a station in power save

What `pkt_ready` counts for a `ps_id` are the frames in the txqs of the station that are of this
`ps_id`, and the firmware was told last whether there are any: each operation takes from the
counter, or adds to it, what it takes from a queue or adds to it.  Of a TDLS peer the firmware is
never told that there are none.
-/

namespace AmlW2.Tx

/-! ## Numbers of frames in a queue -/

theorem splitAfter_length (skb : Nat) (frames : List Frame) :
    (splitAfter skb frames).1.length + (splitAfter skb frames).2.length = frames.length := by
  induction frames with
  | nil => rfl
  | cons f frames induction =>
      rw [splitAfter]
      split_ifs
      · exact Nat.add_comm _ _
      · simp only [List.length_cons]
        omega

namespace Queue

variable {q : Queue}

theorem halves_length (q : Queue) : q.halves.1.length + q.halves.2.length = q.skList.length := by
  rw [halves]
  cases q.lastRetrySkb with
  | none => exact Nat.zero_add _
  | some skb => exact splitAfter_length skb _

theorem retry_length {i : Nat} {f : Frame} (found : q.flight[i]? = some f)
    (sent : f.fate = some .sent) : (q.retry i).skList.length = q.skList.length + 1 := by
  have parts := halves_length { q with flight := q.flight.eraseIdx i }
  rw [retry, found]
  simp only [if_pos sent, queueRetry, List.length_append, List.length_cons]
  change _ = q.skList.length at parts
  omega

theorem addSubframe_length (a : Arrival) (maxnb : Nat) (room : Bool) :
    (q.addSubframe a maxnb room).skList.length = q.skList.length := by
  have modified : ∀ skb change, (q.modify skb change).skList.length = q.skList.length :=
    fun skb change => List.length_map _
  rw [addSubframe]
  by_cases unused : q.data = false ∨ q.amsduLen = 0 ∨ maxnb < 2
  · rw [if_pos unused]
  rw [if_neg unused]
  cases q.amsdu with
  | some skb =>
      simp only
      split
      · rfl
      · split
        · rfl
        · exact modified _ _
  | none =>
      simp only
      split
      · rfl
      · split
        · rfl
        · split
          · exact modified _ _
          · exact modified _ _

theorem flushLoop_skList (fuel : Nat) (enough : q.skList.length ≤ fuel) :
    (flushLoop fuel q).skList = [] := by
  induction fuel generalizing q with
  | zero => exact List.length_eq_zero_iff.mp (Nat.le_zero.mp enough)
  | succ fuel induction =>
      rw [flushLoop]
      cases first : q.skList with
      | nil => exact first
      | cons f rest =>
          refine induction ?_
          rw [dropSkb_head first]
          rw [first, List.length_cons] at enough
          exact Nat.le_of_succ_le_succ enough

theorem flush_skList : q.flush.skList = [] := flushLoop_skList _ le_rfl

theorem dropOldFrom_length (now timeout : Nat) (frames : List Frame) (again : Nat) :
    (dropOldFrom now timeout frames again q).skList.length ≤ q.skList.length := by
  induction frames generalizing q again with
  | nil => cases again <;> exact le_rfl
  | cons f rest induction =>
      cases again with
      | succ again => exact induction again
      | zero =>
          rw [dropOldFrom]
          split_ifs
          · exact (induction 0).trans (List.eraseP_sublist.length_le)
          · exact le_rfl

theorem dropOld_length (now timeout : Nat) :
    (q.dropOld now timeout).skList.length ≤ q.skList.length :=
  dropOldFrom_length now timeout _ _

theorem dropRetriesFrom_length (fuel packet : Nat) :
    (dropRetriesFrom fuel packet q).skList.length ≤ q.skList.length := by
  induction fuel generalizing q packet with
  | zero => exact le_rfl
  | succ fuel induction =>
      rw [dropRetriesFrom]
      split_ifs
      · cases first : q.skList with
        | nil =>
            have fewer := induction (q := q) (packet + 1)
            rw [first] at fewer
            exact fewer
        | cons f rest =>
            have left := dropSkb_head first true
            have fewer := induction (q := q.dropSkb f true) (packet + 1)
            rw [left] at fewer
            exact fewer.trans (Nat.le_succ _)
      · exact le_rfl

theorem dropRetries_length : q.dropRetries.skList.length ≤ q.skList.length :=
  dropRetriesFrom_length _ _

/-- A frame that is dismantled leaves one at least. -/
theorem dismantle_length (amsduLen : Nat) (alloc : Nat → Bool) :
    q.skList.length ≤ (q.dismantle amsduLen alloc).skList.length := by
  have more : ∀ frames : List Frame, frames.length ≤ (frames.flatMap fun f =>
      if f.hdrs ≠ [] ∧ amsduLen < f.amsduLen then f.dismantle alloc else [f]).length := by
    intro frames
    induction frames with
    | nil => exact le_rfl
    | cons f frames induction =>
        rw [List.flatMap_cons, List.length_append, List.length_cons]
        have some : 1 ≤ (if f.hdrs ≠ [] ∧ amsduLen < f.amsduLen then f.dismantle alloc
            else [f]).length := by
          split_ifs
          · exact Nat.succ_le_succ (Nat.zero_le _)
          · exact le_rfl
        omega
  have parts := halves_length q
  have later := more q.halves.2
  rw [dismantle, List.length_append]
  omega

theorem dismantle_nil (none : q.skList.length = 0) (amsduLen : Nat) (alloc : Nat → Bool) :
    (q.dismantle amsduLen alloc).skList.length = 0 := by
  have parts := halves_length q
  have front : q.halves.1 = [] := List.length_eq_zero_iff.mp (by omega)
  have back : q.halves.2 = [] := List.length_eq_zero_iff.mp (by omega)
  rw [dismantle, front, back]
  rfl

end Queue

/-! ## Queues that hold as many frames -/

/-- What the counters depend on. -/
def Txq.load (q : Txq) : Bool × Bool × Nat := (q.active, q.legacyPs, q.queue.skList.length)

namespace Hw

variable {n : Nat}

def backlog (s : Hw n) (t : Fin n) : Nat := (s.txqs t).queue.skList.length

/-- The queues in use are the same, with as many frames. -/
def Holds (s s' : Hw n) : Prop := ∀ u, (s'.txqs u).load = (s.txqs u).load

namespace Holds

theorem refl (s : Hw n) : Holds s s := fun _ => rfl

theorem trans {s s' s'' : Hw n} (first : Holds s s') (second : Holds s' s'') : Holds s s'' :=
  fun u => (second u).trans (first u)

variable {s s' : Hw n} {t : Fin n}

theorem active (holds : Holds s s') (u : Fin n) : (s'.txqs u).active = (s.txqs u).active :=
  congrArg Prod.fst (holds u)

theorem legacyPs (holds : Holds s s') (u : Fin n) : (s'.txqs u).legacyPs = (s.txqs u).legacyPs :=
  congrArg (fun load => load.2.1) (holds u)

theorem backlog (holds : Holds s s') (u : Fin n) : s'.backlog u = s.backlog u :=
  congrArg (fun load => load.2.2) (holds u)

theorem setTxq {q : Txq} (same : q.load = (s.txqs t).load) : Holds s (s.setTxq t q) :=
  forall_setTxq (P := fun u q => q.load = (s.txqs u).load) same fun _ => rfl

theorem setHwq (h : Fin nxTxqCnt) (x : Hwq n) : Holds s (s.setHwq h x) := fun _ => rfl

theorem delFromHwList : Holds s (s.delFromHwList t) := by
  rw [Hw.delFromHwList]
  split_ifs
  · exact (setTxq (by rfl)).trans (setHwq _ _)
  · exact refl s

theorem stop (reason : Finset Stop) : Holds s (s.stop t reason) := by
  rw [Hw.stop]
  split_ifs
  · exact (setTxq (by rfl)).trans delFromHwList
  · exact refl s

theorem enlist : Holds s (s.enlist t) := by
  rw [Hw.enlist]
  split_ifs
  · exact (setTxq (by rfl)).trans (setHwq _ _)
  · exact refl s

/-- The frame itself was taken out before. -/
theorem txPush (f : Frame) : Holds s (s.txPush t f) := by
  have charged : Holds s (s.charge t f) := setTxq (by rfl)
  have stopped : Holds s ((s.charge t f).stopFull t) := by
    rw [Hw.stopFull]
    split_ifs
    · exact charged.trans (stop _)
    · exact charged
  intro u
  rw [txPush_txqs]
  exact stopped u

theorem endTurn (h : Fin nxTxqCnt) (done : Bool) : Holds s (s.endTurn h t done) := by
  rw [Hw.endTurn]
  split_ifs
  · exact delFromHwList.trans (setTxq (by rfl))
  · exact (setTxq (by rfl)).trans (setHwq _ _)
  · exact refl s

theorem endService : Holds s (s.endService t) := by
  rw [Hw.endService]
  split_ifs
  · exact setTxq (by rfl)
  · exact refl s

theorem confirmAny (h : Fin nxTxqCnt) : Holds s (s.confirmAny t h) := by
  have freed : Holds s (s.uncount t) := setTxq (by rfl)
  rw [Hw.confirmAny]
  split_ifs
  · exact freed
  · exact freed.trans (setHwq _ _)

end Holds

end Hw

namespace PowerSave

variable {n : Nat}

/-! ## What the counters tell -/

/-- The frames of a txq, when it is of the `ps_id`. -/
def share (s : PowerSave n) (id : PsId) (t : Fin n) : Nat :=
  if s.psId t = id then s.hw.backlog t else 0

/-- The frames queued in the txqs of the station that are of a `ps_id`. -/
def queued (s : PowerSave n) (id : PsId) : Nat := (s.tids.map (s.share id)).sum

/-- The counters stand for so many frames, and the last call of `aml_set_traffic_status` was made to
tell whether there are any. -/
def Tells (s : PowerSave n) (frames : PsId → Nat) : Prop :=
  ∀ id, (s.pktReady id).toNat = frames id ∧ s.available id = decide (frames id ≠ 0)

/-- While the station is in power save, `pkt_ready` is the number of the frames queued, and the
firmware was told last whether there are any. -/
def Accurate (s : PowerSave n) : Prop :=
  s.active = true →
    ∀ id, (s.pktReady id).toNat = s.queued id ∧ s.told id = decide (s.queued id ≠ 0)

/-- The last call of `aml_set_traffic_status` for a `ps_id` was made to tell that there is nothing,
and what was sent is one more traffic indication: it went through the branch of a TDLS peer, which
does not look at `available`. -/
def Unheard (s : PowerSave n) (id : PsId) : Prop := s.available id = false ∧ s.told id = true

/-- From one state to another `aml_set_traffic_status` was called for a `ps_id` or not, by a station
that was a TDLS peer throughout or not at all. -/
structure Calls (s s' : PowerSave n) : Prop where
  tdls : s'.tdls = s.tdls
  told : ∀ id, s'.told id = s.told id ∧ s'.available id = s.available id ∨
    s'.told id = (s.tdls || s'.available id)

namespace Calls

variable {s s' s'' : PowerSave n}

theorem of_eq (tdls : s'.tdls = s.tdls) (told : s'.told = s.told)
    (available : s'.available = s.available) : Calls s s' :=
  ⟨tdls, fun id => .inl ⟨congrFun told id, congrFun available id⟩⟩

theorem refl (s : PowerSave n) : Calls s s := of_eq rfl rfl rfl

theorem setReady (s : PowerSave n) (id : PsId) (ready : BitVec 16) :
    Calls s (s.setReady id ready) := of_eq rfl rfl rfl

theorem entered (s : PowerSave n) : Calls s s.entered := of_eq rfl rfl rfl

theorem awoken (s : PowerSave n) : Calls s s.awoken := of_eq rfl rfl rfl

theorem trans (first : Calls s s') (second : Calls s' s'') : Calls s s'' where
  tdls := second.tdls.trans first.tdls
  told id := by
    obtain ⟨told, available⟩ | called := second.told id
    · rw [told, available]
      exact first.told id
    · rw [called, first.tdls]
      exact .inr rfl

theorem tell (s : PowerSave n) (id : PsId) (available : Bool) : Calls s (s.tell id available) := by
  refine ⟨rfl, fun other => ?_⟩
  by_cases same : other = id
  · subst same
    simp only [PowerSave.tell, Function.update_self, or_true]
  · simp only [PowerSave.tell, Function.update_of_ne same, and_self, true_or]

/-- That there is traffic has been told whenever the last call was made to tell it. -/
theorem heard (calls : Calls s s') (id : PsId)
    (before : s.available id = true → s.told id = true) (some : s'.available id = true) :
    s'.told id = true := by
  obtain ⟨told, available⟩ | called := calls.told id
  · exact told.trans (before (available.symm.trans some))
  · rw [called, some, Bool.or_true]

/-- Of a station that is no TDLS peer all that it is called to tell is told. -/
theorem honest (calls : Calls s s') (peer : s.tdls = false) (told : s.told = s.available) :
    s'.told = s'.available := by
  funext id
  obtain ⟨same, available⟩ | called := calls.told id
  · rw [same, available, told]
  · rw [called, peer, Bool.false_or]

end Calls

/-! ## Counters that count -/

section

variable {s : PowerSave n} {t : Fin n} {frames : PsId → Nat}

theorem backlog_le_queued (member : t ∈ s.tids) : s.hw.backlog t ≤ s.queued (s.psId t) := by
  have own : s.share (s.psId t) t ∈ s.tids.map (s.share (s.psId t)) := List.mem_map_of_mem member
  rw [share, if_pos rfl] at own
  exact List.le_sum_of_mem own

/-- The counters of one `ps_id` are set. -/
theorem Tells.set {s' : PowerSave n} {id : PsId} {count : Nat} (tells : s.Tells frames)
    (ready : (s'.pktReady id).toNat = count) (available : s'.available id = decide (count ≠ 0))
    (others : ∀ other, other ≠ id →
      s'.pktReady other = s.pktReady other ∧ s'.available other = s.available other) :
    s'.Tells (Function.update frames id count) := by
  intro other
  by_cases same : other = id
  · subst same
    rw [Function.update_self]
    exact ⟨ready, available⟩
  · obtain ⟨sameReady, sameTold⟩ := others other same
    rw [Function.update_of_ne same, sameReady, sameTold]
    exact tells other

theorem setReady_self (id : PsId) (ready : BitVec 16) : (s.setReady id ready).pktReady id = ready :=
  Function.update_self _ _ _

theorem setReady_of_ne {id other : PsId} (ready : BitVec 16) (ne : other ≠ id) :
    (s.setReady id ready).pktReady other = s.pktReady other :=
  Function.update_of_ne ne _ _

/-- A frame more. -/
theorem Tells.countQueued (tells : s.Tells frames) (dozing : s.Dozing t)
    (room : frames (s.psId t) + 1 < 2 ^ 16) :
    (s.countQueued t).Tells
      (Function.update frames (s.psId t) (frames (s.psId t) + 1)) := by
  obtain ⟨ready, available⟩ := tells (s.psId t)
  have counted : (s.pktReady (s.psId t) + 1).toNat = frames (s.psId t) + 1 := by
    rw [BitVec.toNat_add, ready]
    exact Nat.mod_eq_of_lt room
  rw [PowerSave.countQueued, if_pos dozing]
  simp only [setReady_self]
  split_ifs with first
  · refine tells.set ?_ (Function.update_self _ _ _) fun other ne =>
      ⟨setReady_of_ne _ ne, Function.update_of_ne ne _ _⟩
    exact (congrArg BitVec.toNat (setReady_self _ _)).trans counted
  · refine tells.set ?_ (available.trans ?_) fun other ne => ⟨setReady_of_ne _ ne, rfl⟩
    · exact (congrArg BitVec.toNat (setReady_self _ _)).trans counted
    · have some : frames (s.psId t) ≠ 0 := by
        intro none
        rw [none] at counted
        exact first (BitVec.eq_of_toNat_eq counted)
      rw [decide_eq_true some, decide_eq_true (Nat.succ_ne_zero _)]

/-- A frame less. -/
theorem Tells.countGone (tells : s.Tells frames) (some : 0 < frames (s.psId t)) :
    (s.countGone t).Tells (Function.update frames (s.psId t) (frames (s.psId t) - 1)) := by
  obtain ⟨ready, available⟩ := tells (s.psId t)
  have counted : (s.pktReady (s.psId t) - 1).toNat = frames (s.psId t) - 1 := by
    have least : (1 : BitVec 16) ≤ s.pktReady (s.psId t) := by
      rw [BitVec.le_def, ready]
      exact some
    rw [BitVec.toNat_sub_of_le least, ready]
    rfl
  rw [PowerSave.countGone]
  simp only [setReady_self]
  split_ifs with last
  · have none : frames (s.psId t) - 1 = 0 := counted.symm.trans (congrArg BitVec.toNat last)
    refine tells.set ?_ ?_ fun other ne => ⟨setReady_of_ne _ ne, Function.update_of_ne ne _ _⟩
    · exact (congrArg BitVec.toNat (setReady_self _ _)).trans counted
    · rw [none]
      exact Function.update_self _ _ _
  · have more : frames (s.psId t) - 1 ≠ 0 :=
      fun none => last (BitVec.eq_of_toNat_eq (counted.trans none))
    refine tells.set ?_ (available.trans ?_) fun other ne => ⟨setReady_of_ne _ ne, rfl⟩
    · exact (congrArg BitVec.toNat (setReady_self _ _)).trans counted
    · rw [decide_eq_true more, decide_eq_true some.ne']

end

/-! ## Frames that come and go -/

theorem share_eq {s s' : PowerSave n} {t : Fin n} (id : PsId)
    (same : (s'.hw.txqs t).load = (s.hw.txqs t).load) : s'.share id t = s.share id t := by
  have legacyPs : (s'.hw.txqs t).legacyPs = (s.hw.txqs t).legacyPs :=
    congrArg (fun load => load.2.1) same
  have backlog : s'.hw.backlog t = s.hw.backlog t := congrArg (fun load => load.2.2) same
  rw [share, share, psId, psId, Txq.psId, Txq.psId, legacyPs, backlog]

theorem queued_congr {s s' : PowerSave n} (tids : s'.tids = s.tids) (holds : Hw.Holds s.hw s'.hw) :
    s'.queued = s.queued := by
  funext id
  rw [queued, queued, tids]
  exact congrArg List.sum (List.map_congr_left fun t _ => share_eq id (holds t))

/-- The station is the same, with as many frames in its queues. -/
structure Alike (s s' : PowerSave n) : Prop where
  tids : s'.tids = s.tids
  active : s'.active = s.active
  holds : Hw.Holds s.hw s'.hw
  calls : Calls s s'

/-- So are its counters. -/
structure Same (s s' : PowerSave n) : Prop extends Alike s s' where
  ready : s'.pktReady = s.pktReady
  available : s'.available = s.available

namespace Alike

theorem refl (s : PowerSave n) : Alike s s := ⟨rfl, rfl, Hw.Holds.refl s.hw, Calls.refl s⟩

theorem trans {s s' s'' : PowerSave n} (first : Alike s s') (second : Alike s' s'') :
    Alike s s'' where
  tids := second.tids.trans first.tids
  active := second.active.trans first.active
  holds := first.holds.trans second.holds
  calls := first.calls.trans second.calls

variable {s s' : PowerSave n} {t : Fin n}

theorem foldl {α : Type*} {change : PowerSave n → α → PowerSave n}
    (each : ∀ s a, Alike s (change s a)) (list : List α) : Alike s (list.foldl change s) := by
  induction list generalizing s with
  | nil => exact refl s
  | cons a rest induction => exact (each s a).trans induction

theorem psId (alike : Alike s s') (u : Fin n) : s'.psId u = s.psId u := by
  rw [PowerSave.psId, PowerSave.psId, Txq.psId, Txq.psId, alike.holds.legacyPs]

theorem dozing (alike : Alike s s') (u : Fin n) : s'.Dozing u ↔ s.Dozing u := by
  rw [Dozing, Dozing, alike.active, alike.tids]

theorem queued (alike : Alike s s') : s'.queued = s.queued :=
  queued_congr alike.tids alike.holds

theorem countQueued : Alike s (s.countQueued t) := by
  rw [PowerSave.countQueued]
  simp only
  split_ifs
  · exact ⟨rfl, rfl, Hw.Holds.refl _, (Calls.setReady s _ _).trans (.tell _ _ _)⟩
  · exact ⟨rfl, rfl, Hw.Holds.refl _, Calls.of_eq rfl rfl rfl⟩
  · exact refl s

theorem countGone : Alike s (s.countGone t) := by
  rw [PowerSave.countGone]
  split_ifs
  · exact ⟨rfl, rfl, Hw.Holds.refl _, (Calls.setReady s _ _).trans (.tell _ _ _)⟩
  · exact ⟨rfl, rfl, Hw.Holds.refl _, Calls.of_eq rfl rfl rfl⟩

theorem countDropped : Alike s (s.countDropped t) := by
  have gone : Alike s (s.countGone t) := countGone
  rw [PowerSave.countDropped]
  simp only
  split_ifs
  · exact gone.trans ⟨rfl, rfl, Hw.Holds.setTxq (by rfl), Calls.of_eq rfl rfl rfl⟩
  · exact gone.trans ⟨rfl, rfl, Hw.Holds.setTxq (by rfl), Calls.of_eq rfl rfl rfl⟩
  · exact gone
  · exact refl s

theorem txPush (f : Frame) : Alike s (s.txPush t f) := by
  have gone : Alike s (s.countGone t) := countGone
  have flagged : Alike s (s.setMoreDataFlag t f) := by
    rw [PowerSave.setMoreDataFlag]
    split_ifs
    · exact gone.trans ⟨rfl, rfl, Hw.Holds.refl _, Calls.of_eq rfl rfl rfl⟩
    · exact refl s
  exact ⟨flagged.tids, flagged.active, Hw.Holds.txPush f,
    flagged.calls.trans (.of_eq rfl rfl rfl)⟩

end Alike

namespace Same

theorem refl (s : PowerSave n) : Same s s := ⟨Alike.refl s, rfl, rfl⟩

theorem trans {s s' s'' : PowerSave n} (first : Same s s') (second : Same s' s'') : Same s s'' where
  toAlike := first.toAlike.trans second.toAlike
  ready := second.ready.trans first.ready
  available := second.available.trans first.available

variable {s s' : PowerSave n} {t : Fin n}

theorem hw {hw : Hw n} (holds : Hw.Holds s.hw hw) : Same s { s with hw } :=
  ⟨⟨rfl, rfl, holds, Calls.of_eq rfl rfl rfl⟩, rfl, rfl⟩

theorem foldl {change : PowerSave n → Fin n → PowerSave n} (each : ∀ s t, Same s (change s t))
    (list : List (Fin n)) : Same s (list.foldl change s) := by
  induction list generalizing s with
  | nil => exact refl s
  | cons t rest induction => exact (each s t).trans induction

/-- Frames of another station are pushed, or in no power save. -/
theorem foldl_txPush (awake : ¬s.Dozing t) (frames : List Frame) :
    Same s (frames.foldl (fun s f => s.txPush t f) s) := by
  induction frames generalizing s with
  | nil => exact refl s
  | cons f frames induction =>
      have pushed : Same s (s.txPush t f) := by
        rw [PowerSave.txPush, setMoreDataFlag, if_neg awake]
        exact hw (Hw.Holds.txPush f)
      exact pushed.trans (induction (mt (pushed.dozing t).mp awake))

end Same

/-- Only the frames of one queue become others, or whether it is in use. -/
structure Alters (s s' : PowerSave n) (t : Fin n) : Prop where
  tids : s'.tids = s.tids
  active : s'.active = s.active
  legacyPs : (s'.hw.txqs t).legacyPs = (s.hw.txqs t).legacyPs
  others : ∀ u, u ≠ t → (s'.hw.txqs u).load = (s.hw.txqs u).load
  calls : Calls s s'

section

variable {s s' : PowerSave n} {t : Fin n}

/-- A sum in which the summand of one element changes. -/
theorem sum_map_add_eq {ι : Type*} [DecidableEq ι] {l : List ι} {f g : ι → Nat} {i : ι}
    (distinct : l.Nodup) (member : i ∈ l) (others : ∀ j, j ≠ i → g j = f j) :
    (l.map g).sum + f i = (l.map f).sum + g i := by
  have rest : (l.erase i).map g = (l.erase i).map f :=
    List.map_congr_left fun j left => others j (distinct.mem_erase_iff.mp left).1
  rw [← List.sum_map_erase f member, ← List.sum_map_erase g member, rest]
  omega

/-- The frames queued when one queue changes. -/
theorem queued_add (tids : s'.tids = s.tids)
    (others : ∀ u, u ≠ t → (s'.hw.txqs u).load = (s.hw.txqs u).load) (member : t ∈ s.tids)
    (id : PsId) : s'.queued id + s.share id t = s.queued id + s'.share id t := by
  rw [queued, queued, tids]
  exact sum_map_add_eq s.distinct member fun u other => share_eq id (others u other)

/-- A queue of another station does not matter. -/
theorem queued_of_notMem (tids : s'.tids = s.tids)
    (others : ∀ u, u ≠ t → (s'.hw.txqs u).load = (s.hw.txqs u).load) (foreign : t ∉ s.tids) :
    s'.queued = s.queued := by
  funext id
  rw [queued, queued, tids]
  refine congrArg List.sum (List.map_congr_left fun u inside => share_eq id (others u ?_))
  rintro rfl
  exact foreign inside

theorem Alters.psId (alters : Alters s s' t) : s'.psId t = s.psId t := by
  rw [PowerSave.psId, PowerSave.psId, Txq.psId, Txq.psId, alters.legacyPs]

/-- The frames queued when those of one queue of the station become others. -/
theorem Alters.queued (alters : Alters s s' t) (member : t ∈ s.tids) :
    s'.queued = Function.update s.queued (s.psId t)
      (s.queued (s.psId t) - s.hw.backlog t + s'.hw.backlog t) := by
  have least := backlog_le_queued member
  funext id
  have change := queued_add alters.tids alters.others member id
  rw [share, share, alters.psId] at change
  by_cases own : id = s.psId t
  · subst own
    rw [if_pos rfl, if_pos rfl] at change
    rw [Function.update_self]
    omega
  · rw [if_neg (Ne.symm own), if_neg (Ne.symm own)] at change
    rw [Function.update_of_ne own]
    exact change

/-- Frames are counted one after the other as gone. -/
theorem Tells.foldl_less {α : Type*} {change : PowerSave n → α → PowerSave n}
    (alike : ∀ s a, Alike s (change s a))
    (less : ∀ s a frames, s.Dozing t → s.Tells frames → 0 < frames (s.psId t) →
      (change s a).Tells (Function.update frames (s.psId t) (frames (s.psId t) - 1)))
    (list : List α) {frames : PsId → Nat} (tells : s.Tells frames) (dozing : s.Dozing t)
    (enough : list.length ≤ frames (s.psId t)) :
    (list.foldl change s).Tells
      (Function.update frames (s.psId t) (frames (s.psId t) - list.length)) := by
  induction list generalizing s frames with
  | nil =>
      rw [List.length_nil, Nat.sub_zero, Function.update_eq_self]
      exact tells
  | cons a rest induction =>
      rw [List.length_cons] at enough ⊢
      have first := less s a frames dozing tells (by omega)
      have id := (alike s a).psId t
      have left := induction first (((alike s a).dozing t).mpr dozing)
        (by rw [id, Function.update_self]; omega)
      rw [id, Function.update_self, Function.update_idem, Nat.sub_sub, Nat.add_comm 1] at left
      exact left

theorem Tells.txPush {frames : PsId → Nat} (tells : s.Tells frames) (dozing : s.Dozing t)
    (some : 0 < frames (s.psId t)) (f : Frame) :
    (s.txPush t f).Tells (Function.update frames (s.psId t) (frames (s.psId t) - 1)) := by
  have gone := tells.countGone some
  intro id
  rw [PowerSave.txPush, setMoreDataFlag, if_pos dozing]
  exact gone id

theorem Tells.countDropped {frames : PsId → Nat} (tells : s.Tells frames) (dozing : s.Dozing t)
    (some : 0 < frames (s.psId t)) :
    (s.countDropped t).Tells (Function.update frames (s.psId t) (frames (s.psId t) - 1)) := by
  have gone := tells.countGone some
  intro id
  rw [PowerSave.countDropped, if_pos dozing]
  simp only
  split_ifs
  · exact gone id
  · exact gone id
  · exact gone id

theorem Tells.countQueued_iterate {frames : PsId → Nat} (tells : s.Tells frames)
    (dozing : s.Dozing t) (count : Nat) (room : frames (s.psId t) + count < 2 ^ 16) :
    ((fun s : PowerSave n => s.countQueued t)^[count] s).Tells
      (Function.update frames (s.psId t) (frames (s.psId t) + count)) := by
  induction count generalizing s frames with
  | zero =>
      rw [Nat.add_zero, Function.update_eq_self]
      exact tells
  | succ count induction =>
      have alike : Alike s (s.countQueued t) := Alike.countQueued
      have first := tells.countQueued dozing (by omega)
      have more := induction first ((alike.dozing t).mpr dozing)
        (by rw [alike.psId, Function.update_self]; omega)
      rw [alike.psId, Function.update_self, Function.update_idem, Nat.add_assoc,
        Nat.add_comm 1] at more
      exact more

theorem Tells.countDropped_iterate {frames : PsId → Nat} (tells : s.Tells frames)
    (dozing : s.Dozing t) (count : Nat) (enough : count ≤ frames (s.psId t)) :
    ((fun s : PowerSave n => s.countDropped t)^[count] s).Tells
      (Function.update frames (s.psId t) (frames (s.psId t) - count)) := by
  have dropped : ((List.replicate count ()).foldl (fun s _ => s.countDropped t) s).Tells
      (Function.update frames (s.psId t)
        (frames (s.psId t) - (List.replicate count ()).length)) :=
    Tells.foldl_less (fun s _ => Alike.countDropped)
      (fun s _ frames dozing tells some => tells.countDropped dozing some) _ tells dozing
      (by rw [List.length_replicate]; exact enough)
  rw [List.foldl_const, List.length_replicate] at dropped
  exact dropped

/-- Frames of another station are not counted, nor those in no power save. -/
theorem countQueued_of_not (awake : ¬s.Dozing t) (count : Nat) :
    (fun s : PowerSave n => s.countQueued t)^[count] s = s := by
  refine Function.iterate_fixed ?_ count
  rw [countQueued, if_neg awake]

theorem countDropped_of_not (awake : ¬s.Dozing t) (count : Nat) :
    (fun s : PowerSave n => s.countDropped t)^[count] s = s := by
  refine Function.iterate_fixed ?_ count
  rw [countDropped, if_neg awake]

end

/-! ## The invariant -/

/-- Queues that are not in use are empty; in power save the counters stand for the frames queued,
and otherwise they are left as they are. -/
structure Kept (o s : PowerSave n) : Prop where
  tids : s.tids = o.tids
  active : s.active = o.active
  idle : ∀ t, (s.hw.txqs t).active = false → s.hw.backlog t = 0
  tells : s.active = true → s.Tells s.queued
  awake : s.active = false → s.pktReady = o.pktReady ∧ s.available = o.available
  calls : Calls o s

section

variable {o s s' : PowerSave n} {t : Fin n}

theorem Kept.same (kept : Kept o s) (same : Same s s') : Kept o s' where
  tids := same.tids.trans kept.tids
  active := same.active.trans kept.active
  idle u unused := by
    rw [same.holds.backlog]
    exact kept.idle u ((same.holds.active u).symm.trans unused)
  tells active := by
    intro id
    rw [same.ready, same.available, same.queued]
    exact kept.tells (same.active.symm.trans active) id
  awake inactive := by
    rw [same.ready, same.available]
    exact kept.awake (same.active.symm.trans inactive)
  calls := kept.calls.trans same.calls

/-- What the counters lose or get is what the queue does. -/
theorem Kept.alters (kept : Kept o s) (alters : Alters s s' t)
    (idle : (s'.hw.txqs t).active = false → s'.hw.backlog t = 0)
    (counted : s.Dozing t → s'.Tells (Function.update s.queued (s.psId t)
      (s.queued (s.psId t) - s.hw.backlog t + s'.hw.backlog t)))
    (uncounted : ¬s.Dozing t → s'.pktReady = s.pktReady ∧ s'.available = s.available) :
    Kept o s' where
  tids := alters.tids.trans kept.tids
  active := alters.active.trans kept.active
  idle u unused := by
    by_cases same : u = t
    · subst same
      exact idle unused
    · have other := alters.others u same
      have none := kept.idle u ((congrArg Prod.fst other).symm.trans unused)
      exact (congrArg (fun load => load.2.2) other).trans none
  tells active := by
    have before := alters.active.symm.trans active
    by_cases member : t ∈ s.tids
    · rw [alters.queued member]
      exact counted ⟨before, member⟩
    · obtain ⟨sameReady, sameTold⟩ := uncounted fun dozing => member dozing.2
      intro id
      rw [queued_of_notMem alters.tids alters.others member, sameReady, sameTold]
      exact kept.tells before id
  awake inactive := by
    have before := alters.active.symm.trans inactive
    obtain ⟨sameReady, sameTold⟩ := uncounted fun dozing =>
      absurd (before.symm.trans dozing.1) Bool.false_ne_true
    rw [sameReady, sameTold]
    exact kept.awake before
  calls := kept.calls.trans alters.calls

theorem Alters.setQueue (queue : Queue) : Alters s { s with hw := s.hw.setQueue t queue } t where
  tids := rfl
  active := rfl
  legacyPs := by
    rw [Hw.setQueue, Hw.setTxq_self]
  others u other := congrArg Txq.load (Hw.setTxq_of_ne s.hw _ other)
  calls := .of_eq rfl rfl rfl

theorem Alters.alike {s'' : PowerSave n} (alters : Alters s s' t) (alike : Alike s' s'') :
    Alters s s'' t where
  tids := alike.tids.trans alters.tids
  active := alike.active.trans alters.active
  legacyPs := (alike.holds.legacyPs t).trans alters.legacyPs
  others u other := (alike.holds u).trans (alters.others u other)
  calls := alters.calls.trans alike.calls

theorem setQueue_backlog (hw : Hw n) (t : Fin n) (queue : Queue) :
    (hw.setQueue t queue).backlog t = queue.skList.length :=
  congrArg (fun q : Txq => q.queue.skList.length) (Hw.setTxq_self _ _ _)

theorem setQueue_active (hw : Hw n) (t : Fin n) {queue : Queue} :
    ((hw.setQueue t queue).txqs t).active = (hw.txqs t).active := by
  rw [Hw.setQueue, Hw.setTxq_self]

/-- Frames are taken out and pushed. -/
theorem Kept.pushSkbs (kept : Kept o s) (count : Nat) :
    Kept o (s.pushSkbs t count) := by
  have alters : Alters s (s.takeOut t count) t := Alters.setQueue _
  have pushes : Alike (s.takeOut t count) (s.pushSkbs t count) :=
    Alike.foldl (fun s f => Alike.txPush f) _
  have left : (s.pushSkbs t count).hw.backlog t = s.hw.backlog t - count := by
    rw [pushes.holds.backlog, takeOut, setQueue_backlog]
    exact List.length_drop
  refine kept.alters (alters.alike pushes) ?_ ?_ ?_
  · intro unused
    have before : (s.hw.txqs t).active = false := by
      rw [← setQueue_active s.hw t, ← unused]
      exact (pushes.holds.active t).symm
    rw [left, kept.idle t before, Nat.zero_sub]
  · intro dozing
    have least := backlog_le_queued dozing.2
    have taken : ((s.hw.txqs t).queue.skList.take count).length = min count (s.hw.backlog t) :=
      List.length_take
    have before : (s.takeOut t count).Tells s.queued := kept.tells dozing.1
    have id : (s.takeOut t count).psId t = s.psId t := alters.psId
    have enough : ((s.hw.txqs t).queue.skList.take count).length ≤
        s.queued ((s.takeOut t count).psId t) := by
      rw [id, taken]
      omega
    have pushed : (s.pushSkbs t count).Tells (Function.update s.queued ((s.takeOut t count).psId t)
        (s.queued ((s.takeOut t count).psId t) -
          ((s.hw.txqs t).queue.skList.take count).length)) :=
      Tells.foldl_less (fun s f => Alike.txPush f)
        (fun s f frames dozing tells some => tells.txPush dozing some f) _ before dozing enough
    have rest : s.queued (s.psId t) - min count (s.hw.backlog t) =
        s.queued (s.psId t) - s.hw.backlog t + (s.hw.backlog t - count) := by
      omega
    rw [id, taken, rest, ← left] at pushed
    exact pushed
  · intro awake
    have still : ¬(s.takeOut t count).Dozing t := awake
    have same : Same (s.takeOut t count) (s.pushSkbs t count) := Same.foldl_txPush still _
    exact ⟨same.ready, same.available⟩

/-! ## Scheduling -/

theorem Same.stop (reason : Finset Stop) : Same s (s.stop t reason) := hw (Hw.Holds.stop reason)

theorem Same.spend (id : PsId) (count : Int) : Same s (s.spend id count) :=
  ⟨⟨rfl, rfl, Hw.Holds.refl _, Calls.of_eq rfl rfl rfl⟩, rfl, rfl⟩

theorem Same.endService : Same s (s.endService t) := by
  rw [PowerSave.endService]
  split_ifs
  · exact (spend _ _).trans (hw Hw.Holds.endService)
  · exact hw Hw.Holds.endService

theorem Kept.turn (kept : Kept o s) (h : Fin nxTxqCnt) (t : Fin n) :
    Kept o (s.turn h t) := by
  have marked : Kept o { s with
      hw.broken := s.hw.broken ||
        decide (((s.hw.txqs t).skbToPush (s.hw.hwqs h).credits).1 ≤ 0) } :=
    kept.same (Same.hw fun _ => rfl)
  have pushed := marked.pushSkbs (t := t) ((s.hw.txqs t).skbToPush (s.hw.hwqs h).credits).1.toNat
  exact (pushed.same (Same.hw (Hw.Holds.endTurn h _))).same Same.endService

theorem Kept.hwqProcessFrom (kept : Kept o s) (h : Fin nxTxqCnt) (list : List (Fin n)) :
    Kept o (PowerSave.hwqProcessFrom h list s) := by
  induction list generalizing s with
  | nil => exact kept
  | cons t rest induction =>
      rw [PowerSave.hwqProcessFrom]
      split_ifs
      · exact kept
      · exact induction (kept.turn h t)
      · exact induction (kept.same (Same.hw fun _ => rfl))

theorem Kept.hwqProcess (kept : Kept o s) (h : Fin nxTxqCnt) :
    Kept o (s.hwqProcess h) :=
  (kept.same (Same.hw (Hw.Holds.setHwq _ _))).hwqProcessFrom h _

theorem Kept.hwqProcessAll (kept : Kept o s) : Kept o s.hwqProcessAll := by
  rw [PowerSave.hwqProcessAll]
  generalize (List.finRange nxTxqCnt).reverse = hwqs
  induction hwqs generalizing s with
  | nil => exact kept
  | cons h hwqs induction =>
      refine induction ?_
      change Kept o (if (s.hw.hwqs h).needProcessing = true then s.hwqProcess h else s)
      split_ifs
      · exact kept.hwqProcess h
      · exact kept

theorem Kept.addToHwList (kept : Kept o s) : Kept o (s.addToHwList t) := by
  have listed := kept.same (Same.hw (Hw.Holds.enlist (t := t)))
  rw [PowerSave.addToHwList]
  split_ifs
  · exact kept
  · exact listed.hwqProcess _
  · exact listed

theorem Kept.start (kept : Kept o s) (reason : Finset Stop) :
    Kept o (s.start t reason) := by
  rw [PowerSave.start]
  split_ifs
  · exact (kept.same (Same.hw (Hw.Holds.setTxq (by rfl)))).addToHwList
  · exact kept

theorem Kept.settle (kept : Kept o s) : Kept o (s.settle t) := by
  rw [PowerSave.settle]
  split_ifs
  · exact kept.same (Same.stop _)
  · exact kept.start _

theorem Same.setCredits (credits : Int) : Same s { s with hw := s.hw.setCredits t credits } :=
  hw (Hw.Holds.setTxq (by rfl))

/-! ## Frames that come in -/

theorem Alike.iterate {change : PowerSave n → PowerSave n} (each : ∀ s, Alike s (change s))
    (count : Nat) : Alike s (change^[count] s) := by
  induction count generalizing s with
  | zero => exact refl s
  | succ count induction => exact (each s).trans induction

theorem Alike.alters {s'' : PowerSave n} (alike : Alike s s') (alters : Alters s' s'' t) :
    Alters s s'' t where
  tids := alters.tids.trans alike.tids
  active := alters.active.trans alike.active
  legacyPs := alters.legacyPs.trans (alike.holds.legacyPs t)
  others u other := (alters.others u other).trans (alike.holds u)
  calls := alike.calls.trans alters.calls

theorem countQueued_hw : (s.countQueued t).hw = s.hw := by
  rw [countQueued]
  simp only
  split_ifs
  · rfl
  · rfl
  · rfl

/-- Frames are put in a queue, and counted. -/
theorem Kept.more (kept : Kept o s) (count : Nat) {queue : Queue}
    (length : queue.skList.length = s.hw.backlog t + count)
    (idle : (s.hw.txqs t).active = false → queue.skList.length = 0)
    (room : s.Dozing t → s.queued (s.psId t) + count < 2 ^ 16) :
    Kept o
      { (fun s : PowerSave n => s.countQueued t)^[count] s with
        hw := ((fun s : PowerSave n => s.countQueued t)^[count] s).hw.setQueue t queue } := by
  have alike : Alike s ((fun s : PowerSave n => s.countQueued t)^[count] s) :=
    Alike.iterate (fun s => Alike.countQueued) count
  refine kept.alters (alike.alters (Alters.setQueue queue)) ?_ ?_ ?_
  · intro unused
    rw [setQueue_backlog]
    rw [setQueue_active, alike.holds.active] at unused
    exact idle unused
  · intro dozing
    have counted := (kept.tells dozing.1).countQueued_iterate dozing count (room dozing)
    have least := backlog_le_queued dozing.2
    have sum : s.queued (s.psId t) + count =
        s.queued (s.psId t) - s.hw.backlog t + queue.skList.length := by
      omega
    rw [setQueue_backlog, ← sum]
    exact counted
  · intro awake
    have same : Same s ((fun s : PowerSave n => s.countQueued t)^[count] s) := by
      rw [countQueued_of_not awake]
      exact Same.refl s
    exact ⟨same.ready, same.available⟩

/-- So is a frame. -/
theorem Kept.one (kept : Kept o s) {queue : Queue}
    (length : queue.skList.length = s.hw.backlog t + 1) (active : (s.hw.txqs t).active = true)
    (room : s.Dozing t → s.queued (s.psId t) + 1 < 2 ^ 16) :
    Kept o
      { s.countQueued t with hw := (s.countQueued t).hw.setQueue t queue } :=
  kept.more 1 length (fun unused => absurd (unused.symm.trans active) Bool.false_ne_true) room

theorem Kept.queueSkb (kept : Kept o s) (a : Arrival)
    (room : s.Dozing t → s.queued (s.psId t) + 1 < 2 ^ 16) : Kept o (s.queueSkb t a) := by
  rw [PowerSave.queueSkb]
  split_ifs with active
  · refine (kept.one ?_ active room).addToHwList
    rw [countQueued_hw]
    exact List.length_append
  · exact kept

theorem Kept.txRetry (kept : Kept o s) {i : Nat} {f : Frame}
    (found : (s.hw.txqs t).queue.flight[i]? = some f) (sent : f.fate = some .sent)
    (active : (s.hw.txqs t).active = true) (credits : Nat)
    (room : s.Dozing t → s.queued (s.psId t) + 1 < 2 ^ 16) :
    Kept o (s.txRetry t i credits) := by
  have length : (((s.countQueued t).hw.txqs t).queue.retry i).skList.length =
      s.hw.backlog t + 1 := by
    rw [countQueued_hw]
    exact Queue.retry_length found sent
  have queued := (kept.one length active room).addToHwList (t := t)
  rw [PowerSave.txRetry]
  split_ifs
  · exact (queued.same (Same.setCredits _)).start _
  · exact queued.same (Same.setCredits _)

theorem Kept.setQueue (kept : Kept o s) {queue : Queue}
    (length : queue.skList.length = s.hw.backlog t) :
    Kept o { s with hw := s.hw.setQueue t queue } :=
  kept.more 0 length (fun unused => length.trans (kept.idle t unused)) fun dozing => by
    have counted := (kept.tells dozing.1 (s.psId t)).1
    rw [Nat.add_zero, ← counted]
    exact BitVec.isLt _

theorem Kept.txConfirm (kept : Kept o s) (i credits : Nat) :
    Kept o (s.txConfirm t i credits) := by
  have done : Kept o { s with hw := s.hw.setQueue t ((s.hw.txqs t).queue.confirm i) } :=
    kept.setQueue (congrArg List.length (Queue.confirm_skList i))
  rw [PowerSave.txConfirm]
  split_ifs
  · exact (done.same (Same.setCredits _)).settle
  · exact done

theorem Kept.txCfm (kept : Kept o s) (i : Nat) (again : Bool) (credits : Nat)
    (room : (s.hw.txqs t).active = true ∧ again = true → s.Dozing t →
      s.queued (s.psId t) + 1 < 2 ^ 16) : Kept o (s.txCfm t i again credits) := by
  rw [PowerSave.txCfm]
  cases found : (s.hw.txqs t).queue.flight[i]? with
  | none => exact kept
  | some f =>
      have same : Same s { s with hw := s.hw.confirmAny t f.hwQueue } :=
        Same.hw (Hw.Holds.confirmAny f.hwQueue)
      have counted := kept.same same
      have there : ((s.hw.confirmAny t f.hwQueue).txqs t).queue.flight[i]? = some f := by
        rw [Hw.confirmAny_txqs]
        exact found
      simp only
      by_cases sent : f.fate = some .sent
      · rw [if_pos sent]
        split_ifs with returned
        · refine counted.txRetry there sent ?_ _ fun dozing => ?_
          · exact (same.holds.active t).trans returned.1
          · rw [same.queued, same.psId]
            exact room returned dozing
        · refine counted.txRetry there sent ?_ _ fun dozing => ?_
          · exact (same.holds.active t).trans returned.1
          · rw [same.queued, same.psId]
            exact room returned dozing
        · exact counted.txConfirm _ _
        · exact counted.txConfirm _ _
      · rw [if_neg sent]
        exact kept

theorem Kept.updateCredits (kept : Kept o s) (update : Int) :
    Kept o (s.updateCredits t update) := by
  rw [PowerSave.updateCredits]
  split_ifs
  · exact (kept.same (Same.setCredits _)).settle
  · exact kept

/-- The frames dropped in the end are not those of a station in power save. -/
theorem Kept.creditUpdate (kept : Kept o s) {update : Int}
    (counted : update < nxTxqInitialCredits → (s.updateCredits t update).Dozing t →
      ((s.updateCredits t update).hw.txqs t).queue.dropRetries.skList.length =
        (s.updateCredits t update).hw.backlog t) : Kept o (s.creditUpdate t update) := by
  have updated := kept.updateCredits (t := t) update
  rw [PowerSave.creditUpdate]
  split_ifs with small
  · by_cases dozing : (s.updateCredits t update).Dozing t
    · exact updated.setQueue (counted small dozing)
    · refine updated.alters (Alters.setQueue _) (fun unused => ?_)
        (fun dozes => absurd dozes dozing) fun _ => ⟨rfl, rfl⟩
      rw [setQueue_backlog]
      rw [setQueue_active] at unused
      have none := updated.idle t unused
      exact Nat.le_zero.mp (none ▸ Queue.dropRetries_length)
  · exact updated

/-! ## Frames and queues that come and go -/

theorem countDropped_queue :
    ((s.countDropped t).hw.txqs t).queue = (s.hw.txqs t).queue := by
  have gone : (s.countGone t).hw = s.hw := by
    rw [countGone]
    split_ifs
    · rfl
    · rfl
  rw [countDropped]
  simp only
  split_ifs
  · exact (congrArg Txq.queue (Hw.setTxq_self _ _ _)).trans
      (congrArg (fun hw => (hw.txqs t).queue) gone)
  · exact (congrArg Txq.queue (Hw.setTxq_self _ _ _)).trans
      (congrArg (fun hw => (hw.txqs t).queue) gone)
  · rw [gone]
  · rfl

theorem countDropped_iterate_queue (count : Nat) :
    (((fun s : PowerSave n => s.countDropped t)^[count] s).hw.txqs t).queue =
      (s.hw.txqs t).queue := by
  induction count generalizing s with
  | zero => rfl
  | succ count induction => exact induction.trans countDropped_queue

theorem Hw.Holds.dropOldTraffic (hw : Hw n) (now timeout : Nat)
    (active : (hw.txqs t).active = true) :
    Hw.Holds (hw.setQueue t ((hw.txqs t).queue.dropOld now timeout))
      (hw.dropOldTraffic t now timeout) := by
  rw [Hw.dropOldTraffic, if_pos active]
  simp only
  split_ifs
  · exact Hw.Holds.refl _
  · exact Hw.Holds.delFromHwList.trans (Hw.Holds.setTxq (by rfl))

theorem Kept.dropOldTraffic (kept : Kept o s) (now timeout : Nat) :
    Kept o (s.dropOldTraffic t now timeout) := by
  rw [PowerSave.dropOldTraffic]
  split_ifs with active
  · simp only
    have fewer : ((s.hw.txqs t).queue.dropOld now timeout).skList.length ≤ s.hw.backlog t :=
      Queue.dropOld_length now timeout
    generalize gone : (s.hw.txqs t).queue.skList.length -
      ((s.hw.txqs t).queue.dropOld now timeout).skList.length = count
    have counted : Alike s ((fun s : PowerSave n => s.countDropped t)^[count] s) :=
      Alike.iterate (fun s => Alike.countDropped) count
    generalize dropped : (fun s : PowerSave n => s.countDropped t)^[count] s = s' at counted
    have queue : (s'.hw.txqs t).queue = (s.hw.txqs t).queue := by
      rw [← dropped]
      exact countDropped_iterate_queue count
    have holds := Hw.Holds.dropOldTraffic s'.hw now timeout ((counted.holds.active t).trans active)
    have left : (s'.hw.dropOldTraffic t now timeout).backlog t =
        ((s.hw.txqs t).queue.dropOld now timeout).skList.length := by
      rw [holds.backlog, setQueue_backlog, queue]
    refine kept.alters
      (counted.alters ((Alters.setQueue _).alike ⟨rfl, rfl, holds, .of_eq rfl rfl rfl⟩)) ?_ ?_ ?_
    · intro unused
      have used := (counted.holds.active t).trans active
      rw [← setQueue_active s'.hw t, ← holds.active] at used
      exact absurd (unused.symm.trans used) Bool.false_ne_true
    · intro dozing
      have least := backlog_le_queued dozing.2
      have taken : s.hw.backlog t -
          ((s.hw.txqs t).queue.dropOld now timeout).skList.length = count := gone
      have enough : count ≤ s.queued (s.psId t) := by
        omega
      have rest : s.queued (s.psId t) - count = s.queued (s.psId t) - s.hw.backlog t +
          (s'.hw.dropOldTraffic t now timeout).backlog t := by
        omega
      rw [← rest, ← dropped]
      exact (kept.tells dozing.1).countDropped_iterate dozing count enough
    · intro awake
      rw [countDropped_of_not awake] at dropped
      rw [← dropped]
      exact ⟨rfl, rfl⟩
  · exact kept

theorem Kept.amsduUpdateLen (kept : Kept o s) (amsduLen : Nat) (alloc : Nat → Bool)
    (room : amsduLen < (s.hw.txqs t).queue.amsduLen → s.Dozing t → s.queued (s.psId t) +
      (((s.hw.txqs t).queue.dismantle amsduLen alloc).skList.length - s.hw.backlog t) < 2 ^ 16) :
    Kept o (s.amsduUpdateLen t amsduLen alloc) := by
  rw [PowerSave.amsduUpdateLen]
  by_cases whole : (s.hw.txqs t).queue.amsduLen ≤ amsduLen ∨ (s.hw.txqs t).sta = false
  · rw [if_pos whole]
    refine kept.same (Same.hw ?_)
    rw [Hw.amsduUpdateLen]
    split_ifs with short host
    · exact Hw.Holds.setTxq (by rfl)
    · exact Hw.Holds.setTxq (by rfl)
    · exact absurd whole (not_or.mpr ⟨short, host⟩)
  · rw [if_neg whole]
    have same : Same s (s.stop t {.dismantleAmsdu}) := Same.stop _
    have queue : ((s.stop t {.dismantleAmsdu}).hw.txqs t).queue = (s.hw.txqs t).queue :=
      Hw.stop_queue _
    have stopped := kept.same same
    simp only [queue]
    refine (stopped.more _ ?_ ?_ ?_).start _
    · have least := (s.hw.txqs t).queue.dismantle_length amsduLen alloc
      rw [same.holds.backlog]
      exact (Nat.add_sub_of_le least).symm
    · intro unused
      have none := stopped.idle t unused
      rw [same.holds.backlog] at none
      exact Queue.dismantle_nil none amsduLen alloc
    · intro dozing
      rw [same.queued, same.psId]
      have shorter : amsduLen < (s.hw.txqs t).queue.amsduLen :=
        Nat.lt_of_not_le fun least => whole (.inl least)
      exact room shorter ((same.dozing t).mp dozing)

theorem Kept.addSubframe (kept : Kept o s) (a : Arrival) (maxnb : Nat) (room : Bool) :
    Kept o { s with hw := s.hw.addSubframe t a maxnb room } := by
  refine kept.same (Same.hw ?_)
  rw [Hw.addSubframe]
  split_ifs
  · refine Hw.Holds.setTxq ?_
    rw [Txq.load, Txq.load, Queue.addSubframe_length]
  · exact Hw.Holds.refl _

theorem deinit_alters (active : (s.hw.txqs t).active = true) :
    Alters s { s with hw := s.hw.deinit t } t ∧ (s.hw.deinit t).backlog t = 0 := by
  have self : (s.hw.deinit t).txqs t = { (s.hw.delFromHwList t).txqs t with
      queue := ((s.hw.delFromHwList t).txqs t).queue.flush
      active := false } := by
    rw [Hw.deinit, if_pos active]
    exact Hw.setTxq_self _ _ _
  refine ⟨⟨rfl, rfl, ?_, fun u other => ?_, Calls.of_eq rfl rfl rfl⟩, ?_⟩
  · exact (congrArg Txq.legacyPs self).trans (Hw.Holds.delFromHwList.legacyPs t)
  · have rest : (s.hw.deinit t).txqs u = (s.hw.delFromHwList t).txqs u := by
      rw [Hw.deinit, if_pos active]
      exact Hw.setTxq_of_ne _ _ other
    exact (congrArg Txq.load rest).trans (Hw.Holds.delFromHwList u)
  · rw [Hw.backlog, self, Queue.flush_skList]
    rfl

/-- A queue that is given up holds no frame, when its station is in power save. -/
theorem Kept.deinit (kept : Kept o s)
    (empty : s.Dozing t → (s.hw.txqs t).active = true → s.hw.backlog t = 0) :
    Kept o { s with hw := s.hw.deinit t } := by
  by_cases active : (s.hw.txqs t).active = true
  · obtain ⟨alters, flushed⟩ := deinit_alters active
    refine kept.alters alters (fun _ => flushed) (fun dozing => ?_) fun _ => ⟨rfl, rfl⟩
    rw [flushed, empty dozing active, Nat.sub_zero, Nat.add_zero, Function.update_eq_self]
    exact kept.tells dozing.1
  · rw [Hw.deinit, if_neg active]
    exact kept

/-- A queue without frames becomes another. -/
theorem Kept.clear (kept : Kept o s) (station : s'.tids = s.tids ∧ s'.active = s.active)
    (counters : s'.pktReady = s.pktReady ∧ s'.available = s.available)
    (calls : Calls s s')
    (others : ∀ u, u ≠ t → (s'.hw.txqs u).load = (s.hw.txqs u).load)
    (before : s.hw.backlog t = 0) (after : s'.hw.backlog t = 0) : Kept o s' := by
  have queued : s'.queued = s.queued := by
    by_cases member : t ∈ s.tids
    · funext id
      have change := queued_add station.1 others member id
      rw [share, share, before, after] at change
      simpa only [ite_self, Nat.add_zero] using change
    · exact queued_of_notMem station.1 others member
  refine ⟨station.1.trans kept.tids, station.2.trans kept.active, fun u unused => ?_,
    fun active id => ?_, fun inactive => ?_, kept.calls.trans calls⟩
  · by_cases same : u = t
    · subst same
      exact after
    · have other := others u same
      have none := kept.idle u ((congrArg Prod.fst other).symm.trans unused)
      exact (congrArg (fun load => load.2.2) other).trans none
  · rw [queued, counters.1, counters.2]
    exact kept.tells (station.2.symm.trans active) id
  · rw [counters.1, counters.2]
    exact kept.awake (station.2.symm.trans inactive)

theorem Kept.initTxq (kept : Kept o s) (unused : (s.hw.txqs t).active = false)
    (status : Finset Stop) (hwq : Fin nxTxqCnt) (sta legacyPs : Bool) :
    Kept o { s with hw := s.hw.initTxq t status hwq sta legacyPs } := by
  refine kept.clear (t := t) ⟨rfl, rfl⟩ ⟨rfl, rfl⟩ (.of_eq rfl rfl rfl) (fun u other => ?_)
    (kept.idle t unused) ?_
  · exact congrArg Txq.load (Hw.setTxq_of_ne _ _ other)
  · exact congrArg (fun q : Txq => q.queue.skList.length) (Hw.setTxq_self _ _ _)

/-! ## Power save -/

theorem Same.clearLimit : Same s (s.clearLimit t) := hw (Hw.Holds.setTxq (by rfl))

theorem Alike.addReady : Alike s (s.addReady t) :=
  ⟨rfl, rfl, Hw.Holds.refl _, Calls.of_eq rfl rfl rfl⟩

theorem addReady_pktReady (id : PsId) :
    (s.addReady t).pktReady id = s.pktReady id + .ofNat 16 (s.share id t) := by
  rw [addReady, share]
  by_cases own : id = s.psId t
  · subst own
    rw [setReady_self, if_pos rfl]
    rfl
  · rw [setReady_of_ne _ own, if_neg (Ne.symm own)]
    exact (BitVec.add_zero _).symm

/-- What is counted of a list of queues. -/
theorem foldl_addReady_pktReady (list : List (Fin n)) (id : PsId) :
    (list.foldl addReady s).pktReady id =
      s.pktReady id + .ofNat 16 (list.map (s.share id)).sum := by
  induction list generalizing s with
  | nil => exact (BitVec.add_zero _).symm
  | cons t rest induction =>
      have shares : (s.addReady t).share id = s.share id := by
        funext u
        exact share_eq id rfl
      rw [List.foldl_cons, induction, addReady_pktReady, shares, List.map_cons, List.sum_cons,
        BitVec.ofNat_add, BitVec.add_assoc]

theorem foldl_addReady_available (list : List (Fin n)) :
    (list.foldl addReady s).available = s.available := by
  induction list generalizing s with
  | nil => rfl
  | cons t rest induction => exact induction

theorem tellReady_eq (s : PowerSave n) (available : Bool) :
    s.tellReady available = { s with
      available := fun id => if s.pktReady id ≠ 0 then available else s.available id
      told := fun id => if s.pktReady id ≠ 0 then s.tdls || available else s.told id } := by
  have merge : ∀ f : PsId → Bool, ∀ b : Bool,
      (fun id => if s.pktReady id ≠ 0 then b else f id) =
        let legacy := if s.pktReady .legacy ≠ 0 then Function.update f .legacy b else f
        if s.pktReady .uapsd ≠ 0 then Function.update legacy .uapsd b else legacy := by
    intro f b
    funext id
    cases id <;> (simp only; split_ifs <;> rfl)
  rw [merge, merge, tellReady]
  simp only
  split_ifs <;> rfl

theorem Alike.tellReady (available : Bool) : Alike s (s.tellReady available) := by
  have calls : ∀ s : PowerSave n, ∀ id, Alike s (s.tell id available) := fun s id =>
    ⟨rfl, rfl, Hw.Holds.refl _, Calls.tell s id available⟩
  rw [PowerSave.tellReady]
  split_ifs
  · exact (calls s _).trans (calls _ _)
  · exact calls s _
  · exact calls s _
  · exact Alike.refl s

/-- The station is in order: out of power save `aml_set_traffic_status` was called last to tell that
there is nothing. -/
structure Sound (s : PowerSave n) : Prop where
  kept : Kept s s
  quiet : s.active = false → ∀ id, s.available id = false
  heard : ∀ id, s.available id = true → s.told id = true

/-- The firmware was told of the frames unless it was not to hear that there are none. -/
theorem Sound.accurate_iff (sound : s.Sound) :
    s.Accurate ↔ (s.active = true → ∀ id, ¬s.Unheard id) := by
  constructor
  · rintro accurate active id ⟨none, told⟩
    have same := (accurate active id).2.trans (sound.kept.tells active id).2.symm
    exact Bool.false_ne_true (none.symm.trans (same.symm.trans told))
  · intro heard active id
    obtain ⟨count, available⟩ := sound.kept.tells active id
    refine ⟨count, Eq.trans ?_ available⟩
    cases some : s.available id with
    | false => exact Bool.eq_false_of_not_eq_true fun told => heard active id ⟨some, told⟩
    | true => exact sound.heard id some

theorem Sound.of_kept (sound : s.Sound) (kept : Kept s s') : s'.Sound where
  kept := ⟨rfl, rfl, kept.idle, kept.tells, fun _ => ⟨rfl, rfl⟩, Calls.of_eq rfl rfl rfl⟩
  quiet inactive id := by
    rw [(kept.awake inactive).2]
    exact sound.quiet (kept.active.symm.trans inactive) id
  heard id := kept.calls.heard id (sound.heard id)

/-- All frames are counted again. -/
theorem enable_counters (s : PowerSave n) :
    Alike s.entered s.enable ∧ (∀ id, s.enable.pktReady id = .ofNat 16 (s.queued id)) ∧
      ∀ id, s.enable.available id = if s.enable.pktReady id ≠ 0 then true else s.available id := by
  have stops : Same s.entered (s.tids.foldl (fun s t => s.stop t {.staPs}) s.entered) :=
    Same.foldl (fun s t => Same.stop _) _
  rw [PowerSave.enable]
  generalize s.tids.foldl (fun s t => s.stop t {.staPs}) s.entered = stopped at stops ⊢
  have counts : Alike { stopped with pktReady := fun _ => 0 }
      (s.tids.foldl addReady { stopped with pktReady := fun _ => 0 }) :=
    Alike.foldl (fun s t => Alike.addReady) _
  have queued : ({ stopped with pktReady := fun _ => 0 } : PowerSave n).queued = s.queued :=
    queued_congr stops.tids stops.holds
  have available := foldl_addReady_available (s := { stopped with pktReady := fun _ => 0 }) s.tids
  have ready := foldl_addReady_pktReady (s := { stopped with pktReady := fun _ => 0 }) s.tids
  have calls := Alike.tellReady (s := s.tids.foldl addReady { stopped with pktReady := fun _ => 0 })
    true
  refine ⟨⟨?_, ?_, ?_, ?_⟩, fun id => ?_, fun id => ?_⟩
  · exact calls.tids.trans (counts.tids.trans stops.tids)
  · exact calls.active.trans (counts.active.trans stops.active)
  · exact (stops.holds.trans counts.holds).trans calls.holds
  · have cleared : Calls stopped { stopped with pktReady := fun _ => 0 } := .of_eq rfl rfl rfl
    exact (stops.calls.trans (cleared.trans counts.calls)).trans calls.calls
  · rw [tellReady_eq]
    refine (ready id).trans ((BitVec.zero_add _).trans ?_)
    rw [← queued, PowerSave.queued]
    exact congrArg (fun tids => BitVec.ofNat 16 (List.map _ tids).sum) stops.tids.symm
  · have same := congrFun (available.trans stops.available) id
    rw [tellReady_eq]
    simp only [same]
    rfl

theorem Sound.enable (sound : s.Sound) (room : ∀ id, s.queued id < 2 ^ 16) : s.enable.Sound := by
  obtain ⟨alike, ready, available⟩ := s.enable_counters
  have queued : s.enable.queued = s.queued := queued_congr alike.tids alike.holds
  have before : ∀ id, s.queued id = 0 → s.available id = false := by
    intro id none
    cases state : s.active with
    | false => exact sound.quiet state id
    | true =>
        rw [(sound.kept.tells state id).2, none]
        rfl
  refine ⟨⟨rfl, rfl, fun t unused => ?_, fun _ id => ?_, fun _ => ⟨rfl, rfl⟩, Calls.refl _⟩,
    fun inactive => ?_, fun id => alike.calls.heard id (sound.heard id)⟩
  · rw [alike.holds.backlog]
    exact sound.kept.idle t ((alike.holds.active t).symm.trans unused)
  · have count : (s.enable.pktReady id).toNat = s.queued id := by
      rw [ready, BitVec.toNat_ofNat]
      exact Nat.mod_eq_of_lt (room id)
    rw [queued, available]
    refine ⟨count, ?_⟩
    by_cases none : s.queued id = 0
    · have zero : s.enable.pktReady id = 0 := BitVec.eq_of_toNat_eq (count.trans none)
      rw [zero, none, before id none]
      rfl
    · have some : s.enable.pktReady id ≠ 0 :=
        fun zero => none (count.symm.trans (congrArg BitVec.toNat zero))
      rw [if_pos some, decide_eq_true none]
  · exact absurd (inactive.symm.trans alike.active) Bool.false_ne_true

theorem Kept.foldl {change : PowerSave n → Fin n → PowerSave n}
    (each : ∀ s t, Kept o s → Kept o (change s t)) (list : List (Fin n)) (kept : Kept o s) :
    Kept o (list.foldl change s) := by
  induction list generalizing s with
  | nil => exact kept
  | cons t rest induction => exact induction (each s t kept)

/-- The txqs of a station that leaves power save are started. -/
theorem Sound.started (sound : s.Sound) :
    Kept s.awoken
      (s.tids.foldl (fun s t => s.start t {.staPs}) (s.tids.foldl clearLimit s.awoken)) := by
  have awoken : Kept s.awoken s.awoken :=
    ⟨rfl, rfl, sound.kept.idle, fun active => absurd active Bool.false_ne_true, fun _ => ⟨rfl, rfl⟩,
      Calls.of_eq rfl rfl rfl⟩
  have unlimited := awoken.same (Same.foldl (fun s t => Same.clearLimit (t := t)) s.tids)
  exact Kept.foldl (fun s t kept => kept.start (t := t) {.staPs}) s.tids unlimited

theorem Sound.disable (sound : s.Sound) : s.disable.Sound := by
  have started := sound.started
  have heard := fun id => (started.calls.trans (Alike.tellReady false).calls).heard id
    (sound.heard id)
  have inactive := started.active
  obtain ⟨ready, available⟩ := started.awake inactive
  rw [PowerSave.disable]
  rw [tellReady_eq] at heard ⊢
  refine ⟨⟨rfl, rfl, started.idle, fun active => ?_, fun _ => ⟨rfl, rfl⟩, Calls.refl _⟩,
    fun _ id => ?_, heard⟩
  · exact absurd (inactive.symm.trans active) Bool.false_ne_true
  · simp only [ready, available]
    change (if s.pktReady id ≠ 0 then false else s.available id) = false
    cases state : s.active with
    | false =>
        rw [sound.quiet state id]
        exact ite_self _
    | true =>
        obtain ⟨count, some⟩ := sound.kept.tells state id
        split_ifs with zero
        · rfl
        · have none : s.queued id = 0 := by
            rw [← count, not_not.mp zero]
            rfl
          rw [some, none]
          rfl

theorem Kept.grant (kept : Kept o s) (id : PsId) (count : Int) : Kept o (s.grant id t count) := by
  refine Kept.start (kept.same ?_) _
  exact ⟨⟨rfl, rfl, Hw.Holds.setTxq (by rfl), Calls.of_eq rfl rfl rfl⟩, rfl, rfl⟩

theorem Kept.dispatch (kept : Kept o s) (id : PsId) (list : List (Fin n)) (pktReq : BitVec 16) :
    Kept o (PowerSave.dispatch id list pktReq s) := by
  induction list generalizing s pktReq with
  | nil => exact kept
  | cons t rest induction =>
      rw [PowerSave.dispatch]
      split_ifs
      · exact induction kept _
      · exact induction kept _
      · exact induction (kept.grant id _) _
      · exact kept.grant id _

theorem Kept.trafficReq (kept : Kept o s) (pktReq : BitVec 16) (id : PsId) :
    Kept o (s.trafficReq pktReq id) := by
  rw [PowerSave.trafficReq]
  simp only
  split_ifs
  · exact kept
  · rw [interrupt]
    refine kept.same (Same.trans ?_ (Same.foldl (fun s t => Same.clearLimit (t := t)) s.tids))
    exact ⟨⟨rfl, rfl, Hw.Holds.refl _, Calls.of_eq rfl rfl rfl⟩, rfl, rfl⟩
  · exact kept
  · split
    · exact kept
    · split_ifs
      · exact kept
      · exact kept.grant id _
  · split
    · exact kept
    · split_ifs
      · exact kept
      · exact kept.grant id _
  · exact kept.dispatch id _ _
  · exact kept.dispatch id _ _

end

/-! ## Runs -/

/-- A credit update drops frames that were to be sent again, or a txq with frames is given up, and
the station is in power save. -/
def Uncounted (s : PowerSave n) : PsEvent n → Prop
  | .hw (.creditUpdate t update) =>
      update < nxTxqInitialCredits ∧ (s.updateCredits t update).Dozing t ∧
        ((s.updateCredits t update).hw.txqs t).queue.dropRetries.skList.length ≠
          (s.updateCredits t update).hw.backlog t
  | .hw (.deinit t) => s.Dozing t ∧ (s.hw.txqs t).active = true ∧ s.hw.backlog t ≠ 0
  | _ => False

/-- More frames are queued for a `ps_id` than a `u16` can count. -/
def Overflows (s : PowerSave n) : PsEvent n → Prop
  | .hw (.queueSkb t _) | .hw (.txCfm t _ true _) =>
      (s.hw.txqs t).active = true ∧ s.Dozing t ∧ 2 ^ 16 ≤ s.queued (s.psId t) + 1
  | .hw (.amsduUpdateLen t amsduLen alloc) =>
      amsduLen < (s.hw.txqs t).queue.amsduLen ∧ s.Dozing t ∧
        2 ^ 16 ≤ s.queued (s.psId t) +
          (((s.hw.txqs t).queue.dismantle amsduLen alloc).skList.length - s.hw.backlog t)
  | .enable => 2 ^ 16 ≤ s.queued .legacy ∨ 2 ^ 16 ≤ s.queued .uapsd
  | _ => False

instance (s : PowerSave n) (e : PsEvent n) : Decidable (s.Overflows e) :=
  match e with
  | .hw (.queueSkb _ _) | .hw (.txCfm _ _ true _) | .hw (.amsduUpdateLen _ _ _) =>
      inferInstanceAs (Decidable (_ ∧ _))
  | .enable => inferInstanceAs (Decidable (_ ∨ _))
  | .hw (.txCfm _ _ false _) | .hw (.init _ _ _ _ _) | .hw (.deinit _)
  | .hw (.addSubframe _ _ _ _) | .hw .hwqProcessAll | .hw (.start _ _) | .hw (.stop _ _)
  | .hw (.pushLimit _ _) | .hw (.creditUpdate _ _) | .hw (.dropOldTraffic _ _ _) | .hw (.fate _)
  | .disable | .trafficReq _ _ | .tdls _ => inferInstanceAs (Decidable False)

section

variable {s s' : PowerSave n} {t : Fin n}

theorem Kept.stepHw {e : Hw.Event n} (kept : Kept s s) (fits : ¬s.Overflows (.hw e))
    (counted : ¬s.Uncounted (.hw e)) (stepped : s.stepHw e = .ok s') : Kept s s' := by
  cases e with
  | init t status hwq sta legacyPs =>
      rw [PowerSave.stepHw] at stepped
      split_ifs at stepped with used
      cases stepped
      exact kept.initTxq (Bool.eq_false_of_not_eq_true used) status hwq sta legacyPs
  | deinit t =>
      cases stepped
      refine kept.deinit fun dozing active => ?_
      by_contra some
      exact counted ⟨dozing, active, some⟩
  | queueSkb t a =>
      cases stepped
      by_cases active : (s.hw.txqs t).active = true
      · exact kept.queueSkb a fun dozing => Nat.lt_of_not_le fun more => fits ⟨active, dozing, more⟩
      · rw [PowerSave.queueSkb, if_neg active]
        exact kept
  | addSubframe t a maxnb room =>
      cases stepped
      exact kept.addSubframe a maxnb room
  | hwqProcessAll =>
      cases stepped
      exact kept.hwqProcessAll
  | start t reason =>
      rw [PowerSave.stepHw] at stepped
      split_ifs at stepped
      cases stepped
      exact kept.start reason
  | stop t reason =>
      rw [PowerSave.stepHw] at stepped
      split_ifs at stepped
      cases stepped
      exact kept.same (Same.stop reason)
  | pushLimit t limit =>
      rw [PowerSave.stepHw] at stepped
      split_ifs at stepped
      cases stepped
      exact kept.same (Same.hw (Hw.Holds.setTxq (by rfl)))
  | txCfm t i again credits =>
      cases stepped
      refine kept.txCfm i again credits fun returned dozing => Nat.lt_of_not_le fun more => ?_
      obtain ⟨active, rfl⟩ := returned
      exact fits ⟨active, dozing, more⟩
  | creditUpdate t update =>
      cases stepped
      refine kept.creditUpdate fun small dozing => ?_
      by_contra dropped
      exact counted ⟨small, dozing, dropped⟩
  | amsduUpdateLen t amsduLen alloc =>
      cases stepped
      exact kept.amsduUpdateLen amsduLen alloc fun shorter dozing =>
        Nat.lt_of_not_le fun more => fits ⟨shorter, dozing, more⟩
  | dropOldTraffic t now timeout =>
      cases stepped
      exact kept.dropOldTraffic now timeout
  | fate fate =>
      cases stepped
      exact kept.same (Same.hw fun _ => rfl)

theorem Sound.step {e : PsEvent n} (sound : s.Sound) (fits : ¬s.Overflows e)
    (counted : ¬s.Uncounted e) (stepped : s.step e = .ok s') : s'.Sound := by
  cases e with
  | hw e => exact sound.of_kept (sound.kept.stepHw fits counted stepped)
  | enable =>
      cases stepped
      obtain ⟨legacy, uapsd⟩ := not_or.mp fits
      refine sound.enable fun id => ?_
      cases id with
      | legacy => exact Nat.lt_of_not_le legacy
      | uapsd => exact Nat.lt_of_not_le uapsd
  | disable =>
      cases stepped
      exact sound.disable
  | trafficReq pktReq id =>
      cases stepped
      exact sound.of_kept (sound.kept.trafficReq pktReq id)
  | tdls active =>
      cases stepped
      obtain ⟨-, -, idle, tells, -, -⟩ := sound.kept
      exact ⟨⟨rfl, rfl, idle, tells, fun _ => ⟨rfl, rfl⟩, Calls.refl _⟩, sound.quiet, sound.heard⟩

/-- A station does not become a TDLS peer by anything else, and until then the firmware is told what
it is to be told. -/
theorem Sound.honest {e : PsEvent n} (sound : s.Sound) (fits : ¬s.Overflows e)
    (counted : ¬s.Uncounted e) (link : e ≠ .tdls true) (stepped : s.step e = .ok s')
    (peer : s.tdls = false) (told : s.told = s.available) :
    s'.tdls = false ∧ s'.told = s'.available := by
  have called : Calls s s' → s'.tdls = false ∧ s'.told = s'.available := fun calls =>
    ⟨calls.tdls.trans peer, calls.honest peer told⟩
  cases e with
  | hw e => exact called (sound.kept.stepHw fits counted stepped).calls
  | enable =>
      cases stepped
      exact called ((Calls.entered s).trans s.enable_counters.1.calls)
  | disable =>
      cases stepped
      exact called ((Calls.awoken s).trans
        (sound.started.calls.trans (Alike.tellReady false).calls))
  | trafficReq pktReq id =>
      cases stepped
      exact called (sound.kept.trafficReq pktReq id).calls
  | tdls active =>
      cases active with
      | false =>
          cases stepped
          exact ⟨rfl, told⟩
      | true => exact absurd rfl link

/-- Frames have gone from a queue of the station, and the counters are what they were. -/
theorem Kept.not_accurate {o : PowerSave n} (kept : Kept o s) (alters : Alters s s' t)
    (dozing : s.Dozing t) (ready : s'.pktReady = s.pktReady)
    (fewer : s'.hw.backlog t < s.hw.backlog t) : ¬s'.Accurate := by
  intro accurate
  have before := (kept.tells dozing.1 (s.psId t)).1
  have after := (accurate (alters.active.trans dozing.1) (s.psId t)).1
  have least := backlog_le_queued dozing.2
  rw [ready, alters.queued dozing.2, Function.update_self] at after
  omega

/-- What is not counted shows. -/
theorem Sound.not_accurate {e : PsEvent n} (sound : s.Sound) (uncounted : s.Uncounted e) :
    ∃ s', s.step e = .ok s' ∧ ¬s'.Accurate := by
  cases e with
  | hw e =>
      cases e with
      | deinit t =>
          obtain ⟨dozing, active, some⟩ := uncounted
          obtain ⟨alters, flushed⟩ := deinit_alters (s := s) active
          refine ⟨_, rfl, sound.kept.not_accurate alters dozing rfl ?_⟩
          exact flushed ▸ Nat.pos_of_ne_zero some
      | creditUpdate t update =>
          obtain ⟨small, dozing, dropped⟩ := uncounted
          refine ⟨_, rfl, ?_⟩
          rw [PowerSave.creditUpdate, if_pos small]
          refine (sound.kept.updateCredits update).not_accurate (Alters.setQueue _) dozing rfl ?_
          rw [setQueue_backlog]
          exact Nat.lt_of_le_of_ne Queue.dropRetries_length dropped
      | _ => exact uncounted.elim
  | _ => exact uncounted.elim

theorem init_sound (bus : Bus) (data : Fin n → Bool) (tids : List (Fin n)) (distinct : tids.Nodup)
    (multicast mesh : Bool) : (init bus data tids distinct multicast mesh).Sound where
  kept := ⟨rfl, rfl, fun _ _ => rfl, fun active => absurd active Bool.false_ne_true,
    fun _ => ⟨rfl, rfl⟩, Calls.refl _⟩
  quiet _ _ := rfl
  heard _ some := some

end

/-- The firmware is never misled about a station that is no TDLS peer. -/
theorem accurate_iff_of_no_tdls (bus : Bus) (data : Fin n → Bool) (tids : List (Fin n))
    (distinct : tids.Nodup) (multicast mesh : Bool) (events : List (PsEvent n))
    (fits : Run.Guarded step (fun s e => ¬s.Overflows e ∧ e ≠ .tdls true) events
      (init bus data tids distinct multicast mesh)) :
    Run.Throughout step Accurate events (init bus data tids distinct multicast mesh) ↔
      Run.Guarded step (fun s e => ¬s.Uncounted e) events
        (init bus data tids distinct multicast mesh) := by
  have preserved : ∀ (s : PowerSave n) e s',
      s.Sound ∧ s.tdls = false ∧ s.told = s.available → ¬s.Overflows e ∧ e ≠ .tdls true →
        ¬s.Uncounted e → s.step e = .ok s' →
          s'.Sound ∧ s'.tdls = false ∧ s'.told = s'.available :=
    fun s e s' sound fits counted stepped => ⟨sound.1.step fits.1 counted stepped,
      sound.1.honest fits.1 counted fits.2 stepped sound.2.1 sound.2.2⟩
  refine Run.throughout_iff_guarded_within preserved ?_ ?_ fits
    ⟨init_sound bus data tids distinct multicast mesh, rfl, rfl⟩
  · intro s sound
    refine sound.1.accurate_iff.mpr fun _ id unheard => ?_
    exact Bool.false_ne_true (unheard.1.symm.trans (sound.2.2 ▸ unheard.2))
  · exact fun s e sound _ uncounted => sound.1.not_accurate (not_not.mp uncounted)

end PowerSave

end AmlW2.Tx
