import AmlW2.Tx.Effect
import Mathlib.Algebra.BigOperators.Fin
import Mathlib.Algebra.Order.BigOperators.Group.Finset

/-!
# The credits of the hardware queues

A hardware queue has as many credits as its size leaves for the frames that the firmware has from
it; the host ids suffice for all of them.
-/

namespace AmlW2.Tx

/-- The frames of a queue that the firmware has from a hardware queue and has not confirmed. -/
def Queue.inFlight (q : Queue) (h : Fin nxTxqCnt) : Nat :=
  q.flight.countP fun f => f.fate = some .sent ∧ f.hwQueue = h

/-- The frames that the firmware has from a hardware queue and has not confirmed. -/
def Hw.inFlight {n : Nat} (s : Hw n) (h : Fin nxTxqCnt) : Nat := ∑ t, (s.txqs t).queue.inFlight h

/-- The credits of each hardware queue and its frames in flight make up its size; those of a
transmit queue do not exceed it; and no frame was pushed without a host id, nor would be. -/
structure Balanced {n : Nat} (s : Hw n) : Prop where
  hwq : ∀ h, (s.hwqs h).credits + s.inFlight h = hwqSize s.bus h
  txq : ∀ t, (s.txqs t).credits + (s.txqs t).queue.flight.length ≤ hwqSize s.bus (s.txqs t).hwq
  found : ∀ t, ∀ f ∈ (s.txqs t).queue.flight, f.fate ≠ some .noHostid
  pool : ∀ h, 0 < (s.hwqs h).credits → 0 < s.hostids

namespace Hw

variable {n : Nat}

/-! ## Places -/

/-- Only queues in use are on lists. -/
structure Placed (s : Hw n) : Prop extends Listing s where
  active : ∀ t, (s.txqs t).inHwqList = true → (s.txqs t).active = true

namespace Placed

variable {s : Hw n} {t : Fin n}

theorem setTxq (placed : s.Placed) {q : Txq} (place : KeepsPlace (s.txqs t) q)
    (active : q.inHwqList = true → q.active = true) : (s.setTxq t q).Placed where
  toListing := placed.toListing.setTxq place
  active := forall_setTxq (P := fun _ q => q.inHwqList = true → q.active = true) active
    placed.active

theorem setHwq (placed : s.Placed) {h : Fin nxTxqCnt} {x : Hwq n}
    (perm : x.list.Perm (s.hwqs h).list) : (s.setHwq h x).Placed where
  toListing := placed.toListing.setHwq perm
  active := placed.active

/-- The frames and the credits of a queue are changed. -/
theorem change (placed : s.Placed) {q : Txq} (flag : q.inHwqList = (s.txqs t).inHwqList)
    (hwq : q.hwq = (s.txqs t).hwq) (active : q.active = (s.txqs t).active) :
        (s.setTxq t q).Placed := by
  refine placed.setTxq (fun h => ?_) fun listed => ?_
  · rw [flag, hwq]
  · rw [active]
    exact placed.active t (flag ▸ listed)

theorem delFromHwList (placed : s.Placed) : (s.delFromHwList t).Placed where
  toListing := placed.toListing.delFromHwList
  active u flag := by
    rw [delFromHwList_txqs] at flag ⊢
    by_cases same : u = t
    · subst same
      rw [Function.update_self] at flag
      exact absurd flag Bool.false_ne_true
    · rw [Function.update_of_ne same] at flag ⊢
      exact placed.active u flag

theorem stop (placed : s.Placed) (reason : Finset Stop) : (s.stop t reason).Placed := by
  rw [Hw.stop]
  split_ifs
  · exact delFromHwList (placed.change (by rfl) (by rfl) (by rfl))
  · exact placed

theorem enlist (placed : s.Placed) (active : (s.txqs t).active = true) : (s.enlist t).Placed := by
  rw [Hw.enlist]
  split_ifs with ready
  · obtain ⟨nodup, other, self⟩ := placed.toListing.append ready.1
    exact
      { toListing := placed.toListing.relist nodup other self
        active := forall_setTxq (P := fun _ q => q.inHwqList = true → q.active = true)
          (fun _ => active) placed.active }
  · exact placed

theorem stopFull (placed : s.Placed) : (s.stopFull t).Placed := by
  rw [Hw.stopFull]
  split_ifs
  · exact placed.stop _
  · exact placed

theorem txPush (placed : s.Placed) (f : Frame) : (s.txPush t f).Placed := by
  have stopped : ((s.charge t f).stopFull t).Placed :=
    stopFull (placed.change (by rfl) (by rfl) (by rfl))
  have pushed : (((s.charge t f).stopFull t).ipcTxdescPush f.skb).Placed := by
    rw [ipcTxdescPush]
    split_ifs
    · exact { stopped with }
    · exact stopped
  exact pushed.setHwq (by exact List.Perm.refl _)

theorem pushSkbs (placed : s.Placed) (count : Nat) : (s.pushSkbs t count).Placed := by
  rw [Hw.pushSkbs]
  have cut : (s.setQueue t { (s.txqs t).queue with
      skList := (s.txqs t).queue.skList.drop count }).Placed :=
    placed.change (by rfl) (by rfl) (by rfl)
  generalize (s.txqs t).queue.skList.take count = frames
  generalize s.setQueue t { (s.txqs t).queue with
    skList := (s.txqs t).queue.skList.drop count } = s' at cut
  induction frames generalizing s' with
  | nil => exact cut
  | cons f frames induction => exact induction _ (cut.txPush f)

theorem endTurn (placed : s.Placed) (h : Fin nxTxqCnt) (done : Bool) :
    (s.endTurn h t done).Placed := by
  rw [Hw.endTurn]
  split_ifs
  · exact placed.delFromHwList.change (by rfl) (by rfl) (by rfl)
  · exact setHwq (placed.change (by rfl) (by rfl) (by rfl)) (List.rotate_perm _ _)
  · exact placed

theorem turn (placed : s.Placed) (h : Fin nxTxqCnt) : (s.turn h t).Placed := by
  have marked : { s with
      broken := s.broken || decide (((s.txqs t).skbToPush (s.hwqs h).credits).1 ≤ 0) }.Placed :=
    { placed with }
  have ended := (marked.pushSkbs (t := t) ((s.txqs t).skbToPush (s.hwqs h).credits).1.toNat).endTurn
    (t := t) h ((s.txqs t).skbToPush (s.hwqs h).credits).2
  rw [Hw.turn]
  rw [endService]
  split_ifs
  · exact ended.change (by rfl) (by rfl) (by rfl)
  · exact ended

theorem hwqProcessFrom (placed : s.Placed) (h : Fin nxTxqCnt) (list : List (Fin n)) :
    (hwqProcessFrom h list s).Placed := by
  induction list generalizing s with
  | nil => exact placed
  | cons t rest induction =>
      rw [Hw.hwqProcessFrom]
      split_ifs
      · exact placed
      · exact induction (placed.turn h)
      · exact induction { placed with }

theorem hwqProcess (placed : s.Placed) (h : Fin nxTxqCnt) : (s.hwqProcess h).Placed :=
  hwqProcessFrom (placed.setHwq (by exact List.Perm.refl _)) h _

theorem addToHwList (placed : s.Placed) (active : (s.txqs t).active = true) :
    (s.addToHwList t).Placed := by
  rw [Hw.addToHwList]
  split_ifs
  · exact placed
  · exact (placed.enlist active).hwqProcess _
  · exact placed.enlist active

theorem start (placed : s.Placed) (reason : Finset Stop) : (s.start t reason).Placed := by
  rw [Hw.start]
  split_ifs with started
  · refine addToHwList (placed.change (by rfl) (by rfl) (by rfl)) ?_
    rw [setTxq_self]
    exact started.1
  · exact placed

theorem settle (placed : s.Placed) : (s.settle t).Placed := by
  rw [Hw.settle]
  split_ifs
  · exact placed.stop _
  · exact placed.start _

theorem confirmAny (placed : s.Placed) (h : Fin nxTxqCnt) : (s.confirmAny t h).Placed := by
  have counted : (s.setTxq t { s.txqs t with pktPushed := (s.txqs t).pktPushed - 1 }).Placed :=
    placed.change (by rfl) (by rfl) (by rfl)
  have freed : (s.uncount t).Placed := { counted with }
  rw [Hw.confirmAny]
  split_ifs
  · exact freed
  · exact freed.setHwq (by exact List.Perm.refl _)

theorem setQueue (placed : s.Placed) (queue : Queue) : (s.setQueue t queue).Placed :=
  placed.change (by rfl) (by rfl) (by rfl)

theorem setCredits (placed : s.Placed) (credits : Int) : (s.setCredits t credits).Placed :=
  placed.change (by rfl) (by rfl) (by rfl)

theorem txRetry (placed : s.Placed) (active : (s.txqs t).active = true) (i credits : Nat) :
    (s.txRetry t i credits).Placed := by
  have still : ((s.setQueue t ((s.txqs t).queue.retry i)).txqs t).active = true := by
    rw [Hw.setQueue, setTxq_self]
    exact active
  have given := ((placed.setQueue ((s.txqs t).queue.retry i)).addToHwList still).setCredits
    (t := t) ((((s.setQueue t ((s.txqs t).queue.retry i)).addToHwList t).txqs t).credits + credits)
  rw [Hw.txRetry]
  split_ifs
  · exact given.start _
  · exact given

theorem txConfirm (placed : s.Placed) (i credits : Nat) : (s.txConfirm t i credits).Placed := by
  have done := placed.setQueue (t := t) ((s.txqs t).queue.confirm i)
  rw [Hw.txConfirm]
  split_ifs
  · exact (done.setCredits _).settle
  · exact done

theorem txCfm (placed : s.Placed) (i : Nat) (again : Bool) (credits : Nat) :
    (s.txCfm t i again credits).Placed := by
  rw [Hw.txCfm]
  cases (s.txqs t).queue.flight[i]? with
  | none => exact placed
  | some f =>
      simp only
      generalize (if s.bus = .pcie then credits else 1 : Nat) = credits
      have counted := placed.confirmAny (t := t) f.hwQueue
      by_cases sent : f.fate = some .sent
      · rw [if_pos sent]
        split_ifs with returned
        · refine counted.txRetry ?_ i credits
          rw [confirmAny_txqs]
          exact returned.1
        · exact counted.txConfirm i credits
      · rw [if_neg sent]
        exact placed

theorem initTxq (placed : s.Placed) (unused : (s.txqs t).active = false) (status : Finset Stop)
    (hwq : Fin nxTxqCnt) (sta legacyPs : Bool) : (s.initTxq t status hwq sta legacyPs).Placed := by
  have off : (s.txqs t).inHwqList = false :=
    Bool.eq_false_of_not_eq_true fun flag =>
      Bool.false_ne_true (unused.symm.trans (placed.active t flag))
  refine placed.setTxq (fun h => ?_) fun _ => rfl
  rw [off]
  exact ⟨fun both => absurd both.1 Bool.false_ne_true, fun both => absurd both.1 Bool.false_ne_true⟩

theorem deinit (placed : s.Placed) : (s.deinit t).Placed := by
  rw [Hw.deinit]
  split_ifs
  · refine placed.delFromHwList.setTxq (fun _ => Iff.rfl) fun flag => ?_
    rw [delFromHwList_txqs, Function.update_self] at flag
    exact absurd flag Bool.false_ne_true
  · exact placed

theorem queueSkb (placed : s.Placed) (a : Arrival) : (s.queueSkb t a).Placed := by
  rw [Hw.queueSkb]
  split_ifs with active
  · refine (placed.setQueue _).addToHwList ?_
    rw [Hw.setQueue, setTxq_self]
    exact active
  · exact placed

theorem addSubframe (placed : s.Placed) (a : Arrival) (maxnb : Nat) (room : Bool) :
    (s.addSubframe t a maxnb room).Placed := by
  rw [Hw.addSubframe]
  split_ifs
  · exact placed.setQueue _
  · exact placed

theorem hwqProcessAll (placed : s.Placed) : s.hwqProcessAll.Placed := by
  rw [Hw.hwqProcessAll]
  generalize (List.finRange nxTxqCnt).reverse = hwqs
  induction hwqs generalizing s with
  | nil => exact placed
  | cons h hwqs induction =>
      refine induction ?_
      change Placed (if (s.hwqs h).needProcessing = true then s.hwqProcess h else s)
      split_ifs
      · exact placed.hwqProcess h
      · exact placed

theorem creditUpdate (placed : s.Placed) (update : Int) : (s.creditUpdate t update).Placed := by
  have updated : (s.updateCredits t update).Placed := by
    rw [updateCredits]
    split_ifs
    · exact (placed.setCredits _).settle
    · exact placed
  rw [Hw.creditUpdate]
  split_ifs
  · exact updated.setQueue _
  · exact updated

theorem amsduUpdateLen (placed : s.Placed) (amsduLen : Nat) (alloc : Nat → Bool) :
    (s.amsduUpdateLen t amsduLen alloc).Placed := by
  rw [Hw.amsduUpdateLen]
  split_ifs
  · exact placed.setQueue _
  · exact placed.setQueue _
  · exact ((placed.stop _).setQueue _).start _

theorem dropOldTraffic (placed : s.Placed) (now timeout : Nat) :
    (s.dropOldTraffic t now timeout).Placed := by
  rw [Hw.dropOldTraffic]
  split_ifs
  · have dropped := placed.setQueue (t := t) ((s.txqs t).queue.dropOld now timeout)
    simp only
    split_ifs
    · exact dropped
    · exact dropped.delFromHwList.change (by rfl) (by rfl) (by rfl)
  · exact placed

theorem step (placed : s.Placed) {event : Event n} {s' : Hw n} (stepped : s.step event = .ok s') :
    s'.Placed := by
  cases event with
  | init t status hwq sta legacyPs =>
      rw [Hw.step] at stepped
      split_ifs at stepped with active
      cases stepped
      exact placed.initTxq (Bool.eq_false_of_not_eq_true active) status hwq sta legacyPs
  | deinit t =>
      cases stepped
      exact placed.deinit
  | queueSkb t a =>
      cases stepped
      exact placed.queueSkb a
  | addSubframe t a maxnb room =>
      cases stepped
      exact placed.addSubframe a maxnb room
  | hwqProcessAll =>
      cases stepped
      exact placed.hwqProcessAll
  | start t reason =>
      cases stepped
      exact placed.start reason
  | stop t reason =>
      cases stepped
      exact placed.stop reason
  | pushLimit t limit =>
      cases stepped
      exact placed.change rfl rfl rfl
  | txCfm t i again credits =>
      cases stepped
      exact placed.txCfm i again credits
  | creditUpdate t update =>
      cases stepped
      exact placed.creditUpdate update
  | amsduUpdateLen t amsduLen alloc =>
      cases stepped
      exact placed.amsduUpdateLen amsduLen alloc
  | dropOldTraffic t now timeout =>
      cases stepped
      exact placed.dropOldTraffic now timeout
  | fate fate =>
      cases stepped
      exact { placed with }

end Placed

end Hw

/-! ## Frames in flight -/

namespace Queue

variable {q : Queue}

theorem flush_flight : q.flush.flight = q.flight := by
  rw [flush]
  generalize q.skList.length = fuel
  induction fuel generalizing q with
  | zero => rfl
  | succ fuel induction =>
      rw [flushLoop]
      cases q.skList with
      | nil => rfl
      | cons f rest => exact induction

theorem dropRetries_flight : q.dropRetries.flight = q.flight := by
  rw [dropRetries]
  generalize q.nbRetry = fuel, 0 = packet
  induction fuel generalizing q packet with
  | zero => rfl
  | succ fuel induction =>
      rw [dropRetriesFrom]
      split_ifs
      · cases q.skList with
        | nil => exact induction _
        | cons f rest => exact induction _
      · rfl

theorem dropOld_flight (now timeout : Nat) : (q.dropOld now timeout).flight = q.flight := by
  rw [dropOld]
  generalize q.skList = frames, q.nbRetry = retryPacket
  induction frames generalizing q retryPacket with
  | nil => rfl
  | cons f rest induction =>
      cases retryPacket with
      | succ retryPacket => exact induction _
      | zero =>
          rw [dropOldFrom]
          split_ifs
          · exact induction 0
          · rfl

theorem addSubframe_flight (a : Arrival) (maxnb : Nat) (room : Bool) :
    (q.addSubframe a maxnb room).flight = q.flight := by
  rw [addSubframe]
  by_cases unused : q.data = false ∨ q.amsduLen = 0 ∨ maxnb < 2
  · rw [if_pos unused]
  rw [if_neg unused]
  cases q.amsdu with
  | some skb =>
      simp only
      split
      · rfl
      · split
        · rfl
        · rfl
  | none =>
      simp only
      split
      · rfl
      · split
        · rfl
        · split
          · rfl
          · rfl

theorem confirm_flight {i : Nat} {f : Frame} (here : q.flight[i]? = some f)
    (sent : f.fate = some .sent) : (q.confirm i).flight = q.flight.eraseIdx i := by
  rw [confirm, here]
  exact congrArg Queue.flight (if_pos sent)

theorem retry_flight {i : Nat} {f : Frame} (here : q.flight[i]? = some f)
    (sent : f.fate = some .sent) : (q.retry i).flight = q.flight.eraseIdx i := by
  rw [retry, here]
  exact congrArg Queue.flight (if_pos sent)

end Queue

namespace Hw

variable {n : Nat}

/-! ## The ledger -/

/-- Nothing changes that credits and frames in flight are told by. -/
structure Quiet (s s' : Hw n) : Prop where
  bus : s'.bus = s.bus
  fate : s'.fate = s.fate
  hostids : s'.hostids = s.hostids
  hwqs : ∀ h, (s'.hwqs h).credits = (s.hwqs h).credits
  flight : ∀ u, (s'.txqs u).queue.flight = (s.txqs u).queue.flight
  credits : ∀ u, (s'.txqs u).credits = (s.txqs u).credits
  pktPushed : ∀ u, (s'.txqs u).pktPushed = (s.txqs u).pktPushed
  hwq : ∀ u, (s'.txqs u).hwq = (s.txqs u).hwq

namespace Quiet

theorem refl (s : Hw n) : Quiet s s :=
  ⟨rfl, rfl, rfl, fun _ => rfl, fun _ => rfl, fun _ => rfl, fun _ => rfl, fun _ => rfl⟩

theorem trans {s s' s'' : Hw n} (first : Quiet s s') (second : Quiet s' s'') : Quiet s s'' where
  bus := second.bus.trans first.bus
  fate := second.fate.trans first.fate
  hostids := second.hostids.trans first.hostids
  hwqs h := (second.hwqs h).trans (first.hwqs h)
  flight u := (second.flight u).trans (first.flight u)
  credits u := (second.credits u).trans (first.credits u)
  pktPushed u := (second.pktPushed u).trans (first.pktPushed u)
  hwq u := (second.hwq u).trans (first.hwq u)

variable {s : Hw n} {t : Fin n}

theorem setTxq {q : Txq} (flight : q.queue.flight = (s.txqs t).queue.flight)
    (credits : q.credits = (s.txqs t).credits) (pktPushed : q.pktPushed = (s.txqs t).pktPushed)
    (hwq : q.hwq = (s.txqs t).hwq) : Quiet s (s.setTxq t q) where
  bus := rfl
  fate := rfl
  hostids := rfl
  hwqs _ := rfl
  flight := forall_setTxq (P := fun u q => q.queue.flight = (s.txqs u).queue.flight) flight
    fun _ => rfl
  credits := forall_setTxq (P := fun u q => q.credits = (s.txqs u).credits) credits fun _ => rfl
  pktPushed := forall_setTxq (P := fun u q => q.pktPushed = (s.txqs u).pktPushed) pktPushed
    fun _ => rfl
  hwq := forall_setTxq (P := fun u q => q.hwq = (s.txqs u).hwq) hwq fun _ => rfl

theorem setHwq {h : Fin nxTxqCnt} {x : Hwq n} (credits : x.credits = (s.hwqs h).credits) :
    Quiet s (s.setHwq h x) :=
  { refl s with
    hwqs := forall_setHwq (P := fun g x => x.credits = (s.hwqs g).credits) credits fun _ => rfl }

theorem setQueue {queue : Queue} (flight : queue.flight = (s.txqs t).queue.flight) :
    Quiet s (s.setQueue t queue) :=
  setTxq flight (by rfl) (by rfl) (by rfl)

theorem delFromHwList : Quiet s (s.delFromHwList t) := by
  rw [Hw.delFromHwList]
  split_ifs
  · exact (setTxq (by rfl) (by rfl) (by rfl) (by rfl)).trans (setHwq (by rfl))
  · exact refl s

theorem stop (reason : Finset Stop) : Quiet s (s.stop t reason) := by
  rw [Hw.stop]
  split_ifs
  · exact (setTxq (by rfl) (by rfl) (by rfl) (by rfl)).trans delFromHwList
  · exact refl s

theorem enlist : Quiet s (s.enlist t) := by
  rw [Hw.enlist]
  split_ifs
  · exact (setTxq (by rfl) (by rfl) (by rfl) (by rfl)).trans (setHwq (by rfl))
  · exact refl s

theorem endTurn (h : Fin nxTxqCnt) (done : Bool) : Quiet s (s.endTurn h t done) := by
  rw [Hw.endTurn]
  split_ifs
  · exact delFromHwList.trans (setTxq (by rfl) (by rfl) (by rfl) (by rfl))
  · exact (setTxq (by rfl) (by rfl) (by rfl) (by rfl)).trans (setHwq (by rfl))
  · exact refl s

theorem endService : Quiet s (s.endService t) := by
  rw [Hw.endService]
  split_ifs
  · exact setTxq (by rfl) (by rfl) (by rfl) (by rfl)
  · exact refl s

theorem stopFull : Quiet s (s.stopFull t) := by
  rw [Hw.stopFull]
  split_ifs
  · exact stop _
  · exact refl s

end Quiet

/-- The accounts of credits, frames in flight and host ids. -/
structure Ledger (s : Hw n) : Prop where
  sent : ∀ t, ∀ f ∈ (s.txqs t).queue.flight, f.fate = some .sent
  pushed : ∀ t, (s.txqs t).pktPushed = (s.txqs t).queue.flight.length
  txq : ∀ t, (s.txqs t).credits + (s.txqs t).pktPushed ≤ hwqSize s.bus (s.txqs t).hwq
  hwq : ∀ h, (s.hwqs h).credits + s.inFlight h = hwqSize s.bus h
  room : ∀ h, 0 ≤ (s.hwqs h).credits
  ids : (s.hostids : Int) =
    hostidCnt s.bus - ∑ h, ((hwqSize s.bus h : Int) - (s.hwqs h).credits)

theorem Quiet.inFlight {s s' : Hw n} (quiet : Quiet s s') (h : Fin nxTxqCnt) :
    s'.inFlight h = s.inFlight h := by
  rw [Hw.inFlight, Hw.inFlight]
  exact Finset.sum_congr rfl fun u _ => by rw [Queue.inFlight, Queue.inFlight, quiet.flight]

theorem Ledger.quiet {s s' : Hw n} (ledger : s.Ledger) (quiet : Quiet s s') : s'.Ledger where
  sent u := by
    rw [quiet.flight]
    exact ledger.sent u
  pushed u := by
    rw [quiet.pktPushed, quiet.flight]
    exact ledger.pushed u
  txq u := by
    rw [quiet.credits, quiet.pktPushed, quiet.bus, quiet.hwq]
    exact ledger.txq u
  hwq h := by
    rw [quiet.hwqs, quiet.inFlight, quiet.bus]
    exact ledger.hwq h
  room h := by
    rw [quiet.hwqs]
    exact ledger.room h
  ids := by
    rw [quiet.hostids, quiet.bus, ledger.ids]
    exact congrArg _ (Finset.sum_congr rfl fun h _ => by rw [quiet.hwqs])

/-- There are host ids for all frames that the hardware queues can have in flight. -/
theorem sum_hwqSize_le (bus : Bus) : ∑ h, (hwqSize bus h : Int) ≤ hostidCnt bus := by
  cases bus with
  | pcie => decide
  | sdio => decide
  | usb => decide

/-- The host ids suffice for the frames that the credits stand for. -/
theorem Ledger.credits_le_hostids {s : Hw n} (ledger : s.Ledger) (h : Fin nxTxqCnt) :
    (s.hwqs h).credits ≤ s.hostids := by
  have one : (s.hwqs h).credits ≤ ∑ g, (s.hwqs g).credits :=
    Finset.single_le_sum (fun g _ => ledger.room g) (Finset.mem_univ h)
  have enough := sum_hwqSize_le s.bus
  have ids := ledger.ids
  rw [Finset.sum_sub_distrib] at ids
  omega

/-- A sum in which one summand changes. -/
theorem sum_add_eq {ι M : Type*} [Fintype ι] [DecidableEq ι] [AddCommMonoid M] {f g : ι → M} (i : ι)
    (others : ∀ j, j ≠ i → g j = f j) : (∑ j, g j) + f i = (∑ j, f j) + g i := by
  have rest : ∑ j ∈ Finset.univ.erase i, g j = ∑ j ∈ Finset.univ.erase i, f j :=
    Finset.sum_congr rfl fun j member => others j (Finset.ne_of_mem_erase member)
  rw [← Finset.add_sum_erase _ g (Finset.mem_univ i),
    ← Finset.add_sum_erase _ f (Finset.mem_univ i),
    rest]
  rw [add_right_comm, add_comm (g i), add_right_comm]

/-- The frames in flight when they change for one queue. -/
theorem inFlight_add (s s' : Hw n) (t : Fin n)
    (others : ∀ u, u ≠ t → (s'.txqs u).queue.flight = (s.txqs u).queue.flight) (h : Fin nxTxqCnt) :
    s'.inFlight h + (s.txqs t).queue.inFlight h = s.inFlight h + (s'.txqs t).queue.inFlight h := by
  rw [Hw.inFlight, Hw.inFlight]
  refine sum_add_eq (f := fun u => (s.txqs u).queue.inFlight h)
    (g := fun u => (s'.txqs u).queue.inFlight h) t fun u other => ?_
  rw [Queue.inFlight, Queue.inFlight, others u other]

/-- A credit of a hardware queue goes with a host id to a frame of a queue, or
comes `back` from it. -/
structure Moves (s s' : Hw n) (t : Fin n) (h : Fin nxTxqCnt) (back : Int) : Prop where
  bus : s'.bus = s.bus
  hostids : (s'.hostids : Int) = s.hostids + back
  credits : ∀ g, (s'.hwqs g).credits = (s.hwqs g).credits + if g = h then back else 0
  others : ∀ u, u ≠ t → s'.txqs u = s.txqs u
  flying : ∀ g, ((s'.txqs t).queue.inFlight g : Int) + (if g = h then back else 0) =
    (s.txqs t).queue.inFlight g

/-- A move keeps the accounts when those of the queue itself are in order. -/
theorem Ledger.moves {s s' : Hw n} {t : Fin n} {h : Fin nxTxqCnt} {back : Int} (ledger : s.Ledger)
    (moves : Moves s s' t h back) (room : 0 ≤ (s.hwqs h).credits + back)
    (sent : ∀ f ∈ (s'.txqs t).queue.flight, f.fate = some .sent)
    (pushed : (s'.txqs t).pktPushed = (s'.txqs t).queue.flight.length)
    (txq : (s'.txqs t).credits + (s'.txqs t).pktPushed ≤ hwqSize s'.bus (s'.txqs t).hwq) :
    s'.Ledger where
  sent u := by
    by_cases same : u = t
    · exact same ▸ sent
    · rw [moves.others u same]
      exact ledger.sent u
  pushed u := by
    by_cases same : u = t
    · exact same ▸ pushed
    · rw [moves.others u same]
      exact ledger.pushed u
  txq u := by
    by_cases same : u = t
    · exact same ▸ txq
    · rw [moves.others u same, moves.bus]
      exact ledger.txq u
  hwq g := by
    have changed := inFlight_add s s' t (fun u other => by rw [moves.others u other]) g
    have before := ledger.hwq g
    have flying := moves.flying g
    rw [moves.credits, moves.bus]
    omega
  room g := by
    have least := ledger.room g
    rw [moves.credits]
    split_ifs with own
    · exact own ▸ room
    · omega
  ids := by
    have changed := sum_add_eq (f := fun g => (hwqSize s.bus g : Int) - (s.hwqs g).credits)
      (g := fun g => (hwqSize s.bus g : Int) - (s'.hwqs g).credits) h
      fun g other => by rw [moves.credits, if_neg other, Int.add_zero]
    have own := moves.credits h
    have ids := ledger.ids
    have hostids := moves.hostids
    rw [if_pos rfl] at own
    rw [moves.bus]
    omega

/-! ## What stays in flight -/

/-- What is in flight stays in flight. -/
def Grows (s s' : Hw n) : Prop :=
  ∀ u, ∀ f ∈ (s.txqs u).queue.flight, f ∈ (s'.txqs u).queue.flight

theorem Quiet.grows {s s' : Hw n} (quiet : Quiet s s') : Grows s s' :=
  fun u _ member => (quiet.flight u).symm ▸ member

namespace Grows

theorem refl (s : Hw n) : Grows s s := fun _ _ member => member

theorem trans {s s' s'' : Hw n} (first : Grows s s') (second : Grows s' s'') : Grows s s'' :=
  fun u f member => second u f (first u f member)

variable {s : Hw n} {t : Fin n}

theorem txPush (f : Frame) : Grows s (s.txPush t f) := by
  intro u g member
  by_cases same : u = t
  · subst same
    rw [txPush_queue]
    exact List.mem_append_left _ member
  · rw [txPush_txqs_of_ne f same]
    exact member

theorem foldl_txPush (frames : List Frame) :
    Grows s (frames.foldl (fun s f => s.txPush t f) s) := by
  induction frames generalizing s with
  | nil => exact refl s
  | cons f frames induction => exact (txPush f).trans induction

theorem pushSkbs (count : Nat) : Grows s (s.pushSkbs t count) :=
  (Quiet.setQueue (by rfl)).grows.trans (foldl_txPush _)

theorem turn (h : Fin nxTxqCnt) : Grows s (s.turn h t) := by
  have marked : Grows s { s with
      broken := s.broken || decide (((s.txqs t).skbToPush (s.hwqs h).credits).1 ≤ 0) } := refl s
  exact ((marked.trans (pushSkbs _)).trans (Quiet.endTurn h _).grows).trans Quiet.endService.grows

theorem hwqProcessFrom (h : Fin nxTxqCnt) (list : List (Fin n)) :
    Grows s (Hw.hwqProcessFrom h list s) := by
  induction list generalizing s with
  | nil => exact refl s
  | cons t rest induction =>
      rw [Hw.hwqProcessFrom]
      split_ifs
      · exact refl s
      · exact (turn h).trans induction
      · have marked : Grows s { s with sanityError := true } := refl s
        exact marked.trans induction

theorem hwqProcess (h : Fin nxTxqCnt) : Grows s (s.hwqProcess h) :=
  (Quiet.setHwq (by rfl)).grows.trans (hwqProcessFrom h _)

theorem foldl_hwqProcess (hwqs : List (Fin nxTxqCnt)) :
    Grows s
      (hwqs.foldl (fun s h => if (s.hwqs h).needProcessing then s.hwqProcess h else s) s) := by
  induction hwqs generalizing s with
  | nil => exact refl s
  | cons h hwqs induction =>
      have first : Grows s (if (s.hwqs h).needProcessing then s.hwqProcess h else s) := by
        split_ifs
        · exact hwqProcess h
        · exact refl s
      exact first.trans induction

theorem addToHwList : Grows s (s.addToHwList t) := by
  rw [Hw.addToHwList]
  split_ifs
  · exact refl s
  · exact Quiet.enlist.grows.trans (hwqProcess _)
  · exact Quiet.enlist.grows

theorem start (reason : Finset Stop) : Grows s (s.start t reason) := by
  rw [Hw.start]
  split_ifs
  · exact (Quiet.setTxq (by rfl) (by rfl) (by rfl) (by rfl)).grows.trans addToHwList
  · exact refl s

theorem settle : Grows s (s.settle t) := by
  rw [Hw.settle]
  split_ifs
  · exact (Quiet.stop _).grows
  · exact start _

theorem setCredits (credits : Int) : Grows s (s.setCredits t credits) :=
  forall_setTxq (P := fun u q => ∀ f ∈ (s.txqs u).queue.flight, f ∈ q.queue.flight)
    (fun _ member => member) fun _ _ member => member

end Grows

/-- No frame in flight was lost in its push: each found the bus up and could be mapped. -/
def Reached (s : Hw n) : Prop :=
  ∀ t, ∀ f ∈ (s.txqs t).queue.flight, f.fate ≠ some .suspended ∧ f.fate ≠ some .unmapped

instance (s : Hw n) : Decidable s.Reached :=
  inferInstanceAs (Decidable (∀ t, ∀ f ∈ (s.txqs t).queue.flight,
    f.fate ≠ some .suspended ∧ f.fate ≠ some .unmapped))

theorem Reached.before {s s' : Hw n} (reached : s'.Reached) (grows : Grows s s') : s.Reached :=
  fun u f member => reached u f (grows u f member)

/-! ## Pushing -/

section

variable {s : Hw n} {t : Fin n}

/-- A frame that is not lost in its push has a host id, and reaches the firmware. -/
theorem Ledger.fateOf (ledger : s.Ledger) (room : 0 < (s.hwqs (s.txqs t).hwq).credits) {f : Frame}
    (reached : (s.txPush t f).Reached) : s.fateOf f.skb = .sent := by
  have ids := ledger.credits_le_hostids (s.txqs t).hwq
  have some_left : s.hostids ≠ 0 := by omega
  have pushed : { f with retry := false, hwQueue := (s.txqs t).hwq, fate := s.fateOf f.skb } ∈
      ((s.txPush t f).txqs t).queue.flight := by
    rw [txPush_queue]
    exact List.mem_append_right _ (List.mem_singleton.mpr rfl)
  obtain ⟨up, mapped⟩ := reached t _ pushed
  simp only [ne_eq, Option.some.injEq] at up mapped
  rw [Hw.fateOf] at up mapped ⊢
  split_ifs at up mapped ⊢
  · exact absurd rfl up
  · exact absurd rfl mapped
  · rfl

/-- The frame in flight after a push. -/
theorem Ledger.flight_txPush (ledger : s.Ledger) (room : 0 < (s.hwqs (s.txqs t).hwq).credits)
    {f : Frame} (reached : (s.txPush t f).Reached) :
    ((s.txPush t f).txqs t).queue.flight = (s.txqs t).queue.flight ++
      [{ f with retry := false, hwQueue := (s.txqs t).hwq, fate := some .sent }] := by
  rw [txPush_queue, ledger.fateOf room reached]
  rfl

/-- A push takes a credit and a host id. -/
theorem Ledger.moves_txPush (ledger : s.Ledger) (room : 0 < (s.hwqs (s.txqs t).hwq).credits)
    {f : Frame} (reached : (s.txPush t f).Reached) :
    Moves s (s.txPush t f) t (s.txqs t).hwq (-1) := by
  have quiet : Quiet (s.charge t f) ((s.charge t f).stopFull t) := Quiet.stopFull
  have sent : ((s.charge t f).stopFull t).fateOf f.skb = .sent := by
    have same : ((s.charge t f).stopFull t).fateOf f.skb = s.fateOf f.skb := by
      rw [Hw.fateOf, Hw.fateOf, quiet.bus, quiet.fate, quiet.hostids]
      rfl
    rw [same, ledger.fateOf room reached]
  have taken : (s.txPush t f).hostids = s.hostids - 1 := by
    change (((s.charge t f).stopFull t).ipcTxdescPush f.skb).hostids = _
    rw [ipcTxdescPush, if_pos (Or.inl sent)]
    change ((s.charge t f).stopFull t).hostids - 1 = _
    rw [quiet.hostids]
    rfl
  refine
    { bus := (Drains.txPush f).bus
      hostids := ?_
      credits := fun h => ?_
      others := fun u other => txPush_txqs_of_ne f other
      flying := fun h => ?_ }
  · have enough := ledger.credits_le_hostids (s.txqs t).hwq
    rw [taken]
    omega
  · rw [txPush_credits]
    split_ifs
    · rfl
    · exact (Int.add_zero _).symm
  · rw [Queue.inFlight, Queue.inFlight, ledger.flight_txPush room reached, List.countP_append,
      List.countP_singleton]
    by_cases own : h = (s.txqs t).hwq
    · subst own
      simp only [decide_true, and_self, if_true]
      omega
    · simp only [Ne.symm own, own, and_false, decide_false, Bool.false_eq_true, if_false]
      omega

theorem Ledger.txPush (ledger : s.Ledger) (room : 0 < (s.hwqs (s.txqs t).hwq).credits) {f : Frame}
    (reached : (s.txPush t f).Reached) : (s.txPush t f).Ledger := by
  have drains : Drains s (s.txPush t f) := Drains.txPush f
  refine ledger.moves (ledger.moves_txPush room reached) (by omega) ?_ ?_ ?_
  · rw [ledger.flight_txPush room reached]
    intro g member
    obtain old | new := List.mem_append.mp member
    · exact ledger.sent t g old
    · rw [List.mem_singleton.mp new]
  · have quiet : Quiet (s.charge t f) ((s.charge t f).stopFull t) := Quiet.stopFull
    rw [ledger.flight_txPush room reached, List.length_append, txPush_txqs, quiet.pktPushed, charge,
      setTxq_self, Txq.charge, ledger.pushed]
    rfl
  · rw [drains.total, drains.bus, drains.hwq]
    exact ledger.txq t

theorem Ledger.pushSkbs (ledger : s.Ledger) {count : Nat}
    (room : (count : Int) ≤ (s.hwqs (s.txqs t).hwq).credits)
    (reached : (s.pushSkbs t count).Reached) : (s.pushSkbs t count).Ledger := by
  have cut : (s.setQueue t { (s.txqs t).queue with
      skList := (s.txqs t).queue.skList.drop count }).Ledger :=
    ledger.quiet (Quiet.setQueue (by rfl))
  have most := List.length_take_le count (s.txqs t).queue.skList
  have enough : (((s.txqs t).queue.skList.take count).length : Int) ≤
      ((s.setQueue t { (s.txqs t).queue with
        skList := (s.txqs t).queue.skList.drop count }).hwqs
          ((s.setQueue t { (s.txqs t).queue with
            skList := (s.txqs t).queue.skList.drop count }).txqs t).hwq).credits := by
    rw [setQueue, setTxq_self]
    exact (Int.ofNat_le.mpr most).trans room
  rw [Hw.pushSkbs] at reached ⊢
  generalize (s.txqs t).queue.skList.take count = frames at enough reached
  generalize s.setQueue t { (s.txqs t).queue with
    skList := (s.txqs t).queue.skList.drop count } = s' at cut enough reached
  induction frames generalizing s' with
  | nil => exact cut
  | cons f frames induction =>
      rw [List.length_cons] at enough
      have hwq : ((s'.txPush t f).txqs t).hwq = (s'.txqs t).hwq := (Drains.txPush f).hwq t
      have first : (s'.txPush t f).Reached := reached.before (Grows.foldl_txPush frames)
      refine induction _ (cut.txPush (by omega) first) ?_ reached
      rw [hwq, txPush_credits, if_pos rfl]
      omega

theorem Ledger.turn (ledger : s.Ledger) (reached : (s.turn (s.txqs t).hwq t).Reached) :
    (s.turn (s.txqs t).hwq t).Ledger := by
  have marked : { s with
      broken := s.broken ||
        decide (((s.txqs t).skbToPush (s.hwqs (s.txqs t).hwq).credits).1 ≤ 0) }.Ledger :=
    { ledger with }
  have least := ledger.room (s.txqs t).hwq
  have most : ((((s.txqs t).skbToPush (s.hwqs (s.txqs t).hwq).credits).1.toNat : Nat) : Int) ≤
      (s.hwqs (s.txqs t).hwq).credits := by
    have within : ((s.txqs t).skbToPush (s.hwqs (s.txqs t).hwq).credits).1 ≤
        (s.hwqs (s.txqs t).hwq).credits := by
      rw [Txq.skbToPush]
      split_ifs with all
      · exact all.trans (min_le_right _ _)
      · exact min_le_right _ _
    omega
  have pushed := reached.before ((Quiet.endTurn _ _).trans Quiet.endService).grows
  exact ((marked.pushSkbs most pushed).quiet (Quiet.endTurn _ _)).quiet Quiet.endService

end

/-! ## Hardware queues -/

theorem Ledger.hwqProcessFrom {s : Hw n} (ledger : s.Ledger) {h : Fin nxTxqCnt}
    {list : List (Fin n)}
    (own : ∀ t ∈ list, (s.txqs t).hwq = h) (reached : (hwqProcessFrom h list s).Reached) :
    (hwqProcessFrom h list s).Ledger := by
  induction list generalizing s with
  | nil => exact ledger
  | cons t rest induction =>
      have later : ∀ u ∈ rest, (s.txqs u).hwq = h :=
        fun u member => own u (List.mem_cons_of_mem t member)
      rw [Hw.hwqProcessFrom] at reached ⊢
      split_ifs at reached ⊢
      · exact ledger
      · have mine : (s.txqs t).hwq = h := own t List.mem_cons_self
        have turned : (s.turn h t).Reached := reached.before (Grows.hwqProcessFrom h rest)
        subst mine
        refine induction (ledger.turn turned) (fun u member => ?_) reached
        rw [(Drains.turn _).hwq]
        exact later u member
      · exact induction { ledger with } later reached

theorem Ledger.hwqProcess {s : Hw n} (ledger : s.Ledger) (placed : s.Placed) {h : Fin nxTxqCnt}
    (reached : (s.hwqProcess h).Reached) : (s.hwqProcess h).Ledger :=
  (ledger.quiet (Quiet.setHwq (by rfl))).hwqProcessFrom
    (fun t member => ((placed.listed h t).mp member).2) reached

theorem Ledger.addToHwList {s : Hw n} {t : Fin n} (ledger : s.Ledger) (placed : s.Placed)
    (active : (s.txqs t).active = true) (reached : (s.addToHwList t).Reached) :
    (s.addToHwList t).Ledger := by
  have listed := ledger.quiet (Quiet.enlist (t := t))
  rw [Hw.addToHwList] at reached ⊢
  split_ifs at reached ⊢
  · exact ledger
  · exact listed.hwqProcess (placed.enlist active) reached
  · exact listed

theorem Ledger.start {s : Hw n} {t : Fin n} (ledger : s.Ledger) (placed : s.Placed)
    {reason : Finset Stop} (reached : (s.start t reason).Reached) : (s.start t reason).Ledger := by
  rw [Hw.start] at reached ⊢
  split_ifs at reached ⊢ with started
  · refine Ledger.addToHwList (ledger.quiet (Quiet.setTxq (by rfl) (by rfl) (by rfl) (by rfl)))
      (placed.change (by rfl) (by rfl) (by rfl)) ?_ reached
    rw [setTxq_self]
    exact started.1
  · exact ledger

theorem Ledger.settle {s : Hw n} {t : Fin n} (ledger : s.Ledger) (placed : s.Placed)
    (reached : (s.settle t).Reached) : (s.settle t).Ledger := by
  rw [Hw.settle] at reached ⊢
  split_ifs at reached ⊢
  · exact ledger.quiet (Quiet.stop _)
  · exact ledger.start placed reached

/-! ## Answers of the firmware -/

section

variable {s : Hw n} {t : Fin n}

theorem Ledger.setCredits (ledger : s.Ledger) {credits : Int}
    (within : credits + (s.txqs t).pktPushed ≤ hwqSize s.bus (s.txqs t).hwq) :
    (s.setCredits t credits).Ledger := by
  have same : ∀ u, ((s.setCredits t credits).txqs u).queue.flight = (s.txqs u).queue.flight :=
    forall_setTxq (P := fun u q => q.queue.flight = (s.txqs u).queue.flight) rfl fun _ => rfl
  refine
    { sent := fun u => same u ▸ ledger.sent u
      pushed := ?_
      txq := ?_
      hwq := fun h => ?_
      room := ledger.room
      ids := ledger.ids }
  · exact forall_setTxq (P := fun _ q => q.pktPushed = q.queue.flight.length) (ledger.pushed t)
      ledger.pushed
  · exact forall_setTxq (P := fun _ q => q.credits + q.pktPushed ≤ hwqSize s.bus q.hwq) within
      ledger.txq
  · have flying : (s.setCredits t credits).inFlight h = s.inFlight h := by
      rw [inFlight, inFlight]
      exact Finset.sum_congr rfl fun u _ => by rw [Queue.inFlight, Queue.inFlight, same]
    rw [flying]
    exact ledger.hwq h

/-- What a queue has in flight when a frame that the firmware has is no longer. -/
theorem inFlight_of_perm {q q' : Queue} {f : Frame} (moved : (f :: q'.flight).Perm q.flight)
    (sent : f.fate = some .sent) (h : Fin nxTxqCnt) :
    q'.inFlight h + (if h = f.hwQueue then 1 else 0) = q.inFlight h := by
  rw [Queue.inFlight, Queue.inFlight, ← moved.countP_eq, List.countP_cons]
  by_cases own : h = f.hwQueue
  · simp only [sent, own, and_self, decide_true, if_true]
  · simp only [sent, Ne.symm own, own, and_false, decide_false, Bool.false_eq_true, if_false]

/-- A hardware queue that has a frame in flight does not have all its credits. -/
theorem Ledger.credits_lt (ledger : s.Ledger) {f : Frame} (member : f ∈ (s.txqs t).queue.flight) :
    (s.hwqs f.hwQueue).credits < hwqSize s.bus f.hwQueue := by
  have one : 0 < (s.txqs t).queue.inFlight f.hwQueue :=
    List.countP_pos_iff.mpr ⟨f, member, by
      simp only [ledger.sent t f member, and_self, decide_true]⟩
  have among : (s.txqs t).queue.inFlight f.hwQueue ≤ s.inFlight f.hwQueue :=
    Finset.single_le_sum (f := fun u => (s.txqs u).queue.inFlight f.hwQueue)
      (fun _ _ => Nat.zero_le _) (Finset.mem_univ t)
  have balance := ledger.hwq f.hwQueue
  omega

/-- The frame is no longer in flight, and its credit and host id are back. -/
theorem Ledger.confirmAny (ledger : s.Ledger) {i : Nat} {f : Frame}
    (here : (s.txqs t).queue.flight[i]? = some f) {queue : Queue}
    (left : queue.flight = (s.txqs t).queue.flight.eraseIdx i) :
    ((s.confirmAny t f.hwQueue).setQueue t queue).Ledger := by
  have moved : (f :: queue.flight).Perm (s.txqs t).queue.flight := by
    obtain ⟨bound, at_i⟩ := List.getElem?_eq_some_iff.mp here
    rw [left, ← at_i]
    exact List.getElem_cons_eraseIdx_perm bound
  have member : f ∈ (s.txqs t).queue.flight := moved.subset List.mem_cons_self
  have back : s.confirmAny t f.hwQueue = (s.uncount t).setHwq f.hwQueue
      { s.hwqs f.hwQueue with credits := (s.hwqs f.hwQueue).credits + 1, needProcessing := true } :=
    if_neg (Int.not_lt.mpr (ledger.credits_lt member).le)
  have txqs : ((s.confirmAny t f.hwQueue).setQueue t queue).txqs =
      (s.setTxq t { s.txqs t with queue, pktPushed := (s.txqs t).pktPushed - 1 }).txqs := by
    have own := confirmAny_txqs (s := s) (t := t) f.hwQueue
    rw [setQueue, own, back]
    exact Function.update_idem _ _ _
  have length := moved.length_eq
  rw [List.length_cons] at length
  have pushed := ledger.pushed t
  have within := ledger.txq t
  have moves : Moves s ((s.confirmAny t f.hwQueue).setQueue t queue) t f.hwQueue 1 :=
    { bus := by rw [back]; rfl
      hostids := by rw [back]; rfl
      credits := fun h => by
        rw [back]
        split_ifs with own
        · subst own
          exact congrArg Hwq.credits (setHwq_self _ _ _)
        · rw [Int.add_zero]
          exact congrArg Hwq.credits (setHwq_of_ne _ _ own)
      others := fun u other => by rw [txqs, setTxq_of_ne s _ other]
      flying := fun h => by
        have fewer := inFlight_of_perm moved (ledger.sent t f member) h
        rw [txqs, setTxq_self]
        change (queue.inFlight h : Int) + _ = _
        split_ifs at fewer ⊢
        all_goals omega }
  have room := ledger.room f.hwQueue
  refine ledger.moves moves (by omega) ?_ ?_ ?_
  · rw [txqs, setTxq_self]
    exact fun g among => ledger.sent t g (moved.subset (List.mem_cons_of_mem f among))
  · rw [txqs, setTxq_self]
    change (s.txqs t).pktPushed - 1 = queue.flight.length
    omega
  · rw [txqs, setTxq_self, moves.bus]
    change (s.txqs t).credits + ((s.txqs t).pktPushed - 1 : Nat) ≤ hwqSize s.bus (s.txqs t).hwq
    omega

end

section

variable {s : Hw n} {t : Fin n}

/-- A credit update leaves no more credits than the frames in flight leave room for. -/
theorem creditsAfter_le (q : Txq) (bus : Bus) (update : Int) :
    q.creditsAfter bus update + q.pktPushed ≤ hwqSize bus q.hwq := by
  rw [Txq.creditsAfter]
  split_ifs
  all_goals omega

theorem Ledger.updateCredits (ledger : s.Ledger) (placed : s.Placed) {update : Int}
    (reached : (s.updateCredits t update).Reached) : (s.updateCredits t update).Ledger := by
  rw [Hw.updateCredits] at reached ⊢
  split_ifs at reached ⊢
  · exact (ledger.setCredits (creditsAfter_le _ _ _)).settle (placed.setCredits _) reached
  · exact ledger

theorem Ledger.txRetry (placed : s.Placed) (active : (s.txqs t).active = true) {i credits : Nat}
    (kept : (s.setQueue t ((s.txqs t).queue.retry i)).Ledger)
    (fits : (s.txqs t).credits + credits + (s.txqs t).pktPushed ≤ hwqSize s.bus (s.txqs t).hwq)
    (reached : (s.txRetry t i credits).Reached) : (s.txRetry t i credits).Ledger := by
  have queued : (s.setQueue t ((s.txqs t).queue.retry i)).Placed := placed.setQueue _
  have self : (s.setQueue t ((s.txqs t).queue.retry i)).txqs t =
      { s.txqs t with queue := (s.txqs t).queue.retry i } := by
    rw [setQueue, setTxq_self]
  have still : ((s.setQueue t ((s.txqs t).queue.retry i)).txqs t).active = true := by
    rw [self]
    exact active
  have bus : (s.setQueue t ((s.txqs t).queue.retry i)).bus = s.bus := rfl
  rw [Hw.txRetry] at reached ⊢
  generalize s.setQueue t ((s.txqs t).queue.retry i) = s' at kept queued self still bus reached
  have drains : Drains s' (s'.addToHwList t) := Drains.addToHwList
  have enlisted : (s'.addToHwList t).Reached := by
    have given : Grows (s'.addToHwList t)
        ((s'.addToHwList t).setCredits t (((s'.addToHwList t).txqs t).credits + credits)) :=
      Grows.setCredits _
    refine reached.before (given.trans ?_)
    split_ifs
    · exact Grows.start _
    · exact Grows.refl _
  have given :
      ((s'.addToHwList t).setCredits t (((s'.addToHwList t).txqs t).credits + credits)).Ledger := by
    refine (kept.addToHwList queued still enlisted).setCredits ?_
    have total := drains.total t
    rw [self] at total
    simp only at total
    rw [drains.bus, drains.hwq, self, bus]
    simp only
    omega
  split_ifs at reached ⊢
  · exact given.start ((queued.addToHwList still).setCredits _) reached
  · exact given

theorem Ledger.txConfirm (placed : s.Placed) {i credits : Nat}
    (kept : (s.setQueue t ((s.txqs t).queue.confirm i)).Ledger)
    (fits : (s.txqs t).active = true →
      (s.txqs t).credits + credits + (s.txqs t).pktPushed ≤ hwqSize s.bus (s.txqs t).hwq)
    (reached : (s.txConfirm t i credits).Reached) : (s.txConfirm t i credits).Ledger := by
  have queued : (s.setQueue t ((s.txqs t).queue.confirm i)).Placed := placed.setQueue _
  rw [Hw.txConfirm] at reached ⊢
  split_ifs at reached ⊢ with given
  · refine Ledger.settle (kept.setCredits ?_) (queued.setCredits _) reached
    rw [setQueue, setTxq_self]
    exact fits given.1
  · exact kept

theorem confirmAny_bus (h : Fin nxTxqCnt) : (s.confirmAny t h).bus = s.bus := by
  rw [confirmAny]
  split_ifs
  · rfl
  · rfl

/-- A frame that is confirmed gives credits back, which have to fit. -/
theorem Ledger.txCfm (ledger : s.Ledger) (placed : s.Placed) {i : Nat} {again : Bool}
    {credits : Nat}
    (fits : s.bus = .pcie → (s.txqs t).active = true → (s.txqs t).queue.flight[i]? ≠ none →
      (s.txqs t).credits + credits + (s.txqs t).pktPushed ≤ hwqSize s.bus (s.txqs t).hwq + 1)
    (reached : (s.txCfm t i again credits).Reached) : (s.txCfm t i again credits).Ledger := by
  rw [Hw.txCfm] at reached ⊢
  cases here : (s.txqs t).queue.flight[i]? with
  | none => exact ledger
  | some f =>
      have sent : f.fate = some .sent := ledger.sent t f (List.mem_of_getElem? here)
      have given : (s.txqs t).active = true →
          (s.txqs t).credits + ((if s.bus = .pcie then credits else 1 : Nat) : Int) +
            ((s.txqs t).pktPushed - 1 : Nat) ≤ hwqSize s.bus (s.txqs t).hwq := by
        intro active
        have pushed := ledger.pushed t
        have within := ledger.txq t
        have flying : 0 < (s.txqs t).queue.flight.length :=
          List.length_pos_of_mem (List.mem_of_getElem? here)
        split_ifs with pcie
        · have fits := fits pcie active (by rw [here]; exact Option.some_ne_none f)
          omega
        · omega
      have counted := placed.confirmAny (t := t) f.hwQueue
      have self := confirmAny_txqs (s := s) (t := t) f.hwQueue
      rw [here] at reached
      simp only at reached ⊢
      generalize (if s.bus = .pcie then credits else 1 : Nat) = credits at given reached
      rw [if_pos sent] at reached ⊢
      split_ifs at reached ⊢ with returned
      · refine Ledger.txRetry counted ?_ (ledger.confirmAny here ?_) ?_ reached
        · rw [self]
          exact returned.1
        · rw [self]
          exact Queue.retry_flight here sent
        · rw [self, confirmAny_bus]
          exact given returned.1
      · refine Ledger.txConfirm counted (ledger.confirmAny here ?_) ?_ reached
        · rw [self]
          exact Queue.confirm_flight here sent
        · rw [self, confirmAny_bus]
          exact given

end

/-! ## Frames and queues that come and go -/

section

variable {s : Hw n} {t : Fin n}

/-- A queue that is initialised has no frame in flight. -/
theorem Ledger.initTxq (ledger : s.Ledger) (landed : (s.txqs t).queue.flight = [])
    (status : Finset Stop) (hwq : Fin nxTxqCnt) (sta legacyPs : Bool) :
    (s.initTxq t status hwq sta legacyPs).Ledger := by
  have size : (nxTxqInitialCredits : Int) + (0 : Nat) ≤ hwqSize s.bus hwq := by
    rw [hwqSize]
    split_ifs
    · decide
    · decide
    · decide
  have same : ∀ u, ((s.initTxq t status hwq sta legacyPs).txqs u).queue.flight =
      (s.txqs u).queue.flight :=
    forall_setTxq (P := fun u q => q.queue.flight = (s.txqs u).queue.flight) rfl fun _ => rfl
  refine
    { sent := fun u => same u ▸ ledger.sent u
      pushed := ?_
      txq := ?_
      hwq := fun h => ?_
      room := ledger.room
      ids := ledger.ids }
  · refine forall_setTxq (P := fun _ q => q.pktPushed = q.queue.flight.length) ?_ ledger.pushed
    change 0 = (s.txqs t).queue.flight.length
    rw [landed]
    rfl
  · exact forall_setTxq (P := fun _ q => q.credits + q.pktPushed ≤ hwqSize s.bus q.hwq) size
      ledger.txq
  · have flying : (s.initTxq t status hwq sta legacyPs).inFlight h = s.inFlight h := by
      rw [inFlight, inFlight]
      exact Finset.sum_congr rfl fun u _ => by rw [Queue.inFlight, Queue.inFlight, same]
    rw [flying]
    exact ledger.hwq h

theorem Ledger.deinit (ledger : s.Ledger) : (s.deinit t).Ledger := by
  rw [Hw.deinit]
  split_ifs
  · refine ledger.quiet (Quiet.delFromHwList.trans (Quiet.setTxq ?_ (by rfl) (by rfl) (by rfl)))
    exact Queue.flush_flight
  · exact ledger

theorem Ledger.queueSkb (ledger : s.Ledger) (placed : s.Placed) {a : Arrival}
    (reached : (s.queueSkb t a).Reached) : (s.queueSkb t a).Ledger := by
  rw [Hw.queueSkb] at reached ⊢
  split_ifs at reached ⊢ with active
  · refine Ledger.addToHwList (ledger.quiet (Quiet.setQueue (by rfl))) (placed.setQueue _) ?_
      reached
    rw [setQueue, setTxq_self]
    exact active
  · exact ledger

theorem Ledger.addSubframe (ledger : s.Ledger) (a : Arrival) (maxnb : Nat) (room : Bool) :
    (s.addSubframe t a maxnb room).Ledger := by
  rw [Hw.addSubframe]
  split_ifs
  · exact ledger.quiet (Quiet.setQueue (Queue.addSubframe_flight a maxnb room))
  · exact ledger

theorem Ledger.hwqProcessAll (ledger : s.Ledger) (placed : s.Placed)
    (reached : s.hwqProcessAll.Reached) : s.hwqProcessAll.Ledger := by
  rw [Hw.hwqProcessAll] at reached ⊢
  generalize (List.finRange nxTxqCnt).reverse = hwqs at reached
  induction hwqs generalizing s with
  | nil => exact ledger
  | cons h hwqs induction =>
      have early : Reached (if (s.hwqs h).needProcessing = true then s.hwqProcess h else s) :=
        reached.before (Grows.foldl_hwqProcess hwqs)
      have first : Ledger (if (s.hwqs h).needProcessing = true then s.hwqProcess h else s) ∧
          Placed (if (s.hwqs h).needProcessing = true then s.hwqProcess h else s) := by
        split_ifs at early ⊢
        · exact ⟨ledger.hwqProcess placed early, placed.hwqProcess h⟩
        · exact ⟨ledger, placed⟩
      exact induction first.1 first.2 reached

theorem Ledger.creditUpdate (ledger : s.Ledger) (placed : s.Placed) {update : Int}
    (reached : (s.creditUpdate t update).Reached) : (s.creditUpdate t update).Ledger := by
  rw [Hw.creditUpdate] at reached ⊢
  split_ifs at reached ⊢
  · have dropped : Quiet (s.updateCredits t update) ((s.updateCredits t update).setQueue t
        ((s.updateCredits t update).txqs t).queue.dropRetries) :=
      Quiet.setQueue Queue.dropRetries_flight
    exact (ledger.updateCredits placed (reached.before dropped.grows)).quiet dropped
  · exact ledger.updateCredits placed reached

theorem Ledger.amsduUpdateLen (ledger : s.Ledger) (placed : s.Placed) {amsduLen : Nat}
    {alloc : Nat → Bool} (reached : (s.amsduUpdateLen t amsduLen alloc).Reached) :
    (s.amsduUpdateLen t amsduLen alloc).Ledger := by
  rw [Hw.amsduUpdateLen] at reached ⊢
  split_ifs at reached ⊢
  · exact ledger.quiet (Quiet.setQueue (by rfl))
  · exact ledger.quiet (Quiet.setQueue (by rfl))
  · refine Ledger.start (ledger.quiet ((Quiet.stop _).trans (Quiet.setQueue (by rfl)))) ?_ reached
    exact (placed.stop _).setQueue _

theorem Ledger.dropOldTraffic (ledger : s.Ledger) (now timeout : Nat) :
    (s.dropOldTraffic t now timeout).Ledger := by
  rw [Hw.dropOldTraffic]
  split_ifs
  · have dropped := Quiet.setQueue (s := s) (t := t)
      (Queue.dropOld_flight (q := (s.txqs t).queue) now timeout)
    simp only
    split_ifs
    · exact ledger.quiet dropped
    · refine ledger.quiet (dropped.trans ((Quiet.delFromHwList (t := t)).trans ?_))
      exact Quiet.setTxq (by rfl) (by rfl) (by rfl) (by rfl)
  · exact ledger

end

/-! ## Runs -/

/-- The credits that a confirmation gives back on PCIe fit the hardware queue; a queue is
initialised when it is not in use and has no frame in flight. -/
def Fits (s : Hw n) : Event n → Prop
  | .txCfm t i _ credits =>
      s.bus = .pcie → (s.txqs t).active = true → (s.txqs t).queue.flight[i]? ≠ none →
        (s.txqs t).credits + credits + (s.txqs t).pktPushed ≤ hwqSize s.bus (s.txqs t).hwq + 1
  | .init t _ _ _ _ => (s.txqs t).active = false ∧ (s.txqs t).queue.flight = []
  | _ => True

instance (s : Hw n) (event : Event n) : Decidable (s.Fits event) :=
  match event with
  | .txCfm t i _ credits =>
      inferInstanceAs (Decidable (s.bus = .pcie → (s.txqs t).active = true →
        (s.txqs t).queue.flight[i]? ≠ none →
          (s.txqs t).credits + credits + (s.txqs t).pktPushed ≤ hwqSize s.bus (s.txqs t).hwq + 1))
  | .init t _ _ _ _ =>
      inferInstanceAs (Decidable ((s.txqs t).active = false ∧ (s.txqs t).queue.flight = []))
  | .deinit _ | .queueSkb _ _ | .addSubframe _ _ _ _ | .hwqProcessAll | .start _ _ | .stop _ _
  | .pushLimit _ _ | .creditUpdate _ _ | .amsduUpdateLen _ _ _ | .dropOldTraffic _ _ _ | .fate _ =>
      inferInstanceAs (Decidable True)

/-- The credits fit, and no frame that is pushed in the step is lost: each finds the bus up and can
be mapped. -/
def Regular (s : Hw n) (event : Event n) : Prop :=
  s.Fits event ∧ ∀ s', s.step event = .ok s' → s'.Reached

theorem Ledger.step {s : Hw n} {event : Event n} (ledger : s.Ledger) (placed : s.Placed)
    (regular : s.Regular event) : ∃ s', s.step event = .ok s' ∧ s'.Ledger := by
  obtain ⟨fits, reached⟩ := regular
  cases event with
  | init t status hwq sta legacyPs =>
      obtain ⟨unused, landed⟩ := fits
      exact ⟨_, if_neg (Bool.not_eq_true _ ▸ unused), ledger.initTxq landed status hwq sta legacyPs⟩
  | deinit t => exact ⟨_, rfl, ledger.deinit⟩
  | queueSkb t a => exact ⟨_, rfl, ledger.queueSkb placed (reached _ rfl)⟩
  | addSubframe t a maxnb room => exact ⟨_, rfl, ledger.addSubframe a maxnb room⟩
  | hwqProcessAll => exact ⟨_, rfl, ledger.hwqProcessAll placed (reached _ rfl)⟩
  | start t reason => exact ⟨_, rfl, ledger.start placed (reached _ rfl)⟩
  | stop t reason => exact ⟨_, rfl, ledger.quiet (Quiet.stop reason)⟩
  | pushLimit t limit =>
      exact ⟨_, rfl, ledger.quiet (Quiet.setTxq (by rfl) (by rfl) (by rfl) (by rfl))⟩
  | txCfm t i again credits => exact ⟨_, rfl, ledger.txCfm placed fits (reached _ rfl)⟩
  | creditUpdate t update => exact ⟨_, rfl, ledger.creditUpdate placed (reached _ rfl)⟩
  | amsduUpdateLen t amsduLen alloc =>
      exact ⟨_, rfl, ledger.amsduUpdateLen placed (reached _ rfl)⟩
  | dropOldTraffic t now timeout => exact ⟨_, rfl, ledger.dropOldTraffic now timeout⟩
  | fate fate => exact ⟨_, rfl, { ledger with }⟩

theorem Ledger.balanced {s : Hw n} (ledger : s.Ledger) : Balanced s where
  hwq := ledger.hwq
  txq t := ledger.pushed t ▸ ledger.txq t
  found t f member := by
    rw [ledger.sent t f member]
    exact fun same => (by cases same)
  pool h some := by
    have enough := ledger.credits_le_hostids h
    omega

theorem init_placed (bus : Bus) (data : Fin n → Bool) : (init bus data).Placed where
  listed h t := ⟨fun member => (by cases member), fun both => absurd both.1 Bool.false_ne_true⟩
  nodup h := List.nodup_nil
  active t flag := absurd flag Bool.false_ne_true

theorem init_ledger (bus : Bus) (data : Fin n → Bool) : (init bus data).Ledger where
  sent t f member := (by cases member)
  pushed t := rfl
  txq t := Int.natCast_nonneg _
  hwq h := by
    have none : (init bus data).inFlight h = 0 := Finset.sum_eq_zero fun _ _ => rfl
    rw [none]
    exact Int.add_zero _
  room h := Int.natCast_nonneg _
  ids := by
    have full : ∑ h, ((hwqSize (init bus data).bus h : Int) - ((init bus data).hwqs h).credits) =
        0 :=
      Finset.sum_eq_zero fun _ _ => Int.sub_self _
    rw [full]
    exact (Int.sub_zero _).symm

end Hw

/-- In a run whose steps are all regular, credits and frames in flight are balanced. -/
theorem balanced_of_regular {n : Nat} (bus : Bus) (data : Fin n → Bool) (events : List (Hw.Event n))
    (regular : Run.Guarded Hw.step Hw.Regular events (Hw.init bus data)) :
    Run.Safe Hw.step Balanced events (Hw.init bus data) := by
  have preserved : ∀ (s : Hw n) event, s.Ledger ∧ s.Placed → s.Regular event →
      ∃ s', s.step event = .ok s' ∧ s'.Ledger ∧ s'.Placed := by
    intro s event held regular
    obtain ⟨s', stepped, ledger⟩ := held.1.step held.2 regular
    exact ⟨s', stepped, ledger, held.2.step stepped⟩
  exact regular.safe preserved (fun s held => held.1.balanced)
    ⟨Hw.init_ledger bus data, Hw.init_placed bus data⟩

/-- `Hw.Regular`, tested. -/
def Hw.regularTest {n : Nat} (s : Hw n) (event : Hw.Event n) : Bool :=
  decide (s.Fits event) && match s.step event with
    | .ok s' => decide s'.Reached
    | .error _ => true

/-- Two frames are pushed on PCIe after the bus was suspended and resumed; one is sent again before
it is confirmed. -/
def sentAgain : List (Hw.Event nxNbTxq) :=
  [.init 0 ∅ 1 true true, .fate fun _ => .suspended, .fate fun _ => .sent,
    .queueSkb 0 ⟨0, 100, 1, false⟩, .queueSkb 0 ⟨1, 100, 2, false⟩,
    .txCfm 0 0 true 1, .creditUpdate 0 4, .txCfm 0 1 false 1, .txCfm 0 0 false 1]

theorem sentAgain_balanced :
    Run.Safe Hw.step Balanced sentAgain (Hw.init .pcie fun _ => true) := by
  have sound : ∀ (s : Hw nxNbTxq) event, s.regularTest event = true → s.Regular event := by
    intro s event passed
    rw [Hw.regularTest, Bool.and_eq_true, decide_eq_true_eq] at passed
    refine ⟨passed.1, fun s' stepped => ?_⟩
    have reached := passed.2
    rw [stepped] at reached
    exact of_decide_eq_true reached
  exact balanced_of_regular .pcie (fun _ => true) sentAgain
    (Run.guarded_of_check sound (by decide +kernel))

/-- The bus is suspended when a frame is pushed. -/
def pushedSuspended : List (Hw.Event nxNbTxq) :=
  [.init 0 ∅ 1 true true, .fate fun _ => .suspended, .queueSkb 0 ⟨0, 100, 1, false⟩]

/-- A queue that has all the credits there are pushes two frames; the confirmation of one gives the
credits of both back. -/
def confirmedAhead : List (Hw.Event nxNbTxq) :=
  [.init 0 ∅ 1 true true, .creditUpdate 0 60, .queueSkb 0 ⟨0, 100, 1, false⟩,
    .queueSkb 0 ⟨1, 100, 2, false⟩, .txCfm 0 0 false 2]

/-- The frame that was dropped takes a credit with it, and the firmware has nothing to confirm; the
queue that is given credits ahead has more than its hardware queue has room for. -/
theorem dropped_or_ahead_unbalanced :
    (∃ s, Run.run Hw.step pushedSuspended (Hw.init .pcie fun _ => true) = .ok s ∧
      (s.hwqs 1).credits = 63 ∧ s.inFlight 1 = 0 ∧ ¬Balanced s) ∧
    ∃ s, Run.run Hw.step confirmedAhead (Hw.init .pcie fun _ => true) = .ok s ∧
      (s.txqs 0).credits = 64 ∧ (s.txqs 0).queue.flight.length = 1 ∧ ¬Balanced s := by
  constructor
  · have ends : (Run.run Hw.step pushedSuspended (Hw.init .pcie fun _ => true)).toOption.map
        (fun s => (s.bus, (s.hwqs 1).credits, s.inFlight 1)) = some (.pcie, 63, 0) := by
      decide +kernel
    obtain ⟨s, ran, fields⟩ := Run.ends_of_toOption ends
    simp only [Prod.mk.injEq] at fields
    obtain ⟨bus, credits, none⟩ := fields
    refine ⟨s, ran, credits, none, fun balanced => ?_⟩
    have total := balanced.hwq 1
    rw [bus, credits, none] at total
    exact absurd total (by decide)
  · have ends : (Run.run Hw.step confirmedAhead (Hw.init .pcie fun _ => true)).toOption.map
        (fun s => (s.bus, (s.txqs 0).hwq, (s.txqs 0).credits, (s.txqs 0).queue.flight.length)) =
          some (.pcie, 1, 64, 1) := by
      decide +kernel
    obtain ⟨s, ran, fields⟩ := Run.ends_of_toOption ends
    simp only [Prod.mk.injEq] at fields
    obtain ⟨bus, hwq, credits, flying⟩ := fields
    refine ⟨s, ran, credits, flying, fun balanced => ?_⟩
    have within := balanced.txq 0
    rw [bus, hwq, credits, flying] at within
    exact absurd within (by decide)

end AmlW2.Tx
