import AmlW2.Tx.Txq
import AmlW2.Tx.Retries

/-!
# What the operations do to the queues

The operations of a hardware queue act on its transmit queues by the operations of these, so that
in each of them the frames to be sent again come first.  Pushing only takes credits.
-/

namespace AmlW2.Tx

namespace Hw

variable {n : Nat}

section

variable {s : Hw n} {t : Fin n}

/-! ## Queues that stop and push -/

theorem delFromHwList_txqs (s : Hw n) (t : Fin n) :
    (s.delFromHwList t).txqs =
      Function.update s.txqs t { s.txqs t with inHwqList := false } := by
  rw [delFromHwList]
  split_ifs with flag
  · rfl
  · have same : { s.txqs t with inHwqList := false } = s.txqs t := by
      rw [Bool.not_eq_true] at flag
      rw [← flag]
    rw [same, Function.update_eq_self]

theorem delFromHwList_credits (h : Fin nxTxqCnt) :
    ((s.delFromHwList t).hwqs h).credits = (s.hwqs h).credits := by
  rw [delFromHwList]
  split_ifs
  · by_cases own : h = (s.txqs t).hwq
    · rw [own, setHwq_self]
    · rw [setHwq_of_ne _ _ own]
      rfl
  · rfl

theorem stop_credits (reason : Finset Stop) (h : Fin nxTxqCnt) :
    ((s.stop t reason).hwqs h).credits = (s.hwqs h).credits := by
  rw [stop]
  split_ifs
  · exact delFromHwList_credits h
  · rfl

theorem stop_txqs_of_ne (reason : Finset Stop) {u : Fin n} (other : u ≠ t) :
    (s.stop t reason).txqs u = s.txqs u := by
  rw [stop]
  split_ifs
  · rw [delFromHwList_txqs, Function.update_of_ne other, setTxq_of_ne _ _ other]
  · rfl

theorem stop_queue (reason : Finset Stop) :
    ((s.stop t reason).txqs t).queue = (s.txqs t).queue := by
  rw [stop]
  split_ifs
  · rw [delFromHwList_txqs, Function.update_self, setTxq_self]
  · rfl

/-- A queue in use that is stopped is on no list. -/
theorem stop_flag (active : (s.txqs t).active = true) (reason : Finset Stop) :
    ((s.stop t reason).txqs t).inHwqList = false := by
  rw [stop, if_pos active, delFromHwList_txqs, Function.update_self]

theorem confirmAny_txqs (h : Fin nxTxqCnt) :
    (s.confirmAny t h).txqs t = { s.txqs t with pktPushed := (s.txqs t).pktPushed - 1 } := by
  rw [confirmAny]
  split_ifs
  · exact setTxq_self s t _
  · exact setTxq_self s t _

/-- A push charges the hardware queue of the queue. -/
theorem txPush_credits (f : Frame) (h : Fin nxTxqCnt) :
    ((s.txPush t f).hwqs h).credits =
      if h = (s.txqs t).hwq then (s.hwqs h).credits - 1 else (s.hwqs h).credits := by
  have before : ∀ g, ((((s.charge t f).stopFull t).ipcTxdescPush f.skb).hwqs g).credits =
      (s.hwqs g).credits := by
    intro g
    have stopped : (((s.charge t f).stopFull t).hwqs g).credits = (s.hwqs g).credits := by
      rw [stopFull]
      split_ifs
      · exact stop_credits _ g
      · rfl
    rw [ipcTxdescPush]
    split_ifs
    · exact stopped
    · exact stopped
  rw [txPush]
  split_ifs with own
  · rw [own, setHwq_self, before]
  · rw [setHwq_of_ne _ _ own, before]

theorem ipcTxdescPush_txqs (skb : Nat) : (s.ipcTxdescPush skb).txqs = s.txqs := by
  rw [ipcTxdescPush]
  split_ifs
  · rfl
  · rfl

theorem txPush_txqs (f : Frame) : (s.txPush t f).txqs = ((s.charge t f).stopFull t).txqs :=
  ipcTxdescPush_txqs f.skb

theorem txPush_txqs_of_ne (f : Frame) {u : Fin n} (other : u ≠ t) :
    (s.txPush t f).txqs u = s.txqs u := by
  rw [txPush_txqs, stopFull]
  split_ifs
  · rw [stop_txqs_of_ne _ other]
    exact setTxq_of_ne s _ other
  · exact setTxq_of_ne s _ other

theorem txPush_queue (f : Frame) :
    ((s.txPush t f).txqs t).queue =
      (s.txqs t).queue.txPush (s.txqs t).hwq (s.fateOf f.skb) f := by
  have charged : ((s.charge t f).txqs t).queue =
      (s.txqs t).queue.txPush (s.txqs t).hwq (s.fateOf f.skb) f := by
    rw [charge, setTxq_self, Txq.charge]
  rw [txPush_txqs, stopFull]
  split_ifs
  · rw [stop_queue, charged]
  · exact charged

theorem foldl_txPush_skList (frames : List Frame) :
    ((frames.foldl (fun s f => s.txPush t f) s).txqs t).queue.skList = (s.txqs t).queue.skList := by
  induction frames generalizing s with
  | nil => rfl
  | cons f frames induction =>
      refine induction.trans ?_
      rw [txPush_queue]
      rfl

theorem foldl_txPush_txqs_of_ne (frames : List Frame) {u : Fin n} (other : u ≠ t) :
    (frames.foldl (fun s f => s.txPush t f) s).txqs u = s.txqs u := by
  induction frames generalizing s with
  | nil => rfl
  | cons f frames induction => exact induction.trans (txPush_txqs_of_ne f other)

theorem pushSkbs_skList (count : Nat) :
    ((s.pushSkbs t count).txqs t).queue.skList = (s.txqs t).queue.skList.drop count := by
  rw [pushSkbs, foldl_txPush_skList, setQueue, setTxq_self]

theorem pushSkbs_txqs_of_ne (count : Nat) {u : Fin n} (other : u ≠ t) :
    (s.pushSkbs t count).txqs u = s.txqs u := by
  rw [pushSkbs, foldl_txPush_txqs_of_ne _ other, setQueue, setTxq_of_ne _ _ other]

theorem endTurn_txqs_of_ne (h : Fin nxTxqCnt) (done : Bool) {u : Fin n} (other : u ≠ t) :
    (s.endTurn h t done).txqs u = s.txqs u := by
  rw [endTurn]
  split_ifs
  · rw [setTxq_of_ne _ _ other, delFromHwList_txqs, Function.update_of_ne other]
  · exact setTxq_of_ne s _ other
  · rfl

theorem turn_txqs_of_ne (h : Fin nxTxqCnt) {u : Fin n} (other : u ≠ t) :
    (s.turn h t).txqs u = s.txqs u := by
  have service : ∀ s' : Hw n, (s'.endService t).txqs u = s'.txqs u := by
    intro s'
    rw [endService]
    split_ifs
    · exact setTxq_of_ne s' _ other
    · rfl
  rw [turn, service, endTurn_txqs_of_ne _ _ other, pushSkbs_txqs_of_ne _ other]

end

/-! ## What pushing leaves as it was -/

/-- The queues in use are the same, on the same hardware queues, and the credits taken are frames
pushed. -/
structure Drains (s s' : Hw n) : Prop where
  bus : s'.bus = s.bus
  active : ∀ u, (s'.txqs u).active = (s.txqs u).active
  hwq : ∀ u, (s'.txqs u).hwq = (s.txqs u).hwq
  credits : ∀ u, (s'.txqs u).credits ≤ (s.txqs u).credits
  total : ∀ u, (s'.txqs u).credits + (s'.txqs u).pktPushed =
    (s.txqs u).credits + (s.txqs u).pktPushed

namespace Drains

theorem refl (s : Hw n) : Drains s s :=
  ⟨rfl, fun _ => rfl, fun _ => rfl, fun _ => Int.le_refl _, fun _ => rfl⟩

theorem trans {s s' s'' : Hw n} (first : Drains s s') (second : Drains s' s'') : Drains s s'' where
  bus := second.bus.trans first.bus
  active u := (second.active u).trans (first.active u)
  hwq u := (second.hwq u).trans (first.hwq u)
  credits u := (second.credits u).trans (first.credits u)
  total u := (second.total u).trans (first.total u)

variable {s : Hw n} {t : Fin n}

theorem setTxq {q : Txq} (active : q.active = (s.txqs t).active) (hwq : q.hwq = (s.txqs t).hwq)
    (credits : q.credits ≤ (s.txqs t).credits)
    (total : q.credits + q.pktPushed = (s.txqs t).credits + (s.txqs t).pktPushed) :
    Drains s (s.setTxq t q) where
  bus := rfl
  active := forall_setTxq (P := fun u q => q.active = (s.txqs u).active) active fun _ => rfl
  hwq := forall_setTxq (P := fun u q => q.hwq = (s.txqs u).hwq) hwq fun _ => rfl
  credits := forall_setTxq (P := fun u q => q.credits ≤ (s.txqs u).credits) credits
    fun _ => Int.le_refl _
  total := forall_setTxq
    (P := fun u q => q.credits + q.pktPushed = (s.txqs u).credits + (s.txqs u).pktPushed) total
    fun _ => rfl

theorem setHwq (h : Fin nxTxqCnt) (x : Hwq n) : Drains s (s.setHwq h x) :=
  ⟨rfl, fun _ => rfl, fun _ => rfl, fun _ => Int.le_refl _, fun _ => rfl⟩

theorem delFromHwList : Drains s (s.delFromHwList t) := by
  rw [Hw.delFromHwList]
  split_ifs
  · exact (setTxq (by rfl) (by rfl) (by rfl) (by rfl)).trans (setHwq _ _)
  · exact refl s

theorem stop (reason : Finset Stop) : Drains s (s.stop t reason) := by
  rw [Hw.stop]
  split_ifs
  · exact (setTxq (by rfl) (by rfl) (by rfl) (by rfl)).trans delFromHwList
  · exact refl s

theorem enlist : Drains s (s.enlist t) := by
  rw [Hw.enlist]
  split_ifs
  · exact (setTxq (by rfl) (by rfl) (by rfl) (by rfl)).trans (setHwq _ _)
  · exact refl s

theorem ipcTxdescPush (skb : Nat) : Drains s (s.ipcTxdescPush skb) := by
  rw [Hw.ipcTxdescPush]
  split_ifs
  · exact ⟨rfl, fun _ => rfl, fun _ => rfl, fun _ => Int.le_refl _, fun _ => rfl⟩
  · exact refl s

theorem stopFull : Drains s (s.stopFull t) := by
  rw [Hw.stopFull]
  split_ifs
  · exact stop _
  · exact refl s

theorem txPush (f : Frame) : Drains s (s.txPush t f) := by
  have charge : Drains s (s.charge t f) := by
    refine setTxq rfl rfl (Int.sub_le_self _ Int.one_nonneg) ?_
    simp only [Txq.charge]
    omega
  exact ((charge.trans stopFull).trans (ipcTxdescPush f.skb)).trans (setHwq _ _)

theorem foldl_txPush (frames : List Frame) :
    Drains s (frames.foldl (fun s f => s.txPush t f) s) := by
  induction frames generalizing s with
  | nil => exact refl s
  | cons f frames induction => exact (txPush f).trans induction

theorem pushSkbs (count : Nat) : Drains s (s.pushSkbs t count) :=
  (setTxq (by rfl) (by rfl) (by rfl) (by rfl)).trans (foldl_txPush _)

theorem endTurn (h : Fin nxTxqCnt) (done : Bool) : Drains s (s.endTurn h t done) := by
  rw [Hw.endTurn]
  split_ifs
  · exact delFromHwList.trans (setTxq (by rfl) (by rfl) (by rfl) (by rfl))
  · exact (setTxq (by rfl) (by rfl) (by rfl) (by rfl)).trans (setHwq _ _)
  · exact refl s

theorem endService : Drains s (s.endService t) := by
  rw [Hw.endService]
  split_ifs
  · exact setTxq (by rfl) (by rfl) (by rfl) (by rfl)
  · exact refl s

theorem turn (h : Fin nxTxqCnt) : Drains s (s.turn h t) := by
  have marked : Drains s { s with
      broken := s.broken || decide (((s.txqs t).skbToPush (s.hwqs h).credits).1 ≤ 0) } :=
    ⟨rfl, fun _ => rfl, fun _ => rfl, fun _ => Int.le_refl _, fun _ => rfl⟩
  exact ((marked.trans (pushSkbs _)).trans (endTurn h _)).trans endService

theorem hwqProcessFrom (h : Fin nxTxqCnt) (list : List (Fin n)) :
    Drains s (Hw.hwqProcessFrom h list s) := by
  induction list generalizing s with
  | nil => exact refl s
  | cons t rest induction =>
      rw [Hw.hwqProcessFrom]
      split_ifs
      · exact refl s
      · exact (turn h).trans induction
      · have marked : Drains s { s with sanityError := true } :=
          ⟨rfl, fun _ => rfl, fun _ => rfl, fun _ => Int.le_refl _, fun _ => rfl⟩
        exact marked.trans induction

theorem hwqProcess (h : Fin nxTxqCnt) : Drains s (s.hwqProcess h) :=
  (setHwq _ _).trans (hwqProcessFrom h _)

theorem addToHwList : Drains s (s.addToHwList t) := by
  rw [Hw.addToHwList]
  split_ifs
  · exact refl s
  · exact enlist.trans (hwqProcess _)
  · exact enlist

end Drains

/-! ## Operations of the queues -/

/-- Each queue has gone through operations of its own. -/
def Acts (s s' : Hw n) : Prop :=
  ∀ u, ∃ ops : List Queue.Op, (s'.txqs u).queue = ops.foldl Queue.step (s.txqs u).queue

namespace Acts

theorem refl (s : Hw n) : Acts s s := fun _ => ⟨[], rfl⟩

theorem trans {s s' s'' : Hw n} (first : Acts s s') (second : Acts s' s'') : Acts s s'' := by
  intro u
  obtain ⟨ops, eq⟩ := first u
  obtain ⟨ops', eq'⟩ := second u
  exact ⟨ops ++ ops', by rw [List.foldl_append, ← eq, eq']⟩

variable {s : Hw n} {t : Fin n}

theorem setTxq {q : Txq} (ops : List Queue.Op)
    (queue : q.queue = ops.foldl Queue.step (s.txqs t).queue) : Acts s (s.setTxq t q) := by
  intro u
  by_cases same : u = t
  · subst same
    exact ⟨ops, by rw [setTxq_self, queue]⟩
  · exact ⟨[], by rw [setTxq_of_ne s q same]; rfl⟩

/-- Nothing is done to the frames. -/
theorem same {q : Txq} (queue : q.queue = (s.txqs t).queue) : Acts s (s.setTxq t q) :=
  setTxq [] queue

theorem op (op : Queue.Op) : Acts s (s.setQueue t ((s.txqs t).queue.step op)) :=
  setTxq [op] rfl

theorem setHwq (h : Fin nxTxqCnt) (x : Hwq n) : Acts s (s.setHwq h x) := fun _ => ⟨[], rfl⟩

theorem delFromHwList : Acts s (s.delFromHwList t) := by
  rw [Hw.delFromHwList]
  split_ifs
  · exact (same (by rfl)).trans (setHwq _ _)
  · exact refl s

theorem stop (reason : Finset Stop) : Acts s (s.stop t reason) := by
  rw [Hw.stop]
  split_ifs
  · exact (same (by rfl)).trans delFromHwList
  · exact refl s

theorem enlist : Acts s (s.enlist t) := by
  rw [Hw.enlist]
  split_ifs
  · exact (same (by rfl)).trans (setHwq _ _)
  · exact refl s

theorem endTurn (h : Fin nxTxqCnt) (done : Bool) : Acts s (s.endTurn h t done) := by
  rw [Hw.endTurn]
  split_ifs
  · exact delFromHwList.trans (same (by rfl))
  · exact (same (by rfl)).trans (setHwq _ _)
  · exact refl s

theorem endService : Acts s (s.endService t) := by
  rw [Hw.endService]
  split_ifs
  · exact same (by rfl)
  · exact refl s

/-- The frames pushed have their fates. -/
theorem foldl_txPush_queue (s : Hw n) (t : Fin n) (frames : List Frame) :
    ∃ fates : List Fate, fates.length = frames.length ∧
      ((frames.foldl (fun s f => s.txPush t f) s).txqs t).queue =
        (s.txqs t).queue.txPushAll (s.txqs t).hwq (frames.zip fates) := by
  induction frames generalizing s with
  | nil => exact ⟨[], rfl, rfl⟩
  | cons f frames induction =>
      obtain ⟨fates, length, eq⟩ := induction (s.txPush t f)
      refine ⟨s.fateOf f.skb :: fates, congrArg (· + 1) length, ?_⟩
      have hwq : ((s.txPush t f).txqs t).hwq = (s.txqs t).hwq := (Drains.txPush f).hwq t
      rw [hwq, txPush_queue] at eq
      exact eq

/-- The first frames of a queue are pushed. -/
theorem pushSkbs_queue (count : Nat) :
    ∃ fates : List Fate, fates.length = min count (s.txqs t).queue.skList.length ∧
      ((s.pushSkbs t count).txqs t).queue = (s.txqs t).queue.push (s.txqs t).hwq fates := by
  obtain ⟨fates, length, eq⟩ := foldl_txPush_queue
    (s.setQueue t { (s.txqs t).queue with skList := (s.txqs t).queue.skList.drop count }) t
    ((s.txqs t).queue.skList.take count)
  rw [List.length_take] at length
  refine ⟨fates, length, ?_⟩
  have taken : (s.txqs t).queue.skList.zip fates =
      ((s.txqs t).queue.skList.take count).zip fates := by
    conv_lhs => rw [← List.take_append_drop count (s.txqs t).queue.skList]
    have enough : ((s.txqs t).queue.skList.take count).length = fates.length := by
      rw [List.length_take, length]
    rw [← List.append_nil fates, List.zip_append enough, List.zip_nil_right, List.append_nil,
      List.append_nil]
  have left : (s.txqs t).queue.skList.drop fates.length = (s.txqs t).queue.skList.drop count := by
    rw [length]
    obtain few | many := Nat.le_total count (s.txqs t).queue.skList.length
    · rw [Nat.min_eq_left few]
    · rw [Nat.min_eq_right many, List.drop_length, List.drop_eq_nil_of_le many]
  rw [Hw.pushSkbs, eq, Queue.push, taken, left, setQueue, setTxq_self]

theorem pushSkbs (count : Nat) : Acts s (s.pushSkbs t count) := by
  intro u
  by_cases same : u = t
  · subst same
    obtain ⟨fates, -, eq⟩ := pushSkbs_queue (s := s) (t := u) count
    exact ⟨[.push (s.txqs u).hwq fates], eq⟩
  · exact ⟨[], by rw [pushSkbs_txqs_of_ne count same]; rfl⟩

theorem turn (h : Fin nxTxqCnt) : Acts s (s.turn h t) := by
  have marked : Acts s { s with
      broken := s.broken || decide (((s.txqs t).skbToPush (s.hwqs h).credits).1 ≤ 0) } :=
    fun _ => ⟨[], rfl⟩
  exact ((marked.trans (pushSkbs _)).trans (endTurn h _)).trans endService

theorem hwqProcessFrom (h : Fin nxTxqCnt) (list : List (Fin n)) :
    Acts s (Hw.hwqProcessFrom h list s) := by
  induction list generalizing s with
  | nil => exact refl s
  | cons t rest induction =>
      rw [Hw.hwqProcessFrom]
      split_ifs
      · exact refl s
      · exact (turn h).trans induction
      · have marked : Acts s { s with sanityError := true } := fun _ => ⟨[], rfl⟩
        exact marked.trans induction

theorem hwqProcess (h : Fin nxTxqCnt) : Acts s (s.hwqProcess h) :=
  (setHwq _ _).trans (hwqProcessFrom h _)

theorem hwqProcessAll : Acts s s.hwqProcessAll := by
  rw [Hw.hwqProcessAll]
  generalize (List.finRange nxTxqCnt).reverse = hwqs
  induction hwqs generalizing s with
  | nil => exact refl s
  | cons h hwqs induction =>
      refine Acts.trans ?_ induction
      change Acts s (if (s.hwqs h).needProcessing = true then s.hwqProcess h else s)
      split_ifs
      · exact hwqProcess h
      · exact refl s

theorem addToHwList : Acts s (s.addToHwList t) := by
  rw [Hw.addToHwList]
  split_ifs
  · exact refl s
  · exact enlist.trans (hwqProcess _)
  · exact enlist

theorem start (reason : Finset Stop) : Acts s (s.start t reason) := by
  rw [Hw.start]
  split_ifs
  · exact (same (by rfl)).trans addToHwList
  · exact refl s

theorem setCredits (credits : Int) : Acts s (s.setCredits t credits) := same (by rfl)

theorem settle : Acts s (s.settle t) := by
  rw [Hw.settle]
  split_ifs
  · exact stop _
  · exact start _

theorem confirmAny (h : Fin nxTxqCnt) : Acts s (s.confirmAny t h) := by
  have freed : Acts s (s.uncount t) := Acts.trans (same (by rfl)) fun _ => ⟨[], rfl⟩
  rw [Hw.confirmAny]
  split_ifs
  · exact freed
  · exact freed.trans (setHwq _ _)

theorem txRetry (i credits : Nat) : Acts s (s.txRetry t i credits) := by
  have given : Acts s
      (((s.setQueue t ((s.txqs t).queue.retry i)).addToHwList t).setCredits t
        ((((s.setQueue t ((s.txqs t).queue.retry i)).addToHwList t).txqs t).credits + credits)) :=
    ((op (.retry i)).trans addToHwList).trans (setCredits _)
  rw [Hw.txRetry]
  split_ifs
  · exact given.trans (start _)
  · exact given

theorem txConfirm (i credits : Nat) : Acts s (s.txConfirm t i credits) := by
  have done : Acts s (s.setQueue t ((s.txqs t).queue.confirm i)) := op (.confirm i)
  rw [Hw.txConfirm]
  split_ifs
  · exact (done.trans (setCredits _)).trans settle
  · exact done

theorem txCfm (i : Nat) (again : Bool) (credits : Nat) : Acts s (s.txCfm t i again credits) := by
  rw [Hw.txCfm]
  split
  · exact refl s
  · simp only
    split_ifs
    · exact (confirmAny _).trans (txRetry _ _)
    · exact (confirmAny _).trans (txRetry _ _)
    · exact (confirmAny _).trans (txConfirm _ _)
    · exact (confirmAny _).trans (txConfirm _ _)
    · exact refl s

theorem updateCredits (update : Int) : Acts s (s.updateCredits t update) := by
  rw [Hw.updateCredits]
  split_ifs
  · exact (setCredits _).trans settle
  · exact refl s

theorem creditUpdate (update : Int) : Acts s (s.creditUpdate t update) := by
  rw [Hw.creditUpdate]
  split_ifs
  · exact (updateCredits update).trans (op .dropRetries)
  · exact updateCredits update

theorem amsduUpdateLen (amsduLen : Nat) (alloc : Nat → Bool) :
    Acts s (s.amsduUpdateLen t amsduLen alloc) := by
  rw [Hw.amsduUpdateLen]
  split_ifs
  · exact op (.setAmsduLen _)
  · exact op (.setAmsduLen _)
  · have changed : Acts (s.stop t {.dismantleAmsdu})
        ((s.stop t {.dismantleAmsdu}).setQueue t
          { ((s.stop t {.dismantleAmsdu}).txqs t).queue.dismantle amsduLen alloc with
            amsduLen := amsduLenOn s.bus amsduLen }) :=
      setTxq [.dismantle amsduLen alloc, .setAmsduLen (amsduLenOn s.bus amsduLen)] rfl
    exact ((stop _).trans changed).trans (start _)

theorem step {s' : Hw n} {event : Event n} (stepped : s.step event = .ok s') : Acts s s' := by
  cases event with
  | init t status hwq sta legacyPs =>
      rw [Hw.step] at stepped
      split_ifs at stepped
      cases stepped
      exact setTxq [.reset] rfl
  | deinit t =>
      cases stepped
      rw [Hw.deinit]
      split_ifs
      · exact delFromHwList.trans (setTxq [.flush] rfl)
      · exact refl s
  | queueSkb t a =>
      cases stepped
      rw [Hw.queueSkb]
      split_ifs
      · exact (op (.queue a)).trans addToHwList
      · exact refl s
  | addSubframe t a maxnb room =>
      cases stepped
      rw [Hw.addSubframe]
      split_ifs
      · exact op (.subframe a maxnb room)
      · exact refl s
  | hwqProcessAll =>
      cases stepped
      exact hwqProcessAll
  | start t reason =>
      cases stepped
      exact start reason
  | stop t reason =>
      cases stepped
      exact stop reason
  | pushLimit t limit =>
      cases stepped
      exact same rfl
  | txCfm t i again credits =>
      cases stepped
      exact txCfm i again credits
  | creditUpdate t update =>
      cases stepped
      exact creditUpdate update
  | amsduUpdateLen t amsduLen alloc =>
      cases stepped
      exact amsduUpdateLen amsduLen alloc
  | dropOldTraffic t now timeout =>
      cases stepped
      rw [Hw.dropOldTraffic]
      simp only
      split_ifs
      · exact op (.dropOld now timeout)
      · exact ((op (.dropOld now timeout)).trans delFromHwList).trans (same (by rfl))
      · exact refl s
  | fate fate =>
      cases stepped
      exact fun _ => ⟨[], rfl⟩

end Acts

/-! ## Frames to be sent again -/

/-- Every queue consists of frames to be sent again and of new ones. -/
def AllParts (s : Hw n) : Prop := ∀ u, ∃ again new, Parts (s.txqs u).queue again new

theorem AllParts.acts {s s' : Hw n} (all : s.AllParts) (acts : Acts s s') : s'.AllParts := by
  intro u
  obtain ⟨again, new, parts⟩ := all u
  obtain ⟨ops, eq⟩ := acts u
  rw [eq]
  exact parts.foldl ops

theorem init_allParts (bus : Bus) (data : Fin n → Bool) : (init bus data).AllParts :=
  fun u => ⟨[], [], init_parts (data u)⟩

/-! ## Lists -/

/-- The lists are what the flags say. -/
structure Listing (s : Hw n) : Prop where
  listed : ∀ h t, t ∈ (s.hwqs h).list ↔ (s.txqs t).inHwqList = true ∧ (s.txqs t).hwq = h
  nodup : ∀ h, (s.hwqs h).list.Nodup

/-- A queue keeps its place. -/
def KeepsPlace (q q' : Txq) : Prop :=
  ∀ h, (q'.inHwqList = true ∧ q'.hwq = h) ↔ (q.inHwqList = true ∧ q.hwq = h)

section

variable {s : Hw n} {t : Fin n} {q : Txq}

theorem Listing.setTxq (listing : s.Listing) (place : KeepsPlace (s.txqs t) q) :
    (s.setTxq t q).Listing where
  listed h := forall_setTxq (P := fun u q => u ∈ (s.hwqs h).list ↔ q.inHwqList = true ∧ q.hwq = h)
    ((listing.listed h t).trans (place h).symm) (listing.listed h)
  nodup := listing.nodup

theorem Listing.setHwq (listing : s.Listing) {h : Fin nxTxqCnt} {x : Hwq n}
    (perm : x.list.Perm (s.hwqs h).list) : (s.setHwq h x).Listing where
  listed := forall_setHwq
    (P := fun g x => ∀ u, u ∈ x.list ↔ (s.txqs u).inHwqList = true ∧ (s.txqs u).hwq = g)
    (fun u => perm.mem_iff.trans (listing.listed h u)) listing.listed
  nodup := forall_setHwq (P := fun _ x => x.list.Nodup) (perm.nodup_iff.mpr (listing.nodup h))
    listing.nodup

/-- A queue is put on the list of its hardware queue, or taken off. -/
theorem Listing.relist (listing : s.Listing) {flag need : Bool} {l : List (Fin n)} (nodup : l.Nodup)
    (other : ∀ u, u ≠ t → (u ∈ l ↔ u ∈ (s.hwqs (s.txqs t).hwq).list)) (self : t ∈ l ↔ flag = true) :
    ((s.setTxq t { s.txqs t with inHwqList := flag }).setHwq (s.txqs t).hwq
      ⟨l, (s.hwqs (s.txqs t).hwq).credits, need⟩).Listing := by
  have here : ∀ u, u ≠ t → Function.update s.txqs t { s.txqs t with inHwqList := flag } u =
      s.txqs u := fun u other => Function.update_of_ne other _ _
  have there : Function.update s.txqs t { s.txqs t with inHwqList := flag } t =
      { s.txqs t with inHwqList := flag } := Function.update_self _ _ _
  have txqs : ((s.setTxq t { s.txqs t with inHwqList := flag }).setHwq (s.txqs t).hwq
      ⟨l, (s.hwqs (s.txqs t).hwq).credits, need⟩).txqs =
        Function.update s.txqs t { s.txqs t with inHwqList := flag } := rfl
  refine ⟨?_, ?_⟩
  · intro h u
    rw [txqs]
    by_cases same : u = t
    · subst same
      rw [there]
      by_cases own : h = (s.txqs u).hwq
      · subst own
        rw [setHwq_self, self]
        exact ⟨fun flag => ⟨flag, rfl⟩, fun both => both.1⟩
      · rw [setHwq_of_ne _ _ own]
        exact ⟨fun member => absurd ((listing.listed h u).mp member).2.symm own,
          fun both => absurd both.2.symm own⟩
    · rw [here u same, ← listing.listed h u]
      by_cases own : h = (s.txqs t).hwq
      · subst own
        rw [setHwq_self]
        exact other u same
      · rw [setHwq_of_ne _ _ own]
        exact Iff.rfl
  · intro h
    by_cases own : h = (s.txqs t).hwq
    · subst own
      rw [setHwq_self]
      exact nodup
    · rw [setHwq_of_ne _ _ own]
      exact listing.nodup h
/-- The list without a queue. -/
theorem Listing.erase (listing : s.Listing) (t : Fin n) :
    ((s.hwqs (s.txqs t).hwq).list.erase t).Nodup ∧
      (∀ u, u ≠ t → (u ∈ (s.hwqs (s.txqs t).hwq).list.erase t ↔ u ∈ (s.hwqs (s.txqs t).hwq).list)) ∧
        (t ∈ (s.hwqs (s.txqs t).hwq).list.erase t ↔ false = true) := by
  have nodup := listing.nodup (s.txqs t).hwq
  refine ⟨nodup.erase t, fun u other => List.mem_erase_of_ne other,
    fun member => ?_, fun flag => ?_⟩
  · exact absurd member nodup.not_mem_erase
  · exact absurd flag Bool.false_ne_true

/-- The list with a queue that was not on it. -/
theorem Listing.append (listing : s.Listing) (off : (s.txqs t).inHwqList = false) :
    ((s.hwqs (s.txqs t).hwq).list ++ [t]).Nodup ∧
      (∀ u, u ≠ t → (u ∈ (s.hwqs (s.txqs t).hwq).list ++ [t] ↔ u ∈ (s.hwqs (s.txqs t).hwq).list)) ∧
        (t ∈ (s.hwqs (s.txqs t).hwq).list ++ [t] ↔ true = true) := by
  have absent : t ∉ (s.hwqs (s.txqs t).hwq).list := by
    rw [listing.listed, off]
    exact fun both => absurd both.1 Bool.false_ne_true
  refine ⟨?_, fun u other => ?_, fun _ => rfl, fun _ => ?_⟩
  · rw [List.nodup_append]
    refine ⟨listing.nodup _, List.nodup_singleton t, fun u member v here same => ?_⟩
    obtain rfl : u = t := same.trans (List.mem_singleton.mp here)
    exact absent member
  · rw [List.mem_append, List.mem_singleton]
    exact ⟨fun either => either.resolve_right other, Or.inl⟩
  · exact List.mem_append_right _ List.mem_cons_self

theorem Listing.delFromHwList (listing : s.Listing) : (s.delFromHwList t).Listing := by
  rw [Hw.delFromHwList]
  split_ifs
  · obtain ⟨nodup, other, self⟩ := listing.erase t
    exact listing.relist nodup other self
  · exact listing

end

end Hw

end AmlW2.Tx
