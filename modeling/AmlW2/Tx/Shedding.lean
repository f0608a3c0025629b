import AmlW2.Tx.Credits
import AmlW2.Tx.Schedule
import Mathlib.Data.List.TakeWhile

/-!
# Shedding of frames to be sent again

A low credit update is to drop the frames that are to be sent again.  Its loop counts its turns up
to `nb_retry`, and each turn takes one from `nb_retry`, so that only half of them are dropped.
-/

namespace AmlW2.Tx

/-- Every frame to be sent again is dropped, unless the firmware got it before, and the new frames
stay in order. -/
structure Sheds (q q' : Queue) : Prop where
  left : q'.skList = q.skList.drop (max q.nbRetry (q'.flight.length - q.flight.length))
  nbRetry : q'.nbRetry = 0
  last : q'.lastRetrySkb = none

namespace Queue

variable {q : Queue}

/-! ## Frames pushed -/

theorem txPushAll_nbRetry (hwQueue : Fin nxTxqCnt) (frames : List (Frame × Fate)) :
    (q.txPushAll hwQueue frames).nbRetry = q.nbRetry - frames.length := by
  induction frames generalizing q with
  | nil => rfl
  | cons pushed frames induction =>
      have fewer : (q.txPush hwQueue pushed.2 pushed.1).nbRetry = q.nbRetry - 1 := rfl
      refine induction.trans ?_
      rw [fewer, List.length_cons, Nat.sub_sub, Nat.add_comm 1]

theorem txPushAll_flight (hwQueue : Fin nxTxqCnt) (frames : List (Frame × Fate)) :
    (q.txPushAll hwQueue frames).flight.length = q.flight.length + frames.length := by
  induction frames generalizing q with
  | nil => rfl
  | cons pushed frames induction =>
      have more : (q.txPush hwQueue pushed.2 pushed.1).flight.length = q.flight.length + 1 := by
        simp [txPush]
      refine induction.trans ?_
      rw [more, List.length_cons, Nat.add_assoc, Nat.add_comm 1]

theorem txPushAll_skList (hwQueue : Fin nxTxqCnt) (frames : List (Frame × Fate)) :
    (q.txPushAll hwQueue frames).skList = q.skList := by
  induction frames generalizing q with
  | nil => rfl
  | cons pushed frames induction => exact induction

theorem push_nil (hwQueue : Fin nxTxqCnt) : q.push hwQueue [] = q := by
  rw [push, List.zip_nil_right]
  rfl

/-- What a push leaves. -/
theorem push_spec (hwQueue : Fin nxTxqCnt) {fates : List Fate}
    (fit : fates.length ≤ q.skList.length) :
    (q.push hwQueue fates).skList = q.skList.drop fates.length ∧
      (q.push hwQueue fates).nbRetry = q.nbRetry - fates.length ∧
        (q.push hwQueue fates).flight.length = q.flight.length + fates.length := by
  have pushed : (q.skList.zip fates).length = fates.length := by simp [fit]
  refine ⟨txPushAll_skList _ _, ?_, ?_⟩
  · rw [push, txPushAll_nbRetry, pushed]
  · rw [push, txPushAll_flight, pushed]

/-! ## The loop -/

/-- Each turn brings the counter and `nb_retry` closer by two. -/
theorem dropRetriesFrom_spec {fuel packet : Nat} (count : q.nbRetry ≤ q.skList.length)
    (enough : q.nbRetry ≤ packet + fuel) :
    (dropRetriesFrom fuel packet q).skList = q.skList.drop ((q.nbRetry - packet + 1) / 2) ∧
      (dropRetriesFrom fuel packet q).nbRetry =
        q.nbRetry - (q.nbRetry - packet + 1) / 2 := by
  induction fuel generalizing q packet with
  | zero =>
      have done : (q.nbRetry - packet + 1) / 2 = 0 := by omega
      simp [dropRetriesFrom, done]
  | succ fuel induction =>
      rw [dropRetriesFrom]
      split_ifs with more
      · cases first : q.skList with
        | nil =>
            rw [first, List.length_nil] at count
            omega
        | cons f rest =>
            have left := dropSkb_head first true
            have fewer : (q.dropSkb f true).nbRetry = q.nbRetry - 1 := rfl
            rw [first, List.length_cons] at count
            have count' : (q.dropSkb f true).nbRetry ≤ (q.dropSkb f true).skList.length := by
              rw [left, fewer]
              omega
            have enough' : (q.dropSkb f true).nbRetry ≤ packet + 1 + fuel := by
              rw [fewer]
              omega
            obtain ⟨dropped, nbRetry⟩ := induction count' enough'
            rw [left, fewer] at dropped
            rw [fewer] at nbRetry
            have turns : (q.nbRetry - packet + 1) / 2 =
                (q.nbRetry - 1 - (packet + 1) + 1) / 2 + 1 := by
              omega
            rw [turns, List.drop_succ_cons]
            refine ⟨dropped, nbRetry.trans ?_⟩
            omega
      · have done : (q.nbRetry - packet + 1) / 2 = 0 := by omega
        simp [done]

/-- The loop drops the half of the frames to be sent again, rounded up. -/
theorem dropRetries_spec (count : q.nbRetry ≤ q.skList.length) :
    q.dropRetries.skList = q.skList.drop ((q.nbRetry + 1) / 2) ∧
      q.dropRetries.nbRetry = q.nbRetry - (q.nbRetry + 1) / 2 :=
  dropRetriesFrom_spec count (Nat.le_add_left _ _)

/-- After a push, the loop sheds exactly when one frame to be sent again is left at most. -/
theorem push_sheds_iff {again new : List Frame} (parts : Parts q again new)
    (hwQueue : Fin nxTxqCnt) {fates : List Fate} (fit : fates.length ≤ q.skList.length) :
    Sheds q (q.push hwQueue fates).dropRetries ↔ q.nbRetry ≤ fates.length + 1 := by
  obtain ⟨skList, nbRetry, flight⟩ := push_spec hwQueue fit
  obtain ⟨again', new', parts'⟩ := parts.push hwQueue fates
  obtain ⟨again'', new'', parts''⟩ := parts'.dropRetries
  obtain ⟨left, fewer⟩ := dropRetries_spec parts'.count_le
  rw [skList, nbRetry, List.drop_drop] at left
  rw [nbRetry] at fewer
  constructor
  · intro sheds
    have none := sheds.nbRetry
    omega
  · intro few
    have none : (q.push hwQueue fates).dropRetries.nbRetry = 0 := by omega
    refine ⟨?_, none, ?_⟩
    · have gone : fates.length + (q.nbRetry - fates.length + 1) / 2 =
          max q.nbRetry fates.length := by
        omega
      rw [left, dropRetries_flight, flight, Nat.add_sub_cancel_left, gone]
    · rw [parts''.last, List.length_eq_zero_iff.mp (parts''.count.symm.trans none)]
      rfl

end Queue

/-! ## What is pushed before -/

/-- How many frames a queue pushes on its turn, as far as the credits go. -/
def Txq.takes (q : Txq) (hwqCredits : Int) : Nat :=
  if q.inHwqList = true ∧ q.active = true ∧ 0 < q.credits ∧ q.SkbReady then
    min (q.skbToPush hwqCredits).1.toNat q.queue.skList.length
  else 0

theorem Txq.takes_le (q : Txq) (hwqCredits : Int) : q.takes hwqCredits ≤ q.queue.skList.length := by
  rw [takes]
  split
  · exact Nat.min_le_right _ _
  · exact Nat.zero_le _

theorem Txq.takes_zero (q : Txq) : q.takes 0 = 0 := by
  rw [takes]
  split
  · rename_i ready
    have some : 0 < q.queue.skList.length := List.length_pos_iff.mpr ready.2.2.2
    have least : min q.getCredits 0 ≤ 0 := Int.min_le_right _ _
    rw [skbToPush, if_neg (by omega)]
    change min (min q.getCredits 0).toNat _ = 0
    omega
  · rfl

namespace Hw

variable {n : Nat}

/-- The credits that the queues before leave. -/
def spared (s : Hw n) (before : List (Fin n)) (credits : Int) : Int :=
  before.foldl (fun credits u => credits - (s.txqs u).takes credits) credits

/-- How many frames a queue pushes when a credit update restarts it, which only PCIe does at once:
those ahead on the list come first. -/
def pushedBy (s : Hw n) (t : Fin n) (update : Int) : Nat :=
  if s.bus = .pcie ∧ (s.txqs t).active = true ∧ (s.txqs t).stops = {.full} then
    { s.txqs t with
      inHwqList := true
      credits := (s.txqs t).creditsAfter s.bus update }.takes
        (s.spared ((s.hwqs (s.txqs t).hwq).list.takeWhile (· ≠ t)) (s.hwqs (s.txqs t).hwq).credits)
  else 0

section

variable {s : Hw n} {t : Fin n} {h : Fin nxTxqCnt}

theorem spared_zero (before : List (Fin n)) : s.spared before 0 = 0 :=
  List.foldl_fixed' (fun u => by rw [Txq.takes_zero]; rfl) before

theorem spared_congr {s' : Hw n} {before : List (Fin n)}
    (same : ∀ u ∈ before, s'.txqs u = s.txqs u) (credits : Int) :
    s'.spared before credits = s.spared before credits :=
  List.foldl_ext _ _ credits fun credits u member => by rw [same u member]

theorem foldl_txPush_credits (own : (s.txqs t).hwq = h) (frames : List Frame) :
    ((frames.foldl (fun s f => s.txPush t f) s).hwqs h).credits =
      (s.hwqs h).credits - frames.length := by
  induction frames generalizing s with
  | nil => exact (Int.sub_zero _).symm
  | cons f frames induction =>
      have same : ((s.txPush t f).txqs t).hwq = h := ((Drains.txPush f).hwq t).trans own
      refine (induction same).trans ?_
      rw [txPush_credits, if_pos own.symm, List.length_cons]
      omega

theorem endTurn_queue (done : Bool) : ((s.endTurn h t done).txqs t).queue = (s.txqs t).queue := by
  rw [endTurn]
  split_ifs
  · rw [setTxq_self, delFromHwList_txqs, Function.update_self]
  · rw [setHwq, setTxq_self]
  · rfl

theorem endService_queue : ((s.endService t).txqs t).queue = (s.txqs t).queue := by
  rw [endService]
  split_ifs
  · rw [setTxq_self]
  · rfl

/-- A ready queue pushes on its turn what it takes. -/
theorem turn_spec (own : (s.txqs t).hwq = h)
    (ready : (s.txqs t).inHwqList = true ∧ (s.txqs t).active = true ∧ 0 < (s.txqs t).credits ∧
      (s.txqs t).SkbReady) :
    ((s.turn h t).hwqs h).credits =
        (s.hwqs h).credits - (s.txqs t).takes (s.hwqs h).credits ∧
      ∃ fates : List Fate, fates.length = (s.txqs t).takes (s.hwqs h).credits ∧
        ((s.turn h t).txqs t).queue = (s.txqs t).queue.push h fates := by
  rw [Txq.takes, if_pos ready]
  constructor
  · rw [turn, Quiet.endService.hwqs, (Quiet.endTurn h _).hwqs, pushSkbs, foldl_txPush_credits,
      List.length_take]
    · rfl
    · rw [setQueue, setTxq_self]
      exact own
  · have marked := Acts.pushSkbs_queue (s := { s with
      broken := s.broken || decide (((s.txqs t).skbToPush (s.hwqs h).credits).1 ≤ 0) }) (t := t)
      ((s.txqs t).skbToPush (s.hwqs h).credits).1.toNat
    rw [turn, endService_queue, endTurn_queue, ← own]
    rw [own] at marked ⊢
    exact marked

theorem hwqProcessFrom_txqs_of_not_mem {list : List (Fin n)} (absent : t ∉ list) :
    (hwqProcessFrom h list s).txqs t = s.txqs t := by
  induction list generalizing s with
  | nil => rfl
  | cons u rest induction =>
      obtain ⟨other, absent⟩ := List.ne_and_not_mem_of_not_mem_cons absent
      rw [hwqProcessFrom]
      split_ifs
      · rfl
      · exact (induction absent).trans (turn_txqs_of_ne h other)
      · exact induction absent

/-- A queue on a list pushes what it takes of the credits that those ahead leave. -/
theorem hwqProcessFrom_queue {before after : List (Fin n)} (nodup : (before ++ t :: after).Nodup)
    (own : ∀ u ∈ before ++ t :: after, (s.txqs u).hwq = h) :
    ∃ fates : List Fate,
      fates.length = (s.txqs t).takes (s.spared before (s.hwqs h).credits) ∧
        ((hwqProcessFrom h (before ++ t :: after) s).txqs t).queue =
          (s.txqs t).queue.push h fates := by
  induction before generalizing s with
  | nil =>
      have absent : t ∉ after := (List.nodup_cons.mp nodup).1
      rw [List.nil_append, hwqProcessFrom]
      split_ifs with ready empty
      · rw [empty]
        exact ⟨[], (Txq.takes_zero _).symm, (Queue.push_nil h).symm⟩
      · rw [hwqProcessFrom_txqs_of_not_mem absent]
        exact (turn_spec (own t List.mem_cons_self) ready).2
      · rw [hwqProcessFrom_txqs_of_not_mem absent]
        exact ⟨[], (if_neg ready).symm, (Queue.push_nil h).symm⟩
  | cons u before induction =>
      obtain ⟨fresh, nodup⟩ := List.nodup_cons.mp nodup
      have other : t ≠ u := by
        rintro rfl
        exact fresh (List.mem_append_right _ List.mem_cons_self)
      have own' : ∀ v ∈ before ++ t :: after, (s.txqs v).hwq = h :=
        fun v member => own v (List.mem_cons_of_mem u member)
      rw [List.cons_append, hwqProcessFrom]
      split_ifs with ready empty
      · rw [empty, spared_zero]
        exact ⟨[], (Txq.takes_zero _).symm, (Queue.push_nil h).symm⟩
      · have apart : ∀ v ∈ before ++ t :: after, (s.turn h u).txqs v = s.txqs v := by
          intro v member
          refine turn_txqs_of_ne h ?_
          rintro rfl
          exact fresh member
        obtain ⟨fates, length, queue⟩ := induction (s := s.turn h u) nodup
          fun v member => (apart v member).symm ▸ own' v member
        have sparing : (s.turn h u).spared before ((s.turn h u).hwqs h).credits =
            s.spared (u :: before) (s.hwqs h).credits := by
          rw [(turn_spec (own u List.mem_cons_self) ready).1]
          exact spared_congr (fun v member => apart v (List.mem_append_left _ member)) _
        rw [sparing, turn_txqs_of_ne h other] at length
        rw [turn_txqs_of_ne h other] at queue
        exact ⟨fates, length, queue⟩
      · obtain ⟨fates, length, queue⟩ := induction (s := { s with sanityError := true }) nodup own'
        refine ⟨fates, length.trans ?_, queue⟩
        have none : (s.txqs u).takes (s.hwqs h).credits = 0 := if_neg ready
        rw [spared, spared, List.foldl_cons, none]
        simp

/-! ## A queue that is restarted -/

theorem enlist_txqs_of_ne {u : Fin n} (other : u ≠ t) : (s.enlist t).txqs u = s.txqs u := by
  rw [enlist]
  split_ifs
  · exact setTxq_of_ne s _ other
  · rfl

theorem enlist_txqs (flag : ((s.enlist t).txqs t).inHwqList = true) :
    (s.enlist t).txqs t = { s.txqs t with inHwqList := true } := by
  rw [enlist] at flag ⊢
  split_ifs at flag ⊢
  · exact setTxq_self s t _
  · rw [← flag]

theorem enlist_queue : ((s.enlist t).txqs t).queue = (s.txqs t).queue := by
  rw [enlist]
  split_ifs
  · rw [setHwq, setTxq_self]
  · rfl

theorem takeWhile_ne_append {list : List (Fin n)} (member : t ∈ list) :
    ∃ after, list = list.takeWhile (· ≠ t) ++ t :: after := by
  induction list with
  | nil => cases member
  | cons u rest induction =>
      by_cases same : u = t
      · exact ⟨rest, by simp [same]⟩
      · obtain ⟨after, eq⟩ := induction (List.mem_of_ne_of_mem (Ne.symm same) member)
        refine ⟨after, ?_⟩
        simpa [same] using eq

theorem ne_of_mem_ahead {list : List (Fin n)} {u : Fin n}
    (member : u ∈ list.takeWhile (· ≠ t)) : u ≠ t := by
  have passed := List.mem_takeWhile_imp member
  exact of_decide_eq_true passed

/-- What the queues ahead leave does not depend on the queue. -/
theorem spared_setTxq (s : Hw n) (t : Fin n) (q : Txq) :
    (s.setTxq t q).spared ((s.hwqs (s.txqs t).hwq).list.takeWhile (· ≠ t))
        (s.hwqs (s.txqs t).hwq).credits =
      s.spared ((s.hwqs (s.txqs t).hwq).list.takeWhile (· ≠ t)) (s.hwqs (s.txqs t).hwq).credits :=
  spared_congr (fun _ member => setTxq_of_ne s q (ne_of_mem_ahead member)) _

/-- The queues ahead on the list are those that were before. -/
theorem enlist_ahead :
    ((s.enlist t).hwqs (s.txqs t).hwq).list.takeWhile (· ≠ t) =
      (s.hwqs (s.txqs t).hwq).list.takeWhile (· ≠ t) := by
  rw [enlist]
  split_ifs
  · rw [setHwq_self]
    generalize (s.hwqs (s.txqs t).hwq).list = list
    induction list with
    | nil => simp
    | cons u rest induction =>
        by_cases same : u = t
        · simp [same]
        · simpa [same] using induction
  · rfl

/-- What a queue that is no longer stopped pushes at once. -/
theorem addToHwList_pushes (placed : s.Placed) (active : (s.txqs t).active = true)
    (running : (s.txqs t).stops = ∅) :
    ∃ fates : List Fate,
      fates.length = (if s.bus = .pcie then
        { s.txqs t with inHwqList := true }.takes
          (s.spared ((s.hwqs (s.txqs t).hwq).list.takeWhile (· ≠ t))
            (s.hwqs (s.txqs t).hwq).credits) else 0) ∧
        ((s.addToHwList t).txqs t).queue = (s.txqs t).queue.push (s.txqs t).hwq fates := by
  have still : ((s.enlist t).txqs t).queue = (s.txqs t).queue.push (s.txqs t).hwq [] :=
    enlist_queue.trans (Queue.push_nil _).symm
  rw [Hw.addToHwList, if_neg (not_not.mpr running)]
  by_cases pcie : s.bus = .pcie
  · rw [if_pos pcie]
    cases flag : ((s.enlist t).txqs t).inHwqList with
    | true =>
        rw [if_pos ⟨pcie, rfl⟩]
        have listed : (s.enlist t).Placed := placed.enlist active
        have self := enlist_txqs flag
        have own : ((s.enlist t).txqs t).hwq = (s.txqs t).hwq := by rw [self]
        obtain ⟨after, split⟩ := takeWhile_ne_append
          ((listed.listed (s.txqs t).hwq t).mpr ⟨flag, own⟩)
        have nodup := listed.nodup (s.txqs t).hwq
        have owned := fun u member => ((listed.listed (s.txqs t).hwq u).mp member).2
        have sparing : (s.enlist t).spared ((s.hwqs (s.txqs t).hwq).list.takeWhile (· ≠ t)) =
            s.spared ((s.hwqs (s.txqs t).hwq).list.takeWhile (· ≠ t)) := by
          funext credits
          exact spared_congr (fun u member => enlist_txqs_of_ne (ne_of_mem_ahead member)) credits
        rw [enlist_ahead] at split
        rw [split] at nodup owned
        obtain ⟨fates, length, queue⟩ := hwqProcessFrom_queue
          (s := (s.enlist t).setHwq (s.txqs t).hwq
            { (s.enlist t).hwqs (s.txqs t).hwq with needProcessing := false }) nodup owned
        rw [setHwq_self] at length
        change fates.length = ((s.enlist t).txqs t).takes ((s.enlist t).spared _
          ((s.enlist t).hwqs (s.txqs t).hwq).credits) at length
        rw [self, sparing, Quiet.enlist.hwqs] at length
        refine ⟨fates, length, ?_⟩
        rw [Hw.hwqProcess, split]
        refine queue.trans ?_
        change ((s.enlist t).txqs t).queue.push _ fates = _
        rw [self]
    | false =>
        rw [if_neg (fun both => Bool.false_ne_true both.2)]
        refine ⟨[], ?_, still⟩
        rw [Hw.enlist] at flag
        split_ifs at flag with ready
        · rw [setHwq, setTxq_self] at flag
          cases flag
        · rw [Txq.takes, if_neg fun both => ready ⟨flag, both.2.2⟩]
          rfl
  · rw [if_neg pcie, if_neg fun both => pcie both.1]
    exact ⟨[], rfl, still⟩

/-- What a queue pushes at once when it gets credits again. -/
theorem start_pushes (placed : s.Placed) (active : (s.txqs t).active = true) :
    ∃ fates : List Fate,
      fates.length = (if s.bus = .pcie ∧ (s.txqs t).stops = {.full} then
        { s.txqs t with inHwqList := true }.takes
          (s.spared ((s.hwqs (s.txqs t).hwq).list.takeWhile (· ≠ t))
            (s.hwqs (s.txqs t).hwq).credits) else 0) ∧
        ((s.start t {.full}).txqs t).queue = (s.txqs t).queue.push (s.txqs t).hwq fates := by
  have still := (Queue.push_nil (q := (s.txqs t).queue) (s.txqs t).hwq).symm
  by_cases only : (s.txqs t).stops = {.full}
  · have started : (s.txqs t).stops ∩ {.full} ≠ ∅ := by simp [only]
    have drained : (s.txqs t).stops \ {.full} = ∅ := by simp [only]
    have restarted : (s.setTxq t { s.txqs t with stops := (s.txqs t).stops \ {.full} }).Placed :=
      placed.change (by rfl) (by rfl) (by rfl)
    obtain ⟨fates, length, queue⟩ := addToHwList_pushes (t := t) restarted
      (by rw [setTxq_self]; exact active) (by rw [setTxq_self]; exact drained)
    have sparing := spared_setTxq s t { s.txqs t with stops := (s.txqs t).stops \ {.full} }
    rw [setTxq_self] at length queue
    refine ⟨fates, length.trans ?_, ?_⟩
    · rw [← sparing]
      by_cases pcie : s.bus = .pcie
      · exact (if_pos pcie).trans (if_pos ⟨pcie, only⟩).symm
      · exact (if_neg pcie).trans (if_neg fun both => pcie both.1).symm
    · rw [Hw.start, if_pos ⟨active, started⟩]
      exact queue
  · rw [if_neg fun both => only both.2, Hw.start]
    refine ⟨[], rfl, ?_⟩
    rw [← still]
    split_ifs with started
    · have stopped : (s.txqs t).stops \ {.full} ≠ ∅ := by
        intro drained
        refine only (Finset.Subset.antisymm (Finset.sdiff_eq_empty_iff_subset.mp drained) ?_)
        have member : Stop.full ∈ (s.txqs t).stops := by
          by_contra absent
          exact started.2 (Finset.inter_singleton_of_notMem absent)
        exact Finset.singleton_subset_iff.mpr member
      rw [Hw.addToHwList, setTxq_self, if_pos stopped, setTxq_self]
    · rfl

/-- What a credit update pushes before it sheds. -/
theorem updateCredits_pushes (placed : s.Placed) (update : Int) :
    ∃ fates : List Fate, fates.length = s.pushedBy t update ∧
      ((s.updateCredits t update).txqs t).queue = (s.txqs t).queue.push (s.txqs t).hwq fates := by
  have still := (Queue.push_nil (q := (s.txqs t).queue) (s.txqs t).hwq).symm
  rw [updateCredits, pushedBy]
  by_cases active : (s.txqs t).active = true
  · have given : (s.setTxq t { s.txqs t with
        credits := (s.txqs t).creditsAfter s.bus update }).Placed :=
      placed.change (by rfl) (by rfl) (by rfl)
    rw [if_pos active, Hw.settle, Hw.setCredits, setTxq_self]
    by_cases full : (s.txqs t).creditsAfter s.bus update ≤ 0
    · rw [if_pos full, stop_queue, setTxq_self]
      refine ⟨[], ?_, still⟩
      split
      · rw [Txq.takes, if_neg fun ready => Int.not_lt.mpr full ready.2.2.1]
        rfl
      · rfl
    · obtain ⟨fates, length, queue⟩ := start_pushes (t := t) given
        (by rw [setTxq_self]; exact active)
      have sparing := spared_setTxq s t { s.txqs t with
        credits := (s.txqs t).creditsAfter s.bus update }
      rw [setTxq_self] at length queue
      rw [if_neg full]
      refine ⟨fates, length.trans ?_, queue⟩
      rw [← sparing]
      by_cases only : s.bus = .pcie ∧ (s.txqs t).stops = {.full}
      · exact (if_pos only).trans (if_pos ⟨only.1, active, only.2⟩).symm
      · exact (if_neg only).trans (if_neg fun all => only ⟨all.1, all.2.2⟩).symm
  · rw [if_neg active, if_neg fun all => active all.2.1]
    exact ⟨[], rfl, still⟩

end

theorem placed_of_run {bus : Bus} {data : Fin n → Bool} {events : List (Event n)} {s : Hw n}
    (ran : Run.run step events (init bus data) = .ok s) : s.Placed :=
  Run.invariant_of_run (fun _ _ _ placed stepped => placed.step stepped) ran (init_placed bus data)

end Hw

/-- In every queue that is reached, a low credit update sheds the frames to be sent again exactly
when at most one is left after what it pushes. -/
theorem creditUpdate_sheds_iff {n : Nat} {bus : Bus} {data : Fin n → Bool}
    {events : List (Hw.Event n)} {s : Hw n}
    (ran : Run.run Hw.step events (Hw.init bus data) = .ok s) (t : Fin n) {update : Int}
      (low : update < nxTxqInitialCredits) :
    Sheds (s.txqs t).queue ((s.creditUpdate t update).txqs t).queue ↔
      (s.txqs t).queue.nbRetry ≤ s.pushedBy t update + 1 := by
  have all : s.AllParts := Run.invariant_of_run
    (fun _ _ _ all stepped => all.acts (Hw.Acts.step stepped)) ran (Hw.init_allParts bus data)
  obtain ⟨again, new, parts⟩ := all t
  obtain ⟨fates, length, queue⟩ := Hw.updateCredits_pushes (t := t) (Hw.placed_of_run ran) update
  have fit : fates.length ≤ (s.txqs t).queue.skList.length := by
    rw [length, Hw.pushedBy]
    split
    · exact Txq.takes_le _ _
    · exact Nat.zero_le _
  have shed : ((s.creditUpdate t update).txqs t).queue =
      ((s.txqs t).queue.push (s.txqs t).hwq fates).dropRetries := by
    rw [Hw.creditUpdate, if_pos low, Hw.setQueue, Hw.setTxq_self, queue]
  rw [shed, ← length]
  exact Queue.push_sheds_iff parts _ fit

/-- A queue on SDIO with as many frames that are sent again. -/
def returned (count : Nat) : List (Hw.Event nxNbTxq) :=
  .init 0 ∅ 1 true true :: List.replicate count (.queueSkb 0 ⟨0, 100, 1, false⟩) ++
    .hwqProcessAll :: List.replicate count (.txCfm 0 0 true 1)

theorem lone_shed :
    ∃ s, Run.run Hw.step (returned 1) (Hw.init .sdio fun _ => true) = .ok s ∧
      (s.txqs 0).queue.nbRetry = 1 ∧
        Sheds (s.txqs 0).queue ((s.creditUpdate 0 0).txqs 0).queue := by
  have outcome : (Run.run Hw.step (returned 1) (Hw.init .sdio fun _ => true)).toOption.map (fun s =>
      ((s.txqs 0).queue.nbRetry, s.pushedBy 0 0)) = some (1, 0) := by
    decide +kernel
  obtain ⟨s, ran, facts⟩ := Run.ends_of_toOption outcome
  simp only [Prod.mk.injEq] at facts
  refine ⟨s, ran, facts.1, (creditUpdate_sheds_iff ran 0 (by decide)).mpr ?_⟩
  rw [facts.1, facts.2]

/-- Of two frames to be sent again, one is left. -/
theorem pair_not_shed :
    ∃ s, Run.run Hw.step (returned 2) (Hw.init .sdio fun _ => true) = .ok s ∧
      (s.txqs 0).queue.nbRetry = 2 ∧ ((s.creditUpdate 0 0).txqs 0).queue.nbRetry = 1 ∧
        ¬Sheds (s.txqs 0).queue ((s.creditUpdate 0 0).txqs 0).queue := by
  have outcome : (Run.run Hw.step (returned 2) (Hw.init .sdio fun _ => true)).toOption.map (fun s =>
      ((s.txqs 0).queue.nbRetry, ((s.creditUpdate 0 0).txqs 0).queue.nbRetry)) = some (2, 1) := by
    decide +kernel
  obtain ⟨s, ran, facts⟩ := Run.ends_of_toOption outcome
  simp only [Prod.mk.injEq] at facts
  refine ⟨s, ran, facts.1, facts.2, fun sheds => ?_⟩
  have none := sheds.nbRetry
  omega

end AmlW2.Tx
