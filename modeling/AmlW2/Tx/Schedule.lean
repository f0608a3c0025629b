import AmlW2.Tx.Effect
import Mathlib.Data.Finset.Lattice.Lemmas

/-!
# The lists of the hardware queues

A transmit queue is on the list of its hardware queue when its flag says so, and then it is not
stopped and has credits and frames.
-/

namespace AmlW2.Tx

/-- The flags tell what is on the lists, what is on a list can push, and the sanity check of
`aml_hwq_process` has not failed. -/
structure Scheduled {n : Nat} (s : Hw n) : Prop where
  listed : ∀ h t, t ∈ (s.hwqs h).list ↔ (s.txqs t).inHwqList = true ∧ (s.txqs t).hwq = h
  ready : ∀ t, (s.txqs t).inHwqList = true →
    (s.txqs t).stops = ∅ ∧ 0 < (s.txqs t).credits ∧ (s.txqs t).SkbReady
  sane : s.sanityError = false

/-- What a queue on a list is like. -/
structure Ready (q : Txq) : Prop where
  active : q.active = true
  running : q.stops = ∅
  credits : 0 < q.credits
  frames : q.SkbReady

namespace Hw

variable {n : Nat}

/-- Besides, the credits fit an `s8`, and `skb_queue_extract` has never been called for no frame. -/
structure Lists (s : Hw n) : Prop extends Listing s where
  small : ∀ t, (s.txqs t).credits ≤ 127
  limit : ∀ t, 0 ≤ (s.txqs t).pushLimit
  room : ∀ h, 0 ≤ (s.hwqs h).credits
  sane : s.sanityError = false
  whole : s.broken = false

/-- All queues on lists are ready. -/
structure Order (s : Hw n) : Prop extends Lists s where
  ready : ∀ t, (s.txqs t).inHwqList = true → Ready (s.txqs t)

/-- All queues on lists are ready, but for one. -/
structure OrderBut (s : Hw n) (t : Fin n) : Prop extends Lists s where
  ready : ∀ u, u ≠ t → (s.txqs u).inHwqList = true → Ready (s.txqs u)

theorem Order.scheduled {s : Hw n} (order : s.Order) : Scheduled s where
  listed := order.listed
  ready t flag := ⟨(order.ready t flag).running, (order.ready t flag).credits,
    (order.ready t flag).frames⟩
  sane := order.sane

theorem Order.but {s : Hw n} (order : s.Order) (t : Fin n) : s.OrderBut t :=
  { order with ready := fun u _ flag => order.ready u flag }

theorem OrderBut.order {s : Hw n} {t : Fin n} (order : s.OrderBut t)
    (ready : (s.txqs t).inHwqList = true → Ready (s.txqs t)) : s.Order where
  toLists := order.toLists
  ready u flag := by
    by_cases same : u = t
    · subst same
      exact ready flag
    · exact order.ready u same flag

/-! ## Changes of one queue -/

section

variable {s : Hw n} {t : Fin n} {q : Txq}

theorem Lists.setTxq (lists : s.Lists) (place : KeepsPlace (s.txqs t) q) (small : q.credits ≤ 127)
    (limit : 0 ≤ q.pushLimit) : (s.setTxq t q).Lists where
  toListing := lists.toListing.setTxq place
  small := forall_setTxq (P := fun _ q => q.credits ≤ 127) small lists.small
  limit := forall_setTxq (P := fun _ q => 0 ≤ q.pushLimit) limit lists.limit
  room := lists.room
  sane := lists.sane
  whole := lists.whole

theorem OrderBut.setTxq (order : s.OrderBut t) (place : KeepsPlace (s.txqs t) q)
    (small : q.credits ≤ 127) (limit : 0 ≤ q.pushLimit) : (s.setTxq t q).OrderBut t where
  toLists := order.toLists.setTxq place small limit
  ready u other flag := by
    rw [setTxq_of_ne s q other] at flag ⊢
    exact order.ready u other flag

/-- What changes of a queue that stays ready. -/
theorem Order.setTxq (order : s.Order) (place : KeepsPlace (s.txqs t) q) (small : q.credits ≤ 127)
    (limit : 0 ≤ q.pushLimit) (ready : q.inHwqList = true → Ready q) : (s.setTxq t q).Order := by
  refine ((order.but t).setTxq place small limit).order ?_
  rw [setTxq_self]
  exact ready

theorem Lists.setHwq (lists : s.Lists) {h : Fin nxTxqCnt} {x : Hwq n}
    (perm : x.list.Perm (s.hwqs h).list) (room : 0 ≤ x.credits) : (s.setHwq h x).Lists where
  toListing := lists.toListing.setHwq perm
  small := lists.small
  limit := lists.limit
  room := forall_setHwq (P := fun _ x => 0 ≤ x.credits) room lists.room
  sane := lists.sane
  whole := lists.whole

theorem Order.setHwq (order : s.Order) {h : Fin nxTxqCnt} {x : Hwq n}
    (perm : x.list.Perm (s.hwqs h).list) (room : 0 ≤ x.credits) : (s.setHwq h x).Order where
  toLists := order.toLists.setHwq perm room
  ready := order.ready

/-! ## Lists -/

theorem Lists.relist (lists : s.Lists) {flag need : Bool} {l : List (Fin n)} (nodup : l.Nodup)
    (other : ∀ u, u ≠ t → (u ∈ l ↔ u ∈ (s.hwqs (s.txqs t).hwq).list)) (self : t ∈ l ↔ flag = true) :
    ((s.setTxq t { s.txqs t with inHwqList := flag }).setHwq (s.txqs t).hwq
      ⟨l, (s.hwqs (s.txqs t).hwq).credits, need⟩).Lists where
  toListing := lists.toListing.relist nodup other self
  small := forall_setTxq (P := fun _ q => q.credits ≤ 127) (lists.small t) lists.small
  limit := forall_setTxq (P := fun _ q => 0 ≤ q.pushLimit) (lists.limit t) lists.limit
  room := forall_setHwq (P := fun _ x => 0 ≤ x.credits) (lists.room _) lists.room
  sane := lists.sane
  whole := lists.whole

theorem Lists.delFromHwList (lists : s.Lists) : (s.delFromHwList t).Lists := by
  rw [Hw.delFromHwList]
  split_ifs
  · obtain ⟨nodup, other, self⟩ := lists.toListing.erase t
    exact lists.relist nodup other self
  · exact lists

/-- A queue that is taken off needs not be ready. -/
theorem OrderBut.delFromHwList (order : s.OrderBut t) : (s.delFromHwList t).Order where
  toLists := order.toLists.delFromHwList
  ready u flag := by
    rw [delFromHwList_txqs] at flag ⊢
    by_cases same : u = t
    · subst same
      rw [Function.update_self] at flag
      exact absurd flag Bool.false_ne_true
    · rw [Function.update_of_ne same] at flag ⊢
      exact order.ready u same flag

/-- A queue in use is stopped. -/
theorem OrderBut.stop (order : s.OrderBut t) (active : (s.txqs t).active = true)
    (reason : Finset Stop) : (s.stop t reason).Order := by
  rw [Hw.stop, if_pos active]
  refine OrderBut.delFromHwList (order.setTxq ?_ ?_ ?_)
  · exact fun _ => Iff.rfl
  · exact order.small t
  · exact order.limit t

theorem Order.stop (order : s.Order) (reason : Finset Stop) : (s.stop t reason).Order := by
  by_cases active : (s.txqs t).active = true
  · exact (order.but t).stop active reason
  · rw [Hw.stop, if_neg active]
    exact order

/-- A queue in use that is not stopped is put on the list when it has credits and frames. -/
theorem Order.enlist (order : s.Order) (active : (s.txqs t).active = true)
    (running : (s.txqs t).stops = ∅) : (s.enlist t).Order := by
  rw [Hw.enlist]
  split_ifs with ready
  · obtain ⟨off, credits, frames⟩ := ready
    obtain ⟨nodup, other, self⟩ := order.toListing.append off
    refine ⟨order.toLists.relist nodup other self, fun u flag => ?_⟩
    · by_cases same : u = t
      · subst same
        change Ready ((s.setTxq u _).txqs u)
        rw [setTxq_self]
        exact ⟨active, running, credits, frames⟩
      · change Ready ((s.setTxq t _).txqs u)
        change ((s.setTxq t _).txqs u).inHwqList = true at flag
        rw [setTxq_of_ne s _ same] at flag ⊢
        exact order.ready u flag
  · exact order

end

/-! ## Pushing -/

section

variable {s : Hw n} {t : Fin n}

/-- The queue whose turn it is has no more than frames to lose. -/
structure Pushing (s : Hw n) (t : Fin n) : Prop extends OrderBut s t where
  active : (s.txqs t).active = true
  fit : (s.txqs t).inHwqList = true → (s.txqs t).stops = ∅ ∧ 0 < (s.txqs t).credits

theorem Pushing.txPush (pushing : s.Pushing t) (f : Frame)
    (room : 0 < (s.hwqs (s.txqs t).hwq).credits) : (s.txPush t f).Pushing t := by
  have limit : 0 ≤ if (s.txqs t).pushLimit ≠ 0 then (s.txqs t).pushLimit - 1 else 0 := by
    have before := pushing.limit t
    split_ifs with some
    · omega
    · exact Int.le_refl 0
  have charged : (s.charge t f).OrderBut t := by
    refine pushing.toOrderBut.setTxq (fun _ => Iff.rfl) ?_ limit
    exact (Int.sub_le_self _ Int.one_nonneg).trans (pushing.small t)
  have active : ((s.charge t f).txqs t).active = true := by
    rw [charge, setTxq_self]
    exact pushing.active
  have stopped : ((s.charge t f).stopFull t).Pushing t := by
    rw [stopFull]
    split_ifs with full
    · refine { (charged.stop active _).but t with
        active := ?_
        fit := fun flag => ?_ }
      · rw [(Drains.stop _).active]
        exact active
      · rw [stop_flag active] at flag
        exact absurd flag Bool.false_ne_true
    · refine { charged with
        active
        fit := fun flag => ⟨?_, Int.not_le.mp full⟩ }
      rw [charge, setTxq_self] at flag ⊢
      exact (pushing.fit flag).1
  have pushed : (((s.charge t f).stopFull t).ipcTxdescPush f.skb).Pushing t := by
    rw [ipcTxdescPush]
    split_ifs
    · exact { stopped with }
    · exact stopped
  have credits := txPush_credits (s := s) (t := t) f (s.txqs t).hwq
  rw [if_pos rfl] at credits
  have least : 0 ≤ ((s.txPush t f).hwqs (s.txqs t).hwq).credits := by
    rw [credits]
    omega
  rw [Hw.txPush, setHwq_self] at least
  have lists : (s.txPush t f).Lists := pushed.toLists.setHwq (by exact List.Perm.refl _) least
  exact { lists with
    ready := pushed.ready
    active := pushed.active
    fit := pushed.fit }

/-- Pushes within the credits of the hardware queue. -/
theorem Pushing.foldl_txPush (pushing : s.Pushing t) (frames : List Frame)
    (room : (frames.length : Int) ≤ (s.hwqs (s.txqs t).hwq).credits) :
    (frames.foldl (fun s f => s.txPush t f) s).Pushing t := by
  induction frames generalizing s with
  | nil => exact pushing
  | cons f frames induction =>
      have first : 0 < (s.hwqs (s.txqs t).hwq).credits := by
        rw [List.length_cons] at room
        omega
      refine induction (pushing.txPush f first) ?_
      have hwq : ((s.txPush t f).txqs t).hwq = (s.txqs t).hwq := (Drains.txPush f).hwq t
      rw [hwq, txPush_credits, if_pos rfl]
      rw [List.length_cons] at room
      omega

theorem Order.pushing (order : s.Order) (ready : Ready (s.txqs t)) : s.Pushing t :=
  { order.but t with
    active := ready.active
    fit := fun _ => ⟨ready.running, ready.credits⟩ }

theorem Pushing.setQueue (pushing : s.Pushing t) (queue : Queue) :
    (s.setQueue t queue).Pushing t := by
  refine { pushing.toOrderBut.setTxq ?_ ?_ ?_ with
    active := ?_
    fit := ?_ }
  · exact fun _ => Iff.rfl
  · exact pushing.small t
  · exact pushing.limit t
  · rw [Hw.setQueue, setTxq_self]
    exact pushing.active
  · rw [Hw.setQueue, setTxq_self]
    exact pushing.fit

theorem Pushing.pushSkbs (pushing : s.Pushing t) {count : Nat}
    (room : (count : Int) ≤ (s.hwqs (s.txqs t).hwq).credits) : (s.pushSkbs t count).Pushing t := by
  refine (pushing.setQueue _).foldl_txPush _ ?_
  have most := List.length_take_le count (s.txqs t).queue.skList
  rw [Hw.setQueue, setTxq_self]
  exact (Int.ofNat_le.mpr most).trans room

/-! ## Turns -/

/-- The credits of a queue that can push, as `aml_txq_get_credits` tells them. -/
theorem getCredits_pos {q : Txq} (ready : Ready q) (small : q.credits ≤ 127)
    (limit : 0 ≤ q.pushLimit) :
    0 < q.getCredits := by
  have positive := ready.credits
  have exact : ∀ x : Int, 0 < x → x ≤ 127 → x.bmod 256 = x := by
    intro x least most
    exact Int.bmod_eq_of_le (by omega) (by omega)
  rw [Txq.getCredits, exact q.credits positive small]
  split_ifs with limited
  · rw [exact q.pushLimit (by omega) (by omega)]
    omega
  · exact positive

/-- What `aml_txq_get_skb_to_push` finds for a queue that is ready. -/
theorem skbToPush_spec {q : Txq} {credits : Int} (ready : Ready q) (small : q.credits ≤ 127)
    (limit : 0 ≤ q.pushLimit) (room : 0 < credits) :
    0 < (q.skbToPush credits).1 ∧ (q.skbToPush credits).1 ≤ credits ∧
      ((q.skbToPush credits).2 = false →
        (q.skbToPush credits).1.toNat < q.queue.skList.length) := by
  have positive := getCredits_pos ready small limit
  have some : 0 < q.queue.skList.length := List.length_pos_iff.mpr ready.frames
  rw [Txq.skbToPush]
  split_ifs with all
  · exact ⟨Int.natCast_pos.mpr some, all.trans (min_le_right _ _), fun more => (by cases more)⟩
  · refine ⟨lt_min positive room, min_le_right _ _, fun _ => ?_⟩
    have least := lt_min positive room
    change (min q.getCredits credits).toNat < _
    omega

theorem Pushing.endTurn {h : Fin nxTxqCnt} {done : Bool} (pushing : s.Pushing t)
    (rest : done = false → (s.txqs t).SkbReady) : (s.endTurn h t done).Order := by
  rw [Hw.endTurn]
  by_cases finished : done = true
  · rw [if_pos finished]
    have order := pushing.toOrderBut.delFromHwList
    refine order.setTxq (fun _ => Iff.rfl) (order.small t) (order.limit t) fun flag => ?_
    have ready := order.ready t flag
    exact ⟨ready.active, ready.running, ready.credits, ready.frames⟩
  · rw [if_neg finished]
    have order : s.Order := by
      refine pushing.toOrderBut.order fun flag => ?_
      obtain ⟨running, credits⟩ := pushing.fit flag
      exact ⟨pushing.active, running, credits, rest (Bool.eq_false_of_not_eq_true finished)⟩
    split_ifs
    · have switched : (s.setTxq t { s.txqs t with pktSent := 0 }).Order := by
        refine order.setTxq (fun _ => Iff.rfl) (order.small t) (order.limit t) fun flag => ?_
        have ready := order.ready t flag
        exact ⟨ready.active, ready.running, ready.credits, ready.frames⟩
      exact switched.setHwq (List.rotate_perm _ _) (order.room h)
    · exact order

theorem Order.endService (order : s.Order) : (s.endService t).Order := by
  rw [Hw.endService]
  split_ifs
  · refine order.setTxq (fun _ => Iff.rfl) (order.small t) (Int.le_refl 0) fun flag => ?_
    have ready := order.ready t flag
    exact ⟨ready.active, ready.running, ready.credits, ready.frames⟩
  · exact order

theorem Order.turn (order : s.Order) (flag : (s.txqs t).inHwqList = true)
    (room : (s.hwqs (s.txqs t).hwq).credits ≠ 0) : (s.turn (s.txqs t).hwq t).Order := by
  have ready := order.ready t flag
  have positive : 0 < (s.hwqs (s.txqs t).hwq).credits := by
    have least := order.room (s.txqs t).hwq
    omega
  obtain ⟨some, most, rest⟩ := skbToPush_spec ready (order.small t) (order.limit t) positive
  generalize found : (s.txqs t).skbToPush (s.hwqs (s.txqs t).hwq).credits = push at some most rest
  have whole : (s.broken || decide (push.1 ≤ 0)) = false := by
    rw [order.whole, decide_eq_false (Int.not_le.mpr some)]
    rfl
  have marked : { s with broken := s.broken || decide (push.1 ≤ 0) } = s := by
    rw [whole, ← order.whole]
  have pushed : (s.pushSkbs t push.1.toNat).Pushing t := by
    refine (order.pushing ready).pushSkbs ?_
    rw [Int.toNat_of_nonneg some.le]
    exact most
  rw [Hw.turn]
  simp only [found, marked]
  refine (pushed.endTurn fun more => ?_).endService
  rw [Txq.SkbReady, pushSkbs_skList, ne_eq, List.drop_eq_nil_iff]
  exact Nat.not_le_of_lt (rest more)

end

/-! ## Hardware queues -/

/-- Each queue on the list is still there when its turn comes. -/
theorem Order.hwqProcessFrom {s : Hw n} (order : s.Order) {h : Fin nxTxqCnt} {list : List (Fin n)}
    (nodup : list.Nodup)
    (listed : ∀ t ∈ list, (s.txqs t).inHwqList = true ∧ (s.txqs t).hwq = h) :
    (hwqProcessFrom h list s).Order := by
  induction list generalizing s with
  | nil => exact order
  | cons t rest induction =>
      obtain ⟨flag, rfl⟩ := listed t List.mem_cons_self
      have ready := order.ready t flag
      rw [Hw.hwqProcessFrom, if_pos ⟨flag, ready.active, ready.credits, ready.frames⟩]
      split_ifs with room
      · exact order
      · refine induction (order.turn flag room) (List.nodup_cons.mp nodup).2 fun u member => ?_
        have other : u ≠ t := fun same => (List.nodup_cons.mp nodup).1 (same ▸ member)
        rw [turn_txqs_of_ne _ other]
        exact listed u (List.mem_cons_of_mem t member)

theorem Order.hwqProcess {s : Hw n} (order : s.Order) (h : Fin nxTxqCnt) :
    (s.hwqProcess h).Order := by
  have marked := order.setHwq (h := h) (x := { s.hwqs h with needProcessing := false })
    (List.Perm.refl _) (order.room h)
  exact marked.hwqProcessFrom (order.nodup h) fun t member => (order.listed h t).mp member

theorem Order.hwqProcessAll {s : Hw n} (order : s.Order) : s.hwqProcessAll.Order := by
  rw [Hw.hwqProcessAll]
  generalize (List.finRange nxTxqCnt).reverse = hwqs
  induction hwqs generalizing s with
  | nil => exact order
  | cons h hwqs induction =>
      refine induction ?_
      change Order (if (s.hwqs h).needProcessing = true then s.hwqProcess h else s)
      split_ifs
      · exact order.hwqProcess h
      · exact order

theorem Order.addToHwList {s : Hw n} {t : Fin n} (order : s.Order)
    (active : (s.txqs t).active = true) : (s.addToHwList t).Order := by
  rw [Hw.addToHwList]
  split_ifs with stopped
  · exact order
  · exact (order.enlist active (not_not.mp stopped)).hwqProcess _
  · exact order.enlist active (not_not.mp stopped)

/-- A queue that was stopped is on no list. -/
theorem Order.start {s : Hw n} {t : Fin n} (order : s.Order) (reason : Finset Stop) :
    (s.start t reason).Order := by
  rw [Hw.start]
  split_ifs with started
  · have off : (s.txqs t).inHwqList = false := by
      refine Bool.eq_false_of_not_eq_true fun flag => started.2 ?_
      rw [(order.ready t flag).running, Finset.empty_inter]
    have changed : (s.setTxq t { s.txqs t with stops := (s.txqs t).stops \ reason }).Order := by
      refine order.setTxq (fun _ => Iff.rfl) (order.small t) (order.limit t) fun flag => ?_
      exact absurd (off.symm.trans flag) Bool.false_ne_true
    refine changed.addToHwList ?_
    rw [setTxq_self]
    exact started.1
  · exact order

/-! ## Answers of the firmware -/

section

variable {s : Hw n} {t : Fin n}

/-- What a queue whose credits have changed is like. -/
theorem OrderBut.settle (order : s.OrderBut t) (active : (s.txqs t).active = true)
    (ready : (s.txqs t).inHwqList = true → (s.txqs t).stops = ∅ ∧ (s.txqs t).SkbReady) :
    (s.settle t).Order := by
  rw [Hw.settle]
  split_ifs with full
  · exact order.stop active _
  · refine Order.start (order.order fun flag => ?_) _
    obtain ⟨running, frames⟩ := ready flag
    exact ⟨active, running, Int.not_le.mp full, frames⟩

theorem Order.setCredits (order : s.Order) {credits : Int} (small : credits ≤ 127) :
    (s.setCredits t credits).OrderBut t :=
  (order.but t).setTxq (fun _ => Iff.rfl) small (order.limit t)

theorem Order.updateCredits (order : s.Order) (update : Int) :
    (s.updateCredits t update).Order := by
  rw [Hw.updateCredits]
  split_ifs with active
  · have small : (s.txqs t).creditsAfter s.bus update ≤ 127 := by
      have size : hwqSize s.bus (s.txqs t).hwq ≤ 124 := by
        rw [hwqSize]
        split_ifs
        · decide
        · decide
        · decide
      rw [Txq.creditsAfter]
      split_ifs
      all_goals omega
    refine (order.setCredits small).settle ?_ fun flag => ?_
    · rw [Hw.setCredits, setTxq_self]
      exact active
    · rw [Hw.setCredits, setTxq_self] at flag ⊢
      exact ⟨(order.ready t flag).running, (order.ready t flag).frames⟩
  · exact order

/-- A queue that is ready stays so when frames are left. -/
theorem Order.setQueue (order : s.Order) {queue : Queue}
    (frames : (s.txqs t).inHwqList = true → queue.skList ≠ []) : (s.setQueue t queue).Order := by
  refine order.setTxq (fun _ => Iff.rfl) (order.small t) (order.limit t) fun flag => ?_
  have ready := order.ready t flag
  exact ⟨ready.active, ready.running, ready.credits, frames flag⟩

theorem Order.confirmAny (order : s.Order) (h : Fin nxTxqCnt) : (s.confirmAny t h).Order := by
  have counted : (s.setTxq t { s.txqs t with pktPushed := (s.txqs t).pktPushed - 1 }).Order := by
    refine order.setTxq (fun _ => Iff.rfl) (order.small t) (order.limit t) fun flag => ?_
    have ready := order.ready t flag
    exact ⟨ready.active, ready.running, ready.credits, ready.frames⟩
  have freed : (s.uncount t).Order := { counted with }
  rw [Hw.confirmAny]
  split_ifs
  · exact freed
  · have least := order.room h
    exact freed.setHwq (by exact List.Perm.refl _) (Int.add_nonneg least Int.one_nonneg)

end

end Hw

namespace Queue

variable {q : Queue}

theorem retry_ready (some : q.skList ≠ []) (i : Nat) : (q.retry i).skList ≠ [] := by
  rw [retry]
  cases q.flight[i]? with
  | none => exact some
  | some f =>
      simp only
      split_ifs
      · exact List.append_ne_nil_of_right_ne_nil _ (List.cons_ne_nil _ _)
      · exact some

theorem confirm_skList (i : Nat) : (q.confirm i).skList = q.skList := by
  rw [confirm]
  cases q.flight[i]? with
  | none => rfl
  | some f =>
      simp only
      split_ifs
      · rfl
      · rfl

theorem addSubframe_ready (some : q.skList ≠ []) (a : Arrival) (maxnb : Nat) (room : Bool) :
    (q.addSubframe a maxnb room).skList ≠ [] := by
  have modified : ∀ skb change, (q.modify skb change).skList ≠ [] :=
    fun skb change empty => some (List.map_eq_nil_iff.mp empty)
  rw [addSubframe]
  by_cases unused : q.data = false ∨ q.amsduLen = 0 ∨ maxnb < 2
  · rw [if_pos unused]
    exact some
  rw [if_neg unused]
  cases q.amsdu with
  | some skb =>
      simp only
      split
      · exact some
      · split
        · exact some
        · exact modified _ _
  | none =>
      simp only
      split
      · exact some
      · split
        · exact some
        · split
          · exact modified _ _
          · exact modified _ _

theorem dropSkb_head {f : Frame} {rest : List Frame} (first : q.skList = f :: rest)
    (retryPacket : Bool) : (q.dropSkb f retryPacket).skList = rest := by
  change q.skList.eraseP _ = rest
  rw [first]
  exact List.eraseP_cons_of_pos (decide_eq_true rfl)

/-- After the first turn the loop leaves a frame when it has one. -/
theorem dropRetriesFrom_ready (fuel packet : Nat) (count : q.nbRetry ≤ q.skList.length)
    (some : q.skList ≠ []) : (dropRetriesFrom fuel (packet + 1) q).skList ≠ [] := by
  induction fuel generalizing q packet with
  | zero => exact some
  | succ fuel induction =>
      rw [dropRetriesFrom]
      split_ifs with more
      · cases first : q.skList with
        | nil => exact absurd first some
        | cons f rest =>
            rw [first, List.length_cons] at count
            have left := dropSkb_head first true
            have fewer : (q.dropSkb f true).nbRetry = q.nbRetry - 1 := rfl
            refine induction _ ?_ ?_
            · rw [left, fewer]
              omega
            · rw [left]
              refine List.ne_nil_of_length_pos ?_
              omega
      · exact some

/-- The loop at the end of a credit update leaves no frame only when there was one, to be sent
again. -/
theorem dropRetries_ready (count : q.nbRetry ≤ q.skList.length) (some : q.skList ≠ []) :
    q.dropRetries.skList ≠ [] ↔ ¬(q.nbRetry = 1 ∧ q.skList.length = 1) := by
  rw [dropRetries]
  cases retries : q.nbRetry with
  | zero => exact ⟨fun _ both => absurd both.1.symm Nat.one_ne_zero, fun _ => some⟩
  | succ fuel =>
      rw [dropRetriesFrom, retries, if_pos (Nat.succ_pos fuel)]
      cases first : q.skList with
      | nil => exact absurd first some
      | cons f rest =>
          have left := dropSkb_head first true
          have fewer : (q.dropSkb f true).nbRetry = fuel := by
            change q.nbRetry - 1 = fuel
            rw [retries]
            rfl
          rw [retries, first, List.length_cons] at count
          simp only [List.length_cons]
          cases rest with
          | nil =>
              have none : fuel = 0 := Nat.le_zero.mp (Nat.le_of_succ_le_succ count)
              subst none
              refine ⟨fun full => absurd left full, fun lone => absurd ⟨rfl, rfl⟩ lone⟩
          | cons g rest =>
              refine ⟨fun _ both => absurd (Nat.succ.inj both.2) (Nat.succ_ne_zero _), fun _ => ?_⟩
              refine dropRetriesFrom_ready _ _ ?_ ?_
              · rw [left, fewer]
                exact Nat.le_of_succ_le_succ count
              · rw [left]
                exact List.cons_ne_nil g rest

end Queue

namespace Hw

variable {n : Nat}

section

variable {s : Hw n} {t : Fin n}

theorem Order.txRetry (order : s.Order) (active : (s.txqs t).active = true) (i : Nat)
    {credits : Nat}
    (small : (s.txqs t).credits + credits ≤ 127) : (s.txRetry t i credits).Order := by
  have kept : (s.setQueue t ((s.txqs t).queue.retry i)).Order :=
    order.setQueue fun flag => Queue.retry_ready (order.ready t flag).frames i
  have still : ((s.setQueue t ((s.txqs t).queue.retry i)).txqs t).active = true := by
    rw [Hw.setQueue, setTxq_self]
    exact active
  have queued := kept.addToHwList still
  have drains : Drains s ((s.setQueue t ((s.txqs t).queue.retry i)).addToHwList t) :=
    Drains.trans (Drains.setTxq (by rfl) (by rfl) (by rfl) (by rfl)) Drains.addToHwList
  have given : (((s.setQueue t ((s.txqs t).queue.retry i)).addToHwList t).setCredits t
      ((((s.setQueue t ((s.txqs t).queue.retry i)).addToHwList t).txqs t).credits +
          credits)).Order := by
    have fewer := drains.credits t
    refine (queued.setCredits ?_).order fun flag => ?_
    · omega
    · rw [Hw.setCredits, setTxq_self] at flag ⊢
      have ready := queued.ready t flag
      exact ⟨ready.active, ready.running, Int.add_pos_of_pos_of_nonneg ready.credits
        (Int.natCast_nonneg credits), ready.frames⟩
  rw [Hw.txRetry]
  split_ifs
  · exact given.start _
  · exact given

theorem Order.txConfirm (order : s.Order) (i : Nat) {credits : Nat}
    (small : (s.txqs t).credits + credits ≤ 127) : (s.txConfirm t i credits).Order := by
  have done : (s.setQueue t ((s.txqs t).queue.confirm i)).Order := by
    refine order.setQueue fun flag => ?_
    rw [Queue.confirm_skList]
    exact (order.ready t flag).frames
  rw [Hw.txConfirm]
  split_ifs with given
  · refine OrderBut.settle (done.setCredits ?_) ?_ fun flag => ?_
    · rw [Hw.setQueue, setTxq_self]
      exact small
    · rw [Hw.setCredits, setTxq_self, Hw.setQueue, setTxq_self]
      exact given.1
    · rw [Hw.setCredits, setTxq_self] at flag ⊢
      have ready := done.ready t flag
      exact ⟨ready.running, ready.frames⟩
  · exact done

theorem Order.txCfm (order : s.Order) (i : Nat) (again : Bool) {credits : Nat}
    (small : (s.txqs t).credits + ((if s.bus = .pcie then credits else 1 : Nat) : Int) ≤ 127) :
    (s.txCfm t i again credits).Order := by
  rw [Hw.txCfm]
  cases (s.txqs t).queue.flight[i]? with
  | none => exact order
  | some f =>
      simp only
      generalize (if s.bus = .pcie then credits else 1 : Nat) = credits at small
      have counted : (s.confirmAny t f.hwQueue).Order := order.confirmAny f.hwQueue
      have same := confirmAny_txqs (s := s) (t := t) f.hwQueue
      have bound : ((s.confirmAny t f.hwQueue).txqs t).credits + credits ≤ 127 := by
        rw [same]
        exact small
      by_cases sent : f.fate = some .sent
      · rw [if_pos sent]
        split_ifs with returned
        · refine counted.txRetry ?_ i bound
          rw [same]
          exact returned.1
        · exact counted.txConfirm i bound
      · rw [if_neg sent]
        exact order

theorem Order.amsduUpdateLen (order : s.Order) (amsduLen : Nat) (alloc : Nat → Bool) :
    (s.amsduUpdateLen t amsduLen alloc).Order := by
  rw [Hw.amsduUpdateLen]
  split_ifs
  · exact order.setQueue fun flag => (order.ready t flag).frames
  · exact order.setQueue fun flag => (order.ready t flag).frames
  · have stopped := order.stop (t := t) {.dismantleAmsdu}
    have off : ((s.stop t {.dismantleAmsdu}).txqs t).inHwqList = false := by
      by_cases active : (s.txqs t).active = true
      · exact stop_flag active _
      · rw [Hw.stop, if_neg active]
        exact Bool.eq_false_of_not_eq_true fun flag => active (order.ready t flag).active
    exact (stopped.setQueue fun flag => absurd (off.symm.trans flag) Bool.false_ne_true).start _

theorem Order.dropOldTraffic (order : s.Order) (now timeout : Nat) :
    (s.dropOldTraffic t now timeout).Order := by
  rw [Hw.dropOldTraffic]
  split_ifs with active
  · have dropped : (s.setQueue t ((s.txqs t).queue.dropOld now timeout)).OrderBut t :=
      (order.but t).setTxq (fun _ => Iff.rfl) (order.small t) (order.limit t)
    simp only
    split_ifs with left
    · refine dropped.order fun flag => ?_
      rw [Hw.setQueue, setTxq_self] at flag left ⊢
      have ready := order.ready t flag
      exact ⟨ready.active, ready.running, ready.credits, left⟩
    · have gone := dropped.delFromHwList
      refine gone.setTxq (fun _ => Iff.rfl) (gone.small t) (gone.limit t) fun flag => ?_
      have ready := gone.ready t flag
      exact ⟨ready.active, ready.running, ready.credits, ready.frames⟩
  · exact order

theorem Order.deinit (order : s.Order) : (s.deinit t).Order := by
  rw [Hw.deinit]
  split_ifs
  · have gone := (order.but t).delFromHwList
    refine gone.setTxq (fun _ => Iff.rfl) (gone.small t) (gone.limit t) fun flag => ?_
    rw [delFromHwList_txqs, Function.update_self] at flag
    exact absurd flag Bool.false_ne_true
  · exact order

theorem Order.initTxq (order : s.Order) (unused : (s.txqs t).active = false) (status : Finset Stop)
    (hwq : Fin nxTxqCnt) (sta legacyPs : Bool) : (s.initTxq t status hwq sta legacyPs).Order := by
  have off : (s.txqs t).inHwqList = false := by
    refine Bool.eq_false_of_not_eq_true fun flag => ?_
    exact absurd (unused.symm.trans (order.ready t flag).active) Bool.false_ne_true
  refine order.setTxq (fun h => ?_) ?_ (Int.le_refl 0) fun flag => ?_
  · rw [off]
    exact ⟨fun both => absurd both.1 Bool.false_ne_true, fun both =>
      absurd both.1 Bool.false_ne_true⟩
  · change nxTxqInitialCredits ≤ 127
    decide
  · exact absurd flag Bool.false_ne_true

end

/-! ## Runs -/

/-- A queue is initialised when it is not in use; power save code sets no negative limit; and the
credits that come back fit the `s8` of `aml_txq_get_credits`. -/
def Allowed (s : Hw n) : Event n → Prop
  | .init t _ _ _ _ => (s.txqs t).active = false
  | .pushLimit _ limit => 0 ≤ limit
  | .txCfm t _ _ credits =>
      (s.txqs t).credits + ((if s.bus = .pcie then credits else 1 : Nat) : Int) ≤ 127
  | _ => True

instance (s : Hw n) (event : Event n) : Decidable (s.Allowed event) :=
  match event with
  | .init t _ _ _ _ => inferInstanceAs (Decidable ((s.txqs t).active = false))
  | .pushLimit _ limit => inferInstanceAs (Decidable (0 ≤ limit))
  | .txCfm _ _ _ _ => inferInstanceAs (Decidable (_ ≤ (127 : Int)))
  | .deinit _ | .queueSkb _ _ | .addSubframe _ _ _ _ | .hwqProcessAll | .start _ _ | .stop _ _
  | .creditUpdate _ _ | .amsduUpdateLen _ _ _ | .dropOldTraffic _ _ _ | .fate _ =>
      inferInstanceAs (Decidable True)

/-- The loop at the end of a credit update drops the only frame of a queue that is on its list. -/
def Empties (s : Hw n) : Event n → Prop
  | .creditUpdate t update =>
      update < nxTxqInitialCredits ∧
        ((s.updateCredits t update).txqs t).inHwqList = true ∧
          ((s.updateCredits t update).txqs t).queue.nbRetry = 1 ∧
            ((s.updateCredits t update).txqs t).queue.skList.length = 1
  | _ => False

theorem AllParts.count {s : Hw n} (all : s.AllParts) (t : Fin n) :
    (s.txqs t).queue.nbRetry ≤ (s.txqs t).queue.skList.length := by
  obtain ⟨again, new, parts⟩ := all t
  exact parts.count_le

theorem Order.step {s : Hw n} {event : Event n} (order : s.Order) (all : s.AllParts)
    (allowed : s.Allowed event) (full : ¬s.Empties event) :
    ∃ s', s.step event = .ok s' ∧ s'.Order := by
  cases event with
  | init t status hwq sta legacyPs =>
      have unused : (s.txqs t).active = false := allowed
      refine ⟨_, if_neg (Bool.not_eq_true _ ▸ unused), order.initTxq unused status hwq sta legacyPs⟩
  | deinit t => exact ⟨_, rfl, order.deinit⟩
  | queueSkb t a =>
      refine ⟨_, rfl, ?_⟩
      rw [queueSkb]
      split_ifs with active
      · have queued : (s.setQueue t ((s.txqs t).queue.queueNew a)).Order :=
          order.setQueue fun _ => List.append_ne_nil_of_right_ne_nil _ (List.cons_ne_nil _ _)
        refine queued.addToHwList ?_
        rw [Hw.setQueue, setTxq_self]
        exact active
      · exact order
  | addSubframe t a maxnb room =>
      refine ⟨_, rfl, ?_⟩
      rw [addSubframe]
      split_ifs
      · exact order.setQueue fun flag =>
          Queue.addSubframe_ready (order.ready t flag).frames a maxnb room
      · exact order
  | hwqProcessAll => exact ⟨_, rfl, order.hwqProcessAll⟩
  | start t reason => exact ⟨_, rfl, order.start reason⟩
  | stop t reason => exact ⟨_, rfl, order.stop reason⟩
  | pushLimit t limit =>
      refine ⟨_, rfl, order.setTxq (fun _ => Iff.rfl) (order.small t) allowed fun flag => ?_⟩
      have ready := order.ready t flag
      exact ⟨ready.active, ready.running, ready.credits, ready.frames⟩
  | txCfm t i again credits => exact ⟨_, rfl, order.txCfm i again allowed⟩
  | creditUpdate t update =>
      refine ⟨_, rfl, ?_⟩
      have updated := order.updateCredits (t := t) update
      have count := (all.acts (Acts.updateCredits (t := t) update)).count t
      rw [creditUpdate]
      split_ifs with small
      · refine updated.setQueue fun flag => ?_
        rw [Queue.dropRetries_ready count (updated.ready t flag).frames]
        exact fun lone => full ⟨small, flag, lone⟩
      · exact updated
  | amsduUpdateLen t amsduLen alloc => exact ⟨_, rfl, order.amsduUpdateLen amsduLen alloc⟩
  | dropOldTraffic t now timeout => exact ⟨_, rfl, order.dropOldTraffic now timeout⟩
  | fate fate => exact ⟨_, rfl, { order with }⟩

/-- A queue that is left without a frame stays on the list. -/
theorem Order.not_scheduled {s s' : Hw n} {event : Event n} (order : s.Order) (all : s.AllParts)
    (empties : s.Empties event) (stepped : s.step event = .ok s') : ¬Scheduled s' := by
  cases event with
  | creditUpdate t update =>
      obtain ⟨small, flag, lone⟩ := empties
      have updated := order.updateCredits (t := t) update
      have count := (all.acts (Acts.updateCredits (t := t) update)).count t
      cases stepped
      rw [creditUpdate]
      rw [if_pos small]
      intro scheduled
      have ready := scheduled.ready t
      rw [Hw.setQueue, setTxq_self] at ready
      have some := (ready flag).2.2
      exact (Queue.dropRetries_ready count (updated.ready t flag).frames).mp some lone
  | _ => exact empties.elim

theorem init_order (bus : Bus) (data : Fin n → Bool) : (init bus data).Order where
  listed h t := ⟨fun member => (by cases member), fun both => absurd both.1 Bool.false_ne_true⟩
  nodup h := List.nodup_nil
  small t := by
    change (0 : Int) ≤ 127
    decide
  limit t := Int.le_refl 0
  room h := Int.natCast_nonneg _
  sane := rfl
  whole := rfl
  ready t flag := absurd flag Bool.false_ne_true

end Hw

/-- In a run that is allowed, the queues on the lists can always push if and only if no credit
update drops the only frame of a queue on its list. -/
theorem scheduled_iff_not_emptied {n : Nat} (bus : Bus) (data : Fin n → Bool)
    (events : List (Hw.Event n)) (allowed : Run.Guarded Hw.step Hw.Allowed events
      (Hw.init bus data)) :
    Run.Safe Hw.step Scheduled events (Hw.init bus data) ↔
      Run.Guarded Hw.step (fun s event => ¬s.Empties event) events (Hw.init bus data) := by
  have preserved : ∀ (s : Hw n) event, s.Order ∧ s.AllParts → s.Allowed event → ¬s.Empties event →
      ∃ s', s.step event = .ok s' ∧ s'.Order ∧ s'.AllParts := by
    intro s event held allowed full
    obtain ⟨s', stepped, order⟩ := held.1.step held.2 allowed full
    exact ⟨s', stepped, order, held.2.acts (Hw.Acts.step stepped)⟩
  refine Run.safe_iff_guarded_within preserved (fun s held => held.1.scheduled) ?_ allowed
    ⟨Hw.init_order bus data, Hw.init_allParts bus data⟩
  intro s event s' held _ outside stepped
  exact held.1.not_scheduled held.2 (not_not.mp outside) stepped

/-- A station's queue for TID 0 has one frame that is sent again, and a credit update comes. -/
def loneRetry : List (Hw.Event nxNbTxq) :=
  [.init 0 ∅ 1 true true, .queueSkb 0 ⟨0, 100, 1, false⟩, .hwqProcessAll, .txCfm 0 0 true 1,
    .creditUpdate 0 0]

theorem loneRetry_allowed :
    Run.Guarded Hw.step Hw.Allowed loneRetry (Hw.init .sdio fun _ => true) := by
  have sound : ∀ (s : Hw nxNbTxq) event, decide (s.Allowed event) = true → s.Allowed event :=
    fun s event passed => of_decide_eq_true passed
  exact Run.guarded_of_check sound (by decide +kernel)

theorem loneRetry_safe_iff :
    Run.Safe Hw.step Scheduled loneRetry (Hw.init .sdio fun _ => true) ↔
      Run.Guarded Hw.step (fun s event => ¬s.Empties event) loneRetry
        (Hw.init .sdio fun _ => true) :=
  scheduled_iff_not_emptied .sdio (fun _ => true) loneRetry loneRetry_allowed

/-- The queue is left on its list without a frame, and the sanity check fails next. -/
theorem loneRetry_emptied :
    ∃ s, Run.run Hw.step loneRetry (Hw.init .sdio fun _ => true) = .ok s ∧
      ¬Scheduled s ∧ s.hwqProcessAll.sanityError = true := by
  have outcome : (Run.run Hw.step loneRetry (Hw.init .sdio fun _ => true)).toOption.map (fun s =>
      ((s.txqs 0).inHwqList, (s.txqs 0).queue.skList, s.hwqProcessAll.sanityError)) =
        some (true, [], true) := by
    decide +kernel
  obtain ⟨s, ran, ends⟩ := Run.ends_of_toOption outcome
  simp only [Prod.mk.injEq] at ends
  obtain ⟨flag, empty, error⟩ := ends
  exact ⟨s, ran, fun scheduled => (scheduled.ready 0 flag).2.2 empty, error⟩

end AmlW2.Tx
