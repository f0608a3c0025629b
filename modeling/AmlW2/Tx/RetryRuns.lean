import AmlW2.Tx.Extract
import AmlW2.Tx.Retries
import AmlW2.Tx.Txq

/-!
# Runs of a transmit queue

How many frames are pushed is told by `aml_txq_get_credits` in an `s8`.  When that number is not
positive, the head of `sk_list` is pushed like a frame.  As long as it is positive, and no
management frame comes back, the marked frames are first and stay in order.
-/

namespace AmlW2.Tx

namespace Txq

inductive Fault
  /-- The head of `sk_list` is taken out and pushed as if it were a frame. -/
  | headPushed
deriving DecidableEq, Repr

/-- `aml_txq_init`, of a queue that may have been in use before. -/
def init (q : Txq) (hwq : Fin nxTxqCnt) (sta : Bool) : Txq :=
  { q with
    queue := q.queue.reset
    active := true
    credits := nxTxqInitialCredits
    pktSent := 0
    pktPushed := 0
    pushLimit := 0
    hwq
    sta }

/-- `aml_txq_deinit`. -/
def deinit (q : Txq) : Txq :=
  if q.active then { q with queue := q.queue.flush, active := false } else q

/-- `aml_txq_queue_skb`, for a new frame. -/
def queueSkb (q : Txq) (a : Arrival) : Txq :=
  if q.active then { q with queue := q.queue.queueNew a } else q

/-- `aml_amsdu_add_subframe`. -/
def addSubframe (q : Txq) (a : Arrival) (maxnb : Nat) (room : Bool) : Txq :=
  if q.active then { q with queue := q.queue.addSubframe a maxnb room } else q

/-- The frames taken out are pushed. -/
def pushTaken (q : Txq) (fate : Nat → Fate) (left taken : List Frame) : Txq :=
  taken.foldl (fun q f => q.charge (fate f.skb) f)
    { q with queue := { q.queue with skList := left } }

/-- A turn in `aml_hwq_process`; all frames are taken when there are credits for them. -/
def push (q : Txq) (hwqCredits : Nat) (fate : Nat → Fate) : Except Fault Txq :=
  if q.active = true ∧ 0 < q.credits ∧ q.SkbReady ∧ hwqCredits ≠ 0 then
    if (q.queue.skList.length : Int) ≤ min q.getCredits hwqCredits then
      .ok (q.pushTaken fate [] q.queue.skList)
    else
      match Queue.extract q.queue.skList (min q.getCredits hwqCredits) with
      | some (left, taken) => .ok (q.pushTaken fate left taken)
      | none => .error .headPushed
  else .ok q

/-- What `aml_txdatacfm` and `aml_tx_cfm_task` do with a frame that the firmware confirms, or
returns to be sent again; on SDIO and USB each brings one credit back. -/
def txCfm (q : Txq) (bus : Bus) (i : Nat) (again : Bool) (credits : Int) : Txq :=
  match q.queue.flight[i]? with
  | none => q
  | some f =>
      if f.fate = some .sent then
        let given := if q.active = false then 0 else if bus = .pcie then credits else 1
        { q with
          queue := if q.active = true ∧ again = true then q.queue.retry i else q.queue.confirm i
          credits := q.credits + given
          pktPushed := q.pktPushed - 1 }
      else q

/-- `aml_txq_credit_update`. -/
def creditUpdate (q : Txq) (bus : Bus) (update : Int) : Txq :=
  { q with
    credits := if q.active then q.creditsAfter bus update else q.credits
    queue := if update < nxTxqInitialCredits then q.queue.dropRetries else q.queue }

/-- What `aml_amsdu_update_len` does with a queue. -/
def amsduUpdateLen (q : Txq) (bus : Bus) (amsduLen : Nat) (alloc : Nat → Bool) : Txq :=
  if q.queue.amsduLen ≤ amsduLen then
    { q with queue := { q.queue with amsduLen := Hw.amsduLenOn bus amsduLen } }
  else if q.sta = false then { q with queue := { q.queue with amsduLen := 0 } }
  else
    { q with
      queue := { q.queue.dismantle amsduLen alloc with amsduLen := Hw.amsduLenOn bus amsduLen } }

/-- `aml_txq_drop_old_traffic`. -/
def dropOldTraffic (q : Txq) (now timeout : Nat) : Txq :=
  if q.active then { q with queue := q.queue.dropOld now timeout } else q

/-! ## Runs -/

inductive Event
  | init (hwq : Fin nxTxqCnt) (sta : Bool)
  | deinit
  | queueSkb (a : Arrival)
  | addSubframe (a : Arrival) (maxnb : Nat) (room : Bool)
  /-- The turn of the queue, when its hardware queue has these credits. -/
  | push (hwqCredits : Nat) (fate : Nat → Fate)
  /-- Power save code sets or lowers the push limit. -/
  | pushLimit (limit : Int)
  | txCfm (i : Nat) (again : Bool) (credits : Int)
  | creditUpdate (update : Int)
  | amsduUpdateLen (amsduLen : Nat) (alloc : Nat → Bool)
  | dropOldTraffic (now timeout : Nat)

def step (bus : Bus) (q : Txq) : Event → Except Fault Txq
  | .init hwq sta => .ok (q.init hwq sta)
  | .deinit => .ok q.deinit
  | .queueSkb a => .ok (q.queueSkb a)
  | .addSubframe a maxnb room => .ok (q.addSubframe a maxnb room)
  | .push hwqCredits fate => q.push hwqCredits fate
  | .pushLimit limit => .ok { q with pushLimit := limit }
  | .txCfm i again credits => .ok (q.txCfm bus i again credits)
  | .creditUpdate update => .ok (q.creditUpdate bus update)
  | .amsduUpdateLen amsduLen alloc => .ok (q.amsduUpdateLen bus amsduLen alloc)
  | .dropOldTraffic now timeout => .ok (q.dropOldTraffic now timeout)

/-- A queue that was never in use, for data or for management frames. -/
def unused (data : Bool) : Txq where
  queue := Queue.init data
  active := false
  stops := ∅
  inHwqList := false
  credits := 0
  pktSent := 0
  pktPushed := 0
  pushLimit := 0
  hwq := 0
  sta := false
  legacyPs := true

/-- When the queue has its turn, its credits, or its push limit where that is less, are positive in
an `s8`; and a management frame is not returned to be sent again. -/
def Regular (q : Txq) : Event → Prop
  | .push hwqCredits _ =>
      q.active = true ∧ 0 < q.credits ∧ q.SkbReady ∧ hwqCredits ≠ 0 →
        if q.pushLimit ≠ 0 ∧ q.pushLimit < q.credits.bmod 256 then 0 < q.pushLimit.bmod 256
        else 0 < q.credits.bmod 256
  | .txCfm i again _ =>
      q.queue.data = false → q.active = true → again = true →
        ∀ f ∈ q.queue.flight[i]?, f.fate ≠ some .sent
  | _ => True

end Txq

namespace Queue

/-- Nothing comes to the frames to be sent again. -/
structure Wanes (q q' : Queue) : Prop where
  data : q'.data = q.data
  nbRetry : q'.nbRetry ≤ q.nbRetry

namespace Wanes

variable {q q' q'' : Queue}

theorem refl (q : Queue) : Wanes q q := ⟨rfl, Nat.le_refl _⟩

theorem trans (first : Wanes q q') (second : Wanes q' q'') : Wanes q q'' :=
  ⟨second.data.trans first.data, Nat.le_trans second.nbRetry first.nbRetry⟩

theorem dropSkb (f : Frame) (retryPacket : Bool) : Wanes q (q.dropSkb f retryPacket) := by
  refine ⟨rfl, ?_⟩
  change (if retryPacket then q.nbRetry - 1 else q.nbRetry) ≤ q.nbRetry
  split_ifs
  · exact Nat.sub_le _ _
  · exact Nat.le_refl _

theorem flushLoop (fuel : Nat) : Wanes q (Queue.flushLoop fuel q) := by
  induction fuel generalizing q with
  | zero => exact refl q
  | succ fuel induction =>
      rw [Queue.flushLoop]
      cases q.skList with
      | nil => exact refl q
      | cons f rest => exact (dropSkb f _).trans induction

theorem dropRetriesFrom (fuel packet : Nat) : Wanes q (Queue.dropRetriesFrom fuel packet q) := by
  induction fuel generalizing q packet with
  | zero => exact refl q
  | succ fuel induction =>
      rw [Queue.dropRetriesFrom]
      split_ifs
      · cases q.skList with
        | nil => exact induction _
        | cons f rest => exact (dropSkb f _).trans (induction _)
      · exact refl q

theorem dropOldFrom (now timeout : Nat) (frames : List Frame) (retryPacket : Nat) :
    Wanes q (Queue.dropOldFrom now timeout frames retryPacket q) := by
  induction frames generalizing q retryPacket with
  | nil => exact refl q
  | cons f rest induction =>
      cases retryPacket with
      | succ retryPacket => exact induction _
      | zero =>
          rw [Queue.dropOldFrom]
          split_ifs
          · exact (dropSkb f _).trans (induction _)
          · exact refl q

theorem addSubframe (a : Arrival) (maxnb : Nat) (room : Bool) :
    Wanes q (q.addSubframe a maxnb room) := by
  rw [Queue.addSubframe]
  split
  · exact refl q
  · split
    · split
      · exact refl q
      · split
        · exact ⟨rfl, Nat.le_refl _⟩
        · exact ⟨rfl, Nat.le_refl _⟩
    · split
      · exact refl q
      · split
        · exact refl q
        · split
          · exact ⟨rfl, Nat.le_refl _⟩
          · exact ⟨rfl, Nat.le_refl _⟩

theorem confirm (i : Nat) : Wanes q (q.confirm i) := by
  rw [Queue.confirm]
  split
  · exact refl q
  · split_ifs
    · exact ⟨rfl, Nat.le_refl _⟩
    · exact refl q

end Wanes

end Queue

namespace Txq

/-- The queue consists of frames to be sent again and of new ones, and no management frame is to be
sent again. -/
def Kept (q : Txq) : Prop :=
  (∃ again new, Parts q.queue again new) ∧ (q.queue.data = true ∨ q.queue.nbRetry = 0)

variable {q q' : Txq}

theorem Kept.retriesFirst (kept : q.Kept) : RetriesFirst q.queue := by
  obtain ⟨⟨again, new, parts⟩, marks⟩ := kept
  refine parts.retriesFirst (marks.imp_right fun none => ?_)
  exact List.eq_nil_of_length_eq_zero (parts.count.symm.trans none)

theorem Kept.of_wanes (kept : q.Kept) (wanes : Queue.Wanes q.queue q'.queue)
    (parts : ∀ again new, Parts q.queue again new → ∃ again' new', Parts q'.queue again' new') :
    q'.Kept := by
  obtain ⟨⟨again, new, before⟩, marks⟩ := kept
  refine ⟨parts again new before, marks.imp (fun data => wanes.data.trans data) fun none => ?_⟩
  exact Nat.le_zero.mp (none ▸ wanes.nbRetry)

theorem Kept.of_op (kept : q.Kept) (op : Queue.Op) (wanes : Queue.Wanes q.queue (q.queue.step op))
    (queue : q'.queue = q.queue.step op) : q'.Kept := by
  refine kept.of_wanes (queue ▸ wanes) fun again new parts => ?_
  rw [queue]
  exact parts.step op

theorem foldl_charge_queue (fate : Nat → Fate) (frames : List Frame) :
    (frames.foldl (fun q f => q.charge (fate f.skb) f) q).queue =
      q.queue.txPushAll q.hwq (frames.map fun f => (f, fate f.skb)) := by
  induction frames generalizing q with
  | nil => rfl
  | cons f frames induction => exact induction

theorem txPushAll_wanes {queue : Queue} (hwQueue : Fin nxTxqCnt) (frames : List (Frame × Fate)) :
    Queue.Wanes queue (queue.txPushAll hwQueue frames) := by
  induction frames generalizing queue with
  | nil => exact Queue.Wanes.refl queue
  | cons pushed frames induction =>
      have first : Queue.Wanes queue (queue.txPush hwQueue pushed.2 pushed.1) :=
        ⟨rfl, Nat.sub_le _ _⟩
      exact first.trans induction

/-- The first frames of the queue are pushed. -/
theorem Kept.pushTaken (kept : q.Kept) (fate : Nat → Fate) {left taken : List Frame}
    (split : q.queue.skList = taken ++ left) : (q.pushTaken fate left taken).Kept := by
  have eq :=
    foldl_charge_queue (q := { q with queue := { q.queue with skList := left } }) fate taken
  refine kept.of_wanes ?_ fun again new parts => ?_
  · have cut : Queue.Wanes q.queue { q.queue with skList := left } := ⟨rfl, Nat.le_refl _⟩
    rw [Txq.pushTaken, eq]
    exact cut.trans (txPushAll_wanes _ _)
  · rw [Txq.pushTaken, eq]
    refine parts.txPushAll ?_ _
    rw [List.map_map, split]
    exact congrArg (· ++ left) (List.map_id taken).symm

/-- A regular turn pushes the first frames. -/
theorem Kept.push (kept : q.Kept) {hwqCredits : Nat} {fate : Nat → Fate}
    (regular : q.Regular (.push hwqCredits fate)) :
    ∃ q', q.push hwqCredits fate = .ok q' ∧ q'.Kept := by
  rw [Txq.push]
  split_ifs with turn all
  · exact ⟨_, rfl, kept.pushTaken fate (List.append_nil _).symm⟩
  · have positive : 0 < q.getCredits := by
      rw [Txq.getCredits]
      have some := regular turn
      split_ifs at some ⊢
      · exact some
      · exact some
    have least : 0 < min q.getCredits (hwqCredits : Int) := by
      have room := turn.2.2.2
      omega
    rw [Queue.extract, if_pos least]
    exact ⟨_, rfl, kept.pushTaken fate (List.take_append_drop _ _).symm⟩
  · exact ⟨q, rfl, kept⟩

/-- A turn that is not regular pushes the head of `sk_list`. -/
theorem push_of_not_regular {hwqCredits : Nat} {fate : Nat → Fate}
    (irregular : ¬q.Regular (.push hwqCredits fate)) :
    q.push hwqCredits fate = .error .headPushed := by
  obtain ⟨turn, none⟩ := Classical.not_imp.mp irregular
  have least : q.getCredits ≤ 0 := by
    rw [Txq.getCredits]
    split_ifs at none ⊢
    · exact Int.not_lt.mp none
    · exact Int.not_lt.mp none
  have some : 0 < q.queue.skList.length := List.length_pos_iff.mpr turn.2.2.1
  rw [Txq.push, if_pos turn, if_neg (by omega), Queue.extract, if_neg (by omega)]

theorem retry_spec {queue : Queue} {i : Nat} {f : Frame} (flying : queue.flight[i]? = some f)
    (sent : f.fate = some .sent) :
    (queue.retry i).nbRetry = queue.nbRetry + 1 ∧ (queue.retry i).data = queue.data := by
  rw [Queue.retry, flying]
  simp only
  rw [if_pos sent]
  exact ⟨rfl, rfl⟩

theorem Kept.txCfm (kept : q.Kept) {bus : Bus} {i : Nat} {again : Bool} {credits : Int}
    (regular : q.Regular (.txCfm i again credits)) : (q.txCfm bus i again credits).Kept := by
  rw [Txq.txCfm]
  cases flying : q.queue.flight[i]? with
  | none => exact kept
  | some f =>
      simp only
      by_cases sent : f.fate = some .sent
      · rw [if_pos sent]
        by_cases returned : q.active = true ∧ again = true
        · rw [if_pos returned]
          obtain ⟨⟨again', new, parts⟩, marks⟩ := kept
          obtain ⟨again'', parts'⟩ := parts.retry i
          refine ⟨⟨again'', new, parts'⟩, Or.inl ?_⟩
          have data : q.queue.data = true := by
            rw [← Bool.not_eq_false]
            exact fun management => regular management returned.1 returned.2 f flying sent
          exact (retry_spec flying sent).2.trans data
        · rw [if_neg returned]
          refine kept.of_wanes (Queue.Wanes.confirm i) fun again new parts => ?_
          exact ⟨again, new, parts.confirm i⟩
      · rw [if_neg sent]
        exact kept

/-- A management frame that is to be sent again is not marked. -/
theorem Kept.not_marked (kept : q.Kept) {bus : Bus} {i : Nat} {again : Bool} {credits : Int}
    (irregular : ¬q.Regular (.txCfm i again credits)) :
    ¬RetriesFirst (q.txCfm bus i again credits).queue := by
  obtain ⟨⟨again', new, parts⟩, -⟩ := kept
  simp only [Regular, not_forall] at irregular
  obtain ⟨management, active, returned, f, flying, sent⟩ := irregular
  obtain ⟨again'', parts'⟩ := parts.retry i
  have eq : (q.txCfm bus i again credits).queue = q.queue.retry i := by
    rw [Txq.txCfm, Option.mem_def.mp flying]
    simp only
    rw [if_pos (not_not.mp sent), if_pos ⟨active, returned⟩]
  have more := retry_spec flying (not_not.mp sent)
  rw [eq]
  intro first
  cases again'' with
  | nil => exact absurd (parts'.count.symm.trans more.1) (Nat.succ_ne_zero _).symm
  | cons g again'' =>
      have here : (q.queue.retry i).skList[0]? = some g := by
        rw [parts'.split]
        rfl
      have marked := (first.marked 0 g here).mpr (more.1 ▸ Nat.succ_pos _)
      have unmarked := parts'.marked g List.mem_cons_self
      rw [more.2, management] at unmarked
      exact Bool.false_ne_true (unmarked.symm.trans marked)

theorem Kept.step (kept : q.Kept) {bus : Bus} {e : Event} (regular : q.Regular e) :
    ∃ q', q.step bus e = .ok q' ∧ q'.Kept := by
  cases e with
  | init hwq sta => exact ⟨_, rfl, kept.of_op .reset ⟨rfl, Nat.zero_le _⟩ rfl⟩
  | deinit =>
      refine ⟨_, rfl, ?_⟩
      rw [deinit]
      split_ifs
      · exact kept.of_op .flush (Queue.Wanes.flushLoop _) rfl
      · exact kept
  | queueSkb a =>
      refine ⟨_, rfl, ?_⟩
      rw [queueSkb]
      split_ifs
      · exact kept.of_op (.queue a) ⟨rfl, Nat.le_refl _⟩ rfl
      · exact kept
  | addSubframe a maxnb room =>
      refine ⟨_, rfl, ?_⟩
      rw [addSubframe]
      split_ifs
      · exact kept.of_op (.subframe a maxnb room) (Queue.Wanes.addSubframe a maxnb room) rfl
      · exact kept
  | push hwqCredits fate => exact kept.push regular
  | pushLimit limit => exact ⟨_, rfl, kept⟩
  | txCfm i again credits => exact ⟨_, rfl, kept.txCfm regular⟩
  | creditUpdate update =>
      refine ⟨_, rfl, ?_⟩
      rw [creditUpdate]
      by_cases small : update < nxTxqInitialCredits
      · exact kept.of_op .dropRetries (Queue.Wanes.dropRetriesFrom _ _) (if_pos small)
      · rw [if_neg small]
        exact kept
  | amsduUpdateLen amsduLen alloc =>
      refine ⟨_, rfl, ?_⟩
      rw [amsduUpdateLen]
      split_ifs
      · exact kept.of_op (.setAmsduLen (Hw.amsduLenOn bus amsduLen)) ⟨rfl, Nat.le_refl _⟩ rfl
      · exact kept.of_op (.setAmsduLen 0) ⟨rfl, Nat.le_refl _⟩ rfl
      · refine kept.of_wanes ⟨rfl, Nat.le_refl _⟩ fun again new parts => ?_
        obtain ⟨new', parts'⟩ := parts.dismantle amsduLen alloc
        exact ⟨again, new', { parts' with }⟩
  | dropOldTraffic now timeout =>
      refine ⟨_, rfl, ?_⟩
      rw [dropOldTraffic]
      split_ifs
      · exact kept.of_op (.dropOld now timeout) (Queue.Wanes.dropOldFrom _ _ _ _) rfl
      · exact kept

theorem Kept.sharp (kept : q.Kept) {bus : Bus} {e : Event} (irregular : ¬q.Regular e)
    (stepped : q.step bus e = .ok q') : ¬RetriesFirst q'.queue := by
  cases e with
  | push hwqCredits fate =>
      rw [Txq.step, push_of_not_regular irregular] at stepped
      cases stepped
  | txCfm i again credits =>
      cases stepped
      exact kept.not_marked irregular
  | _ => exact absurd trivial irregular

theorem unused_kept (data : Bool) : (unused data).Kept :=
  ⟨⟨[], [], init_parts data⟩, Or.inr rfl⟩

/-- Whatever is done to a queue, the marked frames come first, as long as every turn is regular and
no management frame comes back; and only so long. -/
theorem retriesFirst_iff_regular (bus : Bus) (data : Bool) (events : List Event) :
    Run.Safe (step bus) (fun q => RetriesFirst q.queue) events (unused data) ↔
      Run.Guarded (step bus) Regular events (unused data) :=
  Run.safe_iff_guarded (fun _ _ kept regular => kept.step regular) (fun _ kept => kept.retriesFirst)
    (fun _ _ _ kept irregular => kept.sharp irregular) (unused_kept data)

/-- The credits of a queue are below zero when power save code asks for its frame, so that the push
limit is -1; then credits come. -/
def negativeLimit : List Event :=
  [.init 1 true, .queueSkb ⟨0, 100, 1, false⟩, .creditUpdate (-5), .pushLimit (-1),
    .creditUpdate 3, .push 64 fun _ => .sent]

/-- An action frame is returned to be sent again. -/
def actionReturned : List Event :=
  [.init 3 true, .queueSkb ⟨0, 60, 1, false⟩, .push 64 fun _ => .sent, .txCfm 0 true 1]

/-- In the one run the head of `sk_list` is pushed, in the other the frame to be sent again is not
marked. -/
theorem retries_not_first :
    ¬Run.Safe (step .pcie) (fun q => RetriesFirst q.queue) negativeLimit (unused true) ∧
      ¬Run.Safe (step .pcie) (fun q => RetriesFirst q.queue) actionReturned (unused false) := by
  constructor
  · intro safe
    obtain ⟨q, ran, -⟩ := safe negativeLimit [] rfl
    have outcome : (Run.run (step .pcie) negativeLimit (unused true)).toOption.isNone = true := by
      decide +kernel
    rw [ran] at outcome
    exact Bool.false_ne_true outcome
  · intro safe
    obtain ⟨q, ran, first⟩ := safe actionReturned [] rfl
    have outcome : (Run.run (step .pcie) actionReturned (unused false)).toOption.map (fun q =>
        (q.queue.nbRetry, q.queue.skList[0]?.map Frame.retry)) = some (1, some false) := by
      decide +kernel
    rw [ran] at outcome
    simp only [Except.toOption, Option.map_some, Option.some.injEq, Prod.mk.injEq,
      Option.map_eq_some_iff] at outcome
    obtain ⟨count, f, here, unmarked⟩ := outcome
    have marked := (first.marked 0 f here).mpr (count ▸ Nat.zero_lt_one)
    exact Bool.false_ne_true (unmarked.symm.trans marked)

end Txq

end AmlW2.Tx
