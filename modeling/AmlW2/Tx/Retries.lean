import AmlW2.Tx.Queue
import Mathlib.Data.List.Flatten

/-!
# Frames to be sent again come first

Whatever is done to a transmit queue, its first `nb_retry` frames are those that the firmware has
returned last, in their order, and `last_retry_skb` is the last of these.
-/

namespace AmlW2.Tx

/-- The first `nb_retry` frames are those to be sent again, in the order in which they were
returned; `last_retry_skb` is the last of them; and no `WARN` has fired. -/
structure RetriesFirst (q : Queue) : Prop where
  count : q.nbRetry ≤ q.skList.length
  order : (q.skList.take q.nbRetry).map Frame.skb <:+ q.returned
  others : ∀ f ∈ q.skList.drop q.nbRetry, f.skb ∉ q.returned
  marked : ∀ (i : Nat) (f : Frame), q.skList[i]? = some f → (f.retry = true ↔ i < q.nbRetry)
  last : q.lastRetrySkb = (q.skList.take q.nbRetry).getLast?.map Frame.skb
  calm : q.warned = false

/-! ## Buffers -/

/-- The buffers of the frames are different, and numbered below `next`. -/
def Buffers (frames : List Frame) (next : Nat) : Prop :=
  (frames.flatMap Frame.skbs).Nodup ∧ ∀ skb ∈ frames.flatMap Frame.skbs, skb < next

namespace Buffers

variable {frames frames' : List Frame} {next : Nat}

theorem of_subperm (buffers : Buffers frames next)
    (among : (frames'.flatMap Frame.skbs).Subperm (frames.flatMap Frame.skbs)) :
    Buffers frames' next := by
  refine ⟨?_, fun skb member => buffers.2 skb (among.subset member)⟩
  obtain ⟨kept, perm, sub⟩ := among
  exact perm.nodup_iff.mp (buffers.1.sublist sub)

theorem perm (buffers : Buffers frames next) (perm : frames'.Perm frames) : Buffers frames' next :=
  buffers.of_subperm (perm.flatMap_right _).subperm

theorem sublist (buffers : Buffers frames next) (sub : frames'.Sublist frames) :
    Buffers frames' next :=
  buffers.of_subperm (sub.flatMap _).subperm

/-- One more buffer comes into use. -/
theorem grow (buffers : Buffers frames next)
    (more : (frames'.flatMap Frame.skbs).Subperm (next :: frames.flatMap Frame.skbs)) :
    Buffers frames' (next + 1) := by
  have fresh : (next :: frames.flatMap Frame.skbs).Nodup :=
    List.nodup_cons.mpr ⟨fun used => Nat.lt_irrefl next (buffers.2 next used), buffers.1⟩
  refine ⟨?_, fun skb member => ?_⟩
  · obtain ⟨kept, perm, sub⟩ := more
    exact perm.nodup_iff.mp (fresh.sublist sub)
  · obtain rfl | used := List.mem_cons.mp (more.subset member)
    · exact Nat.lt_succ_self _
    · exact Nat.lt_succ_of_lt (buffers.2 skb used)

end Buffers

/-! ## The two parts of a queue -/

/-- The queue consists of frames to be sent again and of new ones.  Management frames are not
marked. -/
structure Parts (q : Queue) (again new : List Frame) : Prop where
  split : q.skList = again ++ new
  count : q.nbRetry = again.length
  last : q.lastRetrySkb = again.getLast?.map Frame.skb
  order : again.map Frame.skb <:+ q.returned
  others : ∀ f ∈ new, ∀ skb ∈ f.skbs, skb ∉ q.returned
  marked : ∀ f ∈ again, f.retry = q.data
  plain : ∀ f ∈ new ++ q.flight, f.retry = false
  amsdu : ∀ skb, q.amsdu = some skb → ∃ f ∈ new, f.skb = skb ∧ f.hdrs ≠ []
  buffers : Buffers (again ++ new ++ q.flight) q.next
  past : ∀ skb ∈ q.returned, skb < q.next
  calm : q.warned = false

theorem Parts.count_le {q : Queue} {again new : List Frame} (parts : Parts q again new) :
    q.nbRetry ≤ q.skList.length := by
  rw [parts.split, parts.count, List.length_append]
  exact Nat.le_add_right _ _

/-- The frames to be sent again come first, unless there are management frames among them. -/
theorem Parts.retriesFirst {q : Queue} {again new : List Frame} (parts : Parts q again new)
    (marks : q.data = true ∨ again = []) : RetriesFirst q where
  count := parts.count_le
  order := by
    rw [parts.split, parts.count, List.take_left']
    · exact parts.order
    · rfl
  others := by
    rw [parts.split, parts.count, List.drop_left']
    · exact fun f member => parts.others f member _ List.mem_cons_self
    · rfl
  marked := by
    intro i f here
    rw [parts.split] at here
    rw [parts.count]
    by_cases early : i < again.length
    · rw [List.getElem?_append_left early] at here
      have member := List.mem_of_getElem? here
      have data : q.data = true :=
        marks.resolve_right fun none => absurd (none ▸ member) List.not_mem_nil
      rw [parts.marked f member, data]
      exact ⟨fun _ => early, fun _ => rfl⟩
    · rw [List.getElem?_append_right (Nat.not_lt.mp early)] at here
      have plain := parts.plain f (List.mem_append_left _ (List.mem_of_getElem? here))
      rw [plain]
      exact ⟨fun marked => absurd marked Bool.false_ne_true, fun small => absurd small early⟩
  last := by
    rw [parts.last, parts.split, parts.count, List.take_left']
    rfl
  calm := parts.calm

theorem init_parts (data : Bool) : Parts (Queue.init data) [] [] where
  split := rfl
  count := rfl
  last := rfl
  order := List.suffix_refl _
  others := fun _ member => (by cases member)
  marked := fun _ member => (by cases member)
  plain := fun _ member => (by cases member)
  amsdu := fun _ some => (by cases some)
  buffers := ⟨List.nodup_nil, fun _ member => (by cases member)⟩
  past := fun _ member => (by cases member)
  calm := rfl

theorem splitAfter_append {again new : List Frame} {f : Frame}
    (distinct : f.skb ∉ again.map Frame.skb) :
    splitAfter f.skb (again ++ f :: new) = (again ++ [f], new) := by
  induction again with
  | nil => simp only [List.nil_append, splitAfter, if_true]
  | cons g again induction =>
      obtain ⟨other, distinct⟩ := List.ne_and_not_mem_of_not_mem_cons distinct
      rw [List.cons_append, splitAfter, if_neg (Ne.symm other), induction distinct]
      rfl

theorem map_fst_zip_append_drop {α β : Type*} (l : List α) (l' : List β) :
    (l.zip l').map Prod.fst ++ l.drop l'.length = l := by
  induction l generalizing l' with
  | nil => rw [List.zip_nil_left, List.map_nil, List.drop_nil, List.nil_append]
  | cons a l induction =>
      cases l' with
      | nil => rfl
      | cons b l' => exact congrArg (a :: ·) (induction l')

namespace Parts

variable {q : Queue} {again new : List Frame}

/-- The buffers of the frames queued are different. -/
theorem nodup_skb (parts : Parts q again new) : ((again ++ new).map Frame.skb).Nodup := by
  have distinct := parts.buffers.1
  rw [List.flatMap_append] at distinct
  have queued := (List.nodup_append.mp distinct).1
  refine queued.sublist ?_
  generalize again ++ new = frames
  induction frames with
  | nil => exact List.Sublist.refl _
  | cons f frames induction =>
      rw [List.map_cons, List.flatMap_cons, Frame.skbs, List.cons_append]
      exact (induction.trans (List.sublist_append_right _ _)).cons_cons _

/-- `last_retry_skb` marks the border. -/
theorem halves (parts : Parts q again new) : q.halves = (again, new) := by
  rw [Queue.halves, parts.last, parts.split]
  rcases List.eq_nil_or_concat again with rfl | ⟨front, f, rfl⟩
  · rfl
  · have distinct := parts.nodup_skb
    rw [List.concat_eq_append, List.append_assoc, List.singleton_append, List.map_append,
      List.map_cons] at distinct
    have absent : f.skb ∉ front.map Frame.skb := fun member =>
      (List.nodup_append.mp distinct).2.2 _ member _ List.mem_cons_self rfl
    rw [List.concat_eq_append, List.getLast?_concat, List.append_assoc, List.singleton_append]
    exact splitAfter_append absent

/-- No new frame is to be sent again. -/
theorem not_mem_new (parts : Parts q again new) {f g : Frame} (member : f ∈ again)
    (member' : g ∈ new) :
    f.skb ≠ g.skb := by
  have distinct := parts.nodup_skb
  rw [List.map_append] at distinct
  exact (List.nodup_append.mp distinct).2.2 _ (List.mem_map_of_mem member) _
    (List.mem_map_of_mem member')

/-! ## Frames that come -/

theorem queueNew (parts : Parts q again new) (a : Arrival) :
    ∃ new', Parts (q.queueNew a) again new' := by
  refine ⟨new ++ [⟨q.next, a.jiffies, a.len, a.addr, a.sp, false, 0, 0, [], 0, none⟩], ?_⟩
  refine
    { split := ?_
      count := parts.count
      last := parts.last
      order := parts.order
      others := ?_
      marked := parts.marked
      plain := ?_
      amsdu := ?_
      buffers := ?_
      past := fun skb member => Nat.lt_succ_of_lt (parts.past skb member)
      calm := parts.calm }
  · rw [Queue.queueNew, parts.split, List.append_assoc]
  · intro f member skb skbs returned
    obtain old | here := List.mem_append.mp member
    · exact parts.others f old skb skbs returned
    · rw [List.mem_singleton.mp here] at skbs
      rw [List.mem_singleton.mp skbs] at returned
      exact Nat.lt_irrefl q.next (parts.past q.next returned)
  · intro f member
    rw [List.append_assoc, List.mem_append, List.mem_append] at member
    obtain old | here | flying := member
    · exact parts.plain f (List.mem_append_left _ old)
    · rw [List.mem_singleton.mp here]
    · exact parts.plain f (List.mem_append_right _ flying)
  · intro skb some
    obtain ⟨f, member, rest⟩ := parts.amsdu skb some
    exact ⟨f, List.mem_append_left _ member, rest⟩
  · refine parts.buffers.grow (List.Perm.subperm ?_)
    rw [← List.append_assoc, List.append_assoc, List.singleton_append]
    exact (List.perm_middle.flatMap_right _).trans (List.Perm.refl _)

/-- A frame in flight is queued behind the others to be sent again. -/
theorem retry (parts : Parts q again new) (i : Nat) : ∃ again', Parts (q.retry i) again' new := by
  rw [Queue.retry]
  cases flying : q.flight[i]? with
  | none => exact ⟨again, parts⟩
  | some f =>
      simp only
      split_ifs
      · have halves := parts.halves
        obtain ⟨bound, here⟩ := List.getElem?_eq_some_iff.mp flying
        have moved : q.flight.Perm (f :: q.flight.eraseIdx i) :=
          here ▸ (List.getElem_cons_eraseIdx_perm bound).symm
        have all : (again ++ new ++ q.flight).Perm (f :: (again ++ new ++ q.flight.eraseIdx i)) :=
          (moved.append_left _).trans List.perm_middle
        have buffers := parts.buffers.perm all.symm
        have plain := parts.plain f (List.mem_append_right _ (moved.mem_iff.mpr List.mem_cons_self))
        refine ⟨again ++ [{ f with retry := q.data || f.retry, fate := none }], ?_⟩
        refine
          { split := ?_
            count := ?_
            last := ?_
            order := ?_
            others := ?_
            marked := ?_
            plain := ?_
            amsdu := parts.amsdu
            buffers := ?_
            past := ?_
            calm := parts.calm }
        · have same : Queue.halves { q with flight := q.flight.eraseIdx i } = q.halves := rfl
          rw [Queue.queueRetry, same, halves, List.append_assoc, List.singleton_append]
        · rw [List.length_append, ← parts.count]
          rfl
        · rw [List.getLast?_concat]
          rfl
        · obtain ⟨past, eq⟩ := parts.order
          refine ⟨past, ?_⟩
          rw [List.map_append, ← List.append_assoc, eq]
          rfl
        · intro g member skb skbs returned
          obtain old | here := List.mem_append.mp returned
          · exact parts.others g member skb skbs old
          · have distinct := buffers.1
            rw [List.flatMap_cons] at distinct
            refine (List.nodup_append.mp distinct).2.2 f.skb List.mem_cons_self skb ?_
              (List.mem_singleton.mp here).symm
            exact List.mem_flatMap.mpr ⟨g, List.mem_append_left _ (List.mem_append_right _ member),
              skbs⟩
        · intro g member
          obtain old | here := List.mem_append.mp member
          · exact parts.marked g old
          · rw [List.mem_singleton.mp here, plain, Bool.or_false]
            rfl
        · intro g member
          obtain queued | left := List.mem_append.mp member
          · exact parts.plain g (List.mem_append_left _ queued)
          · exact parts.plain g (List.mem_append_right _ ((List.eraseIdx_sublist _ _).subset left))
        · refine buffers.of_subperm (List.Perm.subperm ?_)
          rw [List.append_assoc again, List.singleton_append, List.append_assoc, List.cons_append]
          refine (List.perm_middle.flatMap_right _).trans ?_
          rw [← List.append_assoc]
          exact List.Perm.refl _
        · intro skb member
          obtain old | here := List.mem_append.mp member
          · exact parts.past skb old
          · rw [List.mem_singleton.mp here]
            exact buffers.2 f.skb (List.mem_append_left _ List.mem_cons_self)
      · exact ⟨again, parts⟩

theorem confirm (parts : Parts q again new) (i : Nat) : Parts (q.confirm i) again new := by
  rw [Queue.confirm]
  cases q.flight[i]? with
  | none => exact parts
  | some f =>
      simp only
      split_ifs
      · have fewer := List.eraseIdx_sublist q.flight i
        exact
          { split := parts.split
            count := parts.count
            last := parts.last
            order := parts.order
            others := parts.others
            marked := parts.marked
            plain := fun g member =>
              parts.plain g (((List.Sublist.refl new).append fewer).subset member)
            amsdu := parts.amsdu
            buffers := parts.buffers.sublist ((List.Sublist.refl _).append fewer)
            past := parts.past
            calm := parts.calm }
      · exact parts

/-! ## Frames that go -/

/-- The first frame of the queue leaves it. -/
theorem head (parts : Parts q again new) {f : Frame} {rest : List Frame}
    (first : q.skList = f :: rest) :
    (∃ again', again = f :: again' ∧ rest = again' ++ new) ∨ again = [] ∧ new = f :: rest := by
  have split := parts.split
  rw [first] at split
  cases again with
  | nil => exact Or.inr ⟨rfl, split.symm⟩
  | cons g again' =>
      rw [List.cons_append, List.cons.injEq] at split
      obtain ⟨rfl, rfl⟩ := split
      exact Or.inl ⟨again', rfl, rfl⟩

/-- The A-MSDU in construction is not among the frames to be sent again, and has subframes. -/
theorem amsdu_head (parts : Parts q again new) {f : Frame} {rest : List Frame}
    (first : q.skList = f :: rest) (building : q.amsdu = some f.skb) :
    again = [] ∧ f.hdrs ≠ [] := by
  obtain ⟨g, member, same, some⟩ := parts.amsdu f.skb building
  obtain ⟨again', rfl, -⟩ | ⟨rfl, rfl⟩ := parts.head first
  · exact absurd same.symm (parts.not_mem_new List.mem_cons_self member)
  · obtain rfl | later := List.mem_cons.mp member
    · exact ⟨rfl, some⟩
    · have distinct := parts.nodup_skb
      rw [List.nil_append, List.map_cons, List.nodup_cons] at distinct
      exact absurd (same ▸ List.mem_map_of_mem later) distinct.1

/-- What remains of a queue whose first frame was taken out. -/
theorem dequeue (parts : Parts q again new) {f : Frame} {rest flight : List Frame}
    (first : q.skList = f :: rest) (flown : ∀ g ∈ flight, g.retry = false)
    (moved : ((rest ++ flight).flatMap Frame.skbs).Subperm
      ((f :: (rest ++ q.flight)).flatMap Frame.skbs)) :
    ∃ again' new', Parts
      { q with
        skList := rest
        nbRetry := q.nbRetry - 1
        lastRetrySkb := if q.nbRetry = 1 then none else q.lastRetrySkb
        amsdu := if q.amsdu = some f.skb then none else q.amsdu
        flight } again' new' := by
  have amsdu : ∀ skb, (if q.amsdu = some f.skb then none else q.amsdu) = some skb →
      q.amsdu = some skb ∧ f.skb ≠ skb := by
    intro skb some
    split_ifs at some with same
    exact ⟨some, fun eq => same (eq ▸ some)⟩
  have all : again ++ new ++ q.flight = f :: (rest ++ q.flight) := by
    rw [← parts.split, first]
    rfl
  have buffers := (all ▸ parts.buffers).of_subperm moved
  obtain ⟨again', rfl, rfl⟩ | ⟨rfl, rfl⟩ := parts.head first
  · refine ⟨again', new, ?_⟩
    refine
      { split := rfl
        count := ?_
        last := ?_
        order := ?_
        others := parts.others
        marked := fun g member => parts.marked g (List.mem_cons_of_mem f member)
        plain := ?_
        amsdu := fun skb some => parts.amsdu skb (amsdu skb some).1
        buffers
        past := parts.past
        calm := parts.calm }
    · exact congrArg (· - 1) parts.count
    · change (if q.nbRetry = 1 then none else q.lastRetrySkb) = _
      rw [parts.count, parts.last]
      cases again' with
      | nil => rfl
      | cons g again' => exact if_neg (Nat.succ_ne_succ_iff.mpr (Nat.succ_ne_zero _))
    · exact (List.suffix_cons f.skb (again'.map Frame.skb)).trans parts.order
    · intro g member
      obtain queued | flying := List.mem_append.mp member
      · exact parts.plain g (List.mem_append_left _ queued)
      · exact flown g flying
  · refine ⟨[], rest, ?_⟩
    have none := parts.count
    refine
      { split := rfl
        count := ?_
        last := ?_
        order := List.nil_suffix
        others := fun g member => parts.others g (List.mem_cons_of_mem f member)
        marked := parts.marked
        plain := ?_
        amsdu := ?_
        buffers
        past := parts.past
        calm := parts.calm }
    · exact congrArg (· - 1) none
    · exact (if_neg (none ▸ Nat.zero_ne_one)).trans parts.last
    · intro g member
      obtain queued | flying := List.mem_append.mp member
      · exact parts.plain g (List.mem_append_left _ (List.mem_cons_of_mem f queued))
      · exact flown g flying
    · intro skb some
      obtain ⟨building, other⟩ := amsdu skb some
      obtain ⟨g, member, same, some⟩ := parts.amsdu skb building
      obtain rfl | later := List.mem_cons.mp member
      · exact absurd same other
      · exact ⟨g, later, same, some⟩

/-- The frame pushed is the one expected. -/
theorem txPush (parts : Parts q again new) {f : Frame} {rest : List Frame}
    (first : q.skList = f :: rest) (hwQueue : Fin nxTxqCnt) (fate : Fate) :
    ∃ again' new', Parts ({ q with skList := rest }.txPush hwQueue fate f) again' new' := by
  have expected : decide (q.nbRetry = 1 ∧ q.lastRetrySkb ≠ some f.skb) = false := by
    refine decide_eq_false ?_
    rintro ⟨one, wrong⟩
    obtain ⟨again', rfl, -⟩ | ⟨rfl, -⟩ := parts.head first
    · have empty : again' = [] :=
        List.eq_nil_of_length_eq_zero (Nat.succ.inj (parts.count.symm.trans one))
      rw [parts.last, empty] at wrong
      exact wrong rfl
    · exact Nat.zero_ne_one (parts.count.symm.trans one)
  have whole : decide (q.nbRetry ≠ 0 ∧ q.amsdu = some f.skb) = false := by
    refine decide_eq_false ?_
    rintro ⟨some, building⟩
    refine some ?_
    rw [parts.count, (parts.amsdu_head first building).1]
    rfl
  have calm : (q.warned || decide (q.nbRetry = 1 ∧ q.lastRetrySkb ≠ some f.skb) ||
      decide (q.nbRetry ≠ 0 ∧ q.amsdu = some f.skb)) = q.warned := by
    rw [expected, whole, Bool.or_false, Bool.or_false]
  rw [Queue.txPush]
  simp only [calm]
  refine parts.dequeue first ?_ (List.Perm.subperm ?_)
  · intro g member
    obtain old | here := List.mem_append.mp member
    · exact parts.plain g (List.mem_append_right _ old)
    · rw [List.mem_singleton.mp here]
  · rw [← List.append_assoc]
    refine ((List.perm_append_singleton _ _).flatMap_right _).trans ?_
    exact List.Perm.refl _

theorem txPushAll (parts : Parts q again new) {frames : List (Frame × Fate)} {rest : List Frame}
    (split : q.skList = frames.map Prod.fst ++ rest) (hwQueue : Fin nxTxqCnt) :
    ∃ again' new', Parts ({ q with skList := rest }.txPushAll hwQueue frames) again' new' := by
  induction frames generalizing q again new with
  | nil =>
      have same : { q with skList := rest } = q := by
        rw [List.map_nil, List.nil_append] at split
        rw [← split]
      exact ⟨again, new, same.symm ▸ parts⟩
  | cons pushed frames induction =>
      obtain ⟨again', new', parts'⟩ := parts.txPush split hwQueue pushed.2
      exact induction parts' rfl

theorem push (parts : Parts q again new) (hwQueue : Fin nxTxqCnt) (fates : List Fate) :
    ∃ again' new', Parts (q.push hwQueue fates) again' new' := by
  exact parts.txPushAll (map_fst_zip_append_drop q.skList fates).symm hwQueue

/-- A frame of the head is dropped as one to be sent again when there are some. -/
theorem dropSkb (parts : Parts q again new) {f : Frame} {rest : List Frame}
    (first : q.skList = f :: rest) :
    ∃ again' new', Parts (q.dropSkb f (decide (q.nbRetry ≠ 0))) again' new' := by
  have taken : q.skList.eraseP (fun g => g.skb = f.skb) = rest := by
    rw [first]
    exact List.eraseP_cons_of_pos (decide_eq_true rfl)
  have amsdu : (if f.hdrs ≠ [] ∧ q.amsdu = some f.skb then none else q.amsdu) =
      if q.amsdu = some f.skb then none else q.amsdu := by
    by_cases building : q.amsdu = some f.skb
    · rw [if_pos ⟨(parts.amsdu_head first building).2, building⟩, if_pos building]
    · rw [if_neg fun both => building both.2, if_neg building]
  have count : (if decide (q.nbRetry ≠ 0) = true then q.nbRetry - 1 else q.nbRetry) =
      q.nbRetry - 1 := by
    split_ifs with some
    · rfl
    · rw [decide_eq_true_eq, not_not] at some
      rw [some]
  have last : (if decide (q.nbRetry ≠ 0) = true ∧ q.nbRetry = 1 then none else q.lastRetrySkb) =
      if q.nbRetry = 1 then none else q.lastRetrySkb := by
    by_cases one : q.nbRetry = 1
    · rw [if_pos ⟨decide_eq_true (one ▸ Nat.one_ne_zero), one⟩, if_pos one]
    · rw [if_neg fun both => one both.2, if_neg one]
  have calm : (q.warned || decide (decide (q.nbRetry ≠ 0) = true ∧ q.nbRetry = 1 ∧
      q.lastRetrySkb ≠ some f.skb)) = q.warned := by
    rw [Bool.or_eq_left_iff_imp]
    intro wrong
    obtain ⟨-, one, wrong⟩ := of_decide_eq_true wrong
    obtain ⟨again', rfl, -⟩ | ⟨rfl, -⟩ := parts.head first
    · have empty : again' = [] :=
        List.eq_nil_of_length_eq_zero (Nat.succ.inj (parts.count.symm.trans one))
      rw [parts.last, empty] at wrong
      exact absurd rfl wrong
    · exact absurd (parts.count.symm.trans one) Nat.zero_ne_one
  rw [Queue.dropSkb]
  simp only [taken, amsdu, count, last, calm]
  refine parts.dequeue first (fun g member => parts.plain g (List.mem_append_right _ member)) ?_
  exact ((List.sublist_cons_self f _).flatMap _).subperm

theorem flush (parts : Parts q again new) : ∃ again' new', Parts q.flush again' new' := by
  rw [Queue.flush]
  generalize q.skList.length = fuel
  induction fuel generalizing q again new with
  | zero => exact ⟨again, new, parts⟩
  | succ fuel induction =>
      rw [Queue.flushLoop]
      cases first : q.skList with
      | nil => exact ⟨again, new, parts⟩
      | cons f rest =>
          obtain ⟨again', new', parts'⟩ := parts.dropSkb first
          exact induction parts'

theorem dropRetries (parts : Parts q again new) : ∃ again' new',
    Parts q.dropRetries again' new' := by
  rw [Queue.dropRetries]
  generalize q.nbRetry = fuel, 0 = packet
  induction fuel generalizing q again new packet with
  | zero => exact ⟨again, new, parts⟩
  | succ fuel induction =>
      rw [Queue.dropRetriesFrom]
      split_ifs with more
      · cases first : q.skList with
        | nil => exact induction parts _
        | cons f rest =>
            obtain ⟨again', new', parts'⟩ := parts.dropSkb first
            rw [decide_eq_true (Nat.ne_zero_of_lt more)] at parts'
            exact induction parts' _
      · exact ⟨again, new, parts⟩

/-- A new frame whose time is over is dropped. -/
theorem dropNew (parts : Parts q again new) {f : Frame} {rest : List Frame}
    (first : new = f :: rest) :
    Parts (q.dropSkb f false) again rest := by
  subst first
  have distinct := parts.nodup_skb
  rw [List.map_append, List.map_cons] at distinct
  have taken : q.skList.eraseP (fun g => g.skb = f.skb) = again ++ rest := by
    rw [parts.split, List.eraseP_append_right]
    · exact congrArg _ (List.eraseP_cons_of_pos (decide_eq_true rfl))
    · intro g member same
      exact parts.not_mem_new member List.mem_cons_self (of_decide_eq_true same)
  have calm : (q.warned || decide (false = true ∧ q.nbRetry = 1 ∧ q.lastRetrySkb ≠ some f.skb)) =
      false := by
    rw [parts.calm]
    rfl
  have fewer : (again ++ rest ++ q.flight).Sublist (again ++ f :: rest ++ q.flight) :=
    ((List.Sublist.refl again).append (List.sublist_cons_self f rest)).append (List.Sublist.refl _)
  exact
    { split := taken
      count := parts.count
      last := parts.last
      order := parts.order
      others := fun g member => parts.others g (List.mem_cons_of_mem f member)
      marked := parts.marked
      plain := fun g member => parts.plain g (List.mem_cons_of_mem f member)
      amsdu := by
        intro skb some
        change (if f.hdrs ≠ [] ∧ q.amsdu = Option.some f.skb then none else q.amsdu) = _ at some
        split_ifs at some with built
        obtain ⟨g, member, same, hdrs⟩ := parts.amsdu skb some
        obtain rfl | later := List.mem_cons.mp member
        · exact absurd ⟨hdrs, same ▸ some⟩ built
        · exact ⟨g, later, same, hdrs⟩
      buffers := parts.buffers.sublist fewer
      past := parts.past
      calm }

/-- The walk passes the frames to be sent again. -/
theorem dropOldFrom_append (now timeout : Nat) (again new : List Frame) (q : Queue) :
    Queue.dropOldFrom now timeout (again ++ new) again.length q =
      Queue.dropOldFrom now timeout new 0 q := by
  induction again with
  | nil => rfl
  | cons f again induction => exact induction

theorem dropOld (parts : Parts q again new) (now timeout : Nat) :
    ∃ new', Parts (q.dropOld now timeout) again new' := by
  rw [Queue.dropOld, parts.split, parts.count, dropOldFrom_append]
  induction new generalizing q with
  | nil => exact ⟨[], parts⟩
  | cons f rest induction =>
      rw [Queue.dropOldFrom]
      split_ifs
      · exact induction (parts.dropNew rfl)
      · exact ⟨f :: rest, parts⟩

/-! ## Frames that change -/

/-- The descriptor of one new frame is changed. -/
theorem modify (parts : Parts q again new) {f : Frame} (member : f ∈ new) (change : Frame → Frame) :
    ∃ before after, new = before ++ f :: after ∧
      (q.modify f.skb change).skList = again ++ (before ++ change f :: after) := by
  obtain ⟨before, after, rfl⟩ := List.append_of_mem member
  refine ⟨before, after, rfl, ?_⟩
  have distinct := parts.nodup_skb
  rw [← List.append_assoc, List.map_append, List.map_cons] at distinct
  obtain ⟨-, later, apart⟩ := List.nodup_append.mp distinct
  have same : ∀ frames : List Frame, (∀ g ∈ frames, g.skb ≠ f.skb) →
      frames.map (fun g => if g.skb = f.skb then change g else g) = frames := by
    intro frames others
    refine (List.map_congr_left fun g member => if_neg (others g member)).trans ?_
    exact List.map_id _
  change q.skList.map (fun g => if g.skb = f.skb then change g else g) = _
  rw [parts.split, ← List.append_assoc, List.map_append, List.map_cons, if_pos rfl,
    same (again ++ before), same after, List.append_assoc]
  · intro g member eq
    exact (List.nodup_cons.mp later).1 (eq ▸ List.mem_map_of_mem member)
  · intro g member
    exact apart _ (List.mem_map_of_mem member) _ List.mem_cons_self

/-- A new frame may become an A-MSDU, and one may grow. -/
theorem changed (parts : Parts q again new) {f : Frame} (member : f ∈ new) {change : Frame → Frame}
    {amsdu : Option Nat} {next : Nat} (mark : (change f).retry = f.retry)
    (later : q.next ≤ next) (fresh : ∀ skb ∈ (change f).skbs, skb ∈ f.skbs ∨ q.next ≤ skb)
    (building : ∀ skb, amsdu = some skb → (change f).skb = skb ∧ (change f).hdrs ≠ [])
    (buffers : ∀ frames, Buffers (f :: frames) q.next → Buffers (change f :: frames) next) :
    ∃ new', Parts { q.modify f.skb change with amsdu, next } again new' := by
  obtain ⟨before, after, rfl, split⟩ := parts.modify member change
  refine ⟨before ++ change f :: after, ?_⟩
  have front : ∀ g : Frame, (again ++ (before ++ g :: after) ++ q.flight).Perm
      (g :: (again ++ (before ++ after) ++ q.flight)) := by
    intro g
    refine ((List.perm_middle.append_left again).append_right q.flight).trans ?_
    exact List.perm_middle.append_right q.flight
  refine
    { split
      count := parts.count
      last := parts.last
      order := parts.order
      others := ?_
      marked := parts.marked
      plain := ?_
      amsdu := fun skb some => ⟨change f, List.mem_append_right _ List.mem_cons_self,
        building skb some⟩
      buffers := ?_
      past := fun skb member => Nat.lt_of_lt_of_le (parts.past skb member) later
      calm := parts.calm }
  · intro g here skb skbs returned
    obtain old | rfl | old := (List.mem_append.trans (or_congr Iff.rfl List.mem_cons)).mp here
    · exact parts.others g (List.mem_append_left _ old) skb skbs returned
    · obtain old | new := fresh skb skbs
      · exact parts.others f member skb old returned
      · exact Nat.not_lt_of_le new (parts.past skb returned)
    · exact parts.others g (List.mem_append_right _ (List.mem_cons_of_mem f old)) skb skbs returned
  · intro g here
    rw [List.append_assoc] at here
    obtain old | here := List.mem_append.mp here
    · exact parts.plain g (List.mem_append_left _ (List.mem_append_left _ old))
    · obtain rfl | here := List.mem_cons.mp here
      · exact mark.trans (parts.plain f (List.mem_append_left _ member))
      · refine parts.plain g ?_
        rw [List.append_assoc]
        exact List.mem_append_right _ (List.mem_cons_of_mem f here)
  · refine (buffers _ (parts.buffers.perm (front f).symm)).perm (front (change f))

/-- A frame takes one more buffer. -/
theorem added (parts : Parts q again new) {f : Frame} (member : f ∈ new) {change : Frame → Frame}
    {amsdu : Option Nat} (mark : (change f).retry = f.retry)
    (more : (change f).skbs.Subperm (q.next :: f.skbs))
    (building : ∀ skb, amsdu = some skb → (change f).skb = skb ∧ (change f).hdrs ≠ []) :
    ∃ new', Parts { q.modify f.skb change with amsdu, next := q.next + 1 } again new' := by
  refine parts.changed member mark (Nat.le_succ _) ?_ building ?_
  · intro skb skbs
    obtain rfl | old := List.mem_cons.mp (more.subset skbs)
    · exact Or.inr (Nat.le_refl _)
    · exact Or.inl old
  · intro frames buffers
    refine buffers.grow ?_
    rw [List.flatMap_cons, List.flatMap_cons, ← List.cons_append]
    exact (List.subperm_append_right _).mpr more

theorem addSubframe (parts : Parts q again new) (a : Arrival) (maxnb : Nat) (room : Bool) :
    ∃ new', Parts (q.addSubframe a maxnb room) again new' := by
  rw [Queue.addSubframe]
  by_cases unused : q.data = false ∨ q.amsduLen = 0 ∨ maxnb < 2
  · exact ⟨new, (if_pos unused).symm ▸ parts⟩
  rw [if_neg unused]
  have data : q.data = true := by
    rw [← Bool.not_eq_false]
    exact fun management => unused (Or.inl management)
  cases building : q.amsdu with
  | some skb =>
      obtain ⟨g, member, rfl, -⟩ := parts.amsdu skb building
      simp only
      cases found : q.skList.find? fun f => decide (f.skb = g.skb) with
      | none => exact ⟨new, parts⟩
      | some f =>
          simp only
          split
          · exact ⟨new, { parts with amsdu := fun skb some => (by cases some) }⟩
          · refine parts.added member rfl ?_ fun skb some => ?_
            · have perm := List.perm_append_singleton q.next g.skbs
              rw [Frame.skbs, Frame.add, List.map_append]
              exact perm.subperm
            · split_ifs at some
              exact ⟨Option.some.inj some, List.append_ne_nil_of_right_ne_nil _
                (List.cons_ne_nil _ _)⟩
  | none =>
      simp only
      cases back : q.skList.getLast? with
      | none => exact ⟨new, parts⟩
      | some f =>
          simp only
          split
          · exact ⟨new, parts⟩
          rename_i fit
          have member : f ∈ new := by
            have queued := List.mem_of_getLast? back
            rw [parts.split] at queued
            obtain early | here := List.mem_append.mp queued
            · have marked := (parts.marked f early).trans data
              exact absurd (Or.inr (Or.inl marked)) fit
            · exact here
          have fewer : [f.skb].Sublist f.skbs :=
              (List.nil_sublist (f.hdrs.map Subframe.skb)).cons_cons _
          split
          · have same : { q.modify f.skb Frame.start with amsdu := none, next := q.next } =
                q.modify f.skb Frame.start := by
              rw [← building]
              rfl
            rw [← same]
            refine parts.changed member rfl (Nat.le_refl _) (fun skb skbs => ?_) ?_ ?_
            · exact Or.inl (fewer.subset skbs)
            · exact fun skb some => (by cases some)
            · exact fun frames buffers =>
                buffers.of_subperm (fewer.append (List.Sublist.refl _)).subperm
          · refine parts.added member rfl ?_ fun skb some => ?_
            · have swap : [f.skb, q.next].Subperm [q.next, f.skb] := (List.Perm.swap _ _ _).subperm
              exact swap.trans (fewer.cons_cons q.next).subperm
            · split_ifs at some
              exact ⟨Option.some.inj some, List.cons_ne_nil _ _⟩

theorem dismantle (parts : Parts q again new) (amsduLen : Nat) (alloc : Nat → Bool) :
    ∃ new', Parts (q.dismantle amsduLen alloc) again new' := by
  rw [Queue.dismantle, parts.halves]
  simp only
  let pieces : Frame → List Frame := fun f =>
    if f.hdrs ≠ [] ∧ amsduLen < f.amsduLen then f.dismantle alloc else [f]
  have same : ∀ f, ((pieces f).flatMap Frame.skbs).Sublist f.skbs := by
    intro f
    by_cases long : f.hdrs ≠ [] ∧ amsduLen < f.amsduLen
    · have eq : (f.dismantle alloc).flatMap Frame.skbs =
          f.skb :: (f.hdrs.filter fun sub => alloc sub.skb).map Subframe.skb := by
        rw [Frame.dismantle, List.flatMap_cons, List.flatMap_map]
        exact congrArg (f.skb :: ·) List.map_eq_flatMap.symm
      have chosen : pieces f = f.dismantle alloc := if_pos long
      rw [chosen, eq]
      exact (List.filter_sublist.map _).cons_cons _
    · have chosen : pieces f = [f] := if_neg long
      rw [chosen, List.flatMap_singleton]
  have mark : ∀ f, ∀ g ∈ pieces f, g.retry = f.retry := by
    intro f g member
    by_cases long : f.hdrs ≠ [] ∧ amsduLen < f.amsduLen
    · have chosen : pieces f = f.dismantle alloc := if_pos long
      rw [chosen, Frame.dismantle] at member
      obtain rfl | member := List.mem_cons.mp member
      · rfl
      · obtain ⟨sub, -, rfl⟩ := List.mem_map.mp member
        rfl
    · have chosen : pieces f = [f] := if_neg long
      rw [chosen] at member
      rw [List.mem_singleton.mp member]
  refine ⟨new.flatMap pieces, ?_⟩
  refine
    { split := rfl
      count := parts.count
      last := parts.last
      order := parts.order
      others := ?_
      marked := parts.marked
      plain := ?_
      amsdu := ?_
      buffers := ?_
      past := parts.past
      calm := parts.calm }
  · intro g member skb skbs
    obtain ⟨f, here, piece⟩ := List.mem_flatMap.mp member
    exact parts.others f here skb ((same f).subset (List.mem_flatMap.mpr ⟨g, piece, skbs⟩))
  · intro g member
    obtain queued | flying := List.mem_append.mp member
    · obtain ⟨f, here, piece⟩ := List.mem_flatMap.mp queued
      exact (mark f g piece).trans (parts.plain f (List.mem_append_left _ here))
    · exact parts.plain g (List.mem_append_right _ flying)
  · intro skb some
    split_ifs at some with there
    obtain ⟨f, member, rfl, -⟩ := parts.amsdu skb some
    exact absurd ⟨f, member, some⟩ there
  · refine parts.buffers.of_subperm (List.Sublist.subperm ?_)
    rw [List.append_assoc, List.append_assoc, List.flatMap_append, List.flatMap_append,
      List.flatMap_append, List.flatMap_append, List.flatMap_assoc]
    refine (List.Sublist.refl _).append (List.Sublist.append ?_ (List.Sublist.refl _))
    exact List.Sublist.flatMap_right _ fun f _ => same f

/-- The frames queued are forgotten. -/
theorem reset (parts : Parts q again new) : Parts q.reset [] [] where
  split := rfl
  count := rfl
  last := rfl
  order := List.nil_suffix
  others := fun _ member => (by cases member)
  marked := fun _ member => (by cases member)
  plain := fun f member => parts.plain f (List.mem_append_right _ member)
  amsdu := fun _ some => (by cases some)
  buffers := parts.buffers.sublist (List.sublist_append_right _ _)
  past := parts.past
  calm := parts.calm

/-! ## Runs -/

theorem step (parts : Parts q again new) (op : Queue.Op) :
    ∃ again' new', Parts (q.step op) again' new' := by
  cases op with
  | queue a => exact ⟨again, parts.queueNew a⟩
  | subframe a maxnb room => exact ⟨again, parts.addSubframe a maxnb room⟩
  | push hwQueue fates => exact parts.push hwQueue fates
  | confirm i => exact ⟨again, new, parts.confirm i⟩
  | retry i =>
      obtain ⟨again', parts'⟩ := parts.retry i
      exact ⟨again', new, parts'⟩
  | dropRetries => exact parts.dropRetries
  | flush => exact parts.flush
  | dropOld now timeout => exact ⟨again, parts.dropOld now timeout⟩
  | dismantle amsduLen alloc =>
      obtain ⟨new', parts'⟩ := parts.dismantle amsduLen alloc
      exact ⟨again, new', { parts' with }⟩
  | setAmsduLen amsduLen => exact ⟨again, new, { parts with }⟩
  | reset => exact ⟨[], [], parts.reset⟩

theorem foldl (parts : Parts q again new) (ops : List Queue.Op) :
    ∃ again' new', Parts (ops.foldl Queue.step q) again' new' := by
  induction ops generalizing q again new with
  | nil => exact ⟨again, new, parts⟩
  | cons op ops induction =>
      obtain ⟨again', new', parts'⟩ := parts.step op
      exact induction parts'

end Parts

end AmlW2.Tx
