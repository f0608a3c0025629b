import AmlW2.Reorder.Invariant

/-!
# What an enqueued MPDU does to a coherent session

The window is first moved so that the number of the MPDU lies in it.  The MPDU is then dropped,
takes the place of a buffered duplicate, is buffered in an empty slot, or is handed up with the
frames that follow it.
-/

namespace AmlW2.Reorder

variable {α : Type*}

/-- Two contexts whose windows, delivery lists and sizes agree. -/
structure SameWindow (c d : Ctx α) : Prop extends SameFrame c.reo d.reo where
  held : d.reo.held = c.reo.held
  inBuffer : d.reo.stats.inBuffer = c.reo.stats.inBuffer
  frames : d.frames = c.frames

theorem SameWindow.coherent {c d : Ctx α} (same : SameWindow c d) (coherent : Coherent c.reo) :
    Coherent d.reo :=
  coherent.of_held same.bufSize same.winSize same.ssn same.lsn same.held same.onAgingList
    same.inBuffer

/-- The context `d` is `c` with `skb` in the slot at distance `n`. -/
structure Stored (c : Ctx α) (n : Nat) (skb : Mpdu α) (d : Ctx α) : Prop where
  bufSize : d.reo.bufSize = c.reo.bufSize
  winSize : d.reo.winSize = c.reo.winSize
  ssn : d.reo.ssn = c.reo.ssn
  reset : d.reo.reset = c.reo.reset
  pnState : d.reo.pnState = c.reo.pnState
  held : ∀ o, d.reo.held o = if o = n then some skb else c.reo.held o
  frames : d.frames = c.frames

/-- How an MPDU inside the window of `c` is disposed of. -/
inductive Disposed (c : Ctx α) (skb : Mpdu α) (d : Ctx α) : Prop
  /-- It is dropped: a duplicate, or an in-order frame that fails the packet-number check. -/
  | rejected (same : SameWindow c d) (freed : d.freed = c.freed ++ [skb])
  /-- It replaces a buffered duplicate. -/
  | replaced (n : Nat) (skb0 : Mpdu α) (sn : skb.sn.val = snAdd c.reo.ssn n)
      (occupied : c.reo.held n = some skb0) (stored : Stored c n skb d)
      (lsn : d.reo.lsn = c.reo.lsn) (aging : d.reo.onAgingList = c.reo.onAgingList)
      (inBuffer : d.reo.stats.inBuffer = c.reo.stats.inBuffer)
      (freed : d.freed = c.freed ++ [skb0])
  /-- It is buffered. -/
  | buffered (n : Nat) (n_pos : 0 < n) (n_lt : n < c.reo.bufSize)
      (sn : skb.sn.val = snAdd c.reo.ssn n) (empty : c.reo.held n = none)
      (stored : Stored c n skb d)
      (lsn : d.reo.lsn = if snLess c.reo.lsn skb.sn then skb.sn.val else c.reo.lsn)
      (aging : d.reo.onAgingList =
        (decide (c.reo.stats.inBuffer + 1 = 1) || c.reo.onAgingList))
      (inBuffer : d.reo.stats.inBuffer = c.reo.stats.inBuffer + 1)
      (freed : d.freed = c.freed)
  /-- It is handed up, and so are the frames that follow it. -/
  | delivered (m : Ctx α) (sn : skb.sn.val = c.reo.ssn)
      (accepted : (pnStep c.reo.pnState skb).2 = true)
      (dequeued : Dequeued c skb (m, true))
      (shifted : d = amlReoShiftTo (m.startAt (snInc skb.sn)) (snInc skb.sn))

theorem snAdd_lt (a b : Nat) : snAdd a b < 4096 := Nat.mod_lt _ (by omega)

/-- The slot of a number in the window holds what the window holds at its distance. -/
theorem skb_eq_held {reo : Session α} {sn : Nat} (sn_lt : sn < 4096)
    (inside : snSub sn reo.ssn < reo.winSize) :
    (reo.buf (amlReoEntryIndex reo sn)).skb = reo.held (snSub sn reo.ssn) := by
  rw [Session.held, if_pos inside, snAdd_snSub sn_lt]

/-- One case for each way an MPDU in the window is disposed of. -/
theorem placeInWindow_disposed (now : Jiffies) {c : Ctx α} (coherent : Coherent c.reo)
    (skb : Mpdu α) (inside : snSub skb.sn c.reo.ssn < c.reo.bufSize) :
    Disposed c skb (placeInWindow now c skb) := by
  have sn_lt := skb.sn.isLt
  have in_window := inside.trans_le coherent.buf_le_win
  have sn : skb.sn.val = snAdd c.reo.ssn (snSub skb.sn c.reo.ssn) := (snAdd_snSub sn_lt).symm
  have content := skb_eq_held sn_lt in_window
  have store : ∀ (entry : Entry α) (d : Session α), d.winSize = c.reo.winSize →
      d.ssn = c.reo.ssn →
      d.buf = Function.update c.reo.buf (amlReoEntryIndex c.reo skb.sn) entry →
      ∀ o, d.held o = if o = snSub skb.sn c.reo.ssn then entry.skb else c.reo.held o := by
    intro entry d win ssn buf
    rw [sn] at buf
    exact held_update coherent.toShape in_window entry d win ssn buf
  simp only [placeInWindow]
  cases held : c.reo.held (snSub skb.sn c.reo.ssn) with
  | some skb0 =>
      rw [held] at content
      simp only [content]
      split
      · refine .replaced _ skb0 sn held ⟨rfl, rfl, rfl, rfl, rfl, ?_, rfl⟩ rfl rfl rfl rfl
        exact store ⟨some skb, now + c.reo.timeoutTicks⟩ _ rfl rfl rfl
      · exact .rejected ⟨⟨rfl, rfl, rfl, rfl, rfl, rfl, rfl, rfl⟩, rfl, rfl, rfl⟩ rfl
  | none =>
      rw [held] at content
      simp only [content]
      split
      · rename_i in_order
        have dequeued := amlReoDequeue_dequeued c skb (amlReoEntryIndex c.reo skb.sn)
        split
        · rename_i m popped
          rw [popped] at dequeued
          exact .delivered m in_order dequeued.passed.symm dequeued rfl
        · rename_i m failed
          rw [failed] at dequeued
          have verdict := dequeued.passed
          exact .rejected
            ⟨dequeued.toSameFrame, held_congr dequeued.winSize dequeued.ssn dequeued.buf,
              dequeued.inBuffer, by
                rw [dequeued.frames]
                simp [Filter.passed, ← verdict]⟩
            (by
              rw [dequeued.freed]
              simp [Filter.stopped, ← verdict])
      · rename_i out_of_order
        have n_pos : 0 < snSub skb.sn c.reo.ssn := by
          by_contra zero
          rw [show snSub skb.sn c.reo.ssn = 0 by omega, snAdd, Nat.add_zero,
            Nat.mod_eq_of_lt coherent.ssn_lt] at sn
          exact out_of_order sn
        have stored : ∀ d : Ctx α, d.reo.winSize = c.reo.winSize → d.reo.ssn = c.reo.ssn →
            d.reo.buf = Function.update c.reo.buf (amlReoEntryIndex c.reo skb.sn)
              ⟨some skb, now + c.reo.timeoutTicks⟩ →
            ∀ o, d.reo.held o =
              if o = snSub skb.sn c.reo.ssn then some skb else c.reo.held o :=
          fun d => store ⟨some skb, now + c.reo.timeoutTicks⟩ d.reo
        by_cases first : c.reo.stats.inBuffer + 1 = 1
        · simp only [amlReoEntrySkbSet, amlReoSessionAddToAgingList, first, if_true]
          exact .buffered _ n_pos inside sn held
            ⟨rfl, rfl, rfl, rfl, rfl, stored _ rfl rfl rfl, rfl⟩ rfl
            (by simp [first]) first.symm rfl
        · simp only [amlReoEntrySkbSet, first, if_false]
          exact .buffered _ n_pos inside sn held
            ⟨rfl, rfl, rfl, rfl, rfl, stored _ rfl rfl rfl, rfl⟩ rfl
            (by simp [first]) rfl rfl

/-- The held frames around the slot at distance `n`, before and after a frame is put there. -/
theorem below_split {a b : Session α} {n : Nat} {skb : Mpdu α} (win : b.winSize = a.winSize)
    (n_lt : n < a.winSize) (held : ∀ o, b.held o = if o = n then some skb else a.held o) :
    ∃ front back, a.below a.winSize = front ++ (a.held n).toList ++ back ∧
      b.below b.winSize = front ++ skb :: back := by
  obtain ⟨m, size⟩ := Nat.exists_eq_add_of_lt n_lt
  refine ⟨a.below n, (List.range m).filterMap fun i => a.held (n + 1 + i), ?_, ?_⟩
  · rw [show a.winSize = n + 1 + m by omega, Session.below_add, Session.below_succ]
  · have front : b.below n = a.below n :=
      below_congr fun o o_lt => by rw [held, if_neg (by omega)]
    have here : b.held n = some skb := by rw [held, if_pos rfl]
    have back : (List.range m).filterMap (fun i => b.held (n + 1 + i)) =
        (List.range m).filterMap fun i => a.held (n + 1 + i) :=
      List.filterMap_congr fun i _ => by rw [held, if_neg (by omega)]
    rw [win, show a.winSize = n + 1 + m by omega, Session.below_add, Session.below_succ, front,
      here, back, Option.toList_some, List.append_assoc, List.singleton_append]

/-- Stepping over an empty window start. -/
theorem held_advance {reo after : Session α} (coherent : Coherent reo)
    (win : after.winSize = reo.winSize) (buf : after.buf = reo.buf)
    (ssn : after.ssn = snInc reo.ssn) (o : Nat) : after.held o = reo.held (o + 1) := by
  rw [held_moved coherent.toShape win buf ssn]
  by_cases inside : o < reo.winSize
  · rw [if_pos inside, Nat.add_comm]
    rcases Nat.lt_or_eq_of_le (Nat.succ_le_of_lt inside) with inner | border
    · rw [Nat.mod_eq_of_lt inner]
    · rw [show o + 1 = reo.winSize from border, Nat.mod_self, coherent.held_zero,
        Session.held_outside (Nat.le_refl _)]
  · rw [if_neg inside, Session.held_outside (by omega)]

theorem below_advance {reo after : Session α} (coherent : Coherent reo)
    (win : after.winSize = reo.winSize) (buf : after.buf = reo.buf)
    (ssn : after.ssn = snInc reo.ssn) : after.below after.winSize = reo.below reo.winSize := by
  have first : reo.below 1 = [] := by
    simp [Session.below, List.range_one, coherent.held_zero]
  have shifted : reo.below (1 + reo.winSize) = after.below reo.winSize := by
    rw [Session.below_add, first, List.nil_append]
    exact List.filterMap_congr fun o _ => by rw [held_advance coherent win buf ssn, Nat.add_comm]
  rw [win, ← shifted, reo.below_stable (n := 1 + reo.winSize) (by omega)]

/-- The session that a frame in order leaves to the shift which hands up the frames after it. -/
theorem Coherent.shiftable_advance {reo after : Session α} (coherent : Coherent reo)
    (bufSize : after.bufSize = reo.bufSize) (win : after.winSize = reo.winSize)
    (buf : after.buf = reo.buf) (ssn : after.ssn = snInc reo.ssn) (lsn : after.lsn = reo.lsn)
    (aging : after.onAgingList = reo.onAgingList)
    (inBuffer : after.stats.inBuffer = reo.stats.inBuffer) : Shiftable after 0 := by
  have held := held_advance coherent win buf ssn
  have ssn_lt := coherent.ssn_lt
  have moved : ∀ o, snAdd reo.ssn (o + 1) = snAdd after.ssn o := by
    intro o
    rw [ssn, snInc]
    simp only [snAdd]
    omega
  refine { win := ?win, buf_pos := ?buf_pos, buf_le_win := ?buf_le_win, buf_le := ?buf_le,
           ssn_lt := ?ssn_lt, lsn_lt := ?lsn_lt, placed := ?placed, last := ?last,
           aging := ?aging, count := ?count }
  case win => exact win ▸ coherent.win
  case buf_pos => exact bufSize ▸ coherent.buf_pos
  case buf_le_win => exact bufSize ▸ win ▸ coherent.buf_le_win
  case buf_le => exact bufSize ▸ coherent.buf_le
  case ssn_lt =>
    rw [ssn]
    exact snAdd_lt _ _
  case lsn_lt => exact lsn ▸ coherent.lsn_lt
  case placed =>
    intro o skb at_o
    rw [held] at at_o
    obtain ⟨sn, _, le⟩ := coherent.placed _ skb at_o
    have := coherent.span
    exact ⟨by rw [sn, moved], by omega⟩
  case last =>
    by_cases same : reo.lsn = reo.ssn
    · left
      refine ⟨fun o => ?_, Or.inr ⟨by rw [lsn, ssn, same], rfl⟩⟩
      rw [held, coherent.held_eq_none same]
    · obtain ⟨skb, last⟩ := coherent.last same
      have span_pos := (coherent.placed _ skb last).2.1
      obtain ⟨l, span⟩ := Nat.exists_eq_succ_of_ne_zero (Nat.ne_of_gt span_pos)
      refine Or.inr ⟨l, skb, ?_, ?_, ?_⟩
      · rw [lsn, coherent.lsn_eq, span, moved]
      · rw [held, ← Nat.succ_eq_add_one, ← span, last]
      · intro o skb' at_o
        rw [held] at at_o
        have := (coherent.placed _ skb' at_o).2.2
        omega
  case aging =>
    intro o skb at_o
    rw [held] at at_o
    rw [aging]
    exact (coherent.shiftable 0).aging _ skb at_o
  case count => rw [inBuffer, coherent.count, below_advance coherent win buf ssn]

/-- Putting a frame in a slot after the window start, at most one past which the last number is
moved. -/
theorem Stored.coherent {c d : Ctx α} {n : Nat} {skb : Mpdu α} (coherent : Coherent c.reo)
    (n_pos : 0 < n) (n_lt : n < c.reo.bufSize) (sn : skb.sn.val = snAdd c.reo.ssn n)
    (stored : Stored c n skb d)
    (span : snSub d.reo.lsn d.reo.ssn = max n (snSub c.reo.lsn c.reo.ssn))
    (lsn_lt : d.reo.lsn < 4096) (aging : d.reo.onAgingList = true)
    (inBuffer : d.reo.stats.inBuffer = (d.reo.below d.reo.winSize).length) : Coherent d.reo := by
  have c_span := coherent.span
  refine { win := ?win, buf_pos := ?buf_pos, buf_le_win := ?buf_le_win, buf_le := ?buf_le,
           ssn_lt := ?ssn_lt, lsn_lt, placed := ?placed, span := ?span, last := ?last,
           aging := ?aging, count := inBuffer }
  case win => exact stored.winSize ▸ coherent.win
  case buf_pos => exact stored.bufSize ▸ coherent.buf_pos
  case buf_le_win => exact stored.bufSize ▸ stored.winSize ▸ coherent.buf_le_win
  case buf_le => exact stored.bufSize ▸ coherent.buf_le
  case ssn_lt => exact stored.ssn ▸ coherent.ssn_lt
  case placed =>
    intro o skb' at_o
    rw [stored.held] at at_o
    split at at_o
    · rename_i here
      cases at_o
      exact ⟨by rw [stored.ssn, here, sn], by omega, by omega⟩
    · obtain ⟨sn', o_pos, le⟩ := coherent.placed o skb' at_o
      exact ⟨by rw [stored.ssn, sn'], o_pos, by omega⟩
  case span =>
    rw [span, stored.bufSize]
    omega
  case last =>
    intro _
    rw [span, stored.held]
    rcases Nat.le_total (snSub c.reo.lsn c.reo.ssn) n with le | le
    · exact ⟨skb, by rw [Nat.max_eq_left le, if_pos rfl]⟩
    · rw [Nat.max_eq_right le]
      split
      · exact ⟨skb, rfl⟩
      · apply coherent.last
        intro same
        rw [same, snSub] at le
        have := coherent.ssn_lt
        omega
  case aging =>
    rw [aging, eq_comm, amlReoHasBuffer_iff]
    intro same
    rw [same, snSub] at span
    have : d.reo.ssn < 4096 := stored.ssn ▸ coherent.ssn_lt
    omega

theorem Coherent.held_delivered {c m : Ctx α} {skb : Mpdu α} (coherent : Coherent c.reo)
    (sn : skb.sn.val = c.reo.ssn) (dequeued : Dequeued c skb (m, true)) (o : Nat) :
    (m.startAt (snInc skb.sn)).reo.held o = c.reo.held (o + 1) := by
  have win : (m.startAt (snInc skb.sn)).reo.winSize = c.reo.winSize := dequeued.winSize
  exact held_advance coherent win dequeued.buf (congrArg snInc sn) o

theorem Coherent.below_delivered {c m : Ctx α} {skb : Mpdu α} (coherent : Coherent c.reo)
    (sn : skb.sn.val = c.reo.ssn) (dequeued : Dequeued c skb (m, true)) :
    (m.startAt (snInc skb.sn)).reo.below (m.startAt (snInc skb.sn)).reo.winSize =
      c.reo.below c.reo.winSize := by
  have win : (m.startAt (snInc skb.sn)).reo.winSize = c.reo.winSize := dequeued.winSize
  exact below_advance coherent win dequeued.buf (congrArg snInc sn)

theorem Dequeued.frames_delivered {c m : Ctx α} {skb : Mpdu α}
    (dequeued : Dequeued c skb (m, true)) :
    m.frames = c.frames ++ [skb] ∧ m.freed = c.freed := by
  have accepted : (pnStep c.reo.pnState skb).2 = true := dequeued.passed.symm
  have frames := dequeued.frames
  have freed := dequeued.freed
  simp only [Filter.passed, Filter.stopped, accepted, if_true, List.append_nil] at frames freed
  exact ⟨frames, freed⟩

theorem Coherent.shiftable_delivered {c m : Ctx α} {skb : Mpdu α} (coherent : Coherent c.reo)
    (sn : skb.sn.val = c.reo.ssn) (dequeued : Dequeued c skb (m, true)) :
    Shiftable (m.startAt (snInc skb.sn)).reo 0 :=
  coherent.shiftable_advance dequeued.bufSize dequeued.winSize dequeued.buf
    (congrArg snInc sn) dequeued.lsn dequeued.onAgingList dequeued.inBuffer

/-- The shift that follows a frame handed up in order. -/
theorem Coherent.delivered_shifted {c m : Ctx α} {skb : Mpdu α} (coherent : Coherent c.reo)
    (sn : skb.sn.val = c.reo.ssn) (dequeued : Dequeued c skb (m, true)) :
    ∃ e, StopsAt (m.startAt (snInc skb.sn)).reo 0 e ∧
      Shifted (m.startAt (snInc skb.sn)) e
        (amlReoShiftTo (m.startAt (snInc skb.sn)) (snInc skb.sn)) ∧
      Coherent (amlReoShiftTo (m.startAt (snInc skb.sn)) (snInc skb.sn)).reo := by
  have result := amlReoShiftTo_coherent (coherent.shiftable_delivered sn dequeued) (by omega)
  have start : snAdd (snInc skb.sn) 0 = snInc skb.sn := by
    simp only [snInc, snAdd]
    omega
  rwa [show (m.startAt (snInc skb.sn)).reo.ssn = snInc skb.sn from rfl, start] at result

/-- Disposing of an MPDU in the window keeps the session coherent. -/
theorem Disposed.coherent {c d : Ctx α} {skb : Mpdu α} (coherent : Coherent c.reo)
    (disposed : Disposed c skb d) : Coherent d.reo := by
  have c_span := coherent.span
  have buf_le := coherent.buf_le
  have ssn_lt := coherent.ssn_lt
  have lsn_lt := coherent.lsn_lt
  have sn_lt := skb.sn.isLt
  cases disposed with
  | rejected same _ => exact same.coherent coherent
  | replaced n skb0 sn occupied stored lsn aging inBuffer _ =>
      obtain ⟨_, n_pos, n_le⟩ := coherent.placed n skb0 occupied
      apply stored.coherent coherent n_pos (by omega) sn
      · rw [lsn, stored.ssn]
        omega
      · exact lsn ▸ lsn_lt
      · rw [aging]
        exact (coherent.shiftable 0).aging n skb0 occupied
      · obtain ⟨front, back, before, after⟩ := below_split stored.winSize
          (Session.lt_winSize_of_held occupied) stored.held
        rw [inBuffer, coherent.count, before, after, occupied]
        simp
  | buffered n n_pos n_lt sn empty stored lsn aging inBuffer _ =>
      have win_le := coherent.buf_le_win
      apply stored.coherent coherent n_pos n_lt sn
      · rw [lsn, stored.ssn]
        have position := coherent.lsn_eq
        by_cases behind : snLess c.reo.lsn skb.sn = true
        · rw [if_pos behind]
          simp only [snLess_iff, snSub, snAdd] at behind sn position c_span ⊢
          omega
        · rw [if_neg behind]
          simp only [snLess_iff, snSub, snAdd] at behind sn position c_span ⊢
          omega
      · rw [lsn]
        split <;> assumption
      · rw [aging]
        by_cases first : c.reo.stats.inBuffer + 1 = 1
        · simp [first]
        · -- something is buffered already, so the session is on the list
          rw [decide_eq_false first, Bool.false_or, coherent.aging, amlReoHasBuffer_iff]
          intro same
          apply first
          rw [coherent.count, Session.below_eq_nil (coherent.held_eq_none same)]
          rfl
      · obtain ⟨front, back, before, after⟩ := below_split stored.winSize (by omega) stored.held
        rw [inBuffer, coherent.count, before, after, empty]
        simp
        ring
  | delivered m sn accepted dequeued shifted =>
      obtain ⟨_, _, _, result⟩ := coherent.delivered_shifted sn dequeued
      exact shifted ▸ result

end AmlW2.Reorder
