import AmlW2.Reorder.Enqueue

/-!
# Operations on a coherent session

What each entry point of the reorder code does to a coherent session: reception, block-ack
requests, aging, reset and release.
-/

namespace AmlW2.Reorder

variable {α : Type*}

/-! ## Reception -/

theorem SameWindow.shifted {c c' m : Ctx α} {e : Nat} (same : SameWindow c c')
    (pnState : c'.reo.pnState = c.reo.pnState) (deadline : c'.reo.buf = c.reo.buf)
    (freed : c'.freed = c.freed) (shifted : Shifted c' e m) : Shifted c e m where
  ssn := same.ssn ▸ shifted.ssn
  lsn := same.ssn ▸ same.lsn ▸ shifted.lsn
  bufSize := same.bufSize ▸ shifted.bufSize
  winSize := same.winSize ▸ shifted.winSize
  timeoutTicks := same.timeoutTicks ▸ shifted.timeoutTicks
  reset := same.reset ▸ shifted.reset
  lastAging := same.lastAging ▸ shifted.lastAging
  onAgingList := same.onAgingList ▸ shifted.onAgingList
  held := same.held ▸ same.winSize ▸ shifted.held
  deadline := deadline ▸ shifted.deadline
  pnState := by
    rw [shifted.pnState, pnState, Session.below, Session.below, same.held]
  frames := by
    rw [shifted.frames, pnState, same.frames, Session.below, Session.below, same.held]
  freed := by
    rw [shifted.freed, pnState, freed, Session.below, Session.below, same.held]
  inBuffer := by
    rw [shifted.inBuffer, same.inBuffer, Session.below, Session.below, same.held]

theorem SameWindow.stopsAt {c c' : Ctx α} {t e : Nat} (same : SameWindow c c')
    (pnState : c'.reo.pnState = c.reo.pnState) (stops : StopsAt c'.reo t e) :
    StopsAt c.reo t e := by
  have passes : ∀ o, c'.reo.passes o = c.reo.passes o := by
    intro o
    rw [Session.passes, Session.passes, pnState, Session.below, Session.below, same.held]
  exact ⟨stops.le, fun o above below => by rw [← passes, stops.passes o above below],
    by rw [← passes, stops.stops]⟩

/-- The number exceeds the window exactly when it is at least the buffer size ahead. -/
theorem snLess_bufSize {reo : Session α} (shape : Shape reo) {sn : Nat}
    (ahead : snLess sn reo.ssn = false) :
    snLess sn (reo.ssn + reo.bufSize) = decide (snSub sn reo.ssn < reo.bufSize) := by
  have ssn_lt := shape.ssn_lt
  have buf_le := shape.buf_le
  have buf_pos := shape.buf_pos
  apply decide_eq_decide.mpr
  rw [← Bool.not_eq_true, snLess_iff] at ahead
  simp only [snSub] at ahead ⊢
  omega

/-- The window after it was moved for the number `sn`. -/
structure Roomy (c : Ctx α) (sn : Nat) (m : Ctx α) : Prop where
  coherent : Coherent m.reo
  inside : snSub sn m.reo.ssn < m.reo.bufSize
  moved : m = c ∨ ∃ t e, StopsAt c.reo t e ∧ e ≤ snSub sn c.reo.ssn ∧ Shifted c e m

theorem makeRoom_roomy {c : Ctx α} (coherent : Coherent c.reo) {sn : Nat}
    (ahead : snLess sn c.reo.ssn = false)
    (clear : ¬(c.reo.bufSize = 1 ∧ snSub sn c.reo.ssn = 2048)) :
    Roomy c sn (makeRoom c sn) := by
  rw [makeRoom, snLess_bufSize coherent.toShape ahead]
  by_cases inside : snSub sn c.reo.ssn < c.reo.bufSize
  · rw [decide_eq_true inside, Bool.not_true, if_neg Bool.false_ne_true]
    exact ⟨coherent, inside, Or.inl rfl⟩
  · rw [decide_eq_false inside, Bool.not_false, if_pos rfl]
    rw [← Bool.not_eq_true, snLess_iff] at ahead
    have buf_pos := coherent.buf_pos
    have buf_le := coherent.buf_le
    have ssn_lt := coherent.ssn_lt
    -- the target is the buffer size less one behind the number
    obtain ⟨t, distance⟩ : ∃ t, snSub sn c.reo.ssn = t + (c.reo.bufSize - 1) :=
      ⟨_, (Nat.sub_add_cancel (by omega)).symm⟩
    have target : snSub sn (c.reo.bufSize - 1) = snAdd c.reo.ssn t := by
      simp only [snSub, snAdd] at distance ⊢
      omega
    set counted : Ctx α := { c with
      reo := { c.reo with stats.outWin := c.reo.stats.outWin + 1 } } with counted_eq
    have same : SameWindow c counted :=
      ⟨⟨rfl, rfl, rfl, rfl, rfl, rfl, rfl, rfl⟩, rfl, rfl, rfl⟩
    have shiftable := (same.coherent coherent).shiftable t
    obtain ⟨e, stops, shifted, result⟩ := amlReoShiftTo_coherent shiftable (by omega)
    have e_le : e ≤ snSub sn c.reo.ssn := by
      rcases shiftable.stop_le stops with at_target | ⟨l, skb, _, held, e_le⟩
      · omega
      · have := (shiftable.placed l skb held).2
        have : counted.reo.bufSize = c.reo.bufSize := rfl
        omega
    rw [target]
    refine ⟨result, ?_, Or.inr ⟨t, e, same.stopsAt rfl stops, e_le,
      same.shifted rfl rfl rfl shifted⟩⟩
    have t_le := stops.le
    rw [shifted.ssn, shifted.bufSize]
    change snSub sn (snAdd c.reo.ssn e) < c.reo.bufSize
    simp only [snSub, snAdd] at distance e_le ⊢
    omega

/-- What `aml_reo_enqueue` does after the window was reset, if it was to be. -/
inductive Enqueued (c : Ctx α) (skb : Mpdu α) (d : Ctx α) : Prop
  | stale (behind : snLess skb.sn c.reo.ssn = true) (same : SameWindow c d)
      (freed : d.freed = c.freed ++ [skb])
  | inWindow (m : Ctx α) (ahead : snLess skb.sn c.reo.ssn = false) (roomy : Roomy c skb.sn m)
      (disposed : Disposed m skb d)

theorem enqueueInWindow_enqueued (now : Jiffies) {c : Ctx α} (coherent : Coherent c.reo)
    (skb : Mpdu α) (clear : ¬(c.reo.bufSize = 1 ∧ snSub skb.sn c.reo.ssn = 2048)) :
    Enqueued c skb (enqueueInWindow now c skb) := by
  rw [enqueueInWindow]
  split
  · rename_i behind
    refine .stale behind ⟨⟨rfl, rfl, rfl, rfl, rfl, rfl, rfl, rfl⟩, rfl, ?_, rfl⟩ rfl
    simp only [dropStale, Ctx.amlMpduFree]
    split <;> rfl
  · rename_i ahead
    rw [Bool.not_eq_true] at ahead
    have roomy := makeRoom_roomy coherent ahead clear
    exact .inWindow _ ahead roomy (placeInWindow_disposed now roomy.coherent skb roomy.inside)

theorem Enqueued.coherent {c d : Ctx α} {skb : Mpdu α} (coherent : Coherent c.reo)
    (enqueued : Enqueued c skb d) : Coherent d.reo := by
  cases enqueued with
  | stale _ same _ => exact same.coherent coherent
  | inWindow m _ roomy disposed => exact disposed.coherent roomy.coherent

/-! ## Window moves from outside -/

/-- A shift towards a number that is not ahead does nothing when nothing is buffered at the window
start. -/
theorem amlReoShiftTo_stay {c : Ctx α} (coherent : Coherent c.reo) {ssn : Nat}
    (behind : snLess c.reo.ssn ssn = false) : amlReoShiftTo c ssn = c := by
  have empty : (c.reo.buf (amlReoEntryIndex c.reo c.reo.ssn)).skb = none := by
    have zero := coherent.held_zero
    rw [Session.held, if_pos coherent.win_pos, snAdd, Nat.add_zero,
      Nat.mod_eq_of_lt coherent.ssn_lt] at zero
    exact zero
  obtain ⟨fuel, enough⟩ : ∃ fuel, shiftFuel c.reo = fuel + 1 :=
    ⟨shiftFuel c.reo - 1, by rw [shiftFuel]; omega⟩
  have lsn : snLess c.reo.lsn c.reo.ssn = false := by
    have span := coherent.span
    have buf_le := coherent.buf_le
    rw [← Bool.not_eq_true, snLess_iff]
    omega
  simp only [amlReoShiftTo, enough, shiftLoop, shiftPass, popSlot, empty, behind, Bool.not_false,
    if_true, shiftFinish, lsn, Bool.false_eq_true, if_false]
  have aging : (amlReoHasBuffer c.reo && c.reo.onAgingList) = c.reo.onAgingList := by
    rw [coherent.aging, Bool.and_self]
  change { c with reo := { c.reo with
    onAgingList := amlReoHasBuffer c.reo && c.reo.onAgingList } } = c
  rw [aging]

/-- The shift past the last number hands up or releases every buffered frame. -/
theorem amlReoShiftTo_flush {c : Ctx α} (windowed : Windowed c.reo) :
    Shifted c (snSub c.reo.lsn c.reo.ssn + 1) (amlReoShiftTo c (snInc c.reo.lsn)) := by
  have span := windowed.span
  have buf_le := windowed.buf_le
  have target : snInc c.reo.lsn = snAdd c.reo.ssn (snSub c.reo.lsn c.reo.ssn + 1) := by
    rw [windowed.lsn_eq, snInc_snAdd, ← windowed.lsn_eq]
  have beyond : ∀ o, snSub c.reo.lsn c.reo.ssn < o → c.reo.held o = none := by
    intro o later
    cases held : c.reo.held o with
    | none => rfl
    | some skb =>
        have := (windowed.placed o skb held).2.2
        omega
  obtain ⟨e, _, stops, shifted⟩ := amlReoShiftTo_shifted (t := snSub c.reo.lsn c.reo.ssn + 1)
    windowed.toShape (fun o skb held => by have := (windowed.placed o skb held).2.2; omega)
    (by omega)
  have e_eq : e = snSub c.reo.lsn c.reo.ssn + 1 := by
    by_contra different
    have t_le := stops.le
    obtain ⟨skb, held⟩ := Session.held_of_passes (stops.passes (e - 1) (by omega) (by omega))
    rw [beyond _ (by omega)] at held
    cases held
  subst e_eq
  rw [target]
  exact shifted

/-- What is left of a flushed session: nothing is buffered. -/
structure Flushed (reo : Session α) : Prop extends Shape reo where
  held : ∀ o, reo.held o = none
  lsn : reo.lsn = reo.ssn
  inBuffer : reo.stats.inBuffer = 0
  aging : reo.onAgingList = false

theorem Windowed.flushed_after {c m : Ctx α} (windowed : Windowed c.reo)
    (shifted : Shifted c (snSub c.reo.lsn c.reo.ssn + 1) m) : Flushed m.reo := by
  have span := windowed.span
  have buf_le := windowed.buf_le
  have lsn : m.reo.lsn = m.reo.ssn := by
    rw [shifted.lsn, shifted.ssn]
    split
    · rfl
    · rename_i behind
      have position := windowed.lsn_eq
      simp only [snLess_iff, snSub, snAdd] at behind position span ⊢
      omega
  have held : ∀ o, m.reo.held o = none := by
    intro o
    rw [shifted.held]
    split
    · rfl
    · cases at_o : c.reo.held (snSub c.reo.lsn c.reo.ssn + 1 + o) with
      | none => rfl
      | some skb =>
          have := (windowed.placed _ skb at_o).2.2
          omega
  refine { win := ?win, buf_pos := ?buf_pos, buf_le_win := ?buf_le_win, buf_le := ?buf_le,
           ssn_lt := ?ssn_lt, lsn_lt := ?lsn_lt, held, lsn, inBuffer := ?inBuffer,
           aging := ?aging }
  case win => exact shifted.winSize ▸ windowed.win
  case buf_pos => exact shifted.bufSize ▸ windowed.buf_pos
  case buf_le_win => exact shifted.bufSize ▸ shifted.winSize ▸ windowed.buf_le_win
  case buf_le => exact shifted.bufSize ▸ windowed.buf_le
  case ssn_lt => exact shifted.ssn ▸ snAdd_lt _ _
  case lsn_lt => exact lsn ▸ shifted.ssn ▸ snAdd_lt _ _
  case inBuffer =>
    have split := congrArg List.length (below_after shifted windowed.win_pos)
    rw [List.length_append, c.reo.below_stable (by omega), Session.below_eq_nil held] at split
    rw [shifted.inBuffer, windowed.count, split, List.length_nil, Nat.add_zero, sub_self]
  case aging => rw [shifted.onAgingList, amlReoHasBuffer, lsn]; simp

theorem Coherent.flushed {reo : Session α} (coherent : Coherent reo) (empty : reo.lsn = reo.ssn) :
    Flushed reo where
  toShape := coherent.toShape
  held := coherent.held_eq_none empty
  lsn := empty
  inBuffer := by
    rw [coherent.count, Session.below_eq_nil (coherent.held_eq_none empty)]
    rfl
  aging := by rw [coherent.aging, amlReoHasBuffer, empty]; simp

/-- An empty window is empty wherever it starts. -/
theorem Flushed.held_eq_none {reo : Session α} (flushed : Flushed reo) (after : Session α)
    (win : after.winSize = reo.winSize) (buf : after.buf = reo.buf) (ssn_lt : after.ssn < 4096)
    (o : Nat) : after.held o = none := by
  rw [held_moved flushed.toShape win buf (snAdd_snSub ssn_lt).symm, flushed.held, ite_self]

/-- An empty window may be moved anywhere. -/
theorem Flushed.coherent {reo after : Session α} (flushed : Flushed reo)
    (bufSize : after.bufSize = reo.bufSize) (win : after.winSize = reo.winSize)
    (buf : after.buf = reo.buf) (ssn_lt : after.ssn < 4096) (lsn : after.lsn = after.ssn)
    (aging : after.onAgingList = reo.onAgingList)
    (inBuffer : after.stats.inBuffer = reo.stats.inBuffer) : Coherent after := by
  have held := flushed.held_eq_none after win buf ssn_lt
  have span : snSub after.lsn after.ssn = 0 := by
    rw [lsn, snSub]
    omega
  refine { win := ?win, buf_pos := ?buf_pos, buf_le_win := ?buf_le_win, buf_le := ?buf_le,
           ssn_lt, lsn_lt := lsn ▸ ssn_lt, placed := ?placed, span := ?span, last := ?last,
           aging := ?aging, count := ?count }
  case win => exact win ▸ flushed.win
  case buf_pos => exact bufSize ▸ flushed.buf_pos
  case buf_le_win => exact bufSize ▸ win ▸ flushed.buf_le_win
  case buf_le => exact bufSize ▸ flushed.buf_le
  case placed =>
    intro o skb at_o
    rw [held] at at_o
    cases at_o
  case span => rw [span, bufSize]; exact flushed.buf_pos
  case last => exact fun different => absurd lsn different
  case aging => rw [aging, flushed.aging, amlReoHasBuffer, lsn]; simp
  case count => rw [inBuffer, flushed.inBuffer, Session.below_eq_nil held]; rfl

/-- What `aml_reo_forward_to` does: nothing, moves an empty window, or flushes and moves it. -/
inductive Forwarded (c : Ctx α) (ssn : Nat) (d : Ctx α) : Prop
  | here (same : ssn = c.reo.ssn) (unchanged : d = c)
  | moved (empty : c.reo.lsn = c.reo.ssn) (other : ssn ≠ c.reo.ssn)
      (reset : d = { c with reo := amlReoResetSsn c.reo ssn })
  | stale (buffered : c.reo.lsn ≠ c.reo.ssn) (behind : snLess c.reo.ssn ssn = false)
      (behind_last : snLess c.reo.lsn ssn = false) (unchanged : d = c)
  | flushed (m : Ctx α) (buffered : c.reo.lsn ≠ c.reo.ssn)
      (ahead : snLess c.reo.ssn ssn = true ∨ snLess c.reo.lsn ssn = true)
      (shifted : Shifted c (snSub c.reo.lsn c.reo.ssn + 1) m)
      (reset : d = { m with reo := amlReoResetSsn m.reo ssn })

theorem amlReoForwardTo_forwarded {c : Ctx α} (coherent : Coherent c.reo) (ssn : Nat) :
    Forwarded c ssn (amlReoForwardTo c ssn) := by
  rw [amlReoForwardTo]
  split
  · rename_i same
    exact .here same rfl
  · rename_i other
    split
    · rename_i empty
      rw [Bool.not_eq_true', ← Bool.not_eq_true, amlReoHasBuffer_iff, not_not] at empty
      exact .moved empty other rfl
    · rename_i buffered
      rw [Bool.not_eq_true', Bool.not_eq_false, amlReoHasBuffer_iff] at buffered
      split
      · rename_i behind
        rw [Bool.and_eq_true, Bool.not_eq_true', Bool.not_eq_true'] at behind
        rw [amlReoShiftTo_stay coherent behind.1]
        exact .stale buffered behind.1 behind.2 rfl
      · rename_i ahead
        refine .flushed _ buffered ?_ (amlReoShiftTo_flush coherent.toWindowed) rfl
        by_contra neither
        apply ahead
        rw [not_or, Bool.not_eq_true, Bool.not_eq_true] at neither
        rw [neither.1, neither.2]
        rfl

theorem Forwarded.coherent {c d : Ctx α} {ssn : Nat} (coherent : Coherent c.reo)
    (ssn_lt : ssn < 4096) (forwarded : Forwarded c ssn d) : Coherent d.reo := by
  cases forwarded with
  | here _ unchanged => exact unchanged ▸ coherent
  | moved empty _ reset =>
      rw [reset]
      exact (coherent.flushed empty).coherent rfl rfl rfl ssn_lt rfl rfl rfl
  | stale _ _ _ unchanged => exact unchanged ▸ coherent
  | flushed m _ _ shifted reset =>
      rw [reset]
      exact (coherent.toWindowed.flushed_after shifted).coherent rfl rfl rfl ssn_lt rfl rfl rfl

/-- A window that is empty stays empty. -/
theorem Forwarded.lsn_eq {c d : Ctx α} {ssn : Nat} (empty : c.reo.lsn = c.reo.ssn)
    (forwarded : Forwarded c ssn d) : d.reo.lsn = d.reo.ssn := by
  cases forwarded with
  | here _ unchanged => exact unchanged ▸ empty
  | moved _ _ reset =>
      subst reset
      rfl
  | stale buffered _ _ _ => exact absurd empty buffered
  | flushed _ buffered _ _ _ => exact absurd empty buffered

theorem Forwarded.reset_eq {c d : Ctx α} {ssn : Nat} (forwarded : Forwarded c ssn d) :
    d.reo.reset = c.reo.reset := by
  cases forwarded with
  | here _ unchanged => rw [unchanged]
  | moved _ _ reset => rw [reset, amlReoResetSsn]
  | stale _ _ _ unchanged => rw [unchanged]
  | flushed m _ _ shifted reset => rw [reset, amlReoResetSsn, shifted.reset]

/-- What `aml_reo_forward_all` does: nothing to an empty window, else it flushes it. -/
inductive Drained (c d : Ctx α) : Prop
  | empty (empty : c.reo.lsn = c.reo.ssn) (unchanged : d = c)
  | flushed (m : Ctx α) (buffered : c.reo.lsn ≠ c.reo.ssn)
      (shifted : Shifted c (snSub c.reo.lsn c.reo.ssn + 1) m) (flushed : Flushed m.reo)
      (reset : d = { m with reo := amlReoResetSsn m.reo c.reo.lsn })

/-- Forwarding to the last number empties the window. -/
theorem amlReoForwardAll_drained {c : Ctx α} (windowed : Windowed c.reo) :
    Drained c (amlReoForwardAll c) := by
  by_cases empty : c.reo.lsn = c.reo.ssn
  · exact .empty empty (by rw [amlReoForwardAll, amlReoForwardTo, if_pos empty])
  · have shifted := amlReoShiftTo_flush windowed
    refine .flushed _ empty shifted (windowed.flushed_after shifted) ?_
    have span := windowed.span
    have buf_le := windowed.buf_le
    have ahead : snLess c.reo.ssn c.reo.lsn = true := by
      rw [snLess_iff]
      have ssn_lt := windowed.ssn_lt
      have lsn_lt := windowed.lsn_lt
      simp only [snSub] at span ⊢
      omega
    have buffered : amlReoHasBuffer c.reo = true := (amlReoHasBuffer_iff _).mpr empty
    rw [amlReoForwardAll, amlReoForwardTo, if_neg empty, buffered, ahead]
    rfl

theorem Drained.coherent {c d : Ctx α} (coherent : Coherent c.reo) (drained : Drained c d) :
    Coherent d.reo := by
  cases drained with
  | empty _ unchanged => exact unchanged ▸ coherent
  | flushed m _ _ flushed reset =>
      subst reset
      exact flushed.coherent rfl rfl rfl coherent.lsn_lt rfl rfl rfl

theorem Drained.reset_eq {c d : Ctx α} (drained : Drained c d) : d.reo.reset = c.reo.reset := by
  cases drained with
  | empty _ unchanged => rw [unchanged]
  | flushed m _ shifted _ reset => rw [reset, amlReoResetSsn, shifted.reset]

theorem Drained.lsn_eq {c d : Ctx α} (drained : Drained c d) : d.reo.lsn = d.reo.ssn := by
  cases drained with
  | empty empty unchanged => exact unchanged ▸ empty
  | flushed _ _ _ _ reset =>
      subst reset
      rfl

/-! ## Aging -/

/-- A slot that is occupied belongs to a held number. -/
theorem held_of_slot {reo : Session α} (shape : Shape reo) {index : Nat}
    (index_lt : index < reo.winSize) {skb : Mpdu α} (occupied : (reo.buf index).skb = some skb) :
    ∃ o < reo.winSize, (amlReoEntryIndex reo reo.ssn + o) % reo.winSize = index ∧
      reo.held o = some skb := by
  obtain ⟨o, o_lt, slot⟩ := Serial.exists_slot reo.ssn index_lt
  refine ⟨o, o_lt, ?_, ?_⟩
  · rw [shape.index_eq, Nat.mod_add_mod, slot]
  · rw [Session.held, if_pos o_lt, shape.index_snAdd, slot, occupied]

theorem lastExpired_some {reo : Session α} {now : Jiffies} {lo hi index : Nat}
    (found : lastExpired reo now lo hi = some index) :
    lo ≤ index ∧ index < hi ∧ amlReoEntryExpired reo index now = true := by
  induction hi with
  | zero => cases found
  | succ hi induction =>
      simp only [lastExpired] at found
      split at found
      · split at found
        · rename_i above expired
          cases found
          exact ⟨above, Nat.lt_succ_self _, expired⟩
        · obtain ⟨above, below, expired⟩ := induction found
          exact ⟨above, by omega, expired⟩
      · cases found

theorem amlReoEntryExpired_some {reo : Session α} {index : Nat} {now : Jiffies}
    (expired : amlReoEntryExpired reo index now = true) :
    ∃ skb, (reo.buf index).skb = some skb := by
  rw [amlReoEntryExpired, Bool.and_eq_true] at expired
  exact Option.isSome_iff_exists.mp expired.1

/-- The target of an aging scan is the number after that of an expired frame. -/
theorem amlReoEntryExpiredLsn_some {reo : Session α} (shape : Shape reo) {now : Jiffies}
    {target : Nat} (found : amlReoEntryExpiredLsn reo now = some target) :
    ∃ o skb, reo.held o = some skb ∧ target = snAdd reo.ssn (o + 1) := by
  have head_lt := shape.index_lt reo.ssn
  have lsn_lt := shape.index_lt reo.lsn
  -- the slots above that of the window start, and those below it after a wrap
  have above : ∀ hi index, hi ≤ reo.winSize →
      lastExpired reo now (amlReoEntryIndex reo reo.ssn + 1) hi = some index →
      ∃ o skb, reo.held o = some skb ∧
        snAdd reo.ssn (index - amlReoEntryIndex reo reo.ssn + 1) = snAdd reo.ssn (o + 1) := by
    intro hi index hi_le scan
    obtain ⟨lo_le, index_lt, expired⟩ := lastExpired_some scan
    obtain ⟨skb, occupied⟩ := amlReoEntryExpired_some expired
    obtain ⟨o, o_lt, slot, held⟩ := held_of_slot shape (by omega) occupied
    refine ⟨o, skb, held, ?_⟩
    by_cases wraps : amlReoEntryIndex reo reo.ssn + o < reo.winSize
    · rw [Nat.mod_eq_of_lt wraps] at slot
      congr 1
      omega
    · rw [Nat.mod_eq_sub_mod (by omega), Nat.mod_eq_of_lt (by omega)] at slot
      omega
  simp only [amlReoEntryExpiredLsn] at found
  split at found
  · rename_i wrapped
    split at found
    · rename_i index scan
      cases found
      obtain ⟨_, index_lt, expired⟩ := lastExpired_some scan
      obtain ⟨skb, occupied⟩ := amlReoEntryExpired_some expired
      obtain ⟨o, o_lt, slot, held⟩ := held_of_slot shape (by omega) occupied
      refine ⟨o, skb, held, ?_⟩
      by_cases wraps : amlReoEntryIndex reo reo.ssn + o < reo.winSize
      · rw [Nat.mod_eq_of_lt wraps] at slot
        omega
      · rw [Nat.mod_eq_sub_mod (by omega), Nat.mod_eq_of_lt (by omega)] at slot
        congr 1
        omega
    · obtain ⟨index, scan, rfl⟩ := Option.map_eq_some_iff.mp found
      exact above _ index (Nat.le_refl _) scan
  · obtain ⟨index, scan, rfl⟩ := Option.map_eq_some_iff.mp found
    exact above _ index (by omega) scan

/-- What the aging timer does: it marks the scan, after a shift past the last expired frame. -/
inductive Aged (c d : Ctx α) : Prop
  | kept (lastAging : ∃ now, d = { c with reo := { c.reo with lastAging := now } })
  | shifted (o e : Nat) (skb : Mpdu α) (m : Ctx α) (expired : c.reo.held o = some skb)
      (stops : StopsAt c.reo (o + 1) e) (shifted : Shifted c e m) (coherent : Coherent m.reo)
      (lastAging : ∃ now, d = { m with reo := { m.reo with lastAging := now } })

theorem amlReoEntryAging_aged (now : Jiffies) {c : Ctx α} (coherent : Coherent c.reo)
    (buffered : amlReoHasBuffer c.reo = true) :
    ∃ d, amlReoEntryAging now c = .ok d ∧ Aged c d := by
  have ssn_lt := coherent.ssn_lt
  rw [amlReoEntryAging, buffered, Bool.not_true, if_neg Bool.false_ne_true]
  split
  · exact ⟨c, rfl, .kept ⟨c.reo.lastAging, rfl⟩⟩
  · cases found : amlReoEntryExpiredLsn c.reo now with
    | none => exact ⟨_, rfl, .kept ⟨now, rfl⟩⟩
    | some target =>
        obtain ⟨o, skb, held, target_eq⟩ := amlReoEntryExpiredLsn_some coherent.toShape found
        have o_lt : o < 1024 := by
          have := (coherent.placed o skb held).2.2
          have := coherent.span
          have := coherent.buf_le
          omega
        have ahead : target ≠ c.reo.ssn := by
          rw [target_eq, snAdd]
          omega
        set counted : Ctx α := { c with
          reo := { c.reo with stats.timeout := c.reo.stats.timeout + 1 } } with counted_eq
        have same : SameWindow c counted :=
          ⟨⟨rfl, rfl, rfl, rfl, rfl, rfl, rfl, rfl⟩, rfl, rfl, rfl⟩
        obtain ⟨e, stops, shifted, result⟩ := amlReoShiftTo_coherent
          ((same.coherent coherent).shiftable (o + 1)) (by omega)
        simp only [if_neg ahead]
        refine ⟨_, rfl, .shifted o e skb (amlReoShiftTo counted target) held
          (same.stopsAt rfl stops) ?_ ?_ ⟨now, rfl⟩⟩
        · rw [target_eq]
          exact same.shifted rfl rfl rfl shifted
        · rw [target_eq]
          exact result

theorem amlReoAging_aged (now : Jiffies) {c : Ctx α} (coherent : Coherent c.reo) :
    ∃ d, amlReoAging now c = .ok d ∧ Aged c d := by
  rw [amlReoAging]
  split
  · rename_i listed
    exact amlReoEntryAging_aged now coherent (coherent.aging ▸ listed)
  · exact ⟨c, rfl, .kept ⟨c.reo.lastAging, rfl⟩⟩

theorem Aged.coherent {c d : Ctx α} (coherent : Coherent c.reo) (aged : Aged c d) :
    Coherent d.reo := by
  cases aged with
  | kept lastAging =>
      obtain ⟨now, rfl⟩ := lastAging
      exact coherent.of_held rfl rfl rfl rfl rfl rfl rfl
  | shifted _ _ _ m _ _ _ result lastAging =>
      obtain ⟨now, rfl⟩ := lastAging
      exact result.of_held rfl rfl rfl rfl rfl rfl rfl

theorem Aged.reset_eq {c d : Ctx α} (aged : Aged c d) : d.reo.reset = c.reo.reset := by
  cases aged with
  | kept lastAging =>
      obtain ⟨_, rfl⟩ := lastAging
      rfl
  | shifted _ _ _ m _ _ shifted _ lastAging =>
      obtain ⟨_, rfl⟩ := lastAging
      exact shifted.reset

end AmlW2.Reorder
