import AmlW2.Reorder.Window

/-!
# The window invariant of a reorder session

A coherent session buffers frames only strictly after the window start and up to the last buffered
number, at the distance their numbers say, and counts them.  Every operation keeps a session
coherent, except an MPDU exactly half the number space ahead of a window of one slot.
-/

namespace AmlW2.Reorder

variable {α : Type*}

/-- The buffered frames lie after the window start, and the last number is that of the last one. -/
structure Windowed (reo : Session α) : Prop extends Shape reo where
  placed : ∀ o skb, reo.held o = some skb →
    skb.sn.val = snAdd reo.ssn o ∧ 0 < o ∧ o ≤ snSub reo.lsn reo.ssn
  span : snSub reo.lsn reo.ssn < reo.bufSize
  last : reo.lsn ≠ reo.ssn → ∃ skb, reo.held (snSub reo.lsn reo.ssn) = some skb
  count : reo.stats.inBuffer = (reo.below reo.winSize).length

/-- The invariant between operations: the session ages exactly while it buffers. -/
structure Coherent (reo : Session α) : Prop extends Windowed reo where
  aging : reo.onAgingList = amlReoHasBuffer reo

/-- What a shift towards target `t` needs: the frame at the window start may be buffered, and the
last number may lie just behind an empty window. -/
structure Shiftable (reo : Session α) (t : Nat) : Prop extends Shape reo where
  placed : ∀ o skb, reo.held o = some skb →
    skb.sn.val = snAdd reo.ssn o ∧ o < reo.bufSize
  last :
    ((∀ o, reo.held o = none) ∧ (reo.lsn = reo.ssn ∨ snInc reo.lsn = reo.ssn ∧ t = 0)) ∨
      ∃ l skb, reo.lsn = snAdd reo.ssn l ∧ reo.held l = some skb ∧
        ∀ o skb, reo.held o = some skb → o ≤ l
  aging : ∀ o skb, reo.held o = some skb → reo.onAgingList = true
  count : reo.stats.inBuffer = (reo.below reo.winSize).length

theorem snSub_snAdd {sn d : Nat} (d_lt : d < 4096) : snSub (snAdd sn d) sn = d :=
  Serial.gap_add d_lt

theorem snAdd_snSub {sn ssn : Nat} (sn_lt : sn < 4096) : snAdd ssn (snSub sn ssn) = sn := by
  rw [snAdd, snSub, ← Serial.gap, Serial.add_gap (by omega), Nat.mod_eq_of_lt sn_lt]

theorem amlReoHasBuffer_iff (reo : Session α) : amlReoHasBuffer reo = true ↔ reo.lsn ≠ reo.ssn :=
  decide_eq_true_iff

namespace Windowed

variable {reo : Session α}

theorem held_zero (windowed : Windowed reo) : reo.held 0 = none := by
  cases held : reo.held 0 with
  | none => rfl
  | some skb => exact absurd (windowed.placed 0 skb held).2.1 (by omega)

/-- Nothing is buffered exactly when the last number is the window start. -/
theorem held_eq_none (windowed : Windowed reo) (same : reo.lsn = reo.ssn) (o : Nat) :
    reo.held o = none := by
  cases held : reo.held o with
  | none => rfl
  | some skb =>
      have bounds := (windowed.placed o skb held).2
      have ssn_lt := windowed.ssn_lt
      rw [same, snSub] at bounds
      omega

theorem lsn_eq (windowed : Windowed reo) : reo.lsn = snAdd reo.ssn (snSub reo.lsn reo.ssn) :=
  (snAdd_snSub windowed.lsn_lt).symm

end Windowed

/-- Coherence reads the window, its ends and its place on the aging list. -/
theorem Coherent.of_held {reo after : Session α} (coherent : Coherent reo)
    (bufSize : after.bufSize = reo.bufSize) (winSize : after.winSize = reo.winSize)
    (ssn : after.ssn = reo.ssn) (lsn : after.lsn = reo.lsn) (held : after.held = reo.held)
    (aging : after.onAgingList = reo.onAgingList)
    (inBuffer : after.stats.inBuffer = reo.stats.inBuffer) : Coherent after where
  win := winSize ▸ coherent.win
  buf_pos := bufSize ▸ coherent.buf_pos
  buf_le_win := bufSize ▸ winSize ▸ coherent.buf_le_win
  buf_le := bufSize ▸ coherent.buf_le
  ssn_lt := ssn ▸ coherent.ssn_lt
  lsn_lt := lsn ▸ coherent.lsn_lt
  placed := held ▸ ssn ▸ lsn ▸ coherent.placed
  span := bufSize ▸ ssn ▸ lsn ▸ coherent.span
  last := held ▸ ssn ▸ lsn ▸ coherent.last
  aging := by
    rw [aging, coherent.aging, amlReoHasBuffer, amlReoHasBuffer, ssn, lsn]
  count := by
    rw [inBuffer, coherent.count, winSize, Session.below, Session.below, held]

theorem Coherent.shiftable {reo : Session α} (coherent : Coherent reo) (t : Nat) :
    Shiftable reo t where
  toShape := coherent.toShape
  placed := by
    intro o skb held
    obtain ⟨sn, _, le⟩ := coherent.placed o skb held
    exact ⟨sn, le.trans_lt coherent.span⟩
  last := by
    by_cases same : reo.lsn = reo.ssn
    · exact Or.inl ⟨coherent.held_eq_none same, Or.inl same⟩
    · obtain ⟨skb, held⟩ := coherent.last same
      exact Or.inr ⟨_, skb, coherent.lsn_eq, held, fun o skb' held' =>
        (coherent.placed o skb' held').2.2⟩
  aging := by
    intro o skb held
    rw [coherent.aging, amlReoHasBuffer_iff]
    intro same
    rw [coherent.held_eq_none same] at held
    cases held
  count := coherent.count

/-- The frames left after a shift are the others. -/
theorem below_after {c after : Ctx α} {e : Nat} (shifted : Shifted c e after)
    (win_pos : 0 < c.reo.winSize) :
    c.reo.below (e + c.reo.winSize) = c.reo.below (e + 1) ++ after.reo.below c.reo.winSize := by
  obtain ⟨m, win⟩ := Nat.exists_eq_succ_of_ne_zero (Nat.ne_of_gt win_pos)
  have first : after.reo.held 0 = none := by rw [shifted.held, if_pos (Or.inl rfl)]
  rw [win, show e + m.succ = e + 1 + m by omega, Session.below_add]
  congr 1
  rw [show m.succ = 1 + m by omega, Session.below_add]
  simp only [Session.below, List.range_one, List.filterMap_cons, first, List.filterMap_nil,
    List.nil_append]
  apply List.filterMap_congr
  intro i member
  have i_lt := List.mem_range.mp member
  rw [shifted.held, if_neg (by omega), show e + 1 + i = e + (1 + i) by omega]

namespace Shiftable

variable {c after : Ctx α} {t e : Nat}

/-- The shift stops no further than one past the last buffered frame or at the target. -/
theorem stop_le (shiftable : Shiftable c.reo t) (stops : StopsAt c.reo t e) :
    (e = t ∨ ∃ l skb, c.reo.lsn = snAdd c.reo.ssn l ∧ c.reo.held l = some skb ∧ e ≤ l + 1) := by
  by_cases at_target : e = t
  · exact Or.inl at_target
  · have target_le := stops.le
    obtain ⟨skb, held⟩ := Session.held_of_passes (stops.passes (e - 1) (by omega) (by omega))
    rcases shiftable.last with ⟨empty, _⟩ | ⟨l, skb', lsn, last, bound⟩
    · rw [empty] at held
      cases held
    · have := bound _ _ held
      exact Or.inr ⟨l, skb', lsn, last, by omega⟩

theorem stop_le_max (shiftable : Shiftable c.reo t) (stops : StopsAt c.reo t e) :
    e ≤ max t c.reo.bufSize := by
  rcases shiftable.stop_le stops with at_target | ⟨l, skb, _, held, e_le⟩
  · omega
  · have := (shiftable.placed l skb held).2
    omega

/-- After a shift either nothing is buffered and the last number is the window start, or the last
buffered frame stays the last. -/
theorem last_after (shiftable : Shiftable c.reo t) (t_le : t ≤ 2047)
    (e_le : e ≤ max t c.reo.bufSize) (stops : StopsAt c.reo t e) (shifted : Shifted c e after) :
    (after.reo.lsn = after.reo.ssn ∧ ∀ o, after.reo.held o = none) ∨
      ∃ l skb, e < l ∧ l < c.reo.bufSize ∧ snSub after.reo.lsn after.reo.ssn = l - e ∧
        c.reo.held l = some skb ∧ ∀ o skb, c.reo.held o = some skb → o ≤ l := by
  have ssn_lt := shiftable.ssn_lt
  have lsn_lt := shiftable.lsn_lt
  have buf_le := shiftable.buf_le
  rcases shiftable.last with ⟨empty, position⟩ | ⟨l, skb, lsn, last, bound⟩
  · left
    have e_eq : e = t := by
      rcases shiftable.stop_le stops with same | ⟨l, skb, _, held, _⟩
      · exact same
      · rw [empty] at held
        cases held
    constructor
    · rw [shifted.lsn, shifted.ssn]
      split
      · rfl
      · rename_i behind
        simp only [snLess_iff, snSub, snAdd, snInc] at behind position ⊢
        omega
    · intro o
      rw [shifted.held, empty, ite_self]
  · have l_lt := (shiftable.placed l skb last).2
    have less : snLess (snAdd c.reo.ssn l) (snAdd c.reo.ssn e) = decide (l < e) :=
      snLess_snAdd (by omega) (by omega)
    rw [← lsn] at less
    by_cases passed : l < e ∨ l = e
    · left
      constructor
      · rw [shifted.lsn, shifted.ssn, less]
        rcases passed with earlier | rfl
        · rw [decide_eq_true earlier, if_pos rfl]
        · rw [lsn, ite_self]
      · intro o
        rw [shifted.held]
        split
        · rfl
        · cases held : c.reo.held (e + o) with
          | none => rfl
          | some skb' =>
              have := bound _ _ held
              omega
    · right
      refine ⟨l, skb, by omega, l_lt, ?_, last, bound⟩
      rw [shifted.lsn, shifted.ssn, less, decide_eq_false (by omega), if_neg Bool.false_ne_true,
        lsn]
      simp only [snSub, snAdd]
      omega

/-- A shift makes the session coherent. -/
theorem coherent_after (shiftable : Shiftable c.reo t) (t_le : t ≤ 2047)
    (e_le : e ≤ max t c.reo.bufSize) (stops : StopsAt c.reo t e) (shifted : Shifted c e after) :
    Coherent after.reo := by
  have ssn_lt : after.reo.ssn < 4096 := by
    rw [shifted.ssn, snAdd]
    exact Nat.mod_lt _ (by omega)
  have lsn_lt : after.reo.lsn < 4096 := by
    rw [shifted.lsn]
    split
    · exact Nat.mod_lt _ (by omega)
    · exact shiftable.lsn_lt
  have position := shiftable.last_after t_le e_le stops shifted
  have buf_le := shiftable.buf_le_win
  refine { win := ?win, buf_pos := ?buf_pos, buf_le_win := ?buf_le_win, buf_le := ?buf_le,
           ssn_lt, lsn_lt, placed := ?placed, span := ?span, last := ?last, aging := ?aging,
           count := ?count }
  case win => exact shifted.winSize ▸ shiftable.win
  case buf_pos => exact shifted.bufSize ▸ shiftable.buf_pos
  case buf_le_win => exact shifted.bufSize ▸ shifted.winSize ▸ shiftable.buf_le_win
  case buf_le => exact shifted.bufSize ▸ shiftable.buf_le
  case placed =>
    intro o skb held
    have inner := held
    rw [shifted.held] at inner
    split at inner
    · cases inner
    · rename_i inside
      refine ⟨?_, by omega, ?_⟩
      · rw [(shiftable.placed _ skb inner).1, shifted.ssn]
        simp only [snAdd]
        omega
      · rcases position with ⟨_, empty⟩ | ⟨l, _, _, _, span, _, bound⟩
        · rw [empty] at held
          cases held
        · have := bound _ _ inner
          omega
  case span =>
    rw [shifted.bufSize]
    rcases position with ⟨same, _⟩ | ⟨l, _, _, l_lt, span, _⟩
    · have pos := shiftable.buf_pos
      rw [same, snSub]
      omega
    · omega
  case last =>
    intro different
    rcases position with ⟨same, _⟩ | ⟨l, skb, e_lt, l_lt, span, held, _⟩
    · exact absurd same different
    · refine ⟨skb, ?_⟩
      rw [span, shifted.held, if_neg (by omega), show e + (l - e) = l by omega, held]
  case aging =>
    rw [shifted.onAgingList]
    rcases position with ⟨same, _⟩ | ⟨l, skb, _, _, _, held, _⟩
    · simp [amlReoHasBuffer, same]
    · rw [shiftable.aging l skb held, Bool.and_true]
  case count =>
    have split := congrArg List.length (below_after shifted shiftable.win_pos)
    rw [List.length_append, c.reo.below_stable (by omega)] at split
    rw [shifted.inBuffer, shiftable.count, shifted.winSize, split]
    push_cast
    ring

end Shiftable

/-- A shift ahead of the window start, from a shiftable session. -/
theorem amlReoShiftTo_coherent {c : Ctx α} {t : Nat} (shiftable : Shiftable c.reo t)
    (t_le : t ≤ 2047) :
    ∃ e, StopsAt c.reo t e ∧ Shifted c e (amlReoShiftTo c (snAdd c.reo.ssn t)) ∧
      Coherent (amlReoShiftTo c (snAdd c.reo.ssn t)).reo := by
  obtain ⟨e, e_le, stops, shifted⟩ := amlReoShiftTo_shifted shiftable.toShape
    (fun o skb held => (shiftable.placed o skb held).2) t_le
  exact ⟨e, stops, shifted, shiftable.coherent_after t_le e_le stops shifted⟩

end AmlW2.Reorder
