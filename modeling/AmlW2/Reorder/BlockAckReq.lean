import AmlW2.Reorder.Safety

/-!
# Block-ack requests

A block-ack request names the number before which the peer will not retransmit.  This file states
what the reorder code owes such a request, and the exact requests for which `aml_reo_forward_to`
delivers it: the guard of its first branch compares the window start with the request the wrong way
round, so a request inside a partly filled window flushes the whole window instead of its front.
-/

namespace AmlW2.Reorder

variable {α : Type*}

/-- The frames before target `t` and the contiguous run from there are released, in order, later
frames keep their slots, and the window starts at the first number missing from the target on. -/
structure Released (c : Ctx α) (t e : Nat) (d : Ctx α) : Prop where
  stops : StopsAt c.reo t e
  ssn : d.reo.ssn = snAdd c.reo.ssn e
  frames : d.frames = c.frames ++ Filter.passed pnStep c.reo.pnState (c.reo.below e)
  freed : d.freed = c.freed ++ Filter.stopped pnStep c.reo.pnState (c.reo.below (e + 1))
  kept : ∀ o, e < o → o < c.reo.winSize →
    (d.reo.buf (amlReoEntryIndex c.reo (snAdd c.reo.ssn o))).skb = c.reo.held o

/-- What a block-ack request that takes a session from `c` to `d` has to do. -/
structure BarLaw (c : Ctx α) (ssn : Nat) (d : Ctx α) : Prop where
  /-- Ahead of the window start and not past the last buffered number. -/
  inside : snLess c.reo.ssn ssn = true → snLess c.reo.lsn ssn = false →
    ∃ e, Released c (snSub ssn c.reo.ssn) e d
  /-- Behind the window start. -/
  behind : snLess ssn c.reo.ssn = true →
    snLess d.reo.ssn c.reo.ssn = false ∧ ∀ index, (d.reo.buf index).skb = (c.reo.buf index).skb

/-- The requests that `aml_reo_forward_to` serves: inside the window only the last buffered number,
its frame failing the packet-number check, and behind the window only with frames buffered and
closer behind the window start than half the number space behind the last number. -/
structure BarServed (reo : Session α) (ssn : Nat) : Prop where
  inside : snLess reo.ssn ssn = true → snLess reo.lsn ssn = false →
    ssn = reo.lsn ∧ reo.passes (snSub ssn reo.ssn) = false
  behind : snLess ssn reo.ssn = true → reo.lsn ≠ reo.ssn ∧ snLess reo.lsn ssn = false

theorem snSub_self (sn : Nat) : snSub sn sn = 0 := by
  simp only [snSub]
  omega

/-- Nothing passes at the distance where a shift stops. -/
theorem StopsAt.passed_eq {reo : Session α} {t e : Nat} (stops : StopsAt reo t e) :
    Filter.passed pnStep reo.pnState (reo.below (e + 1)) =
      Filter.passed pnStep reo.pnState (reo.below e) := by
  have verdict := stops.stops
  rw [Session.below_succ, Filter.passed_append]
  cases held : reo.held e with
  | none => simp [Filter.passed]
  | some skb =>
      rw [Session.passes, held] at verdict
      simp [Filter.passed, verdict]

/-- Nothing is buffered after the last number. -/
theorem Windowed.held_later {reo : Session α} (windowed : Windowed reo) {o : Nat}
    (later : snSub reo.lsn reo.ssn < o) : reo.held o = none := by
  cases held : reo.held o with
  | none => rfl
  | some skb =>
      have := (windowed.placed o skb held).2.2
      omega

theorem Windowed.below_later {reo : Session α} (windowed : Windowed reo) {o : Nat}
    (later : snSub reo.lsn reo.ssn < o) : reo.below (o + 1) = reo.below o := by
  rw [Session.below_succ, windowed.held_later later, Option.toList_none, List.append_nil]

/-- A flush stops one past the last number. -/
theorem Windowed.stopsAt_flush {reo : Session α} (windowed : Windowed reo) :
    StopsAt reo (snSub reo.lsn reo.ssn + 1) (snSub reo.lsn reo.ssn + 1) where
  le := Nat.le_refl _
  passes := by
    intro o above below
    omega
  stops := by rw [Session.passes, windowed.held_later (Nat.lt_succ_self _)]

/-- A flushed session holds no frame in any slot it uses. -/
theorem Flushed.skb_eq_none {reo : Session α} (flushed : Flushed reo) (sn : Nat) :
    (reo.buf (amlReoEntryIndex reo (snAdd reo.ssn sn))).skb = none := by
  rw [flushed.toShape.skb_eq_held, flushed.held]

/-- A request at the last number whose frame fails the check does what it should. -/
theorem Windowed.released_at_last {c m : Ctx α} (windowed : Windowed c.reo)
    (shifted : Shifted c (snSub c.reo.lsn c.reo.ssn + 1) m)
    (fails : c.reo.passes (snSub c.reo.lsn c.reo.ssn) = false) :
    Released c (snSub c.reo.lsn c.reo.ssn) (snSub c.reo.lsn c.reo.ssn)
      { m with reo := amlReoResetSsn m.reo c.reo.lsn } := by
  have stops : StopsAt c.reo (snSub c.reo.lsn c.reo.ssn) (snSub c.reo.lsn c.reo.ssn) :=
    ⟨Nat.le_refl _, fun o above below => by omega, fails⟩
  have flushed := windowed.flushed_after shifted
  refine { stops, ssn := windowed.lsn_eq, frames := ?frames, freed := ?freed, kept := ?kept }
  case frames =>
    change m.frames = _
    rw [shifted.frames, windowed.stopsAt_flush.passed_eq, stops.passed_eq]
  case freed =>
    change m.freed = _
    rw [shifted.freed, windowed.below_later (Nat.lt_succ_self _)]
  case kept =>
    intro o later o_lt
    rw [windowed.held_later later]
    have slots := flushed.skb_eq_none (snSub (snAdd c.reo.ssn o) m.reo.ssn)
    rwa [snAdd_snSub (snAdd_lt _ _), amlReoEntryIndex, shifted.winSize] at slots

/-- Ahead of the window start and not past the last number, by distances. -/
theorem Windowed.inside_iff {reo : Session α} (windowed : Windowed reo) (ssn : Nat) :
    snLess reo.ssn ssn = true ∧ snLess reo.lsn ssn = false ↔
      0 < snSub ssn reo.ssn ∧ snSub ssn reo.ssn ≤ snSub reo.lsn reo.ssn := by
  have start_lt := windowed.ssn_lt
  have last_lt := windowed.lsn_lt
  have span := windowed.span
  have buf_le := windowed.buf_le
  rw [← Bool.not_eq_true, snLess_iff, snLess_iff]
  simp only [snSub] at span ⊢
  omega

/-- A request strictly inside the window loses the frames after it. -/
theorem Windowed.not_released {c m : Ctx α} (windowed : Windowed c.reo)
    (shifted : Shifted c (snSub c.reo.lsn c.reo.ssn + 1) m) {ssn e : Nat} (ssn_lt : ssn < 4096)
    (within : 0 < snSub ssn c.reo.ssn ∧ snSub ssn c.reo.ssn ≤ snSub c.reo.lsn c.reo.ssn)
    (shiftable : Shiftable c.reo (snSub ssn c.reo.ssn))
    (released : Released c (snSub ssn c.reo.ssn) e { m with reo := amlReoResetSsn m.reo ssn }) :
    ssn = c.reo.lsn ∧ e = snSub ssn c.reo.ssn := by
  have span := windowed.span
  have buf_le := windowed.buf_le
  have flushed := windowed.flushed_after shifted
  have e_eq : e = snSub ssn c.reo.ssn := by
    have e_le := shiftable.stop_le_max released.stops
    have landed : ssn = snAdd c.reo.ssn e := released.ssn
    rw [landed, snSub_snAdd (by omega)]
  refine ⟨?_, e_eq⟩
  by_contra other
  have before : snSub ssn c.reo.ssn < snSub c.reo.lsn c.reo.ssn := by
    rcases Nat.lt_or_eq_of_le within.2 with before | level
    · exact before
    · have back : snAdd c.reo.ssn (snSub ssn c.reo.ssn) = ssn := snAdd_snSub ssn_lt
      rw [← back, level, ← windowed.lsn_eq] at other
      exact absurd rfl other
  have buffered : c.reo.lsn ≠ c.reo.ssn := by
    intro same
    rw [same, snSub_self] at before
    omega
  obtain ⟨skb, held⟩ := windowed.last buffered
  have kept := released.kept _ (e_eq ▸ before) (Session.lt_winSize_of_held held)
  have slots := flushed.skb_eq_none
    (snSub (snAdd c.reo.ssn (snSub c.reo.lsn c.reo.ssn)) m.reo.ssn)
  rw [snAdd_snSub (snAdd_lt _ _), amlReoEntryIndex, shifted.winSize, ← amlReoEntryIndex] at slots
  rw [held] at kept
  exact absurd (slots.symm.trans kept) (Option.some_ne_none skb).symm

/-- The request does what it should exactly when it is one of those served. -/
theorem barLaw_iff {c : Ctx α} (coherent : Coherent c.reo) {ssn : Nat} (ssn_lt : ssn < 4096) :
    BarLaw c ssn (amlReoForwardTo c ssn) ↔ BarServed c.reo ssn := by
  have start_lt := coherent.ssn_lt
  have level : snLess c.reo.ssn c.reo.ssn = false := by
    rw [← Bool.not_eq_true, snLess_iff, snSub_self]
    omega
  have inside_iff := coherent.toWindowed.inside_iff ssn
  have forwarded := amlReoForwardTo_forwarded coherent ssn
  generalize amlReoForwardTo c ssn = d at forwarded
  cases forwarded with
  | here same unchanged =>
      subst same
      constructor <;> intro <;>
        exact ⟨fun ahead => absurd ahead (by simp [level]),
          fun behind => absurd behind (by simp [level])⟩
  | moved empty other reset =>
      -- nothing is buffered, so nothing is inside, and a request behind moves the window back
      have outside : snLess c.reo.ssn ssn = true → snLess c.reo.lsn ssn = false → False := by
        intro ahead not_past
        have within := inside_iff.mp ⟨ahead, not_past⟩
        rw [empty, snSub_self] at within
        omega
      constructor
      · intro law
        refine ⟨fun ahead not_past => (outside ahead not_past).elim, fun behind => ?_⟩
        have stays := (law.behind behind).1
        rw [reset] at stays
        exact absurd behind (by simpa [amlReoResetSsn] using stays)
      · intro served
        exact ⟨fun ahead not_past => (outside ahead not_past).elim,
          fun behind => absurd empty (served.behind behind).1⟩
  | stale buffered behind behind_last unchanged =>
      subst unchanged
      constructor <;> intro
      · exact ⟨fun ahead => absurd ahead (by simp [behind]), fun _ => ⟨buffered, behind_last⟩⟩
      · exact ⟨fun ahead => absurd ahead (by simp [behind]), fun _ => ⟨level, fun _ => rfl⟩⟩
  | flushed m buffered ahead shifted reset =>
      subst reset
      constructor
      · intro law
        constructor
        · intro after_start not_past
          obtain ⟨e, released⟩ := law.inside after_start not_past
          obtain ⟨at_last, e_eq⟩ := coherent.toWindowed.not_released shifted ssn_lt
            (inside_iff.mp ⟨after_start, not_past⟩) (coherent.shiftable _) released
          exact ⟨at_last, e_eq ▸ released.stops.stops⟩
        · intro behind
          have stays := (law.behind behind).1
          exact absurd behind (by simpa [amlReoResetSsn] using stays)
      · intro served
        constructor
        · intro after_start not_past
          obtain ⟨at_last, fails⟩ := served.inside after_start not_past
          subst at_last
          exact ⟨_, coherent.toWindowed.released_at_last shifted fails⟩
        · intro behind
          obtain ⟨_, not_past⟩ := served.behind behind
          rcases ahead with after_start | past
          · rw [snLess_iff] at after_start behind
            simp only [snSub] at after_start behind
            omega
          · exact absurd past (by simp [not_past])

end AmlW2.Reorder
