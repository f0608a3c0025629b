import AmlW2.Reorder.Safety

/-!
# The aging law

An aging scan looks for the last frame whose age has expired, wherever the window wraps around the
slots.  It takes out of the window the frames up to that one and the contiguous ones after it, and
leaves no expired frame behind.
-/

namespace AmlW2.Reorder

variable {α : Type*} {reo : Session α} {now : Jiffies}

/-! ## The scan -/

/-- The frame buffered `o` numbers past the window start has expired. -/
def Session.expiredAt (reo : Session α) (now : Jiffies) (o : Nat) : Bool :=
  amlReoEntryExpired reo (amlReoEntryIndex reo (snAdd reo.ssn o)) now

theorem lastExpired_above {lo hi index slot : Nat} (found : lastExpired reo now lo hi = some index)
    (above : index < slot) (below : slot < hi) : amlReoEntryExpired reo slot now = false := by
  induction hi with
  | zero => cases found
  | succ hi induction =>
      simp only [lastExpired] at found
      split at found
      · split at found
        · cases found
          omega
        · rename_i fresh
          rcases Nat.lt_succ_iff_lt_or_eq.mp below with earlier | rfl
          · exact induction found earlier
          · exact Bool.eq_false_of_not_eq_true fresh
      · cases found

theorem lastExpired_none {lo hi slot : Nat} (none : lastExpired reo now lo hi = none)
    (above : lo ≤ slot) (below : slot < hi) : amlReoEntryExpired reo slot now = false := by
  induction hi with
  | zero => exact absurd below (Nat.not_lt_zero slot)
  | succ hi induction =>
      rw [lastExpired, if_pos (by omega)] at none
      split at none
      · cases none
      · rename_i fresh
        rcases Nat.lt_succ_iff_lt_or_eq.mp below with earlier | rfl
        · exact induction none earlier
        · exact Bool.eq_false_of_not_eq_true fresh

/-- The slots follow that of the window start and wrap around. -/
theorem Shape.slot_eq (shape : Shape reo) {o : Nat} (o_lt : o < reo.winSize) :
    amlReoEntryIndex reo (snAdd reo.ssn o) =
      if amlReoEntryIndex reo reo.ssn + o < reo.winSize then amlReoEntryIndex reo reo.ssn + o
      else amlReoEntryIndex reo reo.ssn + o - reo.winSize := by
  have start := shape.index_eq reo.ssn
  rw [shape.index_snAdd, Serial.slot_add o_lt, start]

/-- Only a frame up to the last number can have expired. -/
theorem Windowed.expiredAt_span (windowed : Windowed reo) {o : Nat} (o_lt : o < reo.winSize)
    (expired : reo.expiredAt now o = true) : 0 < o ∧ o ≤ snSub reo.lsn reo.ssn := by
  obtain ⟨skb, occupied⟩ := amlReoEntryExpired_some expired
  have held : reo.held o = some skb := by rw [Session.held, if_pos o_lt, occupied]
  exact (windowed.placed o skb held).2

/-- The frame at distance `last` has expired, and none of the window after it has. -/
structure LastExpired (reo : Session α) (now : Jiffies) (last : Nat) : Prop where
  inside : last < reo.winSize
  expired : reo.expiredAt now last = true
  later : ∀ o < reo.winSize, last < o → reo.expiredAt now o = false

/-- The scan finds the last expired frame, whether or not the window wraps around the slots. -/
theorem amlReoEntryExpiredLsn_eq (now : Jiffies) (windowed : Windowed reo)
    (buffered : amlReoHasBuffer reo = true) :
    (amlReoEntryExpiredLsn reo now = none ∧ ∀ o < reo.winSize, reo.expiredAt now o = false) ∨
      ∃ last, LastExpired reo now last ∧
        amlReoEntryExpiredLsn reo now = some (snAdd reo.ssn (last + 1)) := by
  have span := windowed.span
  have buf_le := windowed.buf_le_win
  have head_lt := windowed.index_lt reo.ssn
  have some_buffered : 0 < snSub reo.lsn reo.ssn := by
    rw [Nat.pos_iff_ne_zero]
    intro zero
    have last := windowed.lsn_eq
    rw [zero, snAdd, Nat.add_zero, Nat.mod_eq_of_lt windowed.ssn_lt] at last
    exact (amlReoHasBuffer_iff reo).mp buffered last
  have slot : ∀ o < reo.winSize, reo.expiredAt now o = amlReoEntryExpired reo
      (if amlReoEntryIndex reo reo.ssn + o < reo.winSize then amlReoEntryIndex reo reo.ssn + o
        else amlReoEntryIndex reo reo.ssn + o - reo.winSize) now := by
    intro o o_lt
    rw [Session.expiredAt, windowed.slot_eq o_lt]
  have tail := windowed.slot_eq (show snSub reo.lsn reo.ssn < reo.winSize by omega)
  rw [← windowed.lsn_eq] at tail
  -- Outside of the distances that are scanned nothing can have expired.
  have outside : ∀ o < reo.winSize, (0 < o → o ≤ snSub reo.lsn reo.ssn →
      reo.expiredAt now o = false) → reo.expiredAt now o = false := by
    intro o o_lt inside
    by_contra expired
    have position := windowed.expiredAt_span o_lt (Bool.eq_true_of_not_eq_false expired)
    exact expired (inside position.1 position.2)
  generalize head_eq : amlReoEntryIndex reo reo.ssn = head at *
  generalize tail_eq : amlReoEntryIndex reo reo.lsn = index at *
  rw [amlReoEntryExpiredLsn, head_eq, tail_eq]
  split_ifs at tail with straight
  · -- The window does not wrap up to the last number: one scan, down to its start.
    rw [if_neg (by omega)]
    cases found : lastExpired reo now (head + 1) (index + 1) with
    | none =>
        refine .inl ⟨rfl, fun o o_lt => outside o o_lt fun o_pos o_le => ?_⟩
        rw [slot o o_lt, if_pos (by omega)]
        exact lastExpired_none found (by omega) (by omega)
    | some at_slot =>
        obtain ⟨lo_le, hi_lt, expired⟩ := lastExpired_some found
        refine .inr ⟨at_slot - head, ⟨by omega, ?_, ?_⟩, rfl⟩
        · rw [slot _ (by omega), if_pos (by omega), show head + (at_slot - head) = at_slot by omega]
          exact expired
        · intro o o_lt later
          refine outside o o_lt fun o_pos o_le => ?_
          rw [slot o o_lt, if_pos (by omega)]
          exact lastExpired_above found (by omega) (by omega)
  · -- It wraps: the slots from the first on come last in the window.
    rw [if_pos (by omega)]
    cases found : lastExpired reo now 0 (index + 1) with
    | some at_slot =>
        obtain ⟨lo_le, hi_lt, expired⟩ := lastExpired_some found
        refine .inr ⟨reo.winSize + at_slot - head, ⟨by omega, ?_, ?_⟩, rfl⟩
        · rw [slot _ (by omega), if_neg (by omega),
            show head + (reo.winSize + at_slot - head) - reo.winSize = at_slot by omega]
          exact expired
        · intro o o_lt later
          refine outside o o_lt fun o_pos o_le => ?_
          rw [slot o o_lt, if_neg (by omega)]
          exact lastExpired_above found (by omega) (by omega)
    | none =>
        have wrapped : ∀ o < reo.winSize, reo.winSize ≤ head + o → reo.expiredAt now o = false := by
          intro o o_lt wraps
          refine outside o o_lt fun o_pos o_le => ?_
          rw [slot o o_lt, if_neg (by omega)]
          exact lastExpired_none found (Nat.zero_le _) (by omega)
        cases found' : lastExpired reo now (head + 1) reo.winSize with
        | none =>
            refine .inl ⟨rfl, fun o o_lt => outside o o_lt fun o_pos o_le => ?_⟩
            rcases Nat.lt_or_ge (head + o) reo.winSize with inside | wraps
            · rw [slot o o_lt, if_pos inside]
              exact lastExpired_none found' (by omega) inside
            · exact wrapped o o_lt wraps
        | some at_slot =>
            obtain ⟨lo_le, hi_lt, expired⟩ := lastExpired_some found'
            refine .inr ⟨at_slot - head, ⟨by omega, ?_, ?_⟩, rfl⟩
            · rw [slot _ (by omega), if_pos (by omega),
                show head + (at_slot - head) = at_slot by omega]
              exact expired
            · intro o o_lt later
              rcases Nat.lt_or_ge (head + o) reo.winSize with inside | wraps
              · rw [slot o o_lt, if_pos inside]
                exact lastExpired_above found' (by omega) inside
              · exact wrapped o o_lt wraps

/-! ## What is taken out -/

/-- The frames up to distance `stop` are taken out of the window in the order of their numbers:
those that pass the packet-number check are delivered, the others dropped.  The others stay. -/
structure TakenOut (c : Ctx α) (stop : Nat) (d : Ctx α) : Prop where
  ssn : d.reo.ssn = snAdd c.reo.ssn stop
  frames : d.frames = c.frames ++ Filter.passed pnStep c.reo.pnState (c.reo.below (stop + 1))
  freed : d.freed = c.freed ++ Filter.stopped pnStep c.reo.pnState (c.reo.below (stop + 1))
  kept : ∀ o, d.reo.held o =
    if o = 0 ∨ c.reo.winSize ≤ o then none else c.reo.held (stop + o)

/-- The law of an aging scan: no expired frame is left, and either none had expired and none is
taken out, or the window starts at the first number after the last expired frame that is missing or
fails the packet-number check. -/
structure AgingLaw (now : Jiffies) (c d : Ctx α) : Prop where
  unexpired : ∀ index < d.reo.winSize, amlReoEntryExpired d.reo index now = false
  taken :
    ((∀ o < c.reo.winSize, c.reo.expiredAt now o = false) ∧
        d = { c with reo := { c.reo with lastAging := now } }) ∨
      ∃ last stop, LastExpired c.reo now last ∧
        amlReoEntryExpiredLsn c.reo now = some (snAdd c.reo.ssn (last + 1)) ∧
        StopsAt c.reo (last + 1) stop ∧ TakenOut c stop d

/-- Expiry is read of the slots, wherever the window starts. -/
theorem unexpired_of_expiredAt (shape : Shape reo)
    (fresh : ∀ o < reo.winSize, reo.expiredAt now o = false) :
    ∀ index < reo.winSize, amlReoEntryExpired reo index now = false := by
  intro index index_lt
  obtain ⟨o, o_lt, slot⟩ := Serial.exists_slot reo.ssn index_lt
  have at_o := fresh o o_lt
  rwa [Session.expiredAt, shape.index_snAdd, slot] at at_o

theorem Shifted.shape {c m : Ctx α} {stop : Nat} (shape : Shape c.reo)
    (shifted : Shifted c stop m) : Shape m.reo where
  win := shifted.winSize ▸ shape.win
  buf_pos := shifted.bufSize ▸ shape.buf_pos
  buf_le_win := shifted.bufSize ▸ shifted.winSize ▸ shape.buf_le_win
  buf_le := shifted.bufSize ▸ shape.buf_le
  ssn_lt := shifted.ssn ▸ snAdd_lt _ _
  lsn_lt := by
    rw [shifted.lsn]
    split_ifs
    · exact snAdd_lt _ _
    · exact shape.lsn_lt

/-- Beyond the last expired frame a shifted window holds no expired frame. -/
theorem Shifted.expiredAt_eq_false {c m : Ctx α} {last stop : Nat}
    (expired : LastExpired c.reo now last) (beyond : last < stop) (shifted : Shifted c stop m)
    {o : Nat} (o_lt : o < m.reo.winSize) : m.reo.expiredAt now o = false := by
  rw [shifted.winSize] at o_lt
  have held := shifted.held o
  rw [Session.held, shifted.winSize, if_pos o_lt] at held
  by_contra still
  have late := Bool.eq_true_of_not_eq_false still
  obtain ⟨skb, occupied⟩ := amlReoEntryExpired_some late
  rw [occupied] at held
  split at held
  · cases held
  · have inside : stop + o < c.reo.winSize := Session.lt_winSize_of_held held.symm
    have fresh := expired.later (stop + o) inside (by omega)
    have index : amlReoEntryIndex m.reo (snAdd m.reo.ssn o) =
        amlReoEntryIndex c.reo (snAdd c.reo.ssn (stop + o)) := by
      rw [amlReoEntryIndex, amlReoEntryIndex, shifted.winSize, shifted.ssn,
        show snAdd (snAdd c.reo.ssn stop) o = snAdd c.reo.ssn (stop + o) by
          simp only [snAdd]; omega]
    rw [Session.held, if_pos inside] at held
    rw [Session.expiredAt, amlReoEntryExpired, ← held, ← index, ← shifted.deadline] at fresh
    rw [Session.expiredAt, amlReoEntryExpired, occupied, fresh] at late
    cases late

/-- **The aging law**, of every window and wherever it wraps around the slots; the assertion that
the window moves holds. -/
theorem amlReoEntryAging_law {c : Ctx α} (windowed : Windowed c.reo)
    (buffered : amlReoHasBuffer c.reo = true) (later : c.reo.lastAging ≠ now) :
    ∃ d, amlReoEntryAging now c = .ok d ∧ AgingLaw now c d := by
  rw [amlReoEntryAging, buffered, Bool.not_true, if_neg Bool.false_ne_true, if_neg later]
  rcases amlReoEntryExpiredLsn_eq now windowed buffered with
    ⟨none, fresh⟩ | ⟨last, expired, found⟩
  · rw [none]
    have left := unexpired_of_expiredAt windowed.toShape fresh
    exact ⟨_, rfl, left, .inl ⟨fresh, rfl⟩⟩
  · have bounds := windowed.expiredAt_span expired.inside expired.expired
    have span := windowed.span
    have buf_le := windowed.buf_le
    have ahead : snAdd c.reo.ssn (last + 1) ≠ c.reo.ssn := by
      rw [snAdd]
      omega
    rw [found]
    simp only [if_neg ahead]
    set counted : Ctx α := { c with
      reo := { c.reo with stats.timeout := c.reo.stats.timeout + 1 } } with counted_eq
    have same : SameWindow c counted :=
      ⟨⟨rfl, rfl, rfl, rfl, rfl, rfl, rfl, rfl⟩, rfl, rfl, rfl⟩
    obtain ⟨stop, _, stops, moved⟩ := amlReoShiftTo_shifted (c := counted) (t := last + 1)
      (same.toSameFrame.shape windowed.toShape)
      (fun o skb held => ((windowed.placed o skb held).2.2).trans_lt span) (by omega)
    have shifted : Shifted c stop (amlReoShiftTo counted (snAdd c.reo.ssn (last + 1))) :=
      same.shifted rfl rfl rfl moved
    have stopped : StopsAt c.reo (last + 1) stop := same.stopsAt rfl stops
    have left := unexpired_of_expiredAt (shifted.shape windowed.toShape) fun o o_lt =>
      shifted.expiredAt_eq_false expired stopped.le o_lt
    exact ⟨_, rfl, left, .inr ⟨last, stop, expired, found, stopped,
      ⟨shifted.ssn, shifted.frames, shifted.freed, shifted.held⟩⟩⟩

/-- A window of eight slots that wraps around them, with two frames buffered. -/
theorem amlReoEntryAging_law_wrapped :
    ∃ e reo, Endpoint.run (arrivals 0 [0, 1, 2, 3, 4, 5, 7] ++ arrivals 60 [9]) (opened 8) = .ok e ∧
      e.reo = some reo ∧ amlReoEntryIndex reo reo.lsn < amlReoEntryIndex reo reo.ssn ∧
      ∃ d, amlReoEntryAging 90 (e.ctx reo) = .ok d ∧ AgingLaw 90 (e.ctx reo) d := by
  set wrapping := arrivals 0 [0, 1, 2, 3, 4, 5, 7] ++ arrivals 60 [9] with wrapping_eq
  have free : Run.Guarded Endpoint.step (fun _ _ => True) wrapping (opened 8) :=
    Run.guarded_of_forall_split fun _ _ _ _ _ _ => trivial
  obtain ⟨e, ran, wide⟩ := Run.run_of_invariant
    (fun e event (wide : Endpoint.Wide e) _ => wide.step event) free opened_eight_wide
  have read : (Endpoint.run wrapping (opened 8)).toOption.map (fun e => e.reo.map fun reo =>
      (amlReoHasBuffer reo, reo.lastAging, amlReoEntryIndex reo reo.lsn,
        amlReoEntryIndex reo reo.ssn)) = some (some (true, 0, 1, 6)) := by
    rw [wrapping_eq]
    decide +kernel
  rw [Endpoint.run, ran] at read
  obtain ⟨reo, present, values⟩ := Option.map_eq_some_iff.mp (Option.some.inj read)
  simp only [Prod.mk.injEq] at values
  obtain ⟨buffered, lastAging, tail, head⟩ := values
  exact ⟨e, reo, ran, present, by rw [tail, head]; decide,
    amlReoEntryAging_law (c := e.ctx reo) (wide.settled reo present).toWindowed buffered
      (by rw [show (e.ctx reo).reo.lastAging = 0 from lastAging]; decide)⟩

end AmlW2.Reorder
