import AmlW2.Lib.Marks
import AmlW2.Reorder.BlockAckReq

/-!
# The delivered bitmap

The numbers a session handed up are counted without wrapping, each pass of the window start over the
number space anew.  A bit of the bitmap is set only for the number that the window start passed last
in its slot, and only if that one was handed up, as long as the MPDU that ends a reset finds the
bits of the numbers it skips clear.
-/

namespace AmlW2.Reorder

variable {α : Type*}

/-! ## Frames and bits -/

theorem amlReoPnCheck_delivered (reo : Session α) (hd : Mpdu α) :
    (amlReoPnCheck reo hd).1.delivered = reo.delivered := by
  simp only [amlReoPnCheck]
  split
  · split <;> rfl
  · rfl

theorem amlReoDequeue_passed {c d : Ctx α} {skb : Mpdu α} {index : Nat}
    (ran : amlReoDequeue c skb index = (d, true)) :
    d.frames = c.frames ++ [skb] ∧
      d.reo.delivered = Function.update c.reo.delivered index true := by
  have kept := amlReoPnCheck_delivered c.reo skb
  rw [amlReoDequeue] at ran
  split at ran
  · cases ran
  · rename_i reo checked
    cases ran
    rw [checked] at kept
    exact ⟨rfl, by rw [← kept]⟩

theorem amlReoDequeue_failed {c d : Ctx α} {skb : Mpdu α} {index : Nat}
    (ran : amlReoDequeue c skb index = (d, false)) :
    d.frames = c.frames ∧ d.reo.delivered = c.reo.delivered := by
  have kept := amlReoPnCheck_delivered c.reo skb
  rw [amlReoDequeue] at ran
  split at ran
  · rename_i reo checked
    cases ran
    rw [checked] at kept
    exact ⟨rfl, kept⟩
  · cases ran

theorem popSlot_passed {c d : Ctx α} {index : Nat} (ran : popSlot c index = (d, true)) :
    ∃ skb, (c.reo.buf index).skb = some skb ∧ d.frames = c.frames ++ [skb] ∧
      d.reo.delivered = Function.update c.reo.delivered index true := by
  rw [popSlot] at ran
  split at ran
  · rename_i skb occupied
    have up := amlReoDequeue_passed ran
    exact ⟨skb, occupied, up.1, up.2⟩
  · cases ran

theorem popSlot_failed {c d : Ctx α} {index : Nat} (ran : popSlot c index = (d, false)) :
    d.frames = c.frames ∧ d.reo.delivered = c.reo.delivered := by
  rw [popSlot] at ran
  split at ran
  · have dropped := amlReoDequeue_failed ran
    exact ⟨dropped.1, dropped.2⟩
  · cases ran
    exact ⟨rfl, rfl⟩

/-! ## The window start without wrapping -/

/-- The first number from `start` on with the given sequence number. -/
def unwrap (start sn : Nat) : Nat := start + snSub sn start

theorem unwrap_mod {start sn : Nat} (sn_lt : sn < 4096) : unwrap start sn % 4096 = sn := by
  simp only [unwrap, snSub]
  omega

theorem le_unwrap (start sn : Nat) : start ≤ unwrap start sn := Nat.le_add_right _ _

theorem unwrap_eq {start m : Nat} (le : start ≤ m) (near : m < start + 4096) :
    unwrap start (m % 4096) = m := by
  simp only [unwrap, snSub]
  omega

/-- While the window start moves from `start` to `stop`, the numbers are handed up, each when it is
passed, and sound bits stay sound. -/
structure Carried (w start : Nat) (c : Ctx α) (stop : Nat) (numbers : List Nat) (d : Ctx α) :
    Prop where
  le : start ≤ stop
  inside : ∀ m ∈ numbers, start ≤ m ∧ m < stop
  frames : ∃ up, d.frames = c.frames ++ up ∧
    up.map (fun skb => skb.sn.val) = numbers.map (· % 4096)
  marks : ∀ before, Marked w start before c.reo.delivered →
    Marked w stop (before ++ numbers) d.reo.delivered

namespace Carried

variable {w start stop : Nat} {numbers : List Nat} {c d : Ctx α}

theorem still (start : Nat) (frames : d.frames = c.frames)
    (delivered : d.reo.delivered = c.reo.delivered) : Carried w start c start [] d where
  le := Nat.le_refl start
  inside := by
    intro m member
    cases member
  frames := ⟨[], by rw [frames, List.append_nil], rfl⟩
  marks := by
    intro before marked
    rwa [List.append_nil, delivered]

theorem trans {e : Ctx α} {last : Nat} {more : List Nat} (first : Carried w start c stop numbers d)
    (second : Carried w stop d last more e) : Carried w start c last (numbers ++ more) e where
  le := first.le.trans second.le
  inside := by
    intro m member
    have forward := first.le
    have onward := second.le
    rcases List.mem_append.mp member with earlier | later
    · have := first.inside m earlier
      omega
    · have := second.inside m later
      omega
  frames := by
    obtain ⟨up, frames, sns⟩ := first.frames
    obtain ⟨up', frames', sns'⟩ := second.frames
    exact ⟨up ++ up', by rw [frames', frames, List.append_assoc],
      by rw [List.map_append, List.map_append, sns, sns']⟩
  marks := by
    intro before marked
    rw [← List.append_assoc]
    exact second.marks _ (first.marks before marked)

/-- Fields that are neither the delivery list nor the bitmap do not matter. -/
theorem congr {c' d' : Ctx α} (carried : Carried w start c stop numbers d)
    (frames : c'.frames = c.frames) (delivered : c'.reo.delivered = c.reo.delivered)
    (frames' : d'.frames = d.frames) (delivered' : d'.reo.delivered = d.reo.delivered) :
    Carried w start c' stop numbers d' where
  le := carried.le
  inside := carried.inside
  frames := by
    rw [frames, frames']
    exact carried.frames
  marks := by
    rw [delivered, delivered']
    exact carried.marks

theorem handUp {skb : Mpdu α} (sn : skb.sn.val = start % 4096)
    (frames : d.frames = c.frames ++ [skb])
    (delivered : d.reo.delivered = Function.update c.reo.delivered (start % w) true) :
    Carried w start c (start + 1) [start] d where
  le := Nat.le_succ start
  inside := by
    intro m member
    rw [List.mem_singleton] at member
    omega
  frames := ⟨[skb], frames, by rw [List.map_singleton, List.map_singleton, sn]⟩
  marks := by
    intro before marked
    rw [delivered]
    exact marked.pass_set

theorem giveUp (frames : d.frames = c.frames)
    (delivered : d.reo.delivered = Function.update c.reo.delivered (start % w) false) :
    Carried w start c (start + 1) [] d where
  le := Nat.le_succ start
  inside := by
    intro m member
    cases member
  frames := ⟨[], by rw [frames, List.append_nil], rfl⟩
  marks := by
    intro before marked
    rw [List.append_nil, delivered]
    exact marked.pass_clear

end Carried

/-! ## The shift -/

theorem Shape.index_unwrapped {reo : Session α} (shape : Shape reo) (number : Nat) :
    amlReoEntryIndex reo (number % 4096) = number % reo.winSize := by
  rw [shape.index_eq, Serial.slot_mod shape.win_dvd]

theorem snAdd_unwrapped {start ssn : Nat} (begins : start % 4096 = ssn) (n : Nat) :
    snAdd ssn n = (start + n) % 4096 := by
  rw [snAdd, ← begins, Nat.mod_add_mod]

/-- The loop hands up the numbers of the frames that pass and clears the bits of the others. -/
theorem shiftLoop_carried {c d : Ctx α} (shape : Shape c.reo)
    (placed : ∀ o skb, c.reo.held o = some skb → skb.sn.val = snAdd c.reo.ssn o) {start : Nat}
    (begins : start % 4096 = c.reo.ssn) {t e : Nat} (t_le : t ≤ 2047) (e_le : e ≤ t + 2048)
    (stops : StopsAt c.reo t e) (fuel n : Nat) (swept : Swept c n d) (n_le : n ≤ e)
    (enough : e < fuel + n) :
    ∃ numbers, Carried c.reo.winSize (start + n) d (start + e) numbers
      (shiftLoop (snAdd c.reo.ssn t) fuel d (snAdd c.reo.ssn n)).1 := by
  induction fuel generalizing n d with
  | zero => omega
  | succ fuel induction =>
      have less : snLess (snAdd c.reo.ssn n) (snAdd c.reo.ssn t) = decide (n < t) :=
        snLess_snAdd t_le (by omega)
      have index : amlReoEntryIndex d.reo (snAdd c.reo.ssn n) = (start + n) % c.reo.winSize := by
        rw [snAdd_unwrapped begins, amlReoEntryIndex, swept.winSize, ← amlReoEntryIndex,
          shape.index_unwrapped]
      have content := swept.skb_at shape
      obtain ⟨popped, verdict⟩ := swept.pop shape
      rw [swept.ssn] at popped verdict content
      simp only [shiftLoop, shiftPass]
      cases ran : popSlot d (amlReoEntryIndex d.reo (snAdd c.reo.ssn n)) with
      | mk f passed =>
          rw [ran] at popped verdict
          cases passed with
          | true =>
              -- The frame is handed up and the loop goes on.
              obtain ⟨skb, occupied, frames, delivered⟩ := popSlot_passed ran
              rw [content] at occupied
              rw [index] at delivered
              have sn : skb.sn.val = (start + n) % 4096 := by
                rw [placed n skb occupied, snAdd_unwrapped begins]
              have later : n < e := by
                rcases Nat.lt_or_eq_of_le n_le with later | rfl
                · exact later
                · exact absurd (verdict.trans stops.stops) (by simp)
              simp only [snInc_snAdd]
              obtain ⟨numbers, carried⟩ := induction (n + 1) popped later (by omega)
              exact ⟨_, (Carried.handUp sn frames delivered).trans carried⟩
          | false =>
              obtain ⟨frames, delivered⟩ := popSlot_failed ran
              simp only [less]
              by_cases under : n < t
              · -- The number is given up.
                have t_le_e := stops.le
                simp only [under, decide_true, Bool.not_true, Bool.false_eq_true, if_false,
                  snInc_snAdd]
                obtain ⟨numbers, carried⟩ := induction (n + 1)
                  (popped.giveUp (amlReoEntryIndex d.reo (snAdd c.reo.ssn n))) (by omega) (by omega)
                have passed : Carried c.reo.winSize (start + n) d (start + (n + 1)) []
                    (Reorder.giveUp f (amlReoEntryIndex d.reo (snAdd c.reo.ssn n))) := by
                  have same : (Reorder.giveUp f
                      (amlReoEntryIndex d.reo (snAdd c.reo.ssn n))).frames = d.frames := frames
                  apply Carried.giveUp same
                  rw [← index, ← delivered]
                  rfl
                exact ⟨_, passed.trans carried⟩
              · have here : n = e := by
                  rcases Nat.lt_or_eq_of_le n_le with later | here
                  · have passes := stops.passes n (by omega) later
                    exact absurd (verdict.trans passes) (by simp)
                  · exact here
                subst here
                simp only [under, decide_false, Bool.not_false, if_true]
                exact ⟨[], Carried.still _ frames delivered⟩

theorem amlReoShiftTo_carried {c : Ctx α} (shape : Shape c.reo)
    (placed : ∀ o skb, c.reo.held o = some skb → skb.sn.val = snAdd c.reo.ssn o) {start : Nat}
    (begins : start % 4096 = c.reo.ssn) {t e : Nat} (t_le : t ≤ 2047)
    (e_le : e ≤ max t c.reo.bufSize) (stops : StopsAt c.reo t e) :
    ∃ numbers, Carried c.reo.winSize start c (start + e) numbers
      (amlReoShiftTo c (snAdd c.reo.ssn t)) := by
  have buf_le := shape.buf_le
  have win_pos := shape.win_pos
  have looped := shiftLoop_carried shape placed begins t_le (by omega) stops (shiftFuel c.reo) 0
    (Swept.refl c) (Nat.zero_le e) (by rw [shiftFuel]; omega)
  have first : snAdd c.reo.ssn 0 = c.reo.ssn := by
    rw [snAdd, Nat.add_zero, Nat.mod_eq_of_lt shape.ssn_lt]
  rw [first] at looped
  obtain ⟨numbers, carried⟩ := looped
  exact ⟨numbers, carried.congr rfl rfl rfl rfl⟩

/-! ## The entry points -/

/-- The start of the window is where the numbers say. -/
def Session.StartsAt (reo : Session α) (start : Nat) : Prop := start % 4096 = reo.ssn

/-- What an entry point does: the window start moves on from `start`, past numbers close to it. -/
def Moves (start : Nat) (c d : Ctx α) : Prop :=
  ∃ stop numbers, Carried c.reo.winSize start c stop numbers d ∧
    (∀ m ∈ numbers, m < start + 4096) ∧ d.reo.StartsAt stop ∧ d.reo.winSize = c.reo.winSize

theorem Moves.still {start : Nat} {c d : Ctx α} (begins : c.reo.StartsAt start)
    (frames : d.frames = c.frames) (delivered : d.reo.delivered = c.reo.delivered)
    (ssn : d.reo.ssn = c.reo.ssn) (size : d.reo.winSize = c.reo.winSize) : Moves start c d := by
  refine ⟨start, [], Carried.still start frames delivered, List.forall_mem_nil _, ?_, size⟩
  rw [Session.StartsAt, ssn]
  exact begins

theorem bitmapClear_eq_true {map : Nat → Bool} {start n bit : Nat} :
    bitmapClear map start n bit = true ↔ ¬(start ≤ bit ∧ bit < start + n) ∧ map bit = true := by
  rw [bitmapClear]
  split_ifs with inside
  · simp [inside]
  · simp [inside]

/-- The slots from `first` up to `last` around a ring. -/
def Between (w first last slot : Nat) : Prop :=
  if first ≤ last then first ≤ slot ∧ slot < last else first ≤ slot ∧ slot < w ∨ slot < last

/-- What `aml_reo_reset_ssn` clears: every bit, or those of the numbers that are skipped. -/
theorem amlReoResetSsn_delivered {reo : Session α} (ssn slot : Nat) (slot_lt : slot < reo.winSize)
    (set : (amlReoResetSsn reo ssn).delivered slot = true) :
    reo.delivered slot = true ∧ snSub ssn reo.lsn < reo.winSize ∧
      ¬Between reo.winSize (amlReoEntryIndex reo reo.lsn) (amlReoEntryIndex reo ssn) slot := by
  simp only [amlReoResetSsn] at set
  rw [Between]
  split at set
  · rw [bitmapClear_eq_true] at set
    omega
  · rename_i near
    refine ⟨?_, Nat.lt_of_not_le near, ?_⟩
    all_goals
      split_ifs at set
      all_goals
        simp only [bitmapClear_eq_true] at set
        first
          | exact set.2.2
          | exact set.2
          | exact set
          | (split_ifs; all_goals omega)

theorem amlReoResetSsn_marked {reo : Session α} (shape : Shape reo) (empty : reo.lsn = reo.ssn)
    {start : Nat} (begins : reo.StartsAt start) {ssn : Nat} (ssn_lt : ssn < 4096)
    {numbers : List Nat} (marked : Marked reo.winSize start numbers reo.delivered) :
    Marked reo.winSize (unwrap start ssn) numbers (amlReoResetSsn reo ssn).delivered := by
  have lowered : Marked reo.winSize start numbers (amlReoResetSsn reo ssn).delivered :=
    marked.of_subset fun slot slot_lt set => (amlReoResetSsn_delivered ssn slot slot_lt set).1
  apply lowered.jump (le_unwrap start ssn)
  intro x above below recent
  by_contra set
  obtain ⟨-, near, outside⟩ := amlReoResetSsn_delivered ssn (x % reo.winSize)
    (Nat.mod_lt x shape.win_pos) (Bool.eq_true_of_not_eq_false set)
  -- The skipped numbers fill the slots from that of the old start up to that of the new one.
  have first : amlReoEntryIndex reo reo.lsn = start % reo.winSize := by
    rw [empty, ← begins, shape.index_unwrapped]
  have last : amlReoEntryIndex reo ssn = unwrap start ssn % reo.winSize := by
    rw [← shape.index_unwrapped, unwrap_mod ssn_lt]
  have width : unwrap start ssn = start + snSub ssn reo.lsn := by
    rw [empty, ← begins, unwrap, snSub, snSub, Nat.mod_mod]
  have start_slot := Nat.mod_lt start shape.win_pos
  obtain ⟨i, rfl⟩ := Nat.exists_eq_add_of_le above
  apply outside
  rw [first, last, width, Serial.slot_add near, Serial.slot_add (show i < reo.winSize by omega),
    Between]
  split_ifs
  all_goals omega

theorem Coherent.placed_at {reo : Session α} (coherent : Coherent reo) (o : Nat) (skb : Mpdu α)
    (held : reo.held o = some skb) : skb.sn.val = snAdd reo.ssn o :=
  (coherent.placed o skb held).1

/-- A block-ack request. -/
theorem amlReoForwardTo_moves {c : Ctx α} (coherent : Coherent c.reo) {start : Nat}
    (begins : c.reo.StartsAt start) {ssn : Nat} (ssn_lt : ssn < 4096) :
    Moves start c (amlReoForwardTo c ssn) := by
  have span := coherent.span
  have buf_le := coherent.buf_le
  rw [amlReoForwardTo]
  split
  · exact Moves.still begins rfl rfl rfl rfl
  · split
    · rename_i empty
      rw [Bool.not_eq_true', ← Bool.not_eq_true, amlReoHasBuffer_iff, not_not] at empty
      refine ⟨unwrap start ssn, [], ?_, List.forall_mem_nil _, unwrap_mod ssn_lt, rfl⟩
      exact {
        le := le_unwrap start ssn
        inside := fun m member => absurd member List.not_mem_nil
        frames := ⟨[], by rw [List.append_nil], rfl⟩
        marks := by
          intro before marked
          rw [List.append_nil]
          exact amlReoResetSsn_marked coherent.toShape empty begins ssn_lt marked }
    · split
      · rename_i behind
        rw [Bool.and_eq_true, Bool.not_eq_true', Bool.not_eq_true'] at behind
        rw [amlReoShiftTo_stay coherent behind.1]
        exact Moves.still begins rfl rfl rfl rfl
      · -- The window is flushed and moved.
        have shifted := amlReoShiftTo_flush coherent.toWindowed
        have flushed := coherent.toWindowed.flushed_after shifted
        have target : snInc c.reo.lsn = snAdd c.reo.ssn (snSub c.reo.lsn c.reo.ssn + 1) := by
          rw [coherent.lsn_eq, snInc_snAdd, ← coherent.lsn_eq]
        obtain ⟨numbers, carried⟩ := amlReoShiftTo_carried coherent.toShape coherent.placed_at
          begins (show snSub c.reo.lsn c.reo.ssn + 1 ≤ 2047 by omega) (Nat.le_max_left _ _)
          coherent.toWindowed.stopsAt_flush
        rw [← target] at carried
        have moved : (amlReoShiftTo c (snInc c.reo.lsn)).reo.StartsAt
            (start + (snSub c.reo.lsn c.reo.ssn + 1)) := by
          rw [Session.StartsAt, shifted.ssn, snAdd_unwrapped begins]
        refine ⟨unwrap (start + (snSub c.reo.lsn c.reo.ssn + 1)) ssn, numbers, ?_, ?_,
          unwrap_mod ssn_lt, shifted.winSize⟩
        · have further := le_unwrap (start + (snSub c.reo.lsn c.reo.ssn + 1)) ssn
          exact {
            le := carried.le.trans further
            inside := fun m member =>
              ⟨(carried.inside m member).1, (carried.inside m member).2.trans_le further⟩
            frames := carried.frames
            marks := by
              intro before marked
              have flushed_marks := carried.marks before marked
              rw [← shifted.winSize] at flushed_marks ⊢
              exact amlReoResetSsn_marked flushed.toShape flushed.lsn moved ssn_lt flushed_marks }
        · intro m member
          have := (carried.inside m member).2
          omega

/-- The aging timer. -/
theorem amlReoAging_moves (now : Jiffies) {c d : Ctx α} (coherent : Coherent c.reo) {start : Nat}
    (begins : c.reo.StartsAt start) (ran : amlReoAging now c = .ok d) : Moves start c d := by
  have still : Moves start c c := Moves.still begins rfl rfl rfl rfl
  rw [amlReoAging] at ran
  split at ran
  · rw [amlReoEntryAging] at ran
    split at ran
    · cases ran
    · split at ran
      · cases ran
        exact still
      · split at ran
        · cases ran
          exact Moves.still begins rfl rfl rfl rfl
        · rename_i target found
          split at ran
          · cases ran
          · cases ran
            obtain ⟨o, skb, held, target_eq⟩ := amlReoEntryExpiredLsn_some coherent.toShape found
            have o_le := (coherent.placed o skb held).2.2
            have span := coherent.span
            have buf_le := coherent.buf_le
            set counted : Ctx α := { c with
              reo := { c.reo with stats.timeout := c.reo.stats.timeout + 1 } } with counted_eq
            have same : SameWindow c counted :=
              ⟨⟨rfl, rfl, rfl, rfl, rfl, rfl, rfl, rfl⟩, rfl, rfl, rfl⟩
            have coherent' : Coherent counted.reo := same.coherent coherent
            obtain ⟨e, e_le, stops, shifted⟩ := amlReoShiftTo_shifted coherent'.toShape
              (fun i f at_i => (coherent'.placed i f at_i).2.2.trans_lt coherent'.span)
              (show o + 1 ≤ 2047 by omega)
            obtain ⟨numbers, carried⟩ := amlReoShiftTo_carried coherent'.toShape
              coherent'.placed_at (show start % 4096 = counted.reo.ssn from begins)
              (show o + 1 ≤ 2047 by omega) e_le stops
            have size : counted.reo.bufSize = c.reo.bufSize := rfl
            rw [target_eq]
            refine ⟨start + e, numbers, carried.congr rfl rfl rfl rfl, ?_, ?_, shifted.winSize⟩
            · intro m member
              have := (carried.inside m member).2
              omega
            · have landed := shifted.ssn
              rw [Session.StartsAt, ← snAdd_unwrapped begins e]
              exact landed.symm
  · cases ran
    exact still

/-- A move of the window start by at most `far`. -/
def MovesBy (far start : Nat) (c d : Ctx α) : Prop :=
  ∃ stop ≤ start + far, ∃ numbers, Carried c.reo.winSize start c stop numbers d ∧
    d.reo.StartsAt stop ∧ d.reo.winSize = c.reo.winSize

theorem MovesBy.still {far start : Nat} {c d : Ctx α} (begins : c.reo.StartsAt start)
    (frames : d.frames = c.frames) (delivered : d.reo.delivered = c.reo.delivered)
    (ssn : d.reo.ssn = c.reo.ssn) (size : d.reo.winSize = c.reo.winSize) :
    MovesBy far start c d := by
  refine ⟨start, Nat.le_add_right start far, [], Carried.still start frames delivered, ?_, size⟩
  rw [Session.StartsAt, ssn]
  exact begins

theorem MovesBy.moves {start : Nat} {c d : Ctx α} (moves : MovesBy 4095 start c d) :
    Moves start c d := by
  obtain ⟨stop, near, numbers, carried, lands, size⟩ := moves
  refine ⟨stop, numbers, carried, fun m member => ?_, lands, size⟩
  have := (carried.inside m member).2
  omega

theorem makeRoom_moves {c : Ctx α} (coherent : Coherent c.reo) {start : Nat}
    (begins : c.reo.StartsAt start) {sn : Nat} (ahead : snLess sn c.reo.ssn = false)
    (clear : ¬(c.reo.bufSize = 1 ∧ snSub sn c.reo.ssn = 2048)) :
    MovesBy 2047 start c (makeRoom c sn) := by
  rw [makeRoom, snLess_bufSize coherent.toShape ahead]
  split
  · rename_i outside
    rw [Bool.not_eq_true', decide_eq_false_iff_not] at outside
    rw [← Bool.not_eq_true, snLess_iff] at ahead
    have buf_pos := coherent.buf_pos
    have buf_le := coherent.buf_le
    have ssn_lt := coherent.ssn_lt
    obtain ⟨t, distance⟩ : ∃ t, snSub sn c.reo.ssn = t + (c.reo.bufSize - 1) :=
      ⟨_, (Nat.sub_add_cancel (by omega)).symm⟩
    have target : snSub sn (c.reo.bufSize - 1) = snAdd c.reo.ssn t := by
      simp only [snSub, snAdd] at distance ⊢
      omega
    set counted : Ctx α := { c with
      reo := { c.reo with stats.outWin := c.reo.stats.outWin + 1 } } with counted_eq
    have same : SameWindow c counted :=
      ⟨⟨rfl, rfl, rfl, rfl, rfl, rfl, rfl, rfl⟩, rfl, rfl, rfl⟩
    have coherent' : Coherent counted.reo := same.coherent coherent
    have t_le : t ≤ 2047 := by omega
    obtain ⟨e, e_le, stops, shifted⟩ := amlReoShiftTo_shifted coherent'.toShape
      (fun i f at_i => (coherent'.placed i f at_i).2.2.trans_lt coherent'.span) t_le
    obtain ⟨numbers, carried⟩ := amlReoShiftTo_carried coherent'.toShape coherent'.placed_at
      (show start % 4096 = counted.reo.ssn from begins) t_le e_le stops
    have size : counted.reo.bufSize = c.reo.bufSize := rfl
    rw [target]
    refine ⟨start + e, by omega, numbers, carried.congr rfl rfl rfl rfl, ?_, shifted.winSize⟩
    have landed := shifted.ssn
    rw [Session.StartsAt, ← snAdd_unwrapped begins e]
    exact landed.symm
  · exact MovesBy.still begins rfl rfl rfl rfl

theorem placeInWindow_moves (now : Jiffies) {c : Ctx α} (coherent : Coherent c.reo) {start : Nat}
    (begins : c.reo.StartsAt start) (skb : Mpdu α) :
    MovesBy 1025 start c (placeInWindow now c skb) := by
  simp only [placeInWindow]
  split
  · split
    · exact MovesBy.still begins rfl rfl rfl rfl
    · exact MovesBy.still begins rfl rfl rfl rfl
  · split
    · rename_i in_order
      have dequeued := amlReoDequeue_dequeued c skb (amlReoEntryIndex c.reo skb.sn)
      split
      · -- The frame is handed up, and those that follow it.
        rename_i m ran
        rw [ran] at dequeued
        obtain ⟨frames, delivered⟩ := amlReoDequeue_passed ran
        obtain ⟨e, stops, shifted, -⟩ := coherent.delivered_shifted in_order dequeued
        have shiftable := coherent.shiftable_delivered in_order dequeued
        have e_le := shiftable.stop_le_max stops
        have buf_le := shiftable.buf_le
        have sn : skb.sn.val = start % 4096 := by rw [in_order, begins]
        have next : snInc skb.sn = (start + 1) % 4096 := by
          rw [snInc, snAdd, sn, Nat.mod_add_mod]
        rw [sn, coherent.toShape.index_unwrapped] at delivered
        have up : Carried c.reo.winSize start c (start + 1) [start] (m.startAt (snInc skb.sn)) :=
          Carried.handUp sn frames delivered
        obtain ⟨numbers, carried⟩ := amlReoShiftTo_carried shiftable.toShape
          (fun o f held => (shiftable.placed o f held).1)
          (show (start + 1) % 4096 = (m.startAt (snInc skb.sn)).reo.ssn from next.symm)
          (Nat.zero_le 2047) e_le stops
        have size : (m.startAt (snInc skb.sn)).reo.winSize = c.reo.winSize := dequeued.winSize
        have from_next : snAdd (m.startAt (snInc skb.sn)).reo.ssn 0 = snInc skb.sn := by
          change snAdd (snInc skb.sn) 0 = _
          rw [next, snAdd, Nat.add_zero, Nat.mod_mod]
        rw [from_next, size] at carried
        refine ⟨start + 1 + e, by omega, _, up.trans carried, ?_, shifted.winSize.trans size⟩
        have landed : snAdd (snInc skb.sn) e = _ := shifted.ssn.symm
        rw [Session.StartsAt, ← landed, next, snAdd, Nat.mod_add_mod]
      · rename_i m ran
        rw [ran] at dequeued
        have dropped := amlReoDequeue_failed ran
        exact MovesBy.still begins dropped.1 dropped.2 dequeued.ssn dequeued.winSize
    · split
      · exact MovesBy.still begins rfl rfl rfl rfl
      · exact MovesBy.still begins rfl rfl rfl rfl

theorem enqueueInWindow_moves (now : Jiffies) {c : Ctx α} (coherent : Coherent c.reo) {start : Nat}
    (begins : c.reo.StartsAt start) (skb : Mpdu α)
    (clear : ¬(c.reo.bufSize = 1 ∧ snSub skb.sn c.reo.ssn = 2048)) :
    MovesBy 4095 start c (enqueueInWindow now c skb) := by
  rw [enqueueInWindow]
  split
  · refine MovesBy.still begins ?_ ?_ ?_ ?_
    all_goals
      simp only [dropStale, Ctx.amlMpduFree]
  · rename_i ahead
    rw [Bool.not_eq_true] at ahead
    obtain ⟨middle, near, numbers, carried, moved, size⟩ :=
        makeRoom_moves coherent begins ahead clear
    have roomy := makeRoom_roomy coherent ahead clear
    obtain ⟨stop, near', numbers', carried', moved', size'⟩ := placeInWindow_moves now
      roomy.coherent moved skb
    rw [size] at carried'
    exact ⟨stop, by omega, _, carried.trans carried', moved', size'.trans size⟩

/-! ## The first MPDU after a reset -/

theorem amlReoEnqueue_running (now : Jiffies) {c : Ctx α} (skb : Mpdu α)
    (running : c.reo.reset = false) :
    amlReoEnqueue now c skb =
      .ok (enqueueInWindow now { c with reo := { c.reo with stats.rx := c.reo.stats.rx + 1 } }
        skb) :=
  if_neg (by rw [running]; exact Bool.false_ne_true)

theorem amlReoEnqueue_pending (now : Jiffies) {c : Ctx α} (skb : Mpdu α)
    (pending : c.reo.reset = true) (empty : c.reo.lsn = c.reo.ssn) :
    amlReoEnqueue now c skb = .ok (enqueueInWindow now { c with reo := { c.reo with
      stats.rx := c.reo.stats.rx + 1
      reset := false
      ssn := skb.sn
      lsn := skb.sn } } skb) := by
  have free : ¬amlReoHasBuffer c.reo = true := by
    rw [amlReoHasBuffer_iff, not_not]
    exact empty
  exact (if_pos pending).trans (if_neg free)

/-- A shift to the start of a window whose first slot is empty. -/
theorem amlReoShiftTo_here {c : Ctx α}
    (empty : (c.reo.buf (amlReoEntryIndex c.reo c.reo.ssn)).skb = none) :
    (amlReoShiftTo c c.reo.ssn).frames = c.frames ∧
      (amlReoShiftTo c c.reo.ssn).reo.delivered = c.reo.delivered ∧
      (amlReoShiftTo c c.reo.ssn).reo.ssn = c.reo.ssn := by
  obtain ⟨fuel, enough⟩ : ∃ fuel, shiftFuel c.reo = fuel + 1 :=
    ⟨shiftFuel c.reo - 1, by rw [shiftFuel]; omega⟩
  have level : snLess c.reo.ssn c.reo.ssn = false := by
    rw [← Bool.not_eq_true, snLess_iff, snSub_self]
    omega
  simp only [amlReoShiftTo, enough, shiftLoop, shiftPass, popSlot, empty, level, Bool.not_false,
    if_true, shiftFinish, and_self]

/-- An MPDU at the start of an empty window is handed up if its packet number passes. -/
theorem enqueueInWindow_first (now : Jiffies) {c : Ctx α} (coherent : Coherent c.reo)
    (empty : c.reo.lsn = c.reo.ssn) {skb : Mpdu α} (sn : skb.sn.val = c.reo.ssn) :
    if (pnStep c.reo.pnState skb).2 then
      (enqueueInWindow now c skb).frames = c.frames ++ [skb] ∧
        (enqueueInWindow now c skb).reo.delivered =
          Function.update c.reo.delivered (amlReoEntryIndex c.reo c.reo.ssn) true ∧
        (enqueueInWindow now c skb).reo.ssn = snInc c.reo.ssn
    else
      (enqueueInWindow now c skb).frames = c.frames ∧
        (enqueueInWindow now c skb).reo.delivered = c.reo.delivered ∧
        (enqueueInWindow now c skb).reo.ssn = c.reo.ssn := by
  have level : snLess c.reo.ssn c.reo.ssn = false := by
    rw [← Bool.not_eq_true, snLess_iff, snSub_self]
    omega
  have room : makeRoom c skb.sn = c := by
    rw [makeRoom, sn, snLess_bufSize coherent.toShape level, snSub_self,
      decide_eq_true coherent.buf_pos, Bool.not_true, if_neg Bool.false_ne_true]
  have vacant : ∀ o, (c.reo.buf (amlReoEntryIndex c.reo (snAdd c.reo.ssn o))).skb = none := by
    intro o
    rw [coherent.toShape.skb_eq_held, coherent.held_eq_none empty]
  have first := vacant 0
  rw [snAdd, Nat.add_zero, Nat.mod_eq_of_lt coherent.ssn_lt] at first
  have verdict := (amlReoDequeue_dequeued c skb (amlReoEntryIndex c.reo c.reo.ssn)).passed
  rw [enqueueInWindow, room, sn, level, if_neg Bool.false_ne_true]
  simp only [placeInWindow, sn, first, if_true]
  cases ran : amlReoDequeue c skb (amlReoEntryIndex c.reo c.reo.ssn) with
  | mk m passed =>
      have dequeued := amlReoDequeue_dequeued c skb (amlReoEntryIndex c.reo c.reo.ssn)
      rw [ran] at verdict dequeued
      rw [← verdict]
      cases passed with
      | true =>
          obtain ⟨frames, delivered⟩ := amlReoDequeue_passed ran
          have next : ((m.startAt (snInc c.reo.ssn)).reo.buf
              (amlReoEntryIndex (m.startAt (snInc c.reo.ssn)).reo
                (m.startAt (snInc c.reo.ssn)).reo.ssn)).skb = none := by
            have size : m.reo.winSize = c.reo.winSize := dequeued.winSize
            have slots : m.reo.buf = c.reo.buf := dequeued.buf
            have at_next := vacant 1
            rw [amlReoEntryIndex, ← size, ← amlReoEntryIndex, ← slots] at at_next
            exact at_next
          obtain ⟨frames', delivered', ssn'⟩ := amlReoShiftTo_here next
          simp only [if_true]
          exact ⟨frames'.trans frames, delivered'.trans delivered, ssn'⟩
      | false =>
          have dropped := amlReoDequeue_failed ran
          simp only [Bool.false_eq_true, if_false]
          exact ⟨dropped.1, dropped.2, dequeued.ssn⟩

/-- A stale MPDU that is counted as a duplicate. -/
theorem dropStale_dup {c : Ctx α} {skb : Mpdu α}
    (counted : (dropStale c skb).reo.stats.dup ≠ c.reo.stats.dup) :
    c.reo.delivered (amlReoEntryIndex c.reo skb.sn) = true ∧
      snSub c.reo.ssn skb.sn ≤ c.reo.winSize := by
  simp only [dropStale, Ctx.amlMpduFree] at counted
  split at counted
  · rename_i dup
    rw [Bool.and_eq_true, decide_eq_true_iff] at dup
    exact dup
  · exact absurd rfl counted

/-! ## Runs -/

/-- A session with what it handed up so far, by numbers that do not wrap, and the number its window
starts at. -/
structure Passing (α : Type*) where
  advance : Nat
  handedUp : List Nat
  place : Endpoint α

namespace Passing

/-- Where the window starts when an event begins: the first MPDU after a reset moves it on. -/
def start (n : Passing α) (reo : Session α) : Event α → Nat
  | .enqueue _ skb => if reo.reset then unwrap n.advance skb.sn else n.advance
  | _ => n.advance

/-- The window start has moved past what was handed up and on to where the session has it. -/
def record (n : Passing α) (start : Nat) (place : Endpoint α) : Passing α :=
  let numbers := (place.frames.drop n.place.frames.length).map fun skb => unwrap start skb.sn
  let reached := numbers.foldl (fun reached m => max reached (m + 1)) start
  { advance :=
      match place.reo with
      | some reo => unwrap reached reo.ssn
      | none => reached
    handedUp := n.handedUp ++ numbers
    place }

/-- One event of a run. -/
def step (n : Passing α) (event : Event α) : Except Fault (Passing α) :=
  match n.place.reo with
  | none => .ok n
  | some reo => (n.place.step event).map (n.record (n.start reo event))

/-- Of the numbers just below the window start, as many as there are slots, only those whose MPDU
was handed up when the window start passed them have their bit set; a stale MPDU is counted as a
duplicate only where one of its number was handed up. -/
structure Sound (n : Passing α) : Prop where
  bits : ∀ reo, n.place.reo = some reo → ∀ k, 1 ≤ k → k ≤ reo.winSize →
    reo.delivered (amlReoEntryIndex reo (snSub reo.ssn k)) = true →
      ∃ m ∈ n.handedUp, m + k = n.advance
  duplicate : ∀ reo, n.place.reo = some reo → ∀ skb : Mpdu α, snLess skb.sn reo.ssn = true →
    (dropStale (n.place.ctx reo) skb).reo.stats.dup ≠ reo.stats.dup →
      ∃ frame ∈ n.place.frames, frame.sn = skb.sn

/-- The MPDU that ends a reset finds the bits of the numbers it skips clear, of those just below it
as many as there are slots; only its own slot may be set when its packet number passes. -/
def SkipsClear (n : Passing α) : Event α → Prop
  | .enqueue _ skb => ∀ reo, n.place.reo = some reo → reo.reset = true → ∀ k, 1 ≤ k →
      k ≤ reo.winSize → k ≤ snSub skb.sn reo.ssn →
        reo.delivered (amlReoEntryIndex reo (snSub skb.sn k)) = true →
          k = reo.winSize ∧ (pnStep reo.pnState skb).2 = true
  | _ => True

/-- What holds of the session between events. -/
structure Tracked (n : Passing α) (reo : Session α) : Prop where
  begins : reo.StartsAt n.advance
  past : ∀ m ∈ n.handedUp, m < n.advance
  sns : n.handedUp.map (· % 4096) = n.place.frames.map fun skb => skb.sn.val
  marked : Marked reo.winSize n.advance n.handedUp reo.delivered

end Passing

theorem foldl_max_spec (numbers : List Nat) (start : Nat) :
    start ≤ numbers.foldl (fun reached m => max reached (m + 1)) start ∧
      (∀ m ∈ numbers, m < numbers.foldl (fun reached m => max reached (m + 1)) start) ∧
      ∀ stop, start ≤ stop → (∀ m ∈ numbers, m < stop) →
        numbers.foldl (fun reached m => max reached (m + 1)) start ≤ stop := by
  induction numbers generalizing start with
  | nil => exact ⟨Nat.le_refl _, List.forall_mem_nil _, fun stop le _ => le⟩
  | cons m numbers induction =>
      obtain ⟨least, above, most⟩ := induction (max start (m + 1))
      refine ⟨by simp only [List.foldl_cons]; omega, ?_, ?_⟩
      · rintro x (_ | ⟨_, member⟩)
        · simp only [List.foldl_cons]
          omega
        · exact above x member
      · intro stop le below
        have := below m List.mem_cons_self
        exact most stop (by omega) fun x member => below x (List.mem_cons_of_mem m member)

namespace Passing

variable {n : Passing α} {reo : Session α}

/-- The numbers handed up are recorded as they are, and the window start is recorded past them, at
most whole rounds behind the one it reached. -/
structure Recorded (n : Passing α) (start stop : Nat) (numbers : List Nat) (n' : Passing α) :
    Prop where
  handedUp : n'.handedUp = n.handedUp ++ numbers
  least : start ≤ n'.advance
  past : ∀ m ∈ numbers, m < n'.advance
  behind : n'.advance ≤ stop
  rounds : n'.advance % 4096 = stop % 4096
  close : stop < start + 4096 → n'.advance = stop

theorem record_recorded {start stop : Nat} {numbers : List Nat} {up : List (Mpdu α)}
    {place : Endpoint α} {after : Session α}
    (present : place.reo = some after) (frames : place.frames = n.place.frames ++ up)
    (sns : up.map (fun skb => skb.sn.val) = numbers.map (· % 4096))
    (le : start ≤ stop) (inside : ∀ m ∈ numbers, start ≤ m ∧ m < stop)
    (near : ∀ m ∈ numbers, m < start + 4096) (lands : after.StartsAt stop) :
    Recorded n start stop numbers (n.record start place) := by
  have recorded : (place.frames.drop n.place.frames.length).map (fun skb => unwrap start skb.sn) =
      numbers := by
    rw [frames, List.drop_left]
    have unwrapped := congrArg (List.map (unwrap start)) sns
    rw [List.map_map, List.map_map] at unwrapped
    refine unwrapped.trans ?_
    conv_rhs => rw [← List.map_id numbers]
    apply List.map_congr_left
    intro m member
    exact unwrap_eq (inside m member).1 (near m member)
  obtain ⟨least, above, most⟩ := foldl_max_spec numbers start
  have reached_le := most stop le fun m member => (inside m member).2
  generalize reached_eq :
    numbers.foldl (fun reached m => max reached (m + 1)) start = reached at *
  have ssn : after.ssn = stop % 4096 := lands.symm
  have advance : (n.record start place).advance = unwrap reached (stop % 4096) := by
    simp only [Passing.record, recorded, present, reached_eq, ssn]
  have further := le_unwrap reached (stop % 4096)
  refine ⟨?_, ?_, ?_, ?_, ?_, ?_⟩
  · simp only [Passing.record, recorded]
  · omega
  · intro m member
    have := above m member
    omega
  · rw [advance, unwrap, snSub]
    omega
  · rw [advance]
    exact unwrap_mod (Nat.mod_lt stop (by omega))
  · intro close
    rw [advance]
    exact unwrap_eq reached_le (by omega)

theorem Tracked.record {start stop : Nat} {numbers : List Nat} {up : List (Mpdu α)}
    {place : Endpoint α} {after : Session α} (tracked : n.Tracked reo)
    (present : place.reo = some after) (frames : place.frames = n.place.frames ++ up)
    (sns : up.map (fun skb => skb.sn.val) = numbers.map (· % 4096)) (later : n.advance ≤ start)
    (le : start ≤ stop) (inside : ∀ m ∈ numbers, start ≤ m ∧ m < stop)
    (near : ∀ m ∈ numbers, m < start + 4096) (lands : after.StartsAt stop)
    (win_le : after.winSize ≤ 4096)
    (marked : Marked after.winSize stop (n.handedUp ++ numbers) after.delivered) :
    (n.record start place).Tracked after := by
  have recorded := record_recorded present frames sns le inside near lands
  have past : ∀ m ∈ n.handedUp ++ numbers, m < (n.record start place).advance := by
    intro m member
    rcases List.mem_append.mp member with earlier | now
    · have := tracked.past m earlier
      have := recorded.least
      omega
    · exact recorded.past m now
  refine ⟨?_, ?_, ?_, ?_⟩
  · rw [Session.StartsAt, recorded.rounds]
    exact lands
  · rw [recorded.handedUp]
    exact past
  · change (n.record start place).handedUp.map (· % 4096) = place.frames.map _
    rw [recorded.handedUp, frames, List.map_append, List.map_append, tracked.sns, sns]
  · rw [recorded.handedUp]
    exact marked.round win_le recorded.behind recorded.rounds past

/-- A move of the window start without a jump. -/
theorem Tracked.moves {d : Ctx α} {place : Endpoint α} (tracked : n.Tracked reo)
    (live : place.reo = some d.reo) (frames : place.frames = d.frames)
    (win_le : reo.winSize ≤ 4096) (moves : Moves n.advance (n.place.ctx reo) d) :
    (n.record n.advance place).Tracked d.reo := by
  obtain ⟨stop, numbers, carried, near, lands, (size : d.reo.winSize = reo.winSize)⟩ := moves
  obtain ⟨up, handed, sns⟩ := carried.frames
  exact tracked.record live (frames.trans handed) sns (Nat.le_refl _) carried.le carried.inside near
    lands (size ▸ win_le) (size ▸ carried.marks _ tracked.marked)

theorem Tracked.sound (shape : Shape reo) (present : n.place.reo = some reo)
    (tracked : n.Tracked reo) : n.Sound := by
  have ssn_lt := shape.ssn_lt
  have bits : ∀ k, 1 ≤ k → k ≤ reo.winSize →
      reo.delivered (amlReoEntryIndex reo (snSub reo.ssn k)) = true →
        ∃ m ∈ n.handedUp, m + k = n.advance := by
    intro k k_pos k_le set
    have win_le := shape.win_le
    obtain ⟨m, member, before, recent, slot⟩ := tracked.marked _ (shape.index_lt _) set
    refine ⟨m, member, ?_⟩
    have apart : (m + k) % reo.winSize = n.advance % reo.winSize := by
      have around : (snSub reo.ssn k + k) % 4096 = n.advance % 4096 := by
        rw [← tracked.begins, snSub]
        omega
      rw [shape.index_eq] at slot
      rw [← Nat.mod_add_mod, slot, Nat.mod_add_mod, ← Serial.slot_mod shape.win_dvd, around,
        Serial.slot_mod shape.win_dvd]
    rcases Nat.le_total n.advance (m + k) with le | le
    · have whole := (Nat.modEq_iff_dvd' le).mp apart.symm
      have := Nat.eq_zero_of_dvd_of_lt whole (by omega)
      omega
    · have whole := (Nat.modEq_iff_dvd' le).mp apart
      have := Nat.eq_zero_of_dvd_of_lt whole (by omega)
      omega
  refine ⟨fun reo' same => ?_, fun reo' same skb behind counted => ?_⟩
  · obtain rfl : reo = reo' := Option.some.inj (present.symm.trans same)
    exact bits
  · obtain rfl : reo = reo' := Option.some.inj (present.symm.trans same)
    have sn_lt := skb.sn.isLt
    have dup := dropStale_dup (c := n.place.ctx reo) counted
    rw [show (n.place.ctx reo).reo = reo from rfl] at dup
    have back : snSub reo.ssn (snSub reo.ssn skb.sn) = skb.sn := by
      simp only [snSub]
      omega
    obtain ⟨m, member, distance⟩ := bits (snSub reo.ssn skb.sn)
      (by rw [snLess_iff] at behind; simp only [snSub] at behind ⊢; omega) dup.2
      (by rw [back]; exact dup.1)
    have number : m % 4096 ∈ n.place.frames.map fun frame => frame.sn.val := by
      rw [← tracked.sns]
      exact List.mem_map_of_mem member
    obtain ⟨frame, handed, sn⟩ := List.mem_map.mp number
    refine ⟨frame, handed, Fin.ext ?_⟩
    have begins := tracked.begins
    rw [sn]
    rw [Session.StartsAt] at begins
    simp only [snSub] at distance
    omega

theorem Shape.index_back (shape : Shape reo) {x k start : Nat} (sum : x + k = start) :
    amlReoEntryIndex reo (snSub (start % 4096) k) = x % reo.winSize := by
  have number : snSub (start % 4096) k = x % 4096 := by
    simp only [snSub]
    omega
  rw [number, shape.index_unwrapped]

/-- The numbers that are skipped, counted from the old window start. -/
theorem Tracked.skipsClear_iff (tracked : n.Tracked reo) (shape : Shape reo) (now : Jiffies)
    (skb : Mpdu α) (pending : reo.reset = true) (present : n.place.reo = some reo) :
    n.SkipsClear (.enqueue now skb) ↔
      ∀ x k, x + k = unwrap n.advance skb.sn → 1 ≤ k → k ≤ reo.winSize → n.advance ≤ x →
        reo.delivered (x % reo.winSize) = true →
          k = reo.winSize ∧ (pnStep reo.pnState skb).2 = true := by
  have width : unwrap n.advance skb.sn = n.advance + snSub skb.sn reo.ssn := by
    rw [← tracked.begins, unwrap, snSub, snSub, Nat.mod_mod]
  have slot : ∀ x k, x + k = unwrap n.advance skb.sn →
      amlReoEntryIndex reo (snSub skb.sn k) = x % reo.winSize := by
    intro x k sum
    have start_mod : unwrap n.advance skb.sn % 4096 = skb.sn.val := unwrap_mod skb.sn.isLt
    rw [← start_mod, Shape.index_back shape sum]
  constructor
  · intro clear x k sum k_pos k_le above set
    exact clear reo present pending k k_pos k_le (by omega) (by rw [slot x k sum]; exact set)
  · intro clear reo' same _ k k_pos k_le near set
    obtain rfl : reo = reo' := Option.some.inj (present.symm.trans same)
    rw [slot (unwrap n.advance skb.sn - k) k (by omega)] at set
    exact clear (unwrap n.advance skb.sn - k) k (by omega) k_pos k_le (by omega) set

/-- The first MPDU after a reset is alone in a window that starts at its number. -/
theorem enqueueInWindow_opened (now : Jiffies) {skb : Mpdu α} {c : Ctx α}
    (settled : Reorder.Settled reo) (pending : reo.reset = true)
    (opened : c = { n.place.ctx reo with reo := { reo with
      stats.rx := reo.stats.rx + 1
      reset := false
      ssn := skb.sn
      lsn := skb.sn } }) :
    if (pnStep reo.pnState skb).2 then
      (enqueueInWindow now c skb).frames = n.place.frames ++ [skb] ∧
        (enqueueInWindow now c skb).reo.delivered =
          Function.update reo.delivered (unwrap n.advance skb.sn % reo.winSize) true ∧
        (enqueueInWindow now c skb).reo.ssn = snInc skb.sn
    else
      (enqueueInWindow now c skb).frames = n.place.frames ∧
        (enqueueInWindow now c skb).reo.delivered = reo.delivered ∧
        (enqueueInWindow now c skb).reo.ssn = skb.sn := by
  have coherent : Coherent c.reo := by
    have opened' : Opened (n.place.ctx reo) skb c :=
      .reset pending (settled.reset pending) opened
    exact opened'.coherent settled.toCoherent
  have here : amlReoEntryIndex c.reo c.reo.ssn = unwrap n.advance skb.sn % reo.winSize := by
    have index := settled.toShape.index_unwrapped (unwrap n.advance skb.sn)
    rw [unwrap_mod skb.sn.isLt] at index
    rw [← index, opened]
    rfl
  have first := enqueueInWindow_first now coherent (by rw [opened]) (show skb.sn.val = c.reo.ssn by
    rw [opened])
  have state : c.reo.pnState = reo.pnState := by
    rw [opened]
    rfl
  have bits : c.reo.delivered = reo.delivered := by rw [opened]
  have frames : c.frames = n.place.frames := by
    rw [opened]
    rfl
  have ssn : c.reo.ssn = skb.sn.val := by rw [opened]
  rwa [state, here, bits, frames, ssn] at first

/-- A bit just below the window start whose number was skipped makes the bits unsound. -/
theorem Recorded.not_sound {start stop x k : Nat} {numbers : List Nat} {n' : Passing α}
    {after : Session α} (recorded : Recorded n start stop numbers n') (tracked : n.Tracked reo)
    (close : stop < start + 4096) (live : n'.place.reo = some after) (lands : after.StartsAt stop)
    (shape : Shape reo) (size : after.winSize = reo.winSize) (sum : x + k = stop) (k_pos : 1 ≤ k)
    (k_le : k ≤ reo.winSize) (above : n.advance ≤ x) (skipped : x ∉ numbers)
    (set : after.delivered (x % reo.winSize) = true) : ¬n'.Sound := by
  intro sound
  have still : after.delivered (amlReoEntryIndex after (snSub after.ssn k)) = true := by
    rw [← lands, amlReoEntryIndex, size, ← amlReoEntryIndex, Shape.index_back shape sum]
    exact set
  obtain ⟨m, member, distance⟩ := sound.bits after live k k_pos (by omega) still
  rw [recorded.close close] at distance
  obtain rfl : m = x := by omega
  rw [recorded.handedUp] at member
  rcases List.mem_append.mp member with earlier | now
  · have := tracked.past m earlier
    omega
  · exact skipped now

/-- The first MPDU after a reset leaves the session tracked if it skips clear bits, and the bits
unsound if it does not. -/
theorem Tracked.first (now : Jiffies) {skb : Mpdu α} {c : Ctx α}
    (tracked : n.Tracked reo) (settled : Reorder.Settled reo) (pending : reo.reset = true)
    (present : n.place.reo = some reo)
    (opened : c = { n.place.ctx reo with reo := { reo with
      stats.rx := reo.stats.rx + 1
      reset := false
      ssn := skb.sn
      lsn := skb.sn } })
    (before : Endpoint α) (size : (enqueueInWindow now c skb).reo.winSize = reo.winSize) :
    (n.SkipsClear (.enqueue now skb) → (n.record (unwrap n.advance skb.sn)
        (before.live (enqueueInWindow now c skb))).Tracked (enqueueInWindow now c skb).reo) ∧
      (¬n.SkipsClear (.enqueue now skb) → ¬(n.record (unwrap n.advance skb.sn)
        (before.live (enqueueInWindow now c skb))).Sound) := by
  have live : (before.live (enqueueInWindow now c skb)).reo =
      some (enqueueInWindow now c skb).reo := rfl
  have handed : (before.live (enqueueInWindow now c skb)).frames =
      (enqueueInWindow now c skb).frames := rfl
  generalize before.live (enqueueInWindow now c skb) = place at *
  have shape := settled.toShape
  have win_le := shape.win_le
  have first := enqueueInWindow_opened (n := n) now settled pending opened
  have further := le_unwrap n.advance skb.sn
  have start_mod : unwrap n.advance skb.sn % 4096 = skb.sn.val := unwrap_mod skb.sn.isLt
  rw [tracked.skipsClear_iff shape now skb pending present]
  generalize unwrap n.advance skb.sn = start at *
  cases passes : (pnStep reo.pnState skb).2 with
  | true =>
      rw [passes, if_pos rfl] at first
      obtain ⟨up, set, lands⟩ := first
      have sns : [skb].map (fun f => f.sn.val) = [start].map (· % 4096) := by
        rw [List.map_singleton, List.map_singleton, start_mod]
      have inside : ∀ m ∈ [start], start ≤ m ∧ m < start + 1 := by simp
      have near : ∀ m ∈ [start], m < start + 4096 := by simp
      have landed : (enqueueInWindow now c skb).reo.StartsAt (start + 1) := by
        rw [Session.StartsAt, lands, snInc, snAdd, ← start_mod, Nat.mod_add_mod]
      have stays := handed.trans up
      constructor
      · intro clear
        apply tracked.record live stays sns further (Nat.le_succ start) inside near landed
          (size ▸ win_le)
        -- The slot of the first MPDU is set anew, so only the others matter.
        have lowered : Marked reo.winSize n.advance n.handedUp
            (Function.update reo.delivered (start % reo.winSize) false) := by
          apply tracked.marked.of_subset
          intro at_slot _ still
          rcases eq_or_ne at_slot (start % reo.winSize) with rfl | other
          · rw [Function.update_self] at still
            cases still
          · rwa [Function.update_of_ne other] at still
        have jumped : Marked reo.winSize start n.handedUp
            (Function.update reo.delivered (start % reo.winSize) false) := by
          apply lowered.jump further
          intro x above below recent
          rcases eq_or_ne (x % reo.winSize) (start % reo.winSize) with same | other
          · rw [same, Function.update_self]
          · rw [Function.update_of_ne other]
            by_contra still
            obtain ⟨k_eq, -⟩ := clear x (start - x) (by omega) (by omega) (by omega) above
              (Bool.eq_true_of_not_eq_false still)
            have round : start = x + reo.winSize := by omega
            rw [round, Nat.add_mod_right] at other
            exact other rfl
        have passed := jumped.pass_set
        rwa [Function.update_idem, ← set, ← size] at passed
      · intro unclear
        have recorded := record_recorded live stays sns (Nat.le_succ start) inside near landed
        push Not at unclear
        obtain ⟨x, k, sum, k_pos, k_le, above, set', exact_at⟩ := unclear
        have k_lt : k < reo.winSize :=
          Nat.lt_of_le_of_ne k_le fun same => exact_at same rfl
        have other : x % reo.winSize ≠ start % reo.winSize := by
          intro same
          have whole := (Nat.modEq_iff_dvd' (show x ≤ start by omega)).mp same
          have := Nat.le_of_dvd (by omega) whole
          omega
        have still : (enqueueInWindow now c skb).reo.delivered (x % reo.winSize) = true := by
          rw [set, Function.update_of_ne other]
          exact set'
        have skipped : x ∉ [start] := fun member => other (List.mem_singleton.mp member ▸ rfl)
        exact recorded.not_sound tracked (by omega) live landed shape size
          (show x + (k + 1) = start + 1 by omega) (by omega) k_lt above skipped still
  | false =>
      rw [passes, if_neg Bool.false_ne_true] at first
      obtain ⟨up, set, lands⟩ := first
      have stays : place.frames = n.place.frames ++ [] := by
        rw [handed, up, List.append_nil]
      have landed : (enqueueInWindow now c skb).reo.StartsAt start := by
        rw [Session.StartsAt, lands, start_mod]
      have none : ([] : List (Mpdu α)).map (fun f => f.sn.val) = [].map (· % 4096) := rfl
      constructor
      · intro clear
        apply tracked.record live stays none further (Nat.le_refl start)
          (List.forall_mem_nil _) (List.forall_mem_nil _) landed (size ▸ win_le)
        rw [List.append_nil, set, size]
        apply tracked.marked.jump further
        intro x above below recent
        by_contra still
        have failed := (clear x (start - x) (by omega) (by omega) (by omega) above
          (Bool.eq_true_of_not_eq_false still)).2
        cases failed
      · intro unclear
        have recorded := record_recorded live stays none (Nat.le_refl start)
          (List.forall_mem_nil _) (List.forall_mem_nil _) landed
        push Not at unclear
        obtain ⟨x, k, sum, k_pos, k_le, above, set', -⟩ := unclear
        exact recorded.not_sound tracked (by omega) live landed shape size sum k_pos k_le above
          List.not_mem_nil (by rw [set]; exact set')

/-- A settled session, tracked by its numbers. -/
structure Kept (n : Passing α) : Prop where
  settled : n.place.Settled
  tracked : ∀ reo, n.place.reo = some reo → n.Tracked reo

/-- No MPDU is at the blind spot of a window of one slot. -/
def OffBlindSpot (n : Passing α) (event : Event α) : Prop := Reorder.OffBlindSpot n.place event

theorem Kept.sound (kept : n.Kept) : n.Sound := by
  cases present : n.place.reo with
  | none =>
      constructor
      all_goals
        intro reo gone
        rw [present] at gone
        cases gone
  | some reo =>
      exact (kept.tracked reo present).sound (kept.settled reo present).toShape present

theorem Tracked.kept {d : Ctx α} {place : Endpoint α} {start : Nat}
    (settled : place.Settled) (live : place.reo = some d.reo)
    (tracked : (n.record start place).Tracked d.reo) : (n.record start place).Kept := by
  refine ⟨settled, fun reo' same => ?_⟩
  obtain rfl : d.reo = reo' := Option.some.inj (live.symm.trans same)
  exact tracked

/-- An MPDU keeps the session tracked, unless it ends a reset and skips bits that are set. -/
theorem Tracked.enqueue (tracked : n.Tracked reo) (settled : Reorder.Settled reo)
    (present : n.place.reo = some reo) {now : Jiffies} {skb : Mpdu α} {d : Ctx α}
    (off : n.OffBlindSpot (.enqueue now skb))
    (enqueued : amlReoEnqueue now (n.place.ctx reo) skb = .ok d)
    (after : (({ n.place with handed := n.place.handed ++ [skb] } : Endpoint α).live d).Settled) :
    (n.SkipsClear (.enqueue now skb) → (n.record (n.start reo (.enqueue now skb))
        (({ n.place with handed := n.place.handed ++ [skb] } : Endpoint α).live d)).Kept) ∧
      (¬n.SkipsClear (.enqueue now skb) → ¬(n.record (n.start reo (.enqueue now skb))
        (({ n.place with handed := n.place.handed ++ [skb] } : Endpoint α).live d)).Sound) := by
  have win_le := settled.toShape.win_le
  cases pending : reo.reset with
  | false =>
      have clear : n.SkipsClear (.enqueue now skb) := by
        intro reo' same on
        obtain rfl : reo = reo' := Option.some.inj (present.symm.trans same)
        rw [pending] at on
        cases on
      refine ⟨fun _ => ?_, fun unclear => absurd clear unclear⟩
      rw [amlReoEnqueue_running now skb (c := n.place.ctx reo) pending] at enqueued
      obtain rfl := Except.ok.inj enqueued
      set c : Ctx α := { n.place.ctx reo with
        reo := { (n.place.ctx reo).reo with
          stats.rx := (n.place.ctx reo).reo.stats.rx + 1 } } with c_eq
      have same : SameWindow (n.place.ctx reo) c :=
        ⟨⟨rfl, rfl, rfl, rfl, rfl, rfl, rfl, rfl⟩, rfl, rfl, rfl⟩
      have moves := enqueueInWindow_moves now (same.coherent settled.toCoherent)
        (show c.reo.StartsAt n.advance from tracked.begins) skb
        fun spot => off reo present ⟨pending, spot⟩
      obtain ⟨stop, numbers, carried, near, lands, size⟩ := moves.moves
      have begins : n.start reo (.enqueue now skb) = n.advance := by
        rw [Passing.start, pending, if_neg Bool.false_ne_true]
      rw [begins]
      exact Tracked.kept after rfl (tracked.moves rfl rfl win_le
        ⟨stop, numbers, carried.congr rfl rfl rfl rfl, near, lands, size⟩)
  | true =>
      have empty := settled.reset pending
      have begins : n.start reo (.enqueue now skb) = unwrap n.advance skb.sn := by
        rw [Passing.start, pending, if_pos rfl]
      rw [amlReoEnqueue_pending now skb (c := n.place.ctx reo) pending empty] at enqueued
      obtain rfl := Except.ok.inj enqueued
      set c : Ctx α := { n.place.ctx reo with reo := { (n.place.ctx reo).reo with
        stats.rx := (n.place.ctx reo).reo.stats.rx + 1
        reset := false
        ssn := skb.sn
        lsn := skb.sn } } with c_eq
      have opened : Opened (n.place.ctx reo) skb c := .reset pending empty rfl
      have spotless : ¬(c.reo.bufSize = 1 ∧ snSub skb.sn c.reo.ssn = 2048) := by
        rintro ⟨-, distance⟩
        rw [show c.reo.ssn = skb.sn.val from rfl, snSub_self] at distance
        cases distance
      have begun : c.reo.StartsAt (unwrap n.advance skb.sn) := unwrap_mod skb.sn.isLt
      obtain ⟨_, _, _, _, _, size⟩ := enqueueInWindow_moves now
        (opened.coherent settled.toCoherent) begun skb spotless
      rw [begins]
      have first := tracked.first now settled pending present c_eq
        { n.place with handed := n.place.handed ++ [skb] } size
      exact ⟨fun clear => Tracked.kept after rfl (first.1 clear), first.2⟩

/-- A step off the blind spot keeps the session tracked, unless it ends a reset and skips bits that
are set, which leaves them unsound. -/
theorem Kept.step (kept : n.Kept) {event : Event α} (off : n.OffBlindSpot event) :
    ∃ next, n.step event = .ok next ∧
      (n.SkipsClear event → next.Kept) ∧ (¬n.SkipsClear event → ¬next.Sound) := by
  cases present : n.place.reo with
  | none =>
      refine ⟨n, by rw [Passing.step, present], fun _ => kept, fun unclear => absurd ?_ unclear⟩
      cases event with
      | enqueue now skb =>
          intro reo gone
          rw [present] at gone
          cases gone
      | bar | aging | resetAll | addkey | release => trivial
  | some reo =>
      have settled := kept.settled reo present
      have tracked := kept.tracked reo present
      have win_le := settled.toShape.win_le
      obtain ⟨place, ran, stepped⟩ := Endpoint.step_stepped present settled off
      have after := stepped.settled settled
      refine ⟨n.record (n.start reo event) place, by rw [Passing.step, present, ran]; rfl, ?_⟩
      rw [Endpoint.step, present] at ran
      cases event with
      | enqueue now skb =>
          obtain ⟨d, enqueued, rfl⟩ := Run.map_eq_ok ran
          exact tracked.enqueue settled present off enqueued after
      | bar ssn =>
          cases ran
          exact ⟨fun _ => Tracked.kept after rfl (tracked.moves rfl rfl win_le
            (amlReoForwardTo_moves (c := n.place.ctx reo) settled.toCoherent tracked.begins
              ssn.isLt)),
            fun unclear => absurd trivial unclear⟩
      | aging now =>
          obtain ⟨d, aged, rfl⟩ := Run.map_eq_ok ran
          exact ⟨fun _ => Tracked.kept after rfl (tracked.moves rfl rfl win_le
            (amlReoAging_moves now (c := n.place.ctx reo) settled.toCoherent tracked.begins aged)),
            fun unclear => absurd trivial unclear⟩
      | resetAll =>
          cases ran
          have pending : Coherent { reo with reset := true } :=
            settled.toCoherent.of_held rfl rfl rfl rfl rfl rfl rfl
          obtain ⟨stop, numbers, carried, near, lands, size⟩ := amlReoForwardTo_moves
            (c := n.place.ctx { reo with reset := true }) pending
            (show Session.StartsAt { reo with reset := true } n.advance from tracked.begins)
            settled.lsn_lt
          exact ⟨fun _ => Tracked.kept after rfl (tracked.moves rfl rfl win_le
            ⟨stop, numbers, carried.congr rfl rfl rfl rfl, near, lands, size⟩),
            fun unclear => absurd trivial unclear⟩
      | addkey =>
          cases ran
          exact ⟨fun _ =>
            Tracked.kept after rfl (tracked.moves (d := n.place.ctx (amlReoStaAddkey reo))
            rfl rfl win_le (Moves.still tracked.begins rfl rfl rfl rfl)),
            fun unclear => absurd trivial unclear⟩
      | release =>
          cases ran
          refine ⟨fun _ => ⟨after, fun reo' gone => ?_⟩, fun unclear => absurd trivial unclear⟩
          cases gone

/-- A session before its first event. -/
def fresh (place : Endpoint α) : Passing α where
  advance :=
    match place.reo with
    | some reo => reo.ssn
    | none => 0
  handedUp := []
  place

theorem kept_of_created {kernel : Kernel} {now : Jiffies} {req : CreateReq} {place : Endpoint α}
    (created : Created kernel now req place) : (fresh place).Kept := by
  have settled := created.settled
  obtain ⟨reo, rfl, flushed, -, -, clear⟩ := created.fresh
  refine ⟨settled, fun reo' same => ?_⟩
  obtain rfl : reo = reo' := Option.some.inj same
  exact {
    begins := Nat.mod_eq_of_lt flushed.ssn_lt
    past := List.forall_mem_nil _
    sns := rfl
    marked := Marked.of_clear fun slot _ => clear slot }

/-- **The delivered bitmap is sound** over every run of a session off the blind spot, in every state
it reaches, if and only if no MPDU ends a reset that skips bits which are set. -/
theorem bitmap_sound_iff {kernel : Kernel} {now : Jiffies} {req : CreateReq} {place : Endpoint α}
    (created : Created kernel now req place) {events : List (Event α)}
    (off : Run.Guarded step OffBlindSpot events (fresh place)) :
    Run.Throughout step Sound events (fresh place) ↔
      Run.Guarded step SkipsClear events (fresh place) := by
  have preserved : ∀ (n : Passing α) event next, n.Kept → n.OffBlindSpot event →
      n.SkipsClear event → n.step event = .ok next → next.Kept := by
    intro n event next kept spot clear stepped
    obtain ⟨next', stepped', sound, -⟩ := kept.step spot
    obtain rfl : next' = next := Except.ok.inj (stepped'.symm.trans stepped)
    exact sound clear
  have sharp : ∀ (n : Passing α) event, n.Kept → n.OffBlindSpot event → ¬n.SkipsClear event →
      ∃ next, n.step event = .ok next ∧ ¬next.Sound := by
    intro n event kept spot unclear
    obtain ⟨next, stepped, -, unsound⟩ := kept.step spot
    exact ⟨next, stepped, unsound unclear⟩
  exact Run.throughout_iff_guarded_within preserved (fun _ kept => kept.sound) sharp off
    (kept_of_created created)

def notSingle (n : Passing α) (_ : Event α) : Bool := n.place.reo.all fun reo => reo.bufSize ≠ 1

theorem offBlindSpot_of_notSingle (n : Passing α) (event : Event α)
    (test : n.notSingle event = true) : n.OffBlindSpot event := by
  cases event with
  | enqueue now skb =>
      rintro reo present ⟨-, size, -⟩
      rw [notSingle, present, Option.all_some, decide_eq_true_iff] at test
      exact test size
  | bar | aging | resetAll | addkey | release => trivial

theorem bitmap_sound_iff_opened :
    Run.Throughout step Sound (arrivals 0 [0] ++ .resetAll :: arrivals 0 [1, 0])
        (fresh (opened 8)) ↔
      Run.Guarded step SkipsClear (arrivals 0 [0] ++ .resetAll :: arrivals 0 [1, 0])
        (fresh (opened 8)) :=
  bitmap_sound_iff (show Created hz250 0 (addba 8) (opened 8) from rfl)
    (Run.guarded_of_check offBlindSpot_of_notSingle (by decide +kernel))

/-- An MPDU is delivered, and after a reset another one nine numbers later.  The bit of the first is
left: number 8, which was never handed up, has it set and is counted as a duplicate.  So is number 0
after an MPDU at the blind spot is handed up in its place. -/
theorem resumed_unsound :
    Created hz250 0 (addba 8) (opened 8 : Endpoint Unit) ∧
      Run.Guarded step OffBlindSpot (arrivals 0 [0] ++ .resetAll :: arrivals 0 [9])
        (fresh (opened 8)) ∧
      ¬Run.Throughout step Sound (arrivals 0 [0] ++ .resetAll :: arrivals 0 [9])
        (fresh (opened 8)) ∧
      ((Endpoint.run (arrivals 0 [0] ++ .resetAll :: arrivals 0 [9, 8]) (opened 8)).toOption.map
        fun e => (e.frames.map fun f => f.sn.val, e.reo.map fun reo => reo.stats.dup)) =
        some ([0, 9], some 1) ∧
      ((Endpoint.run [.enqueue 0 ⟨2048, true, 5, ()⟩, .enqueue 0 ⟨1, true, 3, ()⟩,
          .enqueue 0 ⟨0, true, 6, ()⟩] (opened 1)).toOption.map
        fun e => (e.frames.map fun f => f.sn.val, e.reo.map fun reo => reo.stats.dup)) =
        some ([2048], some 1) := by
  refine ⟨rfl, Run.guarded_of_check offBlindSpot_of_notSingle (by decide +kernel), ?_,
    by decide +kernel, by decide +kernel⟩
  intro sound
  have read : (Run.run step (arrivals 0 [0] ++ .resetAll :: arrivals 0 [9])
      (fresh (opened 8))).toOption.map
      (fun n => (n.handedUp, n.advance, n.place.reo.map fun reo =>
        (reo.winSize, reo.delivered (amlReoEntryIndex reo (snSub reo.ssn 2))))) =
      some ([0, 9], 10, some (8, true)) := by decide +kernel
  obtain ⟨n, ran, seen⟩ := Run.ends_of_toOption read
  obtain ⟨handedUp, advance, session⟩ : n.handedUp = [0, 9] ∧ n.advance = 10 ∧
      (n.place.reo.map fun reo =>
        (reo.winSize, reo.delivered (amlReoEntryIndex reo (snSub reo.ssn 2)))) =
            some (8, true) := by
    simpa only [Prod.mk.injEq] using seen
  obtain ⟨reo, present, values⟩ := Option.map_eq_some_iff.mp session
  obtain ⟨size, set⟩ := Prod.mk.inj values
  obtain ⟨m, member, distance⟩ := (sound _ [] n (List.append_nil _).symm ran).bits reo present 2
    (by omega) (by omega) set
  rw [advance] at distance
  rw [handedUp] at member
  simp at member
  omega

end Passing

end AmlW2.Reorder
