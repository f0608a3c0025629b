import AmlW2.Lib.Filter
import AmlW2.Lib.Serial
import AmlW2.Reorder.Session
import Mathlib.Tactic.Ring

/-!
# The reorder window and its shift

The slots are read by their distance from the start of the window.  One theorem says what
`aml_reo_shift_to` does to a window: it empties the slots up to the first distance, not below the
target, whose slot is empty or whose frame fails the packet-number check, and hands up the frames
among them that pass the check, in order.
-/

namespace AmlW2.Reorder

variable {α : Type*}

/-! ## The packet-number check as a filter -/

/-- What the packet-number check remembers: whether it is on, and the last number accepted. -/
def Session.pnState (reo : Session α) : Bool × Nat := (reo.pnCheck, reo.pn)

/-- The packet-number check on its own state. -/
def pnStep (state : Bool × Nat) (hd : Mpdu α) : (Bool × Nat) × Bool :=
  let check := hd.pnPresent || state.1
  if check then
    if !hd.pnPresent || decide (hd.pn ≤ state.2) then ((check, state.2), false)
    else ((check, hd.pn), true)
  else
    ((check, state.2), true)

/-- The fields that emptying slots leaves alone. -/
structure SameFrame (before after : Session α) : Prop where
  bufSize : after.bufSize = before.bufSize
  winSize : after.winSize = before.winSize
  timeoutTicks : after.timeoutTicks = before.timeoutTicks
  ssn : after.ssn = before.ssn
  lsn : after.lsn = before.lsn
  reset : after.reset = before.reset
  onAgingList : after.onAgingList = before.onAgingList
  lastAging : after.lastAging = before.lastAging

theorem SameFrame.refl (reo : Session α) : SameFrame reo reo :=
  ⟨rfl, rfl, rfl, rfl, rfl, rfl, rfl, rfl⟩

theorem SameFrame.trans {a b c : Session α} (first : SameFrame a b) (second : SameFrame b c) :
    SameFrame a c where
  bufSize := second.bufSize.trans first.bufSize
  winSize := second.winSize.trans first.winSize
  timeoutTicks := second.timeoutTicks.trans first.timeoutTicks
  ssn := second.ssn.trans first.ssn
  lsn := second.lsn.trans first.lsn
  reset := second.reset.trans first.reset
  onAgingList := second.onAgingList.trans first.onAgingList
  lastAging := second.lastAging.trans first.lastAging

theorem amlReoPnCheck_snd (reo : Session α) (hd : Mpdu α) :
    (amlReoPnCheck reo hd).2 = (pnStep reo.pnState hd).2 := by
  cases present : hd.pnPresent <;> cases check : reo.pnCheck <;>
    by_cases stale : hd.pn ≤ reo.pn <;>
    simp [amlReoPnCheck, pnStep, Session.pnState, present, check, stale]

theorem amlReoPnCheck_pnState (reo : Session α) (hd : Mpdu α) :
    (amlReoPnCheck reo hd).1.pnState = (pnStep reo.pnState hd).1 := by
  cases present : hd.pnPresent <;> cases check : reo.pnCheck <;>
    by_cases stale : hd.pn ≤ reo.pn <;>
    simp [amlReoPnCheck, pnStep, Session.pnState, present, check, stale]

theorem amlReoPnCheck_same (reo : Session α) (hd : Mpdu α) :
    SameFrame reo (amlReoPnCheck reo hd).1 := by
  simp only [amlReoPnCheck]
  split
  · split <;> exact ⟨rfl, rfl, rfl, rfl, rfl, rfl, rfl, rfl⟩
  · exact ⟨rfl, rfl, rfl, rfl, rfl, rfl, rfl, rfl⟩

theorem amlReoPnCheck_window (reo : Session α) (hd : Mpdu α) :
    (amlReoPnCheck reo hd).1.buf = reo.buf ∧
      (amlReoPnCheck reo hd).1.stats.inBuffer = reo.stats.inBuffer := by
  simp only [amlReoPnCheck]
  split
  · split <;> exact ⟨rfl, rfl⟩
  · exact ⟨rfl, rfl⟩

/-- What `aml_reo_dequeue` does with a frame: it is handed up or released, and the slots stay. -/
structure Dequeued (c : Ctx α) (skb : Mpdu α) (result : Ctx α × Bool) : Prop
    extends SameFrame c.reo result.1.reo where
  passed : result.2 = (pnStep c.reo.pnState skb).2
  pnState : result.1.reo.pnState = (pnStep c.reo.pnState skb).1
  buf : result.1.reo.buf = c.reo.buf
  inBuffer : result.1.reo.stats.inBuffer = c.reo.stats.inBuffer
  frames : result.1.frames = c.frames ++ Filter.passed pnStep c.reo.pnState [skb]
  freed : result.1.freed = c.freed ++ Filter.stopped pnStep c.reo.pnState [skb]

theorem amlReoDequeue_dequeued (c : Ctx α) (skb : Mpdu α) (index : Nat) :
    Dequeued c skb (amlReoDequeue c skb index) := by
  have same := amlReoPnCheck_same c.reo skb
  have state := amlReoPnCheck_pnState c.reo skb
  have verdict := amlReoPnCheck_snd c.reo skb
  obtain ⟨buf, inBuffer⟩ := amlReoPnCheck_window c.reo skb
  rw [amlReoDequeue]
  split
  · rename_i reo failed
    rw [failed] at same state verdict buf inBuffer
    exact {
      toSameFrame := same
      passed := verdict
      pnState := state
      buf
      inBuffer
      frames := by simp [Filter.passed, ← verdict, Ctx.amlMpduFree]
      freed := by simp [Filter.stopped, ← verdict, Ctx.amlMpduFree] }
  · rename_i reo succeeded
    rw [succeeded] at same state verdict buf inBuffer
    exact {
      toSameFrame := same.trans ⟨rfl, rfl, rfl, rfl, rfl, rfl, rfl, rfl⟩
      passed := verdict
      pnState := state
      buf
      inBuffer
      frames := by simp [Filter.passed, ← verdict]
      freed := by simp [Filter.stopped, ← verdict] }

/-! ## Slots by distance -/

/-- Sizes and positions of a session. -/
structure Shape (reo : Session α) : Prop where
  win : ∃ k ≤ 12, reo.winSize = 2 ^ k
  buf_pos : 0 < reo.bufSize
  buf_le_win : reo.bufSize ≤ reo.winSize
  buf_le : reo.bufSize ≤ 1024
  ssn_lt : reo.ssn < 4096
  lsn_lt : reo.lsn < 4096

theorem Shape.win_pos {reo : Session α} (shape : Shape reo) : 0 < reo.winSize := by
  have := shape.buf_pos
  have := shape.buf_le_win
  omega

theorem Shape.win_dvd {reo : Session α} (shape : Shape reo) : reo.winSize ∣ 4096 := by
  obtain ⟨k, k_le, win_eq⟩ := shape.win
  rw [win_eq]
  exact Nat.pow_dvd_pow 2 k_le

theorem Shape.win_le {reo : Session α} (shape : Shape reo) : reo.winSize ≤ 4096 :=
  Nat.le_of_dvd (by omega) shape.win_dvd

theorem Shape.index_eq {reo : Session α} (shape : Shape reo) (sn : Nat) :
    amlReoEntryIndex reo sn = sn % reo.winSize := by
  obtain ⟨k, _, win_eq⟩ := shape.win
  rw [amlReoEntryIndex, win_eq, Serial.mask_eq_mod]

theorem Shape.index_snAdd {reo : Session α} (shape : Shape reo) (sn o : Nat) :
    amlReoEntryIndex reo (snAdd sn o) = (sn + o) % reo.winSize := by
  rw [shape.index_eq, snAdd, Serial.slot_mod shape.win_dvd]

theorem Shape.index_lt {reo : Session α} (shape : Shape reo) (sn : Nat) :
    amlReoEntryIndex reo sn < reo.winSize := by
  rw [shape.index_eq]
  exact Nat.mod_lt _ shape.win_pos

/-- The frame buffered `o` numbers past the window start. -/
def Session.held (reo : Session α) (o : Nat) : Option (Mpdu α) :=
  if o < reo.winSize then (reo.buf (amlReoEntryIndex reo (snAdd reo.ssn o))).skb else none

/-- The frames buffered less than `n` numbers past the window start, in order. -/
def Session.below (reo : Session α) (n : Nat) : List (Mpdu α) :=
  (List.range n).filterMap reo.held

theorem Session.below_succ (reo : Session α) (n : Nat) :
    reo.below (n + 1) = reo.below n ++ (reo.held n).toList := by
  rw [Session.below, List.range_succ, List.filterMap_append]
  cases held : reo.held n <;> simp [Session.below, held]

theorem Session.deadline_putSkb (reo : Session α) (index slot : Nat) (skb : Option (Mpdu α)) :
    ((reo.putSkb index skb).buf slot).deadline = (reo.buf slot).deadline := by
  simp only [Session.putSkb, Function.update_apply]
  split
  · rename_i same
    rw [same]
  · rfl

/-- The held frames are those of the slots, as long as the window does not move. -/
theorem held_congr {a b : Session α} (win : b.winSize = a.winSize) (ssn : b.ssn = a.ssn)
    (buf : b.buf = a.buf) : b.held = a.held := by
  funext o
  simp only [Session.held, amlReoEntryIndex, win, ssn, buf]

/-- Writing the slot at distance `n` leaves the other slots alone. -/
theorem held_update {reo : Session α} (shape : Shape reo) {n : Nat} (n_lt : n < reo.winSize)
    (entry : Entry α) (after : Session α) (win : after.winSize = reo.winSize)
    (ssn : after.ssn = reo.ssn)
    (buf : after.buf = Function.update reo.buf (amlReoEntryIndex reo (snAdd reo.ssn n)) entry)
    (o : Nat) : after.held o = if o = n then entry.skb else reo.held o := by
  simp only [Session.held, win, ssn, buf]
  rw [show amlReoEntryIndex after = amlReoEntryIndex reo by
    funext sn; rw [amlReoEntryIndex, win, ← amlReoEntryIndex]]
  by_cases inside : o < reo.winSize
  · by_cases same : o = n
    · simp [same, n_lt]
    · have apart : amlReoEntryIndex reo (snAdd reo.ssn o) ≠
          amlReoEntryIndex reo (snAdd reo.ssn n) := by
        rw [shape.index_snAdd, shape.index_snAdd]
        exact fun equal => same (Serial.slot_inj inside n_lt equal)
      rw [if_pos inside, if_pos inside, Function.update_of_ne apart, if_neg same]
  · rw [if_neg inside, if_neg inside, if_neg (show o ≠ n by omega)]

/-- The slot of any distance is that of a distance inside the window. -/
theorem Shape.skb_eq_held {reo : Session α} (shape : Shape reo) (o : Nat) :
    (reo.buf (amlReoEntryIndex reo (snAdd reo.ssn o))).skb = reo.held (o % reo.winSize) := by
  have inside := Nat.mod_lt o shape.win_pos
  rw [Session.held, if_pos inside, shape.index_snAdd, shape.index_snAdd, Nat.add_mod_mod]

/-- The window read from a start `e` numbers further on. -/
theorem held_moved {reo : Session α} (shape : Shape reo) {after : Session α} {e : Nat}
    (win : after.winSize = reo.winSize) (buf : after.buf = reo.buf)
    (ssn : after.ssn = snAdd reo.ssn e) (o : Nat) :
    after.held o = if o < reo.winSize then reo.held ((e + o) % reo.winSize) else none := by
  rw [Session.held, win, ← shape.skb_eq_held, buf, amlReoEntryIndex, win, ← amlReoEntryIndex,
    ssn, show snAdd (snAdd reo.ssn e) o = snAdd reo.ssn (e + o) by simp only [snAdd]; omega]

theorem Session.held_outside {reo : Session α} {o : Nat} (outside : reo.winSize ≤ o) :
    reo.held o = none := by
  rw [Session.held, if_neg (by omega)]

theorem Session.lt_winSize_of_held {reo : Session α} {o : Nat} {skb : Mpdu α}
    (held : reo.held o = some skb) : o < reo.winSize := by
  by_contra outside
  rw [Session.held_outside (by omega)] at held
  cases held

theorem Session.below_add (reo : Session α) (n m : Nat) :
    reo.below (n + m) = reo.below n ++ (List.range m).filterMap fun i => reo.held (n + i) := by
  rw [Session.below, List.range_add, List.filterMap_append, List.filterMap_map]
  rfl

theorem below_congr {a b : Session α} {n : Nat} (same : ∀ o < n, a.held o = b.held o) :
    a.below n = b.below n :=
  List.filterMap_congr fun o member => same o (List.mem_range.mp member)

/-- Beyond the window nothing is held. -/
theorem Session.below_stable (reo : Session α) {n : Nat} (le : reo.winSize ≤ n) :
    reo.below n = reo.below reo.winSize := by
  obtain ⟨m, rfl⟩ := Nat.exists_eq_add_of_le le
  rw [Session.below_add, List.filterMap_eq_nil_iff.mpr, List.append_nil]
  intro i _
  exact Session.held_outside (by omega)

theorem Session.below_eq_nil {reo : Session α} (empty : ∀ o, reo.held o = none) (n : Nat) :
    reo.below n = [] :=
  List.filterMap_eq_nil_iff.mpr fun o _ => empty o

/-- Whether a frame is buffered at distance `o` and passes the check after the frames before it. -/
def Session.passes (reo : Session α) (o : Nat) : Bool :=
  match reo.held o with
  | some skb => (pnStep (Filter.after pnStep reo.pnState (reo.below o)) skb).2
  | none => false

theorem Session.held_of_passes {reo : Session α} {o : Nat} (passes : reo.passes o = true) :
    ∃ skb, reo.held o = some skb := by
  cases held : reo.held o with
  | none => simp [Session.passes, held] at passes
  | some skb => exact ⟨skb, rfl⟩

/-! ## Sweeping the window -/

/-- The context `d` is `c` with the slots less than `n` past the window start emptied. -/
structure Swept (c : Ctx α) (n : Nat) (d : Ctx α) : Prop extends SameFrame c.reo d.reo where
  held : ∀ o, d.reo.held o = if o < n then none else c.reo.held o
  deadline : ∀ index, (d.reo.buf index).deadline = (c.reo.buf index).deadline
  pnState : d.reo.pnState = Filter.after pnStep c.reo.pnState (c.reo.below n)
  frames : d.frames = c.frames ++ Filter.passed pnStep c.reo.pnState (c.reo.below n)
  freed : d.freed = c.freed ++ Filter.stopped pnStep c.reo.pnState (c.reo.below n)
  inBuffer : d.reo.stats.inBuffer = c.reo.stats.inBuffer - (c.reo.below n).length

theorem SameFrame.shape {a b : Session α} (same : SameFrame a b) (shape : Shape a) : Shape b where
  win := same.winSize ▸ shape.win
  buf_pos := same.bufSize ▸ shape.buf_pos
  buf_le_win := same.bufSize ▸ same.winSize ▸ shape.buf_le_win
  buf_le := same.bufSize ▸ shape.buf_le
  ssn_lt := same.ssn ▸ shape.ssn_lt
  lsn_lt := same.lsn ▸ shape.lsn_lt

namespace Swept

variable {c d : Ctx α} {n : Nat}

theorem refl (c : Ctx α) : Swept c 0 c where
  toSameFrame := .refl c.reo
  held := by simp
  deadline := fun _ => rfl
  pnState := rfl
  frames := by simp [Session.below, Filter.passed]
  freed := by simp [Session.below, Filter.stopped]
  inBuffer := by simp [Session.below]

theorem giveUp (swept : Swept c n d) (index : Nat) : Swept c n (giveUp d index) where
  toSameFrame := swept.toSameFrame.trans ⟨rfl, rfl, rfl, rfl, rfl, rfl, rfl, rfl⟩
  held := swept.held
  deadline := swept.deadline
  pnState := swept.pnState
  frames := swept.frames
  freed := swept.freed
  inBuffer := swept.inBuffer

/-- The slot that the loop reads at distance `n` holds what the window held there. -/
theorem skb_at (shape : Shape c.reo) (swept : Swept c n d) :
    (d.reo.buf (amlReoEntryIndex d.reo (snAdd d.reo.ssn n))).skb = c.reo.held n := by
  rw [(swept.shape shape).skb_eq_held, swept.held, swept.winSize]
  by_cases inside : n < c.reo.winSize
  · rw [Nat.mod_eq_of_lt inside, if_neg (Nat.lt_irrefl n)]
  · have earlier : n % c.reo.winSize < n := by
      have := Nat.mod_lt n shape.win_pos
      omega
    rw [if_pos earlier, Session.held, if_neg inside]

/-- An empty slot needs no sweeping. -/
theorem succ_of_none (swept : Swept c n d) (empty : c.reo.held n = none) : Swept c (n + 1) d where
  toSameFrame := swept.toSameFrame
  held := by
    intro o
    rw [swept.held]
    by_cases same : o = n
    · simp [same, empty]
    · simp only [show o < n + 1 ↔ o < n by omega]
  deadline := swept.deadline
  pnState := by simpa [Session.below_succ, empty] using swept.pnState
  frames := by simpa [Session.below_succ, empty] using swept.frames
  freed := by simpa [Session.below_succ, empty] using swept.freed
  inBuffer := by simpa [Session.below_succ, empty] using swept.inBuffer

/-- Sweeping one more slot: its frame, if any, is handed up or fails the packet-number check. -/
theorem pop (shape : Shape c.reo) (swept : Swept c n d) :
    Swept c (n + 1) (popSlot d (amlReoEntryIndex d.reo (snAdd d.reo.ssn n))).1 ∧
      (popSlot d (amlReoEntryIndex d.reo (snAdd d.reo.ssn n))).2 = c.reo.passes n := by
  have content := swept.skb_at shape
  cases held : c.reo.held n with
  | none =>
      rw [held] at content
      simp only [popSlot, content, Session.passes, held]
      exact ⟨swept.succ_of_none held, trivial⟩
  | some skb =>
      rw [held] at content
      have inside : n < d.reo.winSize := by
        rw [swept.winSize]
        exact Session.lt_winSize_of_held held
      simp only [popSlot, content, Session.passes, held]
      set index := amlReoEntryIndex d.reo (snAdd d.reo.ssn n) with index_eq
      set emptied : Ctx α := { d with
        reo := ({ d.reo with stats.inBuffer := d.reo.stats.inBuffer - 1 } : Session α).putSkb
          index none } with emptied_eq
      have frame : SameFrame d.reo emptied.reo := ⟨rfl, rfl, rfl, rfl, rfl, rfl, rfl, rfl⟩
      have dequeued := amlReoDequeue_dequeued emptied skb index
      have state : emptied.reo.pnState = Filter.after pnStep c.reo.pnState (c.reo.below n) :=
        swept.pnState
      have below : c.reo.below (n + 1) = c.reo.below n ++ [skb] := by
        rw [Session.below_succ, held, Option.toList_some]
      refine ⟨?_, by rw [dequeued.passed, state]⟩
      exact {
        toSameFrame := (swept.toSameFrame.trans frame).trans dequeued.toSameFrame
        held := by
          intro o
          have cleared : emptied.reo.held o = if o = n then none else d.reo.held o :=
            held_update (swept.shape shape) inside _ emptied.reo rfl rfl rfl o
          rw [held_congr dequeued.winSize dequeued.ssn dequeued.buf, cleared, swept.held]
          by_cases same : o = n
          · simp [same]
          · simp only [if_neg same, show o < n + 1 ↔ o < n by omega]
        deadline := by
          intro slot
          rw [dequeued.buf, ← swept.deadline]
          exact Session.deadline_putSkb _ _ _ _
        pnState := by
          rw [dequeued.pnState, state, below, Filter.after_append]
          rfl
        frames := by
          rw [dequeued.frames, state, below, Filter.passed_append, ← List.append_assoc,
            ← swept.frames]
        freed := by
          rw [dequeued.freed, state, below, Filter.stopped_append, ← List.append_assoc,
            ← swept.freed]
        inBuffer := by
          rw [dequeued.inBuffer, below, List.length_append, List.length_singleton, emptied_eq]
          change d.reo.stats.inBuffer - 1 = _
          rw [swept.inBuffer]
          push_cast
          ring }

end Swept

/-! ## The shift -/

/-- The distance at which a shift to target `t` stops: not below the target, past frames that pass
the check, and itself empty or failing the check. -/
structure StopsAt (reo : Session α) (t e : Nat) : Prop where
  le : t ≤ e
  passes : ∀ o, t ≤ o → o < e → reo.passes o = true
  stops : reo.passes e = false

theorem snLess_iff (sn1 sn2 : Nat) : snLess sn1 sn2 = true ↔ 2048 < snSub sn1 sn2 :=
  decide_eq_true_iff

theorem snLess_snAdd {ssn t n : Nat} (t_le : t ≤ 2047) (n_le : n ≤ t + 2048) :
    snLess (snAdd ssn n) (snAdd ssn t) = decide (n < t) := by
  apply decide_eq_decide.mpr
  simp only [snSub, snAdd]
  omega

theorem snInc_snAdd (ssn n : Nat) : snInc (snAdd ssn n) = snAdd ssn (n + 1) := by
  simp only [snInc, snAdd]
  omega

/-- The loop runs to the stopping distance, and its fuel is enough for that. -/
theorem shiftLoop_swept {c d : Ctx α} (shape : Shape c.reo)
    (placed : ∀ o skb, c.reo.held o = some skb → o < c.reo.bufSize) {t : Nat} (t_le : t ≤ 2047)
    (fuel n : Nat) (swept : Swept c n d) (n_le : n ≤ max t c.reo.bufSize)
    (enough : max t c.reo.bufSize < fuel + n)
    (before : ∀ o, t ≤ o → o < n → c.reo.passes o = true) :
    ∃ e f, shiftLoop (snAdd c.reo.ssn t) fuel d (snAdd c.reo.ssn n) = (f, snAdd c.reo.ssn e) ∧
      e ≤ max t c.reo.bufSize ∧ StopsAt c.reo t e ∧ Swept c (e + 1) f := by
  induction fuel generalizing n d with
  | zero => omega
  | succ fuel induction =>
      have buf_le := shape.buf_le
      have less : snLess (snAdd c.reo.ssn n) (snAdd c.reo.ssn t) = decide (n < t) :=
        snLess_snAdd t_le (by omega)
      obtain ⟨popped, verdict⟩ := swept.pop shape
      rw [swept.ssn] at popped verdict
      simp only [shiftLoop, shiftPass]
      cases passes : c.reo.passes n with
      | true =>
          -- the frame is handed up and the loop goes on
          obtain ⟨skb, held⟩ := Session.held_of_passes passes
          have inside := placed n skb held
          rw [show popSlot d (amlReoEntryIndex d.reo (snAdd c.reo.ssn n)) =
            ((popSlot d (amlReoEntryIndex d.reo (snAdd c.reo.ssn n))).1, true) from
              Prod.ext rfl (verdict.trans passes)]
          simp only [snInc_snAdd]
          apply induction (n + 1) popped (by omega) (by omega)
          intro o above below
          rcases Nat.lt_succ_iff_lt_or_eq.mp below with earlier | rfl
          · exact before o above earlier
          · exact passes
      | false =>
          rw [show popSlot d (amlReoEntryIndex d.reo (snAdd c.reo.ssn n)) =
            ((popSlot d (amlReoEntryIndex d.reo (snAdd c.reo.ssn n))).1, false) from
              Prod.ext rfl (verdict.trans passes)]
          simp only [less]
          by_cases under : n < t
          · -- the number is given up
            simp only [under, decide_true, Bool.not_true, Bool.false_eq_true, if_false, snInc_snAdd]
            apply induction (n + 1) (popped.giveUp _) (by omega) (by omega)
            intro o above below
            omega
          · simp only [under, decide_false, Bool.not_false, if_true]
            exact ⟨n, _, rfl, n_le, ⟨by omega, before, passes⟩, popped⟩

/-- The session after a shift that stops at distance `e`, from the context the loop leaves. -/
structure Shifted (c : Ctx α) (e : Nat) (after : Ctx α) : Prop where
  ssn : after.reo.ssn = snAdd c.reo.ssn e
  lsn : after.reo.lsn =
    if snLess c.reo.lsn (snAdd c.reo.ssn e) then snAdd c.reo.ssn e else c.reo.lsn
  bufSize : after.reo.bufSize = c.reo.bufSize
  winSize : after.reo.winSize = c.reo.winSize
  timeoutTicks : after.reo.timeoutTicks = c.reo.timeoutTicks
  reset : after.reo.reset = c.reo.reset
  lastAging : after.reo.lastAging = c.reo.lastAging
  onAgingList : after.reo.onAgingList = (amlReoHasBuffer after.reo && c.reo.onAgingList)
  held : ∀ o, after.reo.held o =
    if o = 0 ∨ c.reo.winSize ≤ o then none else c.reo.held (e + o)
  deadline : ∀ index, (after.reo.buf index).deadline = (c.reo.buf index).deadline
  pnState : after.reo.pnState = Filter.after pnStep c.reo.pnState (c.reo.below (e + 1))
  frames : after.frames = c.frames ++ Filter.passed pnStep c.reo.pnState (c.reo.below (e + 1))
  freed : after.freed = c.freed ++ Filter.stopped pnStep c.reo.pnState (c.reo.below (e + 1))
  inBuffer : after.reo.stats.inBuffer = c.reo.stats.inBuffer - (c.reo.below (e + 1)).length

/-- After a sweep up to distance `e`, the window from there on holds what is left. -/
theorem Swept.held_moved {c f : Ctx α} {e : Nat} (shape : Shape c.reo) (swept : Swept c (e + 1) f)
    (after : Session α) (win : after.winSize = f.reo.winSize) (buf : after.buf = f.reo.buf)
    (ssn : after.ssn = snAdd f.reo.ssn e) (o : Nat) :
    after.held o = if o = 0 ∨ c.reo.winSize ≤ o then none else c.reo.held (e + o) := by
  rw [Reorder.held_moved (swept.shape shape) win buf ssn, swept.held, swept.winSize]
  by_cases inside : o < c.reo.winSize
  · rw [if_pos inside]
    by_cases start : o = 0
    · have : e % c.reo.winSize ≤ e := Nat.mod_le _ _
      rw [if_pos (by rw [start, Nat.add_zero]; omega), if_pos (Or.inl start)]
    · rw [if_neg (show ¬(o = 0 ∨ c.reo.winSize ≤ o) by omega)]
      by_cases wraps : e + o < c.reo.winSize
      · rw [Nat.mod_eq_of_lt wraps, if_neg (by omega)]
      · -- the slot belongs to a number already passed
        have passed : (e + o) % c.reo.winSize ≤ e := by
          have wrapped : (e + o) % c.reo.winSize = (e + o - c.reo.winSize) % c.reo.winSize :=
            Nat.mod_eq_sub_mod (by omega)
          have := Nat.mod_le (e + o - c.reo.winSize) c.reo.winSize
          omega
        rw [if_pos (by omega), Session.held_outside (by omega)]
  · rw [if_neg inside, if_pos (Or.inr (by omega))]

/-- What `aml_reo_shift_to` does when the target is ahead of the window start. -/
theorem amlReoShiftTo_shifted {c : Ctx α} (shape : Shape c.reo)
    (placed : ∀ o skb, c.reo.held o = some skb → o < c.reo.bufSize) {t : Nat} (t_le : t ≤ 2047) :
    ∃ e ≤ max t c.reo.bufSize, StopsAt c.reo t e ∧
      Shifted c e (amlReoShiftTo c (snAdd c.reo.ssn t)) := by
  have buf_le := shape.buf_le
  obtain ⟨e, f, ran, e_le, stops, swept⟩ := shiftLoop_swept shape placed t_le
    (shiftFuel c.reo) 0 (Swept.refl c) (Nat.zero_le _) (by rw [shiftFuel]; omega) (by omega)
  have start : snAdd c.reo.ssn 0 = c.reo.ssn := by
    rw [snAdd, Nat.add_zero, Nat.mod_eq_of_lt shape.ssn_lt]
  rw [start] at ran
  rw [amlReoShiftTo, ran]
  refine ⟨e, e_le, stops, ?_⟩
  exact {
    ssn := rfl
    lsn := by
      rw [← swept.lsn]
      rfl
    bufSize := swept.bufSize
    winSize := swept.winSize
    timeoutTicks := swept.timeoutTicks
    reset := swept.reset
    lastAging := swept.lastAging
    onAgingList := by
      rw [← swept.onAgingList]
      rfl
    held := swept.held_moved shape _ rfl rfl (by rw [swept.ssn]; rfl)
    deadline := swept.deadline
    pnState := swept.pnState
    frames := swept.frames
    freed := swept.freed
    inBuffer := swept.inBuffer }

end AmlW2.Reorder
