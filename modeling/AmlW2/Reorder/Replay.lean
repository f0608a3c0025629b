import AmlW2.Reorder.Safety

/-!
# Replay protection

Whatever the state of a session, the frames it hands up between two key installations carry strictly
increasing packet numbers, and none without a number follows one with a number: every path to the
delivery list goes through the packet-number check.
-/

namespace AmlW2.Reorder

variable {α : Type*}

/-- The second frame may follow the first: once a frame carries a packet number, later frames carry
higher ones. -/
def Outranked (first second : Mpdu α) : Prop :=
  first.pnPresent = true → second.pnPresent = true ∧ first.pn < second.pn

/-- A step from `c` to `d` that hands up `delivered` past the packet-number check. -/
structure Protects (c : Ctx α) (delivered : List (Mpdu α)) (d : Ctx α) : Prop where
  frames : d.frames = c.frames ++ delivered
  check : c.reo.pnCheck = true → d.reo.pnCheck = true
  pn : c.reo.pn ≤ d.reo.pn
  numbered : ∀ skb ∈ delivered, c.reo.pnCheck = true → skb.pnPresent = true
  fresh : ∀ skb ∈ delivered, skb.pnPresent = true →
    c.reo.pn < skb.pn ∧ skb.pn ≤ d.reo.pn ∧ d.reo.pnCheck = true
  ranked : delivered.Pairwise Outranked

/-- A step that hands up frames past the packet-number check only. -/
def Protected (c d : Ctx α) : Prop := ∃ delivered, Protects c delivered d

namespace Protected

variable {c d f : Ctx α}

/-- A step that hands up nothing and leaves the check alone. -/
theorem of_same (frames : d.frames = c.frames) (check : d.reo.pnCheck = c.reo.pnCheck)
    (pn : d.reo.pn = c.reo.pn) : Protected c d :=
  ⟨[], by rw [frames, List.append_nil], fun on => check.trans on, pn.ge, by simp, by simp,
    List.Pairwise.nil⟩

theorem refl (c : Ctx α) : Protected c c := of_same rfl rfl rfl

/-- Protected steps compose. -/
theorem trans (first : Protected c d) (second : Protected d f) : Protected c f := by
  obtain ⟨front, first⟩ := first
  obtain ⟨back, second⟩ := second
  refine ⟨front ++ back, ?frames, ?check, ?pn, ?numbered, ?fresh, ?ranked⟩
  case frames => rw [second.frames, first.frames, List.append_assoc]
  case check => exact fun on => second.check (first.check on)
  case pn => exact first.pn.trans second.pn
  case numbered =>
    intro skb member on
    rcases List.mem_append.mp member with early | late
    · exact first.numbered skb early on
    · exact second.numbered skb late (first.check on)
  case fresh =>
    intro skb member present
    rcases List.mem_append.mp member with early | late
    · obtain ⟨above, below, on⟩ := first.fresh skb early present
      exact ⟨above, below.trans second.pn, second.check on⟩
    · obtain ⟨above, below, on⟩ := second.fresh skb late present
      exact ⟨first.pn.trans_lt above, below, on⟩
  case ranked =>
    rw [List.pairwise_append]
    refine ⟨first.ranked, second.ranked, fun a a_mem b b_mem present => ?_⟩
    -- the earlier frame switched the check on and raised the number
    obtain ⟨_, below, on⟩ := first.fresh a a_mem present
    have numbered := second.numbered b b_mem on
    exact ⟨numbered, below.trans_lt (second.fresh b b_mem numbered).1⟩

/-- A protected step after one that hands up nothing. -/
theorem after_same (second : Protected d f) (frames : d.frames = c.frames)
    (check : d.reo.pnCheck = c.reo.pnCheck) (pn : d.reo.pn = c.reo.pn) : Protected c f :=
  (of_same frames check pn).trans second

end Protected

/-! ## Release of buffered frames -/

/-- What the check does to its state, and what passes it. -/
theorem pnStep_spec (state : Bool × Nat) (skb : Mpdu α) :
    (state.1 = true → (pnStep state skb).1.1 = true) ∧ state.2 ≤ (pnStep state skb).1.2 ∧
      ((pnStep state skb).2 = true → (state.1 = true → skb.pnPresent = true) ∧
        (skb.pnPresent = true →
          state.2 < skb.pn ∧ skb.pn ≤ (pnStep state skb).1.2 ∧ (pnStep state skb).1.1 = true)) := by
  obtain ⟨check, pn⟩ := state
  cases present : skb.pnPresent with
  | false => cases check <;> simp [pnStep, present]
  | true =>
      by_cases stale : skb.pn ≤ pn
      · simp [pnStep, present, stale]
      · simp [pnStep, present, stale]
        omega

/-- A frame handed up passed the check. -/
theorem amlReoDequeue_protected (c : Ctx α) (skb : Mpdu α) (index : Nat) :
    Protected c (amlReoDequeue c skb index).1 := by
  have dequeued := amlReoDequeue_dequeued c skb index
  have state := dequeued.pnState
  obtain ⟨check, pn, passes⟩ := pnStep_spec c.reo.pnState skb
  rw [← state] at check pn passes
  refine ⟨_, ⟨dequeued.frames, check, pn, ?numbered, ?fresh, ?ranked⟩⟩
  all_goals
    simp only [Filter.passed]
    split
  case numbered.isTrue accepted =>
    intro other member
    rw [List.mem_singleton.mp member]
    exact (passes accepted).1
  case fresh.isTrue accepted =>
    intro other member
    rw [List.mem_singleton.mp member]
    exact (passes accepted).2
  case ranked.isTrue => exact List.pairwise_singleton _ _
  all_goals simp

theorem popSlot_protected (c : Ctx α) (index : Nat) : Protected c (popSlot c index).1 := by
  rw [popSlot]
  split
  · rename_i skb _
    exact (amlReoDequeue_protected _ skb index).after_same rfl rfl rfl
  · exact Protected.refl c

theorem shiftPass_protected (ssn : Nat) (c : Ctx α) (sn : Nat) :
    Protected c (shiftPass ssn c sn).1 := by
  have popped := popSlot_protected c (amlReoEntryIndex c.reo sn)
  simp only [shiftPass]
  split
  · rename_i d result
    rwa [result] at popped
  · rename_i d result
    rw [result] at popped
    split
    · exact popped
    · exact popped.trans (Protected.of_same rfl rfl rfl)

theorem shiftLoop_protected (ssn fuel : Nat) (c : Ctx α) (sn : Nat) :
    Protected c (shiftLoop ssn fuel c sn).1 := by
  induction fuel generalizing c sn with
  | zero => exact Protected.refl c
  | succ fuel induction =>
      have passed := shiftPass_protected ssn c sn
      simp only [shiftLoop]
      split
      · rename_i d result
        rw [result] at passed
        exact passed.trans (induction d (snInc sn))
      · rename_i d result
        rwa [result] at passed

theorem shiftFinish_protected (c : Ctx α) (sn : Nat) : Protected c (shiftFinish c sn) :=
  Protected.of_same rfl rfl rfl

theorem amlReoShiftTo_protected (c : Ctx α) (ssn : Nat) : Protected c (amlReoShiftTo c ssn) := by
  have looped := shiftLoop_protected ssn (shiftFuel c.reo) c c.reo.ssn
  exact looped.trans (shiftFinish_protected _ _)

/-! ## Events -/

theorem amlReoEntryAging_protected {now : Jiffies} {c d : Ctx α}
    (ran : amlReoEntryAging now c = .ok d) : Protected c d := by
  rw [amlReoEntryAging] at ran
  split at ran
  · cases ran
  split at ran
  · cases ran
    exact Protected.refl c
  split at ran
  · cases ran
    exact Protected.of_same rfl rfl rfl
  rename_i target _
  split at ran
  · cases ran
  · have shifted := amlReoShiftTo_protected { c with
      reo := { c.reo with stats.timeout := c.reo.stats.timeout + 1 } } target
    cases ran
    exact (shifted.after_same (c := c) rfl rfl rfl).trans (Protected.of_same rfl rfl rfl)

theorem amlReoAging_protected {now : Jiffies} {c d : Ctx α} (ran : amlReoAging now c = .ok d) :
    Protected c d := by
  rw [amlReoAging] at ran
  split at ran
  · exact amlReoEntryAging_protected ran
  · cases ran
    exact Protected.refl c

theorem makeRoom_protected (c : Ctx α) (sn : Nat) : Protected c (makeRoom c sn) := by
  rw [makeRoom]
  split
  · exact (amlReoShiftTo_protected _ _).after_same rfl rfl rfl
  · exact Protected.refl c

theorem placeInWindow_protected (now : Jiffies) (c : Ctx α) (skb : Mpdu α) :
    Protected c (placeInWindow now c skb) := by
  simp only [placeInWindow]
  split
  · split <;> exact Protected.of_same rfl rfl rfl
  · split
    · have dequeued := amlReoDequeue_protected c skb (amlReoEntryIndex c.reo skb.sn)
      split
      · rename_i d result
        rw [result] at dequeued
        exact dequeued.trans ((amlReoShiftTo_protected _ _).after_same rfl rfl rfl)
      · rename_i d result
        rwa [result] at dequeued
    · split <;> exact Protected.of_same rfl rfl rfl

theorem enqueueInWindow_protected (now : Jiffies) (c : Ctx α) (skb : Mpdu α) :
    Protected c (enqueueInWindow now c skb) := by
  rw [enqueueInWindow]
  split
  · exact Protected.of_same rfl rfl rfl
  · exact (makeRoom_protected c skb.sn).trans (placeInWindow_protected now _ skb)

theorem amlReoEnqueue_protected {now : Jiffies} {c d : Ctx α} {skb : Mpdu α}
    (ran : amlReoEnqueue now c skb = .ok d) : Protected c d := by
  simp only [amlReoEnqueue] at ran
  split at ran
  · split at ran
    · cases ran
    · cases ran
      exact (enqueueInWindow_protected now _ skb).after_same rfl rfl rfl
  · cases ran
    exact (enqueueInWindow_protected now _ skb).after_same rfl rfl rfl

theorem amlReoForwardTo_protected (c : Ctx α) (ssn : Nat) :
    Protected c (amlReoForwardTo c ssn) := by
  rw [amlReoForwardTo]
  split
  · exact Protected.refl c
  split
  · exact Protected.of_same rfl rfl rfl
  split
  · exact amlReoShiftTo_protected c ssn
  · exact (amlReoShiftTo_protected c _).trans (Protected.of_same rfl rfl rfl)

theorem amlReoForwardAll_protected (c : Ctx α) : Protected c (amlReoForwardAll c) :=
  amlReoForwardTo_protected c c.reo.lsn

theorem amlReoResetAll_protected (c : Ctx α) : Protected c (amlReoResetAll c) :=
  (amlReoForwardAll_protected { c with reo := { c.reo with reset := true } }).after_same rfl rfl rfl

theorem amlReoSessionRelease_protected (c : Ctx α) : Protected c (amlReoSessionRelease c) :=
  (amlReoForwardAll_protected
    { c with reo := { c.reo with onAgingList := false } }).after_same rfl rfl rfl

/-! ## Runs -/

/-- The event is not the installation of a key. -/
def Event.KeepsKey : Event α → Prop
  | .addkey => False
  | .enqueue _ _ | .bar _ | .aging _ | .resetAll | .release => True

/-- An event other than a key installation takes a session to one whose step is protected. -/
theorem Endpoint.step_protected {e next : Endpoint α} {event : Event α} (keeps : event.KeepsKey)
    {reo : Session α} (present : e.reo = some reo) (stepped : e.step event = .ok next) :
    ∃ d, Protected (e.ctx reo) d ∧ next.frames = d.frames ∧
      ∀ reo', next.reo = some reo' → reo' = d.reo := by
  have live : ∀ (e : Endpoint α) (d : Ctx α) reo', (e.live d).reo = some reo' → reo' = d.reo := by
    intro e d reo' same
    exact (Option.some.inj same).symm
  simp only [Endpoint.step, present] at stepped
  cases event with
  | enqueue now skb =>
      cases ran : amlReoEnqueue now (e.ctx reo) skb with
      | error fault => simp [Endpoint.stepSession, ran, Except.map] at stepped
      | ok d =>
          simp only [Endpoint.stepSession, ran, Except.map] at stepped
          cases stepped
          exact ⟨d, amlReoEnqueue_protected ran, rfl, live _ d⟩
  | bar ssn =>
      cases stepped
      exact ⟨_, amlReoForwardTo_protected _ ssn, rfl, live _ _⟩
  | aging now =>
      cases ran : amlReoAging now (e.ctx reo) with
      | error fault => simp [Endpoint.stepSession, ran, Except.map] at stepped
      | ok d =>
          simp only [Endpoint.stepSession, ran, Except.map] at stepped
          cases stepped
          exact ⟨d, amlReoAging_protected ran, rfl, live _ d⟩
  | resetAll =>
      cases stepped
      exact ⟨_, amlReoResetAll_protected _, rfl, live _ _⟩
  | addkey => exact keeps.elim
  | release =>
      cases stepped
      refine ⟨_, amlReoSessionRelease_protected _, rfl, ?_⟩
      intro reo' gone
      cases gone

/-- Where there is no session nothing happens. -/
theorem Endpoint.run_vacant {e : Endpoint α} (vacant : e.reo = none) (events : List (Event α)) :
    Endpoint.run events e = .ok e := by
  induction events with
  | nil => rfl
  | cons event events induction =>
      have idle : e.step event = .ok e := by rw [Endpoint.step, vacant]
      rw [Endpoint.run, Run.run_cons_ok events idle]
      exact induction

/-- A run without key installations is one protected step of the session it starts from. -/
theorem Endpoint.run_protected {events : List (Event α)} {e final : Endpoint α}
    (keeps : ∀ event ∈ events, event.KeepsKey) {reo : Session α} (present : e.reo = some reo)
    (ran : Endpoint.run events e = .ok final) :
    ∃ d, Protected (e.ctx reo) d ∧ final.frames = d.frames := by
  induction events generalizing e reo with
  | nil =>
      cases ran
      exact ⟨_, Protected.refl _, rfl⟩
  | cons event events induction =>
      obtain ⟨next, stepped, rest⟩ := Run.run_cons_eq_ok ran
      obtain ⟨d, protected_step, frames, session⟩ :=
        Endpoint.step_protected (keeps event List.mem_cons_self) present stepped
      cases present' : next.reo with
      | none =>
          -- the session was released
          obtain rfl : next = final :=
            Except.ok.inj ((Endpoint.run_vacant present' events).symm.trans rest)
          exact ⟨d, protected_step, frames⟩
      | some reo' =>
          obtain ⟨f, protected_rest, final_frames⟩ := induction
            (fun event member => keeps event (List.mem_cons_of_mem _ member)) present' rest
          refine ⟨f, protected_step.trans (protected_rest.after_same ?_ ?_ ?_), final_frames⟩
          · exact frames
          · rw [← session reo' present']
            rfl
          · rw [← session reo' present']
            rfl

/-- Between two key installations the frames handed up carry strictly increasing packet numbers,
and none without a number follows one with a number. -/
theorem delivered_packet_numbers {e final : Endpoint α} {events : List (Event α)}
    (keeps : ∀ event ∈ events, event.KeepsKey) (ran : Endpoint.run events e = .ok final) :
    ∃ delivered, final.frames = e.frames ++ delivered ∧ delivered.Pairwise Outranked := by
  cases present : e.reo with
  | none =>
      obtain rfl : e = final := Except.ok.inj ((Endpoint.run_vacant present events).symm.trans ran)
      exact ⟨[], (List.append_nil _).symm, List.Pairwise.nil⟩
  | some reo =>
      obtain ⟨d, ⟨delivered, step⟩, frames⟩ := Endpoint.run_protected keeps present ran
      exact ⟨delivered, frames.trans step.frames, step.ranked⟩

theorem delivered_packet_numbers_opened :
    ∃ delivered, [⟨0, true, 5, ()⟩, ⟨1, true, 9, ()⟩] = [] ++ delivered ∧
      delivered.Pairwise Outranked := by
  have ran : Endpoint.run [.enqueue 0 ⟨1, true, 9, ()⟩, .enqueue 0 ⟨2, true, 9, ()⟩,
      .enqueue 0 ⟨0, true, 5, ()⟩, .enqueue 0 ⟨3, false, 0, ()⟩] (opened 8) = .ok _ := rfl
  exact delivered_packet_numbers (by simp [Event.KeepsKey]) ran

end AmlW2.Reorder
