import AmlW2.Reorder.Numbering

/-!
# Delivery over runs

Without block-ack requests a session of at least two slots hands up its frames in the order of
their unwrapped numbers.  With them it does so as long as every request is one that
`aml_reo_forward_to` serves.
-/

namespace AmlW2.Reorder

variable {α : Type*}

theorem Created.ordered {kernel : Kernel} {now : Jiffies} {req : CreateReq}
    {place : Endpoint (α × Nat)} (created : Created kernel now req place) :
    Numbering.Ordered (α := α) ⟨0, place⟩ := by
  have settled := created.settled
  obtain ⟨reo, rfl, flushed, running, _⟩ := created.fresh
  refine ⟨settled, List.Pairwise.nil, ?_⟩
  intro reo' same
  cases same
  constructor
  · intro o skb held
    rw [show (Endpoint.ctx _ reo).reo.held o = none from flushed.held o] at held
    cases held
  · exact Rising.nil

/-- A tagged step is a step of the tagged session. -/
theorem Numbering.step_place {n next : Numbering α} {event : Event α}
    (stepped : n.step event = .ok next) :
    next.place = n.place ∨ ∃ event, n.place.step event = .ok next.place := by
  rw [Numbering.step] at stepped
  split at stepped
  · cases stepped
    exact Or.inl rfl
  · rename_i reo _
    right
    refine ⟨event.tagged (Numbering.origin n.advance reo event), ?_⟩
    cases ran : n.place.step (event.tagged (Numbering.origin n.advance reo event)) with
    | error fault => simp [ran, Except.map] at stepped
    | ok place =>
        simp only [ran, Except.map] at stepped
        cases stepped
        split <;> rfl

/-- Reception and aging. -/
def Event.IsReception : Event α → Prop
  | .enqueue _ _ | .aging _ => True
  | .bar _ | .resetAll | .addkey | .release => False

/-! ## Reception -/

/-- A tagged session of at least two slots. -/
structure Numbering.Wide (n : Numbering α) : Prop extends n.Ordered where
  two_le : ∀ reo, n.place.reo = some reo → 2 ≤ reo.bufSize

theorem Numbering.step_wide (n : Numbering α) (event : Event α) (wide : n.Wide)
    (reception : event.IsReception) : ∃ next, n.step event = .ok next ∧ next.Wide := by
  have place : n.place.Wide := ⟨wide.settled, wide.two_le⟩
  have served : n.Served event := by
    cases event with
    | enqueue now skb => exact place.offBlindSpot (.enqueue now skb)
    | aging => trivial
    | bar | resetAll | addkey | release => exact reception.elim
  obtain ⟨next, ran, ordered⟩ := n.step_ordered event wide.toOrdered served
  refine ⟨next, ran, ordered, ?_⟩
  rcases Numbering.step_place ran with same | ⟨event', stepped⟩
  · rw [same]
    exact wide.two_le
  · obtain ⟨place', stepped', kept⟩ := place.step event'
    rw [stepped] at stepped'
    cases stepped'
    exact kept.two_le

/-- Reception and aging hand up frames in strictly increasing order of their unwrapped numbers. -/
theorem delivered_in_order {kernel : Kernel} {now : Jiffies} {req : CreateReq}
    {place : Endpoint (α × Nat)} (created : Created kernel now req place)
    (two_le : ∀ reo, place.reo = some reo → 2 ≤ reo.bufSize) {events : List (Event α)}
    (reception : ∀ event ∈ events, event.IsReception) :
    ∃ final, Numbering.run events ⟨0, place⟩ = .ok final ∧
      (final.place.frames.map Mpdu.number).Pairwise (· < ·) := by
  have guarded : Run.Guarded Numbering.step (fun _ event => event.IsReception) events
      ⟨0, place⟩ := by
    apply Run.guarded_of_forall_split
    intro front event back _ split _
    exact reception event (by rw [split]; exact List.mem_append_right _ List.mem_cons_self)
  obtain ⟨final, ran, wide⟩ := Run.run_of_invariant Numbering.step_wide guarded
    ⟨created.ordered, two_le⟩
  exact ⟨final, ran, wide.sorted⟩

theorem delivered_in_order_opened :
    ∃ final, Numbering.run
        [.enqueue 0 ⟨1, false, 0, ()⟩, .enqueue 0 ⟨3, false, 0, ()⟩, .enqueue 0 ⟨0, false, 0, ()⟩,
          .enqueue 1 ⟨12, false, 0, ()⟩, .aging 90] ⟨0, opened 8⟩ = .ok final ∧
      (final.place.frames.map Mpdu.number).Pairwise (· < ·) :=
  delivered_in_order (show Created hz250 0 (addba 8) (opened 8) from rfl)
    opened_eight_wide.two_le (by simp [Event.IsReception])

/-! ## Block-ack requests -/

/-- What holds of the session at each block-ack request of a run. -/
def AtBars (holds : Endpoint (α × Nat) → Session (α × Nat) → Fin 4096 → Prop)
    (events : List (Event α)) (n : Numbering α) : Prop :=
  ∀ front (ssn : Fin 4096) back middle reo, events = front ++ .bar ssn :: back →
    Numbering.run front n = .ok middle → middle.place.reo = some reo → holds middle.place reo ssn

/-- At each block-ack request the session takes the step that the request asks for. -/
def BarsObeyed : List (Event α) → Numbering α → Prop :=
  AtBars fun place reo ssn => BarLaw (place.ctx reo) ssn (amlReoForwardTo (place.ctx reo) ssn)

/-- Each block-ack request reaches a session that serves it. -/
def BarsServed : List (Event α) → Numbering α → Prop :=
  AtBars fun _ reo ssn => BarServed reo ssn

/-- No MPDU of the run is at the blind spot. -/
def Numbering.OffBlindSpot (n : Numbering α) (event : Event α) : Prop :=
  Reorder.OffBlindSpot n.place event

theorem Numbering.step_settled (n : Numbering α) (event : Event α) (settled : n.place.Settled)
    (off : n.OffBlindSpot event) : ∃ next, n.step event = .ok next ∧ next.place.Settled := by
  cases present : n.place.reo with
  | none => exact ⟨n, by rw [Numbering.step, present], settled⟩
  | some reo =>
      have off_tagged : Reorder.OffBlindSpot n.place
          (event.tagged (Numbering.origin n.advance reo event)) := by
        cases event with
        | enqueue now skb => exact off
        | bar | aging | resetAll | addkey | release => trivial
      obtain ⟨place, ran, kept⟩ := n.place.step_settled _ settled off_tagged
      refine ⟨_, Numbering.step_eq present ran, ?_⟩
      split <;> exact kept

/-- A session of at least two slots has no blind spot. -/
theorem Numbering.guarded_of_wide (events : List (Event α)) {n : Numbering α}
    (wide : n.place.Wide) : Run.Guarded Numbering.step Numbering.OffBlindSpot events n := by
  have preserved : ∀ (n : Numbering α) event next, n.place.Wide → n.step event = .ok next →
      next.place.Wide := by
    intro n event next wide stepped
    rcases Numbering.step_place stepped with same | ⟨event', ran⟩
    · rw [same]
      exact wide
    · obtain ⟨place, ran', kept⟩ := wide.step event'
      rw [ran] at ran'
      cases ran'
      exact kept
  exact Run.guarded_of_invariant preserved (fun _ event wide => wide.offBlindSpot event) events wide

/-- Off the blind spot, requests are obeyed exactly when they are served. -/
theorem barsObeyed_iff {events : List (Event α)} {n : Numbering α} (settled : n.place.Settled)
    (off : Run.Guarded Numbering.step Numbering.OffBlindSpot events n) :
    BarsObeyed events n ↔ BarsServed events n := by
  have exact_at : ∀ front (ssn : Fin 4096) back middle reo, events = front ++ .bar ssn :: back →
      Numbering.run front n = .ok middle → middle.place.reo = some reo →
      (BarLaw (middle.place.ctx reo) ssn (amlReoForwardTo (middle.place.ctx reo) ssn) ↔
        BarServed reo ssn) := by
    intro front ssn back middle reo split ran present
    subst split
    obtain ⟨middle', ran', kept⟩ := Run.run_of_invariant Numbering.step_settled off.of_append
      settled
    obtain rfl : middle = middle' := Except.ok.inj (ran.symm.trans ran')
    exact barLaw_iff (c := middle.place.ctx reo) (kept reo present).toCoherent ssn.isLt
  constructor
  · intro obeyed front ssn back middle reo split ran present
    exact (exact_at front ssn back middle reo split ran present).mp
      (obeyed front ssn back middle reo split ran present)
  · intro served front ssn back middle reo split ran present
    exact (exact_at front ssn back middle reo split ran present).mpr
      (served front ssn back middle reo split ran present)

/-- A run off the blind spot whose requests are served delivers in order. -/
theorem BarsServed.delivers {events : List (Event α)} {n : Numbering α} (ordered : n.Ordered)
    (off : Run.Guarded Numbering.step Numbering.OffBlindSpot events n)
    (served : BarsServed events n) :
    ∃ final, Numbering.run events n = .ok final ∧
      (final.place.frames.map Mpdu.number).Pairwise (· < ·) := by
  have guarded : Run.Guarded Numbering.step Numbering.Served events n := by
    apply Run.guarded_of_forall_split
    intro front event back middle split ran
    cases event with
    | enqueue now skb =>
        subst split
        exact off.at_split ran
    | bar ssn => exact fun reo present => served front ssn back middle reo split ran present
    | aging | resetAll | addkey | release => trivial
  obtain ⟨final, ran, kept⟩ := Run.run_of_invariant Numbering.step_ordered guarded ordered
  exact ⟨final, ran, kept.sorted⟩

/-- From creation on, off the blind spot, every block-ack request is obeyed and nothing is delivered
twice or after a later frame, exactly when every request is one that the code serves. -/
theorem bars_obeyed_iff_served {kernel : Kernel} {now : Jiffies} {req : CreateReq}
    {place : Endpoint (α × Nat)} (created : Created kernel now req place)
    {events : List (Event α)}
    (off : Run.Guarded Numbering.step Numbering.OffBlindSpot events ⟨0, place⟩) :
    (BarsObeyed events ⟨0, place⟩ ∧ ∃ final, Numbering.run events ⟨0, place⟩ = .ok final ∧
      (final.place.frames.map Mpdu.number).Pairwise (· < ·)) ↔ BarsServed events ⟨0, place⟩ := by
  have settled : (Numbering.mk (α := α) 0 place).place.Settled := created.settled
  constructor
  · rintro ⟨obeyed, _⟩
    exact (barsObeyed_iff settled off).mp obeyed
  · intro served
    exact ⟨(barsObeyed_iff settled off).mpr served, served.delivers created.ordered off⟩

theorem bars_obeyed_iff_served_opened :
    (BarsObeyed [.enqueue 0 ⟨1, false, 0, ()⟩, .bar 2, .bar 1] ⟨0, opened 8⟩ ∧
        ∃ final, Numbering.run [.enqueue 0 ⟨1, false, 0, ()⟩, .bar 2, .bar 1] ⟨0, opened 8⟩ =
            .ok final ∧
          (final.place.frames.map Mpdu.number).Pairwise (· < ·)) ↔
      BarsServed [.enqueue 0 ⟨1, false, 0, ()⟩, .bar 2, .bar 1] ⟨0, opened 8⟩ :=
  bars_obeyed_iff_served (show Created hz250 0 (addba 8) (opened 8) from rfl)
    (Numbering.guarded_of_wide _ opened_eight_wide)

/-- A request at a buffered number in the middle of the window flushes the frame after it and
forgets what was delivered, so that a retransmission is delivered again. -/
theorem bar_inside_delivers_twice :
    Created hz250 0 (addba 8) (opened 8 : Endpoint (Unit × Nat)) ∧
      ¬BarsObeyed [.enqueue 0 ⟨1, false, 0, ()⟩, .enqueue 0 ⟨2, false, 0, ()⟩,
        .enqueue 0 ⟨5, false, 0, ()⟩, .bar 2] ⟨0, opened 8⟩ ∧
      ∃ final, Numbering.run [.enqueue 0 ⟨1, false, 0, ()⟩, .enqueue 0 ⟨2, false, 0, ()⟩,
          .enqueue 0 ⟨5, false, 0, ()⟩, .bar 2, .enqueue 0 ⟨2, false, 0, ()⟩] ⟨0, opened 8⟩ =
            .ok final ∧
        final.place.frames.map (fun skb => skb.sn.val) = [1, 2, 5, 2] ∧
        final.place.frames.map Mpdu.number = [1, 2, 5, 2] := by
  refine ⟨rfl, ?_, _, rfl, rfl, rfl⟩
  intro obeyed
  have served := (barsObeyed_iff (n := ⟨0, opened 8⟩) opened_eight_wide.settled
    (Numbering.guarded_of_wide _ opened_eight_wide)).mp obeyed [.enqueue 0 ⟨1, false, 0, ()⟩,
      .enqueue 0 ⟨2, false, 0, ()⟩, .enqueue 0 ⟨5, false, 0, ()⟩] 2 [] _ _ rfl rfl rfl
  exact absurd (served.inside rfl rfl).1 (by decide)

end AmlW2.Reorder
