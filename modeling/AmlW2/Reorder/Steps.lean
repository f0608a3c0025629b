import AmlW2.Reorder.Operations

/-!
# Steps of a session

One lemma says what each event does to a settled session, as long as no MPDU half the number space
ahead reaches a window of one slot.  Every result about runs is derived from it.
-/

namespace AmlW2.Reorder

variable {α : Type*}

/-! ## The invariant between events -/

/-- A coherent session whose window is empty while a reset is pending. -/
structure Settled (reo : Session α) : Prop extends Coherent reo where
  reset : reo.reset = true → reo.lsn = reo.ssn

/-- The session of an endpoint, if there is one, is settled. -/
def Endpoint.Settled (e : Endpoint α) : Prop := ∀ reo, e.reo = some reo → Reorder.Settled reo

/-- The session after the first lines of `aml_reo_enqueue`, which end a pending reset. -/
inductive Opened (c : Ctx α) (skb : Mpdu α) (m : Ctx α) : Prop
  | same (running : c.reo.reset = false) (same : SameWindow c m)
      (pnState : m.reo.pnState = c.reo.pnState) (freed : m.freed = c.freed)
  | reset (pending : c.reo.reset = true) (empty : c.reo.lsn = c.reo.ssn)
      (moved : m = { c with reo := { c.reo with
        stats.rx := c.reo.stats.rx + 1
        reset := false
        ssn := skb.sn
        lsn := skb.sn } })

theorem Opened.coherent {c m : Ctx α} {skb : Mpdu α} (coherent : Coherent c.reo)
    (opened : Opened c skb m) : Coherent m.reo := by
  cases opened with
  | same _ same _ _ => exact same.coherent coherent
  | reset _ empty moved =>
      subst moved
      exact (coherent.flushed empty).coherent rfl rfl rfl skb.sn.isLt rfl rfl rfl

theorem Opened.reset_eq {c m : Ctx α} {skb : Mpdu α} (opened : Opened c skb m) :
    m.reo.reset = false := by
  cases opened with
  | same running same _ _ => rw [same.reset, running]
  | reset _ _ moved => rw [moved]

theorem Disposed.reset_eq {c d : Ctx α} {skb : Mpdu α} (coherent : Coherent c.reo)
    (disposed : Disposed c skb d) : d.reo.reset = c.reo.reset := by
  cases disposed with
  | rejected same _ => exact same.reset
  | replaced _ _ _ _ stored _ _ _ _ => exact stored.reset
  | buffered _ _ _ _ _ stored _ _ _ _ => exact stored.reset
  | delivered m sn _ dequeued shifted =>
      obtain ⟨_, _, shift, _⟩ := coherent.delivered_shifted sn dequeued
      rw [shifted, shift.reset]
      exact dequeued.reset

theorem Enqueued.reset_eq {c d : Ctx α} {skb : Mpdu α} (enqueued : Enqueued c skb d) :
    d.reo.reset = c.reo.reset := by
  cases enqueued with
  | stale _ same _ => exact same.reset
  | inWindow m _ roomy disposed =>
      rw [disposed.reset_eq roomy.coherent]
      rcases roomy.moved with rfl | ⟨_, _, _, _, shifted⟩
      · rfl
      · exact shifted.reset

/-- A number half the number space ahead of a window of one slot. -/
def BlindSpot (reo : Session α) (sn : Nat) : Prop :=
  reo.reset = false ∧ reo.bufSize = 1 ∧ snSub sn reo.ssn = 2048

/-- What `aml_reo_enqueue` does to a settled session. -/
theorem amlReoEnqueue_enqueued (now : Jiffies) {c : Ctx α} (settled : Reorder.Settled c.reo)
    (skb : Mpdu α) (clear : ¬BlindSpot c.reo skb.sn) :
    ∃ m d, amlReoEnqueue now c skb = .ok d ∧ Opened c skb m ∧ Enqueued m skb d := by
  cases pending : c.reo.reset with
  | false =>
      refine ⟨{ c with reo := { c.reo with stats.rx := c.reo.stats.rx + 1 } }, _, ?_,
        .same pending ⟨⟨rfl, rfl, rfl, rfl, rfl, rfl, rfl, rfl⟩, rfl, rfl, rfl⟩ rfl rfl,
        enqueueInWindow_enqueued now ?_ skb fun spot => clear ⟨pending, spot⟩⟩
      · simp only [amlReoEnqueue, pending, Bool.false_eq_true, if_false]
      · exact settled.toCoherent.of_held rfl rfl rfl rfl rfl rfl rfl
  | true =>
      have empty := settled.reset pending
      have opened : Opened c skb { c with reo := { c.reo with
          stats.rx := c.reo.stats.rx + 1
          reset := false
          ssn := skb.sn
          lsn := skb.sn } } := .reset pending empty rfl
      refine ⟨_, _, ?_, opened,
        enqueueInWindow_enqueued now (opened.coherent settled.toCoherent) skb ?_⟩
      · simp [amlReoEnqueue, pending, amlReoHasBuffer, empty]
      · rintro ⟨_, distance⟩
        simp only [snSub] at distance
        omega

theorem Aged.settled {c d : Ctx α} (settled : Reorder.Settled c.reo) (aged : Aged c d) :
    Reorder.Settled d.reo := by
  refine ⟨aged.coherent settled.toCoherent, ?_⟩
  cases aged with
  | kept lastAging =>
      obtain ⟨now, rfl⟩ := lastAging
      exact settled.reset
  | shifted o e skb m expired _ shifted _ lastAging =>
      obtain ⟨now, rfl⟩ := lastAging
      intro pending
      rw [shifted.reset] at pending
      rw [settled.held_eq_none (settled.reset pending)] at expired
      cases expired

/-- The event is not an MPDU at the blind spot of the session. -/
def OffBlindSpot {β : Type*} (e : Endpoint β) : Event α → Prop
  | .enqueue _ skb => ∀ reo, e.reo = some reo → ¬BlindSpot reo skb.sn
  | _ => True

/-- What an event does to the session of a place. -/
inductive Stepped (e : Endpoint α) (reo : Session α) : Event α → Endpoint α → Prop
  | enqueue (now : Jiffies) (skb : Mpdu α) (m d : Ctx α) (opened : Opened (e.ctx reo) skb m)
      (enqueued : Enqueued m skb d) :
      Stepped e reo (.enqueue now skb) ({ e with handed := e.handed ++ [skb] }.live d)
  | bar (ssn : Fin 4096) (d : Ctx α) (forwarded : Forwarded (e.ctx reo) ssn d) :
      Stepped e reo (.bar ssn) (e.live d)
  | aging (now : Jiffies) (d : Ctx α) (aged : Aged (e.ctx reo) d) :
      Stepped e reo (.aging now) (e.live d)
  | resetAll (d : Ctx α) (drained : Drained (e.ctx { reo with reset := true }) d) :
      Stepped e reo .resetAll (e.live d)
  | addkey : Stepped e reo .addkey (e.live (e.ctx (amlReoStaAddkey reo)))
  | release (d : Ctx α) (drained : Drained (e.ctx { reo with onAgingList := false }) d) :
      Stepped e reo .release (e.vacate d)

/-- Every event off the blind spot succeeds. -/
theorem Endpoint.step_stepped {e : Endpoint α} {reo : Session α} (present : e.reo = some reo)
    (settled : Reorder.Settled reo) {event : Event α} (off : OffBlindSpot e event) :
    ∃ next, e.step event = .ok next ∧ Stepped e reo event next := by
  simp only [Endpoint.step, present]
  cases event with
  | enqueue now skb =>
      obtain ⟨m, d, ran, opened, enqueued⟩ := amlReoEnqueue_enqueued now (c := e.ctx reo) settled
        skb (off reo present)
      refine ⟨_, ?_, .enqueue now skb m d opened enqueued⟩
      rw [Endpoint.stepSession, ran]
      rfl
  | bar ssn =>
      exact ⟨_, rfl, .bar ssn _ (amlReoForwardTo_forwarded (c := e.ctx reo) settled.toCoherent ssn)⟩
  | aging now =>
      obtain ⟨d, ran, aged⟩ := amlReoAging_aged now (c := e.ctx reo) settled.toCoherent
      refine ⟨_, ?_, .aging now d aged⟩
      rw [Endpoint.stepSession, ran]
      rfl
  | resetAll =>
      have pending : Coherent { reo with reset := true } :=
        settled.toCoherent.of_held rfl rfl rfl rfl rfl rfl rfl
      exact ⟨_, rfl, .resetAll _ (amlReoForwardAll_drained
        (c := e.ctx { reo with reset := true }) pending.toWindowed)⟩
  | addkey => exact ⟨_, rfl, .addkey⟩
  | release =>
      have unlisted : Windowed { reo with onAgingList := false } :=
        { settled.toWindowed with }
      exact ⟨_, rfl, .release _ (amlReoForwardAll_drained
        (c := e.ctx { reo with onAgingList := false }) unlisted)⟩

/-- A step leaves the session settled. -/
theorem Stepped.settled {e next : Endpoint α} {reo : Session α} {event : Event α}
    (settled : Reorder.Settled reo) (stepped : Stepped e reo event next) : next.Settled := by
  have live : ∀ (e : Endpoint α) (c : Ctx α), Reorder.Settled c.reo → (e.live c).Settled := by
    intro e c kept reo' same
    cases same
    exact kept
  cases stepped with
  | enqueue now skb m d opened enqueued =>
      refine live _ d ⟨enqueued.coherent (opened.coherent settled.toCoherent), fun pending => ?_⟩
      rw [enqueued.reset_eq, opened.reset_eq] at pending
      cases pending
  | bar ssn d forwarded =>
      refine live _ d ⟨forwarded.coherent settled.toCoherent ssn.isLt, fun pending => ?_⟩
      rw [forwarded.reset_eq] at pending
      exact forwarded.lsn_eq (settled.reset pending)
  | aging now d aged => exact live _ d (aged.settled settled)
  | resetAll d drained =>
      exact live _ d ⟨drained.coherent (settled.toCoherent.of_held rfl rfl rfl rfl rfl rfl rfl),
        fun _ => drained.lsn_eq⟩
  | addkey =>
      exact live _ _ ⟨settled.toCoherent.of_held rfl rfl rfl rfl rfl rfl rfl, settled.reset⟩
  | release d _ =>
      intro reo' gone
      cases gone

/-- Every event off the blind spot succeeds and leaves a settled session. -/
theorem Endpoint.step_settled (e : Endpoint α) (event : Event α) (settled : e.Settled)
    (off : OffBlindSpot e event) : ∃ next, e.step event = .ok next ∧ next.Settled := by
  cases present : e.reo with
  | none => exact ⟨e, by rw [Endpoint.step, present], settled⟩
  | some reo =>
      obtain ⟨next, ran, stepped⟩ := Endpoint.step_stepped present (settled reo present) off
      exact ⟨next, ran, stepped.settled (settled reo present)⟩

/-! ## Sessions with at least two slots -/

theorem Opened.bufSize_eq {c m : Ctx α} {skb : Mpdu α} (opened : Opened c skb m) :
    m.reo.bufSize = c.reo.bufSize := by
  cases opened with
  | same _ same _ _ => exact same.bufSize
  | reset _ _ moved => rw [moved]

theorem Disposed.bufSize_eq {c d : Ctx α} {skb : Mpdu α} (coherent : Coherent c.reo)
    (disposed : Disposed c skb d) : d.reo.bufSize = c.reo.bufSize := by
  cases disposed with
  | rejected same _ => exact same.bufSize
  | replaced _ _ _ _ stored _ _ _ _ => exact stored.bufSize
  | buffered _ _ _ _ _ stored _ _ _ _ => exact stored.bufSize
  | delivered m sn _ dequeued shifted =>
      obtain ⟨_, _, shift, _⟩ := coherent.delivered_shifted sn dequeued
      rw [shifted, shift.bufSize]
      exact dequeued.bufSize

theorem Enqueued.bufSize_eq {c d : Ctx α} {skb : Mpdu α} (enqueued : Enqueued c skb d) :
    d.reo.bufSize = c.reo.bufSize := by
  cases enqueued with
  | stale _ same _ => exact same.bufSize
  | inWindow m _ roomy disposed =>
      rw [disposed.bufSize_eq roomy.coherent]
      rcases roomy.moved with rfl | ⟨_, _, _, _, shifted⟩
      · rfl
      · exact shifted.bufSize

theorem Forwarded.bufSize_eq {c d : Ctx α} {ssn : Nat} (forwarded : Forwarded c ssn d) :
    d.reo.bufSize = c.reo.bufSize := by
  cases forwarded with
  | here _ unchanged => rw [unchanged]
  | moved _ _ reset => rw [reset, amlReoResetSsn]
  | stale _ _ _ unchanged => rw [unchanged]
  | flushed m _ _ shifted reset => rw [reset, amlReoResetSsn, shifted.bufSize]

theorem Drained.bufSize_eq {c d : Ctx α} (drained : Drained c d) :
    d.reo.bufSize = c.reo.bufSize := by
  cases drained with
  | empty _ unchanged => rw [unchanged]
  | flushed m _ shifted _ reset => rw [reset, amlReoResetSsn, shifted.bufSize]

theorem Aged.bufSize_eq {c d : Ctx α} (aged : Aged c d) : d.reo.bufSize = c.reo.bufSize := by
  cases aged with
  | kept lastAging =>
      obtain ⟨_, rfl⟩ := lastAging
      rfl
  | shifted _ _ _ m _ _ shifted _ lastAging =>
      obtain ⟨_, rfl⟩ := lastAging
      exact shifted.bufSize

/-- The buffer size of a session never changes. -/
theorem Stepped.bufSize_eq {e next : Endpoint α} {reo : Session α} {event : Event α}
    (stepped : Stepped e reo event next) {reo' : Session α} (present : next.reo = some reo') :
    reo'.bufSize = reo.bufSize := by
  cases stepped with
  | enqueue now skb m d opened enqueued =>
      cases present
      rw [enqueued.bufSize_eq, opened.bufSize_eq]
      rfl
  | bar ssn d forwarded =>
      cases present
      exact forwarded.bufSize_eq
  | aging now d aged =>
      cases present
      exact aged.bufSize_eq
  | resetAll d drained =>
      cases present
      exact drained.bufSize_eq
  | addkey =>
      cases present
      rfl
  | release d _ => cases present

/-- A place whose session, if any, is settled and has a buffer of at least two slots. -/
structure Endpoint.Wide (e : Endpoint α) : Prop where
  settled : e.Settled
  two_le : ∀ reo, e.reo = some reo → 2 ≤ reo.bufSize

theorem Endpoint.Wide.offBlindSpot {β : Type*} {e : Endpoint β} (wide : e.Wide)
    (event : Event α) :
    OffBlindSpot e event := by
  cases event with
  | enqueue now skb =>
      rintro reo present ⟨_, size, _⟩
      have := wide.two_le reo present
      omega
  | bar | aging | resetAll | addkey | release => trivial

/-- Every event succeeds on a session of at least two slots. -/
theorem Endpoint.Wide.step {e : Endpoint α} (wide : e.Wide) (event : Event α) :
    ∃ next, e.step event = .ok next ∧ next.Wide := by
  have off := wide.offBlindSpot event
  cases present : e.reo with
  | none => exact ⟨e, by rw [Endpoint.step, present], wide⟩
  | some reo =>
      obtain ⟨next, ran, stepped⟩ := Endpoint.step_stepped present (wide.settled reo present) off
      refine ⟨next, ran, stepped.settled (wide.settled reo present), fun reo' present' => ?_⟩
      rw [stepped.bufSize_eq present']
      exact wide.two_le reo present

end AmlW2.Reorder
