import AmlW2.Reorder.Safety
import Mathlib.Algebra.Order.Group.Multiset
import Mathlib.Data.List.Nodup
import Mathlib.Tactic.Abel

/-!
# Conservation of received MPDUs

Every MPDU handed to a session is on the delivery list, in one slot of the window or among the
buffers released, and in one of these places only.
-/

namespace AmlW2.Reorder

variable {α : Type*}

/-! ## One step -/

/-- Everything that a context accounts for. -/
def Ctx.all (c : Ctx α) : Multiset (Mpdu α) :=
  ↑c.frames + ↑(c.reo.below c.reo.winSize) + ↑c.freed

theorem Ctx.all_of_empty {c : Ctx α} (empty : ∀ o, c.reo.held o = none) :
    c.all = ↑c.frames + ↑c.freed := by
  rw [Ctx.all, Session.below_eq_nil empty, Multiset.coe_nil, add_zero]

theorem SameWindow.all_eq {c d : Ctx α} (same : SameWindow c d) {released : List (Mpdu α)}
    (freed : d.freed = c.freed ++ released) : d.all = c.all + ↑released := by
  have below : d.reo.below d.reo.winSize = c.reo.below c.reo.winSize := by
    rw [same.winSize]
    exact below_congr fun o _ => by rw [same.held]
  rw [Ctx.all, Ctx.all, same.frames, below, freed, ← Multiset.coe_add]
  abel

/-- A filter hands up or releases all it is given. -/
theorem passed_add_stopped (state : Bool × Nat) (skbs : List (Mpdu α)) :
    (↑(Filter.passed pnStep state skbs) + ↑(Filter.stopped pnStep state skbs) :
      Multiset (Mpdu α)) = ↑skbs := by
  rw [Multiset.coe_add]
  exact Multiset.coe_eq_coe.mpr (Filter.passed_append_stopped pnStep state skbs)

/-- A shift hands up or releases what it takes out of the window. -/
theorem Shifted.all_eq {c d : Ctx α} {e : Nat} (shape : Shape c.reo) (shifted : Shifted c e d) :
    d.all = c.all := by
  have left := below_after shifted shape.win_pos
  rw [c.reo.below_stable (by omega)] at left
  rw [Ctx.all, Ctx.all, shifted.frames, shifted.freed, shifted.winSize, left,
    ← Multiset.coe_add, ← Multiset.coe_add, ← Multiset.coe_add,
    ← passed_add_stopped c.reo.pnState (c.reo.below (e + 1))]
  abel

/-- An MPDU in the window ends up in one of the three places. -/
theorem Disposed.all_eq {c d : Ctx α} {skb : Mpdu α} (coherent : Coherent c.reo)
    (disposed : Disposed c skb d) : d.all = c.all + {skb} := by
  cases disposed with
  | rejected same freed => exact same.all_eq freed
  | replaced n skb0 _ occupied stored _ _ _ freed =>
      obtain ⟨front, back, before, after⟩ := below_split stored.winSize
        (Session.lt_winSize_of_held occupied) stored.held
      rw [Ctx.all, Ctx.all, stored.frames, before, after, freed, occupied, Option.toList_some,
        ← Multiset.coe_add, ← Multiset.coe_add, ← Multiset.coe_add, ← Multiset.coe_add,
        Multiset.coe_singleton, ← Multiset.cons_coe, ← Multiset.singleton_add]
      abel
  | buffered n _ n_lt _ empty stored _ _ _ freed =>
      have := coherent.buf_le_win
      obtain ⟨front, back, before, after⟩ := below_split stored.winSize (by omega) stored.held
      rw [Ctx.all, Ctx.all, stored.frames, before, after, freed, empty, Option.toList_none,
        List.append_nil, ← Multiset.coe_add, ← Multiset.coe_add, ← Multiset.cons_coe,
        ← Multiset.singleton_add]
      abel
  | delivered m sn accepted dequeued shifted =>
      obtain ⟨e, _, shift, _⟩ := coherent.delivered_shifted sn dequeued
      obtain ⟨frames, freed⟩ := dequeued.frames_delivered
      rw [shifted, shift.all_eq (coherent.shiftable_delivered sn dequeued).toShape, Ctx.all,
        coherent.below_delivered sn dequeued, Ctx.all]
      change (↑m.frames + ↑(c.reo.below c.reo.winSize) + ↑m.freed : Multiset (Mpdu α)) = _
      rw [frames, freed, ← Multiset.coe_add, Multiset.coe_singleton]
      abel

theorem Enqueued.all_eq {c d : Ctx α} {skb : Mpdu α} (enqueued : Enqueued c skb d)
    (coherent : Coherent c.reo) : d.all = c.all + {skb} := by
  cases enqueued with
  | stale _ same freed => exact same.all_eq freed
  | inWindow m _ roomy disposed =>
      rw [disposed.all_eq roomy.coherent]
      rcases roomy.moved with rfl | ⟨_, _, _, _, shifted⟩
      · rfl
      · rw [shifted.all_eq coherent.toShape]

/-- Moving an empty window accounts for the same MPDUs. -/
theorem Flushed.all_eq {c d : Ctx α} (flushed : Flushed c.reo)
    (win : d.reo.winSize = c.reo.winSize) (buf : d.reo.buf = c.reo.buf)
    (ssn_lt : d.reo.ssn < 4096) (frames : d.frames = c.frames) (freed : d.freed = c.freed) :
    d.all = c.all := by
  rw [Ctx.all_of_empty flushed.held,
    Ctx.all_of_empty (flushed.held_eq_none d.reo win buf ssn_lt), frames, freed]

theorem Forwarded.all_eq {c d : Ctx α} {ssn : Nat} (coherent : Coherent c.reo)
    (ssn_lt : ssn < 4096) (forwarded : Forwarded c ssn d) : d.all = c.all := by
  cases forwarded with
  | here _ unchanged => rw [unchanged]
  | moved empty _ reset =>
      subst reset
      exact (coherent.flushed empty).all_eq rfl rfl ssn_lt rfl rfl
  | stale _ _ _ unchanged => rw [unchanged]
  | flushed m _ _ shifted reset =>
      subst reset
      rw [← shifted.all_eq coherent.toShape]
      exact (coherent.toWindowed.flushed_after shifted).all_eq rfl rfl ssn_lt rfl rfl

theorem Drained.all_eq {c d : Ctx α} (windowed : Windowed c.reo) (drained : Drained c d) :
    d.all = c.all := by
  cases drained with
  | empty _ unchanged => rw [unchanged]
  | flushed m _ shifted flushed reset =>
      subst reset
      rw [← shifted.all_eq windowed.toShape]
      exact flushed.all_eq rfl rfl windowed.lsn_lt rfl rfl

/-- A drained window holds nothing. -/
theorem Drained.held_eq_none {c d : Ctx α} (windowed : Windowed c.reo) (drained : Drained c d)
    (o : Nat) : d.reo.held o = none := by
  cases drained with
  | empty empty unchanged =>
      subst unchanged
      exact windowed.held_eq_none empty o
  | flushed m _ _ flushed reset =>
      subst reset
      exact flushed.held_eq_none (amlReoResetSsn m.reo c.reo.lsn) rfl rfl windowed.lsn_lt o

theorem Aged.all_eq {c d : Ctx α} (shape : Shape c.reo) (aged : Aged c d) : d.all = c.all := by
  cases aged with
  | kept lastAging =>
      obtain ⟨_, rfl⟩ := lastAging
      rfl
  | shifted _ _ _ m _ _ shifted _ lastAging =>
      obtain ⟨_, rfl⟩ := lastAging
      rw [← shifted.all_eq shape]
      rfl

theorem Opened.all_eq {c m : Ctx α} {skb : Mpdu α} (coherent : Coherent c.reo)
    (opened : Opened c skb m) : m.all = c.all := by
  cases opened with
  | same _ same _ freed =>
      have none_freed : m.freed = c.freed ++ [] := by rw [freed, List.append_nil]
      rw [same.all_eq none_freed, Multiset.coe_nil, add_zero]
  | reset _ empty moved =>
      subst moved
      exact (coherent.flushed empty).all_eq rfl rfl skb.sn.isLt rfl rfl

/-! ## The slots -/

/-- The MPDUs in the slots of a session. -/
def Session.slots (reo : Session α) : List (Mpdu α) :=
  (List.range reo.winSize).filterMap fun index => (reo.buf index).skb

/-- The slots read from the window start are the slots read from the first. -/
theorem Session.below_perm_slots {reo : Session α} (shape : Shape reo) :
    (reo.below reo.winSize).Perm reo.slots := by
  have rotated : ((List.range reo.winSize).map fun o => (reo.ssn + o) % reo.winSize).Perm
      (List.range reo.winSize) := Serial.rotate_perm reo.ssn reo.winSize
  have read := rotated.filterMap fun index => (reo.buf index).skb
  rw [List.filterMap_map] at read
  refine List.Perm.trans (List.Perm.of_eq ?_) read
  apply List.filterMap_congr
  intro o member
  rw [Session.held, if_pos (List.mem_range.mp member), shape.index_snAdd]
  rfl

/-- The MPDUs that a place holds in slots. -/
def Endpoint.stored (e : Endpoint α) : List (Mpdu α) :=
  match e.reo with
  | some reo => reo.slots
  | none => []

/-- Every MPDU handed to the session is delivered, stored or released, once. -/
def Endpoint.Conserves (e : Endpoint α) : Prop :=
  e.handed.Perm (e.frames ++ e.stored ++ e.freed)

theorem conserves_iff {e : Endpoint α} {reo : Session α} (present : e.reo = some reo)
    (shape : Shape reo) : e.Conserves ↔ (e.ctx reo).all = ↑e.handed := by
  have slots : (↑(reo.below reo.winSize) : Multiset (Mpdu α)) = ↑reo.slots :=
    Multiset.coe_eq_coe.mpr (Session.below_perm_slots shape)
  rw [Endpoint.Conserves, Endpoint.stored, present, ← Multiset.coe_eq_coe, ← Multiset.coe_add,
    ← Multiset.coe_add, ← slots, eq_comm]
  rfl

/-! ## Runs -/

/-- Every event keeps the account. -/
theorem Stepped.conserves {e next : Endpoint α} {reo : Session α} {event : Event α}
    (present : e.reo = some reo) (settled : Reorder.Settled reo) (conserves : e.Conserves)
    (stepped : Stepped e reo event next) : next.Conserves := by
  have shape := settled.toShape
  rw [conserves_iff present shape] at conserves
  have kept := stepped.settled settled
  cases stepped with
  | enqueue now skb m d opened enqueued =>
      rw [conserves_iff rfl (kept d.reo rfl).toShape]
      change d.all = ↑(e.handed ++ [skb])
      rw [enqueued.all_eq (opened.coherent settled.toCoherent), opened.all_eq settled.toCoherent,
        conserves, ← Multiset.coe_add, Multiset.coe_singleton]
  | bar ssn d forwarded =>
      rw [conserves_iff rfl (kept d.reo rfl).toShape]
      exact (forwarded.all_eq settled.toCoherent ssn.isLt).trans conserves
  | aging now d aged =>
      rw [conserves_iff rfl (kept d.reo rfl).toShape]
      exact (aged.all_eq shape).trans conserves
  | resetAll d drained =>
      have pending : Windowed { reo with reset := true } := { settled.toWindowed with }
      rw [conserves_iff rfl (kept d.reo rfl).toShape]
      exact (drained.all_eq pending).trans conserves
  | addkey =>
      rw [conserves_iff rfl (kept _ rfl).toShape]
      exact conserves
  | release d drained =>
      have unlisted : Windowed { reo with onAgingList := false } := { settled.toWindowed with }
      have empty := Ctx.all_of_empty (drained.held_eq_none unlisted)
      rw [drained.all_eq unlisted] at empty
      change e.handed.Perm (d.frames ++ [] ++ d.freed)
      rw [List.append_nil, ← Multiset.coe_eq_coe, ← Multiset.coe_add, ← empty]
      exact conserves.symm

/-- After a reset or a release nothing is stored. -/
theorem Stepped.stored_eq_nil {e next : Endpoint α} {reo : Session α} {event : Event α}
    (settled : Reorder.Settled reo) (stepped : Stepped e reo event next)
    (drains : event = .resetAll ∨ event = .release) : next.stored = [] := by
  have kept := stepped.settled settled
  cases stepped with
  | resetAll d drained =>
      have pending : Windowed { reo with reset := true } := { settled.toWindowed with }
      have below := Session.below_eq_nil (drained.held_eq_none pending) d.reo.winSize
      have slots := Session.below_perm_slots (kept d.reo rfl).toShape
      rw [below] at slots
      exact List.nil_perm.mp slots
  | release d _ => rfl
  | enqueue | bar | aging | addkey => simp at drains

/-- A session of at least two slots that accounts for what was handed to it. -/
structure Endpoint.Balanced (e : Endpoint α) : Prop extends e.Wide where
  conserves : e.Conserves

/-- Every event succeeds and keeps the account. -/
theorem Endpoint.Balanced.step {e : Endpoint α} (balanced : e.Balanced) (event : Event α) :
    ∃ next, e.step event = .ok next ∧ next.Balanced ∧
      (event = .resetAll ∨ event = .release → next.stored = []) := by
  obtain ⟨next, ran, wide⟩ := balanced.toWide.step event
  refine ⟨next, ran, ?_⟩
  cases present : e.reo with
  | none =>
      rw [Endpoint.step, present] at ran
      cases ran
      exact ⟨balanced, fun _ => by rw [Endpoint.stored, present]⟩
  | some reo =>
      have settled := balanced.settled reo present
      obtain ⟨next', ran', stepped⟩ := Endpoint.step_stepped present settled
        (balanced.toWide.offBlindSpot event)
      rw [ran] at ran'
      cases ran'
      exact ⟨⟨wide, stepped.conserves present settled balanced.conserves⟩,
        stepped.stored_eq_nil settled⟩

/-- A new session of at least two slots accounts for nothing. -/
theorem Created.balanced {kernel : Kernel} {now : Jiffies} {req : CreateReq} {e : Endpoint α}
    (created : Created kernel now req e) (two_le : ∀ reo, e.reo = some reo → 2 ≤ reo.bufSize) :
    e.Balanced := by
  refine ⟨⟨created.settled, two_le⟩, ?_⟩
  obtain ⟨reo, rfl, flushed, _⟩ := created.fresh
  have slots := Session.below_perm_slots flushed.toShape
  rw [Session.below_eq_nil flushed.held] at slots
  simp only [Endpoint.Conserves, Endpoint.stored, Endpoint.vacant, List.nil_perm.mp slots]
  exact List.Perm.refl []

/-- At every moment of a run each MPDU handed to the session is on the delivery list, in a slot or
released, in one place and once; after a reset or a release it is not in a slot. -/
theorem mpdus_conserved {kernel : Kernel} {now : Jiffies} {req : CreateReq} {e : Endpoint α}
    (created : Created kernel now req e) (two_le : ∀ reo, e.reo = some reo → 2 ≤ reo.bufSize)
    (events : List (Event α)) :
    Run.Safe Endpoint.step Endpoint.Conserves events e ∧
      ∀ front event back, events = front ++ event :: back →
        (event = .resetAll ∨ event = .release) →
        ∃ next, Endpoint.run (front ++ [event]) e = .ok next ∧ next.stored = [] := by
  have preserved : ∀ (e : Endpoint α) (event : Event α), e.Balanced → True →
      ∃ next, e.step event = .ok next ∧ next.Balanced := by
    intro e event balanced _
    obtain ⟨next, ran, kept, _⟩ := balanced.step event
    exact ⟨next, ran, kept⟩
  have balanced := created.balanced two_le
  have guarded : ∀ events, Run.Guarded Endpoint.step (fun _ _ => True) events e :=
    fun events => Run.guarded_of_forall_split fun _ _ _ _ _ _ => trivial
  refine ⟨(guarded events).safe preserved (fun _ kept => kept.conserves) balanced, ?_⟩
  intro front event back _ drains
  obtain ⟨middle, ran, kept⟩ := Run.run_of_invariant preserved (guarded front) balanced
  obtain ⟨next, stepped, _, empty⟩ := kept.step event
  refine ⟨next, ?_, empty drains⟩
  rw [Endpoint.run, Run.run_append front [event] ran, Run.run_cons_ok [] stepped]
  rfl

theorem mpdus_conserved_opened :
    Run.Safe Endpoint.step Endpoint.Conserves
        [.enqueue 0 ⟨1, true, 4, ()⟩, .enqueue 0 ⟨1, true, 7, ()⟩, .enqueue 0 ⟨0, true, 9, ()⟩,
          .resetAll, .release] (opened 8) ∧
      ∀ front event back,
        [.enqueue 0 ⟨1, true, 4, ()⟩, .enqueue 0 ⟨1, true, 7, ()⟩, .enqueue 0 ⟨0, true, 9, ()⟩,
          .resetAll, .release] = front ++ event :: back →
        (event = .resetAll ∨ event = .release) →
        ∃ next, Endpoint.run (front ++ [event]) (opened 8) = .ok next ∧ next.stored = [] :=
  mpdus_conserved (show Created hz250 0 (addba 8) (opened 8) from rfl)
    opened_eight_wide.two_le _

end AmlW2.Reorder
