import AmlW2.Lib.Rising
import AmlW2.Reorder.BlockAckReq

/-!
# Unwrapped sequence numbers

Every MPDU handed to a session is tagged with the distance its number has from the first window
start, counted without wrapping.  The tags of the frames on the delivery list increase strictly, so
no frame is delivered twice or after a later one.
-/

namespace AmlW2.Reorder

variable {α : Type*}

/-! ## Tagged runs -/

/-- The tag of an MPDU. -/
def Mpdu.number (skb : Mpdu (α × Nat)) : Nat := skb.data.2

/-- An MPDU with its tag. -/
def Mpdu.tag (skb : Mpdu α) (number : Nat) : Mpdu (α × Nat) :=
  { skb with data := (skb.data, number) }

/-- A session whose MPDUs are tagged, and the total advance of its window start. -/
structure Numbering (α : Type*) where
  advance : Nat
  place : Endpoint (α × Nat)

/-- The advance and the window start from which an event is numbered.  The first MPDU after a reset
begins a new pass through the numbers. -/
def Numbering.origin (advance : Nat) (reo : Session (α × Nat)) : Event α → Nat × Nat
  | .enqueue _ skb => if reo.reset then (advance + 4096, skb.sn.val) else (advance, reo.ssn)
  | _ => (advance, reo.ssn)

/-- An event whose MPDU, if any, is tagged with its distance from the origin. -/
def Event.tagged (origin : Nat × Nat) : Event α → Event (α × Nat)
  | .enqueue now skb => .enqueue now (skb.tag (origin.1 + snSub skb.sn origin.2))
  | .bar ssn => .bar ssn
  | .aging now => .aging now
  | .resetAll => .resetAll
  | .addkey => .addkey
  | .release => .release

/-- One event of a tagged run. -/
def Numbering.step (n : Numbering α) (event : Event α) : Except Fault (Numbering α) :=
  match n.place.reo with
  | none => .ok n
  | some reo =>
      let origin := Numbering.origin n.advance reo event
      (n.place.step (event.tagged origin)).map fun place =>
        match place.reo with
        | some reo => { advance := origin.1 + snSub reo.ssn origin.2, place }
        | none => { advance := origin.1, place }

/-- Run the events of a list in order on a tagged session. -/
abbrev Numbering.run : List (Event α) → Numbering α → Except Fault (Numbering α) :=
  Run.run Numbering.step

/-! ## Order of the tags -/

/-- The tag of every buffered frame is its distance, and the tags delivered rise up to the advance
of the window start. -/
structure Ordered (advance : Nat) (c : Ctx (α × Nat)) : Prop where
  held : ∀ o skb, c.reo.held o = some skb → skb.number = advance + o
  rising : Rising 0 advance (c.frames.map Mpdu.number)

namespace Ordered

variable {advance : Nat} {c d : Ctx (α × Nat)}

/-- The tags of the buffered frames rise from the advance of the window start. -/
theorem below_rising (ordered : Ordered advance c) (n : Nat) :
    Rising advance (advance + n) ((c.reo.below n).map Mpdu.number) := by
  induction n with
  | zero => exact Rising.nil
  | succ n induction =>
      rw [Session.below_succ, List.map_append]
      apply induction.append _ (by omega) (show advance + n ≤ advance + (n + 1) by omega)
      cases held : c.reo.held n with
      | none => exact Rising.nil
      | some skb =>
          rw [Option.toList_some, List.map_singleton, ordered.held n skb held]
          exact Rising.singleton _

/-- The delivery list after the frames less than `n` past the window start were released. -/
theorem passed_rising (ordered : Ordered advance c) (n : Nat) :
    Rising 0 (advance + n) ((c.frames ++
      Filter.passed pnStep c.reo.pnState (c.reo.below n)).map Mpdu.number) := by
  rw [List.map_append]
  exact ordered.rising.append ((ordered.below_rising n).sublist
    ((Filter.passed_sublist pnStep _ _).map _)) (by omega) (by omega)

theorem same (ordered : Ordered advance c) (same : SameWindow c d) : Ordered advance d :=
  ⟨same.held ▸ ordered.held, same.frames ▸ ordered.rising⟩

/-- A shift releases the frames before the new window start, in order. -/
theorem shifted (ordered : Ordered advance c) {t e : Nat} (stops : StopsAt c.reo t e)
    (shifted : Shifted c e d) : Ordered (advance + e) d := by
  constructor
  · intro o skb held
    rw [shifted.held] at held
    split at held
    · cases held
    · rw [ordered.held _ skb held, Nat.add_assoc]
  · rw [shifted.frames, stops.passed_eq]
    exact ordered.passed_rising e

theorem stored (ordered : Ordered advance c) {n : Nat} {skb : Mpdu (α × Nat)}
    (number : skb.number = advance + n) (stored : Stored c n skb d) : Ordered advance d := by
  constructor
  · intro o skb' held
    rw [stored.held] at held
    split at held
    · rename_i here
      cases held
      rw [number, here]
    · exact ordered.held o skb' held
  · exact stored.frames ▸ ordered.rising

end Ordered

theorem snAdd_zero {ssn : Nat} (ssn_lt : ssn < 4096) : snAdd ssn 0 = ssn := by
  rw [snAdd, Nat.add_zero, Nat.mod_eq_of_lt ssn_lt]

theorem snAdd_snAdd (ssn a b : Nat) : snAdd (snAdd ssn a) b = snAdd ssn (a + b) := by
  simp only [snAdd]
  omega

/-- An MPDU in the window is stored at its tag or delivered in the order of its tag. -/
theorem Disposed.ordered {advance : Nat} {c d : Ctx (α × Nat)} {skb : Mpdu (α × Nat)}
    (coherent : Coherent c.reo) (disposed : Disposed c skb d) (ordered : Ordered advance c)
    (number : skb.number = advance + snSub skb.sn c.reo.ssn) :
    ∃ a ≤ 1025, d.reo.ssn = snAdd c.reo.ssn a ∧ Ordered (advance + a) d := by
  have start := snAdd_zero coherent.ssn_lt
  have win_le := coherent.win_le
  cases disposed with
  | rejected same _ => exact ⟨0, by omega, by rw [same.ssn, start], ordered.same same⟩
  | replaced n skb0 sn occupied stored _ _ _ _ =>
      have n_lt := Session.lt_winSize_of_held occupied
      rw [sn, snSub_snAdd (by omega)] at number
      exact ⟨0, by omega, by rw [stored.ssn, start], ordered.stored number stored⟩
  | buffered n _ n_lt sn _ stored _ _ _ _ =>
      have := coherent.buf_le
      rw [sn, snSub_snAdd (by omega)] at number
      exact ⟨0, by omega, by rw [stored.ssn, start], ordered.stored number stored⟩
  | delivered m sn accepted dequeued shifted =>
      obtain ⟨e, stops, shift, _⟩ := coherent.delivered_shifted sn dequeued
      have e_le : e ≤ 1024 := by
        have shiftable := coherent.shiftable_delivered sn dequeued
        have within := shiftable.stop_le_max stops
        have := shiftable.buf_le
        omega
      have advanced : Ordered (advance + 1) (m.startAt (snInc skb.sn)) := by
        constructor
        · intro o skb' held
          rw [coherent.held_delivered sn dequeued] at held
          rw [ordered.held _ skb' held]
          omega
        · have tag : skb.number = advance := by
            rw [number, sn, snSub_self, Nat.add_zero]
          have frames : (m.startAt (snInc skb.sn)).frames = c.frames ++ [skb] :=
            dequeued.frames_delivered.1
          rw [frames, List.map_append, List.map_singleton, tag]
          exact ordered.rising.append (Rising.singleton _) (by omega) (by omega)
      refine ⟨1 + e, by omega, ?_, ?_⟩
      · rw [shifted, shift.ssn]
        change snAdd (snInc skb.sn) e = _
        rw [snInc, snAdd_snAdd, sn]
      · rw [shifted, ← Nat.add_assoc]
        exact advanced.shifted stops shift

theorem Enqueued.ordered {advance : Nat} {c d : Ctx (α × Nat)} {skb : Mpdu (α × Nat)}
    (coherent : Coherent c.reo) (enqueued : Enqueued c skb d) (ordered : Ordered advance c)
    (number : skb.number = advance + snSub skb.sn c.reo.ssn) :
    ∃ a < 4096, d.reo.ssn = snAdd c.reo.ssn a ∧ Ordered (advance + a) d := by
  cases enqueued with
  | stale _ same _ =>
      exact ⟨0, by omega, by rw [same.ssn, snAdd_zero coherent.ssn_lt], ordered.same same⟩
  | inWindow m ahead roomy disposed =>
      have half : snSub skb.sn c.reo.ssn ≤ 2048 := by
        rw [← Bool.not_eq_true, snLess_iff] at ahead
        omega
      obtain ⟨e, e_le, moved, ordered_m⟩ : ∃ e ≤ snSub skb.sn c.reo.ssn,
          m.reo.ssn = snAdd c.reo.ssn e ∧ Ordered (advance + e) m := by
        rcases roomy.moved with rfl | ⟨t, e, stops, e_le, shifted⟩
        · exact ⟨0, by omega, (snAdd_zero coherent.ssn_lt).symm, ordered⟩
        · exact ⟨e, e_le, shifted.ssn, ordered.shifted stops shifted⟩
      have closer : snSub skb.sn c.reo.ssn = e + snSub skb.sn m.reo.ssn := by
        rw [moved]
        simp only [snSub, snAdd] at e_le half ⊢
        omega
      obtain ⟨a, a_le, ssn, ordered_d⟩ := disposed.ordered roomy.coherent ordered_m
        (by rw [number, closer, Nat.add_assoc])
      refine ⟨e + a, by omega, ?_, ?_⟩
      · rw [ssn, moved, snAdd_snAdd]
      · rwa [← Nat.add_assoc]

/-! ## Steps of a tagged run -/

/-- The advance that bounds the tags delivered so far. -/
def Numbering.front (advance : Nat) (reset : Bool) : Nat :=
  if reset then advance + 4096 else advance

/-- Both the state of the session and the order of the tags. -/
structure Numbering.Ordered (n : Numbering α) : Prop where
  settled : n.place.Settled
  sorted : (n.place.frames.map Mpdu.number).Pairwise (· < ·)
  live : ∀ reo, n.place.reo = some reo →
    Reorder.Ordered (Numbering.front n.advance reo.reset) (n.place.ctx reo)

/-- No MPDU is at the blind spot, and every block-ack request is served. -/
def Numbering.Served (n : Numbering α) : Event α → Prop
  | .enqueue _ skb => ∀ reo, n.place.reo = some reo → ¬BlindSpot reo skb.sn
  | .bar ssn => ∀ reo, n.place.reo = some reo → BarServed reo ssn
  | _ => True

namespace Ordered

variable {front : Nat} {c d : Ctx (α × Nat)}

/-- An empty window may be numbered from any point past the tags delivered. -/
theorem of_empty {front' : Nat} (ordered : Ordered front c) (le : front ≤ front')
    (empty : ∀ o, d.reo.held o = none) (frames : d.frames = c.frames) : Ordered front' d := by
  constructor
  · intro o skb held
    rw [empty] at held
    cases held
  · rw [frames]
    exact ordered.rising.mono le

/-- The tags delivered by a flush. -/
theorem flush_rising (ordered : Ordered front c) (windowed : Windowed c.reo)
    (shifted : Shifted c (snSub c.reo.lsn c.reo.ssn + 1) d) :
    Rising 0 (front + (snSub c.reo.lsn c.reo.ssn + 1)) (d.frames.map Mpdu.number) := by
  rw [shifted.frames, windowed.stopsAt_flush.passed_eq]
  exact ordered.passed_rising _

/-- A served request moves the window start forward past the tags delivered. -/
theorem forwarded (ordered : Ordered front c) (coherent : Coherent c.reo) {ssn : Nat}
    (ssn_lt : ssn < 4096) (served : BarServed c.reo ssn) (forwarded : Forwarded c ssn d) :
    Ordered (front + snSub d.reo.ssn c.reo.ssn) d := by
  have span := coherent.span
  have buf_le := coherent.buf_le
  cases forwarded with
  | here _ unchanged =>
      subst unchanged
      rw [snSub_self]
      exact ordered
  | moved empty _ reset =>
      subst reset
      exact ordered.of_empty (by omega)
        ((coherent.flushed empty).held_eq_none _ rfl rfl ssn_lt) rfl
  | stale _ _ _ unchanged =>
      subst unchanged
      rw [snSub_self]
      exact ordered
  | flushed m buffered ahead shifted reset =>
      subst reset
      have flushed := coherent.toWindowed.flushed_after shifted
      have start_lt := coherent.ssn_lt
      have last_lt := coherent.lsn_lt
      constructor
      · intro o skb held
        rw [flushed.held_eq_none (amlReoResetSsn m.reo ssn) rfl rfl ssn_lt] at held
        cases held
      · change Rising 0 (front + snSub ssn c.reo.ssn) (m.frames.map Mpdu.number)
        by_cases within : snSub ssn c.reo.ssn ≤ snSub c.reo.lsn c.reo.ssn
        · -- only the last number is served, and its frame is not delivered
          have ahead_eq : snLess c.reo.ssn ssn = true ∧ snLess c.reo.lsn ssn = false := by
            rw [coherent.toWindowed.inside_iff]
            refine ⟨?_, within⟩
            simp only [snLess_iff, snSub] at ahead span ⊢
            omega
          obtain ⟨at_last, fails⟩ := served.inside ahead_eq.1 ahead_eq.2
          have stops : StopsAt c.reo (snSub ssn c.reo.ssn) (snSub ssn c.reo.ssn) :=
            ⟨Nat.le_refl _, fun o above below => by omega, fails⟩
          subst at_last
          rw [shifted.frames, coherent.toWindowed.stopsAt_flush.passed_eq, stops.passed_eq]
          exact ordered.passed_rising _
        · exact (ordered.flush_rising coherent.toWindowed shifted).mono (by omega)

theorem aged (ordered : Ordered front c) (coherent : Coherent c.reo) (aged : Aged c d) :
    Ordered (front + snSub d.reo.ssn c.reo.ssn) d := by
  cases aged with
  | kept lastAging =>
      obtain ⟨now, rfl⟩ := lastAging
      rw [snSub_self]
      exact ⟨ordered.held, ordered.rising⟩
  | shifted o e skb m expired stops shifted _ lastAging =>
      obtain ⟨now, rfl⟩ := lastAging
      have o_le := (coherent.placed o skb expired).2.2
      have span := coherent.span
      have buf_le := coherent.buf_le
      have e_le := (coherent.shiftable (o + 1)).stop_le_max stops
      have advance : snSub m.reo.ssn c.reo.ssn = e := by
        rw [shifted.ssn, snSub_snAdd (by omega)]
      have moved := ordered.shifted stops shifted
      change Ordered (front + snSub m.reo.ssn c.reo.ssn) _
      rw [advance]
      exact ⟨moved.held, moved.rising⟩

/-- Draining a window delivers its frames in order. -/
theorem drained (ordered : Ordered front c) (windowed : Windowed c.reo) (drained : Drained c d) :
    Rising 0 (if c.reo.lsn = c.reo.ssn then front else front + (snSub d.reo.ssn c.reo.ssn + 1))
      (d.frames.map Mpdu.number) := by
  cases drained with
  | empty empty unchanged =>
      subst unchanged
      rw [if_pos empty]
      exact ordered.rising
  | flushed m buffered shifted _ reset =>
      subst reset
      rw [if_neg buffered]
      have rising := ordered.flush_rising windowed shifted
      exact rising

theorem opened {advance : Nat} {skb : Mpdu (α × Nat)}
    (ordered : Ordered (Numbering.front advance c.reo.reset) c) (coherent : Coherent c.reo)
    (opened : Opened c skb d) :
    Ordered (Numbering.front advance c.reo.reset) d ∧
      d.reo.ssn = if c.reo.reset then skb.sn.val else c.reo.ssn := by
  cases opened with
  | same running same _ _ =>
      rw [running, if_neg Bool.false_ne_true]
      exact ⟨running ▸ ordered.same same, same.ssn⟩
  | reset pending empty moved =>
      subst moved
      rw [pending, if_pos rfl]
      refine ⟨pending ▸ ordered.of_empty (Nat.le_refl _) ?_ rfl, rfl⟩
      exact (coherent.flushed empty).held_eq_none _ rfl rfl skb.sn.isLt

end Ordered

theorem Numbering.origin_enqueue (advance : Nat) (reo : Session (α × Nat)) (now : Jiffies)
    (skb : Mpdu α) :
    Numbering.origin advance reo (.enqueue now skb) =
      (Numbering.front advance reo.reset, if reo.reset then skb.sn.val else reo.ssn) := by
  simp only [Numbering.origin, Numbering.front]
  split <;> rfl

/-- A step of a tagged run, from the step of its session. -/
theorem Numbering.step_eq {n : Numbering α} {reo : Session (α × Nat)}
    (present : n.place.reo = some reo) {event : Event α} {place : Endpoint (α × Nat)}
    (ran : n.place.step (event.tagged (Numbering.origin n.advance reo event)) = .ok place) :
    n.step event = .ok (match place.reo with
      | some reo' =>
          { advance := (Numbering.origin n.advance reo event).1 +
              snSub reo'.ssn (Numbering.origin n.advance reo event).2, place }
      | none => { advance := (Numbering.origin n.advance reo event).1, place }) := by
  simp only [Numbering.step, present, ran, Except.map]

@[simp]
theorem Numbering.front_add (advance forward : Nat) (reset : Bool) :
    Numbering.front (advance + forward) reset = Numbering.front advance reset + forward := by
  cases reset
  · rfl
  · exact Nat.add_right_comm advance forward 4096

theorem Numbering.front_le (advance : Nat) (reset : Bool) :
    Numbering.front advance reset ≤ advance + 4096 := by
  cases reset
  · exact Nat.le_add_right advance 4096
  · exact Nat.le_refl _

theorem Numbering.Ordered.of_live {e : Endpoint (α × Nat)} {d : Ctx (α × Nat)} {advance : Nat}
    (settled : Reorder.Settled d.reo)
    (ordered : Reorder.Ordered (Numbering.front advance d.reo.reset) d) :
    Numbering.Ordered (α := α) { advance, place := e.live d } := by
  refine ⟨?_, ordered.rising.sorted, ?_⟩
  · intro reo same
    cases same
    exact settled
  · intro reo same
    cases same
    exact ordered

namespace Ordered

variable {c d m : Ctx (α × Nat)} {advance : Nat}

/-- An MPDU tagged with its place in the window as it is opened. -/
theorem enqueued {skb : Mpdu (α × Nat)} (ordered : Ordered (Numbering.front advance c.reo.reset) c)
    (coherent : Coherent c.reo) (opened : Opened c skb m) (enqueued : Enqueued m skb d)
    (number : skb.number = Numbering.front advance c.reo.reset +
      snSub skb.sn (if c.reo.reset then skb.sn.val else c.reo.ssn)) :
    Ordered (Numbering.front advance c.reo.reset +
      snSub d.reo.ssn (if c.reo.reset then skb.sn.val else c.reo.ssn)) d := by
  obtain ⟨ordered_m, ssn⟩ := ordered.opened coherent opened
  obtain ⟨a, a_lt, moved, ordered_d⟩ :=
    enqueued.ordered (opened.coherent coherent) ordered_m (by rw [ssn]; exact number)
  rw [moved, ssn, snSub_snAdd a_lt]
  exact ordered_d

/-- A reset drains the window, and the next MPDU is one window further at least. -/
theorem resetAll (ordered : Ordered (Numbering.front advance c.reo.reset) c)
    (settled : Reorder.Settled c.reo)
    (drained : Drained { c with reo := { c.reo with reset := true } } d) :
    Ordered (Numbering.front (advance + snSub d.reo.ssn c.reo.ssn) true) d := by
  have coherent : Coherent { c.reo with reset := true } :=
    settled.toCoherent.of_held rfl rfl rfl rfl rfl rfl rfl
  have pending : Ordered (Numbering.front advance c.reo.reset)
      { c with reo := { c.reo with reset := true } } := ⟨ordered.held, ordered.rising⟩
  constructor
  · intro o skb held
    rw [(drained.coherent coherent).held_eq_none drained.lsn_eq] at held
    cases held
  · apply (pending.drained coherent.toWindowed drained).mono
    change _ ≤ advance + snSub d.reo.ssn c.reo.ssn + 4096
    split
    · have least := Numbering.front_le advance c.reo.reset
      omega
    · rename_i buffered
      have running : c.reo.reset = false :=
        Bool.eq_false_of_not_eq_true fun pending => buffered (settled.reset pending)
      rw [running]
      change advance + (snSub d.reo.ssn c.reo.ssn + 1) ≤ _
      omega

end Ordered

/-- A served event keeps the tags in order. -/
theorem Numbering.step_ordered (n : Numbering α) (event : Event α) (ordered : n.Ordered)
    (served : n.Served event) : ∃ next, n.step event = .ok next ∧ next.Ordered := by
  cases present : n.place.reo with
  | none => exact ⟨n, by rw [Numbering.step, present], ordered⟩
  | some reo =>
      have settled := ordered.settled reo present
      have live := ordered.live reo present
      have off : OffBlindSpot n.place (event.tagged (Numbering.origin n.advance reo event)) := by
        cases event with
        | enqueue now skb => exact served
        | bar | aging | resetAll | addkey | release => trivial
      obtain ⟨place, ran, stepped⟩ := Endpoint.step_stepped present settled off
      refine ⟨_, Numbering.step_eq present ran, ?_⟩
      have kept := stepped.settled settled
      cases event with
      | enqueue now skb =>
          rw [Numbering.origin_enqueue] at *
          cases stepped with
          | enqueue now _ m d opened enqueued =>
              have moved := live.enqueued settled.toCoherent opened enqueued rfl
              apply Numbering.Ordered.of_live (kept d.reo rfl)
              rw [enqueued.reset_eq, opened.reset_eq]
              exact moved
      | bar ssn =>
          cases stepped with
          | bar ssn d forwarded =>
              apply Numbering.Ordered.of_live (kept d.reo rfl)
              rw [forwarded.reset_eq]
              exact (Numbering.front_add _ _ _).symm ▸
                live.forwarded settled.toCoherent ssn.isLt (served reo present) forwarded
      | aging now =>
          cases stepped with
          | aging now d aged =>
              apply Numbering.Ordered.of_live (kept d.reo rfl)
              rw [aged.reset_eq]
              exact (Numbering.front_add _ _ _).symm ▸ live.aged settled.toCoherent aged
      | resetAll =>
          cases stepped with
          | resetAll d drained =>
              apply Numbering.Ordered.of_live (kept d.reo rfl)
              rw [drained.reset_eq]
              exact Ordered.resetAll (c := n.place.ctx reo) live settled drained
      | addkey =>
          cases stepped with
          | addkey =>
              apply Numbering.Ordered.of_live (kept _ rfl)
              change Reorder.Ordered
                (Numbering.front (n.advance + snSub reo.ssn reo.ssn) reo.reset) _
              rw [snSub_self]
              exact ⟨live.held, live.rising⟩
      | release =>
          cases stepped with
          | release d drained =>
              have unlisted : Windowed { reo with onAgingList := false } :=
                { settled.toWindowed with }
              have ordered_c : Reorder.Ordered _ (n.place.ctx { reo with onAgingList := false }) :=
                ⟨live.held, live.rising⟩
              refine ⟨kept, (ordered_c.drained unlisted drained).sorted, ?_⟩
              intro reo' gone
              cases gone

end AmlW2.Reorder
