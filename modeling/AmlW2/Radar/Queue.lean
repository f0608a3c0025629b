import AmlW2.Radar.Detector

/-!
# The pulse queue

Trimming takes pulses off the old end only, so what is queued is always the newest part of what the
detector took.
-/

namespace AmlW2.Radar

/-- The second detector is the first with pulses taken off the old end of its queue. -/
structure Trimmed (pde trimmed : PriDetector) : Prop where
  rest : trimmed = { pde with pulses := trimmed.pulses, count := trimmed.pulses.length }
  newest : trimmed.pulses <+: pde.pulses

theorem Trimmed.refl {pde : PriDetector} (counted : pde.count = pde.pulses.length) :
    Trimmed pde pde :=
  ⟨by rw [← counted], List.prefix_rfl⟩

theorem Trimmed.trans {pde middle trimmed : PriDetector} (first : Trimmed pde middle)
    (second : Trimmed middle trimmed) : Trimmed pde trimmed := by
  refine ⟨?_, second.newest.trans first.newest⟩
  have rest := second.rest
  rw [first.rest] at rest
  exact rest

theorem Trimmed.counted {pde trimmed : PriDetector} (trim : Trimmed pde trimmed) :
    trimmed.count = trimmed.pulses.length := by
  rw [trim.rest]

theorem Trimmed.rs {pde trimmed : PriDetector} (trim : Trimmed pde trimmed) :
    trimmed.rs = pde.rs := by
  rw [trim.rest]

theorem Trimmed.lastTs {pde trimmed : PriDetector} (trim : Trimmed pde trimmed) :
    trimmed.lastTs = pde.lastTs := by
  rw [trim.rest]

theorem Trimmed.sequences {pde trimmed : PriDetector} (trim : Trimmed pde trimmed) :
    trimmed.sequences = pde.sequences := by
  rw [trim.rest]

theorem Trimmed.maxCount {pde trimmed : PriDetector} (trim : Trimmed pde trimmed) :
    trimmed.maxCount = pde.maxCount := by
  rw [trim.rest]

theorem Trimmed.windowSize {pde trimmed : PriDetector} (trim : Trimmed pde trimmed) :
    trimmed.windowSize = pde.windowSize := by
  rw [trim.rest]

theorem pulseQueueDequeue_trimmed {pde : PriDetector} (counted : pde.count = pde.pulses.length) :
    Trimmed pde (pulseQueueDequeue pde) := by
  unfold pulseQueueDequeue
  split
  · exact .refl counted
  · refine ⟨?_, List.dropLast_prefix _⟩
    simp [counted]

/-- The loop drops nothing that is recent, and with a round for each pulse it drops all that is
not. -/
theorem dequeueOld_spec (minValidTs rounds : Nat) {pde : PriDetector}
    (counted : pde.count = pde.pulses.length) :
    Trimmed pde (dequeueOld minValidTs rounds pde) ∧
      (∀ ts ∈ pde.pulses, minValidTs ≤ ts → ts ∈ (dequeueOld minValidTs rounds pde).pulses) ∧
      (pde.pulses.length ≤ rounds → pde.pulses.Pairwise (· ≥ ·) →
        ∀ ts ∈ (dequeueOld minValidTs rounds pde).pulses, minValidTs ≤ ts) := by
  induction rounds generalizing pde with
  | zero =>
      refine ⟨.refl counted, fun ts member _ => member, fun short _ => ?_⟩
      have none_left : pde.pulses = [] := List.length_eq_zero_iff.mp (by omega)
      simp [dequeueOld, none_left]
  | succ rounds induction =>
      unfold dequeueOld
      split
      · next empty =>
          have none_left : pde.pulses = [] := List.getLast?_eq_none_iff.mp empty
          exact ⟨.refl counted, fun ts member _ => member, by simp [none_left]⟩
      · next oldest tail =>
          split
          · next valid =>
              refine ⟨.refl counted, fun ts member _ => member, fun _ sorted ts member => ?_⟩
              obtain ⟨front, split⟩ := List.getLast?_eq_some_iff.mp tail
              rw [split] at sorted member
              rcases List.mem_append.mp member with newer | last
              · have order := (List.pairwise_append.mp sorted).2.2 ts newer oldest (by simp)
                omega
              · rw [List.mem_singleton.mp last]
                exact valid
          · next stale =>
              obtain ⟨front, split⟩ := List.getLast?_eq_some_iff.mp tail
              have taken := pulseQueueDequeue_trimmed counted
              have left : (pulseQueueDequeue pde).pulses = front := by
                simp [pulseQueueDequeue, split]
              obtain ⟨trimmed, kept, recent⟩ := induction taken.counted
              refine ⟨taken.trans trimmed, fun ts member valid => ?_, fun short sorted => ?_⟩
              · apply kept ts _ valid
                rw [split] at member
                rcases List.mem_append.mp member with newer | last
                · rwa [left]
                · rw [List.mem_singleton.mp last] at valid
                  exact absurd valid stale
              · apply recent
                · rw [left]
                  rw [split, List.length_append, List.length_singleton] at short
                  omega
                · exact sorted.sublist taken.newest.sublist

/-- After the window check every pulse queued lies in the window, and the newest is still there. -/
theorem pulseQueueCheckWindow_spec (pde : PriDetector) {ts : Nat} {older : List Nat}
    (counted : pde.count = pde.pulses.length) (queued : pde.pulses = ts :: older)
    (newest : pde.lastTs = ts) (sorted : pde.pulses.Pairwise (· ≥ ·)) :
    Trimmed pde (pulseQueueCheckWindow pde) ∧ ts ∈ (pulseQueueCheckWindow pde).pulses ∧
      ∀ earlier ∈ (pulseQueueCheckWindow pde).pulses, pde.lastTs ≤ earlier + pde.windowSize := by
  unfold pulseQueueCheckWindow
  split
  · next few =>
      have alone : older = [] := by
        rw [counted, queued, List.length_cons] at few
        exact List.length_eq_zero_iff.mp (by omega)
      refine ⟨.refl counted, by simp [queued], fun earlier member => ?_⟩
      rw [queued, alone, List.mem_singleton] at member
      omega
  · split
    · next early =>
        exact ⟨.refl counted, by simp [queued], fun earlier _ => by omega⟩
    · next late =>
        obtain ⟨trimmed, kept, recent⟩ :=
          dequeueOld_spec (pde.lastTs - pde.windowSize) pde.pulses.length counted
        refine ⟨trimmed, kept ts (by simp [queued]) (by omega), fun earlier member => ?_⟩
        have valid := recent le_rfl sorted earlier member
        omega

/-- What queueing a pulse does: the pulse is the newest, some of the oldest are gone. -/
structure Queued (pde queued : PriDetector) (ts : Nat) : Prop where
  trimmed : Trimmed { pde with
    pulses := ts :: pde.pulses, count := pde.count + 1, lastTs := ts } queued
  newest : ∃ older, queued.pulses = ts :: older
  below : queued.count < pde.maxCount
  recent : ∀ earlier ∈ queued.pulses, ts ≤ earlier + pde.windowSize

theorem pulseQueueEnqueue_queued (pde : PriDetector) (ts : Nat)
    (counted : pde.count = pde.pulses.length) (room : pde.count < pde.maxCount)
    (two : 2 ≤ pde.maxCount) (sorted : (ts :: pde.pulses).Pairwise (· ≥ ·)) :
    Queued pde (pulseQueueEnqueue pde ts true).1 ts := by
  let grown : PriDetector :=
    { pde with pulses := ts :: pde.pulses, count := pde.count + 1, lastTs := ts }
  have counted' : grown.count = grown.pulses.length := by
    simp [grown, counted]
  obtain ⟨trimmed, kept, recent⟩ :=
    pulseQueueCheckWindow_spec grown counted' rfl rfl sorted
  have head : ∃ older, (pulseQueueCheckWindow grown).pulses = ts :: older := by
    have front := trimmed.newest
    cases shape : (pulseQueueCheckWindow grown).pulses with
    | nil => simp [shape] at kept
    | cons first older =>
        rw [shape] at front
        have same : first = ts := by
          have := List.cons_prefix_cons.mp front
          exact this.1
        exact ⟨older, by rw [same]⟩
  have shorter : (pulseQueueCheckWindow grown).count ≤ pde.count + 1 := by
    rw [trimmed.counted, counted]
    simpa [grown] using trimmed.newest.length_le
  simp only [pulseQueueEnqueue, if_true]
  split
  · next full =>
      have taken := pulseQueueDequeue_trimmed trimmed.counted
      rw [trimmed.maxCount] at full
      have length_two : 2 ≤ (pulseQueueCheckWindow grown).pulses.length := by
        rw [← trimmed.counted]
        exact Nat.le_trans two full
      obtain ⟨older, split⟩ := head
      have some_older : older ≠ [] := by
        rintro rfl
        simp [split] at length_two
      have left : (pulseQueueDequeue (pulseQueueCheckWindow grown)).pulses =
          ts :: older.dropLast := by
        simp [pulseQueueDequeue, split, List.dropLast_cons_of_ne_nil some_older]
      refine ⟨trimmed.trans taken, ⟨_, left⟩, ?_, fun earlier member => ?_⟩
      · have one_less : (pulseQueueDequeue (pulseQueueCheckWindow grown)).count =
            (pulseQueueCheckWindow grown).count - 1 := by
          simp [pulseQueueDequeue, split]
        rw [one_less]
        omega
      · exact recent earlier (taken.newest.subset member)
  · next fits =>
      rw [trimmed.maxCount] at fits
      exact ⟨trimmed, head, by simpa [grown] using fits, recent⟩

end AmlW2.Radar
