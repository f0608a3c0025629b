import Mathlib.Data.List.Sublists
import AmlW2.Lib.Run
import AmlW2.Radar.Queue

/-!
# Short radars

The accounts of a detector for short, weather and interleaved patterns: what it counts in each
sequence against the pulses it took since its last reset.
-/

namespace AmlW2.Radar

/-! ## What a run of the detector is -/

/-- A detector with what it took since its last reset, newest first, and what it just reported. -/
structure Watch where
  pde : PriDetector
  accepted : List Nat := []
  reported : Option PriSequence := none
  deriving DecidableEq, Repr

inductive Event where
  | pulse (ts : BitVec 64) (allocs : Allocs)
  | reset (ts : BitVec 64)

/-- The time stamp of a pulse. -/
def Event.pulseTs : Event → Option Nat
  | .pulse ts _ => some ts.toNat
  | .reset _ => none

/-- The detector looks at the pulse: it comes long enough after the last one. -/
def PriDetector.Takes (pde : PriDetector) (ts : Nat) : Prop :=
  pde.count = 0 ∨ pde.rs.maxPriTolerance ≤ sub64 ts pde.lastTs

instance (pde : PriDetector) (ts : Nat) : Decidable (pde.Takes ts) :=
  inferInstanceAs (Decidable (_ ∨ _))

/-- One event.  Whoever gets a report resets the detector before it adds another pulse, as
`dfs_pattern_detector_add_pulse` does. -/
def Watch.step (w : Watch) : Event → Except Unit Watch
  | .pulse ts allocs =>
      if w.reported.isSome then .error ()
      else
        let added := pdeShortAddPulse w.pde ts.toNat allocs
        .ok {
          pde := added.1
          accepted :=
            if added.1.count = 0 then []
            else if w.pde.Takes ts.toNat then ts.toNat :: w.accepted
            else w.accepted
          reported := added.2 }
  | .reset ts => .ok { pde := priDetectorReset w.pde ts.toNat }

/-- A detector as `pri_detector_init` makes it. -/
def Watch.start (rs : RadarDetectorSpecs) (freq : Nat) : Watch :=
  { pde := priDetectorInit rs freq }

/-- Pulses come in the order of their time stamps. -/
def Nondecreasing (events : List Event) : Prop :=
  (events.filterMap Event.pulseTs).Pairwise (· ≤ ·)

/-- The pulses the detector took in an interval of time. -/
def Watch.within (w : Watch) (first last : Nat) : Nat :=
  w.accepted.countP fun ts => decide (first ≤ ts ∧ ts ≤ last)

/-- What a sequence owes its report: enough of the pulses in one burst are its own, and they
outweigh the others. -/
structure Watch.Detection (w : Watch) (ps : PriSequence) : Prop where
  low : w.pde.rs.priMin ≤ ps.pri
  high : ps.pri ≤ w.pde.rs.priMax
  burst : ∃ first others,
    w.within first (first + (ps.pri * (w.pde.rs.ppb - 1) + 2 * w.pde.rs.maxPriTolerance)) =
      ps.count + others ∧
    w.pde.rs.thresh ps.pri ≤ ps.count ∧ others < ps.count * w.pde.rs.numPri

/-- The accounts are right. -/
structure Watch.Accounts (w : Watch) : Prop where
  counted : w.pde.count = w.pde.pulses.length
  below : w.pde.count < w.pde.maxCount
  spaced : w.pde.pulses.Pairwise fun newer older =>
    older < newer ∧ older + w.pde.rs.maxPriTolerance ≤ newer
  recent : ∀ ts ∈ w.pde.pulses, w.pde.lastTs ≤ ts + w.pde.windowSize
  tallied : ∀ ps ∈ w.pde.sequences,
    ps.count + ps.countFalses = w.accepted.countP fun ts => decide (ps.firstTs ≤ ts)
  sound : ∀ ps, w.reported = some ps → w.Detection ps

/-- Where other pulses are queued, an element for this one can be had if it is asked for. -/
def Watch.Stores (w : Watch) : Event → Prop
  | .pulse _ allocs => w.pde.count = 0 ∨ allocs.elem = true
  | .reset _ => True

instance (w : Watch) (event : Event) : Decidable (w.Stores event) := by
  cases event <;> unfold Watch.Stores <;> infer_instance

/-! ## Sequences -/

/-- What each sequence satisfies, against the pulses taken so far. -/
structure PriSequence.Fits (ps : PriSequence) (rs : RadarDetectorSpecs) (accepted : List Nat) :
    Prop where
  low : rs.priMin ≤ ps.pri
  high : ps.pri ≤ rs.priMax
  dur : ps.dur = ps.pri * (rs.ppb - 1) + 2 * rs.maxPriTolerance
  deadline : ps.deadlineTs ≤ ps.firstTs + ps.dur
  thresh : ps.ppbThresh = rs.thresh ps.pri
  tallied : ps.count + ps.countFalses = accepted.countP fun ts => decide (ps.firstTs ≤ ts)
  started : ∃ ts ∈ accepted, ps.firstTs ≤ ts

/-- A sequence of three pulses or more that the newest pulse lies within. -/
def PriSequence.InTime (ps : PriSequence) (ts : Nat) : Prop :=
  3 ≤ ps.count → ts ≤ ps.firstTs + ps.dur

/-- Walking back over the older pulses either finds none that matches, or ends at one of them, with
every pulse passed on the way counted once. -/
theorem matchOlder_spec (rs : RadarDetectorSpecs) (minValidTs : Nat) {older : List Nat}
    (sorted : older.Pairwise (· > ·)) (falses : Nat) (ps : PriSequence) :
    let found := matchOlder rs minValidTs older falses ps
    (found.pri = ps.pri ∧ found.dur = ps.dur) ∧
      (found = ps ∨
        (found.firstTs ∈ older ∧ minValidTs ≤ found.firstTs ∧
          found.count + found.countFalses = ps.count + ps.countFalses + falses +
            older.countP fun ts => decide (found.firstTs ≤ ts))) := by
  induction older generalizing falses ps with
  | nil => exact ⟨⟨rfl, rfl⟩, .inl rfl⟩
  | cons earlier older induction =>
      obtain ⟨before, sorted'⟩ := List.pairwise_cons.mp sorted
      simp only [matchOlder]
      split
      · exact ⟨⟨rfl, rfl⟩, .inl rfl⟩
      · next valid =>
          split
          · next matched =>
              obtain ⟨⟨pri, dur⟩, found⟩ := induction sorted' 0
                { ps with
                  count := ps.count + 1
                  firstTs := earlier
                  countFalses := ps.countFalses + falses }
              refine ⟨⟨pri, dur⟩, .inr ?_⟩
              rcases found with same | ⟨member, late, tally⟩
              · have none_after :
                    older.countP (fun ts => decide (earlier ≤ ts)) = 0 := by
                  rw [List.countP_eq_zero]
                  intro ts member
                  have := before ts member
                  simp only [decide_eq_true_eq]
                  omega
                rw [same]
                refine ⟨List.mem_cons_self, by simpa using valid, ?_⟩
                simp only [List.countP_cons, none_after]
                simp
                omega
              · have order := before _ member
                refine ⟨List.mem_cons_of_mem _ member, late, ?_⟩
                rw [tally, List.countP_cons]
                simp only [show _ ≤ earlier from Nat.le_of_lt order, decide_true, if_true]
                omega
          · next unmatched =>
              obtain ⟨⟨pri, dur⟩, found⟩ := induction sorted' (falses + 1) ps
              refine ⟨⟨pri, dur⟩, ?_⟩
              rcases found with same | ⟨member, late, tally⟩
              · exact .inl same
              · have order := before _ member
                refine .inr ⟨List.mem_cons_of_mem _ member, late, ?_⟩
                rw [tally, List.countP_cons]
                simp only [show _ ≤ earlier from Nat.le_of_lt order, decide_true, if_true]
                omega

/-- Of what was taken, all that is newer in the queue comes after a pulse up to the one at hand, and
nothing that has left the queue does. -/
theorem countP_since {ts earlier first : Nat} {newer older gone : List Nat}
    (first_le : first ≤ earlier) (now : first ≤ ts) (newer_gt : ∀ taken ∈ newer, earlier < taken)
    (gone_lt : ∀ taken ∈ gone, taken < first) :
    (ts :: (newer ++ earlier :: older ++ gone)).countP (fun taken => decide (first ≤ taken)) =
      newer.length + 2 + older.countP fun taken => decide (first ≤ taken) := by
  have all_newer : newer.countP (fun taken => decide (first ≤ taken)) = newer.length := by
    rw [List.countP_eq_length]
    intro taken member
    have := newer_gt taken member
    simp only [decide_eq_true_eq]
    omega
  have none_gone : gone.countP (fun taken => decide (first ≤ taken)) = 0 := by
    rw [List.countP_eq_zero]
    intro taken member
    have := gone_lt taken member
    simp only [decide_eq_true_eq]
    omega
  simp only [List.countP_cons, List.countP_append, all_newer, none_gone, first_le, now,
    decide_true, if_true]
  omega

/-- A sequence found from a queued pulse fits what was taken, the pulse at hand included. -/
theorem candidate_fits {rs : RadarDetectorSpecs} {ts earlier : Nat} {newer older gone : List Nat}
    (sorted : (newer ++ earlier :: older ++ gone).Pairwise (· > ·))
    (late : ∀ taken ∈ newer ++ earlier :: older ++ gone, taken ≤ ts)
    (low : rs.priMin ≤ delta32 ts earlier) (high : delta32 ts earlier ≤ rs.priMax) :
    (candidate rs ts earlier (newer.length + 1) older).Fits rs
        (ts :: (newer ++ earlier :: older ++ gone)) ∧
      (candidate rs ts earlier (newer.length + 1) older).InTime ts := by
  have parts := List.pairwise_append.mp sorted
  have inner := List.pairwise_append.mp parts.1
  obtain ⟨before, sorted_older⟩ := List.pairwise_cons.mp inner.2.1
  let fresh := newSequence rs ts earlier (newer.length + 1)
  let minValidTs := if ts < fresh.dur then 0 else ts - fresh.dur
  obtain ⟨⟨pri, dur⟩, found⟩ := matchOlder_spec rs minValidTs sorted_older 0 fresh
  -- Whatever the sequence starts with, all that is newer in the queue comes after it.
  have count_from : ∀ first, first ≤ earlier → (∀ taken ∈ gone, taken < first) →
      (ts :: (newer ++ earlier :: older ++ gone)).countP (fun taken => decide (first ≤ taken)) =
        newer.length + 2 + older.countP fun taken => decide (first ≤ taken) :=
    fun first first_le => countP_since first_le
      (Nat.le_trans first_le (late earlier (by simp)))
      fun taken member => inner.2.2 taken member earlier (by simp)
  have earlier_le : earlier ≤ ts := late earlier (by simp)
  unfold candidate
  rcases found with same | ⟨member, valid, tally⟩
  · have gone_lt : ∀ taken ∈ gone, taken < earlier := fun taken member =>
      parts.2.2 earlier (by simp) taken member
    have none_older : older.countP (fun taken => decide (earlier ≤ taken)) = 0 := by
      rw [List.countP_eq_zero]
      intro taken member
      have := before taken member
      simp only [decide_eq_true_eq]
      omega
    simp only [fresh, minValidTs] at same
    simp only [same]
    refine ⟨⟨low, high, rfl, Nat.mod_le _ _, rfl, ?_, ⟨ts, List.mem_cons_self, earlier_le⟩⟩, ?_⟩
    · show 2 + (newer.length + 1 - 1) = _
      rw [show (newSequence rs ts earlier (newer.length + 1)).firstTs = earlier from rfl,
        count_from earlier le_rfl gone_lt, none_older]
      omega
    · intro three
      simp [newSequence] at three
  · have order := before _ member
    have gone_lt : ∀ taken ∈ gone, taken < (matchOlder rs minValidTs older 0 fresh).firstTs :=
      fun taken gone_member => parts.2.2 _ (by simp [member]) taken gone_member
    have first_le : (matchOlder rs minValidTs older 0 fresh).firstTs ≤ ts :=
      Nat.le_trans (Nat.le_of_lt order) earlier_le
    refine ⟨⟨?_, ?_, ?_, Nat.mod_le _ _, rfl, ?_, ⟨ts, List.mem_cons_self, first_le⟩⟩, ?_⟩
    · exact pri ▸ low
    · exact pri ▸ high
    · show (matchOlder rs minValidTs older 0 fresh).dur = _
      rw [dur, show _ = _ from pri]
      rfl
    · rw [count_from _ (Nat.le_of_lt order) gone_lt]
      show (matchOlder rs minValidTs older 0 fresh).count +
        (matchOlder rs minValidTs older 0 fresh).countFalses = _
      rw [tally]
      show 2 + (newer.length + 1 - 1) + 0 + _ = _
      omega
    · intro _
      show ts ≤ (matchOlder rs minValidTs older 0 fresh).firstTs +
        (matchOlder rs minValidTs older 0 fresh).dur
      rw [dur]
      have least : ts - fresh.dur ≤ minValidTs := by
        simp only [minValidTs]
        split <;> omega
      omega

/-- What holds of the sequences there are and of every sequence found holds of all in the end. -/
theorem createFrom_forall {rs : RadarDetectorSpecs} {ts : Nat} (minCount : Nat)
    {good : PriSequence → Prop} {queue : List Nat}
    (found : ∀ newer earlier older, queue = newer ++ earlier :: older →
      rs.priMin ≤ delta32 ts earlier → delta32 ts earlier ≤ rs.priMax →
      good (candidate rs ts earlier (newer.length + 1) older))
    (newer : List Nat) {rest : List Nat} (split : queue = newer ++ rest) (allocs : List Bool)
    {sequences : List PriSequence} (had : ∀ ps ∈ sequences, good ps) :
    ∀ ps ∈ (createFrom rs ts minCount rest newer.length allocs sequences).1, good ps := by
  induction rest generalizing newer allocs sequences with
  | nil => exact had
  | cons earlier older induction =>
      have next : queue = (newer ++ [earlier]) ++ older := by
        rw [split, List.append_assoc]
        rfl
      have longer : (newer ++ [earlier]).length = newer.length + 1 := by simp
      have skip := fun allocs => induction (newer ++ [earlier]) next allocs had
      rw [longer] at skip
      simp only [createFrom]
      split_ifs with small large few got
      · exact skip allocs
      · exact had
      · exact skip allocs
      · have grown : ∀ ps ∈ candidate rs ts earlier (newer.length + 1) older :: sequences,
            good ps := by
          intro ps member
          rcases List.mem_cons.mp member with rfl | member
          · exact found newer earlier older split (by omega) (by omega)
          · exact had ps member
        have rest := induction (newer ++ [earlier]) next allocs.tail grown
        rwa [longer] at rest
      · exact had

/-- Every sequence left after a pulse was left alone, extended or charged with a false pulse, and
its deadline is not past. -/
theorem addToSeqs_forall {rs : RadarDetectorSpecs} {ts : Nat} {sequences : List PriSequence}
    {good : PriSequence → Prop}
    (extended : ∀ ps ∈ sequences, ts ≤ ps.deadlineTs →
      good { ps with lastTs := ts, count := ps.count + 1 })
    (charged : ∀ ps ∈ sequences, ts ≤ ps.deadlineTs →
      good { ps with countFalses := ps.countFalses + 1 })
    (maxCount : Nat) :
    ∀ ps ∈ (addToSeqs rs ts sequences maxCount).1, good ps := by
  induction sequences generalizing maxCount with
  | nil =>
      intro ps member
      cases member
  | cons first others induction =>
      have rest := induction (fun ps member => extended ps (List.mem_cons_of_mem _ member))
        (fun ps member => charged ps (List.mem_cons_of_mem _ member))
      simp only [addToSeqs]
      split_ifs with stale matched
      · exact rest maxCount
      · intro ps member
        rcases List.mem_cons.mp member with rfl | member
        · exact extended first List.mem_cons_self (by omega)
        · exact rest _ ps member
      · intro ps member
        rcases List.mem_cons.mp member with rfl | member
        · exact charged first List.mem_cons_self (by omega)
        · exact rest _ ps member

/-! ## The accounts along a run -/

/-- What a run keeps: the queue is the newest part of what was taken, but for a pulse that made a
detection, and every sequence fits what was taken. -/
structure Watch.Kept (rs : RadarDetectorSpecs) (w : Watch) : Prop where
  specs : w.pde.rs = rs
  maxCount : w.pde.maxCount = rs.ppb * 2
  counted : w.pde.count = w.pde.pulses.length
  below : w.pde.count < w.pde.maxCount
  spaced : w.accepted.Pairwise fun newer older => older + rs.maxPriTolerance ≤ newer
  part : w.pde.pulses.Sublist w.accepted
  queue : w.reported = none → w.pde.pulses <+: w.accepted
  newest : w.reported = none → w.accepted.head? = w.pde.pulses.head?
  last : ∀ ts ∈ w.pde.pulses.head?, w.pde.lastTs = ts
  recent : ∀ ts ∈ w.pde.pulses, w.pde.lastTs ≤ ts + w.pde.windowSize
  fit : ∀ ps ∈ w.pde.sequences, ps.Fits rs w.accepted
  sound : ∀ ps, w.reported = some ps → w.Detection ps

theorem Watch.Kept.accounts {rs : RadarDetectorSpecs} {w : Watch} (kept : w.Kept rs)
    (formed : rs.WellFormed) : w.Accounts := by
  refine ⟨kept.counted, kept.below, ?_, kept.recent, fun ps member => (kept.fit ps member).tallied,
    kept.sound⟩
  rw [kept.specs]
  have tolerance := formed.tolerance_pos
  exact (kept.spaced.sublist kept.part).imp fun apart => ⟨by omega, apart⟩

/-- A detector that took nothing keeps the accounts. -/
theorem Watch.kept_of_empty {rs : RadarDetectorSpecs} (formed : rs.WellFormed) {pde : PriDetector}
    (same : pde.rs = rs) (room : pde.maxCount = rs.ppb * 2) (no_pulse : pde.pulses = [])
    (no_count : pde.count = 0) (no_sequence : pde.sequences = []) :
    Watch.Kept rs { pde := pde } := by
  have two := formed.ppb_two
  refine ⟨same, room, by simp [no_count, no_pulse], ?_, .nil, by simp [no_pulse],
    by simp [no_pulse], by simp [no_pulse], by simp [no_pulse], by simp [no_pulse],
    by simp [no_sequence], by simp⟩
  show pde.count < pde.maxCount
  omega

theorem Watch.start_kept {rs : RadarDetectorSpecs} (formed : rs.WellFormed)
    (short : rs.type ≠ .long) (freq : Nat) : (Watch.start rs freq).Kept rs := by
  apply Watch.kept_of_empty formed <;> simp [priDetectorInit, short]

/-- What was taken is as old as its newest pulse at most. -/
theorem Watch.Kept.taken_le {rs : RadarDetectorSpecs} {w : Watch} (kept : w.Kept rs)
    (quiet : w.reported = none) {ts : Nat} (taken : ts ∈ w.accepted) : ts ≤ w.pde.lastTs := by
  cases shape : w.accepted with
  | nil => simp [shape] at taken
  | cons first older =>
      have head := kept.newest quiet
      rw [shape, List.head?_cons] at head
      have last := kept.last first head.symm
      have spaced := kept.spaced
      rw [shape] at spaced taken
      rcases List.mem_cons.mp taken with rfl | member
      · exact last.ge
      · have := (List.pairwise_cons.mp spaced).1 ts member
        omega

theorem Watch.Kept.empty_of_count {rs : RadarDetectorSpecs} {w : Watch} (kept : w.Kept rs)
    (quiet : w.reported = none) (none : w.pde.count = 0) :
    w.pde.pulses = [] ∧ w.accepted = [] ∧ w.pde.sequences = [] := by
  have no_pulse : w.pde.pulses = [] := List.length_eq_zero_iff.mp (by rw [← kept.counted, none])
  have no_taken : w.accepted = [] := by
    have head := kept.newest quiet
    rw [no_pulse] at head
    exact List.head?_eq_none_iff.mp head
  refine ⟨no_pulse, no_taken, List.eq_nil_iff_forall_not_mem.mpr fun ps member => ?_⟩
  obtain ⟨ts, taken, _⟩ := (kept.fit ps member).started
  simp [no_taken] at taken

/-- A sequence that is extended or charged still fits: the pulse at hand is counted once. -/
theorem PriSequence.Fits.grown {rs : RadarDetectorSpecs} {accepted : List Nat}
    {ps grown : PriSequence} (fits : ps.Fits rs accepted) {ts : Nat}
    (late : ∀ taken ∈ accepted, taken ≤ ts)
    (same : grown.pri = ps.pri ∧ grown.dur = ps.dur ∧ grown.firstTs = ps.firstTs ∧
      grown.deadlineTs = ps.deadlineTs ∧ grown.ppbThresh = ps.ppbThresh)
    (one : grown.count + grown.countFalses = ps.count + ps.countFalses + 1) :
    grown.Fits rs (ts :: accepted) := by
  obtain ⟨pri, dur, firstTs, deadline, thresh⟩ := same
  obtain ⟨taken, member, first_le⟩ := fits.started
  have now : ps.firstTs ≤ ts := Nat.le_trans first_le (late taken member)
  refine ⟨?_, ?_, ?_, ?_, ?_, ?_, ⟨ts, List.mem_cons_self, firstTs ▸ now⟩⟩
  · exact pri ▸ fits.low
  · exact pri ▸ fits.high
  · rw [dur, pri, fits.dur]
  · rw [deadline, firstTs, dur]
    exact fits.deadline
  · rw [thresh, pri, fits.thresh]
  · rw [one, fits.tallied, firstTs, List.countP_cons]
    simp [now]

/-- What the detector works on between the two loops over its sequences and the check. -/
theorem sequences_fit {rs : RadarDetectorSpecs} (formed : rs.WellFormed) {w : Watch}
    (kept : w.Kept rs) (quiet : w.reported = none) {ts : Nat}
    (late : ∀ taken ∈ w.accepted, taken ≤ ts) (allocs : List Bool) :
    let added := pdeShortAddToExistingSeqs w.pde ts
    ∀ ps ∈ (pdeShortCreateSequences added.1 ts added.2 allocs).1.sequences,
      ps.Fits rs (ts :: w.accepted) ∧ ps.InTime ts := by
  obtain ⟨gone, split⟩ := kept.queue quiet
  have tolerance := formed.tolerance_pos
  have decreasing : w.accepted.Pairwise (· > ·) := kept.spaced.imp fun apart => by omega
  have existing : ∀ maxCount, ∀ ps ∈ (addToSeqs rs ts w.pde.sequences maxCount).1,
      ps.Fits rs (ts :: w.accepted) ∧ ps.InTime ts := by
    intro maxCount
    apply addToSeqs_forall
    · intro ps member fresh
      have fits := kept.fit ps member
      refine ⟨fits.grown late ⟨rfl, rfl, rfl, rfl, rfl⟩ (Nat.add_right_comm _ _ _), fun _ => ?_⟩
      exact Nat.le_trans fresh fits.deadline
    · intro ps member fresh
      have fits := kept.fit ps member
      refine ⟨fits.grown late ⟨rfl, rfl, rfl, rfl, rfl⟩ rfl, fun _ => ?_⟩
      exact Nat.le_trans fresh fits.deadline
  intro added
  have found : ∀ newer earlier older, w.pde.pulses = newer ++ earlier :: older →
      rs.priMin ≤ delta32 ts earlier → delta32 ts earlier ≤ rs.priMax →
      (candidate rs ts earlier (newer.length + 1) older).Fits rs (ts :: w.accepted) ∧
        (candidate rs ts earlier (newer.length + 1) older).InTime ts := by
    intro newer earlier older queue low high
    rw [queue] at split
    rw [← split] at decreasing late ⊢
    exact candidate_fits decreasing late low high
  have first := createFrom_forall added.2 found [] rfl allocs
    (existing 0)
  simpa only [added, pdeShortAddToExistingSeqs, pdeShortCreateSequences, kept.specs,
    List.length_nil] using first

/-- A sequence the check picks, among sequences that fit and are in time. -/
theorem detection_of_check {rs : RadarDetectorSpecs} (formed : rs.WellFormed) {w : Watch}
    (ts : Nat) {accepted : List Nat} {ps : PriSequence} (specs : w.pde.rs = rs)
    (taken : w.accepted = accepted) (late : ∀ earlier ∈ accepted, earlier ≤ ts)
    (fit : ∀ other ∈ w.pde.sequences, other.Fits rs accepted ∧ other.InTime ts)
    (picked : pdeShortCheckDetection w.pde = some ps) : w.Detection ps := by
  obtain ⟨fits, in_time⟩ := fit ps (List.mem_of_find?_eq_some picked)
  have enough := List.find?_some picked
  simp only [Bool.and_eq_true, decide_eq_true_eq] at enough
  obtain ⟨thresh, more⟩ := enough
  rw [fits.thresh] at thresh
  have three : 3 ≤ ps.count := Nat.le_trans (formed.thresh_three ps.pri fits.low fits.high) thresh
  refine ⟨specs ▸ fits.low, specs ▸ fits.high, ps.firstTs, ps.countFalses, ?_, specs ▸ thresh,
    more⟩
  rw [fits.tallied, specs, ← fits.dur, Watch.within, taken]
  apply List.countP_congr
  intro earlier member
  have := late earlier member
  have := in_time three
  simp only [decide_eq_true_eq]
  omega

/-- A detector with a pulse queued keeps the accounts, where it kept them up to its sequences. -/
theorem Queued.kept {rs : RadarDetectorSpecs} {pde queued : PriDetector} {ts : Nat}
    {accepted : List Nat} (added : Queued pde queued ts) (specs : pde.rs = rs)
    (room : pde.maxCount = rs.ppb * 2) (queue : pde.pulses <+: accepted)
    (spaced : (ts :: accepted).Pairwise fun newer older => older + rs.maxPriTolerance ≤ newer)
    (fit : ∀ ps ∈ pde.sequences, ps.Fits rs (ts :: accepted)) :
    Watch.Kept rs { pde := queued, accepted := ts :: accepted } := by
  have trimmed := added.trimmed
  have front : queued.pulses <+: ts :: accepted :=
    trimmed.newest.trans (List.cons_prefix_cons.mpr ⟨rfl, queue⟩)
  obtain ⟨older, head⟩ := added.newest
  refine ⟨trimmed.rs.trans specs, trimmed.maxCount.trans room, trimmed.counted, ?_, spaced,
    front.sublist, fun _ => front, fun _ => by simp [head], ?_, ?_, ?_, by simp⟩
  · show queued.count < queued.maxCount
    rw [trimmed.maxCount]
    exact added.below
  · show ∀ first ∈ queued.pulses.head?, queued.lastTs = first
    rw [trimmed.lastTs, head]
    simp
  · show ∀ earlier ∈ queued.pulses, queued.lastTs ≤ earlier + queued.windowSize
    rw [trimmed.lastTs, trimmed.windowSize]
    exact added.recent
  · show ∀ ps ∈ queued.sequences, ps.Fits rs (ts :: accepted)
    rw [trimmed.sequences]
    exact fit

theorem sorted_of_spaced {tolerance : Nat} {taken : List Nat}
    (spaced : taken.Pairwise fun newer older => older + tolerance ≤ newer) :
    taken.Pairwise (· ≥ ·) :=
  spaced.imp fun apart => by omega

/-- A pulse the detector takes while others are queued: the sequences grow, and then it is queued,
reported or lost in a reset. -/
theorem Watch.kept_of_taken {rs : RadarDetectorSpecs} (formed : rs.WellFormed) {w : Watch}
    (kept : w.Kept rs) (quiet : w.reported = none) {ts : Nat} {allocs : Allocs}
    (stores : allocs.elem = true) (some_count : w.pde.count ≠ 0) (fits : ts < 2 ^ 64)
    (late : ∀ taken ∈ w.accepted, taken ≤ ts)
    (far : ¬sub64 ts w.pde.lastTs < w.pde.rs.maxPriTolerance) :
    Watch.Kept rs {
      pde := (pdeShortAddPulse w.pde ts allocs).1
      accepted := if (pdeShortAddPulse w.pde ts allocs).1.count = 0 then [] else ts :: w.accepted
      reported := (pdeShortAddPulse w.pde ts allocs).2 } := by
  have two := formed.ppb_two
  let added := pdeShortAddToExistingSeqs w.pde ts
  let created := pdeShortCreateSequences added.1 ts added.2 allocs.seqs
  have fit : ∀ ps ∈ created.1.sequences, ps.Fits rs (ts :: w.accepted) ∧ ps.InTime ts :=
    sequences_fit formed kept quiet late allocs.seqs
  -- The newest pulse taken is the last one queued, so the new one is far from them all.
  have last_le : w.pde.lastTs ≤ ts := by
    cases shape : w.pde.pulses with
    | nil =>
        rw [kept.counted, shape] at some_count
        exact absurd rfl some_count
    | cons first older =>
        rw [kept.last first (by simp [shape])]
        exact late first (kept.part.subset (by simp [shape]))
  have apart : ∀ taken ∈ w.accepted, taken + rs.maxPriTolerance ≤ ts := by
    intro taken member
    have order := kept.taken_le quiet member
    rw [sub64_of_le last_le fits, kept.specs] at far
    omega
  have spaced : (ts :: w.accepted).Pairwise
      fun newer older => older + rs.maxPriTolerance ≤ newer :=
    List.pairwise_cons.mpr ⟨apart, kept.spaced⟩
  have created_eq : pdeShortCreateSequences added.1 ts added.2 allocs.seqs = created := rfl
  rw [pdeShortAddPulse_far some_count far rfl created_eq]
  split
  · split
    · next unpicked =>
        have room : 2 ≤ w.pde.maxCount := by
          rw [kept.maxCount]
          omega
        have queued := pulseQueueEnqueue_queued created.1 ts kept.counted kept.below
          room
          (sorted_of_spaced (spaced.sublist (kept.part.cons_cons ts)))
        have filled : (pulseQueueEnqueue created.1 ts true).1.count ≠ 0 := by
          obtain ⟨older, head⟩ := queued.newest
          rw [queued.trimmed.counted, head]
          simp
        rw [stores, if_neg filled]
        exact queued.kept kept.specs kept.maxCount (kept.queue quiet) spaced
          fun ps member => (fit ps member).1
    · next ps picked =>
        rw [if_neg (show created.1.count ≠ 0 from some_count)]
        refine ⟨kept.specs, kept.maxCount, kept.counted, kept.below, spaced, kept.part.cons ts,
          fun silent => (by cases silent), fun silent => (by cases silent), kept.last, kept.recent,
          fun ps member => (fit ps member).1, ?_⟩
        intro other same
        obtain rfl := Option.some.inj same
        refine detection_of_check formed ts kept.specs rfl ?_ fit picked
        intro earlier member
        rcases List.mem_cons.mp member with rfl | member
        · exact le_rfl
        · exact late earlier member
  · exact Watch.kept_of_empty formed kept.specs kept.maxCount rfl rfl rfl

/-- One event keeps the accounts, where every pulse that needs an element gets one. -/
theorem Watch.Kept.step {rs : RadarDetectorSpecs} (formed : rs.WellFormed) {w next : Watch}
    {event : Event} (kept : w.Kept rs) (stores : w.Stores event)
    (late : ∀ ts ∈ event.pulseTs, ∀ taken ∈ w.accepted, taken ≤ ts)
    (stepped : w.step event = .ok next) : next.Kept rs := by
  have two := formed.ppb_two
  cases event with
  | reset ts =>
      cases stepped
      exact Watch.kept_of_empty formed kept.specs kept.maxCount rfl rfl rfl
  | pulse ts allocs =>
      have late := late ts.toNat rfl
      simp only [Watch.step] at stepped
      split at stepped
      · cases stepped
      next silent =>
      have quiet : w.reported = none := by simpa using silent
      obtain rfl := Except.ok.inj stepped
      by_cases none : w.pde.count = 0
      · obtain ⟨no_pulse, no_taken, no_sequence⟩ := kept.empty_of_count quiet none
        have first : pdeShortAddPulse w.pde ts.toNat allocs =
            ((pulseQueueEnqueue w.pde ts.toNat allocs.elem).1, Option.none) := if_pos none
        rw [first]
        cases got : allocs.elem with
        | false =>
            simp only [pulseQueueEnqueue, Bool.false_eq_true, if_false, none, if_true]
            exact Watch.kept_of_empty formed kept.specs kept.maxCount no_pulse none no_sequence
        | true =>
            have added := pulseQueueEnqueue_queued w.pde ts.toNat kept.counted kept.below
              (by rw [kept.maxCount]; omega) (by simp [no_pulse])
            have some_count : (pulseQueueEnqueue w.pde ts.toNat true).1.count ≠ 0 := by
              obtain ⟨older, head⟩ := added.newest
              rw [added.trimmed.counted, head]
              simp
            rw [if_neg some_count, if_pos (.inl none), no_taken]
            exact added.kept kept.specs kept.maxCount (by simp [no_pulse])
              (List.pairwise_singleton _ _) (by simp [no_sequence])
      · have elem := stores.resolve_left none
        by_cases near : sub64 ts.toNat w.pde.lastTs < w.pde.rs.maxPriTolerance
        · have same : pdeShortAddPulse w.pde ts.toNat allocs = (w.pde, Option.none) := by
            rw [pdeShortAddPulse, if_neg none, if_pos near]
          have untaken : ¬w.pde.Takes ts.toNat := by
            rintro (no_count | far)
            · exact none no_count
            · omega
          rw [same, if_neg none, if_neg untaken, ← quiet]
          exact kept
        · have takes : w.pde.Takes ts.toNat := .inr (by omega)
          rw [if_pos takes]
          exact Watch.kept_of_taken formed kept quiet elem none ts.isLt late near

/-- Whatever is taken is the pulse at hand or was taken before. -/
theorem Watch.step_taken {w next : Watch} {event : Event} (stepped : w.step event = .ok next) :
    ∀ taken ∈ next.accepted, taken ∈ w.accepted ∨ event.pulseTs = some taken := by
  intro taken member
  cases event with
  | reset ts =>
      cases stepped
      cases member
  | pulse ts allocs =>
      simp only [Watch.step] at stepped
      split at stepped
      · cases stepped
      obtain rfl := Except.ok.inj stepped
      simp only at member
      split_ifs at member
      · cases member
      · rcases List.mem_cons.mp member with rfl | member
        · exact .inr rfl
        · exact .inl member
      · exact .inl member

/-- A whole run keeps the accounts. -/
theorem Watch.Kept.run {rs : RadarDetectorSpecs} (formed : rs.WellFormed) {events : List Event}
    {w final : Watch} (kept : w.Kept rs) (ordered : Nondecreasing events)
    (late : ∀ taken ∈ w.accepted, ∀ ts ∈ events.filterMap Event.pulseTs, taken ≤ ts)
    (stores : Run.Guarded Watch.step Watch.Stores events w)
    (ran : Run.run Watch.step events w = .ok final) : final.Kept rs := by
  induction events generalizing w with
  | nil =>
      cases ran
      exact kept
  | cons event events induction =>
      obtain ⟨next, stepped, rest⟩ := Run.run_cons_eq_ok ran
      have now : ∀ ts ∈ event.pulseTs, ts ∈ (event :: events).filterMap Event.pulseTs := by
        intro ts time
        exact List.mem_filterMap.mpr ⟨event, List.mem_cons_self, time⟩
      have after : ∀ ts ∈ events.filterMap Event.pulseTs,
          ts ∈ (event :: events).filterMap Event.pulseTs := by
        intro ts member
        obtain ⟨later, member, time⟩ := List.mem_filterMap.mp member
        exact List.mem_filterMap.mpr ⟨later, List.mem_cons_of_mem _ member, time⟩
      have kept_next := kept.step formed stores.1
        (fun ts time taken member => late taken member ts (now ts time)) stepped
      apply induction kept_next _ _ (stores.2 next stepped) rest
      · unfold Nondecreasing at ordered ⊢
        exact ordered.sublist ((List.sublist_cons_self event events).filterMap _)
      · intro taken member ts later
        rcases Watch.step_taken stepped taken member with before | time
        · exact late taken before ts (after ts later)
        · unfold Nondecreasing at ordered
          rw [List.filterMap_cons_some time] at ordered
          exact (List.pairwise_cons.mp ordered).1 ts later

/-- The accounts of a detector of any listed pattern but the long ones are right after every event
of a run in which every pulse that needs an element gets one. -/
theorem accounts_of_stores {rs : RadarDetectorSpecs} (listed : rs ∈ listedSpecs)
    (short : rs.type ≠ .long) (freq : Nat) {events : List Event} (ordered : Nondecreasing events)
    (stores : Run.Guarded Watch.step Watch.Stores events (Watch.start rs freq)) :
    Run.Throughout Watch.step Watch.Accounts events (Watch.start rs freq) := by
  intro front back reached split ran
  subst split
  have formed := wellFormed_of_listed listed
  have ordered_front : Nondecreasing front :=
    List.Pairwise.sublist ((List.sublist_append_left front back).filterMap _) ordered
  have none_taken : ∀ taken ∈ (Watch.start rs freq).accepted,
      ∀ ts ∈ front.filterMap Event.pulseTs, taken ≤ ts := by
    intro taken member
    cases member
  exact ((Watch.start_kept formed short freq).run formed ordered_front none_taken
    stores.of_append ran).accounts formed

/-- A pattern with intervals from 134 to 246 microseconds. -/
def fastPattern : RadarDetectorSpecs := fccPattern 2 0 8 150 230 1 23 .short

theorem fastPattern_listed : fastPattern ∈ listedSpecs := by
  decide +kernel

theorem stores_sound (w : Watch) (event : Event) (stored : decide (w.Stores event) = true) :
    w.Stores event :=
  of_decide_eq_true stored

/-- Three pulses in a row and one out of step. -/
def steady : List Event := [.pulse 0 {}, .pulse 150 {}, .pulse 200 {}, .pulse 350 {}]

theorem steady_accounts :
    Run.Throughout Watch.step Watch.Accounts steady (Watch.start fastPattern 5500) :=
  accounts_of_stores fastPattern_listed (by decide) 5500 (by unfold Nondecreasing; decide)
    (Run.guarded_of_check stores_sound (by decide +kernel))

/-! ## Where the accounts go wrong -/

/-- Four pulses, of which the third gets no element. -/
def forgetful : List Event :=
  [.pulse 0 {}, .pulse 150 {}, .pulse 200 { elem := false }, .pulse 350 {}]

theorem forgetful_nondecreasing : Nondecreasing forgetful := by
  unfold Nondecreasing
  decide

/-- The sequences at the end of that run. -/
theorem forgetful_ends :
    ∃ w, Run.run Watch.step forgetful (Watch.start fastPattern 5500) = .ok w ∧
      (w.pde.sequences.map fun ps => (ps.firstTs, ps.count + ps.countFalses)) =
        [(150, 2), (0, 4), (0, 4)] ∧ w.accepted = [350, 200, 150, 0] := by
  obtain ⟨w, ran, ends⟩ := Run.ends_of_toOption
    (show (Run.run Watch.step forgetful (Watch.start fastPattern 5500)).toOption.map (fun w =>
        (w.pde.sequences.map fun ps => (ps.firstTs, ps.count + ps.countFalses), w.accepted)) =
      some ([(150, 2), (0, 4), (0, 4)], [350, 200, 150, 0]) by decide +kernel)
  rw [Prod.mk.injEq] at ends
  exact ⟨w, ran, ends⟩

/-- The pulse that got no element is counted in the sequences there were and missing from the one
found next: no choice of the pulses accepted makes both counts right. -/
theorem forgetful_unaccounted : fastPattern ∈ listedSpecs ∧ Nondecreasing forgetful ∧
    ∃ w, Run.run Watch.step forgetful (Watch.start fastPattern 5500) = .ok w ∧ ¬w.Accounts ∧
      ∀ accepted : List Nat, accepted.Sublist [350, 200, 150, 0] →
        ¬∀ ps ∈ w.pde.sequences,
          ps.count + ps.countFalses = accepted.countP fun ts => decide (ps.firstTs ≤ ts) := by
  obtain ⟨w, ran, shape, taken⟩ := forgetful_ends
  have tally : ∀ accepted : List Nat, (∀ ps ∈ w.pde.sequences,
      ps.count + ps.countFalses = accepted.countP fun ts => decide (ps.firstTs ≤ ts)) →
      ∀ found ∈ [(150, 2), (0, 4), (0, 4)],
        found.2 = accepted.countP fun ts => decide (found.1 ≤ ts) := by
    intro accepted right found member
    rw [← shape] at member
    obtain ⟨ps, live, rfl⟩ := List.mem_map.mp member
    exact right ps live
  have wrong : ∀ accepted ∈ [350, 200, 150, 0].sublists, ¬∀ found ∈ [(150, 2), (0, 4), (0, 4)],
      found.2 = accepted.countP fun ts => decide (found.1 ≤ ts) := by
    decide +kernel
  refine ⟨fastPattern_listed, forgetful_nondecreasing, w, ran, fun accounts => ?_,
    fun accepted part right => ?_⟩
  · exact wrong w.accepted (by rw [taken]; decide) (tally _ accounts.tallied)
  · exact wrong accepted (List.mem_sublists.mpr part) (tally _ right)

end AmlW2.Radar
