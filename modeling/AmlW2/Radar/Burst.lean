import Mathlib.Tactic.Ring
import AmlW2.Radar.Dfs
import AmlW2.Radar.Queue

/-!
# Bursts

A burst of a short radar that nothing disturbs is reported by the pulse its threshold asks for.  The
first two pulses make a sequence, and every later one comes within the tolerance and before the
deadline, so the sequence counts them all.
-/

namespace AmlW2.Radar

/-! ## Patterns that leave time enough -/

/-- What a pattern must be like for a burst to reach its threshold before its deadline. -/
structure RadarDetectorSpecs.Prompt (rs : RadarDetectorSpecs) : Prop where
  tolerance : 2 * rs.maxPriTolerance ≤ rs.priMin
  priMax_lt : rs.priMax < 2 ^ 16
  ppb_lt : rs.ppb < 2 ^ 8
  /-- Two thirds of a burst are enough, even one whose every interval is as long as tolerated. -/
  timely : ∀ pri, rs.priMin ≤ pri → pri ≤ rs.priMax → 3 * rs.thresh pri ≤ 2 * rs.ppb + 2

/-- A burst lasts an hour at most. -/
theorem RadarDetectorSpecs.Prompt.dur_lt {rs : RadarDetectorSpecs} (prompt : rs.Prompt) {pri : Nat}
    (low : rs.priMin ≤ pri) (high : pri ≤ rs.priMax) :
    pri * (rs.ppb - 1) + 2 * rs.maxPriTolerance < 2 ^ 32 := by
  have bound := prompt.priMax_lt
  have pulses := prompt.ppb_lt
  have tight := prompt.tolerance
  have product : pri * (rs.ppb - 1) ≤ 2 ^ 16 * 2 ^ 8 :=
    Nat.mul_le_mul (by omega) (by omega)
  omega

theorem listedSpecs_prompt :
    ∀ rs ∈ listedSpecs, rs.type ≠ .long → 2 * rs.maxPriTolerance ≤ rs.priMin ∧ rs.ppb < 2 ^ 8 ∧
      3 * rs.ppbThresh ≤ 2 * rs.ppb + 2 ∧ (rs.type = .weather → rs.ppb = 102) := by
  decide +kernel

theorem prompt_of_listed {rs : RadarDetectorSpecs} (listed : rs ∈ listedSpecs)
    (short : rs.type ≠ .long) : rs.Prompt := by
  obtain ⟨-, -, priMax, -, -, -, weather⟩ := listedSpecs_check rs listed
  obtain ⟨tolerance, ppb, plain, many⟩ := listedSpecs_prompt rs listed short
  refine ⟨tolerance, priMax, ppb, fun pri low high => ?_⟩
  unfold RadarDetectorSpecs.thresh
  split
  · next type =>
      obtain ⟨least, most⟩ := weather type
      have few := weather_pulses (Nat.le_trans least low) (Nat.le_trans high most)
      have enough := many type
      unfold ppbThreshOf
      omega
  · exact plain

/-- The deadline is at least as far off as the pulses that are left to come. -/
theorem within_deadline (ppb intervals : Nat) {pri tolerance : Nat} (tight : 2 * tolerance ≤ pri)
    (begun : 1 ≤ intervals) (timely : 3 * (intervals + 1) ≤ 2 * ppb + 2) :
    intervals * (pri + tolerance) ≤ pri * (ppb - 1) + 3 * tolerance := by
  obtain ⟨later, rfl⟩ := Nat.exists_eq_add_of_le' begun
  obtain ⟨rest, rfl⟩ : ∃ rest, ppb = rest + 1 := ⟨ppb - 1, by omega⟩
  have jitter : later * (2 * tolerance) ≤ later * pri := Nat.mul_le_mul_left later tight
  have room : (3 * later + 2) * pri ≤ 2 * rest * pri := Nat.mul_le_mul_right pri (by omega)
  have twice : 2 * ((later + 1) * (pri + tolerance)) ≤ 2 * (pri * rest + 3 * tolerance) := by
    calc 2 * ((later + 1) * (pri + tolerance)) =
          2 * (later + 1) * pri + later * (2 * tolerance) + 2 * tolerance := by ring
      _ ≤ 2 * (later + 1) * pri + later * pri + 2 * tolerance := by omega
      _ = (3 * later + 2) * pri + 2 * tolerance := by ring
      _ ≤ 2 * rest * pri + 2 * tolerance := by omega
      _ ≤ 2 * rest * pri + 6 * tolerance := by omega
      _ = 2 * (pri * rest + 3 * tolerance) := by ring
  rw [Nat.add_sub_cancel]
  omega

/-! ## The queue of a detector -/

/-- What a detector keeps whatever it takes. -/
def PriDetector.make (pde : PriDetector) : RadarDetectorSpecs × Nat × Nat :=
  (pde.rs, pde.maxCount, pde.freq)

theorem Trimmed.make {pde trimmed : PriDetector} (trim : Trimmed pde trimmed) :
    trimmed.make = pde.make := by
  rw [trim.rest]
  rfl

/-- A detector of a frequency whose newest pulse came at `ts`. -/
structure PriDetector.Newest (pde : PriDetector) (rs : RadarDetectorSpecs) (freq ts : Nat) :
    Prop where
  make : pde.make = (rs, rs.ppb * 2, freq)
  counted : pde.count = pde.pulses.length
  below : pde.count < rs.ppb * 2
  last : pde.lastTs = ts
  head : ∃ older, pde.pulses = ts :: older
  sorted : pde.pulses.Pairwise (· ≥ ·)

section Newest

variable {pde : PriDetector} {rs : RadarDetectorSpecs} {freq ts : Nat}

theorem PriDetector.Newest.specs (newest : pde.Newest rs freq ts) : pde.rs = rs :=
  (Prod.mk.inj newest.make).1

theorem PriDetector.Newest.maxCount (newest : pde.Newest rs freq ts) :
    pde.maxCount = rs.ppb * 2 :=
  (Prod.mk.inj (Prod.mk.inj newest.make).2).1

theorem PriDetector.Newest.freq_eq (newest : pde.Newest rs freq ts) : pde.freq = freq :=
  (Prod.mk.inj (Prod.mk.inj newest.make).2).2

theorem PriDetector.Newest.count_ne (newest : pde.Newest rs freq ts) : pde.count ≠ 0 := by
  obtain ⟨older, head⟩ := newest.head
  simp [newest.counted, head]

/-- A queued pulse is the newest. -/
theorem Queued.newest_of_make {queued : PriDetector} (added : Queued pde queued ts)
    (make : pde.make = (rs, rs.ppb * 2, freq)) (sorted : (ts :: pde.pulses).Pairwise (· ≥ ·)) :
    queued.Newest rs freq ts ∧ queued.sequences = pde.sequences := by
  have trimmed := added.trimmed
  have below := added.below
  rw [(Prod.mk.inj (Prod.mk.inj make).2).1] at below
  exact ⟨⟨trimmed.make.trans make, trimmed.counted, below, trimmed.lastTs, added.newest,
    sorted.sublist trimmed.newest.sublist⟩, trimmed.sequences⟩

/-- The next pulse is the newest then, whatever became of the sequences. -/
theorem PriDetector.Newest.enqueue (newest : pde.Newest rs freq ts) {later : Nat}
    (ordered : ts ≤ later) (two : 2 ≤ rs.ppb * 2) (sequences : List PriSequence) :
    (pulseQueueEnqueue { pde with sequences } later true).1.Newest rs freq later ∧
      (pulseQueueEnqueue { pde with sequences } later true).1.sequences = sequences := by
  have sorted : (later :: pde.pulses).Pairwise (· ≥ ·) := by
    obtain ⟨older, head⟩ := newest.head
    have rest := newest.sorted
    rw [head] at rest ⊢
    refine List.pairwise_cons.mpr ⟨fun earlier member => ?_, rest⟩
    rcases List.mem_cons.mp member with rfl | member
    · exact ordered
    · exact Nat.le_trans ((List.pairwise_cons.mp rest).1 earlier member) ordered
  have added := pulseQueueEnqueue_queued { pde with sequences } later newest.counted
    (newest.maxCount ▸ newest.below) (newest.maxCount ▸ two) sorted
  exact added.newest_of_make newest.make sorted

end Newest

/-! ## The sequence of a burst -/

/-- Every allocation succeeds. -/
structure Allocs.Succeed (allocs : Allocs) : Prop where
  pde : allocs.pde = true
  elem : allocs.elem = true
  seqs : ∀ got ∈ allocs.seqs, got = true

/-- A sequence that counted the pulses of a burst, and no other, over a number of intervals. -/
structure PriSequence.Tracks (ps : PriSequence) (rs : RadarDetectorSpecs)
    (first pri ts intervals : Nat) : Prop where
  pri_eq : ps.pri = pri
  count_eq : ps.count = intervals + 1
  undisturbed : ps.countFalses = 0
  last_eq : ps.lastTs = ts
  deadline_eq : ps.deadlineTs = first + (pri * (rs.ppb - 1) + 2 * rs.maxPriTolerance)
  thresh_eq : ps.ppbThresh = rs.thresh pri

/-- A detector that took one pulse. -/
structure PriDetector.Begun (pde : PriDetector) (rs : RadarDetectorSpecs) (freq ts : Nat) :
    Prop where
  newest : pde.Newest rs freq ts
  alone : pde.pulses = [ts]
  no_sequence : pde.sequences = []

/-- A detector on its way to report a burst. -/
structure PriDetector.Tracks (pde : PriDetector) (rs : RadarDetectorSpecs)
    (freq first pri intervals ts : Nat) : Prop where
  newest : pde.Newest rs freq ts
  tracked : ∃ ps ∈ pde.sequences, ps.Tracks rs first pri ts intervals
  begun : 1 ≤ intervals
  paced : ts + rs.maxPriTolerance ≤ first + intervals * (pri + rs.maxPriTolerance)
  short : intervals + 1 < rs.thresh pri

theorem granted {allocs : List Bool} (succeed : ∀ got ∈ allocs, got = true) :
    allocs.headD true = true := by
  cases allocs with
  | nil => rfl
  | cons got rest => exact succeed got List.mem_cons_self

/-- Within the tolerance, a difference is one interval. -/
theorem pdeGetMultiple_near {val fraction tolerance : Nat} (some_fraction : 0 < fraction)
    (low : fraction ≤ val + tolerance) (high : val ≤ fraction + tolerance) :
    pdeGetMultiple val fraction tolerance = 1 := by
  simp only [pdeGetMultiple, if_neg (Nat.ne_of_gt some_fraction)]
  apply if_pos
  split <;> omega

theorem delta32_add {ts interval : Nat} (fits : ts + interval < 2 ^ 64)
    (short : interval < 2 ^ 32) : delta32 (ts + interval) ts = interval := by
  unfold delta32
  rw [sub64_of_le (Nat.le_add_right ts interval) fits, Nat.add_sub_cancel_left,
    Nat.mod_eq_of_lt short]

/-- A pulse that comes in time and in step is counted in the sequence. -/
theorem addToSeqs_extends {rs : RadarDetectorSpecs} {ts : Nat} {ps : PriSequence}
    (in_time : ts ≤ ps.deadlineTs)
    (in_step : 0 < pdeGetMultiple (delta32 ts ps.lastTs) ps.pri rs.maxPriTolerance)
    {sequences : List PriSequence} (live : ps ∈ sequences) (maxCount : Nat) :
    { ps with lastTs := ts, count := ps.count + 1 } ∈ (addToSeqs rs ts sequences maxCount).1 := by
  induction sequences generalizing maxCount with
  | nil => cases live
  | cons other others induction =>
      simp only [addToSeqs]
      rcases List.mem_cons.mp live with rfl | live
      · rw [if_neg (by omega), if_pos in_step]
        exact List.mem_cons_self
      · split_ifs
        · exact induction live maxCount
        · exact List.mem_cons_of_mem _ (induction live _)
        · exact List.mem_cons_of_mem _ (induction live _)

/-- Looking for new sequences loses none. -/
theorem createFrom_keeps {rs : RadarDetectorSpecs} {ts minCount : Nat} (queue : List Nat)
    (idx : Nat) {allocs : List Bool} (succeed : ∀ got ∈ allocs, got = true)
    {sequences : List PriSequence} {ps : PriSequence} (live : ps ∈ sequences) :
    ps ∈ (createFrom rs ts minCount queue idx allocs sequences).1 := by
  induction queue generalizing idx allocs sequences with
  | nil => exact live
  | cons earlier older induction =>
      simp only [createFrom]
      split_ifs
      · exact induction (idx + 1) succeed live
      · exact live
      · exact induction (idx + 1) succeed live
      · exact induction (idx + 1) (fun got member => succeed got (List.mem_of_mem_tail member))
          (List.mem_cons_of_mem _ live)
      · exact live

theorem createFrom_succeeds {rs : RadarDetectorSpecs} {ts minCount : Nat} (queue : List Nat)
    (idx : Nat) {allocs : List Bool} (succeed : ∀ got ∈ allocs, got = true)
    (sequences : List PriSequence) :
    (createFrom rs ts minCount queue idx allocs sequences).2 = true := by
  induction queue generalizing idx allocs sequences with
  | nil => rfl
  | cons earlier older induction =>
      simp only [createFrom, granted succeed, if_true]
      split_ifs
      · exact induction (idx + 1) succeed sequences
      · rfl
      · exact induction (idx + 1) succeed sequences
      · exact induction (idx + 1) (fun got member => succeed got (List.mem_of_mem_tail member)) _

/-- A pulse far from the last is reported, or it is queued behind the sequences found. -/
theorem PriDetector.Newest.addPulse {pde : PriDetector} {rs : RadarDetectorSpecs}
    {freq ts interval : Nat} (newest : pde.Newest rs freq ts) (two : 2 ≤ rs.ppb * 2)
    (fits : ts + interval < 2 ^ 64) (far : rs.maxPriTolerance ≤ interval) {allocs : Allocs}
    (succeed : allocs.Succeed) {sequences : List PriSequence}
    (found : (pdeShortCreateSequences (pdeShortAddToExistingSeqs pde (ts + interval)).1
      (ts + interval) (pdeShortAddToExistingSeqs pde (ts + interval)).2 allocs.seqs).1 =
        { pde with sequences }) :
    (pdeShortAddPulse pde (ts + interval) allocs).2.isSome = true ∨
      (pdeShortAddPulse pde (ts + interval) allocs).1.Newest rs freq (ts + interval) ∧
        (pdeShortAddPulse pde (ts + interval) allocs).1.sequences = sequences ∧
        ∀ ps ∈ sequences, ps.ppbThresh ≤ ps.count → ps.count * rs.numPri ≤ ps.countFalses := by
  have apart : ¬sub64 (ts + interval) pde.lastTs < pde.rs.maxPriTolerance := by
    rw [newest.last, newest.specs, sub64_of_le (Nat.le_add_right ts interval) fits]
    omega
  have created : (pdeShortCreateSequences (pdeShortAddToExistingSeqs pde (ts + interval)).1
      (ts + interval) (pdeShortAddToExistingSeqs pde (ts + interval)).2 allocs.seqs).2 = true :=
    createFrom_succeeds _ _ succeed.seqs _
  rw [pdeShortAddPulse_far newest.count_ne apart rfl rfl, if_pos created, found]
  split
  · next unpicked =>
      obtain ⟨queued, kept⟩ := newest.enqueue (Nat.le_add_right ts interval) two sequences
      rw [succeed.elem]
      refine .inr ⟨queued, kept, fun ps live enough => ?_⟩
      have missed := List.find?_eq_none.mp unpicked ps live
      rw [newest.specs] at missed
      simpa [enough] using missed
  · exact .inl rfl

/-- The first pulse is queued. -/
theorem begun_of_first {pde : PriDetector} {rs : RadarDetectorSpecs} {freq : Nat} (ts : Nat)
    (make : pde.make = (rs, rs.ppb * 2, freq)) (two : 2 ≤ rs.ppb * 2) (count : pde.count = 0)
    (no_pulse : pde.pulses = []) (no_sequence : pde.sequences = []) {allocs : Allocs}
    (succeed : allocs.Succeed) : (pdeShortAddPulse pde ts allocs).1.Begun rs freq ts := by
  have sorted : (ts :: pde.pulses).Pairwise (· ≥ ·) := by
    simp [no_pulse]
  have room : pde.maxCount = rs.ppb * 2 := (Prod.mk.inj (Prod.mk.inj make).2).1
  have added := pulseQueueEnqueue_queued pde ts (by simp [count, no_pulse]) (by omega)
    (by omega) sorted
  obtain ⟨newest, kept⟩ := added.newest_of_make make sorted
  rw [show pdeShortAddPulse pde ts allocs = ((pulseQueueEnqueue pde ts allocs.elem).1, none) from
    if_pos count, succeed.elem]
  refine ⟨newest, ?_, kept.trans no_sequence⟩
  obtain ⟨older, head⟩ := newest.head
  have front := added.trimmed.newest
  rw [head, no_pulse] at front
  have alone := (List.cons_prefix_cons.mp front).2
  rw [head, List.prefix_nil.mp alone]

/-- The second pulse makes the sequence. -/
theorem PriDetector.Begun.addPulse {pde : PriDetector} {rs : RadarDetectorSpecs}
    {freq first pri : Nat} (begun : pde.Begun rs freq first) (formed : rs.WellFormed)
    (prompt : rs.Prompt) (low : rs.priMin ≤ pri) (high : pri ≤ rs.priMax) (early : first < 2 ^ 63)
    {allocs : Allocs} (succeed : allocs.Succeed) :
    (pdeShortAddPulse pde (first + pri) allocs).2.isSome = true ∨
      (pdeShortAddPulse pde (first + pri) allocs).1.Tracks rs freq first pri 1 (first + pri) := by
  have two := formed.ppb_two
  have three := formed.thresh_three pri low high
  have tight := prompt.tolerance
  have bound := prompt.priMax_lt
  have delta : delta32 (first + pri) first = pri := delta32_add (by omega) (by omega)
  have dur : pri * (rs.ppb - 1) + 2 * rs.maxPriTolerance < 2 ^ 32 := prompt.dur_lt low high
  have fits : (first + (pri * (rs.ppb - 1) + 2 * rs.maxPriTolerance)) % 2 ^ 64 =
      first + (pri * (rs.ppb - 1) + 2 * rs.maxPriTolerance) := Nat.mod_eq_of_lt (by omega)
  let ps := candidate rs (first + pri) first 1 []
  have made : ps.Tracks rs first pri (first + pri) 1 := by
    have deadline : ps.deadlineTs = first + (pri * (rs.ppb - 1) + 2 * rs.maxPriTolerance) := by
      rw [← fits, ← delta]
      simp [ps, candidate, matchOlder, newSequence, delta]
    refine ⟨?_, rfl, rfl, rfl, deadline, ?_⟩ <;>
      simp [ps, candidate, matchOlder, newSequence, delta]
  have found : (pdeShortCreateSequences (pdeShortAddToExistingSeqs pde (first + pri)).1
      (first + pri) (pdeShortAddToExistingSeqs pde (first + pri)).2 allocs.seqs).1 =
        { pde with sequences := [ps] } := by
    simp only [pdeShortAddToExistingSeqs, pdeShortCreateSequences, begun.no_sequence, begun.alone,
      addToSeqs, createFrom, begun.newest.specs, delta]
    rw [if_neg (by omega), if_neg (by omega), if_neg (by simp [made.count_eq, ps]),
      granted succeed.seqs]
    rfl
  rcases begun.newest.addPulse (by omega) (by omega) (by omega) succeed found with
    reported | ⟨newest, sequences, -⟩
  · exact .inl reported
  · refine .inr ⟨newest, ⟨ps, by simp [sequences], made⟩, le_rfl, by omega, by omega⟩

/-- Each later pulse in step with the burst extends the sequence. -/
theorem PriDetector.Tracks.addPulse {pde : PriDetector} {rs : RadarDetectorSpecs}
    {freq first pri intervals ts interval : Nat}
    (tracking : pde.Tracks rs freq first pri intervals ts) (formed : rs.WellFormed)
    (prompt : rs.Prompt) (low : rs.priMin ≤ pri) (high : pri ≤ rs.priMax) (early : first < 2 ^ 63)
    (least : pri ≤ interval + rs.maxPriTolerance) (most : interval ≤ pri + rs.maxPriTolerance)
    {allocs : Allocs} (succeed : allocs.Succeed) :
    (pdeShortAddPulse pde (ts + interval) allocs).2.isSome = true ∨
      (pdeShortAddPulse pde (ts + interval) allocs).1.Tracks rs freq first pri (intervals + 1)
        (ts + interval) := by
  have two := formed.ppb_two
  have some_pri := formed.priMin_pos
  have tight := prompt.tolerance
  have bound := prompt.priMax_lt
  have short := tracking.short
  have dur := prompt.dur_lt low high
  have paced : ts + interval + rs.maxPriTolerance ≤
      first + (intervals + 1) * (pri + rs.maxPriTolerance) := by
    have before := tracking.paced
    rw [Nat.succ_mul]
    omega
  have deadline : ts + interval ≤
      first + (pri * (rs.ppb - 1) + 2 * rs.maxPriTolerance) := by
    have timely := prompt.timely pri low high
    have room := within_deadline rs.ppb (intervals + 1) (Nat.le_trans tight low)
      (Nat.le_add_left 1 intervals) (by omega)
    omega
  have fits : ts + interval < 2 ^ 64 := by omega
  obtain ⟨ps, live, tracks⟩ := tracking.tracked
  have in_step : 0 < pdeGetMultiple (delta32 (ts + interval) ps.lastTs) ps.pri
      pde.rs.maxPriTolerance := by
    rw [tracks.last_eq, tracks.pri_eq, tracking.newest.specs, delta32_add fits (by omega),
      pdeGetMultiple_near (by omega) least most]
    exact Nat.one_pos
  have kept : { ps with lastTs := ts + interval, count := ps.count + 1 } ∈
      (pdeShortCreateSequences (pdeShortAddToExistingSeqs pde (ts + interval)).1 (ts + interval)
        (pdeShortAddToExistingSeqs pde (ts + interval)).2 allocs.seqs).1.sequences := by
    apply createFrom_keeps pde.pulses 0 succeed.seqs
    exact addToSeqs_extends (tracks.deadline_eq ▸ deadline) in_step live 0
  rcases tracking.newest.addPulse (by omega) fits (by omega) succeed rfl with
    reported | ⟨newest, sequences, unpicked⟩
  · exact .inl reported
  · refine .inr ⟨newest, ⟨_, by rw [sequences]; exact kept, ?_⟩,
      Nat.le_add_left 1 intervals, paced, ?_⟩
    · exact ⟨tracks.pri_eq, by simp [tracks.count_eq], tracks.undisturbed, rfl,
        tracks.deadline_eq, tracks.thresh_eq⟩
    · -- A sequence as long as the threshold would have been reported.
      have missed := unpicked _ kept
      have weighs := formed.numPri_pos
      by_contra enough
      have outweighed : (ps.count + 1) * rs.numPri ≤ ps.countFalses := by
        apply missed
        show ps.ppbThresh ≤ ps.count + 1
        rw [tracks.thresh_eq, tracks.count_eq]
        omega
      rw [tracks.undisturbed] at outweighed
      have some_weight : 0 < (ps.count + 1) * rs.numPri := Nat.mul_pos (by omega) weighs
      omega

/-! ## The detector of the frequency -/

/-- A busy detector of the frequency is the one to use, if those before it are idle. -/
theorem findDetector_busy {freq : Nat} {front : List PriDetector} {pde : PriDetector}
    (back : List PriDetector) (idle : ∀ other ∈ front, other.count = 0) (same : pde.freq = freq)
    (busy : pde.count ≠ 0) (idx : Nat) (cur : Option Nat) :
    findDetector freq (front ++ pde :: back) idx cur = some (idx + front.length) := by
  induction front generalizing idx cur with
  | nil => simp [findDetector, same, busy]
  | cons other front induction =>
      have no_pulse := idle other List.mem_cons_self
      have rest := induction (fun member held => idle member (List.mem_cons_of_mem _ held))
      simp only [List.cons_append, findDetector, no_pulse, ne_eq, not_true_eq_false, and_false,
        if_false, List.length_cons]
      split_ifs <;> rw [rest] <;> congr 1 <;> omega

/-- Among idle detectors, the one to use is one of the frequency or the one found before. -/
theorem findDetector_idle (freq : Nat) {pdes : List PriDetector}
    (idle : ∀ pde ∈ pdes, pde.count = 0) (idx : Nat) (cur : Option Nat) :
    findDetector freq pdes idx cur = cur ∨ ∃ front pde back, pdes = front ++ pde :: back ∧
      pde.freq = freq ∧ findDetector freq pdes idx cur = some (idx + front.length) := by
  induction pdes generalizing idx cur with
  | nil => exact .inl rfl
  | cons first others induction =>
      have no_pulse := idle first List.mem_cons_self
      have rest := induction (fun pde member => idle pde (List.mem_cons_of_mem _ member)) (idx + 1)
      by_cases same : first.freq = freq
      · have found : findDetector freq (first :: others) idx cur =
            findDetector freq others (idx + 1) (some idx) := by
          simp [findDetector, same, no_pulse]
        rcases rest (some idx) with here | ⟨front, pde, back, split, freq_eq, there⟩
        · exact .inr ⟨[], first, others, rfl, same, found.trans here⟩
        · refine .inr ⟨first :: front, pde, back, by rw [split]; rfl, freq_eq, ?_⟩
          rw [found, there, List.length_cons]
          congr 1
          omega
      · have found : findDetector freq (first :: others) idx cur =
            findDetector freq others (idx + 1) cur := by
          simp [findDetector, same, no_pulse]
        rcases rest cur with before | ⟨front, pde, back, split, freq_eq, there⟩
        · exact .inl (found.trans before)
        · refine .inr ⟨first :: front, pde, back, by rw [split]; rfl, freq_eq, ?_⟩
          rw [found, there, List.length_cons]
          congr 1
          omega

theorem priDetectorGet_busy (rs : RadarDetectorSpecs) {freq : Nat} {front : List PriDetector}
    {pde : PriDetector} (back : List PriDetector) (idle : ∀ other ∈ front, other.count = 0)
    (same : pde.freq = freq) (busy : pde.count ≠ 0) (allocs : Allocs) :
    priDetectorGet rs (front ++ pde :: back) freq allocs =
      (front ++ pde :: back, some front.length) := by
  simp [priDetectorGet, findDetector_busy back idle same busy]

theorem priDetectorGet_idle (rs : RadarDetectorSpecs) (freq : Nat) {pdes : List PriDetector}
    (idle : ∀ pde ∈ pdes, pde.count = 0) {allocs : Allocs} (succeed : allocs.Succeed) :
    ∃ front pde back,
      priDetectorGet rs pdes freq allocs = (front ++ pde :: back, some front.length) ∧
        (∀ other ∈ front, other.count = 0) ∧ pde.freq = freq ∧
        (pde ∈ pdes ∨ pde = priDetectorInit rs freq) := by
  unfold priDetectorGet
  rcases findDetector_idle freq idle 0 none with
    none | ⟨front, pde, back, rfl, same, found⟩
  · rw [none, succeed.pde]
    refine ⟨[], priDetectorInit rs freq, pdes, rfl, by simp, ?_, .inr rfl⟩
    unfold priDetectorInit
    split <;> rfl
  · rw [found]
    refine ⟨front, pde, back, by simp, fun other member => ?_, same, .inl (by simp)⟩
    exact idle other (List.mem_append_left _ member)

/-- What a pulse does to the detectors of a pattern of its width. -/
theorem addToType_of_get {freq len ts : Nat} {rs : RadarDetectorSpecs}
    {pdes front back : List PriDetector} {pde : PriDetector} {allocs : Allocs}
    (wide : rs.widthMin ≤ len) (narrow : len ≤ rs.widthMax)
    (got : priDetectorGet rs pdes freq allocs = (front ++ pde :: back, some front.length)) :
    addToType freq len ts rs pdes allocs =
      (front ++ (pde.addPulse ts allocs).1 :: back, (pde.addPulse ts allocs).2.isSome) := by
  have within : ¬(len < rs.widthMin ∨ rs.widthMax < len) := by omega
  simp [addToType, within, got]

theorem headD_succeed {allocs : List Allocs} (succeed : ∀ own ∈ allocs, own.Succeed) :
    (allocs.headD {}).Succeed := by
  cases allocs with
  | nil => exact ⟨rfl, rfl, by simp⟩
  | cons own rest => exact succeed own List.mem_cons_self

/-- Unless some pattern is detected, every pattern gets the pulse. -/
theorem addToTypes_split (freq len ts : Nat) (before : List (RadarDetectorSpecs × List PriDetector))
    (rs : RadarDetectorSpecs) (pdes : List PriDetector)
    (after : List (RadarDetectorSpecs × List PriDetector)) {allocs : List Allocs}
    (succeed : ∀ own ∈ allocs, own.Succeed) :
    (addToTypes freq len ts (before ++ (rs, pdes) :: after) allocs).2 = true ∨
      ∃ before' after' own, own.Succeed ∧
        (addToTypes freq len ts (before ++ (rs, pdes) :: after) allocs).1 =
          before' ++ (rs, (addToType freq len ts rs pdes own).1) :: after' ∧
        (addToType freq len ts rs pdes own).2 = false := by
  induction before generalizing allocs with
  | nil =>
      simp only [List.nil_append, addToTypes]
      split
      · exact .inl rfl
      · next missed =>
          exact .inr ⟨[], _, _, headD_succeed succeed, rfl, by simpa using missed⟩
  | cons line before induction =>
      have rest_succeed : ∀ own ∈ allocs.tail, own.Succeed := fun own member =>
        succeed own (List.mem_of_mem_tail member)
      simp only [List.cons_append, addToTypes]
      split
      · exact .inl rfl
      · rcases induction rest_succeed with detected | ⟨before', after', own, granted, lines, missed⟩
        · exact .inl detected
        · exact .inr ⟨_ :: before', after', own, granted, by rw [lines]; rfl, missed⟩

/-! ## The pattern detector -/

/-- The pulses of a frequency go to a detector of the pattern that is as wanted. -/
def DfsPatternDetector.Watches (dpd : DfsPatternDetector) (rs : RadarDetectorSpecs)
    (good : PriDetector → Prop) : Prop :=
  ∃ before front pde back after, dpd.detectors = before ++ (rs, front ++ pde :: back) :: after ∧
    (∀ other ∈ front, other.count = 0) ∧ good pde

/-- A pulse is reported, or it leaves the pattern with a detector as its own turns out. -/
theorem watches_of_get {tick : Tick} {dpd stamped : DfsPatternDetector} {rs : RadarDetectorSpecs}
    {freq pri len now jiffies : Nat} {allocs : List Allocs} {good : PriDetector → Prop}
    (stamp : computeTimeStamp tick dpd pri now = stamped)
    {before after : List (RadarDetectorSpecs × List PriDetector)} {pdes : List PriDetector}
    (lines : stamped.detectors = before ++ (rs, pdes) :: after)
    (wide : rs.widthMin ≤ len) (narrow : len ≤ rs.widthMax)
    (succeed : ∀ own ∈ allocs, own.Succeed)
    (got : ∀ own : Allocs, own.Succeed → ∃ front pde back,
      priDetectorGet rs pdes freq own = (front ++ pde :: back, some front.length) ∧
        (∀ other ∈ front, other.count = 0) ∧
        ((pde.addPulse stamped.lastPulseTs own).2.isSome = true ∨
          good (pde.addPulse stamped.lastPulseTs own).1)) :
    (dfsPatternDetectorAddPulse tick dpd freq pri len now allocs jiffies).2 = true ∨
      (dfsPatternDetectorAddPulse tick dpd freq pri len now allocs jiffies).1.Watches rs good ∧
        (dfsPatternDetectorAddPulse tick dpd freq pri len now allocs jiffies).1.lastPulseTs =
          stamped.lastPulseTs := by
  simp only [dfsPatternDetectorAddPulse, stamp]
  split_ifs with unset detected
  · exact .inl rfl
  · exact .inl rfl
  · right
    rcases addToTypes_split freq len stamped.lastPulseTs before rs pdes after succeed with
      found | ⟨before', after', own, granted, types, missed⟩
    · rw [lines] at detected
      exact absurd found detected
    · obtain ⟨front, pde, back, which, idle, outcome⟩ := got own granted
      rw [addToType_of_get wide narrow which] at types missed
      refine ⟨⟨before', front, _, back, after', ?_, idle, outcome.resolve_left ?_⟩, rfl⟩
      · rw [lines]
        exact types
      · simpa using missed

/-- A detector for short patterns that took nothing yet. -/
structure PriDetector.Idle (pde : PriDetector) (rs : RadarDetectorSpecs) : Prop where
  specs : pde.rs = rs
  maxCount : pde.maxCount = rs.ppb * 2
  count : pde.count = 0
  no_pulse : pde.pulses = []
  no_sequence : pde.sequences = []

/-- The detectors of a pattern took nothing yet. -/
def DfsPatternDetector.Ready (dpd : DfsPatternDetector) (rs : RadarDetectorSpecs) : Prop :=
  ∃ before pdes after, dpd.detectors = before ++ (rs, pdes) :: after ∧ ∀ pde ∈ pdes, pde.Idle rs

theorem DfsPatternDetector.Ready.stamp {dpd : DfsPatternDetector} {rs : RadarDetectorSpecs}
    (ready : dpd.Ready rs) (tick : Tick) (pri now : Nat) :
    (computeTimeStamp tick dpd pri now).Ready rs := by
  obtain ⟨before, pdes, after, lines, idle⟩ := ready
  unfold computeTimeStamp
  split
  · simp only [Ready, dfsPatternDetectorPriOverflow, lines, List.map_append, List.map_cons]
    refine ⟨_, _, _, rfl, fun pde member => ?_⟩
    obtain ⟨old, held, rfl⟩ := List.mem_map.mp member
    have was := idle old held
    split
    · exact ⟨was.specs, was.maxCount, rfl, rfl, rfl⟩
    · exact was
  · exact ⟨before, pdes, after, lines, idle⟩

/-- The first pulse of a burst is queued by a detector of its frequency. -/
theorem DfsPatternDetector.Ready.addPulse {dpd : DfsPatternDetector} {rs : RadarDetectorSpecs}
    (ready : dpd.Ready rs) (formed : rs.WellFormed) (short : rs.type ≠ .long) (tick : Tick)
    (freq : Nat) {len : Nat} (wide : rs.widthMin ≤ len) (narrow : len ≤ rs.widthMax)
    (pri now : Nat)
    {allocs : List Allocs} (succeed : ∀ own ∈ allocs, own.Succeed) (jiffies : Nat) :
    let ts := (computeTimeStamp tick dpd pri now).lastPulseTs
    let added := dfsPatternDetectorAddPulse tick dpd freq pri len now allocs jiffies
    added.2 = true ∨ added.1.Watches rs (·.Begun rs freq ts) ∧ added.1.lastPulseTs = ts := by
  have two := formed.ppb_two
  obtain ⟨before, pdes, after, lines, idle⟩ := ready.stamp tick pri now
  refine watches_of_get rfl lines wide narrow succeed fun own granted => ?_
  obtain ⟨front, pde, back, got, rest, same, which⟩ :=
    priDetectorGet_idle rs freq (fun pde member => (idle pde member).count) granted
  refine ⟨front, pde, back, got, rest, .inr ?_⟩
  have fresh : pde.Idle rs := by
    rcases which with member | rfl
    · exact idle pde member
    · unfold priDetectorInit
      rw [if_neg short]
      exact ⟨rfl, rfl, rfl, rfl, rfl⟩
  have type : pde.rs.type ≠ .long := by
    rw [fresh.specs]
    exact short
  rw [PriDetector.addPulse, if_neg type]
  exact begun_of_first _ (by simp [PriDetector.make, fresh.specs, fresh.maxCount, same]) (by omega)
    fresh.count fresh.no_pulse fresh.no_sequence granted

/-- Each later pulse goes to the same detector. -/
theorem DfsPatternDetector.Watches.addPulse {dpd : DfsPatternDetector} {rs : RadarDetectorSpecs}
    {good : PriDetector → Prop} (watches : dpd.Watches rs good) (short : rs.type ≠ .long)
    {freq ts : Nat} (last : dpd.lastPulseTs = ts)
    (newest : ∀ pde, good pde → pde.Newest rs freq ts) (tick : Tick)
    {len : Nat} (wide : rs.widthMin ≤ len) (narrow : len ≤ rs.widthMax) {pri : Nat}
    (timed : pri ≠ 0) (now : Nat) {allocs : List Allocs} (succeed : ∀ own ∈ allocs, own.Succeed)
    (jiffies : Nat) (good' : PriDetector → Prop)
    (grows : ∀ pde (own : Allocs), good pde → own.Succeed →
      (pdeShortAddPulse pde (ts + pri) own).2.isSome = true ∨
        good' (pdeShortAddPulse pde (ts + pri) own).1) :
    let added := dfsPatternDetectorAddPulse tick dpd freq pri len now allocs jiffies
    added.2 = true ∨ added.1.Watches rs good' ∧ added.1.lastPulseTs = ts + pri := by
  obtain ⟨before, front, pde, back, after, lines, idle, held⟩ := watches
  have stamp : computeTimeStamp tick dpd pri now = { dpd with lastPulseTs := ts + pri } := by
    rw [computeTimeStamp, if_neg timed, last]
  refine watches_of_get stamp lines wide narrow succeed fun own granted => ?_
  have now_newest := newest pde held
  have type : pde.rs.type ≠ .long := by
    rw [now_newest.specs]
    exact short
  refine ⟨front, pde, back, priDetectorGet_busy rs back idle now_newest.freq_eq
    now_newest.count_ne own, idle, ?_⟩
  rw [PriDetector.addPulse, if_neg type]
  exact grows pde own held granted

/-! ## A whole burst -/

/-- A pulse as `dfs_pattern_detector_add_pulse` gets it, with the jiffies a reset would read. -/
structure BurstPulse where
  pri : BitVec 16
  now : Nat
  allocs : List Allocs := []
  jiffies : Nat

/-- Pulses of one frequency and width are added until one is reported. -/
def addBurst (tick : Tick) (freq len : Nat) :
    DfsPatternDetector → List BurstPulse → DfsPatternDetector × Bool
  | dpd, [] => (dpd, false)
  | dpd, pulse :: pulses =>
      let added := dfsPatternDetectorAddPulse tick dpd freq pulse.pri.toNat len pulse.now
        pulse.allocs pulse.jiffies
      if added.2 then added else addBurst tick freq len added.1 pulses

/-- A pulse of the burst after the second. -/
structure BurstPulse.InStep (pulse : BurstPulse) (rs : RadarDetectorSpecs) (pri : Nat) : Prop where
  least : pri ≤ pulse.pri.toNat + rs.maxPriTolerance
  most : pulse.pri.toNat ≤ pri + rs.maxPriTolerance

/-- A burst that is followed is reported, or it is shorter than the threshold. -/
theorem addBurst_of_tracks {rs : RadarDetectorSpecs} (formed : rs.WellFormed) (prompt : rs.Prompt)
    (short : rs.type ≠ .long) (tick : Tick) {freq len first pri : Nat} (wide : rs.widthMin ≤ len)
    (narrow : len ≤ rs.widthMax) (low : rs.priMin ≤ pri) (high : pri ≤ rs.priMax)
    (early : first < 2 ^ 63) {pulses : List BurstPulse}
    (steady : ∀ pulse ∈ pulses, pulse.InStep rs pri)
    (succeed : ∀ pulse ∈ pulses, ∀ own ∈ pulse.allocs, own.Succeed)
    {dpd : DfsPatternDetector} {intervals ts : Nat} (last : dpd.lastPulseTs = ts)
    (watches : dpd.Watches rs (·.Tracks rs freq first pri intervals ts)) :
    (addBurst tick freq len dpd pulses).2 = true ∨
      intervals + pulses.length + 1 < rs.thresh pri := by
  induction pulses generalizing dpd intervals ts with
  | nil =>
      obtain ⟨_, _, _, _, _, _, _, tracks⟩ := watches
      exact .inr tracks.short
  | cons pulse pulses induction =>
      have tight := prompt.tolerance
      have some_tolerance := formed.tolerance_pos
      have step := steady pulse List.mem_cons_self
      have timed : pulse.pri.toNat ≠ 0 := by
        have least := step.least
        omega
      have now := watches.addPulse short last (fun pde tracks => tracks.newest) tick wide narrow
        timed pulse.now (succeed pulse List.mem_cons_self) pulse.jiffies
        (·.Tracks rs freq first pri (intervals + 1) (ts + pulse.pri.toNat))
        fun pde own tracks granted =>
          tracks.addPulse formed prompt low high early step.least step.most granted
      simp only [addBurst]
      split
      · next detected => exact .inl detected
      · next missed =>
          obtain ⟨watches', last'⟩ := now.resolve_left missed
          have rest := induction
            (fun other member => steady other (List.mem_cons_of_mem _ member))
            (fun other member => succeed other (List.mem_cons_of_mem _ member)) last' watches'
          rw [List.length_cons]
          exact rest.imp_right fun late => by omega

/-- A burst is reported to a detector that took nothing yet, or it is shorter than the
threshold. -/
theorem addBurst_of_ready {rs : RadarDetectorSpecs} (formed : rs.WellFormed) (prompt : rs.Prompt)
    (short : rs.type ≠ .long) (tick : Tick) (freq : Nat) {len : Nat} (wide : rs.widthMin ≤ len)
    (narrow : len ≤ rs.widthMax) {dpd : DfsPatternDetector} (ready : dpd.Ready rs)
    (restarted : dpd.lastPulseTs = 0) {first second : BurstPulse} {rest : List BurstPulse}
    (low : rs.priMin ≤ second.pri.toNat) (high : second.pri.toNat ≤ rs.priMax)
    (steady : ∀ pulse ∈ rest, pulse.InStep rs second.pri.toNat)
    (succeed : ∀ pulse ∈ first :: second :: rest, ∀ own ∈ pulse.allocs, own.Succeed) :
    (addBurst tick freq len dpd (first :: second :: rest)).2 = true ∨
      rest.length + 2 < rs.thresh second.pri.toNat := by
  have some_pri := formed.priMin_pos
  have begun := ready.addPulse formed short tick freq wide narrow first.pri.toNat first.now
    (succeed first List.mem_cons_self) first.jiffies
  have early : (computeTimeStamp tick dpd first.pri.toNat first.now).lastPulseTs < 2 ^ 63 := by
    rw [computeTimeStamp_lastPulseTs, restarted]
    have measured := first.pri.isLt
    have counted : tick.jiffiesToUsecs (deltaJiffie dpd.prevJiffies first.now) < 2 ^ 32 :=
      Nat.mod_lt _ (by decide)
    split <;> omega
  simp only [addBurst]
  split
  · next detected => exact .inl detected
  · next missed =>
      obtain ⟨watches, last⟩ := begun.resolve_left missed
      have timed : second.pri.toNat ≠ 0 := by omega
      have followed := watches.addPulse short last (fun pde begun => begun.newest) tick wide narrow
        timed second.now (succeed second (List.mem_cons_of_mem _ List.mem_cons_self)) second.jiffies
        (·.Tracks rs freq _ second.pri.toNat 1 _)
        fun pde own begun granted => begun.addPulse formed prompt low high early granted
      split
      · next detected => exact .inl detected
      · next missed' =>
          obtain ⟨watches', last'⟩ := followed.resolve_left missed'
          have late := addBurst_of_tracks formed prompt short tick wide narrow low high early steady
            (fun pulse member =>
              succeed pulse (List.mem_cons_of_mem _ (List.mem_cons_of_mem _ member))) last' watches'
          exact late.imp_right fun few => by omega

/-! ## Pattern detectors that are reached -/

theorem pulseQueueDequeue_make (pde : PriDetector) : (pulseQueueDequeue pde).make = pde.make := by
  unfold pulseQueueDequeue
  split <;> rfl

theorem dequeueOld_make (minValidTs rounds : Nat) (pde : PriDetector) :
    (dequeueOld minValidTs rounds pde).make = pde.make := by
  induction rounds generalizing pde with
  | zero => rfl
  | succ rounds induction =>
      unfold dequeueOld
      split
      · rfl
      · split
        · rfl
        · rw [induction, pulseQueueDequeue_make]

theorem pulseQueueCheckWindow_make (pde : PriDetector) :
    (pulseQueueCheckWindow pde).make = pde.make := by
  unfold pulseQueueCheckWindow
  split_ifs
  · rfl
  · rfl
  · exact dequeueOld_make _ _ pde

theorem pulseQueueEnqueue_make (pde : PriDetector) (ts : Nat) (elem : Bool) :
    (pulseQueueEnqueue pde ts elem).1.make = pde.make := by
  simp only [pulseQueueEnqueue]
  split_ifs
  · rw [pulseQueueDequeue_make, pulseQueueCheckWindow_make]
    rfl
  · rw [pulseQueueCheckWindow_make]
    rfl
  · rfl

theorem pdeShortAddPulse_make (pde : PriDetector) (ts : Nat) (allocs : Allocs) :
    (pdeShortAddPulse pde ts allocs).1.make = pde.make := by
  simp only [pdeShortAddPulse]
  split_ifs
  · exact pulseQueueEnqueue_make pde ts allocs.elem
  · rfl
  · split
    · rw [pulseQueueEnqueue_make]
      rfl
    · rfl
  · rfl

/-- A detector as `pri_detector_init` makes it for a short pattern, whatever it took since. -/
structure PriDetector.Made (pde : PriDetector) (rs : RadarDetectorSpecs) : Prop where
  specs : pde.rs = rs
  maxCount : pde.maxCount = rs.ppb * 2

theorem PriDetector.Made.of_make {pde other : PriDetector} {rs : RadarDetectorSpecs}
    (made : pde.Made rs) (same : other.make = pde.make) : other.Made rs := by
  obtain ⟨specs, rest⟩ := Prod.mk.inj same
  exact ⟨specs.trans made.specs, (Prod.mk.inj rest).1.trans made.maxCount⟩

/-- A pattern of the tables, with detectors made for it. -/
structure MadeLine (line : RadarDetectorSpecs × List PriDetector) : Prop where
  listed : line.1 ∈ listedSpecs
  made : line.1.type ≠ .long → ∀ pde ∈ line.2, pde.Made line.1

/-- Whatever is done to the detectors of a pattern one by one leaves them made for it. -/
theorem MadeLine.map {line : RadarDetectorSpecs × List PriDetector} (made : MadeLine line)
    {change : PriDetector → PriDetector} (same : ∀ pde, (change pde).make = pde.make) :
    MadeLine (line.1, line.2.map change) := by
  refine ⟨made.listed, fun short pde member => ?_⟩
  obtain ⟨old, held, rfl⟩ := List.mem_map.mp member
  exact (made.made short old held).of_make (same old)

theorem priDetectorGet_made {rs : RadarDetectorSpecs} {pdes : List PriDetector}
    (short : rs.type ≠ .long) (made : ∀ pde ∈ pdes, pde.Made rs) (freq : Nat) (allocs : Allocs) :
    ∀ pde ∈ (priDetectorGet rs pdes freq allocs).1, pde.Made rs := by
  unfold priDetectorGet
  split
  · exact made
  · split
    · intro pde member
      rcases List.mem_cons.mp member with rfl | member
      · unfold priDetectorInit
        rw [if_neg short]
        exact ⟨rfl, rfl⟩
      · exact made pde member
    · exact made

theorem MadeLine.addToType {rs : RadarDetectorSpecs} {pdes : List PriDetector}
    (made : MadeLine (rs, pdes)) (freq len ts : Nat) (allocs : Allocs) :
    MadeLine (rs, (addToType freq len ts rs pdes allocs).1) := by
  refine ⟨made.listed, fun short => ?_⟩
  have got := priDetectorGet_made short (made.made short) freq allocs
  simp only [Radar.addToType]
  split
  · exact made.made short
  · split
    · exact got
    · next idx pde which =>
        intro other member
        rcases List.mem_or_eq_of_mem_set member with held | rfl
        · exact got other held
        · have held : pde ∈ (priDetectorGet rs pdes freq allocs).1 := by
            obtain ⟨idx', -, found⟩ := Option.bind_eq_some_iff.mp which
            obtain ⟨pde', here, same⟩ := Option.map_eq_some_iff.mp found
            obtain ⟨rfl, rfl⟩ := Prod.mk.inj same
            exact List.mem_of_getElem? here
          have type : pde.rs.type ≠ .long := by
            rw [(got pde held).specs]
            exact short
          rw [PriDetector.addPulse, if_neg type]
          exact (got pde held).of_make (pdeShortAddPulse_make pde ts allocs)

theorem addToTypes_made (freq len ts : Nat) {lines : List (RadarDetectorSpecs × List PriDetector)}
    (made : ∀ line ∈ lines, MadeLine line) (allocs : List Allocs) :
    ∀ line ∈ (addToTypes freq len ts lines allocs).1, MadeLine line := by
  induction lines generalizing allocs with
  | nil => exact made
  | cons first others induction =>
      have added := (made first List.mem_cons_self).addToType freq len ts (allocs.headD {})
      have kept : ∀ line ∈ others, MadeLine line := fun line member =>
        made line (List.mem_cons_of_mem _ member)
      simp only [addToTypes]
      split
      · intro line member
        rcases List.mem_cons.mp member with rfl | member
        · exact added
        · exact kept line member
      · intro line member
        rcases List.mem_cons.mp member with rfl | member
        · exact added
        · exact induction kept allocs.tail line member

/-- Every pattern is one of the tables, with detectors made for it. -/
def DfsPatternDetector.Made (dpd : DfsPatternDetector) : Prop :=
  ∀ line ∈ dpd.detectors, MadeLine line

theorem DfsPatternDetector.Made.reset {dpd : DfsPatternDetector} (made : dpd.Made) (jiffies : Nat) :
    (dfsPatternDetectorReset dpd jiffies).Made := by
  intro line member
  obtain ⟨old, held, rfl⟩ := List.mem_map.mp member
  exact (made old held).map fun _ => rfl

theorem DfsPatternDetector.Made.stamp {dpd : DfsPatternDetector} (made : dpd.Made) (tick : Tick)
    (pri now : Nat) : (computeTimeStamp tick dpd pri now).Made := by
  unfold computeTimeStamp
  split
  · intro line member
    obtain ⟨old, held, rfl⟩ := List.mem_map.mp member
    apply (made old held).map
    intro pde
    split <;> rfl
  · exact made

theorem DfsPatternDetector.Made.addPulse {dpd : DfsPatternDetector} (made : dpd.Made) (tick : Tick)
    (freq pri len now : Nat) (allocs : List Allocs) (jiffies : Nat) :
    (dfsPatternDetectorAddPulse tick dpd freq pri len now allocs jiffies).1.Made := by
  have types : DfsPatternDetector.Made { computeTimeStamp tick dpd pri now with
      detectors := (addToTypes freq len (computeTimeStamp tick dpd pri now).lastPulseTs
        (computeTimeStamp tick dpd pri now).detectors allocs).1 } :=
    addToTypes_made freq len _ (made.stamp tick pri now) allocs
  simp only [dfsPatternDetectorAddPulse]
  split_ifs
  · exact made
  · exact types.reset jiffies
  · exact types

theorem DfsPatternDetector.Made.setDomain {dpd : DfsPatternDetector} (made : dpd.Made)
    (region : DfsRegion) (chain : RadarChain) :
    (dfsPatternDetectorSetDomain dpd region chain).1.Made := by
  simp only [dfsPatternDetectorSetDomain]
  split
  · exact made
  · split
    · exact made
    · next types found =>
        intro line member
        obtain ⟨rs, listed, rfl⟩ := List.mem_map.mp member
        refine ⟨List.mem_flatMap.mpr ⟨types, List.mem_of_find?_eq_some found, ?_⟩,
          fun _ pde held => by cases held⟩
        rw [List.mem_append]
        split at listed
        · exact .inl listed
        · exact .inr listed

/-- Whatever pulses a pattern detector got and whichever domains it was for, it is made of the
tables. -/
theorem made_of_run {tick : Tick} {before made : Nat} {arrivals : List Arrival} {s : Feed}
    (ran : Run.run (Feed.step tick) arrivals (Feed.start tick before made) = .ok s) :
    s.dpd.Made := by
  have kept : ∀ (s : Feed) (arrival : Arrival) (next : Feed), s.dpd.Made →
      s.step tick arrival = .ok next → next.dpd.Made := by
    intro s arrival next made stepped
    cases arrival with
    | pulse gap freq len allocs late =>
        cases stepped
        exact made.addPulse tick freq _ len _ allocs _
    | setDomain region chain =>
        cases stepped
        exact made.setDomain region chain
  apply Run.invariant_of_run kept ran
  intro line member
  cases member

theorem DfsPatternDetector.Made.ready {dpd : DfsPatternDetector} (made : dpd.Made)
    {rs : RadarDetectorSpecs} {pdes : List PriDetector} (line : (rs, pdes) ∈ dpd.detectors)
    (short : rs.type ≠ .long) (jiffies : Nat) : (dfsPatternDetectorReset dpd jiffies).Ready rs := by
  obtain ⟨before, after, lines⟩ := List.append_of_mem line
  simp only [Ready, dfsPatternDetectorReset, lines, List.map_append, List.map_cons]
  refine ⟨_, _, _, rfl, fun pde member => ?_⟩
  obtain ⟨old, held, rfl⟩ := List.mem_map.mp member
  have was := (made _ line).made short old held
  exact ⟨was.specs, was.maxCount, rfl, rfl, rfl⟩

/-- After a reset, a burst of any short pattern of the domain, with every interval within the
tolerance of the first, is reported no later than by the pulse the threshold asks for. -/
theorem burst_reported {tick : Tick} {before made : Nat} {arrivals : List Arrival} {s : Feed}
    (ran : Run.run (Feed.step tick) arrivals (Feed.start tick before made) = .ok s) (jiffies : Nat)
    {rs : RadarDetectorSpecs} {pdes : List PriDetector} (line : (rs, pdes) ∈ s.dpd.detectors)
    (short : rs.type ≠ .long) (freq : Nat) {len : Nat} (wide : rs.widthMin ≤ len)
    (narrow : len ≤ rs.widthMax) {first second : BurstPulse} {rest : List BurstPulse}
    (low : rs.priMin ≤ second.pri.toNat) (high : second.pri.toNat ≤ rs.priMax)
    (steady : ∀ pulse ∈ rest, pulse.InStep rs second.pri.toNat)
    (succeed : ∀ pulse ∈ first :: second :: rest, ∀ own ∈ pulse.allocs, own.Succeed)
    (enough : rs.thresh second.pri.toNat ≤ (first :: second :: rest).length) :
    (addBurst tick freq len (dfsPatternDetectorReset s.dpd jiffies)
      ((first :: second :: rest).take (rs.thresh second.pri.toNat))).2 = true := by
  have reached := made_of_run ran
  have listed : rs ∈ listedSpecs := (reached _ line).listed
  have formed := wellFormed_of_listed listed
  have three := formed.thresh_three _ low high
  obtain ⟨more, thresh⟩ : ∃ more, rs.thresh second.pri.toNat = more + 2 :=
    ⟨_, (Nat.sub_add_cancel (by omega)).symm⟩
  have full : (rest.take more).length = more := by
    rw [List.length_take]
    simp only [List.length_cons] at enough
    omega
  have taken : (rest.take more).Sublist rest := List.take_sublist more rest
  rw [thresh, List.take_succ_cons, List.take_succ_cons]
  have late := addBurst_of_ready formed (prompt_of_listed listed short) short tick freq wide narrow
    (reached.ready line short jiffies) rfl low high
    (fun pulse member => steady pulse (taken.subset member))
    (fun pulse member =>
      succeed pulse (((taken.cons_cons second).cons_cons first).subset member))
  apply late.resolve_right
  omega

/-- A pulse after an interval. -/
def plainPulse (pri : BitVec 16) : BurstPulse where
  pri
  now := 0
  jiffies := 0

/-- Twelve pulses, the third on five microseconds later than the first two are apart, where the
fast pattern asks for twelve. -/
theorem fast_burst_reported :
    ∃ s, Run.run (Feed.step hundredHertz) [.setDomain .fcc .riu] (Feed.start hundredHertz 0 0) =
        .ok s ∧
      (addBurst hundredHertz 5500 4 (dfsPatternDetectorReset s.dpd 0)
        ((plainPulse 0 :: plainPulse 200 :: List.replicate 10 (plainPulse 205)).take
          ((fccPattern 2 0 8 150 230 1 23 .short).thresh 200))).2 = true := by
  have ran : Run.run (Feed.step hundredHertz) [.setDomain .fcc .riu]
      (Feed.start hundredHertz 0 0) = .ok _ := rfl
  refine ⟨_, ran, ?_⟩
  have listed : (fccPattern 2 0 8 150 230 1 23 .short, []) ∈
      (dfsPatternDetectorSetDomain (Feed.start hundredHertz 0 0).dpd .fcc .riu).1.detectors := by
    exact List.mem_map_of_mem (show _ ∈ fccRadarRefTypesRiu by decide)
  refine burst_reported ran 0 listed (by decide) 5500
    (by decide) (by decide) (by decide) (by decide) ?_ ?_ (by decide)
  · intro pulse member
    rw [List.eq_of_mem_replicate member]
    exact ⟨by decide, by decide⟩
  · intro pulse member
    have plain : pulse.allocs = [] := by
      simp only [List.mem_cons, List.mem_replicate] at member
      rcases member with rfl | rfl | ⟨-, rfl⟩ <;> rfl
    simp [plain]

end AmlW2.Radar
