import AmlW2.Radar.Short

/-!
# Long radars

A long radar sends a few bursts spread over seconds.  The detector counts bursts in its one
sequence and queues the first pulse of each, so the count is right as long as whatever leaves the
queue leaves the count as well.
-/

namespace AmlW2.Radar

/-! ## What a run of the detector is -/

/-- The pulse is the first of a burst: `pde_long_add_pulse` makes its sequence of it or counts it
there. -/
def PriDetector.startsBurst (pde : PriDetector) (ts : Nat) : Bool :=
  match pde.sequences with
  | [] => true
  | ps :: _ =>
      !decide (delta32 ts ps.lastTs < pde.rs.priMax) &&
        !decide (pde.rs.priMin ≤ delta32 ts ps.lastTs ∧ delta32 ts ps.lastTs ≤ pde.rs.priMax) &&
        !decide (2 < ps.count ∧
          (ps.dur + delta32 ts ps.lastTs) % 2 ^ 32 < longRadarBurstMinDuration)

/-- A detector with the bursts since its last reset, newest first, and the time stamp of the pulse
it just reported a radar for. -/
structure LongWatch where
  pde : PriDetector
  bursts : List Nat := []
  reported : Option Nat := none
  deriving DecidableEq, Repr

/-- One event.  Whoever gets a report resets the detector before it adds another pulse, as
`dfs_pattern_detector_add_pulse` does. -/
def LongWatch.step (w : LongWatch) : Event → Except Unit LongWatch
  | .pulse ts allocs =>
      if w.reported.isSome then .error ()
      else
        let added := pdeLongAddPulse w.pde ts.toNat allocs
        .ok {
          pde := added.1
          bursts := if w.pde.startsBurst ts.toNat then ts.toNat :: w.bursts else w.bursts
          reported := added.2.map fun _ => ts.toNat }
  | .reset ts => .ok { pde := priDetectorReset w.pde ts.toNat }

/-- A detector as `pri_detector_init` makes it. -/
def LongWatch.start (rs : RadarDetectorSpecs) (freq : Nat) : LongWatch :=
  { pde := priDetectorInit rs freq }

/-- The bursts of the last window before `ts`. -/
def LongWatch.recent (w : LongWatch) (ts : Nat) : List Nat :=
  w.bursts.filter fun burst => decide (ts ≤ burst + w.pde.windowSize)

/-- What was reported is a radar: more distinct bursts than the threshold lie in the window, and
the oldest of them before its second half. -/
def LongWatch.Sound (w : LongWatch) : Prop :=
  ∀ ts, w.reported = some ts →
    (w.recent ts).Pairwise (· > ·) ∧ w.pde.rs.ppbThresh < (w.recent ts).length ∧
      ∃ oldest ∈ w.recent ts, (∀ burst ∈ w.recent ts, oldest ≤ burst) ∧
        w.pde.windowSize / 2 < ts - oldest

/-- The event, if a pulse, gets the memory it asks for. -/
def Event.Stored : Event → Prop
  | .pulse _ allocs => allocs.elem = true ∧ allocs.seqs.headD true = true
  | .reset _ => True

/-- The event does not complete twenty bursts within half a window. -/
def LongWatch.Roomy (w : LongWatch) (event : Event) : Prop :=
  ∀ ts, event.pulseTs = some ts → w.pde.startsBurst ts = true →
    ∀ burst, w.bursts[longRadarMaxBurst - 2]? = some burst → burst + w.pde.windowSize / 2 < ts

/-! ## What a burst does -/

/-- Moving the start takes bursts off the old end, each off the count as well, until one is recent
enough to start the sequence. -/
theorem moveStart_spec (minValidTs rounds : Nat) {pde : PriDetector} (ps : PriSequence)
    (counted : pde.count = pde.pulses.length) (tallied : ps.count = pde.pulses.length + 1)
    (enough : pde.pulses.length ≤ rounds) :
    let moved := moveStart minValidTs rounds pde ps
    Trimmed pde moved.1 ∧ moved.2.count = moved.1.pulses.length + 1 ∧
      moved.2.lastTs = ps.lastTs ∧
      (moved.1.pulses = [] ∧ moved.2.deadlineTs = ps.deadlineTs ∨
        moved.1.pulses.getLast? = some moved.2.firstTs ∧ minValidTs ≤ moved.2.firstTs ∧
          moved.2.deadlineTs = (moved.2.firstTs + pde.windowSize) % 2 ^ 64) := by
  induction rounds generalizing pde ps with
  | zero =>
      have empty : pde.pulses = [] := List.length_eq_zero_iff.mp (by omega)
      exact ⟨.refl counted, tallied, rfl, .inl ⟨empty, rfl⟩⟩
  | succ rounds induction =>
      unfold moveStart
      split
      · next empty =>
          exact ⟨.refl counted, tallied, rfl, .inl ⟨List.getLast?_eq_none_iff.mp empty, rfl⟩⟩
      · next oldest tail =>
          split
          · next valid => exact ⟨.refl counted, tallied, rfl, .inr ⟨tail, valid, rfl⟩⟩
          · next stale =>
              obtain ⟨front, split⟩ := List.getLast?_eq_some_iff.mp tail
              have taken := pulseQueueDequeue_trimmed counted
              have left : (pulseQueueDequeue pde).pulses = front := by
                simp [pulseQueueDequeue, split]
              have one_less : pde.pulses.length = front.length + 1 := by
                simp [split]
              obtain ⟨trimmed, tally, lastTs, found⟩ :=
                induction { ps with count := ps.count - 1 } taken.counted
                  (by rw [left]; show ps.count - 1 = _; omega) (by rw [left]; omega)
              rw [taken.windowSize] at found
              exact ⟨taken.trans trimmed, tally, lastTs, found⟩

/-- The window check leaves a queue alone that lies in the window. -/
theorem dequeueOld_of_valid {minValidTs : Nat} (rounds : Nat) {pde : PriDetector}
    (valid : ∀ ts ∈ pde.pulses, minValidTs ≤ ts) : dequeueOld minValidTs rounds pde = pde := by
  cases rounds with
  | zero => rfl
  | succ rounds =>
      unfold dequeueOld
      split
      · rfl
      · next oldest tail => exact if_pos (valid oldest (List.mem_of_getLast? tail))

/-- Queueing a pulse when all that is queued is recent and there is room adds it and drops
nothing. -/
theorem pulseQueueEnqueue_whole {pde : PriDetector} {ts : Nat}
    (recent : ∀ earlier ∈ pde.pulses, ts ≤ earlier + pde.windowSize)
    (room : pde.count + 1 < pde.maxCount) :
    (pulseQueueEnqueue pde ts true).1 =
      { pde with pulses := ts :: pde.pulses, count := pde.count + 1, lastTs := ts } := by
  have whole : pulseQueueCheckWindow
      { pde with pulses := ts :: pde.pulses, count := pde.count + 1, lastTs := ts } =
      { pde with pulses := ts :: pde.pulses, count := pde.count + 1, lastTs := ts } := by
    unfold pulseQueueCheckWindow
    split
    · rfl
    · split
      · rfl
      · apply dequeueOld_of_valid
        intro earlier member
        rcases List.mem_cons.mp member with rfl | member
        · exact Nat.sub_le _ _
        · exact Nat.sub_le_of_le_add (recent earlier member)
  simp only [pulseQueueEnqueue, if_true, whole]
  exact if_neg (Nat.not_le_of_lt room)

/-- A pulse that starts no burst is only seen. -/
theorem pdeLongAddPulse_ignored {pde : PriDetector} {ts : Nat} (allocs : Allocs)
    {ps : PriSequence} {others : List PriSequence} (sequence : pde.sequences = ps :: others)
    (ignored : pde.startsBurst ts = false) :
    ∃ falses, pdeLongAddPulse pde ts allocs =
      ({ pde with sequences := { ps with lastTs := ts, countFalses := falses } :: others },
        none) := by
  unfold PriDetector.startsBurst at ignored
  simp only [sequence, Bool.and_eq_false_iff, Bool.not_eq_false', decide_eq_true_eq] at ignored
  unfold pdeLongAddPulse
  simp only [sequence]
  split
  · exact ⟨_, rfl⟩
  · next far =>
      split
      · exact ⟨_, rfl⟩
      · next outside =>
          obtain soon := (ignored.resolve_left fun either => either.elim far outside)
          exact ⟨_, if_pos soon⟩

/-- A pulse that starts a burst is counted, and what is reported depends on where the sequence
starts then. -/
theorem pdeLongAddPulse_burst {pde : PriDetector} {ts : Nat} {allocs : Allocs}
    {ps : PriSequence} {others : List PriSequence} (sequence : pde.sequences = ps :: others)
    (starts : pde.startsBurst ts = true) {moved : PriDetector × PriSequence}
    (move : (if ps.deadlineTs < ts then
        moveStart (sub64 ts pde.windowSize) pde.pulses.length pde
          { ps with lastTs := ts, count := ps.count + 1, countFalses := 1 }
      else (pde, { ps with lastTs := ts, count := ps.count + 1, countFalses := 1 })) = moved) :
    pdeLongAddPulse pde ts allocs =
      if pde.rs.ppbThresh < moved.2.count ∧ pde.windowSize / 2 < sub64 ts moved.2.firstTs then
        ({ moved.1 with sequences := moved.2 :: others }, some moved.2)
      else
        ({ (pulseQueueEnqueue moved.1 ts allocs.elem).1 with
          sequences := { moved.2 with dur := delta32 ts ps.lastTs } :: others }, none) := by
  unfold PriDetector.startsBurst at starts
  simp only [sequence, Bool.and_eq_true, Bool.not_eq_true', decide_eq_false_iff_not] at starts
  obtain ⟨⟨far, outside⟩, late⟩ := starts
  subst move
  unfold pdeLongAddPulse
  simp only [sequence]
  exact (if_neg far).trans ((if_neg outside).trans (if_neg late))

/-! ## The accounts along a run -/

/-- The sequence follows the queue: one count for each burst queued, and a start that is the oldest
of them or so old that the next burst moves it. -/
structure PriDetector.Follows (pde : PriDetector) (ps : PriSequence) (bursts : List Nat) :
    Prop where
  sequence : pde.sequences = [ps]
  tallied : ps.count = pde.pulses.length
  queue : pde.pulses <+: bursts
  some_burst : pde.pulses ≠ []
  seen : ∀ burst ∈ bursts, burst ≤ ps.lastTs
  start : (pde.pulses.getLast? = some ps.firstTs ∧
      ps.deadlineTs = (ps.firstTs + pde.windowSize) % 2 ^ 64) ∨
    ∃ newest ∈ pde.pulses, pde.windowSize ≤ newest ∧ ps.deadlineTs < newest

/-- What a run with room keeps, by the time of its last pulse. -/
structure LongWatch.Kept (rs : RadarDetectorSpecs) (now : Nat) (w : LongWatch) : Prop where
  specs : w.pde.rs = rs
  maxCount : w.pde.maxCount = longRadarMaxBurst
  windowSize : w.pde.windowSize = longRadarDuration
  counted : w.pde.count = w.pde.pulses.length
  apart : w.bursts.Pairwise (· > ·)
  follows : w.reported = none →
    (w.pde.sequences = [] ∧ w.pde.pulses = [] ∧ w.bursts = []) ∨
      ∃ ps, w.pde.Follows ps w.bursts
  past : ∀ ps ∈ w.pde.sequences, ps.lastTs ≤ now
  sound : w.Sound

/-- What a pattern must be like for its detector to need several bursts, but fewer than the queue
holds. -/
structure RadarDetectorSpecs.LongFormed (rs : RadarDetectorSpecs) : Prop where
  priMax_pos : 0 < rs.priMax
  thresh_pos : 0 < rs.ppbThresh
  thresh_lt : rs.ppbThresh < longRadarMaxBurst

theorem longFormed_of_listed {rs : RadarDetectorSpecs} (listed : rs ∈ listedSpecs)
    (long : rs.type = .long) : rs.LongFormed := by
  have check : ∀ rs ∈ listedSpecs, rs.type = .long →
      0 < rs.priMax ∧ 0 < rs.ppbThresh ∧ rs.ppbThresh < longRadarMaxBurst := by
    decide +kernel
  obtain ⟨priMax, some_thresh, few⟩ := check rs listed long
  exact ⟨priMax, some_thresh, few⟩

theorem LongWatch.kept_of_empty {rs : RadarDetectorSpecs} {now : Nat} {pde : PriDetector}
    (same : pde.rs = rs) (maxCount : pde.maxCount = longRadarMaxBurst)
    (windowSize : pde.windowSize = longRadarDuration)
    (no_pulse : pde.pulses = []) (no_count : pde.count = 0) (no_sequence : pde.sequences = []) :
    LongWatch.Kept rs now { pde := pde } where
  specs := same
  maxCount := maxCount
  windowSize := windowSize
  counted := by simp [no_count, no_pulse]
  apart := .nil
  follows _ := .inl ⟨no_sequence, no_pulse, rfl⟩
  past := by simp [no_sequence]
  sound := by simp [LongWatch.Sound]

theorem LongWatch.start_kept {rs : RadarDetectorSpecs} (long : rs.type = .long) (freq : Nat) :
    (LongWatch.start rs freq).Kept rs 0 := by
  apply LongWatch.kept_of_empty <;> simp [priDetectorInit, long]

/-- The last of a list in falling order is its least. -/
theorem le_of_getLast? {bursts : List Nat} (apart : bursts.Pairwise (· > ·)) {oldest : Nat}
    (last : bursts.getLast? = some oldest) : ∀ burst ∈ bursts, oldest ≤ burst := by
  intro burst member
  obtain ⟨front, split⟩ := List.getLast?_eq_some_iff.mp last
  rw [split] at apart member
  rcases List.mem_append.mp member with newer | same
  · exact Nat.le_of_lt ((List.pairwise_append.mp apart).2.2 burst newer oldest (by simp))
  · exact (List.mem_singleton.mp same).ge

/-- What the queue holds of the window the report needs, the bursts hold. -/
theorem LongWatch.sound_of_queue {w : LongWatch} (apart : w.bursts.Pairwise (· > ·)) {ts : Nat}
    {older : List Nat} (part : ts :: older <+: w.bursts)
    (recent : ∀ burst ∈ older, ts ≤ burst + w.pde.windowSize) {firstTs : Nat}
    (start : older.getLast? = some firstTs) (many : w.pde.rs.ppbThresh < older.length + 1)
    (spread : w.pde.windowSize / 2 < ts - firstTs) :
    (w.recent ts).Pairwise (· > ·) ∧ w.pde.rs.ppbThresh < (w.recent ts).length ∧
      ∃ oldest ∈ w.recent ts, (∀ burst ∈ w.recent ts, oldest ≤ burst) ∧
        w.pde.windowSize / 2 < ts - oldest := by
  have sublist : (ts :: older).Sublist (w.recent ts) := by
    have all : (ts :: older).filter (fun burst => decide (ts ≤ burst + w.pde.windowSize)) =
        ts :: older := by
      apply List.filter_eq_self.mpr
      intro burst member
      rcases List.mem_cons.mp member with rfl | member
      · exact decide_eq_true (Nat.le_add_right _ _)
      · exact decide_eq_true (recent burst member)
    rw [← all]
    exact part.sublist.filter _
  have falling : (w.recent ts).Pairwise (· > ·) := apart.filter _
  have first_recent : firstTs ∈ w.recent ts :=
    sublist.subset (List.mem_cons_of_mem _ (List.mem_of_getLast? start))
  obtain ⟨oldest, last⟩ : ∃ oldest, (w.recent ts).getLast? = some oldest :=
    Option.isSome_iff_exists.mp (List.getLast?_isSome.mpr (List.ne_nil_of_mem first_recent))
  have least := le_of_getLast? falling last
  have earlier := least firstTs first_recent
  refine ⟨falling, ?_, oldest, List.mem_of_getLast? last, least, by omega⟩
  have := sublist.length_le
  rw [List.length_cons] at this
  omega

/-- Where a burst leaves the sequence: it starts in the window, or the queue is empty. -/
theorem PriDetector.Follows.moved {pde : PriDetector} {ps : PriSequence} {bursts : List Nat}
    (follows : pde.Follows ps bursts) (counted : pde.count = pde.pulses.length)
    (windowSize : pde.windowSize = longRadarDuration) (apart : bursts.Pairwise (· > ·)) {ts : Nat}
    (fits : ts < 2 ^ 64) (late : ∀ burst ∈ bursts, burst < ts)
    {moved : PriDetector × PriSequence}
    (move : (if ps.deadlineTs < ts then
        moveStart (sub64 ts pde.windowSize) pde.pulses.length pde
          { ps with lastTs := ts, count := ps.count + 1, countFalses := 1 }
      else (pde, { ps with lastTs := ts, count := ps.count + 1, countFalses := 1 })) = moved) :
    Trimmed pde moved.1 ∧ moved.2.count = moved.1.pulses.length + 1 ∧ moved.2.lastTs = ts ∧
      (∀ burst ∈ moved.1.pulses, ts ≤ burst + pde.windowSize) ∧
      (moved.1.pulses = [] ∧ pde.windowSize ≤ ts ∧ moved.2.deadlineTs < ts ∨
        moved.1.pulses.getLast? = some moved.2.firstTs ∧
          moved.2.deadlineTs = (moved.2.firstTs + pde.windowSize) % 2 ^ 64) := by
  have falling : pde.pulses.Pairwise (· > ·) := apart.sublist follows.queue.sublist
  have earlier : ∀ burst ∈ pde.pulses, burst < ts :=
    fun burst member => late burst (follows.queue.subset member)
  have window : pde.windowSize = 12000000 := windowSize
  subst move
  split
  · next over_due =>
      have long_after : pde.windowSize ≤ ts := by
        rcases follows.start with ⟨first, deadline⟩ | ⟨newest, member, low, _⟩
        · have before := earlier ps.firstTs (List.mem_of_getLast? first)
          omega
        · exact Nat.le_trans low (Nat.le_of_lt (earlier newest member))
      obtain ⟨trimmed, tally, lastTs, found⟩ :=
        moveStart_spec (sub64 ts pde.windowSize) pde.pulses.length
          { ps with lastTs := ts, count := ps.count + 1, countFalses := 1 } counted
          (congrArg (· + 1) follows.tallied) le_rfl
      rw [sub64_of_le long_after fits] at trimmed tally lastTs found ⊢
      refine ⟨trimmed, tally, lastTs, ?_, ?_⟩
      · rcases found with ⟨empty, _⟩ | ⟨first, valid, _⟩
        · simp [empty]
        · intro burst member
          have least := le_of_getLast? (falling.sublist trimmed.newest.sublist) first burst member
          omega
      · rcases found with ⟨empty, deadline⟩ | ⟨first, _, deadline⟩
        · exact .inl ⟨empty, long_after, by rw [deadline]; exact over_due⟩
        · exact .inr ⟨first, deadline⟩
  · next in_time =>
      have fresh := follows.start.resolve_right fun ⟨newest, member, _, passed⟩ =>
        in_time (Nat.lt_trans passed (earlier newest member))
      refine ⟨.refl counted, congrArg (· + 1) follows.tallied, rfl, fun burst member => ?_,
        .inr fresh⟩
      have least := le_of_getLast? falling fresh.1 burst member
      have deadline := fresh.2
      omega

/-- The first pulse makes the sequence. -/
theorem LongWatch.Kept.first {rs : RadarDetectorSpecs} {now : Nat} {w next : LongWatch}
    (kept : w.Kept rs now) (empty : w.pde.sequences = [] ∧ w.pde.pulses = [] ∧ w.bursts = [])
    {ts : BitVec 64} {allocs : Allocs} (stored : (Event.pulse ts allocs).Stored)
      (quiet : w.reported = none)
    (stepped : w.step (.pulse ts allocs) = .ok next) : next.Kept rs ts.toNat := by
  obtain ⟨no_sequence, no_pulse, no_burst⟩ := empty
  obtain ⟨elem, seq⟩ := stored
  have window : w.pde.windowSize = longRadarDuration := kept.windowSize
  have no_count : w.pde.count = 0 := by rw [kept.counted, no_pulse, List.length_nil]
  have starts : w.pde.startsBurst ts.toNat = true := by
    simp [PriDetector.startsBurst, no_sequence]
  simp only [LongWatch.step, quiet, Option.isSome_none, Bool.false_eq_true, if_false, starts,
    if_true, pdeLongAddPulse, no_sequence, seq, elem] at stepped
  rw [pulseQueueEnqueue_whole (by simp [no_pulse]) (by simp [no_count, kept.maxCount,
    longRadarMaxBurst])] at stepped
  obtain rfl := Except.ok.inj stepped
  refine ⟨kept.specs, kept.maxCount, kept.windowSize, ?_, ?_, fun _ => .inr ⟨_, rfl, ?_, ?_, ?_,
    ?_, .inl ⟨?_, rfl⟩⟩, ?_, ?_⟩
  · simp [kept.counted]
  · simp [no_burst]
  · simp [no_pulse]
  · simp [no_pulse]
  · simp
  · simp [no_burst]
  · simp [no_pulse]
  · simp
  · simp [LongWatch.Sound]

/-- A pulse that starts no burst leaves the accounts as they are. -/
theorem LongWatch.Kept.ignored {rs : RadarDetectorSpecs} {now : Nat} {w next : LongWatch}
    (kept : w.Kept rs now) {ps : PriSequence} (follows : w.pde.Follows ps w.bursts)
    {ts : BitVec 64} {allocs : Allocs} (late : ∀ burst ∈ w.bursts, burst ≤ ts.toNat)
    (ignored : w.pde.startsBurst ts.toNat = false) (quiet : w.reported = none)
    (stepped : w.step (.pulse ts allocs) = .ok next) : next.Kept rs ts.toNat := by
  obtain ⟨falses, added⟩ :=
    pdeLongAddPulse_ignored allocs follows.sequence ignored
  simp only [LongWatch.step, quiet, Option.isSome_none, Bool.false_eq_true, if_false, ignored,
    added] at stepped
  obtain rfl := Except.ok.inj stepped
  exact ⟨kept.specs, kept.maxCount, kept.windowSize, kept.counted, kept.apart,
    fun _ => .inr ⟨_, rfl, follows.tallied, follows.queue, follows.some_burst, late,
      follows.start⟩,
    by simp, by simp [LongWatch.Sound]⟩

/-- A burst keeps the accounts when there is room for it, and is reported for a radar only. -/
theorem LongWatch.Kept.burst {rs : RadarDetectorSpecs} (formed : rs.LongFormed)
    {now : Nat} {w next : LongWatch} (kept : w.Kept rs now) {ps : PriSequence}
    (follows : w.pde.Follows ps w.bursts) {ts : BitVec 64} {allocs : Allocs}
    (stored : (Event.pulse ts allocs).Stored) (roomy : w.Roomy (.pulse ts allocs))
    (late : ∀ burst ∈ w.bursts, burst < ts.toNat) (starts : w.pde.startsBurst ts.toNat = true)
    (quiet : w.reported = none) (stepped : w.step (.pulse ts allocs) = .ok next) :
    next.Kept rs ts.toNat := by
  have roomy := roomy ts.toNat rfl starts
  obtain ⟨moved, move⟩ : ∃ moved, (if ps.deadlineTs < ts.toNat then
      moveStart (sub64 ts.toNat w.pde.windowSize) w.pde.pulses.length w.pde
        { ps with lastTs := ts.toNat, count := ps.count + 1, countFalses := 1 }
    else (w.pde, { ps with lastTs := ts.toNat, count := ps.count + 1, countFalses := 1 })) =
      moved := ⟨_, rfl⟩
  obtain ⟨trimmed, tally, lastTs, recent, start⟩ :=
    follows.moved kept.counted kept.windowSize kept.apart ts.isLt late move
  have part : ts.toNat :: moved.1.pulses <+: ts.toNat :: w.bursts :=
    List.cons_prefix_cons.mpr ⟨rfl, trimmed.newest.trans follows.queue⟩
  have apart : (ts.toNat :: w.bursts).Pairwise (· > ·) :=
    List.pairwise_cons.mpr ⟨late, kept.apart⟩
  have queue := trimmed.newest.trans follows.queue
  have earlier : ∀ burst ∈ moved.1.pulses, burst < ts.toNat :=
    fun burst member => late burst (queue.subset member)
  simp only [LongWatch.step, quiet, Option.isSome_none, Bool.false_eq_true, if_false, starts,
    if_true, pdeLongAddPulse_burst follows.sequence starts move, stored.1] at stepped
  have specs := kept.specs
  split at stepped
  · next radar =>
      obtain rfl := Except.ok.inj stepped
      obtain ⟨many, spread⟩ := radar
      -- a report takes more than one burst, so some are queued
      rcases start with ⟨empty, -, -⟩ | ⟨first, -⟩
      · rw [tally, empty, specs] at many
        exact absurd formed.thresh_pos (Nat.not_lt_of_le (Nat.le_of_lt_succ many))
      refine ⟨trimmed.rs.trans specs, trimmed.maxCount.trans kept.maxCount,
        trimmed.windowSize.trans kept.windowSize, trimmed.counted, apart, by simp,
        by simp [lastTs], ?_⟩
      intro ts' reported
      obtain rfl := Option.some.inj reported
      have before := Nat.le_of_lt (earlier moved.2.firstTs (List.mem_of_getLast? first))
      rw [sub64_of_le before ts.isLt] at spread
      apply LongWatch.sound_of_queue apart part _ first
      · rw [tally] at many
        simpa only [trimmed.rs] using many
      · simpa only [trimmed.windowSize] using spread
      · simpa only [trimmed.windowSize] using recent
  · next quieter =>
      have room : moved.1.pulses.length + 1 < longRadarMaxBurst := by
        by_contra full
        have twenty : longRadarMaxBurst = 20 := rfl
        have inside : longRadarMaxBurst - 2 < moved.1.pulses.length := by omega
        have spread := roomy moved.1.pulses[longRadarMaxBurst - 2]
          (List.prefix_iff_getElem?.mp queue _ inside)
        rcases start with ⟨empty, -, -⟩ | ⟨first, -⟩
        · simp [empty] at inside
        have least := le_of_getLast? (kept.apart.sublist queue.sublist) first _
          (List.getElem_mem inside)
        apply quieter
        rw [sub64_of_le (Nat.le_of_lt (earlier _ (List.mem_of_getLast? first))) ts.isLt, tally,
          specs]
        have few := formed.thresh_lt
        omega
      rw [pulseQueueEnqueue_whole (by simpa only [trimmed.windowSize] using recent) (by
        rwa [trimmed.counted, trimmed.maxCount, kept.maxCount])] at stepped
      obtain rfl := Except.ok.inj stepped
      refine ⟨trimmed.rs.trans specs, trimmed.maxCount.trans kept.maxCount,
        trimmed.windowSize.trans kept.windowSize, ?_, apart,
        fun _ => .inr ⟨_, rfl, tally, part, by simp, ?_, ?_⟩, by simp [lastTs],
        by simp [LongWatch.Sound]⟩
      · simp [trimmed.counted]
      · intro burst member
        dsimp only
        rw [lastTs]
        rcases List.mem_cons.mp member with rfl | member
        · exact le_rfl
        · exact Nat.le_of_lt (late burst member)
      · dsimp only
        rw [trimmed.windowSize]
        rcases start with ⟨-, low, passed⟩ | ⟨first, deadline⟩
        · exact .inr ⟨ts.toNat, List.mem_cons_self, low, passed⟩
        · refine .inl ⟨?_, deadline⟩
          rw [List.getLast?_cons, first]
          rfl

theorem LongWatch.Kept.step {rs : RadarDetectorSpecs} (formed : rs.LongFormed) {now : Nat}
    {w next : LongWatch} (kept : w.Kept rs now) {event : Event} (stored : event.Stored)
    (roomy : w.Roomy event) (late : ∀ ts, event.pulseTs = some ts → now ≤ ts)
    (stepped : w.step event = .ok next) :
    next.Kept rs (event.pulseTs.getD now) := by
  cases event with
  | reset ts =>
      cases stepped
      exact LongWatch.kept_of_empty kept.specs kept.maxCount kept.windowSize rfl rfl rfl
  | pulse ts allocs =>
      have late : now ≤ ts.toNat := late ts.toNat rfl
      cases quiet : w.reported with
      | some radar => simp [LongWatch.step, quiet] at stepped
      | none =>
          rcases kept.follows quiet with empty | ⟨ps, follows⟩
          · exact kept.first empty stored quiet stepped
          have before : ps.lastTs ≤ ts.toNat :=
            Nat.le_trans (kept.past ps (by simp [follows.sequence])) late
          cases starts : w.pde.startsBurst ts.toNat with
          | false =>
              exact kept.ignored follows
                (fun burst member => Nat.le_trans (follows.seen burst member) before) starts quiet
                stepped
          | true =>
              have far : ps.lastTs < ts.toNat := by
                unfold PriDetector.startsBurst at starts
                simp only [follows.sequence, Bool.and_eq_true, Bool.not_eq_true',
                  decide_eq_false_iff_not, kept.specs] at starts
                have priMax := formed.priMax_pos
                apply Nat.lt_of_le_of_ne before
                intro same
                apply starts.1.1
                rw [delta32, sub64_of_le before ts.isLt, same, Nat.sub_self]
                exact priMax
              exact kept.burst formed follows stored roomy
                (fun burst member => Nat.lt_of_le_of_lt (follows.seen burst member) far) starts
                quiet stepped

/-- A whole run with room keeps the accounts. -/
theorem LongWatch.Kept.run {rs : RadarDetectorSpecs} (formed : rs.LongFormed)
    {events : List Event} {now : Nat} {w final : LongWatch} (kept : w.Kept rs now)
    (ordered : Nondecreasing events) (stored : ∀ event ∈ events, event.Stored)
    (late : ∀ ts ∈ events.filterMap Event.pulseTs, now ≤ ts)
    (roomy : Run.Guarded LongWatch.step LongWatch.Roomy events w)
    (ran : Run.run LongWatch.step events w = .ok final) : ∃ now, final.Kept rs now := by
  induction events generalizing w now with
  | nil =>
      cases ran
      exact ⟨now, kept⟩
  | cons event events induction =>
      obtain ⟨next, stepped, rest⟩ := Run.run_cons_eq_ok ran
      have kept_next := kept.step formed (stored event List.mem_cons_self) roomy.1
        (fun ts time => late ts (List.mem_filterMap.mpr ⟨event, List.mem_cons_self, time⟩)) stepped
      apply induction kept_next _ _ _ (roomy.2 next stepped) rest
      · unfold Nondecreasing at ordered ⊢
        exact ordered.sublist ((List.sublist_cons_self event events).filterMap _)
      · exact fun later member => stored later (List.mem_cons_of_mem _ member)
      · intro ts later
        cases time : event.pulseTs with
        | none =>
            apply late ts
            rwa [List.filterMap_cons_none time]
        | some now =>
            unfold Nondecreasing at ordered
            rw [List.filterMap_cons_some time] at ordered
            exact (List.pairwise_cons.mp ordered).1 ts later

/-- A detector of a listed long pattern reports a radar only for as many bursts as it must have
seen, in every run with memory in which no twenty bursts come within half a window. -/
theorem sound_of_roomy {rs : RadarDetectorSpecs} (listed : rs ∈ listedSpecs)
    (long : rs.type = .long) (freq : Nat) {events : List Event} (ordered : Nondecreasing events)
    (stored : ∀ event ∈ events, event.Stored)
    (roomy : Run.Guarded LongWatch.step LongWatch.Roomy events (LongWatch.start rs freq)) :
    Run.Throughout LongWatch.step LongWatch.Sound events (LongWatch.start rs freq) := by
  intro front back reached split ran
  subst split
  have ordered_front : Nondecreasing front :=
    List.Pairwise.sublist ((List.sublist_append_left front back).filterMap _) ordered
  obtain ⟨now, kept⟩ := (LongWatch.start_kept long freq).run (longFormed_of_listed listed long)
    ordered_front (fun event member => stored event (List.mem_append_left back member))
    (fun _ _ => Nat.zero_le _) roomy.of_append ran
  exact kept.sound

/-- The pattern of a long radar. -/
def longPattern : RadarDetectorSpecs := fccPattern 5 50 110 1000 2000 1 8 .long

theorem longPattern_listed : longPattern ∈ listedSpecs := by
  decide +kernel

theorem roomy_of_few (w : LongWatch) (event : Event)
    (few : decide (w.bursts.length ≤ longRadarMaxBurst - 2) = true) : w.Roomy event := by
  intro ts _ _ burst found
  rw [List.getElem?_eq_none (of_decide_eq_true few)] at found
  cases found

/-- Pulses, each with the memory it asks for. -/
def pulsesAt (stamps : List (BitVec 64)) : List Event := stamps.map fun ts => .pulse ts {}

theorem pulsesAt_stored {stamps : List (BitVec 64)} :
    ∀ event ∈ pulsesAt stamps, event.Stored := by
  intro event member
  obtain ⟨ts, -, rfl⟩ := List.mem_map.mp member
  exact ⟨rfl, rfl⟩

/-- Five bursts, two seconds apart: a radar. -/
def fiveBursts : List Event := pulsesAt [0, 2000000, 4000000, 6000000, 8000000]

theorem fiveBursts_sound :
    Run.Throughout LongWatch.step LongWatch.Sound fiveBursts (LongWatch.start longPattern 5500) :=
  sound_of_roomy longPattern_listed rfl 5500 (by unfold Nondecreasing; decide +kernel)
    pulsesAt_stored (Run.guarded_of_check roomy_of_few (by decide +kernel))

/-! ## Where the count goes wrong -/

/-- Twenty-one bursts in six seconds, almost twelve seconds of silence, and one burst. -/
def busyThenSilent : List Event :=
  pulsesAt ((List.range 21).map fun burst => BitVec.ofNat 64 (300000 * burst)) ++
    pulsesAt [17700000]

/-- The last burst is reported for a radar of more than four bursts.  The window holds three. -/
theorem busyThenSilent_ends :
    ∃ w, Run.run LongWatch.step busyThenSilent (LongWatch.start longPattern 5500) = .ok w ∧
      w.reported = some 17700000 ∧ (w.recent 17700000).length = 3 ∧ w.pde.rs.ppbThresh = 4 := by
  obtain ⟨w, ran, ends⟩ := Run.ends_of_toOption
    (show (Run.run LongWatch.step busyThenSilent (LongWatch.start longPattern 5500)).toOption.map
        (fun w => (w.reported, (w.recent 17700000).length, w.pde.rs.ppbThresh)) =
      some (some 17700000, 3, 4) by decide +kernel)
  rw [Prod.mk.injEq, Prod.mk.injEq] at ends
  exact ⟨w, ran, ends⟩

theorem busyThenSilent_unsound : longPattern ∈ listedSpecs ∧ longPattern.type = .long ∧
    Nondecreasing busyThenSilent ∧ (∀ event ∈ busyThenSilent, event.Stored) ∧
    ¬Run.Throughout LongWatch.step LongWatch.Sound busyThenSilent
      (LongWatch.start longPattern 5500) := by
  refine ⟨longPattern_listed, rfl, by unfold Nondecreasing; decide +kernel, ?_, fun sound => ?_⟩
  · intro event member
    exact (List.mem_append.mp member).elim (pulsesAt_stored event) (pulsesAt_stored event)
  · obtain ⟨w, ran, reported, three, thresh⟩ := busyThenSilent_ends
    have radar := sound busyThenSilent [] w (List.append_nil _).symm ran 17700000 reported
    have many := radar.2.1
    rw [three, thresh] at many
    exact absurd many (by decide)

end AmlW2.Radar
