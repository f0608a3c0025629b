import AmlW2.Radar.Specs

/-!
# Pulse detectors

A detector of `aml_radar.c` keeps the last pulses it took and the sequences of evenly spaced pulses
it found among them.  Time stamps are 64-bit, the differences it works with are 32-bit.
-/

namespace AmlW2.Radar

/-- The difference of two 64-bit time stamps. -/
def sub64 (ts earlier : Nat) : Nat := (ts + 2 ^ 64 - earlier) % 2 ^ 64

/-- The difference of two time stamps kept in a `u32`. -/
def delta32 (ts earlier : Nat) : Nat := sub64 ts earlier % 2 ^ 32

theorem sub64_of_le {ts earlier : Nat} (ordered : earlier ≤ ts) (fits : ts < 2 ^ 64) :
    sub64 ts earlier = ts - earlier := by
  unfold sub64
  omega

/-- `struct pri_sequence` -/
structure PriSequence where
  pri : Nat
  dur : Nat
  count : Nat
  countFalses : Nat
  firstTs : Nat
  lastTs : Nat
  deadlineTs : Nat
  ppbThresh : Nat
  deriving DecidableEq, Repr

/-- `struct pri_detector`; `pulses` starts with the newest, as the list of the source does, and the
operations follow from the type of the pattern. -/
structure PriDetector where
  rs : RadarDetectorSpecs
  lastTs : Nat := 0
  sequences : List PriSequence := []
  pulses : List Nat := []
  count : Nat := 0
  maxCount : Nat
  windowSize : Nat
  freq : Nat
  deriving DecidableEq, Repr

/-- What the allocator answers while one pulse is handled: for a new detector, for an element of the
pulse queue, and for each sequence in turn. -/
structure Allocs where
  pde : Bool := true
  elem : Bool := true
  seqs : List Bool := []
  deriving DecidableEq, Repr

/-! ## The pulse queue -/

/-- `pulse_queue_dequeue` -/
def pulseQueueDequeue (pde : PriDetector) : PriDetector :=
  if pde.pulses = [] then pde
  else { pde with pulses := pde.pulses.dropLast, count := pde.count - 1 }

/-- The loop of `pulse_queue_check_window`, a round for each pulse queued at most. -/
def dequeueOld (minValidTs : Nat) : Nat → PriDetector → PriDetector
  | 0, pde => pde
  | rounds + 1, pde =>
      match pde.pulses.getLast? with
      | none => pde
      | some ts =>
          if minValidTs ≤ ts then pde else dequeueOld minValidTs rounds (pulseQueueDequeue pde)

/-- `pulse_queue_check_window` -/
def pulseQueueCheckWindow (pde : PriDetector) : PriDetector :=
  if pde.count < 2 then pde
  else if pde.lastTs ≤ pde.windowSize then pde
  else dequeueOld (pde.lastTs - pde.windowSize) pde.pulses.length pde

/-- `pulse_queue_enqueue`, where `elem` tells whether an element could be had. -/
def pulseQueueEnqueue (pde : PriDetector) (ts : Nat) (elem : Bool) : PriDetector × Bool :=
  if elem then
    let queued := pulseQueueCheckWindow
      { pde with pulses := ts :: pde.pulses, count := pde.count + 1, lastTs := ts }
    (if queued.maxCount ≤ queued.count then pulseQueueDequeue queued else queued, true)
  else (pde, false)

/-! ## Short waveforms -/

/-- `pde_get_multiple` -/
def pdeGetMultiple (val fraction tolerance : Nat) : Nat :=
  if fraction = 0 then 0
  else
    let delta := if val < fraction then fraction - val else val - fraction
    if delta ≤ tolerance then 1
    else
      let factor := val / fraction
      let remainder := val % fraction
      if tolerance < remainder then
        if fraction - remainder ≤ tolerance then factor + 1 else 0
      else factor

/-- The sequence `pde_short_create_sequences` starts with: the pulse at hand and the one queued at
`earlier`, the `idx`th of the queue. -/
def newSequence (rs : RadarDetectorSpecs) (ts earlier idx : Nat) : PriSequence where
  pri := delta32 ts earlier
  dur := delta32 ts earlier * (rs.ppb - 1) + 2 * rs.maxPriTolerance
  count := 2
  countFalses := idx - 1
  firstTs := earlier
  lastTs := ts
  deadlineTs := 0
  ppbThresh := 0

/-- The inner loop of `pde_short_create_sequences`: which of the older pulses belong to the
sequence, `falses` of them in a row so far not. -/
def matchOlder (rs : RadarDetectorSpecs) (minValidTs : Nat) :
    List Nat → Nat → PriSequence → PriSequence
  | [], _, ps => ps
  | earlier :: older, falses, ps =>
      if earlier < minValidTs then ps
      else if 0 < pdeGetMultiple (delta32 ps.lastTs earlier) ps.pri rs.maxPriTolerance then
        matchOlder rs minValidTs older 0
          { ps with
            count := ps.count + 1
            firstTs := earlier
            countFalses := ps.countFalses + falses }
      else matchOlder rs minValidTs older (falses + 1) ps

/-- The sequence found from the pulse queued at `earlier`, with its deadline and threshold. -/
def candidate (rs : RadarDetectorSpecs) (ts earlier idx : Nat) (older : List Nat) : PriSequence :=
  let fresh := newSequence rs ts earlier idx
  let minValidTs := if ts < fresh.dur then 0 else ts - fresh.dur
  let ps := matchOlder rs minValidTs older 0 fresh
  { ps with
    deadlineTs := (ps.firstTs + ps.dur) % 2 ^ 64
    ppbThresh := rs.thresh ps.pri }

/-- The outer loop of `pde_short_create_sequences` over the pulses left, `idx` of them done. -/
def createFrom (rs : RadarDetectorSpecs) (ts minCount : Nat) :
    List Nat → Nat → List Bool → List PriSequence → List PriSequence × Bool
  | [], _, _, sequences => (sequences, true)
  | earlier :: older, idx, allocs, sequences =>
      if delta32 ts earlier < rs.priMin then
        createFrom rs ts minCount older (idx + 1) allocs sequences
      else if rs.priMax < delta32 ts earlier then (sequences, true)
      else
        let ps := candidate rs ts earlier (idx + 1) older
        if ps.count ≤ minCount then
          createFrom rs ts minCount older (idx + 1) allocs sequences
        else if allocs.headD true then
          createFrom rs ts minCount older (idx + 1) allocs.tail (ps :: sequences)
        else (sequences, false)

/-- `pde_short_create_sequences` -/
def pdeShortCreateSequences (pde : PriDetector) (ts minCount : Nat) (allocs : List Bool) :
    PriDetector × Bool :=
  let created := createFrom pde.rs ts minCount pde.pulses 0 allocs pde.sequences
  ({ pde with sequences := created.1 }, created.2)

/-- The loop of `pde_short_add_to_existing_seqs`. -/
def addToSeqs (rs : RadarDetectorSpecs) (ts : Nat) : List PriSequence → Nat → List PriSequence × Nat
  | [], maxCount => ([], maxCount)
  | ps :: others, maxCount =>
      if ps.deadlineTs < ts then addToSeqs rs ts others maxCount
      else if 0 < pdeGetMultiple (delta32 ts ps.lastTs) ps.pri rs.maxPriTolerance then
        let rest := addToSeqs rs ts others (max maxCount (ps.count + 1))
        ({ ps with lastTs := ts, count := ps.count + 1 } :: rest.1, rest.2)
      else
        let rest := addToSeqs rs ts others maxCount
        ({ ps with countFalses := ps.countFalses + 1 } :: rest.1, rest.2)

/-- `pde_short_add_to_existing_seqs` -/
def pdeShortAddToExistingSeqs (pde : PriDetector) (ts : Nat) : PriDetector × Nat :=
  let added := addToSeqs pde.rs ts pde.sequences 0
  ({ pde with sequences := added.1 }, added.2)

/-- `pde_short_check_detection` -/
def pdeShortCheckDetection (pde : PriDetector) : Option PriSequence :=
  pde.sequences.find? fun ps =>
    decide (ps.ppbThresh ≤ ps.count) && decide (ps.countFalses < ps.count * pde.rs.numPri)

/-- `pri_detector_reset` -/
def priDetectorReset (pde : PriDetector) (ts : Nat) : PriDetector :=
  { pde with sequences := [], pulses := [], count := 0, lastTs := ts }

/-- `pde_short_add_pulse` -/
def pdeShortAddPulse (pde : PriDetector) (ts : Nat) (allocs : Allocs) :
    PriDetector × Option PriSequence :=
  if pde.count = 0 then ((pulseQueueEnqueue pde ts allocs.elem).1, none)
  else if sub64 ts pde.lastTs < pde.rs.maxPriTolerance then (pde, none)
  else
    let added := pdeShortAddToExistingSeqs pde ts
    let created := pdeShortCreateSequences added.1 ts added.2 allocs.seqs
    if created.2 then
      match pdeShortCheckDetection created.1 with
      | none => ((pulseQueueEnqueue created.1 ts allocs.elem).1, none)
      | some ps => (created.1, some ps)
    else (priDetectorReset created.1 ts, none)

/-- What becomes of a pulse that is neither the first nor close to the last. -/
theorem pdeShortAddPulse_far {pde : PriDetector} {ts : Nat} {allocs : Allocs}
    (some_count : pde.count ≠ 0) (far : ¬sub64 ts pde.lastTs < pde.rs.maxPriTolerance)
    {added : PriDetector × Nat} {created : PriDetector × Bool}
    (add : pdeShortAddToExistingSeqs pde ts = added)
    (create : pdeShortCreateSequences added.1 ts added.2 allocs.seqs = created) :
    pdeShortAddPulse pde ts allocs =
      if created.2 then
        match pdeShortCheckDetection created.1 with
        | none => ((pulseQueueEnqueue created.1 ts allocs.elem).1, none)
        | some ps => (created.1, some ps)
      else (priDetectorReset created.1 ts, none) := by
  subst add
  subst create
  exact (if_neg some_count).trans (if_neg far)

/-! ## Long waveforms -/

/-- `LONG_RADAR_DURATION` -/
def longRadarDuration : Nat := 12000000

/-- `LONG_RADAR_BURST_MIN_DURATION` -/
def longRadarBurstMinDuration : Nat := 12000000 / 20

/-- `LONG_RADAR_MAX_BURST` -/
def longRadarMaxBurst : Nat := 20

/-- The loop of `pde_long_add_pulse` that moves the start of the sequence to the oldest burst still
in the window. -/
def moveStart (minValidTs : Nat) : Nat → PriDetector → PriSequence → PriDetector × PriSequence
  | 0, pde, ps => (pde, ps)
  | rounds + 1, pde, ps =>
      match pde.pulses.getLast? with
      | none => (pde, ps)
      | some ts =>
          if minValidTs ≤ ts then
            (pde, { ps with firstTs := ts, deadlineTs := (ts + pde.windowSize) % 2 ^ 64 })
          else
            moveStart minValidTs rounds (pulseQueueDequeue pde) { ps with count := ps.count - 1 }

/-- `pde_long_add_pulse`.  The `dur` of a new sequence is not initialised; it is written before the
third burst, when it is read first. -/
def pdeLongAddPulse (pde : PriDetector) (ts : Nat) (allocs : Allocs) :
    PriDetector × Option PriSequence :=
  match pde.sequences with
  | [] =>
      if allocs.seqs.headD true then
        let ps : PriSequence :=
          { pri := 0, dur := 0, count := 1, countFalses := 1, firstTs := ts, lastTs := ts,
            deadlineTs := (ts + pde.windowSize) % 2 ^ 64, ppbThresh := 0 }
        ((pulseQueueEnqueue { pde with sequences := [ps] } ts allocs.elem).1, none)
      else (pde, none)
  | ps :: others =>
      let deltaTs := delta32 ts ps.lastTs
      let seen := { ps with lastTs := ts }
      if deltaTs < pde.rs.priMax then ({ pde with sequences := seen :: others }, none)
      else if pde.rs.priMin ≤ deltaTs ∧ deltaTs ≤ pde.rs.priMax then
        let seen := { seen with countFalses := seen.countFalses + 1 }
        ({ pde with sequences := seen :: others }, none)
      else if 2 < seen.count ∧ (seen.dur + deltaTs) % 2 ^ 32 < longRadarBurstMinDuration then
        ({ pde with sequences := seen :: others }, none)
      else
        let burst := { seen with count := seen.count + 1, countFalses := 1 }
        let moved :=
          if burst.deadlineTs < ts then
            moveStart (sub64 ts pde.windowSize) pde.pulses.length pde burst
          else (pde, burst)
        if pde.rs.ppbThresh < moved.2.count ∧ pde.windowSize / 2 < sub64 ts moved.2.firstTs then
          ({ moved.1 with sequences := moved.2 :: others }, some moved.2)
        else
          let queued := (pulseQueueEnqueue moved.1 ts allocs.elem).1
          ({ queued with sequences := { moved.2 with dur := deltaTs } :: others }, none)

/-! ## Any detector -/

/-- `pri_detector_init`, with `pde_short_init` or `pde_long_init` as the pattern asks. -/
def priDetectorInit (rs : RadarDetectorSpecs) (freq : Nat) : PriDetector :=
  if rs.type = .long then
    { rs, freq, maxCount := longRadarMaxBurst, windowSize := longRadarDuration }
  else
    { rs, freq, maxCount := rs.ppb * 2, windowSize := rs.priMax * rs.ppb * rs.numPri }

/-- `ops->add_pulse` -/
def PriDetector.addPulse (pde : PriDetector) (ts : Nat) (allocs : Allocs) :
    PriDetector × Option PriSequence :=
  if pde.rs.type = .long then pdeLongAddPulse pde ts allocs else pdeShortAddPulse pde ts allocs

/-- `ops->reset_on_pri_overflow` -/
def PriDetector.resetOnPriOverflow (pde : PriDetector) : Bool := decide (pde.rs.type ≠ .long)

end AmlW2.Radar
