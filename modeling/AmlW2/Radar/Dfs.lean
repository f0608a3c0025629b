import Mathlib.Algebra.Order.Group.Unbundled.Int
import AmlW2.Lib.Run
import AmlW2.Radar.Detector

/-!
# Pulse times

`dfs_pattern_detector_add_pulse` gives each pulse a time stamp: it adds the interval the hardware
measured, or, where that was too long for the hardware, the jiffies since its reference.
-/

namespace AmlW2.Radar

/-! ## The jiffies -/

/-- The tick counter of a kernel whose ticks last a whole number of microseconds. -/
structure Tick where
  /-- `USEC_PER_SEC / HZ` -/
  usecs : Nat
  usecs_pos : 0 < usecs
  /-- How long before time zero the counter was zero. -/
  phase : Nat

/-- The ticks up to a time. -/
def Tick.ticks (tick : Tick) (time : Nat) : Nat := (tick.phase + time) / tick.usecs

/-- How far a time is into its jiffy. -/
def Tick.into (tick : Tick) (time : Nat) : Nat := (tick.phase + time) % tick.usecs

/-- The `jiffies` at a time, kept in a `u32`. -/
def Tick.jiffies (tick : Tick) (time : Nat) : Nat := tick.ticks time % 2 ^ 32

/-- `jiffies_to_usecs`, which returns an `unsigned int`. -/
def Tick.jiffiesToUsecs (tick : Tick) (jiffies : Nat) : Nat := tick.usecs * jiffies % 2 ^ 32

/-! ## The pattern detector -/

/-- `struct dfs_pattern_detector`: each pattern of the domain with its detectors. -/
structure DfsPatternDetector where
  region : DfsRegion := .unset
  lastPulseTs : Nat := 0
  prevJiffies : Nat
  detectors : List (RadarDetectorSpecs × List PriDetector) := []

/-- The loop of `pri_detector_get` from the `idx`th detector on, with the idle detector `cur` of the
frequency seen so far. -/
def findDetector (freq : Nat) : List PriDetector → Nat → Option Nat → Option Nat
  | [], _, cur => cur
  | pde :: others, idx, cur =>
      if pde.freq = freq then
        if pde.count ≠ 0 then some idx else findDetector freq others (idx + 1) (some idx)
      else if pde.freq = freq + 2 ∧ pde.count ≠ 0 then some idx
      else if pde.freq + 2 = freq ∧ pde.count ≠ 0 then some idx
      else findDetector freq others (idx + 1) cur

/-- `pri_detector_get`: the detectors of the pattern and which of them to use. -/
def priDetectorGet (rs : RadarDetectorSpecs) (pdes : List PriDetector) (freq : Nat)
    (allocs : Allocs) : List PriDetector × Option Nat :=
  match findDetector freq pdes 0 none with
  | some idx => (pdes, some idx)
  | none => if allocs.pde then (priDetectorInit rs freq :: pdes, some 0) else (pdes, none)

/-- One round of the loop over the patterns. -/
def addToType (freq len ts : Nat) (rs : RadarDetectorSpecs) (pdes : List PriDetector)
    (allocs : Allocs) : List PriDetector × Bool :=
  if len < rs.widthMin ∨ rs.widthMax < len then (pdes, false)
  else
    let got := priDetectorGet rs pdes freq allocs
    match got.2.bind fun idx => got.1[idx]?.map fun pde => (idx, pde) with
    | none => (got.1, false)
    | some (idx, pde) =>
        let added := pde.addPulse ts allocs
        (got.1.set idx added.1, added.2.isSome)

/-- The loop over the patterns, up to the first that is detected. -/
def addToTypes (freq len ts : Nat) : List (RadarDetectorSpecs × List PriDetector) → List Allocs →
    List (RadarDetectorSpecs × List PriDetector) × Bool
  | [], _ => ([], false)
  | (rs, pdes) :: others, allocs =>
      let added := addToType freq len ts rs pdes (allocs.headD {})
      if added.2 then ((rs, added.1) :: others, true)
      else
        let rest := addToTypes freq len ts others allocs.tail
        ((rs, added.1) :: rest.1, rest.2)

/-- `dfs_pattern_detector_reset`, with the `jiffies` it reads. -/
def dfsPatternDetectorReset (dpd : DfsPatternDetector) (jiffies : Nat) : DfsPatternDetector :=
  { dpd with
    detectors := dpd.detectors.map fun line =>
      (line.1, line.2.map fun pde => priDetectorReset pde dpd.lastPulseTs)
    lastPulseTs := 0
    prevJiffies := jiffies }

/-- `dfs_pattern_detector_pri_overflow` -/
def dfsPatternDetectorPriOverflow (dpd : DfsPatternDetector) : DfsPatternDetector :=
  { dpd with
    detectors := dpd.detectors.map fun line =>
      (line.1, line.2.map fun pde =>
        if pde.resetOnPriOverflow then priDetectorReset pde dpd.lastPulseTs else pde) }

/-- The jiffies since the reference, as the source counts them over a wrap. -/
def deltaJiffie (prevJiffies now : Nat) : Nat :=
  if now < prevJiffies then 0xffffffff - prevJiffies + now else now - prevJiffies

/-- The time stamp of a pulse.  The sum is a `u64` that does not wrap in half a million years. -/
def computeTimeStamp (tick : Tick) (dpd : DfsPatternDetector) (pri now : Nat) :
    DfsPatternDetector :=
  if pri = 0 then
    dfsPatternDetectorPriOverflow
      { dpd with
        lastPulseTs :=
          dpd.lastPulseTs + tick.jiffiesToUsecs (deltaJiffie dpd.prevJiffies now)
        prevJiffies := now }
  else { dpd with lastPulseTs := dpd.lastPulseTs + pri }

/-- `dfs_pattern_detector_add_pulse`, where a reset would read `jiffies`. -/
def dfsPatternDetectorAddPulse (tick : Tick) (dpd : DfsPatternDetector) (freq pri len now : Nat)
    (allocs : List Allocs) (jiffies : Nat) : DfsPatternDetector × Bool :=
  if dpd.region = .unset then (dpd, true)
  else
    let stamped := computeTimeStamp tick dpd pri now
    let added := addToTypes freq len stamped.lastPulseTs stamped.detectors allocs
    let dpd := { stamped with detectors := added.1 }
    if added.2 then (dfsPatternDetectorReset dpd jiffies, true) else (dpd, false)

/-- `enum aml_radar_chain` -/
inductive RadarChain where
  | riu
  | fcu
  deriving DecidableEq, Repr

/-- `dfs_pattern_detector_set_domain` -/
def dfsPatternDetectorSetDomain (dpd : DfsPatternDetector) (region : DfsRegion)
    (chain : RadarChain) : DfsPatternDetector × Bool :=
  if dpd.region = region then (dpd, true)
  else
    match getDfsDomainRadarTypes region with
    | none => ({ dpd with region := .unset }, false)
    | some types =>
        let specs := if chain = .riu then types.specRiu else types.specFcu
        ({ dpd with region, detectors := specs.map fun rs => (rs, []) }, true)

/-! ## Streams of pulses -/

/-- A pulse with its true time and the time stamp it was given. -/
structure Stamped where
  time : Nat
  stamp : Nat
  /-- It came without an interval. -/
  untimed : Bool
  /-- The pattern detector has a domain to look for. -/
  supported : Bool
  detected : Bool
  deriving DecidableEq, Repr

/-- A pattern detector being fed: the time of the last pulse, the time of the jiffies it refers to,
and the pulses so far, newest first. -/
structure Feed where
  dpd : DfsPatternDetector
  time : Nat
  reference : Nat
  pulses : List Stamped := []

inductive Arrival where
  /-- A pulse `gap` microseconds after the one before; a detection is made `late` after it. -/
  | pulse (gap freq len : Nat) (allocs : List Allocs) (late : Nat)
  | setDomain (region : DfsRegion) (chain : RadarChain)

/-- The interval the hardware gives: none where it is too long for 16 bits. -/
def hardwarePri (gap : Nat) : Nat := if gap ≤ 65535 then gap else 0

/-- One arrival, with the jiffies at its true time. -/
def Feed.step (tick : Tick) (s : Feed) : Arrival → Except Unit Feed
  | .pulse gap freq len allocs late =>
      let time := s.time + gap
      let pri := hardwarePri gap
      let now := tick.jiffies time
      let added := dfsPatternDetectorAddPulse tick s.dpd freq pri len now allocs
        (tick.jiffies (time + late))
      let supported := decide (s.dpd.region ≠ .unset)
      .ok {
        dpd := added.1
        time
        reference :=
          if !supported then s.reference
          else if added.2 then time + late
          else if pri = 0 then time
          else s.reference
        pulses :=
          { time
            stamp := (computeTimeStamp tick s.dpd pri now).lastPulseTs
            untimed := decide (pri = 0)
            supported
            detected := added.2 } :: s.pulses }
  | .setDomain region chain =>
      .ok { s with dpd := (dfsPatternDetectorSetDomain s.dpd region chain).1 }

/-- A pattern detector made at some time, the last pulse before it at any other. -/
def Feed.start (tick : Tick) (before made : Nat) : Feed where
  dpd := { prevJiffies := tick.jiffies made }
  time := before
  reference := made

/-- How much the time stamps of two pulses differ from their times. -/
def skew (later earlier : Stamped) : Int :=
  (later.stamp : Int) - earlier.stamp - ((later.time : Int) - earlier.time)

/-- Between any two pulses with no detection in between, the time stamps are right up to one jiffy
for each pulse without an interval. -/
def Faithful (tick : Tick) (pulses : List Stamped) : Prop :=
  ∀ front later between earlier back, pulses = front ++ later :: (between ++ earlier :: back) →
    later.supported = true → earlier.detected = false →
    (∀ pulse ∈ between, pulse.detected = false) →
    (skew later earlier).natAbs ≤ tick.usecs * (later :: between).countP Stamped.untimed

/-! ## What a pulse without an interval adds -/

/-- The 32-bit jiffies wrap between two times. -/
def Tick.wraps (tick : Tick) (reference time : Nat) : Int :=
  if tick.jiffies time < tick.jiffies reference then 1 else 0

/-- How often the 32-bit microseconds wrap between two times. -/
def Tick.overflows (tick : Tick) (reference time : Nat) : Int :=
  tick.usecs * ((tick.ticks time : Int) - tick.ticks reference - tick.wraps reference time) / 2 ^ 32

/-- What is counted twice or lost at a pulse without an interval: the time from the reference to the
pulse before is counted already, what the counters lose by wrapping is not. -/
def Tick.drift (tick : Tick) (reference last time : Nat) : Int :=
  ((last : Int) - reference) + ((tick.into reference : Int) - tick.into time) -
    tick.usecs * tick.wraps reference time - 2 ^ 32 * tick.overflows reference time

theorem Tick.usecs_mul_ticks (tick : Tick) (time : Nat) :
    (tick.usecs : Int) * tick.ticks time = tick.phase + time - tick.into time := by
  have parts := Nat.div_add_mod (tick.phase + time) tick.usecs
  simp only [ticks, into]
  omega

/-- Up to whole wraps of the counter, the source counts the ticks between, less one if the counter
wrapped. -/
theorem deltaJiffie_eq (tick : Tick) (reference time : Nat) :
    ∃ turns : Int, (deltaJiffie (tick.jiffies reference) (tick.jiffies time) : Int) =
      (tick.ticks time : Int) - tick.ticks reference - tick.wraps reference time +
        2 ^ 32 * turns := by
  have now := Nat.div_add_mod (tick.ticks time) (2 ^ 32)
  have prev := Nat.div_add_mod (tick.ticks reference) (2 ^ 32)
  have below : tick.jiffies reference < 2 ^ 32 := Nat.mod_lt _ (by decide)
  unfold deltaJiffie Tick.wraps
  by_cases wrapped : tick.jiffies time < tick.jiffies reference
  all_goals simp only [wrapped, if_true, if_false]
  all_goals simp only [Tick.jiffies] at below wrapped ⊢
  · exact ⟨1 + (tick.ticks reference / 2 ^ 32 : Nat) - (tick.ticks time / 2 ^ 32 : Nat), by omega⟩
  · exact ⟨(tick.ticks reference / 2 ^ 32 : Nat) - (tick.ticks time / 2 ^ 32 : Nat), by omega⟩

/-- The jiffies since the reference are worth the gap to the pulse before, off by the drift. -/
theorem jiffiesToUsecs_eq (tick : Tick) (reference last gap : Nat) :
    (tick.jiffiesToUsecs (deltaJiffie (tick.jiffies reference) (tick.jiffies (last + gap))) : Int) =
      gap + tick.drift reference last (last + gap) := by
  obtain ⟨turns, delta⟩ := deltaJiffie_eq tick reference (last + gap)
  have now := tick.usecs_mul_ticks (last + gap)
  have prev := tick.usecs_mul_ticks reference
  unfold Tick.jiffiesToUsecs Tick.drift
  rw [Int.natCast_emod, Int.natCast_mul, delta]
  have worth : (tick.usecs : Int) * ((tick.ticks (last + gap) : Int) - tick.ticks reference -
      tick.wraps reference (last + gap) + 2 ^ 32 * turns) =
      tick.usecs * ((tick.ticks (last + gap) : Int) - tick.ticks reference -
        tick.wraps reference (last + gap)) + 2 ^ 32 * (tick.usecs * turns) := by
    rw [Int.mul_add, Int.mul_left_comm (tick.usecs : Int) (2 ^ 32)]
  have cut : ((2 ^ 32 : Nat) : Int) = 2 ^ 32 := rfl
  rw [worth, cut, Int.add_mul_emod_self_left, Int.emod_def, ← Tick.overflows, Int.mul_sub,
    Int.mul_sub, now, prev]
  omega

/-- Right after the reference, with no wrap, a pulse without an interval is off by less than a
jiffy. -/
theorem drift_of_reference {tick : Tick} {reference time : Nat}
    (no_wrap : tick.wraps reference time = 0) (no_overflow : tick.overflows reference time = 0) :
    (tick.drift reference reference time).natAbs < tick.usecs := by
  have first : tick.into reference < tick.usecs := Nat.mod_lt _ tick.usecs_pos
  have second : tick.into time < tick.usecs := Nat.mod_lt _ tick.usecs_pos
  unfold Tick.drift
  rw [no_wrap, no_overflow]
  omega

/-- With no wrap, what the hardware measured since the reference is counted twice: two jiffies of
it are too much. -/
theorem drift_of_measured {tick : Tick} {reference last time : Nat}
    (no_wrap : tick.wraps reference time = 0) (no_overflow : tick.overflows reference time = 0)
    (measured : reference + 2 * tick.usecs ≤ last) :
    tick.usecs < (tick.drift reference last time).natAbs := by
  have second : tick.into time < tick.usecs := Nat.mod_lt _ tick.usecs_pos
  unfold Tick.drift
  rw [no_wrap, no_overflow]
  omega

/-! ## Pairs of pulses from neighbours -/

/-- Only a pattern detector without a domain gives no time stamp, and it says
it detected a radar. -/
def FailSafe (pulses : List Stamped) : Prop :=
  ∀ pulse ∈ pulses, pulse.detected = false → pulse.supported = true

/-- A new pulse keeps the stamps right just when it is right against the pulse before. -/
theorem faithful_cons_iff (tick : Tick) (pulse : Stamped) {pulses : List Stamped}
    (fail_safe : FailSafe pulses) : Faithful tick (pulse :: pulses) ↔ Faithful tick pulses ∧
      ∀ before ∈ pulses.head?, pulse.supported = true → before.detected = false →
        (skew pulse before).natAbs ≤ tick.usecs * [pulse].countP Stamped.untimed := by
  constructor
  · intro faithful
    constructor
    · intro front later between earlier back split
      exact faithful (pulse :: front) later between earlier back (by rw [split]; rfl)
    · intro before head supported quiet
      obtain ⟨back, rfl⟩ : ∃ back, pulses = before :: back := by
        cases pulses with
        | nil => cases head
        | cons first back =>
            obtain rfl := Option.some.inj head
            exact ⟨back, rfl⟩
      exact faithful [] pulse [] before back rfl supported quiet (by simp)
  · rintro ⟨rest, neighbour⟩ front later between earlier back split supported quiet none_between
    cases front with
    | cons first front =>
        obtain ⟨-, split_rest⟩ := List.cons.inj split
        exact rest front later between earlier back split_rest supported quiet none_between
    | nil =>
        obtain ⟨rfl, rfl⟩ := List.cons.inj split
        cases between with
        | nil => exact neighbour earlier rfl supported quiet
        | cons middle between =>
            have first := neighbour middle rfl supported (none_between middle List.mem_cons_self)
            have second := rest [] middle between earlier back rfl
              (fail_safe middle List.mem_cons_self (none_between middle List.mem_cons_self)) quiet
              fun other member => none_between other (List.mem_cons_of_mem _ member)
            have chain : skew pulse earlier = skew pulse middle + skew middle earlier := by
              unfold skew
              omega
            calc (skew pulse earlier).natAbs ≤
                  (skew pulse middle).natAbs + (skew middle earlier).natAbs := by
                  rw [chain]
                  exact Int.natAbs_add_le _ _
              _ ≤ tick.usecs * [pulse].countP Stamped.untimed +
                    tick.usecs * (middle :: between).countP Stamped.untimed :=
                  Nat.add_le_add first second
              _ = tick.usecs * (pulse :: middle :: between).countP Stamped.untimed := by
                  rw [← Nat.mul_add, ← List.countP_append]
                  rfl

/-! ## The times of a stream -/

/-- What a feed keeps whatever arrives: the pattern detector holds the jiffies of the reference and,
unless it just reset, the time stamp of the pulse before. -/
structure Feed.Consistent (tick : Tick) (s : Feed) : Prop where
  prev : s.dpd.prevJiffies = tick.jiffies s.reference
  newest : ∀ before ∈ s.pulses.head?, before.detected = false →
    before.time = s.time ∧ before.stamp = s.dpd.lastPulseTs
  fail_safe : FailSafe s.pulses

theorem Feed.start_consistent (tick : Tick) (before made : Nat) :
    (Feed.start tick before made).Consistent tick := by
  refine ⟨rfl, ?_, ?_⟩
  · intro pulse member
    cases member
  · intro pulse member
    cases member

theorem dfsPatternDetectorSetDomain_times (dpd : DfsPatternDetector) (region : DfsRegion)
    (chain : RadarChain) :
    (dfsPatternDetectorSetDomain dpd region chain).1.prevJiffies = dpd.prevJiffies ∧
      (dfsPatternDetectorSetDomain dpd region chain).1.lastPulseTs = dpd.lastPulseTs := by
  unfold dfsPatternDetectorSetDomain
  split
  · exact ⟨rfl, rfl⟩
  · split <;> exact ⟨rfl, rfl⟩

theorem computeTimeStamp_lastPulseTs (tick : Tick) (dpd : DfsPatternDetector) (pri now : Nat) :
    (computeTimeStamp tick dpd pri now).lastPulseTs = dpd.lastPulseTs +
      if pri = 0 then tick.jiffiesToUsecs (deltaJiffie dpd.prevJiffies now) else pri := by
  unfold computeTimeStamp
  split <;> rfl

theorem computeTimeStamp_prevJiffies (tick : Tick) (dpd : DfsPatternDetector) (pri now : Nat) :
    (computeTimeStamp tick dpd pri now).prevJiffies =
      if pri = 0 then now else dpd.prevJiffies := by
  unfold computeTimeStamp
  split <;> rfl

/-- What adding a pulse does to the times: a detection resets them. -/
theorem dfsPatternDetectorAddPulse_times {dpd : DfsPatternDetector} (active : dpd.region ≠ .unset)
    (tick : Tick) (freq pri len now : Nat) (allocs : List Allocs) (jiffies : Nat) :
    let added := dfsPatternDetectorAddPulse tick dpd freq pri len now allocs jiffies
    if added.2 then added.1.lastPulseTs = 0 ∧ added.1.prevJiffies = jiffies
    else added.1.lastPulseTs = (computeTimeStamp tick dpd pri now).lastPulseTs ∧
      added.1.prevJiffies = (computeTimeStamp tick dpd pri now).prevJiffies := by
  simp only [dfsPatternDetectorAddPulse, if_neg active]
  cases (addToTypes freq len (computeTimeStamp tick dpd pri now).lastPulseTs
    (computeTimeStamp tick dpd pri now).detectors allocs).2 <;> exact ⟨rfl, rfl⟩

theorem Feed.Consistent.step {tick : Tick} {s next : Feed} {arrival : Arrival}
    (consistent : s.Consistent tick) (stepped : s.step tick arrival = .ok next) :
    next.Consistent tick := by
  cases arrival with
  | setDomain region chain =>
      cases stepped
      obtain ⟨prev, last⟩ := dfsPatternDetectorSetDomain_times s.dpd region chain
      refine ⟨prev.trans consistent.prev, fun before head quiet => ?_, consistent.fail_safe⟩
      rw [last]
      exact consistent.newest before head quiet
  | pulse gap freq len allocs late =>
      cases stepped
      by_cases active : s.dpd.region = .unset
      · simp only [dfsPatternDetectorAddPulse, active, ne_eq, not_true_eq_false,
          decide_false, Bool.not_false, if_true]
        refine ⟨consistent.prev, ?_, ?_⟩
        · intro before head quiet
          obtain rfl := Option.some.inj head
          cases quiet
        · intro pulse member quiet
          rcases List.mem_cons.mp member with rfl | member
          · cases quiet
          · exact consistent.fail_safe pulse member quiet
      · have times := dfsPatternDetectorAddPulse_times active tick freq (hardwarePri gap) len
          (tick.jiffies (s.time + gap)) allocs (tick.jiffies (s.time + gap + late))
        dsimp only at times
        refine ⟨?_, ?_, ?_⟩
        · simp only [active, ne_eq, not_false_eq_true, decide_true, Bool.not_true,
            Bool.false_eq_true, if_false]
          split at times
          · next found => rw [if_pos found, times.2]
          · next missed =>
              rw [if_neg missed, times.2, computeTimeStamp_prevJiffies]
              split
              · rfl
              · exact consistent.prev
        · intro before head quiet
          obtain rfl := Option.some.inj head
          rw [if_neg (Bool.eq_false_iff.mp quiet)] at times
          exact ⟨rfl, times.1.symm⟩
        · intro pulse member quiet
          rcases List.mem_cons.mp member with rfl | member
          · simp [active]
          · exact consistent.fail_safe pulse member quiet

/-- The pulse is right against the one before: it came with an interval, or what is counted twice
or lost is a jiffy at most. -/
def Feed.Measured (tick : Tick) (s : Feed) : Arrival → Prop
  | .pulse gap _ _ _ _ =>
      s.dpd.region ≠ .unset → hardwarePri gap = 0 →
        ∀ before ∈ s.pulses.head?, before.detected = false →
          (tick.drift s.reference s.time (s.time + gap)).natAbs ≤ tick.usecs
  | .setDomain _ _ => True

/-- How far a new time stamp is off against the one before. -/
theorem Feed.Consistent.skew_eq {tick : Tick} {s : Feed} (consistent : s.Consistent tick)
    {before pulse : Stamped} (head : before ∈ s.pulses.head?) (quiet : before.detected = false)
    {gap : Nat} (time : pulse.time = s.time + gap)
    (stamp : pulse.stamp = (computeTimeStamp tick s.dpd (hardwarePri gap)
      (tick.jiffies (s.time + gap))).lastPulseTs) :
    skew pulse before =
      if hardwarePri gap = 0 then tick.drift s.reference s.time (s.time + gap) else 0 := by
  obtain ⟨time_before, stamp_before⟩ := consistent.newest before head quiet
  have worth := jiffiesToUsecs_eq tick s.reference s.time gap
  unfold skew
  rw [stamp, time, time_before, stamp_before, computeTimeStamp_lastPulseTs, consistent.prev]
  by_cases untimed : hardwarePri gap = 0
  · rw [if_pos untimed, if_pos untimed]
    push_cast
    omega
  · have timed : hardwarePri gap = gap := by
      unfold hardwarePri at untimed ⊢
      split
      · rfl
      · next long => exact absurd (if_neg long) untimed
    rw [if_neg untimed, if_neg untimed, timed]
    push_cast
    omega

/-- A step keeps the time stamps right just when the pulse is right against the one before. -/
theorem Feed.Consistent.faithful_iff {tick : Tick} {s next : Feed} {arrival : Arrival}
    (consistent : s.Consistent tick) (stepped : s.step tick arrival = .ok next) :
    Faithful tick next.pulses ↔ Faithful tick s.pulses ∧ s.Measured tick arrival := by
  cases arrival with
  | setDomain region chain =>
      cases stepped
      exact (and_iff_left trivial).symm
  | pulse gap freq len allocs late =>
      cases stepped
      rw [faithful_cons_iff tick _ consistent.fail_safe, Feed.Measured]
      refine and_congr_right fun _ => ?_
      simp only [decide_eq_true_eq]
      constructor
      · intro right active untimed before head quiet
        have bound := right before head active quiet
        rw [consistent.skew_eq head quiet rfl rfl, if_pos untimed] at bound
        simpa [untimed] using bound
      · intro measured before head active quiet
        rw [consistent.skew_eq head quiet rfl rfl]
        by_cases untimed : hardwarePri gap = 0
        · simpa [untimed] using measured active untimed before head quiet
        · simp [untimed]

/-- Every step completes. -/
theorem Feed.step_ok (tick : Tick) (s : Feed) (arrival : Arrival) :
    ∃ next, s.step tick arrival = .ok next := by
  cases arrival <;> exact ⟨_, rfl⟩

/-- The time stamps of a stream are right throughout just when each pulse is right against the one
before. -/
theorem faithful_iff_measured (tick : Tick) (before made : Nat) (arrivals : List Arrival) :
    Run.Throughout (Feed.step tick) (fun s => Faithful tick s.pulses) arrivals
        (Feed.start tick before made) ↔
      Run.Guarded (Feed.step tick) (Feed.Measured tick) arrivals (Feed.start tick before made) := by
  have initial : (Feed.start tick before made).Consistent tick ∧
      Faithful tick (Feed.start tick before made).pulses := by
    refine ⟨Feed.start_consistent tick before made, ?_⟩
    intro front later between earlier back split
    simp [Feed.start] at split
  have kept : ∀ (s : Feed) (arrival : Arrival) (next : Feed),
      s.Consistent tick ∧ Faithful tick s.pulses → True → s.Measured tick arrival →
      s.step tick arrival = .ok next → next.Consistent tick ∧ Faithful tick next.pulses := by
    intro s arrival next held _ measured stepped
    exact ⟨held.1.step stepped, (held.1.faithful_iff stepped).mpr ⟨held.2, measured⟩⟩
  refine Run.throughout_iff_guarded kept (fun s held => held.2) ?_ (fun _ _ => trivial) initial
  intro s arrival held _ unmeasured
  obtain ⟨next, stepped⟩ := Feed.step_ok tick s arrival
  exact ⟨next, stepped, fun right => unmeasured ((held.1.faithful_iff stepped).mp right).2⟩

/-! ## A stream of both kinds of pulses -/

/-- A kernel with a hundred ticks a second. -/
def hundredHertz : Tick := ⟨10000, by decide, 0⟩

/-- Pulses too wide for any pattern: one without an interval, two with, and one without. -/
def mixedStream : List Arrival :=
  [.setDomain .fcc .riu, .pulse 70000 5500 200 [] 0, .pulse 60000 5500 200 [] 0,
    .pulse 60000 5500 200 [] 0, .pulse 100000 5500 200 [] 0]

/-- The last pulse comes a tenth of a second after the one before, and its time stamp is 220
milliseconds later. -/
theorem mixedStream_unfaithful :
    ∃ s, Run.run (Feed.step hundredHertz) mixedStream (Feed.start hundredHertz 0 0) = .ok s ∧
      ¬Faithful hundredHertz s.pulses := by
  obtain ⟨s, ran, pulses⟩ := Run.ends_of_toOption
    (show (Run.run (Feed.step hundredHertz) mixedStream
        (Feed.start hundredHertz 0 0)).toOption.map Feed.pulses =
      some [⟨290000, 410000, true, true, false⟩, ⟨190000, 190000, false, true, false⟩,
        ⟨130000, 130000, false, true, false⟩, ⟨70000, 70000, true, true, false⟩] by
      decide +kernel)
  refine ⟨s, ran, fun faithful => ?_⟩
  have last_two := faithful [] ⟨290000, 410000, true, true, false⟩ []
    ⟨190000, 190000, false, true, false⟩
    [⟨130000, 130000, false, true, false⟩, ⟨70000, 70000, true, true, false⟩] pulses rfl rfl
    (by simp)
  revert last_two
  decide

end AmlW2.Radar
