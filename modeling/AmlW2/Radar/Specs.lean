import Mathlib.Algebra.Ring.Nat

/-!
# Radar patterns

What `aml_radar.c` looks for: one specification for each pattern of each regulatory domain, for the
operating chain and for the chain that only listens.
-/

namespace AmlW2.Radar

/-- `enum radar_waveform_type`. -/
inductive RadarWaveformType where
  | short
  | weather
  | interleaved
  | long
  deriving DecidableEq, Repr

/-- `struct radar_detector_specs`; widths and intervals are in microseconds. -/
structure RadarDetectorSpecs where
  typeId : Nat
  widthMin : Nat
  widthMax : Nat
  priMin : Nat
  priMax : Nat
  numPri : Nat
  ppb : Nat
  ppbThresh : Nat
  maxPriTolerance : Nat
  type : RadarWaveformType
  deriving DecidableEq, Repr

/-- `PRI_TOLERANCE` -/
def priTolerance : Nat := 16

/-- `PPB_THRESH`, with `MIN_PPB_THRESH` of 50 per cent. -/
def ppbThreshOf (ppb : Nat) : Nat := (ppb * 50 + 50) / 100

/-- `PRF2PRI` -/
def prf2pri (prf : Nat) : Nat := (1000000 + prf / 2) / prf

/-- `ETSI_PATTERN_SHORT` -/
def etsiPatternShort (id wmin wmax pmin pmax ppb : Nat) : RadarDetectorSpecs :=
  ⟨id, wmin, wmax, prf2pri pmax - priTolerance, prf2pri pmin + priTolerance, 1, ppb,
    ppbThreshOf ppb, priTolerance, .short⟩

/-- `ETSI_PATTERN_INTERLEAVED` -/
def etsiPatternInterleaved (id wmin wmax pmin pmax prfmin prfmax ppb : Nat) : RadarDetectorSpecs :=
  ⟨id, wmin, wmax, prf2pri pmax * prfmin - priTolerance, prf2pri pmin * prfmax + priTolerance,
    prfmax, ppb * prfmax, ppbThreshOf ppb, priTolerance, .interleaved⟩

/-- `FCC_PATTERN`, which is `JP_PATTERN` too. -/
def fccPattern (id wmin wmax pmin pmax prf ppb : Nat) (type : RadarWaveformType) :
    RadarDetectorSpecs :=
  ⟨id, wmin, wmax, pmin - priTolerance, pmax * prf + priTolerance, prf, ppb * prf,
    ppbThreshOf ppb, priTolerance, type⟩

def etsiRadarRefTypesV17Riu : List RadarDetectorSpecs :=
  [etsiPatternShort 0 0 8 700 700 18,
    etsiPatternShort 1 0 10 200 1000 10,
    etsiPatternShort 2 0 22 200 1600 15,
    etsiPatternShort 3 0 22 2300 4000 25,
    etsiPatternShort 4 20 38 2000 4000 20,
    etsiPatternInterleaved 5 0 8 300 400 2 3 10,
    etsiPatternInterleaved 6 0 8 400 1200 2 3 15]

def etsiRadarRefTypesV17Fcu : List RadarDetectorSpecs :=
  [etsiPatternShort 0 0 8 700 700 18,
    etsiPatternShort 1 0 8 200 1000 10,
    etsiPatternShort 2 0 16 200 1600 15,
    etsiPatternShort 3 0 16 2300 4000 25,
    etsiPatternShort 4 20 34 2000 4000 20,
    etsiPatternInterleaved 5 0 8 300 400 2 3 10,
    etsiPatternInterleaved 6 0 8 400 1200 2 3 15]

def fccRadarRefTypesRiu : List RadarDetectorSpecs :=
  [fccPattern 0 0 8 1428 1428 1 18 .short,
    fccPattern 1 0 8 518 3066 1 102 .weather,
    fccPattern 2 0 8 150 230 1 23 .short,
    fccPattern 3 6 20 200 500 1 16 .short,
    fccPattern 4 10 28 200 500 1 12 .short,
    fccPattern 5 50 110 1000 2000 1 8 .long,
    fccPattern 6 0 8 333 333 1 9 .short]

def fccRadarRefTypesFcu : List RadarDetectorSpecs :=
  [fccPattern 0 0 8 1428 1428 1 18 .short,
    fccPattern 1 0 8 518 3066 1 102 .weather,
    fccPattern 2 0 8 150 230 1 23 .short,
    fccPattern 3 6 12 200 500 1 16 .short,
    fccPattern 4 10 22 200 500 1 12 .short,
    fccPattern 5 50 104 1000 2000 1 8 .long,
    fccPattern 6 0 8 333 333 1 9 .short]

def jpRadarRefTypesRiu : List RadarDetectorSpecs :=
  [fccPattern 0 0 8 1428 1428 1 18 .short,
    fccPattern 1 2 8 3846 3846 1 18 .short,
    fccPattern 2 0 8 1388 1388 1 18 .short,
    fccPattern 3 0 8 4000 4000 1 18 .short,
    fccPattern 4 0 8 150 230 1 23 .short,
    fccPattern 5 6 20 200 500 1 16 .short,
    fccPattern 6 10 28 200 500 1 12 .short,
    fccPattern 7 50 110 1000 2000 1 8 .long,
    fccPattern 8 0 8 333 333 1 9 .short]

def jpRadarRefTypesFcu : List RadarDetectorSpecs :=
  [fccPattern 0 0 8 1428 1428 1 18 .short,
    fccPattern 1 2 6 3846 3846 1 18 .short,
    fccPattern 2 0 8 1388 1388 1 18 .short,
    fccPattern 3 2 2 4000 4000 1 18 .short,
    fccPattern 4 0 8 150 230 1 23 .short,
    fccPattern 5 6 12 200 500 1 16 .short,
    fccPattern 6 10 22 200 500 1 12 .short,
    fccPattern 7 50 104 1000 2000 1 8 .long,
    fccPattern 8 0 8 333 333 1 9 .short]

/-- `enum nl80211_dfs_regions` -/
inductive DfsRegion where
  | unset
  | fcc
  | etsi
  | jp
  deriving DecidableEq, Repr

/-- `struct radar_types`; the number of types is the length of either list. -/
structure RadarTypes where
  region : DfsRegion
  specRiu : List RadarDetectorSpecs
  specFcu : List RadarDetectorSpecs

/-- `dfs_domains` -/
def dfsDomains : List RadarTypes :=
  [⟨.etsi, etsiRadarRefTypesV17Riu, etsiRadarRefTypesV17Fcu⟩,
    ⟨.fcc, fccRadarRefTypesRiu, fccRadarRefTypesFcu⟩,
    ⟨.jp, jpRadarRefTypesRiu, jpRadarRefTypesFcu⟩]

/-- `get_dfs_domain_radar_types` -/
def getDfsDomainRadarTypes (region : DfsRegion) : Option RadarTypes :=
  dfsDomains.find? (·.region = region)

/-- Every pattern the driver knows. -/
def listedSpecs : List RadarDetectorSpecs :=
  dfsDomains.flatMap fun types => types.specRiu ++ types.specFcu

/-- The number of pulses that make a detection: weather radars send the more pulses the shorter
their interval is. -/
def RadarDetectorSpecs.thresh (rs : RadarDetectorSpecs) (pri : Nat) : Nat :=
  if rs.type = .weather then ppbThreshOf (19000000 / (360 * pri) % 2 ^ 8) % 2 ^ 8
  else rs.ppbThresh

/-- What a pattern must be like for its detector to keep its accounts. -/
structure RadarDetectorSpecs.WellFormed (rs : RadarDetectorSpecs) : Prop where
  tolerance_pos : 0 < rs.maxPriTolerance
  priMin_pos : 0 < rs.priMin
  priMax_lt : rs.priMax < 2 ^ 16
  numPri_pos : 0 < rs.numPri
  ppb_two : 2 ≤ rs.ppb
  /-- Two pulses are never enough. -/
  thresh_three : ∀ pri, rs.priMin ≤ pri → pri ≤ rs.priMax → 3 ≤ rs.thresh pri

/-- A weather interval leaves between 17 and 105 pulses in a burst. -/
theorem weather_pulses {pri : Nat} (low : 502 ≤ pri) (high : pri ≤ 3082) :
    17 ≤ 19000000 / (360 * pri) ∧ 19000000 / (360 * pri) ≤ 105 := by
  constructor
  · rw [Nat.le_div_iff_mul_le (by omega)]
    omega
  · calc 19000000 / (360 * pri) ≤ 19000000 / (360 * 502) :=
          Nat.div_le_div_left (by omega) (by omega)
      _ = 105 := by decide

theorem thresh_weather {pri : Nat} (low : 502 ≤ pri) (high : pri ≤ 3082) :
    3 ≤ ppbThreshOf (19000000 / (360 * pri) % 2 ^ 8) % 2 ^ 8 := by
  obtain ⟨many, few⟩ := weather_pulses low high
  unfold ppbThreshOf
  omega

/-- The table as a whole, read pattern by pattern. -/
theorem listedSpecs_check :
    ∀ rs ∈ listedSpecs, 0 < rs.maxPriTolerance ∧ 0 < rs.priMin ∧ rs.priMax < 2 ^ 16 ∧
      0 < rs.numPri ∧ 2 ≤ rs.ppb ∧ 3 ≤ rs.ppbThresh ∧
      (rs.type = .weather → 502 ≤ rs.priMin ∧ rs.priMax ≤ 3082) := by
  decide +kernel

/-- Every pattern of every domain is well formed. -/
theorem wellFormed_of_listed {rs : RadarDetectorSpecs} (listed : rs ∈ listedSpecs) :
    rs.WellFormed := by
  obtain ⟨tolerance, low, high, numPri, ppb, thresh, weather⟩ := listedSpecs_check rs listed
  refine ⟨tolerance, low, high, numPri, ppb, fun pri above below => ?_⟩
  unfold RadarDetectorSpecs.thresh
  split
  · next type =>
      obtain ⟨least, most⟩ := weather type
      exact thresh_weather (by omega) (by omega)
  · exact thresh

end AmlW2.Radar
