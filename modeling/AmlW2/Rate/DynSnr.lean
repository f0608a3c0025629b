import AmlW2.Lib.Numerals
import AmlW2.Lib.Run
import Mathlib.Algebra.Ring.Nat
import Mathlib.Logic.Function.Basic

/-!
# Probing for the SNR configuration

`aml_dynamic_snr_probe` measures the throughput of the current SNR configuration again and again.
While the share of packets at a high rate is low it tries the two neighbours of the configuration as
well, and keeps the best of the three.  The index of the trial, the configuration and the counters
of the sample are reset in different places.
-/

namespace AmlW2.Rate

open Numerals

/-- `enum nl80211_band`, as far as it matters. -/
inductive Band where
  | band2ghz
  | other
  deriving DecidableEq

/-- `struct aml_dyn_snr_stats`. -/
structure Stats where
  bytes : Nat := 0
  pkts : Nat := 0
  pktsPerHwRate : Nat → Nat := fun _ => 0

/-- What does not change: `HZ`, the number of rates, and the high rates of a band, as
`aml_hi_rate_bmp_flush` sets them. -/
structure Board where
  hz : Nat
  rateNum : Nat
  hiRateBmp : Band → Nat → Bool

/-- A throughput sample: the configuration it is stored for, and those in force since the sample
before it. -/
structure Sample where
  storedFor : UInt8
  inForce : List UInt8

/-- A trial round that has come to its end. -/
structure Round where
  snrCfg : Nat → UInt8
  rxTp : Nat → Nat
  chosen : UInt8

/-- `struct aml_dyn_snr` with the field of the SNR register, and what has happened: the
configurations in force since the last sample, the samples and the rounds. -/
structure DynSnr where
  enable : Bool := false
  permillage : Nat := 0
  needTrial : Bool := false
  curSnrCfg : UInt8 := 0
  trialCnt : Nat := 0
  snrCfg : Nat → UInt8 := fun _ => 0
  rxTp : Nat → Nat := fun _ => 0
  band : Band := .band2ghz
  stats : Stats := {}
  lastTime : BitVec 64
  reg : UInt8
  inForce : List UInt8 := []
  samples : List Sample := []
  rounds : List Round := []

inductive Fault where
  /-- The `BUG_ON` of a wrong trial count. -/
  | bug

/-! ## One call -/

/-- A difference of `jiffies` as the `u32` that `div_u64` divides by; it is not zero after the sleep
of the worker. -/
def elapsed (jiffies lastTime : BitVec 64) : Nat := ((jiffies - lastTime).setWidth 32).toNat

/-- The packets at a high rate, per thousand. -/
def Stats.highRatePermillage (stats : Stats) (rateNum : Nat) (hiRateBmp : Nat → Bool) : Nat :=
  let hiRatePkts := (List.range rateNum).foldl
    (fun sum i => if stats.pktsPerHwRate i ≠ 0 ∧ hiRateBmp i then sum + stats.pktsPerHwRate i
      else sum) 0
  hiRatePkts * 1000 % 2 ^ 32 / stats.pkts

/-- The loop over the three configurations: the first of the best. -/
def findBest (rxTp : Nat → Nat) (snrCfg : Nat → UInt8) : Nat × UInt8 :=
  (List.range 3).foldl (fun best i => if best.1 < rxTp i then (rxTp i, snrCfg i) else best)
    (0, snrCfg 0)

namespace DynSnr

/-- The throughput of the sample, in Mbps. -/
def mbps (b : Board) (s : DynSnr) (jiffies : BitVec 64) : Nat :=
  (s.stats.bytes >>> 17 * b.hz % 2 ^ 64) / elapsed jiffies s.lastTime % 2 ^ 32

def highRatePermillage (b : Board) (s : DynSnr) : Nat :=
  s.stats.highRatePermillage b.rateNum (b.hiRateBmp s.band)

/-- `aml_dynamic_snr_rate_stats`. -/
def amlDynamicSnrRateStats (b : Board) (s : DynSnr) (rateIdx : Int) (len : UInt16) :
    DynSnr :=
  if rateIdx < 0 then s
  else
    { s with
      stats :=
        { bytes := (s.stats.bytes + len.toNat) % 2 ^ 64
          pkts := (s.stats.pkts + 1) % 2 ^ 32
          pktsPerHwRate := fun i =>
            if rateIdx < b.rateNum ∧ rateIdx = i then (s.stats.pktsPerHwRate i + 1) % 2 ^ 32
            else s.stats.pktsPerHwRate i } }

/-- `aml_dynamic_snr_set`: nothing is written during a recovery. -/
def amlDynamicSnrSet (s : DynSnr) (snrCfg : UInt8) (recovering : Bool) : DynSnr :=
  if recovering then s
  else { s with reg := snrCfg &&& 3, inForce := s.inForce ++ [snrCfg &&& 3] }

/-- The sample is stored at the index of the trial, and its counters start again. -/
def stored (s : DynSnr) (jiffies : BitVec 64) (mbps : Nat) (storedFor : UInt8) : DynSnr :=
  { s with
    stats := {}
    rxTp := Function.update s.rxTp s.trialCnt mbps
    lastTime := jiffies
    samples := s.samples ++ [⟨storedFor, s.inForce⟩] }

/-- The next step of the trial: its index and configuration. -/
def nextTrial (s : DynSnr) : Except Fault (Nat × UInt8) :=
  match s.trialCnt with
  | 0 => .ok (1, (s.snrCfg 0 + 1) &&& 3)
  | 1 => .ok (2, (s.snrCfg 0 - 1) &&& 3)
  | 2 => .ok (0, (findBest s.rxTp s.snrCfg).2)
  | _ => .error .bug

/-- The trial goes on at an index with a configuration. -/
def goOn (s : DynSnr) (trialCnt : Nat) (snrCfg : UInt8) (recovering : Bool) : DynSnr :=
  let s :=
    { s with
      needTrial := if s.trialCnt = 0 then true else if s.trialCnt = 2 then false else s.needTrial
      trialCnt := trialCnt
      snrCfg := Function.update s.snrCfg trialCnt snrCfg
      rounds := if s.trialCnt = 2 then s.rounds ++ [⟨s.snrCfg, s.rxTp, snrCfg⟩] else s.rounds }
  if s.curSnrCfg ≠ snrCfg then
    { s.amlDynamicSnrSet snrCfg recovering with curSnrCfg := snrCfg }
  else s

/-- `aml_dynamic_snr_probe`. -/
def amlDynamicSnrProbe (b : Board) (s : DynSnr) (jiffies : BitVec 64) (recovering : Bool) :
    Except Fault DynSnr :=
  let mbps := s.mbps b jiffies
  if mbps < 30 then
    .ok { s.stored jiffies mbps (s.snrCfg s.trialCnt) with needTrial := false, trialCnt := 0 }
  else if s.permillage ≤ s.highRatePermillage b then
    -- The sample becomes that of the current configuration, at index 0.
    let s' := s.stored jiffies mbps s.curSnrCfg
    .ok
      { s' with
        needTrial := false
        trialCnt := 0
        rxTp := Function.update s'.rxTp 0 mbps
        snrCfg := Function.update s.snrCfg 0 s.curSnrCfg }
  else
    let s' := s.stored jiffies mbps (s.snrCfg s.trialCnt)
    s'.nextTrial.map fun next => s'.goOn next.1 next.2 recovering

/-- The next sample is measured from here on. -/
def measureAnew (s : DynSnr) : DynSnr := { s with inForce := [s.reg] }

/-- `aml_dynamic_snr_config`. -/
def amlDynamicSnrConfig (s : DynSnr) (enable : Bool) (snrCfgOrMcsRation : Int)
    (recovering : Bool) : DynSnr :=
  let s := { s with enable := enable }
  let s :=
    if enable then
      { s with
        permillage := (snrCfgOrMcsRation * 10 % 65536).toNat
        needTrial := true
        curSnrCfg := 0 }
    else { s with curSnrCfg := UInt8.ofNat (snrCfgOrMcsRation % 4).toNat }
  s.amlDynamicSnrSet s.curSnrCfg recovering

/-- `aml_dynamic_snr_init`, when nothing recovers yet: the sample starts with the register set. -/
def amlDynamicSnrInit (jiffies : BitVec 64) (reg : UInt8) : DynSnr :=
  DynSnr.amlDynamicSnrConfig { lastTime := jiffies, reg := reg } true 60 false

end DynSnr

/-! ## Runs -/

inductive Event where
  /-- A packet is received. -/
  | rx (rateIdx : Int) (len : UInt16)
  /-- The worker has slept. -/
  | tick (jiffies : BitVec 64) (vifStarted recovering : Bool)
  | config (enable : Bool) (snrCfgOrMcsRation : Int) (recovering : Bool)
  /-- `aml_dynamic_snr_sta_active`. -/
  | staActive (band : Band)

def DynSnr.step (b : Board) (s : DynSnr) : Event → Except Fault DynSnr
  | .rx rateIdx len => .ok (s.amlDynamicSnrRateStats b rateIdx len)
  | .tick jiffies vifStarted recovering =>
      if s.enable && vifStarted then
        (s.amlDynamicSnrProbe b jiffies recovering).map DynSnr.measureAnew
      else .ok s
  | .config enable snrCfgOrMcsRation recovering =>
      .ok (s.amlDynamicSnrConfig enable snrCfgOrMcsRation recovering)
  | .staActive band => .ok { s with band := band }

/-! ## The best of the three -/

/-- The configuration chosen is one of the three whose throughput is the highest. -/
def Round.Maximal (r : Round) : Prop :=
  ∃ i < 3, r.chosen = r.snrCfg i ∧ ∀ j < 3, r.rxTp j ≤ r.rxTp i

/-- The search keeps the best found so far. -/
theorem foldl_best (rxTp : Nat → Nat) (snrCfg : Nat → UInt8) (indices : List Nat)
    (best : Nat × UInt8) :
    let found := indices.foldl
      (fun best i => if best.1 < rxTp i then (rxTp i, snrCfg i) else best) best
    best.1 ≤ found.1 ∧ (∀ i ∈ indices, rxTp i ≤ found.1) ∧
      (found = best ∨ ∃ i ∈ indices, found = (rxTp i, snrCfg i)) := by
  induction indices generalizing best with
  | nil => exact ⟨Nat.le_refl _, List.forall_mem_nil _, .inl rfl⟩
  | cons i indices induction =>
      obtain ⟨above, bound, source⟩ :=
        induction (if best.1 < rxTp i then (rxTp i, snrCfg i) else best)
      rw [List.foldl_cons]
      dsimp only at above bound source ⊢
      split_ifs at above bound source ⊢ with better
      · refine ⟨Nat.le_trans (Nat.le_of_lt better) above, ?_, ?_⟩
        · exact List.forall_mem_cons.mpr ⟨above, bound⟩
        · rcases source with here | ⟨j, member, there⟩
          · exact .inr ⟨i, List.mem_cons_self, here⟩
          · exact .inr ⟨j, List.mem_cons_of_mem i member, there⟩
      · refine ⟨above, ?_, ?_⟩
        · exact List.forall_mem_cons.mpr ⟨Nat.le_trans (Nat.le_of_not_lt better) above, bound⟩
        · rcases source with here | ⟨j, member, there⟩
          · exact .inl here
          · exact .inr ⟨j, List.mem_cons_of_mem i member, there⟩

/-- As soon as there is some throughput, the configuration found has the highest. -/
theorem findBest_maximal {rxTp : Nat → Nat} {snrCfg : Nat → UInt8} (some_tp : 0 < rxTp 2) :
    Round.Maximal ⟨snrCfg, rxTp, (findBest rxTp snrCfg).2⟩ := by
  obtain ⟨-, bound, source⟩ := foldl_best rxTp snrCfg (List.range 3) (0, snrCfg 0)
  rw [← findBest] at bound source
  have positive : 0 < (findBest rxTp snrCfg).1 :=
    Nat.lt_of_lt_of_le some_tp (bound 2 (List.mem_range.mpr (Nat.lt_succ_self 2)))
  rcases source with start | ⟨i, member, found⟩
  · rw [start] at positive
    exact absurd positive (Nat.lt_irrefl 0)
  · refine ⟨i, List.mem_range.mp member, congrArg Prod.snd found, fun j inside => ?_⟩
    have least := bound j (List.mem_range.mpr inside)
    rwa [found] at least

/-- The configuration found is one of the array. -/
theorem findBest_mem (rxTp : Nat → Nat) (snrCfg : Nat → UInt8) :
    ∃ i, (findBest rxTp snrCfg).2 = snrCfg i := by
  obtain ⟨-, -, source⟩ := foldl_best rxTp snrCfg (List.range 3) (0, snrCfg 0)
  rw [← findBest] at source
  rcases source with start | ⟨i, -, found⟩
  · exact ⟨0, congrArg Prod.snd start⟩
  · exact ⟨i, congrArg Prod.snd found⟩

/-! ## What a step does -/

theorem mask_mask : ∀ c : UInt8, c &&& 3 &&& 3 = c &&& 3 := forall_byte (by decide)

/-- The neighbours of a configuration are others. -/
theorem neighbour_ne : ∀ c : UInt8, (c + 1) &&& 3 ≠ c ∧ (c - 1) &&& 3 ≠ c :=
  forall_byte (by decide)

variable {b : Board} {s : DynSnr} {jiffies : BitVec 64} {recovering : Bool}

namespace DynSnr

/-- The three steps of a trial. -/
theorem nextTrial_cases (bound : s.trialCnt < 3) : ∃ trialCnt snrCfg,
    s.nextTrial = .ok (trialCnt, snrCfg) ∧
      (s.trialCnt = 0 ∧ trialCnt = 1 ∧ snrCfg = (s.snrCfg 0 + 1) &&& 3 ∨
        s.trialCnt = 1 ∧ trialCnt = 2 ∧ snrCfg = (s.snrCfg 0 - 1) &&& 3 ∨
        s.trialCnt = 2 ∧ trialCnt = 0 ∧ snrCfg = (findBest s.rxTp s.snrCfg).2) := by
  have three : s.trialCnt = 0 ∨ s.trialCnt = 1 ∨ s.trialCnt = 2 := by omega
  rcases three with first | second | third
  · exact ⟨_, _, by rw [nextTrial, first]; rfl, .inl ⟨first, rfl, rfl⟩⟩
  · exact ⟨_, _, by rw [nextTrial, second]; rfl, .inr (.inl ⟨second, rfl, rfl⟩)⟩
  · exact ⟨_, _, by rw [nextTrial, third]; rfl, .inr (.inr ⟨third, rfl, rfl⟩)⟩

/-- What going on with a trial leaves: the register follows unless nothing changes or nothing is
written. -/
theorem goOn_eq (s : DynSnr) (trialCnt : Nat) (snrCfg : UInt8) (recovering : Bool) :
    ∃ needTrial inForce, s.goOn trialCnt snrCfg recovering =
      { s with
        needTrial := needTrial
        curSnrCfg := snrCfg
        trialCnt := trialCnt
        snrCfg := Function.update s.snrCfg trialCnt snrCfg
        reg := if s.curSnrCfg = snrCfg ∨ recovering = true then s.reg else snrCfg &&& 3
        inForce := inForce
        rounds :=
          if s.trialCnt = 2 then s.rounds ++ [⟨s.snrCfg, s.rxTp, snrCfg⟩] else s.rounds } := by
  rw [goOn, amlDynamicSnrSet]
  dsimp only
  generalize (if s.trialCnt = 0 then true else if s.trialCnt = 2 then false else s.needTrial) =
    needTrial
  generalize (if s.trialCnt = 2 then s.rounds ++ [⟨s.snrCfg, s.rxTp, snrCfg⟩] else s.rounds) =
    rounds
  by_cases same : s.curSnrCfg = snrCfg
  · rw [if_neg (not_not_intro same), if_pos (Or.inl same)]
    subst same
    exact ⟨_, _, rfl⟩
  · rw [if_pos same]
    cases recovering with
    | true =>
        rw [if_pos rfl, if_pos (Or.inr rfl)]
        exact ⟨_, _, rfl⟩
    | false =>
        have changed : ¬(s.curSnrCfg = snrCfg ∨ false = true) := by
          rintro (kept | skipped)
          · exact same kept
          · cases skipped
        rw [if_neg Bool.false_ne_true, if_neg changed]
        exact ⟨_, _, rfl⟩

/-- A probe gives up for want of throughput, keeps the current configuration, or goes on with the
trial. -/
theorem probe_cases (b : Board) (jiffies : BitVec 64) (recovering : Bool)
    (bound : s.trialCnt < 3) :
    s.mbps b jiffies < 30 ∧ s.amlDynamicSnrProbe b jiffies recovering =
        .ok { s.stored jiffies (s.mbps b jiffies) (s.snrCfg s.trialCnt) with
              needTrial := false
              trialCnt := 0 } ∨
      30 ≤ s.mbps b jiffies ∧ s.permillage ≤ s.highRatePermillage b ∧
        (∃ rxTp, s.amlDynamicSnrProbe b jiffies recovering =
          .ok { s.stored jiffies (s.mbps b jiffies) s.curSnrCfg with
                needTrial := false
                trialCnt := 0
                rxTp := rxTp
                snrCfg := Function.update s.snrCfg 0 s.curSnrCfg }) ∨
      30 ≤ s.mbps b jiffies ∧ s.highRatePermillage b < s.permillage ∧
        ∃ trialCnt snrCfg,
          (s.stored jiffies (s.mbps b jiffies) (s.snrCfg s.trialCnt)).nextTrial =
            .ok (trialCnt, snrCfg) ∧
          s.amlDynamicSnrProbe b jiffies recovering =
            .ok ((s.stored jiffies (s.mbps b jiffies) (s.snrCfg s.trialCnt)).goOn trialCnt snrCfg
              recovering) := by
  rw [amlDynamicSnrProbe]
  dsimp only
  split_ifs with low high
  · exact .inl ⟨low, rfl⟩
  · exact .inr (.inl ⟨Nat.le_of_not_lt low, high, _, rfl⟩)
  · obtain ⟨trialCnt, snrCfg, next, -⟩ := nextTrial_cases
      (s := s.stored jiffies (s.mbps b jiffies) (s.snrCfg s.trialCnt)) bound
    refine .inr (.inr ⟨Nat.le_of_not_lt low, Nat.lt_of_not_le high, trialCnt, snrCfg, next, ?_⟩)
    rw [next]
    rfl

end DynSnr

theorem masked_arg (arg : Int) :
    UInt8.ofNat (arg % 4).toNat &&& 3 = UInt8.ofNat (arg % 4).toNat := by
  have four : (arg % 4).toNat = 0 ∨ (arg % 4).toNat = 1 ∨ (arg % 4).toNat = 2 ∨
      (arg % 4).toNat = 3 := by omega
  rcases four with value | value | value | value
  · rw [value]; decide
  · rw [value]; decide
  · rw [value]; decide
  · rw [value]; decide

/-- Setting the register adds the configuration to those in force, or does nothing. -/
theorem set_eq (s : DynSnr) (snrCfg : UInt8) (recovering : Bool) : ∃ reg inForce,
    s.amlDynamicSnrSet snrCfg recovering = { s with reg := reg, inForce := inForce } ∧
      (s.reg ∈ s.inForce → reg ∈ inForce) ∧ s.inForce ⊆ inForce ∧
      ∀ c ∈ inForce, c ∈ s.inForce ∨ c = snrCfg &&& 3 := by
  rw [DynSnr.amlDynamicSnrSet]
  split_ifs
  · exact ⟨s.reg, s.inForce, rfl, id, List.Subset.refl _, fun c => Or.inl⟩
  · refine ⟨_, _, rfl, fun _ => ?_, List.subset_append_left _ _, fun c member => ?_⟩
    · exact List.mem_append_right _ (List.mem_singleton.mpr rfl)
    · exact (List.mem_append.mp member).imp_right List.mem_singleton.mp

/-- A configuration from outside becomes the current one; to probe is to start with 0. -/
theorem config_eq (s : DynSnr) (enable : Bool) (arg : Int) (recovering : Bool) :
    ∃ permillage needTrial snrCfg reg inForce,
      s.amlDynamicSnrConfig enable arg recovering =
        { s with
          enable := enable
          permillage := permillage
          needTrial := needTrial
          curSnrCfg := snrCfg
          reg := reg
          inForce := inForce } ∧
      snrCfg &&& 3 = snrCfg ∧ (enable = true → snrCfg = 0) ∧
      (s.reg ∈ s.inForce → reg ∈ inForce) ∧ s.inForce ⊆ inForce ∧
      ∀ c ∈ inForce, c ∈ s.inForce ∨ c = snrCfg := by
  rw [DynSnr.amlDynamicSnrConfig]
  cases enable with
  | true =>
      dsimp only
      rw [if_pos rfl]
      obtain ⟨reg, inForce, set, current, kept, source⟩ := set_eq
        { s with
          enable := true
          permillage := (arg * 10 % 65536).toNat
          needTrial := true
          curSnrCfg := 0 } 0 recovering
      exact ⟨_, _, 0, reg, inForce, set, rfl, fun _ => rfl, current, kept, source⟩
  | false =>
      dsimp only
      rw [if_neg Bool.false_ne_true]
      obtain ⟨reg, inForce, set, current, kept, source⟩ := set_eq
        { s with enable := false, curSnrCfg := UInt8.ofNat (arg % 4).toNat }
        (UInt8.ofNat (arg % 4).toNat) recovering
      rw [masked_arg] at source
      exact ⟨_, _, UInt8.ofNat (arg % 4).toNat, reg, inForce, set, masked_arg arg,
        fun enabled => absurd enabled Bool.false_ne_true, current, kept, source⟩

theorem rateStats_eq (b : Board) (s : DynSnr) (rateIdx : Int) (len : UInt16) :
    ∃ stats, s.amlDynamicSnrRateStats b rateIdx len = { s with stats := stats } := by
  rw [DynSnr.amlDynamicSnrRateStats]
  split_ifs
  · exact ⟨s.stats, rfl⟩
  · exact ⟨_, rfl⟩

end AmlW2.Rate
