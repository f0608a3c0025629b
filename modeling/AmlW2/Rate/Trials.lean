import AmlW2.Rate.DynSnr

/-!
# What the throughput samples are stored for

As long as no trial is given up half-way, every sample is stored for the configuration it was
measured under.  A sample of little throughput resets the index of the trial and leaves the
configuration, so that the next one is stored for a configuration that is no longer in force.
-/

namespace AmlW2.Rate

/-! ## What is claimed of a state -/

/-- Every sample is stored for the configuration in force while it was measured, and so will be the
one that is being measured: the current configuration is the one at the index of the trial, and no
other has been in force. -/
structure Attributed (s : DynSnr) : Prop where
  samples : ∀ sample ∈ s.samples, ∀ c ∈ sample.inForce, c = sample.storedFor
  trial : s.enable = true → s.curSnrCfg = s.snrCfg s.trialCnt
  measured : s.enable = true → ∀ c ∈ s.inForce, c = s.snrCfg s.trialCnt
  rounds : ∀ r ∈ s.rounds, r.Maximal

/-- A step that keeps the samples apart: no trial is given up half-way, no configuration is skipped
because of a recovery, and probing is enabled only where configuration 0 is the one at the index of
the trial and has been in force all the time. -/
def Steady (b : Board) (s : DynSnr) : Event → Prop
  | .tick jiffies vifStarted recovering => s.enable = true → vifStarted = true →
      (s.mbps b jiffies < 30 → s.trialCnt = 0) ∧
        (30 ≤ s.mbps b jiffies → s.highRatePermillage b < s.permillage → recovering = true →
          ∀ next, (s.stored jiffies (s.mbps b jiffies) (s.snrCfg s.trialCnt)).nextTrial = .ok next →
            next.2 = s.curSnrCfg)
  | .config enable _ _ => enable = true → s.snrCfg s.trialCnt = 0 ∧ ∀ c ∈ s.inForce, c = 0
  | _ => True

/-- What holds in every state: the neighbours tried belong to the configuration at index 0. -/
structure Trials (s : DynSnr) : Prop where
  bound : s.trialCnt < 3
  next : s.trialCnt = 1 → s.snrCfg 1 = (s.snrCfg 0 + 1) &&& 3
  previous : s.trialCnt = 2 → s.snrCfg 2 = (s.snrCfg 0 - 1) &&& 3
  masked : ∀ i, s.snrCfg i &&& 3 = s.snrCfg i
  current : s.curSnrCfg &&& 3 = s.curSnrCfg
  inForce : s.reg ∈ s.inForce

variable {b : Board} {s : DynSnr} {jiffies : BitVec 64} {recovering : Bool}

/-! ## What every step keeps -/

theorem masked_update {snrCfg : Nat → UInt8} (masked : ∀ i, snrCfg i &&& 3 = snrCfg i) {c : UInt8}
    (masked_c : c &&& 3 = c) (t i : Nat) :
    Function.update snrCfg t c i &&& 3 = Function.update snrCfg t c i := by
  by_cases here : i = t
  · rw [here, Function.update_self, masked_c]
  · rw [Function.update_of_ne here, masked i]

/-- Before a trial, index 0 is the only one that counts. -/
theorem Trials.of_start (start : s.trialCnt = 0) (masked : ∀ i, s.snrCfg i &&& 3 = s.snrCfg i)
    (current : s.curSnrCfg &&& 3 = s.curSnrCfg) (inForce : s.reg ∈ s.inForce) : Trials s where
  bound := by omega
  next := fun one => by omega
  previous := fun two => by omega
  masked := masked
  current := current
  inForce := inForce

theorem Trials.config (trials : Trials s) (enable : Bool) (arg : Int) (recovering : Bool) :
    Trials (s.amlDynamicSnrConfig enable arg recovering) := by
  obtain ⟨permillage, needTrial, snrCfg, reg, inForce, config, masked, -, current, -⟩ :=
    config_eq s enable arg recovering
  rw [config]
  exact ⟨trials.bound, trials.next, trials.previous, trials.masked, masked, current trials.inForce⟩

/-- The configuration tried next is a masked one, and a neighbour of the one at index 0. -/
theorem next_masked {trialCnt : Nat} {snrCfg : UInt8} (bound : s.trialCnt < 3)
    (masked : ∀ i, s.snrCfg i &&& 3 = s.snrCfg i) (next : s.nextTrial = .ok (trialCnt, snrCfg)) :
    trialCnt < 3 ∧ snrCfg &&& 3 = snrCfg ∧ (trialCnt = 1 → snrCfg = (s.snrCfg 0 + 1) &&& 3) ∧
      (trialCnt = 2 → snrCfg = (s.snrCfg 0 - 1) &&& 3) := by
  obtain ⟨trialCnt', snrCfg', next', cases⟩ := DynSnr.nextTrial_cases bound
  rw [next] at next'
  cases next'
  rcases cases with ⟨-, rfl, rfl⟩ | ⟨-, rfl, rfl⟩ | ⟨-, rfl, found⟩
  · exact ⟨by decide, mask_mask _, fun _ => rfl, fun two => absurd two (by decide)⟩
  · exact ⟨by decide, mask_mask _, fun one => absurd one (by decide), fun _ => rfl⟩
  · obtain ⟨i, member⟩ := findBest_mem s.rxTp s.snrCfg
    refine ⟨by decide, ?_, fun one => absurd one (by decide), fun two => absurd two (by decide)⟩
    rw [found, member, masked i]

theorem Trials.probe (trials : Trials s) {s' : DynSnr}
    (ran : s.amlDynamicSnrProbe b jiffies recovering = .ok s') : Trials s'.measureAnew := by
  rcases DynSnr.probe_cases b jiffies recovering trials.bound with
    ⟨-, low⟩ | ⟨-, -, rxTp, high⟩ | ⟨-, -, trialCnt, snrCfg, next, trial⟩
  · obtain rfl := Except.ok.inj (low.symm.trans ran)
    exact .of_start rfl trials.masked trials.current (List.mem_singleton.mpr rfl)
  · obtain rfl := Except.ok.inj (high.symm.trans ran)
    exact .of_start rfl (masked_update trials.masked trials.current 0) trials.current
      (List.mem_singleton.mpr rfl)
  · obtain rfl := Except.ok.inj (trial.symm.trans ran)
    obtain ⟨needTrial, inForce, went_on⟩ := DynSnr.goOn_eq
      (s.stored jiffies (s.mbps b jiffies) (s.snrCfg s.trialCnt)) trialCnt snrCfg recovering
    obtain ⟨bound, masked, first, second⟩ := next_masked
      (s := s.stored jiffies (s.mbps b jiffies) (s.snrCfg s.trialCnt)) trials.bound trials.masked
      next
    rw [went_on]
    constructor
    · exact bound
    · intro one
      obtain rfl : trialCnt = 1 := one
      exact first rfl
    · intro two
      obtain rfl : trialCnt = 2 := two
      exact second rfl
    · exact masked_update trials.masked masked trialCnt
    · exact masked
    · exact List.mem_singleton.mpr rfl

/-! ## Steady runs -/

/-- While probing is enabled, the register holds the configuration at the index of the trial. -/
theorem Attributed.reg_eq (attributed : Attributed s) (trials : Trials s)
    (enabled : s.enable = true) : s.reg = s.snrCfg s.trialCnt :=
  attributed.measured enabled s.reg trials.inForce

/-- The sample that ends has been measured under the configuration at the index of the trial. -/
theorem Attributed.samples_stored (attributed : Attributed s) (enabled : s.enable = true)
    {storedFor : UInt8} (same : storedFor = s.snrCfg s.trialCnt) :
    ∀ sample ∈ s.samples ++ [⟨storedFor, s.inForce⟩],
      ∀ c ∈ sample.inForce, c = sample.storedFor := by
  intro sample member c inForce
  rcases List.mem_append.mp member with earlier | last
  · exact attributed.samples sample earlier c inForce
  · rw [List.mem_singleton.mp last] at inForce ⊢
    exact (attributed.measured enabled c inForce).trans same.symm

/-- A round that comes to its end chooses one of the best. -/
theorem Attributed.rounds_stored (attributed : Attributed s) (bound : s.trialCnt < 3) {mbps : Nat}
    (some_mbps : 30 ≤ mbps) {storedFor snrCfg : UInt8} {trialCnt : Nat}
    (next : (s.stored jiffies mbps storedFor).nextTrial = .ok (trialCnt, snrCfg)) :
    ∀ r ∈ if s.trialCnt = 2 then
        s.rounds ++ [⟨s.snrCfg, Function.update s.rxTp s.trialCnt mbps, snrCfg⟩] else s.rounds,
      r.Maximal := by
  split_ifs with third
  · intro r member
    rcases List.mem_append.mp member with earlier | last
    · exact attributed.rounds r earlier
    · obtain ⟨trialCnt', snrCfg', next', cases⟩ := DynSnr.nextTrial_cases
        (s := s.stored jiffies mbps storedFor) bound
      rw [next] at next'
      cases next'
      change s.trialCnt = 0 ∧ _ ∨ s.trialCnt = 1 ∧ _ ∨ _ ∧ _ ∧
        snrCfg = (findBest (Function.update s.rxTp s.trialCnt mbps) s.snrCfg).2 at cases
      rw [List.mem_singleton.mp last]
      rcases cases with ⟨first, -⟩ | ⟨second, -⟩ | ⟨-, -, found⟩
      · omega
      · omega
      · rw [found]
        apply findBest_maximal
        rw [third, Function.update_self]
        omega
  · exact attributed.rounds

theorem Attributed.config (attributed : Attributed s) {enable : Bool} (arg : Int)
    (steady : Steady b s (.config enable arg recovering)) :
    Attributed (s.amlDynamicSnrConfig enable arg recovering) := by
  obtain ⟨permillage, needTrial, snrCfg, reg, inForce, config, -, zero, -, -, source⟩ :=
    config_eq s enable arg recovering
  rw [config]
  refine ⟨attributed.samples, fun enabled => ?_, fun enabled c member => ?_, attributed.rounds⟩
  · exact (zero enabled).trans (steady enabled).1.symm
  · change c = s.snrCfg s.trialCnt
    rw [(steady enabled).1]
    rcases source c member with earlier | here
    · exact (steady enabled).2 c earlier
    · exact here.trans (zero enabled)

theorem Attributed.probe (attributed : Attributed s) (trials : Trials s) {vifStarted : Bool}
    (enabled : s.enable = true) (started : vifStarted = true)
    (steady : Steady b s (.tick jiffies vifStarted recovering)) {s' : DynSnr}
    (ran : s.amlDynamicSnrProbe b jiffies recovering = .ok s') : Attributed s'.measureAnew := by
  have reg := attributed.reg_eq trials enabled
  have current := attributed.trial enabled
  obtain ⟨finished, written⟩ := steady enabled started
  rcases DynSnr.probe_cases b jiffies recovering trials.bound with
    ⟨low_mbps, low⟩ | ⟨-, -, rxTp, high⟩ | ⟨some_mbps, few, trialCnt, snrCfg, next, trial⟩
  · obtain rfl := Except.ok.inj (low.symm.trans ran)
    have start := finished low_mbps
    refine ⟨attributed.samples_stored enabled rfl, fun _ => ?_, fun _ c member => ?_,
      attributed.rounds⟩
    · exact current.trans (congrArg s.snrCfg start)
    · exact (List.mem_singleton.mp member).trans (reg.trans (congrArg s.snrCfg start))
  · obtain rfl := Except.ok.inj (high.symm.trans ran)
    refine ⟨attributed.samples_stored enabled current, fun _ => ?_, fun _ c member => ?_,
      attributed.rounds⟩
    · exact (Function.update_self 0 s.curSnrCfg s.snrCfg).symm
    · refine (List.mem_singleton.mp member).trans ?_
      change s.reg = Function.update s.snrCfg 0 s.curSnrCfg 0
      rw [Function.update_self, reg, current]
  · obtain rfl := Except.ok.inj (trial.symm.trans ran)
    obtain ⟨needTrial, inForce, went_on⟩ := DynSnr.goOn_eq
      (s.stored jiffies (s.mbps b jiffies) (s.snrCfg s.trialCnt)) trialCnt snrCfg recovering
    obtain ⟨-, masked, -, -⟩ := next_masked
      (s := s.stored jiffies (s.mbps b jiffies) (s.snrCfg s.trialCnt)) trials.bound trials.masked
      next
    have follows : (if s.curSnrCfg = snrCfg ∨ recovering = true then s.reg else snrCfg &&& 3) =
        snrCfg := by
      split_ifs with kept
      · rcases kept with same | skipped
        · rw [reg, ← current, same]
        · have same : snrCfg = s.curSnrCfg := written some_mbps few skipped _ next
          rw [reg, ← current, same]
      · exact masked
    rw [went_on]
    refine ⟨attributed.samples_stored enabled rfl, fun _ => ?_, fun _ c member => ?_, ?_⟩
    · exact (Function.update_self trialCnt snrCfg s.snrCfg).symm
    · refine ((List.mem_singleton.mp member).trans follows).trans ?_
      exact (Function.update_self trialCnt snrCfg s.snrCfg).symm
    · exact attributed.rounds_stored trials.bound some_mbps next

/-- A probe comes to its end. -/
theorem Trials.probe_ok (trials : Trials s) (b : Board) (jiffies : BitVec 64) (recovering : Bool) :
    ∃ s', s.amlDynamicSnrProbe b jiffies recovering = .ok s' := by
  rcases DynSnr.probe_cases b jiffies recovering trials.bound with
    ⟨-, low⟩ | ⟨-, -, rxTp, high⟩ | ⟨-, -, trialCnt, snrCfg, -, trial⟩
  · exact ⟨_, low⟩
  · exact ⟨_, high⟩
  · exact ⟨_, trial⟩

theorem steady_step (trials : Trials s) (attributed : Attributed s) {event : Event}
    (steady : Steady b s event) :
    ∃ next, s.step b event = .ok next ∧ Trials next ∧ Attributed next := by
  cases event with
  | rx rateIdx len =>
      obtain ⟨stats, counted⟩ := rateStats_eq b s rateIdx len
      rw [DynSnr.step, counted]
      exact ⟨_, rfl, ⟨trials.bound, trials.next, trials.previous, trials.masked, trials.current,
        trials.inForce⟩, ⟨attributed.samples, attributed.trial, attributed.measured,
        attributed.rounds⟩⟩
  | tick jiffies vifStarted recovering =>
      rw [DynSnr.step]
      split_ifs with probing
      · obtain ⟨enabled, started⟩ := Bool.and_eq_true_iff.mp probing
        obtain ⟨s', ran⟩ := trials.probe_ok b jiffies recovering
        rw [ran]
        exact ⟨_, rfl, trials.probe ran, attributed.probe trials enabled started steady ran⟩
      · exact ⟨s, rfl, trials, attributed⟩
  | config enable arg recovering =>
      exact ⟨_, rfl, trials.config enable arg recovering, attributed.config arg steady⟩
  | staActive band =>
      exact ⟨_, rfl, ⟨trials.bound, trials.next, trials.previous, trials.masked, trials.current,
        trials.inForce⟩, ⟨attributed.samples, attributed.trial, attributed.measured,
        attributed.rounds⟩⟩

/-- The neighbours being tried are other configurations than the one at index 0. -/
theorem Trials.neighbour_ne (trials : Trials s) (trying : s.trialCnt ≠ 0) :
    s.snrCfg s.trialCnt ≠ s.snrCfg 0 := by
  obtain ⟨next, previous⟩ := Rate.neighbour_ne (s.snrCfg 0)
  have bound := trials.bound
  have two : s.trialCnt = 1 ∨ s.trialCnt = 2 := by omega
  rcases two with first | second
  · rw [first, trials.next first]
    exact next
  · rw [second, trials.previous second]
    exact previous

/-- A step that is not steady leaves a sample that will be stored for another configuration. -/
theorem not_attributed_of_not_steady (trials : Trials s) (attributed : Attributed s) {event : Event}
    (unsteady : ¬Steady b s event) {next : DynSnr} (stepped : s.step b event = .ok next) :
    ¬Attributed next := by
  intro wrong
  refine unsteady ?_
  cases event with
  | rx rateIdx len => trivial
  | staActive band => trivial
  | config enable arg recovering =>
      obtain ⟨permillage, needTrial, snrCfg, reg, inForce, config, -, zero, -, kept, -⟩ :=
        config_eq s enable arg recovering
      obtain rfl := Except.ok.inj stepped
      rw [config] at wrong
      intro enabled
      have start : s.snrCfg s.trialCnt = 0 := (wrong.trial enabled).symm.trans (zero enabled)
      exact ⟨start, fun c member => (wrong.measured enabled c (kept member)).trans start⟩
  | tick jiffies vifStarted recovering =>
      intro enabled started
      have current := attributed.trial enabled
      rw [DynSnr.step, if_pos (Bool.and_eq_true_iff.mpr ⟨enabled, started⟩)] at stepped
      rcases DynSnr.probe_cases b jiffies recovering trials.bound with
        ⟨low_mbps, low⟩ | ⟨some_mbps, many, -⟩ | ⟨some_mbps, few, trialCnt, snrCfg, next', trial⟩
      · rw [low] at stepped
        obtain rfl := Except.ok.inj stepped
        refine ⟨fun _ => ?_, fun some_mbps => absurd some_mbps (Nat.not_le_of_lt low_mbps)⟩
        by_contra trying
        have stale : s.curSnrCfg = s.snrCfg 0 := wrong.trial enabled
        exact trials.neighbour_ne trying (current.symm.trans stale)
      · exact ⟨fun low_mbps => absurd some_mbps (Nat.not_le_of_lt low_mbps),
          fun _ few => absurd many (Nat.not_le_of_lt few)⟩
      · refine ⟨fun low_mbps => absurd some_mbps (Nat.not_le_of_lt low_mbps),
          fun _ _ skipped next'' tried => ?_⟩
        obtain rfl := Except.ok.inj (next'.symm.trans tried)
        obtain ⟨needTrial, inForce, went_on⟩ := DynSnr.goOn_eq
          (s.stored jiffies (s.mbps b jiffies) (s.snrCfg s.trialCnt)) trialCnt snrCfg recovering
        rw [trial, went_on] at stepped
        obtain rfl := Except.ok.inj stepped
        have held := wrong.measured enabled _ (List.mem_singleton.mpr rfl)
        change (if s.curSnrCfg = snrCfg ∨ recovering = true then s.reg else snrCfg &&& 3) =
          Function.update s.snrCfg trialCnt snrCfg trialCnt at held
        rw [if_pos (Or.inr skipped), Function.update_self, attributed.reg_eq trials enabled,
          ← current] at held
        exact held.symm

theorem attributed_init (jiffies : BitVec 64) (reg : UInt8) :
    Trials (DynSnr.amlDynamicSnrInit jiffies reg) ∧
      Attributed (DynSnr.amlDynamicSnrInit jiffies reg) := by
  have zero : (0 : UInt8) &&& 3 = 0 := by decide
  constructor
  · exact .of_start rfl (fun _ => zero) zero (List.mem_singleton.mpr rfl)
  · exact ⟨List.forall_mem_nil _, fun _ => rfl,
      fun _ c member => (List.mem_singleton.mp member).trans zero, List.forall_mem_nil _⟩

/-- Every sample is stored for the configuration it was measured under, throughout exactly the runs
in which no trial is given up, no configuration is skipped, and probing is only enabled where it
has been all the time. -/
theorem attributed_iff_steady (b : Board) (jiffies : BitVec 64) (reg : UInt8)
    (events : List Event) :
    Run.Safe (DynSnr.step b) Attributed events (DynSnr.amlDynamicSnrInit jiffies reg) ↔
      Run.Guarded (DynSnr.step b) (Steady b) events (DynSnr.amlDynamicSnrInit jiffies reg) :=
  Run.safe_iff_guarded (fun _ _ both steady => steady_step both.1 both.2 steady)
    (fun _ both => both.2)
    (fun _ _ _ both unsteady stepped => not_attributed_of_not_steady both.1 both.2 unsteady stepped)
    (attributed_init jiffies reg)

/-- A board with one rate, which is not a high one. -/
def oneRate : Board where
  hz := 100
  rateNum := 1
  hiRateBmp := fun _ _ => false

/-- A trial is given up when no packets come for a tenth of a second, and then they do again. -/
def abandonedTrial : List Event :=
  List.replicate 8 (.rx 0 60000) ++ .tick 10 true false :: .tick 20 true false ::
    (List.replicate 200 (.rx 0 60000) ++ [.tick 320 true false])

/-- The last sample is stored for configuration 0, and was measured under configuration 1. -/
theorem abandoned_trial_misattributes : ∃ s,
    Run.run (DynSnr.step oneRate) abandonedTrial (DynSnr.amlDynamicSnrInit 0 0) = .ok s ∧
      ∃ sample ∈ s.samples, ∃ c ∈ sample.inForce, c ≠ sample.storedFor := by
  have samples : (Run.run (DynSnr.step oneRate) abandonedTrial
      (DynSnr.amlDynamicSnrInit 0 0)).toOption.map
        (fun s => s.samples.map fun sample => (sample.storedFor, sample.inForce)) =
      some [(0, [0]), (1, [1]), (0, [1])] := by
    decide +kernel
  obtain ⟨s, ran, logged⟩ := Run.ends_of_toOption samples
  have last : ((0 : UInt8), [(1 : UInt8)]) ∈ s.samples.map
      fun sample => (sample.storedFor, sample.inForce) := by
    rw [logged]
    decide
  obtain ⟨sample, member, same⟩ := List.mem_map.mp last
  obtain ⟨storedFor, inForce⟩ := Prod.mk.inj same
  refine ⟨s, ran, sample, member, 1, ?_, ?_⟩
  · rw [inForce]
    exact List.mem_singleton.mpr rfl
  · rw [storedFor]
    decide

end AmlW2.Rate
