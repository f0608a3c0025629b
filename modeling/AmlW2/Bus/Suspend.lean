import AmlW2.Lib.Census
import AmlW2.Lib.Run
import Mathlib.Data.Fintype.Defs

/-!
# The suspend count of the SDIO functions

The PM callbacks of the SDIO functions count the suspended ones, and no function but the first may
use the bus while the count is not 0.  Both callbacks can fail: a suspend that fails after the wait
for the WiFi driver is counted all the same, and a resume that cannot wake the firmware leaves the
function counted.
-/

namespace AmlW2.Bus

/-- `SDIO_STD_FUNNUM`. -/
inductive SdioStdFunnum where
  | func0
  | func1
  | func2
  | func3
  | func4
  | func5
  | func6
  | func7
  deriving DecidableEq

namespace SdioStdFunnum

def list : List SdioStdFunnum := [func0, func1, func2, func3, func4, func5, func6, func7]

theorem list_nodup : list.Nodup := by decide

theorem mem_list (f : SdioStdFunnum) : f ∈ list := by
  cases f
  all_goals decide

instance : Fintype SdioStdFunnum where
  elems := ⟨list, list_nodup⟩
  complete := mem_list

end SdioStdFunnum

/-! ## Waking the firmware -/

/-- The registers `aml_wake_fw_req` reads in one pass. -/
structure PmuRead where
  /-- `RG_SDIO_PMU_STATUS`. -/
  status : BitVec 8
  /-- `RG_SDIO_PMU_HOST_REQ`. -/
  hostReq : BitVec 8

namespace PmuRead

/-- The PMU status is `PMU_ACT_MODE`. -/
def active (r : PmuRead) : Bool := r.status &&& 0xf = 6

/-- `FW_SLEEP`. -/
def fwSleep (r : PmuRead) : Bool := r.status &&& 0x10 ≠ 0

/-- `HOST_SLEEP_REQ`. -/
def hostSleepReq (r : PmuRead) : Bool := r.hostReq &&& 0x20 ≠ 0

/-- The firmware is awake. -/
def awake (r : PmuRead) : Bool := r.active && !r.fwSleep && !r.hostSleepReq

theorem active_of_awake {r : PmuRead} (awake : r.awake = true) : r.active = true := by
  rw [PmuRead.awake, Bool.and_assoc, Bool.and_eq_true] at awake
  exact awake.1

end PmuRead

/-- The passes of `aml_wake_fw_req` from the given one on, `left` of them still counted.  The first
pass that finds the PMU not active sleeps and is not counted; `waited` tells that it is over. -/
def wakeFrom (reads : Nat → PmuRead) : (left pass : Nat) → (waited : Bool) → Int
  | 0, _, _ => -1
  | left + 1, pass, waited =>
      if !waited && !(reads pass).active then
        if (reads (pass + 1)).awake then 0 else wakeFrom reads left (pass + 2) true
      else if (reads pass).awake then 0 else wakeFrom reads left (pass + 1) waited

/-- `aml_wake_fw_req`: wait for the firmware for 1000 passes. -/
def amlWakeFwReq (reads : Nat → PmuRead) : Int := wakeFrom reads 1000 0 false

/-- The firmware is awake in one of the passes that are made: there are 1000, and one more when the
PMU was not active in one of them. -/
def Answers (reads : Nat → PmuRead) : Prop :=
  ∃ pass, (reads pass).awake = true ∧
    (pass < 1000 ∨ pass = 1000 ∧ ∃ earlier < pass, (reads earlier).active = false)

theorem wakeFrom_waited (reads : Nat → PmuRead) (left pass : Nat) :
    wakeFrom reads left pass true = 0 ↔ ∃ k < left, (reads (pass + k)).awake = true := by
  induction left generalizing pass with
  | zero => simp [wakeFrom]
  | succ left induction =>
      simp only [wakeFrom, Bool.not_true, Bool.false_and, Bool.false_eq_true, if_false]
      by_cases here : (reads pass).awake = true
      · rw [if_pos here]
        exact iff_of_true rfl ⟨0, Nat.succ_pos left, here⟩
      · rw [if_neg here, induction]
        constructor
        · rintro ⟨k, below, awake⟩
          refine ⟨k + 1, Nat.succ_lt_succ below, ?_⟩
          rwa [show pass + (k + 1) = pass + 1 + k by omega]
        · rintro ⟨k, below, awake⟩
          cases k with
          | zero => exact absurd awake here
          | succ k =>
              refine ⟨k, Nat.lt_of_succ_lt_succ below, ?_⟩
              rwa [show pass + 1 + k = pass + (k + 1) by omega]

theorem wakeFrom_fresh (reads : Nat → PmuRead) (left pass : Nat) :
    wakeFrom reads left pass false = 0 ↔ ∃ k, (reads (pass + k)).awake = true ∧
      (k < left ∨ k = left ∧ ∃ earlier < k, (reads (pass + earlier)).active = false) := by
  induction left generalizing pass with
  | zero =>
      simp only [wakeFrom]
      refine iff_of_false (by decide) ?_
      rintro ⟨k, -, below | ⟨rfl, earlier, below, -⟩⟩
      · exact absurd below (Nat.not_lt_zero k)
      · exact absurd below (Nat.not_lt_zero earlier)
  | succ left induction =>
      simp only [wakeFrom, Bool.not_false, Bool.true_and, Bool.not_eq_true']
      by_cases here : (reads pass).active = false
      · -- The pass that sleeps: it is not counted, and no later one sleeps.
        have asleep : (reads pass).awake ≠ true := fun awake =>
          absurd (PmuRead.active_of_awake awake) (by rw [here]; exact Bool.false_ne_true)
        have rest : (∃ k < left + 1, (reads (pass + 1 + k)).awake = true) ↔
            ∃ k, (reads (pass + k)).awake = true ∧ (k < left + 1 ∨
              k = left + 1 ∧ ∃ earlier < k, (reads (pass + earlier)).active = false) := by
          constructor
          · rintro ⟨k, below, awake⟩
            refine ⟨k + 1, by rwa [show pass + (k + 1) = pass + 1 + k by omega], ?_⟩
            rcases Nat.lt_or_ge (k + 1) (left + 1) with inside | beyond
            · exact .inl inside
            · exact .inr ⟨by omega, 0, Nat.succ_pos k, here⟩
          · rintro ⟨k, awake, bound⟩
            cases k with
            | zero => exact absurd awake asleep
            | succ k =>
                refine ⟨k, by omega, ?_⟩
                rwa [show pass + 1 + k = pass + (k + 1) by omega]
        rw [if_pos here, ← rest, ← wakeFrom_waited]
        simp only [wakeFrom, Bool.not_true, Bool.false_and, Bool.false_eq_true, if_false]
      · rw [if_neg here]
        by_cases awake : (reads pass).awake = true
        · rw [if_pos awake]
          exact iff_of_true rfl ⟨0, awake, .inl (Nat.succ_pos left)⟩
        · rw [if_neg awake, induction]
          constructor
          · rintro ⟨k, later, bound⟩
            refine ⟨k + 1, by rwa [show pass + (k + 1) = pass + 1 + k by omega], ?_⟩
            rcases bound with below | ⟨rfl, earlier, below, inactive⟩
            · exact .inl (Nat.succ_lt_succ below)
            · refine .inr ⟨rfl, earlier + 1, Nat.succ_lt_succ below, ?_⟩
              rwa [show pass + (earlier + 1) = pass + 1 + earlier by omega]
          · rintro ⟨k, later, bound⟩
            cases k with
            | zero => exact absurd later awake
            | succ k =>
                refine ⟨k, by rwa [show pass + 1 + k = pass + (k + 1) by omega], ?_⟩
                rcases bound with below | ⟨last, earlier, below, inactive⟩
                · exact .inl (Nat.lt_of_succ_lt_succ below)
                · cases earlier with
                  | zero => exact absurd inactive here
                  | succ earlier =>
                      refine .inr ⟨Nat.succ.inj last, earlier, Nat.lt_of_succ_lt_succ below, ?_⟩
                      rwa [show pass + 1 + earlier = pass + (earlier + 1) by omega]

theorem amlWakeFwReq_eq_zero (reads : Nat → PmuRead) : amlWakeFwReq reads = 0 ↔ Answers reads := by
  have fresh := wakeFrom_fresh reads 1000 0
  simp only [Nat.zero_add] at fresh
  exact fresh

/-! ## Suspending a function -/

/-- What the host controller can keep up during a suspend, and its answers when it is told to. -/
structure HostPm where
  /-- `MMC_PM_KEEP_POWER` is among the capabilities. -/
  keepPower : Bool
  /-- `MMC_PM_WAKE_SDIO_IRQ` is. -/
  wakeSdioIrq : Bool
  setKeepPower : Int
  setWakeSdioIrq : Int

/-- `aml_sdio_suspend`. -/
def amlSdioSuspend (h : HostPm) : Int :=
  let ret := if h.keepPower then h.setKeepPower else 0
  if ret ≠ 0 then -1
  else
    let ret := if h.wakeSdioIrq then h.setWakeSdioIrq else ret
    if ret ≠ 0 then -1 else ret

/-- The host controller takes all it is told. -/
def HostPm.Obeys (h : HostPm) : Prop :=
  (h.keepPower = true → h.setKeepPower = 0) ∧ (h.wakeSdioIrq = true → h.setWakeSdioIrq = 0)

theorem amlSdioSuspend_eq_zero (h : HostPm) : amlSdioSuspend h = 0 ↔ h.Obeys := by
  rcases h with ⟨keepPower, wakeSdioIrq, setKeepPower, setWakeSdioIrq⟩
  cases keepPower
  all_goals cases wakeSdioIrq
  all_goals simp [amlSdioSuspend, HostPm.Obeys]
  all_goals split_ifs
  all_goals simp_all

/-- What one pass of the wait for the WiFi driver reads, and the clock at its end. -/
structure Poll where
  drvSuspendCnt : Int
  busErr : Bool
  isRecyOngoing : Bool
  clock : BitVec 64

/-- What a suspend callback meets. -/
structure SuspendEnv where
  wifiEnable : Bool
  start : BitVec 64
  polls : List Poll
  /-- `wifi_suspend_state`, `bus_err` and `is_recy_ongoing` after the wait. -/
  wifiSuspendState : Int
  busErr : Bool
  isRecyOngoing : Bool
  host : HostPm

/-- `wait_wifi_time_ns`. -/
def waitWifiTimeNs : BitVec 64 := 12000000000

/-- The wait for the WiFi driver, with the time that has elapsed when it ends; it has not ended when
there are no more passes. -/
def waitWifi (start : BitVec 64) : List Poll → (elapsed : BitVec 64) → Option (BitVec 64)
  | [], _ => none
  | p :: polls, elapsed =>
      if p.drvSuspendCnt = 0 ∧ !p.busErr ∧ !p.isRecyOngoing ∧ elapsed < waitWifiTimeNs then
        waitWifi start polls (p.clock - start)
      else some elapsed

/-- Whether the callback gives up before it suspends the function: the WiFi driver was too slow, it
failed to suspend, or the bus is in error or being recovered. -/
def SuspendEnv.givesUp (e : SuspendEnv) : Option Bool :=
  if e.wifiEnable then
    (waitWifi e.start e.polls 0).map fun elapsed =>
      waitWifiTimeNs ≤ elapsed || e.wifiSuspendState ≠ 0 || e.busErr || e.isRecyOngoing
  else some false

/-! ## The callbacks -/

inductive Callback where
  | suspend
  | resume
  deriving DecidableEq

/-- A callback that has completed, with what it returned. -/
abbrev Completed := Callback × Int

/-- The suspend count, and the last callback completed of each function. -/
structure Pm where
  /-- `g_wifi_pm.bus_suspend_cnt`. -/
  busSuspendCnt : Int := 0
  last : SdioStdFunnum → Option Completed := fun _ => none

/-- The last callback is a successful suspend. -/
def Suspended (last : Option Completed) : Prop := last = some (.suspend, 0)

instance : DecidablePred Suspended := fun last => decEq last (some (.suspend, 0))

inductive Fault where
  /-- A suspend callback is still waiting for the WiFi driver. -/
  | waiting

inductive Event where
  | suspend (func : SdioStdFunnum) (env : SuspendEnv)
  | resume (func : SdioStdFunnum) (reads : Nat → PmuRead)

namespace Pm

def completed (s : Pm) (func : SdioStdFunnum) (callback : Completed) : Pm :=
  { s with last := Function.update s.last func (some callback) }

/-- `atomic_inc` and `atomic_dec` of the suspend count. -/
def addCnt (s : Pm) (d : Int) : Pm := { s with busSuspendCnt := s.busSuspendCnt + d }

/-- `aml_sdio_pm_suspend`. -/
def amlSdioPmSuspend (s : Pm) (env : SuspendEnv) : Except Fault (Pm × Int) :=
  match env.givesUp with
  | none => .error .waiting
  | some true => .ok (s, -1)
  | some false => .ok (s.addCnt 1, amlSdioSuspend env.host)

/-- `aml_sdio_pm_resume`. -/
def amlSdioPmResume (s : Pm) (func : SdioStdFunnum) (reads : Nat → PmuRead) : Pm × Int :=
  if func = .func1 ∧ amlWakeFwReq reads ≠ 0 then (s, -1) else (s.addCnt (-1), 0)

/-- `aml_sdio_block_bus_opt`. -/
def amlSdioBlockBusOpt (s : Pm) (isShutDown : Int) (busErr : Bool) (funcNum : SdioStdFunnum) :
    Bool :=
  if isShutDown = 1 ∨ 0 < s.busSuspendCnt ∧ funcNum ≠ .func1 then true
  else if busErr then true
  else false

def step (s : Pm) : Event → Except Fault Pm
  | .suspend func env =>
      (s.amlSdioPmSuspend env).map fun (s', ret) => s'.completed func (.suspend, ret)
  | .resume func reads =>
      .ok ((s.amlSdioPmResume func reads).1.completed func
        (.resume, (s.amlSdioPmResume func reads).2))

/-- The PM core resumes the functions whose suspend returned 0, and suspends the others. -/
def PmCore (s : Pm) : Event → Prop
  | .suspend func _ => ¬Suspended (s.last func)
  | .resume func _ => Suspended (s.last func)

/-- The count is the number of suspended functions; without any, the bus is not blocked for
suspension. -/
structure Balanced (s : Pm) : Prop where
  count : s.busSuspendCnt = census s.last Suspended
  free : (∀ func, ¬Suspended (s.last func)) → s.busSuspendCnt = 0 ∧
    ∀ isShutDown busErr funcNum,
      s.amlSdioBlockBusOpt isShutDown busErr funcNum = (isShutDown = 1 || busErr)

/-- A suspend that goes on has its host controller take what it is told, and the firmware answers
the resume of the first function. -/
def Succeeds (_ : Pm) : Event → Prop
  | .suspend _ env => env.givesUp = some false → env.host.Obeys
  | .resume func reads => func = .func1 → Answers reads

theorem balanced_iff {s : Pm} : s.Balanced ↔ s.busSuspendCnt = census s.last Suspended := by
  refine ⟨Balanced.count, fun count => ⟨count, fun none => ?_⟩⟩
  have zero : s.busSuspendCnt = 0 := by
    rw [count, census_eq_zero.mpr none]
    rfl
  refine ⟨zero, fun isShutDown busErr funcNum => ?_⟩
  rw [amlSdioBlockBusOpt, zero]
  cases busErr
  all_goals simp

/-! ## What a callback does to the count -/

theorem balanced_completed {s : Pm} (func : SdioStdFunnum) (callback : Completed) (d : Int)
    (balanced : s.Balanced) :
    ((s.addCnt d).completed func callback).Balanced ↔
      d + (if Suspended (s.last func) then 1 else 0) =
        if Suspended (some callback) then 1 else 0 := by
  have changed := census_update (p := Suspended) s.last func (some callback)
  rw [balanced_iff]
  simp only [completed, addCnt, balanced.count]
  split_ifs at changed ⊢
  all_goals omega

/-- Where the PM core keeps its order, a callback keeps the balance if and only if it succeeds or
gives up before it suspends the function. -/
theorem balanced_step {s s' : Pm} {event : Event} (balanced : s.Balanced) (order : s.PmCore event)
    (stepped : s.step event = .ok s') : s'.Balanced ↔ s.Succeeds event := by
  cases event with
  | suspend func env =>
      have before : ¬Suspended (s.last func) := order
      obtain ⟨⟨next, ret⟩, called, rfl⟩ := Run.map_eq_ok stepped
      rw [amlSdioPmSuspend] at called
      rw [Succeeds]
      cases waited : env.givesUp with
      | none =>
          rw [waited] at called
          cases called
      | some up =>
          rw [waited] at called
          cases up with
          | true =>
              cases called
              have kept := balanced_completed func (.suspend, -1) 0 balanced
              rw [if_neg before, if_neg (show ¬Suspended (some (.suspend, -1)) by decide)] at kept
              have same : s.addCnt 0 = s := by rw [addCnt, Int.add_zero]
              rw [same] at kept
              exact iff_of_true (kept.mpr rfl) fun goesOn => by cases goesOn
          | false =>
              cases called
              have counted := balanced_completed func (.suspend, amlSdioSuspend env.host) 1 balanced
              rw [if_neg before] at counted
              rw [counted, ← amlSdioSuspend_eq_zero]
              have now : Suspended (some (.suspend, amlSdioSuspend env.host)) ↔
                  amlSdioSuspend env.host = 0 := by simp [Suspended]
              simp only [now, forall_const]
              split_ifs with success
              · exact iff_of_true rfl success
              · exact iff_of_false (by decide) success
  | resume func reads =>
      have before : Suspended (s.last func) := order
      obtain rfl := Except.ok.inj stepped
      have after : ∀ ret, ¬Suspended (some (.resume, ret)) := fun ret now => by cases now
      rw [Succeeds, ← amlWakeFwReq_eq_zero, amlSdioPmResume]
      split_ifs with asleep
      · have counted := balanced_completed func (.resume, -1) 0 balanced
        rw [if_pos before, if_neg (after _)] at counted
        have same : s.addCnt 0 = s := by rw [addCnt, Int.add_zero]
        rw [same] at counted
        exact iff_of_false (fun kept => absurd (counted.mp kept) (by decide))
          fun answers => asleep.2 (answers asleep.1)
      · have counted := balanced_completed func (.resume, 0) (-1) balanced
        rw [if_pos before, if_neg (after _)] at counted
        exact iff_of_true (counted.mpr (by decide)) fun first => by
          by_contra fails
          exact asleep ⟨first, fails⟩

/-- A suspend that is still waiting has not failed. -/
theorem completes_of_fails {s : Pm} {event : Event} (fails : ¬s.Succeeds event) :
    ∃ s', s.step event = .ok s' := by
  cases event with
  | suspend func env =>
      have goesOn : env.givesUp = some false := by
        by_contra other
        exact fails fun goesOn => absurd goesOn other
      exact ⟨(s.addCnt 1).completed func (.suspend, amlSdioSuspend env.host), by
        rw [step, amlSdioPmSuspend, goesOn]
        rfl⟩
  | resume func reads => exact ⟨_, rfl⟩

theorem balanced_initial : ({} : Pm).Balanced := by
  rw [balanced_iff, census_eq_zero.mpr fun func now => by cases now]
  rfl

/-- **The suspend count balances.**  Over every sequence of callbacks in the PM core's order the
count is the number of suspended functions throughout, if and only if no suspend fails after the
wait and no resume of the first function fails. -/
theorem balanced_iff_succeeds {events : List Event} (order : Run.Guarded step PmCore events {}) :
    Run.Throughout step Balanced events {} ↔ Run.Guarded step Succeeds events {} :=
  Run.throughout_iff_guarded_within
    (fun _ _ _ balanced order succeeds stepped =>
      (balanced_step balanced order stepped).mpr succeeds)
    (fun _ balanced => balanced)
    (fun _ _ balanced order fails =>
      have ⟨s', stepped⟩ := completes_of_fails fails
      ⟨s', stepped, fun kept => fails ((balanced_step balanced order stepped).mp kept)⟩)
    order balanced_initial

/-! ## Two callbacks that fail -/

/-- A suspend without a WiFi driver, of a host controller with all capabilities. -/
def bare (setKeepPower : Int) : SuspendEnv where
  wifiEnable := false
  start := 0
  polls := []
  wifiSuspendState := 0
  busErr := false
  isRecyOngoing := false
  host := ⟨true, true, setKeepPower, 0⟩

/-- Firmware that is awake, and firmware that stays asleep. -/
def awake : Nat → PmuRead := fun _ => ⟨0x06, 0⟩

def asleep : Nat → PmuRead := fun _ => ⟨0x18, 0⟩

/-- A suspend that meets a bus error. -/
def errored : SuspendEnv :=
  { bare 0 with
    wifiEnable := true
    polls := [⟨0, true, false, 0⟩]
    busErr := true }

/-- A function is suspended and resumed, after it gave up at first. -/
def resumedRun : List Event :=
  [.suspend .func2 errored, .suspend .func2 (bare 0), .suspend .func1 (bare 0),
    .resume .func1 awake, .resume .func2 awake]

/-- The host controller does not keep the power of function 2. -/
def refusedRun : List Event := [.suspend .func2 (bare (-22))]

/-- The firmware does not answer the resume of function 1. -/
def unansweredRun : List Event := [.suspend .func1 (bare 0), .resume .func1 asleep]

def inOrder (s : Pm) : Event → Bool
  | .suspend func _ => !decide (Suspended (s.last func))
  | .resume func _ => decide (Suspended (s.last func))

theorem pmCore_of_inOrder (s : Pm) (event : Event) (test : s.inOrder event = true) :
    s.PmCore event := by
  cases event with
  | suspend func env =>
      rw [inOrder, Bool.not_eq_true', decide_eq_false_iff_not] at test
      exact test
  | resume func reads =>
      rw [inOrder, decide_eq_true_iff] at test
      exact test

def inSuccess (_ : Pm) : Event → Bool
  | .suspend _ env => amlSdioSuspend env.host = 0
  | .resume _ reads => (reads 0).awake

theorem succeeds_of_inSuccess (s : Pm) (event : Event) (test : s.inSuccess event = true) :
    s.Succeeds event := by
  cases event with
  | suspend func env => exact fun _ => (amlSdioSuspend_eq_zero env.host).mp (of_decide_eq_true test)
  | resume func reads => exact fun _ => ⟨0, test, .inl (by decide)⟩

theorem resumedRun_balanced : Run.Throughout step Balanced resumedRun {} :=
  (balanced_iff_succeeds (Run.guarded_of_check pmCore_of_inOrder (by decide +kernel))).mpr
    (Run.guarded_of_check succeeds_of_inSuccess (by decide +kernel))

/-- What the end of a run shows: whether no function is suspended, and whether
the bus is blocked. -/
def observe (s : Pm) : Bool × Bool :=
  (decide (∀ func, ¬Suspended (s.last func)), s.amlSdioBlockBusOpt 0 false .func2)

theorem not_throughout_of_observe {events : List Event}
    (observed : (Run.run step events {}).toOption.map observe = some (true, true)) :
    ¬Run.Throughout step Balanced events {} := by
  intro balanced
  obtain ⟨s, ran, seen⟩ := Run.ends_of_toOption observed
  have none : ∀ func, ¬Suspended (s.last func) := of_decide_eq_true (congrArg Prod.fst seen)
  have blocked : s.amlSdioBlockBusOpt 0 false .func2 = true := congrArg Prod.snd seen
  have unblocked := ((balanced events [] s (List.append_nil _).symm ran).free none).2 0 false .func2
  rw [blocked] at unblocked
  cases unblocked

/-- No function is suspended at the end of either run, and the bus is blocked for all but the
first. -/
theorem failed_blocked :
    Run.Guarded step PmCore refusedRun {} ∧ ¬Run.Throughout step Balanced refusedRun {} ∧
      Run.Guarded step PmCore unansweredRun {} ∧
          ¬Run.Throughout step Balanced unansweredRun {} := by
  refine ⟨?_, ?_, ?_, ?_⟩
  · exact Run.guarded_of_check pmCore_of_inOrder (by decide +kernel)
  · exact not_throughout_of_observe (by decide +kernel)
  · exact Run.guarded_of_check pmCore_of_inOrder (by decide +kernel)
  · exact not_throughout_of_observe (by decide +kernel)

end Pm

end AmlW2.Bus
