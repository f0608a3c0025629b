import AmlW2.Lib.Run

/-!
# The latches of recovery

A timer looks for crashed commands, bus errors and link losses, and queues a recovery.  While
`reason` is set it looks for nothing, and while `bus_reset_ongoing` is set not for bus errors.  Both
are set by the timer and cleared on the way through the recovery, which can fail at each of its
steps.
-/

namespace AmlW2.Rearm

/-- `aml_bus_type`. -/
inductive BusType where
  | pcie
  | usb
  | sdio
  deriving DecidableEq

/-- The bus, and whether the driver is built with `CONFIG_AML_USB_HOTPLUG`.  It is built with
`CONFIG_AML_PLATFORM_ANDROID`; without, `aml_recy_detection` also returns on PCIe while a register
of the device reads as all ones. -/
structure Build where
  busType : BusType
  usbHotplug : Bool

/-- `enum aml_recy_reason`; no reason is 0. -/
inductive RecyReason where
  | cmdCrash
  | fwLinkloss
  | busErr
  | txTimeout
  deriving DecidableEq

/-- A work item: `aml_recy_doit` with the reason passed to it, or something else. -/
inductive Work where
  | recyDoit (reason : Option RecyReason)
  | other
  deriving DecidableEq

/-- What the worker does next. -/
inductive Phase where
  /-- Something that is no recovery. -/
  | other
  /-- The flags are to be checked. -/
  | check
  /-- The recovery is put off. -/
  | delayed
  | vifReset
  /-- The firmware is to be reloaded, after `tryCnt` failures. -/
  | reload (tryCnt : Nat)
  /-- The bus is being reset. -/
  | resetting (tryCnt : Nat)
  /-- The platform is to be turned on and the firmware to be started. -/
  | starting (tryCnt : Nat)
  | vifRestart
  /-- Behind the label `out`, with `reason` cleared. -/
  | leave
  deriving DecidableEq

namespace Phase

/-- Part of `aml_recy_doit`. -/
def recovery : Phase → Bool
  | .other => false
  | _ => true

/-- `reason` is cleared later on, whichever step fails. -/
def clearsReason : Phase → Bool
  | .other | .delayed | .leave => false
  | _ => true

/-- Without a failed vif reset, `bus_reset_ongoing` is cleared later on. -/
def clearsLatch : Phase → Bool
  | .check | .delayed | .vifReset | .reload _ | .resetting _ => true
  | _ => false

/-- `AML_RECY_STATE_ONGOING` is set. -/
def ongoing : Phase → Bool
  | .other | .check | .delayed => false
  | _ => true

def resettingBus : Phase → Bool
  | .resetting _ => true
  | _ => false

end Phase

structure RecyState where
  reason : Option RecyReason := none
  /-- The command manager is in `AML_CMD_MGR_STATE_CRASHED`. -/
  crashed : Bool := false
  /-- `link_loss`. -/
  isEnabled : Bool := true
  isRequested : Bool := false
  /-- `bus_state_detect`; `bus_err` is 0 or 1 once the driver is loaded. -/
  busErr : Bool := false
  busResetOngoing : Bool := false
  usbCheckFailCnt : Nat := 0
  /-- `AML_RECY_STOP_AP_PROC`, `_OPEN_VIF_PROC`, `_CLOSE_VIF_PROC` and `_STATE_ONGOING`. -/
  stopApProc : Bool := false
  openVifProc : Bool := false
  closeVifProc : Bool := false
  stateOngoing : Bool := false
  workList : List Work := []
  running : Option Phase := none
  /-- The last step was the return of `aml_recy_doit`. -/
  returned : Bool := false

inductive Fault where
  /-- The device counts as unplugged. -/
  | unplugged

inductive Event where
  /-- The timer expires; the USB device is in `USB_STATE_DEFAULT` or not, and the work item can be
  allocated or not. -/
  | tick (usbDefault allocated : Bool)
  | crash
  | busError
  | linkLoss
  /-- Packets are dropped from a queue. -/
  | txTimeout (allocated : Bool)
  /-- A recovery asked for by the user. -/
  | recyCtrl (allocated : Bool)
  | otherWork (allocated : Bool)
  | flags (stopAp openVif closeVif : Bool)
  /-- The worker goes on: its step succeeds or not, and the command manager has been initialized
  again or not. -/
  | worker (ok reinit : Bool)

namespace RecyState

/-- `__aml_wq_do`. -/
def amlWqDo (s : RecyState) (w : Work) (allocated : Bool) : RecyState :=
  if allocated then { s with workList := s.workList ++ [w] } else s

/-! ## The timer -/

/-- What `aml_recy_timer_cb` does first. -/
def usbCheck (b : Build) (s : RecyState) (usbDefault : Bool) : RecyState :=
  if b.busType = .usb then
    if usbDefault then
      if s.usbCheckFailCnt + 1 = 3 then { s with busErr := true, usbCheckFailCnt := 0 }
      else { s with usbCheckFailCnt := s.usbCheckFailCnt + 1 }
    else { s with usbCheckFailCnt := 0 }
  else s

/-- A crash or a link loss is to be handled. -/
def firmwareLost (s : RecyState) : Bool := s.crashed || s.isEnabled && s.isRequested

/-- A bus error is to be handled that is not being handled. -/
def busLost (b : Build) (s : RecyState) : Bool :=
  b.busType ≠ .pcie && !s.busResetOngoing && s.busErr

/-- What `aml_recy_detection` returns. -/
def detects (b : Build) (s : RecyState) : Bool :=
  s.reason = none && (s.firmwareLost || s.busLost b)

/-- `aml_recy_detection`. -/
def amlRecyDetection (b : Build) (s : RecyState) : RecyState :=
  if s.reason ≠ none then s
  else
    { s with
      reason :=
        if s.busLost b then some .busErr
        else if s.crashed then some .cmdCrash
        else if s.firmwareLost then some .fwLinkloss
        else none
      busResetOngoing := s.busResetOngoing || s.busLost b }

/-- `aml_recy_timer_cb`. -/
def amlRecyTimerCb (b : Build) (s : RecyState) (usbDefault allocated : Bool) : RecyState :=
  let s := s.usbCheck b usbDefault
  let s' := s.amlRecyDetection b
  if s.detects b then s'.amlWqDo (.recyDoit none) allocated else s'

/-! ## The worker -/

/-- The worker takes an item off the list; a recovery first sets the reason passed to it. -/
def takeWork (s : RecyState) (w : Work) (rest : List Work) : RecyState :=
  match w with
  | .other => { s with workList := rest, running := some .other }
  | .recyDoit reason =>
      { s with
        workList := rest
        reason := reason.or s.reason
        running := some .check }

def goOn (s : RecyState) (p : Phase) : RecyState := { s with running := some p }

/-- `aml_recy_flags_chk` of the flags that put a recovery off. -/
def putOff (s : RecyState) : Bool :=
  s.stopApProc || s.openVifProc || s.closeVifProc || s.stateOngoing

/-- From the label `out` on, up to `reason`. -/
def out (s : RecyState) : RecyState :=
  { s with isRequested := false, reason := none, running := some .leave }

/-- The command manager may have been initialized again. -/
def reinit (s : RecyState) (reinit : Bool) : RecyState :=
  { s with crashed := s.crashed && !reinit }

/-- The next step of what the worker runs.  Between two steps it accesses none of what the others
access. -/
def phaseStep (b : Build) (s : RecyState) (ok reinit : Bool) : Phase → Except Fault RecyState
  | .other => .ok { s with running := none }
  | .check =>
      if s.putOff then .ok { s.goOn .delayed with reason := none }
      else .ok { s.goOn .vifReset with stateOngoing := true }
  | .delayed =>
      .ok
        { s with
          busResetOngoing := s.busResetOngoing && !(b.busType ≠ .pcie && s.busErr)
          running := none
          returned := true }
  | .vifReset => if ok then .ok (s.goOn (.reload 0)) else .ok s.out
  | .reload tryCnt =>
      match b.busType with
      | .pcie => if ok then .ok ((s.reinit reinit).goOn .vifRestart) else .ok (s.reinit reinit).out
      | .usb =>
          .ok { (s.reinit reinit).goOn (.resetting tryCnt) with busResetOngoing := true }
      | .sdio => .ok ((s.reinit reinit).goOn (.resetting tryCnt))
  | .resetting tryCnt =>
      match b.busType with
      | .usb =>
          if ok then
            .ok { s.goOn (.starting tryCnt) with busResetOngoing := false, busErr := false }
          else if b.usbHotplug then .error .unplugged
          else .ok { s.goOn (.starting tryCnt) with busResetOngoing := false }
      | _ =>
          -- the bus is read after the reset, up to five times
          .ok { s.goOn (.starting tryCnt) with busResetOngoing := false, busErr := !ok }
  | .starting tryCnt =>
      if ok then .ok ((s.reinit reinit).goOn .vifRestart)
      else if tryCnt < 3 then .ok ((s.reinit reinit).goOn (.reload (tryCnt + 1)))
      else .ok (s.reinit reinit).out
  | .vifRestart => .ok s.out
  | .leave => .ok { s with stateOngoing := false, running := none, returned := true }

/-- The next step of the worker. -/
def worker (b : Build) (s : RecyState) (ok reinit : Bool) : Except Fault RecyState :=
  match s.running with
  | some p => s.phaseStep b ok reinit p
  | none =>
      match s.workList with
      | [] => .ok s
      | w :: rest => .ok (s.takeWork w rest)

def step (b : Build) (s : RecyState) : Event → Except Fault RecyState
  | .tick usbDefault allocated =>
      .ok ({ s with returned := false }.amlRecyTimerCb b usbDefault allocated)
  | .crash => .ok { s with returned := false, crashed := true }
  | .busError => .ok { s with returned := false, busErr := true }
  | .linkLoss => .ok { s with returned := false, isRequested := true }
  | .txTimeout allocated =>
      .ok ({ s with returned := false }.amlWqDo (.recyDoit (some .txTimeout))
        (allocated && s.reason = none))
  | .recyCtrl allocated => .ok ({ s with returned := false }.amlWqDo (.recyDoit none) allocated)
  | .otherWork allocated => .ok ({ s with returned := false }.amlWqDo .other allocated)
  | .flags stopAp openVif closeVif =>
      .ok
        { s with
          returned := false
          stopApProc := stopAp
          openVifProc := openVif
          closeVifProc := closeVif }
  | .worker ok reinit => { s with returned := false }.worker b ok reinit

/-! ## Armed states -/

/-- A recovery is among the work items. -/
def Queued (s : RecyState) : Prop := ∃ reason, .recyDoit reason ∈ s.workList

/-- The worker is in one of the phases. -/
def Runs (s : RecyState) (phases : Phase → Bool) : Prop := s.running.any phases = true

/-- A crash, a bus error or a request of a link loss is there to be handled. -/
def Outstanding (b : Build) (s : RecyState) : Prop :=
  s.crashed ∨ (b.busType ≠ .pcie ∧ s.busErr) ∨ (s.isEnabled ∧ s.isRequested)

/-- Whatever is outstanding is handled by a recovery queued or running, or found by the next tick;
each latch that is set is cleared by such a recovery, and when `aml_recy_doit` has returned nothing
else is due to clear it. -/
structure Armed (b : Build) (s : RecyState) : Prop where
  answered : s.Outstanding b → s.Queued ∨ s.Runs Phase.recovery ∨ s.detects b
  reasoned : s.reason ≠ none → s.Queued ∨ s.Runs Phase.clearsReason
  latched : s.busResetOngoing → s.Queued ∨ s.Runs Phase.clearsLatch
  returned : s.returned → s.stateOngoing = false ∧
    (s.reason ≠ none ∨ s.busResetOngoing → s.Queued)

/-- What does not leave a latch set: the work item of a tick is allocated, or a recovery is queued
that clears the latches set, or one is running that does; and no vif reset fails while
`bus_reset_ongoing` is set and no other recovery is queued. -/
def Clears (b : Build) (s : RecyState) : Event → Prop
  | .tick usbDefault allocated =>
      (s.usbCheck b usbDefault).detects b → allocated ∨ s.Queued ∨
        (s.Runs Phase.clearsReason ∧
          (s.busResetOngoing ∨ (s.usbCheck b usbDefault).busLost b → s.Runs Phase.clearsLatch))
  | .worker ok _ => s.running = some .vifReset → ok = false → s.busResetOngoing → s.Queued
  | _ => True

/-- The invariant: a latch that is set is cleared by a recovery queued or running, and
`bus_reset_ongoing` is set for a bus error or by the reset of the USB bus. -/
structure Sound (b : Build) (s : RecyState) : Prop where
  reasoned : s.reason ≠ none → s.Queued ∨ s.Runs Phase.clearsReason
  latched : s.busResetOngoing → s.Queued ∨ s.Runs Phase.clearsLatch
  erred : s.busResetOngoing → s.busErr ∨ s.Runs Phase.resettingBus
  pcie : b.busType = .pcie → s.busResetOngoing = false ∧ ¬s.Runs Phase.resettingBus
  ongoing : s.stateOngoing → s.Runs Phase.ongoing
  returned : s.returned → s.running = none

variable {b : Build} {s : RecyState}

theorem runs_none {phases : Phase → Bool} (idle : s.running = none) : ¬s.Runs phases := by
  rw [Runs, idle]
  exact Bool.false_ne_true

theorem runs_some {phases : Phase → Bool} {p : Phase} (running : s.running = some p) :
    s.Runs phases ↔ phases p = true := by
  rw [Runs, running]
  rfl

theorem Runs.imp {phases phases' : Phase → Bool} (runs : s.Runs phases)
    (implies : ∀ p, phases p = true → phases' p = true) : s.Runs phases' := by
  cases running : s.running with
  | none => exact absurd runs (runs_none running)
  | some p => exact (runs_some running).mpr (implies p ((runs_some running).mp runs))

theorem recovery_of_clearsReason (p : Phase) (clears : p.clearsReason = true) :
    p.recovery = true := by
  cases p
  all_goals first | rfl | cases clears

theorem recovery_of_clearsLatch (p : Phase) (clears : p.clearsLatch = true) :
    p.recovery = true := by
  cases p
  all_goals first | rfl | cases clears

/-- Without a recovery, the next tick finds what is outstanding. -/
theorem Sound.detects (sound : s.Sound b) (outstanding : s.Outstanding b) (unqueued : ¬s.Queued)
    (idle : ¬s.Runs Phase.recovery) : s.detects b = true := by
  have reason : s.reason = none := by
    by_contra set
    exact (sound.reasoned set).elim unqueued fun runs => idle (runs.imp recovery_of_clearsReason)
  have latch : s.busResetOngoing = false := by
    by_contra set
    exact (sound.latched (eq_true_of_ne_false set)).elim unqueued fun runs =>
      idle (runs.imp recovery_of_clearsLatch)
  rw [RecyState.detects, decide_eq_true reason, Bool.true_and, Bool.or_eq_true, busLost, latch]
  rcases outstanding with crashed | ⟨bus, busErr⟩ | ⟨enabled, requested⟩
  · exact .inl (by simp [firmwareLost, crashed])
  · exact .inr (by simp [bus, busErr])
  · exact .inl (by simp [firmwareLost, enabled, requested])

theorem Sound.armed (sound : s.Sound b) : s.Armed b where
  answered := by
    intro outstanding
    by_cases queued : s.Queued
    · exact .inl queued
    by_cases running : s.Runs Phase.recovery
    · exact .inr (.inl running)
    exact .inr (.inr (sound.detects outstanding queued running))
  reasoned := sound.reasoned
  latched := sound.latched
  returned := by
    intro returned
    have idle := sound.returned returned
    refine ⟨?_, ?_⟩
    · by_contra set
      exact runs_none idle (sound.ongoing (eq_true_of_ne_false set))
    · rintro (reason | latch)
      · exact (sound.reasoned reason).resolve_right (runs_none idle)
      · exact (sound.latched latch).resolve_right (runs_none idle)

/-! ## Steps -/

theorem Queued.amlWqDo (queued : s.Queued) (w : Work) (allocated : Bool) :
    (s.amlWqDo w allocated).Queued := by
  obtain ⟨reason, member⟩ := queued
  rw [RecyState.amlWqDo]
  split_ifs
  · exact ⟨reason, List.mem_append_left _ member⟩
  · exact ⟨reason, member⟩

theorem queued_amlWqDo (s : RecyState) (reason : Option RecyReason) :
    (s.amlWqDo (.recyDoit reason) true).Queued :=
  ⟨reason, List.mem_append_right _ List.mem_cons_self⟩

/-- More work changes none of the latches. -/
theorem Sound.amlWqDo (sound : s.Sound b) (w : Work) (allocated : Bool) :
    (s.amlWqDo w allocated).Sound b := by
  have kept : s.Queued → (s.amlWqDo w allocated).Queued := fun queued => queued.amlWqDo w allocated
  cases allocated with
  | false => exact sound
  | true =>
      exact ⟨fun set => (sound.reasoned set).imp_left kept,
        fun set => (sound.latched set).imp_left kept, sound.erred, sound.pcie, sound.ongoing,
        sound.returned⟩

/-- The sound states without the mark of a return. -/
theorem Sound.unmark (sound : s.Sound b) : RecyState.Sound b { s with returned := false } :=
  ⟨sound.reasoned, sound.latched, sound.erred, sound.pcie, sound.ongoing,
    fun marked => absurd marked Bool.false_ne_true⟩

theorem Sound.usbCheck (sound : s.Sound b) (usbDefault : Bool) :
    (s.usbCheck b usbDefault).Sound b := by
  rw [RecyState.usbCheck]
  split_ifs
  · exact ⟨sound.reasoned, sound.latched, fun _ => .inl rfl, sound.pcie, sound.ongoing,
      sound.returned⟩
  all_goals exact ⟨sound.reasoned, sound.latched, sound.erred, sound.pcie, sound.ongoing,
    sound.returned⟩

/-- A detection that something is there to clear what it sets. -/
theorem Sound.amlRecyDetection (sound : s.Sound b)
    (clears : s.Queued ∨ (s.Runs Phase.clearsReason ∧
      (s.busResetOngoing ∨ s.busLost b → s.Runs Phase.clearsLatch))) :
    (s.amlRecyDetection b).Sound b := by
  rw [RecyState.amlRecyDetection]
  by_cases reason : s.reason ≠ none
  · rw [if_pos reason]
    exact sound
  · rw [if_neg reason]
    refine ⟨fun _ => clears.imp_right And.left, fun latch => ?_, fun latch => ?_, fun pcie => ?_,
      sound.ongoing, sound.returned⟩
    · exact clears.imp_right fun runs => runs.2 (Bool.or_eq_true _ _ ▸ latch)
    · rcases (Bool.or_eq_true _ _).mp latch with latch | lost
      · exact sound.erred latch
      · rw [busLost, Bool.and_eq_true] at lost
        exact .inl lost.2
    · obtain ⟨unlatched, calm⟩ := sound.pcie pcie
      refine ⟨?_, calm⟩
      change (s.busResetOngoing || s.busLost b) = false
      rw [unlatched, busLost, pcie]
      rfl

/-- A detection that finds nothing sets nothing. -/
theorem amlRecyDetection_of_not (finds : s.detects b = false) : s.amlRecyDetection b = s := by
  by_cases reason : s.reason ≠ none
  · rw [RecyState.amlRecyDetection, if_pos reason]
  · rw [RecyState.amlRecyDetection, if_neg reason]
    rw [ne_eq, not_not] at reason
    rw [detects, decide_eq_true reason, Bool.true_and, Bool.or_eq_false_iff] at finds
    obtain ⟨firmware, bus⟩ := finds
    have crashed : s.crashed = false := by
      rw [firmwareLost, Bool.or_eq_false_iff] at firmware
      exact firmware.1
    have none : (if s.busLost b then some RecyReason.busErr else if s.crashed then some .cmdCrash
        else if s.firmwareLost then some .fwLinkloss else none) = s.reason := by
      rw [bus, crashed, firmware, reason]
      rfl
    rw [none, bus, Bool.or_false]

theorem amlWqDo_amlRecyDetection (w : Work) :
    (s.amlRecyDetection b).amlWqDo w true = (s.amlWqDo w true).amlRecyDetection b := by
  by_cases reason : s.reason = none
  · have set : (s.amlWqDo w true).reason = none := reason
    rw [RecyState.amlRecyDetection, if_neg (not_not.mpr reason), RecyState.amlRecyDetection,
      if_neg (not_not.mpr set)]
    rfl
  · have set : (s.amlWqDo w true).reason ≠ none := reason
    rw [RecyState.amlRecyDetection, if_pos reason, RecyState.amlRecyDetection, if_pos set]

/-- The first part of the timer leaves the work and the latches alone. -/
theorem usbCheck_frame (b : Build) (s : RecyState) (usbDefault : Bool) :
    (s.usbCheck b usbDefault).workList = s.workList ∧
      (s.usbCheck b usbDefault).running = s.running ∧
      (s.usbCheck b usbDefault).busResetOngoing = s.busResetOngoing := by
  rw [RecyState.usbCheck]
  split_ifs
  all_goals exact ⟨rfl, rfl, rfl⟩

theorem usbCheck_unmark (b : Build) (s : RecyState) (usbDefault : Bool) :
    RecyState.usbCheck b { s with returned := false } usbDefault =
      { s.usbCheck b usbDefault with returned := false } := by
  rw [RecyState.usbCheck, RecyState.usbCheck]
  split_ifs
  all_goals rfl

theorem clears_unmark (b : Build) (s : RecyState) (event : Event) :
    RecyState.Clears b { s with returned := false } event ↔ s.Clears b event := by
  cases event with
  | tick usbDefault allocated =>
      rw [Clears, usbCheck_unmark]
      exact Iff.rfl
  | _ => exact Iff.rfl

/-- A detection that finds something sets the reason. -/
theorem reason_amlRecyDetection (finds : s.detects b = true) :
    (s.amlRecyDetection b).reason ≠ none := by
  rw [detects, Bool.and_eq_true, decide_eq_true_eq, Bool.or_eq_true] at finds
  obtain ⟨reason, lost⟩ := finds
  rw [RecyState.amlRecyDetection, if_neg (not_not.mpr reason)]
  dsimp only
  split_ifs with bus crashed firmware
  · exact Option.some_ne_none _
  · exact Option.some_ne_none _
  · exact Option.some_ne_none _
  · exact absurd lost (not_or.mpr ⟨firmware, bus⟩)

theorem amlRecyDetection_frame (b : Build) (s : RecyState) :
    (s.amlRecyDetection b).workList = s.workList ∧ (s.amlRecyDetection b).running = s.running := by
  rw [RecyState.amlRecyDetection]
  split_ifs
  all_goals exact ⟨rfl, rfl⟩

theorem latch_amlRecyDetection (finds : s.detects b = true)
    (set : s.busResetOngoing ∨ s.busLost b) : (s.amlRecyDetection b).busResetOngoing = true := by
  rw [detects, Bool.and_eq_true, decide_eq_true_eq] at finds
  rw [RecyState.amlRecyDetection, if_neg (not_not.mpr finds.1)]
  exact (Bool.or_eq_true _ _).mpr set

theorem Sound.tick (sound : s.Sound b) {usbDefault allocated : Bool}
    (clears : s.Clears b (.tick usbDefault allocated)) :
    (s.amlRecyTimerCb b usbDefault allocated).Sound b := by
  have checked := sound.usbCheck usbDefault
  obtain ⟨list, running, latch⟩ := usbCheck_frame b s usbDefault
  rw [amlRecyTimerCb]
  cases finds : (s.usbCheck b usbDefault).detects b with
  | false =>
      rw [if_neg Bool.false_ne_true, amlRecyDetection_of_not finds]
      exact checked
  | true =>
      rw [if_pos rfl]
      cases allocated with
      | true =>
          rw [amlWqDo_amlRecyDetection]
          exact (checked.amlWqDo _ true).amlRecyDetection (.inl (queued_amlWqDo _ none))
      | false =>
          refine checked.amlRecyDetection ?_
          rw [Queued, list, Runs, Runs, running, latch]
          exact (clears finds).resolve_left Bool.false_ne_true

/-- A recovery taken off the list runs. -/
theorem queued_takeWork {w : Work} {rest : List Work} (list : s.workList = w :: rest)
    (queued : s.Queued) :
    (s.takeWork w rest).Queued ∨ (s.takeWork w rest).running = some .check := by
  obtain ⟨reason, member⟩ := queued
  rw [list] at member
  cases w with
  | other => exact .inl ⟨reason, (List.mem_cons.mp member).resolve_left (by intro eq; cases eq)⟩
  | recyDoit _ => exact .inr rfl

/-- The invariant in a phase. -/
structure SoundIn (b : Build) (s : RecyState) (p : Phase) : Prop where
  reasoned : s.reason ≠ none → s.Queued ∨ p.clearsReason = true
  latched : s.busResetOngoing → s.Queued ∨ p.clearsLatch = true
  erred : s.busResetOngoing → s.busErr ∨ p.resettingBus = true
  pcie : b.busType = .pcie → s.busResetOngoing = false ∧ p.resettingBus = false
  ongoing : s.stateOngoing → p.ongoing = true

theorem Sound.inPhase (sound : s.Sound b) {p : Phase} (running : s.running = some p) :
    s.SoundIn b p where
  reasoned := fun set => (sound.reasoned set).imp_right (runs_some running).mp
  latched := fun set => (sound.latched set).imp_right (runs_some running).mp
  erred := fun set => (sound.erred set).imp_right (runs_some running).mp
  pcie := fun pcie => (sound.pcie pcie).imp_right fun calm =>
    eq_false_of_ne_true fun resetting => calm ((runs_some running).mpr resetting)
  ongoing := fun set => (runs_some running).mp (sound.ongoing set)

theorem SoundIn.sound {p : Phase} (facts : s.SoundIn b p) (running : s.running = some p)
    (unmarked : s.returned = false) : s.Sound b where
  reasoned := fun set => (facts.reasoned set).imp_right (runs_some running).mpr
  latched := fun set => (facts.latched set).imp_right (runs_some running).mpr
  erred := fun set => (facts.erred set).imp_right (runs_some running).mpr
  pcie := fun pcie => (facts.pcie pcie).imp_right fun calm resetting =>
    Bool.false_ne_true (calm.symm.trans ((runs_some running).mp resetting))
  ongoing := fun set => (runs_some running).mpr (facts.ongoing set)
  returned := fun marked => absurd (unmarked.symm.trans marked) Bool.false_ne_true

/-- The invariant while the worker is idle. -/
theorem sound_idle (idle : s.running = none) (reasoned : s.reason ≠ none → s.Queued)
    (latched : s.busResetOngoing → s.Queued ∧ s.busErr)
    (pcie : b.busType = .pcie → s.busResetOngoing = false) (ongoing : s.stateOngoing = false) :
    s.Sound b where
  reasoned := fun set => .inl (reasoned set)
  latched := fun set => .inl (latched set).1
  erred := fun set => .inl (latched set).2
  pcie := fun bus => ⟨pcie bus, runs_none idle⟩
  ongoing := fun set => absurd (ongoing.symm.trans set) Bool.false_ne_true
  returned := fun _ => idle

theorem Sound.takeWork (sound : s.Sound b) {w : Work} {rest : List Work} (idle : s.running = none)
    (list : s.workList = w :: rest) (unmarked : s.returned = false) :
    (s.takeWork w rest).Sound b := by
  have latched : s.busResetOngoing → s.Queued ∧ s.busErr := fun set =>
    ⟨(sound.latched set).resolve_right (runs_none idle),
      (sound.erred set).resolve_right (runs_none idle)⟩
  have still : s.stateOngoing = false := by
    by_contra set
    exact runs_none idle (sound.ongoing (eq_true_of_ne_false set))
  cases w with
  | other =>
      have kept : s.Queued → (s.takeWork .other rest).Queued := fun queued =>
        (queued_takeWork list queued).resolve_right (by simp [RecyState.takeWork])
      refine SoundIn.sound (p := .other)
        ⟨fun set => ?_, fun set => ?_, fun set => ?_, fun bus => ?_, fun set => ?_⟩ rfl unmarked
      · exact .inl (kept ((sound.reasoned set).resolve_right (runs_none idle)))
      · exact .inl (kept (latched set).1)
      · exact .inl (latched set).2
      · exact ⟨(sound.pcie bus).1, rfl⟩
      · exact absurd (still.symm.trans set) Bool.false_ne_true
  | recyDoit reason =>
      refine SoundIn.sound (p := .check) ⟨fun _ => .inr rfl, fun _ => .inr rfl, fun set => ?_,
        fun bus => ?_, fun set => ?_⟩ rfl unmarked
      · exact .inl (latched set).2
      · exact ⟨(sound.pcie bus).1, rfl⟩
      · exact absurd (still.symm.trans set) Bool.false_ne_true

/-- A recovery that goes on in another phase that clears the latches as well. -/
theorem SoundIn.goOn {p q : Phase} (facts : s.SoundIn b p) (unmarked : s.returned = false)
    (reasons : q.clearsReason = true) (latches : q.clearsLatch = true)
      (calm : p.resettingBus = false)
    (quiet : q.resettingBus = false) (ongoing : q.ongoing = true) : (s.goOn q).Sound b := by
  refine SoundIn.sound (p := q) ⟨fun _ => .inr reasons, fun _ => .inr latches, fun set => ?_,
    fun bus => ⟨(facts.pcie bus).1, quiet⟩, fun _ => ongoing⟩ rfl unmarked
  exact .inl ((facts.erred set).resolve_right (by rw [calm]; exact Bool.false_ne_true))

/-- Behind the label `out`. -/
theorem SoundIn.out {p : Phase} (facts : s.SoundIn b p) (unmarked : s.returned = false)
    (calm : p.resettingBus = false) (latched : s.busResetOngoing → s.Queued) : s.out.Sound b := by
  refine SoundIn.sound (p := .leave) ⟨fun set => absurd rfl set, fun set => .inl (latched set),
    fun set => ?_, fun bus => ⟨(facts.pcie bus).1, rfl⟩, fun _ => rfl⟩ rfl unmarked
  exact .inl ((facts.erred set).resolve_right (by rw [calm]; exact Bool.false_ne_true))

theorem SoundIn.reinit {p : Phase} (facts : s.SoundIn b p) (reinit : Bool) :
    (s.reinit reinit).SoundIn b p :=
  ⟨facts.reasoned, facts.latched, facts.erred, facts.pcie, facts.ongoing⟩

/-- The firmware runs again. -/
theorem SoundIn.started {p : Phase} (facts : s.SoundIn b p) (unmarked : s.returned = false)
    (calm : p.resettingBus = false) (latched : s.busResetOngoing → s.Queued) :
    (s.goOn .vifRestart).Sound b := by
  refine SoundIn.sound (p := .vifRestart) ⟨fun _ => .inr rfl, fun set => .inl (latched set),
    fun set => ?_, fun bus => ⟨(facts.pcie bus).1, rfl⟩, fun _ => rfl⟩ rfl unmarked
  exact .inl ((facts.erred set).resolve_right (by rw [calm]; exact Bool.false_ne_true))

/-- The bus has been reset. -/
theorem sound_reset (unmarked : s.returned = false) (tryCnt : Nat) (busErr : Bool) :
    RecyState.Sound b
      { s.goOn (.starting tryCnt) with busResetOngoing := false, busErr := busErr } :=
  SoundIn.sound (p := .starting tryCnt)
    ⟨fun _ => .inr rfl, fun set => absurd set Bool.false_ne_true,
      fun set => absurd set Bool.false_ne_true, fun _ => ⟨rfl, rfl⟩, fun _ => rfl⟩ rfl unmarked

/-- Every step of a recovery keeps the invariant, but for a failed vif reset. -/
theorem SoundIn.phaseStep {p : Phase} (facts : s.SoundIn b p) (unmarked : s.returned = false)
    {ok reinit : Bool} (clears : p = .vifReset → ok = false → s.busResetOngoing → s.Queued)
    {next : RecyState} (stepped : s.phaseStep b ok reinit p = .ok next) : next.Sound b := by
  have still : p.ongoing = false → s.stateOngoing = false := fun quiet => by
    by_contra set
    exact Bool.false_ne_true (quiet.symm.trans (facts.ongoing (eq_true_of_ne_false set)))
  have only {c : Phase → Bool} {set : Prop} (none : c p = false)
      (clear : set → s.Queued ∨ c p = true) : set → s.Queued := fun here =>
    (clear here).resolve_right fun here => Bool.false_ne_true (none.symm.trans here)
  cases p with
  | other =>
      cases stepped
      refine sound_idle rfl (only rfl facts.reasoned) (fun set => ⟨only rfl facts.latched set, ?_⟩)
        (fun bus => (facts.pcie bus).1) (still rfl)
      exact (facts.erred set).resolve_right Bool.false_ne_true
  | check =>
      rw [RecyState.phaseStep] at stepped
      split_ifs at stepped
      · cases stepped
        refine SoundIn.sound (p := .delayed) ⟨fun set => absurd rfl set, fun _ => .inr rfl,
          facts.erred, facts.pcie, fun set => ?_⟩ rfl unmarked
        exact absurd ((still rfl).symm.trans set) Bool.false_ne_true
      · cases stepped
        exact SoundIn.sound (p := .vifReset) ⟨fun _ => .inr rfl, fun _ => .inr rfl, facts.erred,
          facts.pcie, fun _ => rfl⟩ rfl unmarked
  | delayed =>
      cases stepped
      have cleared : (s.busResetOngoing && !(b.busType ≠ .pcie && s.busErr)) = false := by
        by_cases bus : b.busType = .pcie
        · rw [(facts.pcie bus).1, Bool.false_and]
        · cases latch : s.busResetOngoing with
          | false => rfl
          | true =>
              have busErr := (facts.erred latch).resolve_right Bool.false_ne_true
              simp [bus, busErr]
      refine sound_idle rfl (only rfl facts.reasoned) (fun set => ?_) (fun _ => cleared) (still rfl)
      exact absurd (cleared.symm.trans set) Bool.false_ne_true
  | vifReset =>
      rw [RecyState.phaseStep] at stepped
      split_ifs at stepped with done
      · cases stepped
        exact facts.goOn unmarked rfl rfl rfl rfl rfl
      · cases stepped
        exact facts.out unmarked rfl (clears rfl (eq_false_of_ne_true done))
  | reload tryCnt =>
      have facts' := facts.reinit reinit
      rw [RecyState.phaseStep] at stepped
      split at stepped
      · rename_i bus
        have unlatched : s.busResetOngoing → s.Queued := fun set =>
          absurd ((facts.pcie bus).1.symm.trans set) Bool.false_ne_true
        split_ifs at stepped
        · cases stepped
          exact facts'.started unmarked rfl unlatched
        · cases stepped
          exact facts'.out unmarked rfl unlatched
      · rename_i bus
        cases stepped
        refine SoundIn.sound (p := .resetting tryCnt) ⟨fun _ => .inr rfl, fun _ => .inr rfl,
          fun _ => .inr rfl, fun pcie => ?_, fun _ => rfl⟩ rfl unmarked
        exact absurd (bus.symm.trans pcie) BusType.noConfusion
      · rename_i bus
        cases stepped
        refine SoundIn.sound (p := .resetting tryCnt) ⟨fun _ => .inr rfl, fun _ => .inr rfl,
          fun _ => .inr rfl, fun pcie => ?_, fun _ => rfl⟩ rfl unmarked
        exact absurd (bus.symm.trans pcie) BusType.noConfusion
  | resetting tryCnt =>
      rw [RecyState.phaseStep] at stepped
      split at stepped
      · split_ifs at stepped
        · cases stepped
          exact sound_reset unmarked tryCnt false
        · cases stepped
          exact sound_reset unmarked tryCnt s.busErr
      · cases stepped
        exact sound_reset unmarked tryCnt (!ok)
  | starting tryCnt =>
      have unlatched : s.busResetOngoing → s.Queued := only rfl facts.latched
      rw [RecyState.phaseStep] at stepped
      split_ifs at stepped
      · cases stepped
        exact (facts.reinit reinit).started unmarked rfl unlatched
      · cases stepped
        exact (facts.reinit reinit).goOn unmarked rfl rfl rfl rfl rfl
      · cases stepped
        exact (facts.reinit reinit).out unmarked rfl unlatched
  | vifRestart =>
      cases stepped
      exact facts.out unmarked rfl (only rfl facts.latched)
  | leave =>
      cases stepped
      refine sound_idle rfl (only rfl facts.reasoned) (fun set => ⟨only rfl facts.latched set, ?_⟩)
        (fun bus => (facts.pcie bus).1) rfl
      exact (facts.erred set).resolve_right Bool.false_ne_true

theorem Sound.worker (sound : s.Sound b) (unmarked : s.returned = false) {ok reinit : Bool}
    (clears : s.Clears b (.worker ok reinit)) {next : RecyState}
    (stepped : s.worker b ok reinit = .ok next) : next.Sound b := by
  rw [RecyState.worker] at stepped
  cases running : s.running with
  | some p =>
      rw [running] at stepped
      exact (sound.inPhase running).phaseStep unmarked
        (fun reset => clears (running.trans (congrArg some reset))) stepped
  | none =>
      rw [running] at stepped
      cases list : s.workList with
      | nil =>
          rw [list] at stepped
          cases stepped
          exact sound
      | cons w rest =>
          rw [list] at stepped
          cases stepped
          exact sound.takeWork running list unmarked

theorem Sound.step (sound : s.Sound b) {event : Event} (clears : s.Clears b event)
    {next : RecyState} (stepped : s.step b event = .ok next) : next.Sound b := by
  have facts := sound.unmark
  cases event with
  | tick usbDefault allocated =>
      cases stepped
      exact facts.tick ((clears_unmark b s _).mpr clears)
  | crash =>
      cases stepped
      exact ⟨facts.reasoned, facts.latched, facts.erred, facts.pcie, facts.ongoing, facts.returned⟩
  | busError =>
      cases stepped
      exact ⟨facts.reasoned, facts.latched, fun _ => .inl rfl, facts.pcie, facts.ongoing,
        facts.returned⟩
  | linkLoss =>
      cases stepped
      exact ⟨facts.reasoned, facts.latched, facts.erred, facts.pcie, facts.ongoing, facts.returned⟩
  | txTimeout allocated =>
      cases stepped
      exact facts.amlWqDo _ _
  | recyCtrl allocated =>
      cases stepped
      exact facts.amlWqDo _ _
  | otherWork allocated =>
      cases stepped
      exact facts.amlWqDo _ _
  | flags stopAp openVif closeVif =>
      cases stepped
      exact ⟨facts.reasoned, facts.latched, facts.erred, facts.pcie, facts.ongoing, facts.returned⟩
  | worker ok reinit => exact facts.worker rfl clears stepped

/-- A step outside the condition leaves a latch set that nothing due clears. -/
theorem disarmed {event : Event} (keeps : ¬s.Clears b event) :
    ∃ next, s.step b event = .ok next ∧ ¬next.Armed b := by
  cases event with
  | tick usbDefault allocated =>
      refine ⟨_, rfl, fun armed => keeps ?_⟩
      rw [← clears_unmark]
      generalize ({ s with returned := false } : RecyState) = u at armed ⊢
      obtain ⟨list, running, latch⟩ := usbCheck_frame b u usbDefault
      obtain ⟨list', running'⟩ := amlRecyDetection_frame b (u.usbCheck b usbDefault)
      intro finds
      rw [amlRecyTimerCb, if_pos finds] at armed
      cases allocated with
      | true => exact .inl rfl
      | false =>
          change RecyState.Armed b ((u.usbCheck b usbDefault).amlRecyDetection b) at armed
          refine .inr (or_iff_not_imp_left.mpr fun unqueued => ?_)
          have none : ¬((u.usbCheck b usbDefault).amlRecyDetection b).Queued := by
            rwa [Queued, list', list]
          have reasoned := (armed.reasoned (reason_amlRecyDetection finds)).resolve_left none
          rw [Runs, running', running] at reasoned
          refine ⟨reasoned, fun set => ?_⟩
          rw [← latch] at set
          have latched := (armed.latched (latch_amlRecyDetection finds set)).resolve_left none
          rwa [Runs, running', running] at latched
  | worker ok reinit =>
      rw [Clears, Classical.not_imp, Classical.not_imp, Classical.not_imp] at keeps
      obtain ⟨running, failed, latch, unqueued⟩ := keeps
      refine ⟨RecyState.out { s with returned := false }, ?_, fun armed => unqueued ?_⟩
      · rw [RecyState.step, RecyState.worker, running, failed]
        rfl
      · exact (armed.latched latch).resolve_right Bool.false_ne_true
  | crash => exact absurd trivial keeps
  | busError => exact absurd trivial keeps
  | linkLoss => exact absurd trivial keeps
  | txTimeout allocated => exact absurd trivial keeps
  | recyCtrl allocated => exact absurd trivial keeps
  | otherWork allocated => exact absurd trivial keeps
  | flags stopAp openVif closeVif => exact absurd trivial keeps

theorem sound_init (b : Build) : ({} : RecyState).Sound b :=
  sound_idle rfl (fun set => absurd rfl set) (fun set => absurd set Bool.false_ne_true)
    (fun _ => rfl)
    rfl

/-- Recovery is always armed exactly in the runs whose steps leave no latch set. -/
theorem armed_iff_clears (b : Build) (events : List Event) :
    Run.Throughout (RecyState.step b) (RecyState.Armed b) events {} ↔
      Run.Guarded (RecyState.step b) (RecyState.Clears b) events {} :=
  Run.throughout_iff_guarded (fun _ _ _ sound _ clears stepped => sound.step clears stepped)
    (fun _ sound => sound.armed) (fun _ _ _ _ keeps => disarmed keeps)
    (fun _ _ => trivial) (sound_init b)

/-- A crash is found by a tick that cannot allocate the work item: no later tick looks for it. -/
theorem crash_unanswered :
    ¬Run.Throughout (RecyState.step ⟨.sdio, false⟩) (RecyState.Armed ⟨.sdio, false⟩)
      [.crash, .tick false false] {} := by
  intro all
  have armed := all [.crash, .tick false false] [] _ rfl rfl
  rcases armed.answered (.inl rfl) with ⟨reason, member⟩ | runs | finds
  · exact absurd member List.not_mem_nil
  · exact Bool.false_ne_true runs
  · exact Bool.false_ne_true finds

end RecyState

end AmlW2.Rearm
