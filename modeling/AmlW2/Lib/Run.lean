import Mathlib.Order.Basic

/-!
# Runs of a partial transition function

A system is a step function that may fault.  This file defines its finite runs, the runs whose
steps all meet a guard, and the two induction rules every safety argument uses: a guarded run from
an invariant state completes and keeps the invariant, and a completed run keeps whatever each
completed step keeps.
-/

namespace AmlW2.Run

variable {σ ε φ : Type*} {step : σ → ε → Except φ σ}

/-- Execute a list of events in order, stopping at the first fault. -/
def run (step : σ → ε → Except φ σ) : List ε → σ → Except φ σ
  | [], state => .ok state
  | event :: events, state =>
      match step state event with
      | .ok next => run step events next
      | .error fault => .error fault

/-- Every step of the run meets the guard in the state in which it is taken. -/
def Guarded (step : σ → ε → Except φ σ) (guard : σ → ε → Prop) : List ε → σ → Prop
  | [], _ => True
  | event :: events, state =>
      guard state event ∧ ∀ next, step state event = .ok next → Guarded step guard events next

/-- A mapped result comes from a result. -/
theorem map_eq_ok {α β : Type*} {f : α → β} {x : Except φ α} {b : β} (ran : x.map f = .ok b) :
    ∃ a, x = .ok a ∧ f a = b := by
  cases x with
  | error fault => cases ran
  | ok a =>
      cases ran
      exact ⟨a, rfl, rfl⟩

/-- What is read of the end of a run that completes is read of that end. -/
theorem ends_of_toOption {α β : Type*} {f : α → β} {x : Except φ α} {b : β}
    (read : x.toOption.map f = some b) : ∃ a, x = .ok a ∧ f a = b := by
  cases x with
  | error fault => cases read
  | ok a =>
      cases read
      exact ⟨a, rfl, rfl⟩

/-- What holds of every result holds of the one there is. -/
theorem forall_ok_iff {α : Type*} {x : Except φ α} {a : α} {P : α → Prop} (result : x = .ok a) :
    (∀ b, x = .ok b → P b) ↔ P a := by
  refine ⟨fun all => all a result, fun one b result' => ?_⟩
  obtain rfl : a = b := Except.ok.inj (result.symm.trans result')
  exact one

theorem run_cons_ok {state next : σ} {event : ε} (events : List ε)
    (stepped : step state event = .ok next) :
    run step (event :: events) state = run step events next := by
  simp only [run, stepped]

theorem run_cons_eq_ok {state final : σ} {event : ε} {events : List ε}
    (ran : run step (event :: events) state = .ok final) :
    ∃ next, step state event = .ok next ∧ run step events next = .ok final := by
  simp only [run] at ran
  split at ran
  · rename_i next stepped
    exact ⟨next, stepped, ran⟩
  · cases ran

theorem run_append (front back : List ε) {state middle : σ}
    (ran : run step front state = .ok middle) :
    run step (front ++ back) state = run step back middle := by
  induction front generalizing state with
  | nil =>
      cases ran
      rfl
  | cons event events induction =>
      obtain ⟨next, stepped, rest⟩ := run_cons_eq_ok ran
      rw [List.cons_append, run_cons_ok _ stepped]
      exact induction rest

theorem Guarded.of_append {guard : σ → ε → Prop} {front back : List ε} {state : σ}
    (guarded : Guarded step guard (front ++ back) state) : Guarded step guard front state := by
  induction front generalizing state with
  | nil => trivial
  | cons event events induction =>
      exact ⟨guarded.1, fun next stepped => induction (guarded.2 next stepped)⟩

theorem Guarded.at_split {guard : σ → ε → Prop} {front back : List ε} {event : ε}
    {state middle : σ} (guarded : Guarded step guard (front ++ event :: back) state)
    (ran : run step front state = .ok middle) : guard middle event := by
  induction front generalizing state with
  | nil =>
      cases ran
      exact guarded.1
  | cons first events induction =>
      obtain ⟨next, stepped, rest⟩ := run_cons_eq_ok ran
      exact induction (guarded.2 next stepped) rest

theorem guarded_append {guard : σ → ε → Prop} {front back : List ε} {state middle : σ}
    (ran : run step front state = .ok middle) :
    Guarded step guard (front ++ back) state ↔
      Guarded step guard front state ∧ Guarded step guard back middle := by
  induction front generalizing state with
  | nil =>
      cases ran
      exact ⟨fun guarded => ⟨trivial, guarded⟩, fun both => both.2⟩
  | cons event events induction =>
      obtain ⟨next, stepped, rest⟩ := run_cons_eq_ok ran
      rw [List.cons_append, Guarded, Guarded, forall_ok_iff stepped, forall_ok_iff stepped,
        induction rest, and_assoc]

theorem Guarded.and {guard guard' : σ → ε → Prop} {events : List ε} {state : σ}
    (first : Guarded step guard events state) (second : Guarded step guard' events state) :
    Guarded step (fun state event => guard state event ∧ guard' state event) events state := by
  induction events generalizing state with
  | nil => trivial
  | cons event events induction =>
      exact ⟨⟨first.1, second.1⟩, fun next stepped =>
        induction (first.2 next stepped) (second.2 next stepped)⟩

/-- A run is guarded as soon as the guard holds at each event after every completed front. -/
theorem guarded_of_forall_split {guard : σ → ε → Prop} {events : List ε} {state : σ}
    (meets : ∀ front event back middle, events = front ++ event :: back →
      run step front state = .ok middle → guard middle event) :
    Guarded step guard events state := by
  induction events generalizing state with
  | nil => trivial
  | cons event events induction =>
      refine ⟨meets [] event events state rfl rfl, fun next stepped => induction ?_⟩
      intro front later back middle split ran
      apply meets (event :: front) later back middle
      · rw [split, List.cons_append]
      · rw [run_cons_ok _ stepped, ran]

/-- A guarded run from an invariant state completes, in an invariant state. -/
theorem run_of_invariant {guard : σ → ε → Prop} {invariant : σ → Prop}
    (preserved : ∀ state event, invariant state → guard state event →
      ∃ next, step state event = .ok next ∧ invariant next)
    {events : List ε} {state : σ} (guarded : Guarded step guard events state)
    (initial : invariant state) :
    ∃ final, run step events state = .ok final ∧ invariant final := by
  induction events generalizing state with
  | nil => exact ⟨state, rfl, initial⟩
  | cons event events induction =>
      obtain ⟨next, stepped, kept⟩ := preserved state event initial guarded.1
      obtain ⟨final, ran, last⟩ := induction (guarded.2 next stepped) kept
      exact ⟨final, by rw [run_cons_ok _ stepped, ran], last⟩

/-- What every completed step preserves, every completed run preserves. -/
theorem invariant_of_run {invariant : σ → Prop}
    (preserved : ∀ state event next, invariant state → step state event = .ok next →
      invariant next)
    {events : List ε} {state final : σ} (ran : run step events state = .ok final)
    (initial : invariant state) : invariant final := by
  induction events generalizing state with
  | nil =>
      cases ran
      exact initial
  | cons event events induction =>
      obtain ⟨next, stepped, rest⟩ := run_cons_eq_ok ran
      exact induction rest (preserved state event next initial stepped)

/-- What every completed step of allowed events preserves, a completed run of them preserves. -/
theorem kept_of_run {allowed : ε → Prop} {invariant : σ → Prop}
    (preserved : ∀ state event next, invariant state → allowed event →
      step state event = .ok next → invariant next)
    {events : List ε} {state final : σ} (meets : ∀ event ∈ events, allowed event)
    (ran : run step events state = .ok final) (initial : invariant state) : invariant final := by
  induction events generalizing state with
  | nil =>
      cases ran
      exact initial
  | cons event events induction =>
      obtain ⟨next, stepped, rest⟩ := run_cons_eq_ok ran
      apply induction (fun later member => meets later (List.mem_cons_of_mem _ member)) rest
      exact preserved state event next initial (meets event List.mem_cons_self) stepped

/-- A completed guarded run keeps an invariant that also speaks of the events so far. -/
theorem history_of_run {guard : σ → ε → Prop} {invariant : List ε → σ → Prop}
    (preserved : ∀ past state event next, invariant past state → guard state event →
      step state event = .ok next → invariant (past ++ [event]) next)
    {events past : List ε} {state final : σ} (guarded : Guarded step guard events state)
    (ran : run step events state = .ok final) (initial : invariant past state) :
    invariant (past ++ events) final := by
  induction events generalizing past state with
  | nil =>
      cases ran
      rwa [List.append_nil]
  | cons event events induction =>
      obtain ⟨next, stepped, rest⟩ := run_cons_eq_ok ran
      have later := induction (guarded.2 next stepped) rest
        (preserved past state event next initial guarded.1 stepped)
      rwa [List.append_assoc] at later

/-- Guarded runs of events that stand for others. -/
theorem guarded_map {α : Type*} {guard : σ → ε → Prop} {f : α → ε} {events : List α} {state : σ}
    (guarded : Guarded (fun state event => step state (f event))
      (fun state event => guard state (f event)) events state) :
    Guarded step guard (events.map f) state := by
  induction events generalizing state with
  | nil => trivial
  | cons event events induction =>
      exact ⟨guarded.1, fun next stepped => induction (guarded.2 next stepped)⟩

/-- What every allowed step preserves holds at the end of a run of such steps. -/
theorem Guarded.invariant_of_run {guard : σ → ε → Prop} {invariant : σ → Prop}
    (preserved : ∀ state event next, invariant state → guard state event →
      step state event = .ok next → invariant next)
    {events : List ε} {state final : σ} (guarded : Guarded step guard events state)
    (ran : run step events state = .ok final) (initial : invariant state) : invariant final := by
  induction events generalizing state with
  | nil =>
      cases ran
      exact initial
  | cons event events induction =>
      obtain ⟨next, stepped, rest⟩ := run_cons_eq_ok ran
      exact induction (guarded.2 next stepped) rest
        (preserved state event next initial guarded.1 stepped)

/-- A run from an invariant state is guarded when the invariant implies the guard. -/
theorem guarded_of_invariant {guard : σ → ε → Prop} {invariant : σ → Prop}
    (preserved : ∀ state event next, invariant state → step state event = .ok next →
      invariant next)
    (meets : ∀ state event, invariant state → guard state event) (events : List ε) {state : σ}
    (initial : invariant state) : Guarded step guard events state := by
  induction events generalizing state with
  | nil => trivial
  | cons event events induction =>
      exact ⟨meets state event initial,
        fun next stepped => induction (preserved state event next initial stepped)⟩

/-- Test the steps of a run one after the other. -/
def check (step : σ → ε → Except φ σ) (test : σ → ε → Bool) : List ε → σ → Bool
  | [], _ => true
  | event :: events, state =>
      test state event &&
        match step state event with
        | .ok next => check step test events next
        | .error _ => true

/-- A run whose steps pass a sound test is guarded. -/
theorem guarded_of_check {guard : σ → ε → Prop} {test : σ → ε → Bool}
    (sound : ∀ state event, test state event = true → guard state event)
    {events : List ε} {state : σ} (passed : check step test events state = true) :
    Guarded step guard events state := by
  induction events generalizing state with
  | nil => trivial
  | cons event events induction =>
      obtain ⟨first, rest⟩ := Bool.and_eq_true_iff.mp passed
      refine ⟨sound state event first, fun next stepped => induction ?_⟩
      rwa [stepped] at rest

/-- Where the invariant and one guard imply another, a run guarded by the one is guarded by the
other. -/
theorem Guarded.imp {guard guard' : σ → ε → Prop} {invariant : σ → Prop}
    (preserved : ∀ state event next, invariant state → guard state event →
      step state event = .ok next → invariant next)
    (meets : ∀ state event, invariant state → guard state event → guard' state event)
    {events : List ε} {state : σ} (guarded : Guarded step guard events state)
    (initial : invariant state) : Guarded step guard' events state := by
  induction events generalizing state with
  | nil => trivial
  | cons event events induction =>
      exact ⟨meets state event initial guarded.1, fun next stepped =>
        induction (guarded.2 next stepped)
          (preserved state event next initial guarded.1 stepped)⟩

/-- In a completed run, guards that agree at every completed step guard the same. -/
theorem guarded_congr {guard guard' : σ → ε → Prop} {invariant : σ → Prop}
    (preserved : ∀ state event next, invariant state → step state event = .ok next →
      invariant next)
    (agree : ∀ state event next, invariant state → step state event = .ok next →
      (guard state event ↔ guard' state event))
    {events : List ε} {state final : σ} (ran : run step events state = .ok final)
    (initial : invariant state) :
    Guarded step guard events state ↔ Guarded step guard' events state := by
  induction events generalizing state with
  | nil => exact Iff.rfl
  | cons event events induction =>
      obtain ⟨next, stepped, rest⟩ := run_cons_eq_ok ran
      have later := induction rest (preserved state event next initial stepped)
      rw [Guarded, Guarded, forall_ok_iff stepped, forall_ok_iff stepped, later,
        agree state event next initial stepped]

/-- Guards that agree in the invariant states guard the same runs, when either keeps the
invariant. -/
theorem guarded_iff_of_invariant {guard guard' : σ → ε → Prop} {invariant : σ → Prop}
    (preserved : ∀ state event next, invariant state → guard state event →
      step state event = .ok next → invariant next)
    (agree : ∀ state event, invariant state → (guard' state event ↔ guard state event))
    {events : List ε} {state : σ} (initial : invariant state) :
    Guarded step guard' events state ↔ Guarded step guard events state := by
  constructor
  · intro guarded
    apply guarded.imp _ (fun state event held => (agree state event held).mp) initial
    exact fun state event next held meets =>
      preserved state event next held ((agree state event held).mp meets)
  · intro guarded
    exact guarded.imp preserved (fun state event held => (agree state event held).mpr) initial

/-- Every front of the run completes, in a good state. -/
def Safe (step : σ → ε → Except φ σ) (good : σ → Prop) (events : List ε) (state : σ) : Prop :=
  ∀ front back, events = front ++ back → ∃ next, run step front state = .ok next ∧ good next

/-- Guarded runs from an invariant state are safe. -/
theorem Guarded.safe {guard : σ → ε → Prop} {invariant good : σ → Prop}
    (preserved : ∀ state event, invariant state → guard state event →
      ∃ next, step state event = .ok next ∧ invariant next)
    (sound : ∀ state, invariant state → good state)
    {events : List ε} {state : σ} (guarded : Guarded step guard events state)
    (initial : invariant state) : Safe step good events state := by
  intro front back split
  subst split
  obtain ⟨final, ran, kept⟩ := run_of_invariant preserved guarded.of_append initial
  exact ⟨final, ran, sound final kept⟩

/-- Where a step outside the guard never ends in a good state, the safe runs are the guarded ones:
here among the runs whose steps are all allowed. -/
theorem safe_iff_guarded_within {allowed guard : σ → ε → Prop} {invariant good : σ → Prop}
    (preserved : ∀ state event, invariant state → allowed state event → guard state event →
      ∃ next, step state event = .ok next ∧ invariant next)
    (sound : ∀ state, invariant state → good state)
    (sharp : ∀ state event next, invariant state → allowed state event → ¬guard state event →
      step state event = .ok next → ¬good next)
    {events : List ε} {state : σ} (within : Guarded step allowed events state)
    (initial : invariant state) :
    Safe step good events state ↔ Guarded step guard events state := by
  constructor
  · intro safe
    induction events generalizing state with
    | nil => trivial
    | cons event events induction =>
        have meets : guard state event := by
          by_contra outside
          obtain ⟨next, ran, good_next⟩ := safe [event] events rfl
          obtain ⟨next', stepped, rest⟩ := run_cons_eq_ok ran
          cases rest
          exact sharp state event next initial within.1 outside stepped good_next
        obtain ⟨next, stepped, kept⟩ := preserved state event initial within.1 meets
        refine ⟨meets, fun next' stepped' => ?_⟩
        rw [stepped] at stepped'
        cases stepped'
        apply induction (within.2 next stepped) kept
        intro front back split
        obtain ⟨final, ran, good_final⟩ := safe (event :: front) back (by rw [split]; rfl)
        rw [run_cons_ok _ stepped] at ran
        exact ⟨final, ran, good_final⟩
  · intro guarded
    have kept : ∀ state event, invariant state → allowed state event ∧ guard state event →
        ∃ next, step state event = .ok next ∧ invariant next :=
      fun state event held both => preserved state event held both.1 both.2
    exact (within.and guarded).safe kept sound initial

/-- Where a step outside the guard never ends in a good state, the safe runs
are the guarded ones. -/
theorem safe_iff_guarded {guard : σ → ε → Prop} {invariant good : σ → Prop}
    (preserved : ∀ state event, invariant state → guard state event →
      ∃ next, step state event = .ok next ∧ invariant next)
    (sound : ∀ state, invariant state → good state)
    (sharp : ∀ state event next, invariant state → ¬guard state event →
      step state event = .ok next → ¬good next)
    {events : List ε} {state : σ} (initial : invariant state) :
    Safe step good events state ↔ Guarded step guard events state :=
  safe_iff_guarded_within (fun state event held _ => preserved state event held) sound
    (fun state event next held _ => sharp state event next held)
    (guarded_of_forall_split fun _ _ _ _ _ _ => trivial) initial

/-! ## Partial correctness -/

/-- Every state the run reaches is good. -/
def Throughout (step : σ → ε → Except φ σ) (good : σ → Prop) (events : List ε) (state : σ) : Prop :=
  ∀ front back reached, events = front ++ back → run step front state = .ok reached → good reached

variable {guard : σ → ε → Prop} {invariant good : σ → Prop} {allowed : ε → Prop}

/-- A guarded run of allowed events reaches good states only. -/
theorem Guarded.throughout
    (preserved : ∀ state event next, invariant state → allowed event → guard state event →
      step state event = .ok next → invariant next)
    (sound : ∀ state, invariant state → good state)
    {events : List ε} {state : σ} (guarded : Guarded step guard events state)
    (ordinary : ∀ event ∈ events, allowed event) (initial : invariant state) :
    Throughout step good events state := by
  intro front back reached split ran
  subst split
  have kept : invariant reached := by
    induction front generalizing state with
    | nil =>
        cases ran
        exact initial
    | cons event events induction =>
        obtain ⟨next, stepped, rest⟩ := run_cons_eq_ok ran
        have first := preserved state event next initial (ordinary event List.mem_cons_self)
          guarded.1 stepped
        exact induction first rest (guarded.2 next stepped)
          fun event member => ordinary event (List.mem_cons_of_mem _ member)
  exact sound reached kept

/-- Where a step outside the guard completes in a bad state, the runs through good states are the
guarded ones: here among the runs whose steps are all allowed. -/
theorem throughout_iff_guarded_within {allowed : σ → ε → Prop}
    (preserved : ∀ state event next, invariant state → allowed state event → guard state event →
      step state event = .ok next → invariant next)
    (sound : ∀ state, invariant state → good state)
    (sharp : ∀ state event, invariant state → allowed state event → ¬guard state event →
      ∃ next, step state event = .ok next ∧ ¬good next)
    {events : List ε} {state : σ} (within : Guarded step allowed events state)
    (initial : invariant state) :
    Throughout step good events state ↔ Guarded step guard events state := by
  constructor
  · intro fine
    induction events generalizing state with
    | nil => trivial
    | cons event events induction =>
        have meets : guard state event := by
          by_contra outside
          obtain ⟨next, stepped, bad⟩ := sharp state event initial within.1 outside
          exact bad (fine [event] events next rfl (run_cons_ok [] stepped))
        refine ⟨meets, fun next stepped => ?_⟩
        apply induction (within.2 next stepped)
          (preserved state event next initial within.1 meets stepped)
        intro front back reached split ran
        exact fine (event :: front) back reached (by rw [split]; rfl)
          (by rw [run_cons_ok _ stepped, ran])
  · intro guarded
    have kept : ∀ state event next, invariant state → True →
        allowed state event ∧ guard state event → step state event = .ok next → invariant next :=
      fun state event next held _ both => preserved state event next held both.1 both.2
    exact (within.and guarded).throughout kept sound (fun _ _ => trivial) initial

/-- Where a step outside the guard completes in a bad state, the runs through good states are the
guarded ones. -/
theorem throughout_iff_guarded
    (preserved : ∀ state event next, invariant state → allowed event → guard state event →
      step state event = .ok next → invariant next)
    (sound : ∀ state, invariant state → good state)
    (sharp : ∀ state event, invariant state → allowed event → ¬guard state event →
      ∃ next, step state event = .ok next ∧ ¬good next)
    {events : List ε} {state : σ} (ordinary : ∀ event ∈ events, allowed event)
    (initial : invariant state) :
    Throughout step good events state ↔ Guarded step guard events state := by
  refine throughout_iff_guarded_within preserved sound sharp ?_ initial
  refine guarded_of_forall_split fun front event back _ split _ => ordinary event ?_
  rw [split]
  exact List.mem_append_right front List.mem_cons_self

end AmlW2.Run
