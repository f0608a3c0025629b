import AmlW2.Lib.Run
import Mathlib.Algebra.Ring.Nat
import Mathlib.Data.List.Basic
import Mathlib.Logic.Function.Basic

/-!
# Deferred work

Calls from any context append work to a list, and one work item of an ordered workqueue takes it
from there.  A call queues the item only where it does not see it pending, which races with the
worker and with other calls.  This file shows that the work is done in the order of the list, as it
was asked for, and that none is stranded.
-/

namespace AmlW2.Cmd.WorkQueue

variable {FnNone FnPtr Fn : Type}

/-! ## Work -/

/-- What `data` holds: bytes, or the pointer that `aml_wq_do_ptr` puts there. -/
inductive Data
  | bytes (data : List UInt8)
  | pointer (ptr : Nat)
  deriving DecidableEq, Repr

/-- The functions that the worker calls. -/
inductive Callee (Fn : Type)
  /-- `aml_wq_doit_none`. -/
  | doitNone
  /-- `aml_wq_doit_ptr`. -/
  | doitPtr
  /-- The function of `aml_wq_do_data`. -/
  | given (fn : Fn)
  deriving DecidableEq, Repr

/-- A `struct aml_wq`. -/
structure Wq (FnNone FnPtr Fn : Type) where
  data : Data
  fn : Callee Fn
  fnNone : Option FnNone
  fnPtr : Option FnPtr
  deriving DecidableEq, Repr

/-- What is asked for, and what is done: a function with its argument. -/
inductive Work (FnNone FnPtr Fn : Type)
  | plain (fn : FnNone)
  | onPtr (fn : FnPtr) (ptr : Nat)
  | onData (fn : Fn) (data : List UInt8)
  deriving DecidableEq, Repr

/-- `aml_wq_do`, `aml_wq_do_ptr` and `aml_wq_do_data` up to `list_add_tail`. -/
def Work.wq : Work FnNone FnPtr Fn → Wq FnNone FnPtr Fn
  | .plain fn => ⟨.bytes [], .doitNone, some fn, none⟩
  | .onPtr fn ptr => ⟨.pointer ptr, .doitPtr, none, some fn⟩
  | .onData fn data => ⟨.bytes data, .given fn, none, none⟩

/-- What calling `fn` comes to; a function pointer that is not set is not called. -/
def Wq.work (wq : Wq FnNone FnPtr Fn) : Option (Work FnNone FnPtr Fn) :=
  match wq.fn, wq.data with
  | .doitNone, _ => wq.fnNone.map .plain
  | .doitPtr, .pointer ptr => wq.fnPtr.map fun fn => .onPtr fn ptr
  | .given fn, .bytes data => some (.onData fn data)
  | _, _ => none

theorem Work.work_wq (work : Work FnNone FnPtr Fn) : work.wq.work = some work := by
  cases work <;> rfl

/-! ## The list and the worker -/

/-- How far a call of `__aml_wq_do` has come. -/
inductive Stage
  /-- The work is in the list. -/
  | added
  /-- It has not seen the item pending. -/
  | unseen
  deriving DecidableEq, Repr

/-- How far the worker has come. -/
inductive Worker (α : Type)
  | idle
  /-- In the loop of `aml_wq_doit`, before `aml_wq_get`. -/
  | looping
  | doing (wq : α)
  deriving DecidableEq, Repr

structure Sys (FnNone FnPtr Fn : Type) where
  workList : List (Wq FnNone FnPtr Fn)
  /-- `work_pending(&aml_hw->work)`. -/
  pending : Bool
  worker : Worker (Wq FnNone FnPtr Fn)
  calls : Nat → Option Stage
  asked : List (Work FnNone FnPtr Fn)
  done : List (Work FnNone FnPtr Fn)

def Sys.init : Sys FnNone FnPtr Fn := ⟨[], false, .idle, fun _ => none, [], []⟩

inductive Event (FnNone FnPtr Fn : Type)
  /-- A call adds its work, if memory can be had. -/
  | add (call : Nat) (work : Work FnNone FnPtr Fn) (memory : Bool)
  /-- The call looks whether the item is pending. -/
  | look (call : Nat)
  /-- The call queues the item. -/
  | queue (call : Nat)
  /-- The workqueue runs the item, which is pending no longer. -/
  | start
  /-- `aml_wq_get`. -/
  | get
  /-- The function returns. -/
  | returned
  deriving DecidableEq, Repr

/-- The event does not happen in this state. -/
inductive Fault
  | idle
  deriving DecidableEq, Repr

def Sys.step (s : Sys FnNone FnPtr Fn) :
    Event FnNone FnPtr Fn → Except Fault (Sys FnNone FnPtr Fn)
  | .add call work memory =>
      match s.calls call with
      | some _ => .error .idle
      | none =>
          if memory then .ok { s with
            workList := s.workList ++ [work.wq]
            calls := Function.update s.calls call (some .added)
            asked := s.asked ++ [work] }
          else .ok s
  | .look call =>
      match s.calls call with
      | some .added => .ok { s with
          calls := Function.update s.calls call (if s.pending then none else some .unseen) }
      | _ => .error .idle
  | .queue call =>
      match s.calls call with
      | some .unseen => .ok { s with
          pending := true
          calls := Function.update s.calls call none }
      | _ => .error .idle
  | .start =>
      match s.worker, s.pending with
      | .idle, true => .ok { s with pending := false, worker := .looping }
      | _, _ => .error .idle
  | .get =>
      match s.worker, s.workList with
      | .looping, [] => .ok { s with worker := .idle }
      | .looping, wq :: workList => .ok { s with workList, worker := .doing wq }
      | _, _ => .error .idle
  | .returned =>
      match s.worker with
      | .doing wq => .ok { s with worker := .looping, done := s.done ++ wq.work.toList }
      | _ => .error .idle

abbrev Sys.run : List (Event FnNone FnPtr Fn) → Sys FnNone FnPtr Fn →
    Except Fault (Sys FnNone FnPtr Fn) := Run.run Sys.step

/-! ## In order, and none left -/

/-- The work that was taken and is not done yet. -/
def Sys.underway (s : Sys FnNone FnPtr Fn) : List (Wq FnNone FnPtr Fn) :=
  match s.worker with
  | .doing wq => [wq]
  | _ => []

/-- The work asked for is the work done, then the one under way, then the list; and for a list that
is not empty there is someone who will see to it. -/
structure Inv (s : Sys FnNone FnPtr Fn) : Prop where
  order : ∃ later : List (Work FnNone FnPtr Fn),
    s.asked = s.done ++ later ∧ s.underway ++ s.workList = later.map Work.wq
  attended : s.workList ≠ [] →
    s.pending = true ∨ s.worker ≠ .idle ∨ ∃ call, s.calls call ≠ none

theorem Inv.init : Inv (Sys.init : Sys FnNone FnPtr Fn) :=
  ⟨⟨[], rfl, rfl⟩, fun some => absurd rfl some⟩

theorem Inv.step {s next : Sys FnNone FnPtr Fn} {e : Event FnNone FnPtr Fn} (inv : Inv s)
    (stepped : s.step e = .ok next) : Inv next := by
  obtain ⟨⟨later, asked, left⟩, attended⟩ := inv
  cases e with
  | add call work memory =>
      rw [Sys.step] at stepped
      split at stepped
      · cases stepped
      · split_ifs at stepped
        · cases stepped
          refine ⟨⟨later ++ [work], ?_, ?_⟩, fun _ => .inr (.inr ⟨call, ?_⟩)⟩
          · rw [← List.append_assoc, ← asked]
          · rw [List.map_append, ← left, List.append_assoc]
            rfl
          · dsimp only
            rw [Function.update_self]
            exact Option.some_ne_none _
        · cases stepped
          exact ⟨⟨later, asked, left⟩, attended⟩
  | look call =>
      rw [Sys.step] at stepped
      split at stepped
      · cases stepped
        refine ⟨⟨later, asked, left⟩, fun _ => ?_⟩
        rcases seen : s.pending with _ | _
        · refine .inr (.inr ⟨call, ?_⟩)
          dsimp only
          rw [Function.update_self, if_neg (by simp)]
          exact Option.some_ne_none _
        · exact .inl rfl
      · cases stepped
  | queue call =>
      rw [Sys.step] at stepped
      split at stepped
      · cases stepped
        exact ⟨⟨later, asked, left⟩, fun _ => .inl rfl⟩
      · cases stepped
  | start =>
      rw [Sys.step] at stepped
      split at stepped
      · rename_i idle _
        cases stepped
        rw [Sys.underway, idle] at left
        exact ⟨⟨later, asked, left⟩, fun _ => .inr (.inl (by simp))⟩
      · cases stepped
  | get =>
      rw [Sys.step] at stepped
      split at stepped
      · rename_i looping empty
        cases stepped
        rw [Sys.underway, looping] at left
        exact ⟨⟨later, asked, left⟩, fun some => absurd empty some⟩
      · rename_i wq workList looping first
        cases stepped
        rw [Sys.underway, looping, first] at left
        exact ⟨⟨later, asked, left⟩, fun _ => .inr (.inl (by simp))⟩
      · cases stepped
  | returned =>
      rw [Sys.step] at stepped
      split at stepped
      · rename_i wq doing
        cases stepped
        rw [Sys.underway, doing] at left
        cases later with
        | nil => cases left
        | cons work later =>
            obtain ⟨rfl, rest⟩ := List.cons.inj left
            refine ⟨⟨later, ?_, rest⟩, fun _ => .inr (.inl (by simp))⟩
            dsimp only
            rw [asked, Work.work_wq, List.append_assoc]
            rfl
      · cases stepped

/-- The events of the worker for a list of `n` pieces of work. -/
def workerLoop : Nat → List (Event FnNone FnPtr Fn)
  | 0 => [.get]
  | n + 1 => .get :: .returned :: workerLoop n

theorem mem_workerLoop (n : Nat) {e : Event FnNone FnPtr Fn} (member : e ∈ workerLoop n) :
    e = .start ∨ e = .get ∨ e = .returned := by
  induction n with
  | zero => exact .inr (.inl (List.mem_singleton.mp member))
  | succ n induction =>
      rcases List.mem_cons.mp member with rfl | member
      · exact .inr (.inl rfl)
      · rcases List.mem_cons.mp member with rfl | member
        · exact .inr (.inr rfl)
        · exact induction member

/-- With nothing under way and nothing in the list, all of the work is done. -/
theorem Inv.done_of_empty {s : Sys FnNone FnPtr Fn} (inv : Inv s) (free : s.underway = [])
    (empty : s.workList = []) : s.done = s.asked := by
  obtain ⟨later, asked, left⟩ := inv.order
  rw [free, empty] at left
  obtain rfl : later = [] := List.map_eq_nil_iff.mp left.symm
  rw [asked, List.append_nil]

/-- The worker empties the list. -/
theorem Inv.loop {s : Sys FnNone FnPtr Fn} (inv : Inv s) (looping : s.worker = .looping) :
    ∃ final, Sys.run (workerLoop s.workList.length) s = .ok final ∧ final.done = s.asked := by
  generalize size : s.workList.length = n
  induction n generalizing s with
  | zero =>
      have empty := List.eq_nil_of_length_eq_zero size
      have free : s.underway = [] := by rw [Sys.underway, looping]
      refine ⟨{ s with worker := .idle }, ?_, inv.done_of_empty free empty⟩
      simp only [workerLoop, Sys.run, Run.run, Sys.step, looping, empty]
  | succ n induction =>
      obtain ⟨wq, workList, first⟩ := List.exists_cons_of_length_eq_add_one size
      have got : s.step .get = .ok { s with workList, worker := .doing wq } := by
        simp only [Sys.step, looping, first]
      have returned : Sys.step { s with workList, worker := .doing wq } .returned = .ok { s with
          workList, worker := .looping, done := s.done ++ wq.work.toList } := rfl
      obtain ⟨final, ran, done⟩ := induction ((inv.step got).step returned) rfl (by
        rw [first, List.length_cons] at size
        exact Nat.succ.inj size)
      refine ⟨final, ?_, done⟩
      rw [workerLoop, Sys.run, Run.run_cons_ok _ got, Run.run_cons_ok _ returned]
      exact ran

/-- A worker that rests, with no one to wake it, has done all of the work. -/
theorem Inv.rested {s : Sys FnNone FnPtr Fn} (inv : Inv s) (resting : s.worker = .idle)
    (unqueued : s.pending = false) (quiet : ∀ call, s.calls call = none) : s.done = s.asked := by
  have free : s.underway = [] := by rw [Sys.underway, resting]
  refine inv.done_of_empty free (by_contra fun some => ?_)
  rcases inv.attended some with pending | busy | ⟨call, going⟩
  · rw [unqueued] at pending
    cases pending
  · exact busy resting
  · exact going (quiet call)

/-- The worker goes on from one event of its own to the end of the list. -/
theorem Inv.loop_after {s next : Sys FnNone FnPtr Fn} {e : Event FnNone FnPtr Fn} (inv : Inv s)
    (own : e = .start ∨ e = .get ∨ e = .returned) (stepped : s.step e = .ok next)
    (looping : next.worker = .looping) (same : next.asked = s.asked) :
    ∃ (rest : List (Event FnNone FnPtr Fn)) (final : Sys FnNone FnPtr Fn),
      (∀ e ∈ rest, e = .start ∨ e = .get ∨ e = .returned) ∧
      Sys.run rest s = .ok final ∧ final.done = s.asked := by
  obtain ⟨final, ran, done⟩ := (inv.step stepped).loop looping
  refine ⟨e :: workerLoop next.workList.length, final, ?_, ?_, done.trans same⟩
  · intro f member
    rcases List.mem_cons.mp member with rfl | member
    · exact own
    · exact mem_workerLoop _ member
  · rw [Sys.run, Run.run_cons_ok _ stepped]
    exact ran

/-- Whatever calls race with each other and with the worker, the work is done in the order in which
it was added and as it was asked for; and as soon as no call is on its way to queue the item, the
worker will, on its own, have done all of it. -/
theorem work_done_in_order (events : List (Event FnNone FnPtr Fn)) {s : Sys FnNone FnPtr Fn}
    (ran : Sys.run events .init = .ok s) :
    s.done <+: s.asked ∧
      ((∀ call, s.calls call = none) →
        ∃ (rest : List (Event FnNone FnPtr Fn)) (final : Sys FnNone FnPtr Fn),
          (∀ e ∈ rest, e = .start ∨ e = .get ∨ e = .returned) ∧
          Sys.run rest s = .ok final ∧ final.done = s.asked) := by
  have inv : Inv s := Run.invariant_of_run
    (fun _ _ _ inv stepped => inv.step stepped) ran Inv.init
  refine ⟨inv.order.elim fun later both => ⟨later, both.1.symm⟩, fun quiet => ?_⟩
  rcases working : s.worker with _ | _ | wq
  · rcases queued : s.pending with _ | _
    · exact ⟨[], s, fun _ member => (by cases member), rfl, inv.rested working queued quiet⟩
    · have started : s.step .start = .ok { s with pending := false, worker := .looping } := by
        simp only [Sys.step, working, queued]
      exact inv.loop_after (.inl rfl) started rfl rfl
  · obtain ⟨final, ran, done⟩ := inv.loop working
    exact ⟨_, final, fun _ member => mem_workerLoop _ member, ran, done⟩
  · have returned : s.step .returned = .ok { s with
        worker := .looping, done := s.done ++ wq.work.toList } := by
      simp only [Sys.step, working]
    exact inv.loop_after (.inr (.inr rfl)) returned rfl rfl

/-- The second call does not queue the item, which is pending, and the third one comes while the
worker is about to find the list empty. -/
def racing : List (Event Unit Unit Unit) :=
  [.add 0 (.plain ()) true, .look 0, .queue 0, .add 1 (.onPtr () 7) true, .look 1, .start, .get,
   .returned, .get, .returned, .add 2 (.onData () [1, 2]) true, .look 2, .get, .returned, .get,
   .queue 2, .start, .get]

theorem work_done_in_order_racing :
    ∃ s, Sys.run racing .init = .ok s ∧ s.done = s.asked ∧ s.done <+: s.asked := by
  obtain ⟨s, ran, same⟩ := Run.ends_of_toOption
    (f := fun s : Sys Unit Unit Unit => decide (s.done = s.asked))
    (show ((Sys.run racing .init).toOption.map fun s => decide (s.done = s.asked)) = some true by
      decide +kernel)
  exact ⟨s, ran, of_decide_eq_true same, (work_done_in_order racing ran).1⟩

end AmlW2.Cmd.WorkQueue
