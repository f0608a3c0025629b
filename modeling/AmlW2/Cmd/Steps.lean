import AmlW2.Cmd.Manager
import Mathlib.Data.List.Perm.Basic

/-!
# What the command manager does to its books

Completing a command takes it off the list, and either frees it or marks it as done.  Whatever else
a step changes, it leaves the books alone, except for queueing, completing and draining.
-/

namespace AmlW2.Cmd

variable {s s' : Sys} {c d : Nat}

/-! ## Changes of one command -/

theorem Sys.modify_mem_self (s : Sys) (c : Nat) (f : AmlCmd → AmlCmd) :
    (s.modify c f).mem c = f (s.mem c) := Function.update_self c _ s.mem

theorem Sys.modify_mem_of_ne (s : Sys) (f : AmlCmd → AmlCmd) (other : d ≠ c) :
    (s.modify c f).mem d = s.mem d := Function.update_of_ne other _ s.mem

theorem Sys.go_caller_self (s : Sys) (c : Nat) (caller : Caller) :
    (s.go c caller).caller c = caller := Function.update_self c _ s.caller

theorem Sys.go_caller_of_ne (s : Sys) (caller : Caller) (other : d ≠ c) :
    (s.go c caller).caller d = s.caller d := Function.update_of_ne other _ s.caller

/-- What a change keeps of one command, it keeps of all. -/
theorem Sys.modify_same {α : Type*} (field : AmlCmd → α) {f : AmlCmd → AmlCmd}
    (kept : field (f (s.mem c)) = field (s.mem c)) (d : Nat) :
    field ((s.modify c f).mem d) = field (s.mem d) := by
  by_cases same : d = c
  · rw [same, Sys.modify_mem_self, kept]
  · rw [Sys.modify_mem_of_ne s f same]

/-! ## Completing -/

theorem cmdComplete_ok (ran : cmdComplete s c = .ok s') : c ∈ s.cmds ∧ s' = s.finish c := by
  rw [cmdComplete] at ran
  split_ifs at ran with listed
  exact ⟨listed, (Except.ok.inj ran).symm⟩

theorem cmdComplete_of_mem (listed : c ∈ s.cmds) : cmdComplete s c = .ok (s.finish c) :=
  if_pos listed

theorem cmdComplete_of_not_mem (gone : c ∉ s.cmds) : cmdComplete s c = .error .listDel :=
  if_neg gone

theorem AmlCmd.finish_eq (cmd : AmlCmd) :
    cmd.finish = { cmd with
      done := true, result := cmd.finish.result, complete := cmd.finish.complete } := by
  rw [AmlCmd.finish]
  split_ifs <;> rfl

theorem Sys.finish_mem_of_ne (s : Sys) (other : d ≠ c) : (s.finish c).mem d = s.mem d :=
  Function.update_of_ne other _ s.mem

theorem Sys.finish_mem_self (s : Sys) (c : Nat) : (s.finish c).mem c = (s.mem c).finish :=
  Function.update_self c _ s.mem

/-- A command whose push fails waits for nothing any more. -/
def Sys.giveUp (s : Sys) (c : Nat) : Sys :=
  s.modify c fun cmd => { cmd with waitAck := false, waitCfm := false }

theorem pushFailed_eq (s : Sys) (c : Nat) : pushFailed s c = cmdComplete (s.giveUp c) c := rfl

/-! ## Answers that are let through -/

/-- A handler that is let through and comes through has called `llind`. -/
theorem ackInd_ok {answered : Nat} {early : Bool} {accepted : Nat → Bool}
    (running : s.state ≠ .deinit) (host : s.hostid = some c)
    (ran : ackInd s answered early accepted = .ok s') :
    cmdMgrLlind { s with unacked := s.unacked.erase answered, hostid := none } answered c
      accepted = .ok s' := by
  simp only [ackInd, host] at ran
  rw [if_neg fun dropped => running dropped.1] at ran
  split_ifs at ran
  exact ran

/-- A handler that is let through and comes through has called `msgind`. -/
theorem msgInd_ok {answered : Nat} {early : Bool} {param : List UInt8} {cb accepted : Nat → Bool}
    (running : s.state ≠ .deinit) (ran : msgInd s answered early param cb accepted = .ok s') :
    cmdMgrMsgind { s with unconfirmed := s.unconfirmed.erase answered } answered param cb
      accepted = .ok s' := by
  simp only [msgInd] at ran
  rw [if_neg fun dropped => running dropped.1] at ran
  split_ifs at ran
  exact ran

/-! ## The books -/

/-- The books are left as they are. -/
structure SameBooks (s s' : Sys) : Prop where
  cmds : s'.cmds = s.cmds
  queueSz : s'.queueSz = s.queueSz
  maxQueueSz : s'.maxQueueSz = s.maxQueueSz
  queued : s'.queued = s.queued
  down : s'.down = s.down
  removed : s'.removed = s.removed
  completed : s'.completed = s.completed
  freed : s'.freed = s.freed
  nonblock : ∀ d, (s'.mem d).nonblock = (s.mem d).nonblock

theorem SameBooks.refl (s : Sys) : SameBooks s s :=
  ⟨rfl, rfl, rfl, rfl, rfl, rfl, rfl, rfl, fun _ => rfl⟩

theorem SameBooks.trans {s'' : Sys} (first : SameBooks s s') (second : SameBooks s' s'') :
    SameBooks s s'' :=
  ⟨second.cmds.trans first.cmds, second.queueSz.trans first.queueSz,
    second.maxQueueSz.trans first.maxQueueSz, second.queued.trans first.queued,
    second.down.trans first.down, second.removed.trans first.removed,
    second.completed.trans first.completed, second.freed.trans first.freed,
    fun d => (second.nonblock d).trans (first.nonblock d)⟩

theorem sameBooks_modify (s : Sys) (c : Nat) {f : AmlCmd → AmlCmd}
    (kept : (f (s.mem c)).nonblock = (s.mem c).nonblock) : SameBooks s (s.modify c f) :=
  ⟨rfl, rfl, rfl, rfl, rfl, rfl, rfl, rfl, Sys.modify_same AmlCmd.nonblock kept⟩

theorem sameBooks_go (s : Sys) (c : Nat) (caller : Caller) : SameBooks s (s.go c caller) :=
  ⟨rfl, rfl, rfl, rfl, rfl, rfl, rfl, rfl, fun _ => rfl⟩

theorem sameBooks_up (s : Sys) : SameBooks s s.up :=
  ⟨rfl, rfl, rfl, rfl, rfl, rfl, rfl, rfl, fun _ => rfl⟩

theorem sameBooks_freeMsg (s : Sys) (c : Nat) : SameBooks s (freeMsg s c) :=
  sameBooks_modify s c rfl

theorem sameBooks_push (s : Sys) (c : Nat) (accepted : Bool) :
    SameBooks s (amlIpcMsgPush s c accepted).2 := by
  rw [amlIpcMsgPush]
  split_ifs
  · exact ⟨rfl, rfl, rfl, rfl, rfl, rfl, rfl, rfl, fun _ => rfl⟩
  · exact .refl s

theorem sameBooks_task (s : Sys) (task : Task) : SameBooks s { s with task } :=
  ⟨rfl, rfl, rfl, rfl, rfl, rfl, rfl, rfl, fun _ => rfl⟩

theorem sameBooks_answer (s : Sys) (hostid : Option Nat) (unacked unconfirmed : List Nat)
    (credits : List (Nat × Nat)) :
    SameBooks s { s with hostid, unacked, unconfirmed, credits } :=
  ⟨rfl, rfl, rfl, rfl, rfl, rfl, rfl, rfl, fun _ => rfl⟩

theorem sameBooks_crash (s : Sys) (c : Nat) : SameBooks s (s.crash c) := by
  rw [Sys.crash]
  split_ifs
  · exact ⟨rfl, rfl, rfl, rfl, rfl, rfl, rfl, rfl, fun _ => rfl⟩
  · have kept := Sys.modify_same (s := s) (c := c)
      (f := fun cmd => { cmd with result := etimedout }) AmlCmd.nonblock rfl
    exact ⟨rfl, rfl, rfl, rfl, rfl, rfl, rfl, rfl, kept⟩

theorem sameBooks_take (s : Sys) : SameBooks s (taskTake s) := by
  rw [taskTake]
  split_ifs
  · exact ⟨rfl, rfl, rfl, rfl, rfl, rfl, rfl, rfl, fun _ => rfl⟩
  · exact .refl s

end AmlW2.Cmd
