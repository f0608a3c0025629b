import AmlW2.Lib.Run
import Mathlib.Algebra.Ring.Nat
import Mathlib.Logic.Function.Basic

/-!
# The command manager

Commands to the firmware are queued by their callers and pushed one at a time.  A command waits for
its turn to be pushed, then for the firmware's ACK and, if it asks for one, for its confirmation.
On PCIe whoever completes a command pushes the next one; on SDIO and USB the message task does.

Every function here runs under the lock of the manager, except that a message is pushed by a caller
or by the message task without it.  A step of the system is one such section.
-/

namespace AmlW2.Cmd

/-! ## Commands -/

/-- `struct aml_cmd`, with its flags, for a message whose content does not matter. -/
structure AmlCmd where
  reqid : Nat
  /-- Whether `a2e_msg` is there. -/
  a2eMsg : Bool
  /-- The caller's buffer for the confirmation. -/
  e2aMsg : Option (List UInt8)
  tkn : Nat
  /-- `AML_CMD_FLAG_NONBLOCK`, and the other flags. -/
  nonblock : Bool
  reqCfm : Bool
  waitPush : Bool
  waitAck : Bool
  waitCfm : Bool
  done : Bool
  callThread : Bool
  /-- How often the completion has been signalled. -/
  complete : Nat
  result : Int

/-- `AML_CMD_WAIT_COMPLETE`. -/
def AmlCmd.waitComplete (cmd : AmlCmd) : Bool := !(cmd.waitAck || cmd.waitCfm)

/-- `-EINTR`. -/
def eintr : Int := -4

/-- `-ETIMEDOUT`. -/
def etimedout : Int := -110

/-- `AML_CMD_MAX_QUEUED`. -/
def amlCmdMaxQueued : Nat := 8

/-- `AML_CMD_E2AMSG_LEN_MAX`. -/
def amlCmdE2amsgLenMax : Nat := 256 * 4

/-! ## State -/

/-- `aml_bus_type`. -/
inductive Bus
  | pcie
  | sdio
  | usb
deriving DecidableEq, Repr

/-- `enum aml_cmd_mgr_state`. -/
inductive MgrState
  | deinit
  | inited
  | crashed
deriving DecidableEq, Repr

/-- Where the caller of `cmd_mgr_queue` is. -/
inductive Caller
  /-- The command is not queued. -/
  | idle
  /-- Queued, and about to be pushed. -/
  | pushing
  /-- Pushed without the lock, with success or not. -/
  | relocking (sent : Bool)
  /-- In `wait_for_completion_killable_timeout`. -/
  | waiting
  /-- Interrupted, and polling for the command to be done. -/
  | killed
  /-- The time is over. -/
  | timedOut
  /-- The time is over and the queue is not empty. -/
  | expired
  | returned
deriving DecidableEq, Repr

/-- Where the message task is. -/
inductive Task
  /-- Waiting for its semaphore. -/
  | idle
  | found (cmd : Nat)
  /-- The command is not marked for a push any more. -/
  | cleared (cmd : Nat)
  /-- Pushed without the lock, with success or not. -/
  | relocking (cmd : Nat) (sent : Bool)
  /-- Ended by `aml_sdio_usb_destroy_thread`. -/
  | stopped
deriving DecidableEq, Repr

/-- How far `aml_cmd_mgr_deinit` has come. -/
inductive Down
  | up
  /-- The state is set. -/
  | marked
  | drained
  /-- The manager is filled with zeros. -/
  | cleared
deriving DecidableEq, Repr

/-- `struct aml_cmd_mgr` with the parties that use it.  Commands are numbered in the order in which
they are queued, and the number is the address of a command: it is never used again, and the memory
of a command that is freed is left as it is. -/
structure Sys where
  bus : Bus
  state : MgrState
  nextTkn : Nat
  queueSz : Nat
  maxQueueSz : Nat
  cmds : List Nat
  mem : Nat → AmlCmd
  caller : Nat → Caller
  /-- `aml_msg_sem`. -/
  msgSem : Nat
  task : Task
  /-- `msga2e_hostid`. -/
  hostid : Option Nat
  /-- The commands pushed that the firmware has not acknowledged. -/
  unacked : List Nat
  /-- The commands pushed that the firmware has not confirmed. -/
  unconfirmed : List Nat
  down : Down
  /-- How many commands have been queued. -/
  queued : Nat
  /-- The commands pushed so far. -/
  pushed : List Nat
  /-- The answers taken so far: the command that the firmware answers, and the one credited. -/
  credits : List (Nat × Nat)
  /-- The commands taken off the list so far. -/
  removed : List Nat
  /-- The blocking commands completed so far. -/
  completed : List Nat
  /-- The non-blocking commands freed so far. -/
  freed : List Nat

/-- What the code does not survive. -/
inductive Fault
  /-- `list_del` of a command that is not on the list. -/
  | listDel
  /-- A call of `llind` or `msgind` of a manager that is filled with zeros. -/
  | nullCall
deriving DecidableEq, Repr

/-- Change a command. -/
def Sys.modify (s : Sys) (c : Nat) (f : AmlCmd → AmlCmd) : Sys :=
  { s with mem := Function.update s.mem c (f (s.mem c)) }

/-- Move a caller. -/
def Sys.go (s : Sys) (c : Nat) (caller : Caller) : Sys :=
  { s with caller := Function.update s.caller c caller }

/-- `up(&aml_hw->aml_msg_sem)`. -/
def Sys.up (s : Sys) : Sys := { s with msgSem := s.msgSem + 1 }

/-- `list_empty(&cmd_mgr->cmds)`: a list head of zeros does not point to itself. -/
def Sys.listEmpty (s : Sys) : Bool := s.cmds.isEmpty && s.down != .cleared

/-- The counter `u32` after a decrement. -/
def decr (n : Nat) : Nat := if n = 0 then 2 ^ 32 - 1 else n - 1

/-! ## Completing and pushing -/

/-- The end of `cmd_complete`: the command is done, and its caller is woken up unless it is there
already. -/
def AmlCmd.finish (cmd : AmlCmd) : AmlCmd :=
  if !cmd.nonblock && cmd.waitComplete then
    { cmd with done := true, result := 0, complete := cmd.complete + 1 }
  else { cmd with done := true }

/-- `cmd_complete` for a command on the list. -/
def Sys.finish (s : Sys) (c : Nat) : Sys :=
  { s with
    cmds := s.cmds.erase c
    queueSz := decr s.queueSz
    mem := Function.update s.mem c (s.mem c).finish
    removed := s.removed ++ [c]
    completed := if (s.mem c).nonblock then s.completed else s.completed ++ [c]
    freed := if (s.mem c).nonblock then s.freed ++ [c] else s.freed }

/-- `cmd_complete`. -/
def cmdComplete (s : Sys) (c : Nat) : Except Fault Sys :=
  if c ∈ s.cmds then .ok (s.finish c) else .error .listDel

/-- A message is handed to the firmware. -/
def Sys.send (s : Sys) (c : Nat) : Sys :=
  { s with
    hostid := some c
    unacked := s.unacked ++ [c]
    unconfirmed := s.unconfirmed ++ [c]
    pushed := s.pushed ++ [c] }

/-- `aml_ipc_msg_push`, which fails while the bus is suspended, for example. -/
def amlIpcMsgPush (s : Sys) (c : Nat) (accepted : Bool) : Bool × Sys :=
  if (s.mem c).a2eMsg && accepted then (true, s.send c) else (false, s)

/-- `kfree(cmd->a2e_msg)`. -/
def freeMsg (s : Sys) (c : Nat) : Sys := s.modify c fun cmd => { cmd with a2eMsg := false }

/-- A command whose push fails waits for no answer and is completed. -/
def pushFailed (s : Sys) (c : Nat) : Except Fault Sys :=
  cmdComplete (s.modify c fun cmd => { cmd with waitAck := false, waitCfm := false }) c

/-! ## Callers -/

/-- The command a caller of `cmd_mgr_queue` passes. -/
structure Request where
  reqid : Nat
  reqCfm : Bool
  nonblock : Bool
  callThread : Bool
  a2eMsg : Bool
  e2aMsg : Option (List UInt8)

/-- Where the caller goes on after its command is left to be answered. -/
def afterPush (nonblock : Bool) : Caller := if nonblock then .returned else .waiting

/-- The last command has been pushed or waits to be, so this one has to wait. -/
def deferPush (s : Sys) : Bool :=
  match s.cmds.getLast? with
  | some last => (s.mem last).waitAck || (s.mem last).waitPush || (s.mem last).waitCfm
  | none => false

/-- A command is given a token and put on the list. -/
def Sys.enqueue (s : Sys) (r : Request) : Sys :=
  let c := s.queued
  { s with
    mem := Function.update s.mem c
      { reqid := r.reqid, a2eMsg := r.a2eMsg, e2aMsg := r.e2aMsg, tkn := s.nextTkn
        nonblock := r.nonblock, reqCfm := r.reqCfm, waitPush := deferPush s, waitAck := true
        waitCfm := r.reqCfm, done := false, callThread := r.callThread, complete := 0
        result := eintr }
    caller := Function.update s.caller c
      (if deferPush s then afterPush r.nonblock else .pushing)
    nextTkn := (s.nextTkn + 1) % 2 ^ 32
    cmds := s.cmds ++ [c]
    queueSz := (s.queueSz + 1) % 2 ^ 32
    queued := s.queued + 1 }

/-- `cmd_mgr_queue` up to the push.  A command is refused when the manager has crashed and when too
many are queued. -/
def cmdMgrQueue (s : Sys) (r : Request) : Sys :=
  if s.state = .crashed then s
  else if s.listEmpty = false ∧ s.queueSz = s.maxQueueSz then s
  else s.enqueue r

/-- The caller pushes its command, or leaves it to the message task. -/
def callerPush (s : Sys) (c : Nat) (accepted : Bool) : Except Fault Sys :=
  if s.bus ≠ .pcie ∧ (s.mem c).callThread then
    .ok ((s.modify c fun cmd => { cmd with waitPush := true }).up.go c
      (afterPush (s.mem c).nonblock))
  else if (s.mem c).a2eMsg then
    let (sent, s) := amlIpcMsgPush s c accepted
    .ok (s.go c (.relocking sent))
  else (pushFailed s c).map fun s => s.go c .returned

/-- The caller after its push. -/
def callerRelock (s : Sys) (c : Nat) (sent : Bool) : Except Fault Sys :=
  let s := freeMsg s c
  if sent then .ok (s.go c (afterPush (s.mem c).nonblock))
  else (pushFailed s c).map fun s => s.go c .returned

/-- What ends or goes on with a wait. -/
inductive WaitEvent
  /-- The completion is signalled. -/
  | wake
  | timeout
  /-- A signal interrupts the wait. -/
  | interrupt
  /-- The flags are looked at. -/
  | poll
  /-- The time of the polling is over. -/
  | exhaust
  /-- The list is looked at. -/
  | look
deriving DecidableEq, Repr

/-- The waiting part of `cmd_mgr_queue`. -/
def waitNext (cmd : AmlCmd) (listEmpty : Bool) : Caller → WaitEvent → Caller
  | .waiting, .wake => if 0 < cmd.complete then .returned else .waiting
  | .waiting, .timeout => if 0 < cmd.complete then .waiting else .timedOut
  | .waiting, .interrupt => if 0 < cmd.complete then .waiting else .killed
  | .killed, .poll => if cmd.done then .returned else .killed
  | .killed, .exhaust => .timedOut
  | .timedOut, .look => if listEmpty then .returned else .expired
  | caller, _ => caller

/-- The manager crashes with a command that is not answered in time. -/
def Sys.crash (s : Sys) (c : Nat) : Sys :=
  if (s.mem c).done then { s with state := .crashed }
  else { s.modify c fun cmd => { cmd with result := etimedout } with state := .crashed }

/-- The end of a wait whose time is over. -/
def callerExpire (s : Sys) (c : Nat) : Except Fault Sys :=
  if (s.mem c).done then .ok ((s.crash c).go c .returned)
  else (cmdComplete (s.crash c) c).map fun s => s.go c .returned

/-! ## The message task -/

/-- The message task wakes up and looks for a command. -/
def taskTake (s : Sys) : Sys :=
  if 0 < s.msgSem then
    { s with
      msgSem := s.msgSem - 1
      task :=
        match s.cmds.find? fun c => (s.mem c).waitPush with
        | some c => .found c
        | none => .idle }
  else s

/-- The message task after its push. -/
def taskFinish (s : Sys) (c : Nat) (sent : Bool) : Except Fault Sys :=
  if sent then .ok { s with task := .idle }
  else (pushFailed s c).map fun s => { if 0 < s.queueSz then s.up else s with task := .idle }

/-- The message task pushes the command it has found. -/
def taskPush (s : Sys) (c : Nat) (accepted : Bool) : Except Fault Sys :=
  if (s.mem c).a2eMsg then
    let (sent, s) := amlIpcMsgPush s c accepted
    .ok { s with task := .relocking c sent }
  else taskFinish s c false

/-- A step of `aml_msg_task`. -/
def taskStep (s : Sys) (accepted : Bool) : Except Fault Sys :=
  match s.task with
  | .idle => .ok (taskTake s)
  | .found c => .ok { s.modify c fun cmd => { cmd with waitPush := false } with task := .cleared c }
  | .cleared c => taskPush s c accepted
  | .relocking c sent => taskFinish (freeMsg s c) c sent
  | .stopped => .ok s

/-! ## Answers of the firmware -/

/-- `cmd_mgr_next_cmd`.  Each turn but the last takes a command off the list, so as many turns as
there are commands are enough. -/
def cmdMgrNextCmd (accepted : Nat → Bool) : Nat → Sys → Nat → Except Fault Sys
  | 0, s, _ => .ok s
  | turns + 1, s, c =>
      let s := s.modify c fun cmd => { cmd with waitPush := false }
      let (sent, s) := amlIpcMsgPush s c (accepted c)
      let s := freeMsg s c
      if sent then .ok s
      else
        match pushFailed s c with
        | .error fault => .error fault
        | .ok s =>
            match s.cmds with
            -- only a command with another one behind it is gone on with
            | cur :: _ :: _ =>
                if (s.mem cur).waitPush then cmdMgrNextCmd accepted turns s cur else .ok s
            | _ => .ok s

/-- The push of the next command after one is completed. -/
def pushNext (s : Sys) (next : Option Nat) (accepted : Nat → Bool) : Except Fault Sys :=
  match next with
  | none => .ok s
  | some next =>
      if s.bus = .pcie then cmdMgrNextCmd accepted s.cmds.length s next else .ok s.up

/-- The search of `cmd_mgr_llind`: whether a command has the token, and the next to push. -/
def llindSearch (mem : Nat → AmlCmd) (tkn : Nat) : Bool → List Nat → Bool × Option Nat
  | acked, [] => (acked, none)
  | acked, cur :: cmds =>
      if !acked && (mem cur).tkn == tkn then llindSearch mem tkn true cmds
      else if (mem cur).waitPush then (acked, some cur)
      else llindSearch mem tkn acked cmds

/-- `cmd_mgr_llind` for the command `c` of `msga2e_hostid`, where the firmware acknowledges
`answered`. -/
def cmdMgrLlind (s : Sys) (answered c : Nat) (accepted : Nat → Bool) : Except Fault Sys :=
  match llindSearch s.mem (s.mem c).tkn false s.cmds with
  | (false, _) => .ok s
  | (true, next) =>
      let s := s.modify c fun cmd => { cmd with waitAck := false }
      let s := { s with credits := s.credits ++ [(answered, c)] }
      if (s.mem c).waitComplete then
        match cmdComplete s c with
        | .error fault => .error fault
        | .ok s => pushNext s next accepted
      else .ok s

/-- The command behind another one. -/
def behind (c : Nat) : List Nat → Option Nat
  | [] => none
  | cur :: cmds => if cur = c then cmds.head? else behind c cmds

/-- The command `cmd_mgr_msgind` credits: the first one that waits for the confirmation and whose
callback does not turn it down. -/
def msgindTaker (s : Sys) (id : Nat) (cb : Nat → Bool) : Option Nat :=
  s.cmds.find? fun c => (s.mem c).reqid == id && (s.mem c).waitCfm && cb c

/-- The confirmation is copied to the caller's buffer. -/
def copyCfm (param : List UInt8) (cmd : AmlCmd) : AmlCmd :=
  let param := param.take amlCmdE2amsgLenMax
  { cmd with e2aMsg := cmd.e2aMsg.map fun old => param ++ old.drop param.length }

/-- `cmd_mgr_msgind` for the confirmation of `answered`. -/
def cmdMgrMsgind (s : Sys) (answered : Nat) (param : List UInt8) (cb accepted : Nat → Bool) :
    Except Fault Sys :=
  match msgindTaker s (s.mem answered).reqid cb with
  | none => .ok s
  | some c =>
      let s := s.modify c fun cmd => copyCfm param { cmd with waitCfm := false }
      let s := { s with credits := s.credits ++ [(answered, c)] }
      if (s.mem c).waitComplete then
        let next := (behind c s.cmds).filter fun next => (s.mem next).waitPush
        match cmdComplete s c with
        | .error fault => .error fault
        | .ok s => pushNext s next accepted
      else .ok s

/-! ## The end of the manager -/

/-- What `cmd_mgr_drain` makes of a command. -/
def AmlCmd.drain (cmd : AmlCmd) : AmlCmd :=
  let cmd := if cmd.waitPush then { cmd with a2eMsg := false, waitPush := false } else cmd
  if cmd.nonblock then cmd
  else { cmd with complete := cmd.complete + 1, waitAck := false, waitCfm := false }

/-- The turn of `cmd_mgr_drain` for one command. -/
def drainCmd (s : Sys) (c : Nat) : Sys :=
  { s with
    cmds := s.cmds.erase c
    queueSz := decr s.queueSz
    mem := Function.update s.mem c (s.mem c).drain
    removed := s.removed ++ [c]
    completed := if (s.mem c).nonblock then s.completed else s.completed ++ [c]
    freed := if (s.mem c).nonblock then s.freed ++ [c] else s.freed }

/-- `cmd_mgr_drain`. -/
def cmdMgrDrain (s : Sys) : Sys := { s.cmds.foldl drainCmd s with down := .drained }

/-- The `memset` at the end of `aml_cmd_mgr_deinit`. -/
def Sys.clear (s : Sys) : Sys :=
  { s with
    state := .deinit, nextTkn := 0, queueSz := 0, maxQueueSz := 0, cmds := [], down := .cleared }

/-- `aml_sdio_usb_destroy_thread`: the message task ends between two turns, and so does
`aml_irq_task`, which takes the answers of the firmware. -/
def Sys.stop (s : Sys) : Sys := { s with task := .stopped, unacked := [], unconfirmed := [] }

/-- `aml_ipc_init` with `aml_cmd_mgr_init`, for a firmware that is loaded anew, and the threads of
`aml_sdio_usb_create_thread`. -/
def amlCmdMgrInit (s : Sys) : Sys :=
  { s with
    state := .inited, maxQueueSz := amlCmdMaxQueued, cmds := [], msgSem := 0, task := .idle
    hostid := none, unacked := [], unconfirmed := [], down := .up }

/-! ## The system -/

/-- What happens to the manager. -/
inductive Event
  /-- `cmd_mgr_queue` is called. -/
  | queue (r : Request)
  /-- The caller of a command pushes it, if the bus accepts it. -/
  | push (c : Nat) (accepted : Bool)
  /-- The caller of a command takes the lock again after the push. -/
  | relock (c : Nat)
  /-- The caller of a command waits. -/
  | wait (c : Nat) (w : WaitEvent)
  /-- The caller of a command gives up. -/
  | expire (c : Nat)
  /-- `aml_msg_task` makes a step. -/
  | task (accepted : Bool)
  /-- The firmware acknowledges a command.  The handler may have looked at the state before the
  manager was deinitialized. -/
  | ack (c : Nat) (early : Bool) (accepted : Nat → Bool)
  /-- The firmware confirms a command. -/
  | cfm (c : Nat) (early : Bool) (param : List UInt8) (cb accepted : Nat → Bool)
  /-- The threads of SDIO or USB are stopped. -/
  | stop
  /-- The state is set by `aml_cmd_mgr_deinit`. -/
  | deinit
  /-- `cmd_mgr_drain` is called. -/
  | drain
  /-- The manager is filled with zeros. -/
  | clear
  /-- The manager is initialized again. -/
  | init

/-- The acknowledgement of a command arrives: `ipc_host_msgack_handler` and `aml_msgackind`. -/
def ackInd (s : Sys) (answered : Nat) (early : Bool) (accepted : Nat → Bool) : Except Fault Sys :=
  let s := { s with unacked := s.unacked.erase answered }
  match s.hostid with
  | none => .ok s
  | some c =>
      let s := { s with hostid := none }
      if s.state = .deinit ∧ early = false then .ok s
      else if s.down = .cleared then .error .nullCall
      else cmdMgrLlind s answered c accepted

/-- The confirmation of a command arrives: `aml_msgind`. -/
def msgInd (s : Sys) (answered : Nat) (early : Bool) (param : List UInt8)
    (cb accepted : Nat → Bool) : Except Fault Sys :=
  let s := { s with unconfirmed := s.unconfirmed.erase answered }
  if s.state = .deinit ∧ early = false then .ok s
  else if s.down = .cleared then .error .nullCall
  else cmdMgrMsgind s answered param cb accepted

/-- One event.  An event that cannot happen changes nothing; the firmware acknowledges and confirms
each command pushed at most once. -/
def Sys.step (s : Sys) : Event → Except Fault Sys
  | .queue r => .ok (cmdMgrQueue s r)
  | .push c accepted => if s.caller c = .pushing then callerPush s c accepted else .ok s
  | .relock c =>
      match s.caller c with
      | .relocking sent => callerRelock s c sent
      | _ => .ok s
  | .wait c w => .ok (s.go c (waitNext (s.mem c) s.listEmpty (s.caller c) w))
  | .expire c => if s.caller c = .expired then callerExpire s c else .ok s
  | .task accepted => taskStep s accepted
  | .ack c early accepted => if c ∈ s.unacked then ackInd s c early accepted else .ok s
  | .cfm c early param cb accepted =>
      if c ∈ s.unconfirmed then msgInd s c early param cb accepted else .ok s
  | .stop => .ok (if s.bus ≠ .pcie ∧ s.task = .idle then s.stop else s)
  | .deinit =>
      .ok (if s.down = .up ∧ (s.bus = .pcie ∨ s.task = .stopped) then
        { s with state := .deinit, down := .marked } else s)
  | .drain => .ok (if s.down = .marked then cmdMgrDrain s else s)
  | .clear => .ok (if s.down = .drained then s.clear else s)
  | .init => .ok (if s.down = .cleared then amlCmdMgrInit s else s)

/-- A command that is not queued. -/
def noCmd : AmlCmd where
  reqid := 0
  a2eMsg := false
  e2aMsg := none
  tkn := 0
  nonblock := false
  reqCfm := false
  waitPush := false
  waitAck := false
  waitCfm := false
  done := false
  callThread := false
  complete := 0
  result := 0

/-- `aml_cmd_mgr_init`. -/
def Sys.init (bus : Bus) : Sys where
  bus
  state := .inited
  nextTkn := 0
  queueSz := 0
  maxQueueSz := amlCmdMaxQueued
  cmds := []
  mem _ := noCmd
  caller _ := .idle
  msgSem := 0
  task := .idle
  hostid := none
  unacked := []
  unconfirmed := []
  down := .up
  queued := 0
  pushed := []
  credits := []
  removed := []
  completed := []
  freed := []

end AmlW2.Cmd
