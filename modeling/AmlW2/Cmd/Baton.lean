import AmlW2.Cmd.Accounting

/-!
# Whose turn it is to push

As long as the manager is not drained, the right to push passes from one party to the next: from the
caller of a command, or from the message task, to the firmware, and back with the last answer.  The
commands behind the one whose turn it is wait on the list in the order of their tokens.
-/

namespace AmlW2.Cmd

variable {s s' : Sys} {c d : Nat}

/-! ## The holder of the turn -/

/-- Who is to push the next command, or has to answer the last one. -/
inductive Holder
  | free
  /-- The message task, which has been woken up. -/
  | woken
  /-- The message task, for a command it has found. -/
  | task (c : Nat)
  /-- The message task, for a command that was taken off the list meanwhile. -/
  | stale (c : Nat)
  | caller (c : Nat)
  | firmware (c : Nat)

/-- The command on the list whose turn it is. -/
def Holder.command : Holder → Option Nat
  | .task c => some c
  | .caller c => some c
  | .firmware c => some c
  | _ => none

/-- The command to be pushed next. -/
def Holder.next : Holder → Option Nat
  | .task c => some c
  | .stale c => some c
  | .caller c => some c
  | _ => none

/-- How often the message task is to wake up. -/
def Holder.sem : Holder → Nat
  | .woken => 1
  | _ => 0

/-- Where the message task is. -/
def Holder.TaskAt (task : Task) : Holder → Prop
  | .task c => task = .found c ∨ task = .cleared c ∨ task = .relocking c false
  | .stale c => task = .found c ∨ task = .cleared c ∨ task = .relocking c false
  | _ => task = .idle ∨ ∃ d, task = .relocking d true

/-- The list: the command whose turn it is, and then those that wait. -/
structure Lined (s : Sys) (h : Holder) (waiting : List Nat) : Prop where
  cmds : s.cmds = h.command.toList ++ waiting
  sorted : s.cmds.Pairwise (· < ·)
  bound : ∀ c ∈ s.cmds, c < s.queued
  /-- Up to a crash no command is taken off the list before those in front of it. -/
  dense : s.state ≠ .crashed → ∀ c ∈ s.cmds, s.queued ≤ c + s.cmds.length
  recent : ∀ c ∈ s.cmds, s.queued ≤ c + amlCmdMaxQueued

/-- The flags and tokens of the commands. -/
structure Flagged (s : Sys) (h : Holder) (waiting : List Nat) : Prop where
  waits : ∀ d ∈ waiting, (s.mem d).waitPush = true
  waitAck : ∀ c ∈ s.cmds, c ∉ s.pushed → (s.mem c).waitAck = true
  flight : ∀ c, h = .firmware c → (s.mem c).waitAck = true ∨ (s.mem c).waitCfm = true
  tkn : ∀ c < s.queued, (s.mem c).tkn = c % 2 ^ 32
  nextTkn : s.nextTkn = s.queued % 2 ^ 32

/-- The commands pushed: they precede those that wait, and only the last one may be unanswered. -/
structure Ordered (s : Sys) (h : Holder) (waiting : List Nat) : Prop where
  pushed : s.pushed.Pairwise (· < ·)
  pushed_lt : ∀ p ∈ s.pushed, p < s.queued
  before : ∀ p ∈ s.pushed, ∀ d ∈ waiting, p < d
  next : ∀ c, h.next = some c → c < s.queued ∧ s.queued ≤ c + amlCmdMaxQueued ∧
    (∀ p ∈ s.pushed, p < c) ∧ ∀ d ∈ waiting, c < d
  sent : ∀ c, h = .firmware c → c ∈ s.pushed
  unacked : s.unacked = [] ∨ ∃ a, s.unacked = [a] ∧ s.hostid = some a ∧ a ∈ s.pushed ∧
    s.queued ≤ a + amlCmdMaxQueued ∧
    (h = .firmware a ∧ (s.mem a).waitAck = true ∨ h = .free ∧ s.state = .crashed)
  unconfirmed : ∀ c ∈ s.unconfirmed, c ∈ s.pushed

structure Core (s : Sys) (h : Holder) (waiting : List Nat) : Prop
  extends Lined s h waiting, Flagged s h waiting, Ordered s h waiting

/-- The parties: only the holder is about to push. -/
structure Parties (s : Sys) (h : Holder) (waiting : List Nat) : Prop where
  running : s.state ≠ .deinit
  stale : ∀ c, h = .stale c → s.state = .crashed
  sem : s.msgSem = h.sem
  woken : s.state ≠ .crashed → h = .woken → waiting ≠ []
  task : h.TaskAt s.task
  callers : ∀ c, s.caller c = .pushing ∨ s.caller c = .relocking false ↔ h = .caller c
  pcie : s.bus = .pcie → h ≠ .woken ∧ s.task = .idle

/-- The turn is with a holder, while other commands wait. -/
structure Held (s : Sys) (h : Holder) (waiting : List Nat) : Prop
  extends Core s h waiting, Parties s h waiting

variable {h : Holder} {waiting : List Nat}

/-! ## Changes of the core -/

/-- The list, the flags and what is pushed are left as they are. -/
structure SameCore (s s' : Sys) : Prop where
  state : s'.state = s.state
  cmds : s'.cmds = s.cmds
  queued : s'.queued = s.queued
  nextTkn : s'.nextTkn = s.nextTkn
  pushed : s'.pushed = s.pushed
  hostid : s'.hostid = s.hostid
  unacked : s'.unacked = s.unacked
  unconfirmed : s'.unconfirmed = s.unconfirmed
  waitPush : ∀ c, (s'.mem c).waitPush = (s.mem c).waitPush
  waitAck : ∀ c, (s'.mem c).waitAck = (s.mem c).waitAck
  waitCfm : ∀ c, (s'.mem c).waitCfm = (s.mem c).waitCfm
  tkn : ∀ c, (s'.mem c).tkn = (s.mem c).tkn

theorem SameCore.trans {s'' : Sys} (first : SameCore s s') (second : SameCore s' s'') :
    SameCore s s'' :=
  ⟨second.state.trans first.state, second.cmds.trans first.cmds,
    second.queued.trans first.queued, second.nextTkn.trans first.nextTkn,
    second.pushed.trans first.pushed, second.hostid.trans first.hostid,
    second.unacked.trans first.unacked, second.unconfirmed.trans first.unconfirmed,
    fun c => (second.waitPush c).trans (first.waitPush c),
    fun c => (second.waitAck c).trans (first.waitAck c),
    fun c => (second.waitCfm c).trans (first.waitCfm c),
    fun c => (second.tkn c).trans (first.tkn c)⟩

theorem Core.of_same (core : Core s h waiting) (same : SameCore s s') : Core s' h waiting := by
  obtain ⟨⟨cmds, sorted, bound, dense, recent⟩, ⟨waits, waitAck, flight, tkn, nextTkn⟩,
    ⟨pushed, pushed_lt, before, next, sent, unacked, unconfirmed⟩⟩ := core
  refine ⟨⟨?_, ?_, ?_, ?_, ?_⟩, ⟨?_, ?_, ?_, ?_, ?_⟩, ⟨?_, ?_, ?_, ?_, ?_, ?_, ?_⟩⟩ <;>
    simp only [same.state, same.cmds, same.queued, same.nextTkn, same.pushed, same.hostid,
      same.unacked, same.unconfirmed, same.waitPush, same.waitAck, same.waitCfm, same.tkn] <;>
    assumption

theorem sameCore_go (s : Sys) (c : Nat) (caller : Caller) : SameCore s (s.go c caller) :=
  ⟨rfl, rfl, rfl, rfl, rfl, rfl, rfl, rfl, fun _ => rfl, fun _ => rfl, fun _ => rfl, fun _ => rfl⟩

theorem sameCore_up (s : Sys) : SameCore s s.up :=
  ⟨rfl, rfl, rfl, rfl, rfl, rfl, rfl, rfl, fun _ => rfl, fun _ => rfl, fun _ => rfl, fun _ => rfl⟩

theorem sameCore_task (s : Sys) (task : Task) (msgSem : Nat) :
    SameCore s { s with task, msgSem } :=
  ⟨rfl, rfl, rfl, rfl, rfl, rfl, rfl, rfl, fun _ => rfl, fun _ => rfl, fun _ => rfl, fun _ => rfl⟩

theorem sameCore_freeMsg (s : Sys) (c : Nat) : SameCore s (freeMsg s c) :=
  ⟨rfl, rfl, rfl, rfl, rfl, rfl, rfl, rfl,
    Sys.modify_same (f := fun cmd => { cmd with a2eMsg := false }) AmlCmd.waitPush rfl,
    Sys.modify_same (f := fun cmd => { cmd with a2eMsg := false }) AmlCmd.waitAck rfl,
    Sys.modify_same (f := fun cmd => { cmd with a2eMsg := false }) AmlCmd.waitCfm rfl,
    Sys.modify_same (f := fun cmd => { cmd with a2eMsg := false }) AmlCmd.tkn rfl⟩

theorem sameCore_crash (s : Sys) (c : Nat) : SameCore { s with state := .crashed } (s.crash c) := by
  rw [Sys.crash]
  split_ifs
  · exact ⟨rfl, rfl, rfl, rfl, rfl, rfl, rfl, rfl, fun _ => rfl, fun _ => rfl, fun _ => rfl,
      fun _ => rfl⟩
  · have kept {α : Type} (field : AmlCmd → α)
        (same : ∀ cmd : AmlCmd, field { cmd with result := etimedout } = field cmd) (d : Nat) :
        field ((s.modify c fun cmd => { cmd with result := etimedout }).mem d) =
          field (s.mem d) := Sys.modify_same field (same _) d
    exact ⟨rfl, rfl, rfl, rfl, rfl, rfl, rfl, rfl, kept AmlCmd.waitPush fun _ => rfl,
      kept AmlCmd.waitAck fun _ => rfl, kept AmlCmd.waitCfm fun _ => rfl,
      kept AmlCmd.tkn fun _ => rfl⟩

theorem Core.cmds_eq (core : Core s h waiting) (command : h.command = some c) :
    s.cmds = c :: waiting := by
  rw [core.cmds, command]
  rfl

theorem Core.cmds_waiting (core : Core s h waiting) (command : h.command = none) :
    s.cmds = waiting := by
  rw [core.cmds, command]
  rfl

/-- The command whose turn it is precedes those that wait. -/
theorem Core.lt_waiting (core : Core s h waiting) (command : h.command = some c) :
    ∀ d ∈ waiting, c < d := by
  have sorted := core.sorted
  rw [core.cmds_eq command] at sorted
  exact fun d => List.rel_of_pairwise_cons sorted

theorem Core.mem_waiting (core : Core s h waiting) (member : d ∈ waiting) : d ∈ s.cmds := by
  rw [core.cmds]
  exact List.mem_append_right _ member

/-- A command pushed that is on the list is with the firmware. -/
theorem Core.firmware_of_pushed (core : Core s h waiting) (pushed : c ∈ s.pushed)
    (listed : c ∈ s.cmds) : h = .firmware c := by
  rw [core.cmds, List.mem_append] at listed
  rcases listed with first | later
  · cases h with
    | firmware a =>
        rw [List.mem_singleton.mp first]
    | task a =>
        rw [List.mem_singleton.mp first] at pushed
        exact absurd ((core.next a rfl).2.2.1 a pushed) (Nat.lt_irrefl a)
    | caller a =>
        rw [List.mem_singleton.mp first] at pushed
        exact absurd ((core.next a rfl).2.2.1 a pushed) (Nat.lt_irrefl a)
    | _ => cases first
  · exact absurd (core.before c pushed c later) (Nat.lt_irrefl c)

/-! ## Taking a command off the list -/

/-- A command is taken off the list; of the others nothing changes. -/
structure Drops (s : Sys) (c : Nat) (s' : Sys) : Prop where
  cmds : s'.cmds = s.cmds.erase c
  others : ∀ d, d ≠ c → s'.mem d = s.mem d
  tkn : (s'.mem c).tkn = (s.mem c).tkn
  state : s'.state = s.state
  queued : s'.queued = s.queued
  nextTkn : s'.nextTkn = s.nextTkn
  pushed : s'.pushed = s.pushed
  hostid : s'.hostid = s.hostid
  unacked : s'.unacked = s.unacked
  unconfirmed : s'.unconfirmed = s.unconfirmed

theorem drops_finish (s : Sys) (c : Nat) : Drops s c (s.finish c) := by
  refine ⟨rfl, fun d other => Sys.finish_mem_of_ne s other, ?_, rfl, rfl, rfl, rfl, rfl, rfl, rfl⟩
  rw [Sys.finish_mem_self, AmlCmd.finish_eq]

theorem drops_giveUp (s : Sys) (c : Nat) : Drops s c ((s.giveUp c).finish c) := by
  refine ⟨rfl, fun d other => ?_, ?_, rfl, rfl, rfl, rfl, rfl, rfl, rfl⟩
  · rw [Sys.finish_mem_of_ne _ other]
    exact Sys.modify_mem_of_ne s _ other
  · rw [Sys.finish_mem_self, AmlCmd.finish_eq, Sys.giveUp, Sys.modify_mem_self]

theorem Drops.tkn_eq (drops : Drops s c s') (d : Nat) : (s'.mem d).tkn = (s.mem d).tkn := by
  by_cases same : d = c
  · rw [same]
    exact drops.tkn
  · rw [drops.others d same]

/-- Without the command whose turn it was, the turn is free. -/
theorem Core.drop (core : Core s h waiting) (command : h.command = some c)
    (answered : s.unacked = [] ∨ s.state = .crashed) (drops : Drops s c s') :
    Core s' .free waiting := by
  have all := core.cmds_eq command
  have left : s'.cmds = waiting := by rw [drops.cmds, all, List.erase_cons_head]
  have after := core.lt_waiting command
  have kept : ∀ d ∈ waiting, s'.mem d = s.mem d := fun d member =>
    drops.others d (Nat.ne_of_gt (after d member))
  have later : ∀ d ∈ waiting, d ∈ s.cmds := fun d => core.mem_waiting
  have sorted := core.sorted
  rw [all] at sorted
  refine ⟨⟨left, ?_, ?_, ?_, ?_⟩, ⟨?_, ?_, ?_, ?_, ?_⟩, ⟨?_, ?_, ?_, ?_, ?_, ?_, ?_⟩⟩
  · rw [left]
    exact (List.pairwise_cons.mp sorted).2
  · intro d member
    rw [left] at member
    rw [drops.queued]
    exact core.bound d (later d member)
  · intro alive d member
    rw [left] at member
    rw [drops.state] at alive
    have first := core.dense alive c (all ▸ List.mem_cons_self)
    have less := after d member
    rw [all, List.length_cons] at first
    rw [drops.queued, left]
    omega
  · intro d member
    rw [left] at member
    rw [drops.queued]
    exact core.recent d (later d member)
  · intro d member
    rw [kept d member]
    exact core.waits d member
  · intro d member unpushed
    rw [left] at member
    rw [drops.pushed] at unpushed
    rw [kept d member]
    exact core.waitAck d (later d member) unpushed
  · intro d eq
    cases eq
  · intro d bound
    rw [drops.queued] at bound
    rw [drops.tkn_eq]
    exact core.tkn d bound
  · rw [drops.nextTkn, drops.queued]
    exact core.nextTkn
  · rw [drops.pushed]
    exact core.pushed
  · rw [drops.pushed, drops.queued]
    exact core.pushed_lt
  · rw [drops.pushed]
    exact core.before
  · intro d eq
    cases eq
  · intro d eq
    cases eq
  · rw [drops.unacked, drops.hostid, drops.pushed, drops.queued, drops.state]
    rcases core.unacked with none | ⟨a, unacked, hostid, pushed, recent, -⟩
    · exact Or.inl none
    · refine Or.inr ⟨a, unacked, hostid, pushed, recent, Or.inr ⟨rfl, ?_⟩⟩
      rcases answered with none | crashed
      · rw [none] at unacked
        cases unacked
      · exact crashed
  · rw [drops.unconfirmed, drops.pushed]
    exact core.unconfirmed

/-- After a crash commands that wait are taken off the list in any order. -/
theorem Core.dropWaiting (core : Core s h waiting) (member : c ∈ waiting)
    (crashed : s.state = .crashed) (drops : Drops s c s') :
    Core s' h (waiting.erase c) := by
  have sublist : (waiting.erase c).Sublist waiting := List.erase_sublist
  have cmds : s'.cmds = h.command.toList ++ waiting.erase c := by
    rw [drops.cmds, core.cmds]
    cases command : h.command with
    | none => rfl
    | some a =>
        have other := Nat.ne_of_lt (core.lt_waiting command c member)
        exact List.erase_cons_tail (by simpa using other)
  have fewer : s'.cmds.Sublist s.cmds := by
    rw [drops.cmds]
    exact List.erase_sublist
  have nodup : s.cmds.Nodup := core.sorted.imp Nat.ne_of_lt
  have other : ∀ d ∈ s'.cmds, d ≠ c := by
    rintro d listed rfl
    rw [drops.cmds] at listed
    exact nodup.not_mem_erase listed
  have kept : ∀ d ∈ s'.cmds, s'.mem d = s.mem d := fun d listed =>
    drops.others d (other d listed)
  have waits : ∀ d ∈ waiting.erase c, d ∈ s'.cmds := fun d listed => by
    rw [cmds]
    exact List.mem_append_right _ listed
  refine ⟨⟨cmds, ?_, ?_, ?_, ?_⟩, ⟨?_, ?_, ?_, ?_, ?_⟩, ⟨?_, ?_, ?_, ?_, ?_, ?_, ?_⟩⟩
  · exact core.sorted.sublist fewer
  · intro d listed
    rw [drops.queued]
    exact core.bound d (fewer.subset listed)
  · intro alive
    rw [drops.state] at alive
    exact absurd crashed alive
  · intro d listed
    rw [drops.queued]
    exact core.recent d (fewer.subset listed)
  · intro d listed
    rw [kept d (waits d listed)]
    exact core.waits d (sublist.subset listed)
  · intro d listed unpushed
    rw [drops.pushed] at unpushed
    rw [kept d listed]
    exact core.waitAck d (fewer.subset listed) unpushed
  · intro a eq
    have away : a ≠ c := Nat.ne_of_lt (core.before a (core.sent a eq) c member)
    rw [drops.others a away]
    exact core.flight a eq
  · intro d bound
    rw [drops.queued] at bound
    rw [drops.tkn_eq]
    exact core.tkn d bound
  · rw [drops.nextTkn, drops.queued]
    exact core.nextTkn
  · rw [drops.pushed]
    exact core.pushed
  · rw [drops.pushed, drops.queued]
    exact core.pushed_lt
  · rw [drops.pushed]
    exact fun p pushed d listed => core.before p pushed d (sublist.subset listed)
  · rw [drops.queued, drops.pushed]
    intro a eq
    obtain ⟨bound, recent, above, below⟩ := core.next a eq
    exact ⟨bound, recent, above, fun d listed => below d (sublist.subset listed)⟩
  · rw [drops.pushed]
    exact core.sent
  · rw [drops.unacked, drops.hostid, drops.pushed, drops.queued, drops.state]
    rcases core.unacked with none | ⟨a, unacked, hostid, pushed, recent, place⟩
    · exact Or.inl none
    · refine Or.inr ⟨a, unacked, hostid, pushed, recent, ?_⟩
      rw [drops.others a (Nat.ne_of_lt (core.before a pushed c member))]
      exact place
  · rw [drops.unconfirmed, drops.pushed]
    exact core.unconfirmed

/-- After a crash the message task may be left with a command that is not on the list any more. -/
theorem Core.strand (core : Core s (.task c) waiting) (crashed : s.state = .crashed)
    (drops : Drops s c s') : Core s' (.stale c) waiting := by
  obtain ⟨lined, flagged, ordered⟩ := core.drop rfl (Or.inr crashed) drops
  obtain ⟨bound, recent, above, below⟩ := core.next c rfl
  refine ⟨⟨lined.cmds, lined.sorted, lined.bound, lined.dense, lined.recent⟩,
    ⟨flagged.waits, flagged.waitAck, fun a eq => (by cases eq), flagged.tkn, flagged.nextTkn⟩,
    ⟨ordered.pushed, ordered.pushed_lt, ordered.before, fun a eq => ?_, fun a eq => (by cases eq),
      ?_, ordered.unconfirmed⟩⟩
  · cases eq
    rw [drops.queued, drops.pushed]
    exact ⟨bound, recent, above, below⟩
  · rw [drops.unacked]
    rcases core.unacked with none | ⟨a, -, -, -, -, firmware | free⟩
    · exact Or.inl none
    · cases firmware.1
    · cases free.1

/-! ## Passing the turn on -/

/-- Nothing is unanswered while somebody is about to push. -/
theorem Core.unacked_eq_nil (core : Core s h waiting) (next : h.next = some c) :
    s.unacked = [] := by
  rcases core.unacked with none | ⟨a, -, -, -, -, firmware | free⟩
  · exact none
  · rw [firmware.1] at next
    cases next
  · rw [free.1] at next
    cases next

/-- The first command that waits gets the turn. -/
theorem Core.pick (core : Core s h (c :: waiting)) (command : h.command = none)
    (answered : s.unacked = []) : Core s (.task c) waiting := by
  have all := core.cmds_waiting command
  have sorted := core.sorted
  rw [all] at sorted
  have listed : c ∈ s.cmds := all ▸ List.mem_cons_self
  refine ⟨⟨all, core.sorted, core.bound, core.dense, core.recent⟩,
    ⟨fun d member => core.waits d (List.mem_cons_of_mem c member), core.waitAck,
      fun a eq => (by cases eq), core.tkn, core.nextTkn⟩,
    ⟨core.pushed, core.pushed_lt,
      fun p pushed d member => core.before p pushed d (List.mem_cons_of_mem c member),
      fun a eq => ?_, fun a eq => (by cases eq), Or.inl answered, core.unconfirmed⟩⟩
  cases eq
  exact ⟨core.bound c listed, core.recent c listed,
    fun p pushed => core.before p pushed c List.mem_cons_self,
    fun d => List.rel_of_pairwise_cons sorted⟩

/-- The turn changes to nobody in particular. -/
theorem Core.release (core : Core s h waiting) (command : h.command = none) {h' : Holder}
    (none : h' = .free ∨ h' = .woken) (answered : s.unacked = [] ∨ h' = .free ∧ h = .free) :
    Core s h' waiting := by
  have command' : h'.command = Option.none := by rcases none with rfl | rfl <;> rfl
  have next' : h'.next = Option.none := by rcases none with rfl | rfl <;> rfl
  have firmware' : ∀ a, h' ≠ .firmware a := by
    rintro a rfl
    rcases none with eq | eq <;> cases eq
  refine ⟨⟨?_, core.sorted, core.bound, core.dense, core.recent⟩,
    ⟨core.waits, core.waitAck, fun a eq => absurd eq (firmware' a), core.tkn, core.nextTkn⟩,
    ⟨core.pushed, core.pushed_lt, core.before, fun a eq => ?_, fun a eq => absurd eq (firmware' a),
      ?_, core.unconfirmed⟩⟩
  · rw [command', ← command]
    exact core.cmds
  · rw [next'] at eq
    cases eq
  · rcases answered with nothing | ⟨rfl, rfl⟩
    · exact Or.inl nothing
    · exact core.unacked

/-- The message task or a caller leaves its command on the list, to be pushed when the message task
wakes up. -/
theorem Core.leave (core : Core s (.caller c) waiting) {s' : Sys}
    (same : SameCore (s.modify c fun cmd => { cmd with waitPush := true }) s') :
    Core s' .woken (c :: waiting) := by
  obtain ⟨bound, recent, above, below⟩ := core.next c rfl
  have answered := core.unacked_eq_nil rfl
  have kept : ∀ d, ((s.modify c fun cmd => { cmd with waitPush := true }).mem d).waitAck =
      (s.mem d).waitAck :=
    Sys.modify_same (f := fun cmd => { cmd with waitPush := true }) AmlCmd.waitAck rfl
  have tkn : ∀ d, ((s.modify c fun cmd => { cmd with waitPush := true }).mem d).tkn =
      (s.mem d).tkn :=
    Sys.modify_same (f := fun cmd => { cmd with waitPush := true }) AmlCmd.tkn rfl
  refine Core.of_same (s := s.modify c fun cmd => { cmd with waitPush := true }) ?_ same
  refine ⟨⟨core.cmds, core.sorted, core.bound, core.dense, core.recent⟩,
    ⟨fun d member => ?_, fun d listed unpushed => ?_, fun a eq => (by cases eq), fun d lt => ?_,
      core.nextTkn⟩,
    ⟨core.pushed, core.pushed_lt, fun p pushed d member => ?_, fun a eq => (by cases eq),
      fun a eq => (by cases eq), Or.inl answered, core.unconfirmed⟩⟩
  · by_cases here : d = c
    · rw [here, Sys.modify_mem_self]
    · rw [Sys.modify_mem_of_ne s _ here]
      exact core.waits d ((List.mem_cons.mp member).resolve_left here)
  · rw [kept]
    exact core.waitAck d listed unpushed
  · rw [tkn]
    exact core.tkn d lt
  · rcases List.mem_cons.mp member with rfl | later
    · exact above p pushed
    · exact core.before p pushed d later

/-- A command that waits for its turn is pushed. -/
theorem Core.sendTo (core : Core s h waiting) (next : h.next = some c) {h' : Holder}
    (place : h' = .firmware c ∧ h.command = some c ∨
      h' = .free ∧ h.command = none ∧ s.state = .crashed) :
    Core (s.send c) h' waiting := by
  obtain ⟨bound, recent, above, below⟩ := core.next c next
  have answered := core.unacked_eq_nil next
  have command : h'.command = h.command := by
    rcases place with ⟨rfl, eq⟩ | ⟨rfl, eq, -⟩ <;> rw [eq] <;> rfl
  have unpushed : c ∉ s.pushed := fun pushed => Nat.lt_irrefl c (above c pushed)
  have earlier : ∀ p, p ∈ s.pushed ++ [c] → p ∈ s.pushed ∨ p = c := fun p member =>
    (List.mem_append.mp member).imp_right List.mem_singleton.mp
  refine ⟨⟨?_, core.sorted, core.bound, core.dense, core.recent⟩,
    ⟨core.waits, fun d listed fresh => ?_, fun a eq => ?_, core.tkn, core.nextTkn⟩,
    ⟨?_, ?_, ?_, fun a eq => ?_, fun a eq => ?_, Or.inr ⟨c, ?_, rfl, ?_, recent, ?_⟩, ?_⟩⟩
  · rw [command]
    exact core.cmds
  · exact core.waitAck d listed fun pushed => fresh (List.mem_append_left _ pushed)
  · rcases place with ⟨firmware, eq'⟩ | ⟨free, -, -⟩
    · rw [firmware] at eq
      cases eq
      have listed : c ∈ s.cmds := by
        rw [core.cmds_eq eq']
        exact List.mem_cons_self
      exact Or.inl (core.waitAck c listed unpushed)
    · rw [free] at eq
      cases eq
  · refine List.pairwise_append.mpr ⟨core.pushed, List.pairwise_singleton _ c, ?_⟩
    intro p pushed q q_eq
    rw [List.mem_singleton.mp q_eq]
    exact above p pushed
  · intro p member
    rcases earlier p member with pushed | rfl
    · exact core.pushed_lt p pushed
    · exact bound
  · intro p member d later
    rcases earlier p member with pushed | rfl
    · exact core.before p pushed d later
    · exact below d later
  · rcases place with ⟨rfl, -⟩ | ⟨rfl, -, -⟩ <;> cases eq
  · rcases place with ⟨rfl, -⟩ | ⟨rfl, -, -⟩
    · cases eq
      exact List.mem_append_right _ (List.mem_singleton.mpr rfl)
    · cases eq
  · rw [Sys.send, answered]
    rfl
  · exact List.mem_append_right _ (List.mem_singleton.mpr rfl)
  · rcases place with ⟨rfl, eq⟩ | ⟨rfl, -, crashed⟩
    · have listed : c ∈ s.cmds := by
        rw [core.cmds_eq eq]
        exact List.mem_cons_self
      exact Or.inl ⟨rfl, core.waitAck c listed unpushed⟩
    · exact Or.inr ⟨rfl, crashed⟩
  · intro a member
    rcases List.mem_append.mp member with before | new
    · exact List.mem_append_left _ (core.unconfirmed a before)
    · exact List.mem_append_right _ new

/-- Flags of one command change. -/
theorem Core.modify (core : Core s h waiting) {f : AmlCmd → AmlCmd}
    (tkn : (f (s.mem c)).tkn = (s.mem c).tkn)
    (push : c ∈ waiting → (f (s.mem c)).waitPush = (s.mem c).waitPush)
    (ack : c ∉ s.pushed ∨ c ∈ s.unacked → (f (s.mem c)).waitAck = (s.mem c).waitAck)
    (flight : h = .firmware c → (f (s.mem c)).waitAck = true ∨ (f (s.mem c)).waitCfm = true) :
    Core (s.modify c f) h waiting := by
  refine ⟨⟨core.cmds, core.sorted, core.bound, core.dense, core.recent⟩,
    ⟨fun d member => ?_, fun d listed unpushed => ?_, fun a eq => ?_, fun d lt => ?_,
      core.nextTkn⟩,
    ⟨core.pushed, core.pushed_lt, core.before, core.next, core.sent, ?_, core.unconfirmed⟩⟩
  · by_cases here : d = c
    · subst here
      rw [Sys.modify_mem_self, push member]
      exact core.waits d member
    · rw [Sys.modify_mem_of_ne s f here]
      exact core.waits d member
  · by_cases here : d = c
    · subst here
      rw [Sys.modify_mem_self, ack (Or.inl unpushed)]
      exact core.waitAck d listed unpushed
    · rw [Sys.modify_mem_of_ne s f here]
      exact core.waitAck d listed unpushed
  · by_cases here : a = c
    · subst here
      rw [Sys.modify_mem_self]
      exact flight eq
    · rw [Sys.modify_mem_of_ne s f here]
      exact core.flight a eq
  · rw [Sys.modify_same AmlCmd.tkn tkn]
    exact core.tkn d lt
  · rcases core.unacked with none | ⟨a, unacked, hostid, pushed, recent, place⟩
    · exact Or.inl none
    · refine Or.inr ⟨a, unacked, hostid, pushed, recent, place.imp_left ?_⟩
      rintro ⟨eq, flag⟩
      refine ⟨eq, ?_⟩
      by_cases here : a = c
      · subst here
        rw [Sys.modify_mem_self, ack (Or.inr (unacked ▸ List.mem_cons_self))]
        exact flag
      · rw [Sys.modify_mem_of_ne s f here]
        exact flag

/-- Answers are taken. -/
theorem Core.answer (core : Core s h waiting) (hostid : Option Nat) (unacked unconfirmed : List Nat)
    (credits : List (Nat × Nat)) (acks : unacked = [] ∨ unacked = s.unacked ∧ hostid = s.hostid)
    (cfms : ∀ c ∈ unconfirmed, c ∈ s.pushed) :
    Core { s with hostid, unacked, unconfirmed, credits } h waiting := by
  refine ⟨⟨core.cmds, core.sorted, core.bound, core.dense, core.recent⟩,
    ⟨core.waits, core.waitAck, core.flight, core.tkn, core.nextTkn⟩,
    ⟨core.pushed, core.pushed_lt, core.before, core.next, core.sent, ?_, cfms⟩⟩
  rcases acks with none | ⟨same, host⟩
  · exact Or.inl none
  · simp only [same, host]
    exact core.unacked

/-- The manager crashes. -/
theorem Core.crash (core : Core s h waiting) (same : SameCore { s with state := .crashed } s') :
    Core s' h waiting := by
  refine Core.of_same (s := { s with state := .crashed }) ?_ same
  refine ⟨⟨core.cmds, core.sorted, core.bound, fun alive => absurd rfl alive, core.recent⟩,
    ⟨core.waits, core.waitAck, core.flight, core.tkn, core.nextTkn⟩,
    ⟨core.pushed, core.pushed_lt, core.before, core.next, core.sent, ?_, core.unconfirmed⟩⟩
  rcases core.unacked with none | ⟨a, unacked, hostid, pushed, recent, place⟩
  · exact Or.inl none
  · exact Or.inr ⟨a, unacked, hostid, pushed, recent, place.imp_right fun free => ⟨free.1, rfl⟩⟩

end AmlW2.Cmd
