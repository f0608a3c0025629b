import AmlW2.Cmd.Steps

/-!
# What is queued is ended once

Every command queued is on the list or has been taken off it once, and then it was completed or, if
nobody waits for it, freed.  This holds over exactly those runs in which no failed push, no time-out
and no ACK ends a command that a drain or a time-out has already taken off the list, no command is
queued between the drain and the end of the manager, and no handler calls it after that.
-/

namespace AmlW2.Cmd

variable {s s' : Sys} {c d : Nat}

/-- The books of the manager are in order. -/
structure Accounted (s : Sys) : Prop where
  queueSz : s.queueSz = s.cmds.length
  maxQueueSz : s.maxQueueSz = if s.down = .cleared then 0 else amlCmdMaxQueued
  bounded : s.cmds.length ≤ s.maxQueueSz
  /-- Every command queued is on the list or was taken off it once. -/
  custody : (s.cmds ++ s.removed).Perm (List.range s.queued)
  /-- Every command taken off the list was completed or freed once. -/
  ended : (s.completed ++ s.freed).Perm s.removed
  completed : ∀ c ∈ s.completed, (s.mem c).nonblock = false
  freed : ∀ c ∈ s.freed, (s.mem c).nonblock = true

theorem Accounted.nodup (accounted : Accounted s) : (s.cmds ++ s.removed).Nodup :=
  accounted.custody.nodup_iff.mpr List.nodup_range

theorem Accounted.lt_of_mem (accounted : Accounted s) (listed : c ∈ s.cmds) : c < s.queued :=
  List.mem_range.mp (accounted.custody.mem_iff.mp (List.mem_append_left _ listed))

/-- There is no command on the list of a manager that is cleared. -/
theorem Accounted.cmds_eq_nil (accounted : Accounted s) (cleared : s.down = .cleared) :
    s.cmds = [] := by
  have bounded := accounted.bounded
  rw [accounted.maxQueueSz, if_pos cleared] at bounded
  exact List.length_eq_zero_iff.mp (Nat.le_zero.mp bounded)

theorem Accounted.not_cleared (accounted : Accounted s) (listed : c ∈ s.cmds) :
    s.down ≠ .cleared := by
  intro cleared
  rw [accounted.cmds_eq_nil cleared] at listed
  cases listed

theorem Accounted.of_same (accounted : Accounted s) (same : SameBooks s s') : Accounted s' := by
  obtain ⟨queueSz, maxQueueSz, bounded, custody, ended, completed, freed⟩ := accounted
  refine ⟨?_, ?_, ?_, ?_, ?_, ?_, ?_⟩
  · rw [same.queueSz, same.cmds, queueSz]
  · rw [same.maxQueueSz, same.down, maxQueueSz]
  · rwa [same.cmds, same.maxQueueSz]
  · rwa [same.cmds, same.removed, same.queued]
  · rwa [same.completed, same.freed, same.removed]
  · intro c member
    rw [same.nonblock]
    exact completed c (same.completed ▸ member)
  · intro c member
    rw [same.nonblock]
    exact freed c (same.freed ▸ member)

/-! ## Taking a command off the list -/

/-- A command is taken off the list and ended. -/
structure Ended (s : Sys) (c : Nat) (s' : Sys) : Prop where
  cmds : s'.cmds = s.cmds.erase c
  queueSz : s'.queueSz = decr s.queueSz
  maxQueueSz : s'.maxQueueSz = s.maxQueueSz
  queued : s'.queued = s.queued
  down : s'.down = s.down
  removed : s'.removed = s.removed ++ [c]
  completed : s'.completed = if (s.mem c).nonblock then s.completed else s.completed ++ [c]
  freed : s'.freed = if (s.mem c).nonblock then s.freed ++ [c] else s.freed
  nonblock : ∀ d, (s'.mem d).nonblock = (s.mem d).nonblock

theorem ended_update (s : Sys) (c : Nat) (mem : Nat → AmlCmd) (s' : Sys)
    (eq : s' = { s.finish c with mem }) (kept : ∀ d, (mem d).nonblock = (s.mem d).nonblock) :
    Ended s c s' := by
  subst eq
  exact ⟨rfl, rfl, rfl, rfl, rfl, rfl, rfl, rfl, kept⟩

theorem update_nonblock {cmd : AmlCmd} (kept : cmd.nonblock = (s.mem c).nonblock) (d : Nat) :
    (Function.update s.mem c cmd d).nonblock = (s.mem d).nonblock :=
  Sys.modify_same (f := fun _ => cmd) AmlCmd.nonblock kept d

theorem ended_finish (s : Sys) (c : Nat) : Ended s c (s.finish c) := by
  refine ended_update s c _ _ rfl (update_nonblock ?_)
  rw [AmlCmd.finish_eq]

theorem ended_drain (s : Sys) (c : Nat) : Ended s c (drainCmd s c) := by
  refine ended_update s c _ _ rfl (update_nonblock ?_)
  simp only [AmlCmd.drain]
  split_ifs <;> rfl

theorem Accounted.end (accounted : Accounted s) (listed : c ∈ s.cmds) (ended : Ended s c s') :
    Accounted s' := by
  have shorter := List.length_erase_of_mem listed
  have some : 0 < s.cmds.length := List.length_pos_of_mem listed
  have size := accounted.queueSz
  refine ⟨?size, ?most, ?bounded, ?custody, ?ended, ?completed, ?freed⟩
  case size =>
    rw [ended.queueSz, ended.cmds, shorter, size, decr, if_neg (by omega)]
  case most => rw [ended.maxQueueSz, ended.down, accounted.maxQueueSz]
  case bounded =>
    rw [ended.cmds, ended.maxQueueSz, shorter]
    exact Nat.le_trans (Nat.sub_le _ 1) accounted.bounded
  case custody =>
    rw [ended.cmds, ended.removed, ended.queued]
    refine List.Perm.trans ?_ accounted.custody
    -- the command moves from the list to the commands removed
    have moved : (s.cmds.erase c ++ [c]).Perm s.cmds :=
      (List.perm_append_comm.trans (List.perm_cons_erase listed).symm)
    rw [← List.append_assoc]
    refine List.Perm.trans ?_ (List.Perm.append_right s.removed moved)
    rw [List.append_assoc, List.append_assoc]
    exact List.Perm.append_left _ List.perm_append_comm
  case ended =>
    rw [ended.removed, ended.completed, ended.freed]
    split_ifs
    · rw [← List.append_assoc]
      exact accounted.ended.append_right [c]
    · rw [List.append_assoc]
      refine List.Perm.trans (List.Perm.append_left _ List.perm_append_comm) ?_
      rw [← List.append_assoc]
      exact accounted.ended.append_right [c]
  case completed =>
    intro d member
    rw [ended.nonblock]
    rw [ended.completed] at member
    split_ifs at member with nonblock
    · exact accounted.completed d member
    · rcases List.mem_append.mp member with before | new
      · exact accounted.completed d before
      · rw [List.mem_singleton.mp new]
        exact Bool.eq_false_iff.mpr nonblock
  case freed =>
    intro d member
    rw [ended.nonblock]
    rw [ended.freed] at member
    split_ifs at member with nonblock
    · rcases List.mem_append.mp member with before | new
      · exact accounted.freed d before
      · rw [List.mem_singleton.mp new]
        exact nonblock
    · exact accounted.freed d member

theorem Accounted.complete (accounted : Accounted s) (listed : c ∈ s.cmds) :
    cmdComplete s c = .ok (s.finish c) ∧ Accounted (s.finish c) :=
  ⟨cmdComplete_of_mem listed, accounted.end listed (ended_finish s c)⟩

/-- The phases of the end of the manager up to the drain leave the books as they are. -/
theorem Accounted.phase (accounted : Accounted s) {down : Down} (before : s.down ≠ .cleared)
    (after : down ≠ .cleared) : Accounted { s with down } := by
  obtain ⟨queueSz, maxQueueSz, bounded, custody, ended, completed, freed⟩ := accounted
  refine ⟨queueSz, ?_, bounded, custody, ended, completed, freed⟩
  rw [if_neg before] at maxQueueSz
  rw [if_neg after]
  exact maxQueueSz

theorem Accounted.drainCmds (accounted : Accounted s) :
    Accounted (s.cmds.foldl drainCmd s) := by
  have turns : ∀ (cmds : List Nat) (s : Sys), Accounted s → s.cmds = cmds →
      Accounted (cmds.foldl drainCmd s) := by
    intro cmds
    induction cmds with
    | nil => exact fun s accounted _ => accounted
    | cons c cmds induction =>
        intro s accounted listed
        refine induction (drainCmd s c) (accounted.end ?_ (ended_drain s c)) ?_
        · rw [listed]
          exact List.mem_cons_self
        · change s.cmds.erase c = cmds
          rw [listed, List.erase_cons_head]
  exact turns s.cmds s accounted rfl

theorem foldl_drainCmd_down (cmds : List Nat) (s : Sys) :
    (cmds.foldl drainCmd s).down = s.down := by
  induction cmds generalizing s with
  | nil => rfl
  | cons c cmds induction => exact induction (drainCmd s c)

theorem Accounted.drain (accounted : Accounted s) (marked : s.down ≠ .cleared) :
    Accounted (cmdMgrDrain s) := by
  refine accounted.drainCmds.phase ?_ Down.noConfusion
  rw [foldl_drainCmd_down]
  exact marked

/-- The books of a manager that is cleared are in order exactly if no command was on the list. -/
theorem Accounted.clear_iff (accounted : Accounted s) : Accounted s.clear ↔ s.cmds = [] := by
  constructor
  · intro after
    have all := accounted.custody.length_eq.trans after.custody.length_eq.symm
    simp only [Sys.clear, List.length_append, List.length_nil] at all
    exact List.length_eq_zero_iff.mp (by omega)
  · intro empty
    obtain ⟨-, -, -, custody, ended, completed, freed⟩ := accounted
    rw [empty] at custody
    exact ⟨rfl, rfl, Nat.le_refl 0, custody, ended, completed, freed⟩

theorem Accounted.init (accounted : Accounted s) (cleared : s.down = .cleared) :
    Accounted (amlCmdMgrInit s) := by
  have empty := accounted.cmds_eq_nil cleared
  obtain ⟨queueSz, -, -, custody, ended, completed, freed⟩ := accounted
  rw [empty] at queueSz custody
  exact ⟨queueSz, rfl, Nat.zero_le _, custody, ended, completed, freed⟩

theorem Accounted.queue (accounted : Accounted s) (r : Request) : Accounted (cmdMgrQueue s r) := by
  rw [cmdMgrQueue]
  split_ifs with crashed full
  · exact accounted
  · exact accounted
  · obtain ⟨queueSz, maxQueueSz, bounded, custody, ended, completed, freed⟩ := accounted
    have up : s.down ≠ .cleared := by
      intro cleared
      rw [maxQueueSz, if_pos cleared] at full bounded
      refine full ⟨by rw [Sys.listEmpty, cleared]; exact Bool.and_false _, ?_⟩
      exact queueSz.trans (Nat.le_zero.mp bounded)
    have room : s.cmds.length < amlCmdMaxQueued := by
      rw [queueSz] at full
      rw [maxQueueSz, if_neg up] at full bounded
      rcases Nat.lt_or_eq_of_le bounded with less | equal
      · exact less
      · cases empty : s.cmds with
        | nil => decide
        | cons c cmds => exact absurd ⟨by rw [Sys.listEmpty, empty]; rfl, equal⟩ full
    have below : ∀ c ∈ s.completed ++ s.freed, c ≠ s.queued := by
      intro c member
      have gone := List.mem_append_right s.cmds (ended.mem_iff.mp member)
      exact Nat.ne_of_lt (List.mem_range.mp (custody.mem_iff.mp gone))
    refine ⟨?size, maxQueueSz, ?bounded, ?custody, ended, ?completed, ?freed⟩
    case size =>
      simp only [Sys.enqueue, List.length_append, List.length_singleton]
      rw [queueSz, Nat.mod_eq_of_lt]
      simp only [amlCmdMaxQueued] at room
      omega
    case bounded =>
      simp only [Sys.enqueue, List.length_append, List.length_singleton]
      rw [maxQueueSz, if_neg up]
      exact room
    case custody =>
      simp only [Sys.enqueue]
      rw [List.range_succ, List.append_assoc]
      refine List.Perm.trans (List.Perm.append_left _ List.perm_append_comm) ?_
      rw [← List.append_assoc]
      exact custody.append_right [s.queued]
    case completed =>
      intro c member
      simp only [Sys.enqueue]
      rw [Function.update_of_ne (below c (List.mem_append_left _ member))]
      exact completed c member
    case freed =>
      intro c member
      simp only [Sys.enqueue]
      rw [Function.update_of_ne (below c (List.mem_append_right _ member))]
      exact freed c member

/-! ## Marks for a push -/

/-- A command that its caller or the message task is about to push, or that was the last one pushed,
is not marked for a push. -/
structure Unmarked (s : Sys) : Prop where
  pushing : ∀ c, s.caller c = .pushing → c < s.queued ∧ (s.mem c).waitPush = false
  found : ∀ c, s.task = .found c → c < s.queued ∧ s.caller c ≠ .pushing
  cleared : ∀ c, s.task = .cleared c →
    c < s.queued ∧ s.caller c ≠ .pushing ∧ (s.mem c).waitPush = false
  host : ∀ c, s.hostid = some c →
    c < s.queued ∧ s.caller c ≠ .pushing ∧ (s.mem c).waitPush = false

/-- No mark is set and no caller starts to push. -/
structure Calmer (s s' : Sys) : Prop where
  queued : s'.queued = s.queued
  pushing : ∀ c, s'.caller c = .pushing → s.caller c = .pushing
  waitPush : ∀ c, (s.mem c).waitPush = false → (s'.mem c).waitPush = false

theorem Calmer.of_eq (queued : s'.queued = s.queued) (caller : s'.caller = s.caller)
    (mem : s'.mem = s.mem) : Calmer s s' :=
  ⟨queued, fun _ pushing => caller ▸ pushing, fun _ clear => mem ▸ clear⟩

theorem Unmarked.of_calmer (unmarked : Unmarked s) (calmer : Calmer s s')
    (task : s'.task = s.task ∨ s'.task = .idle ∨ ∃ c sent, s'.task = .relocking c sent)
    (host : s'.hostid = s.hostid ∨ s'.hostid = none) : Unmarked s' := by
  have still : ∀ c, s.caller c ≠ .pushing → s'.caller c ≠ .pushing := fun c other pushing =>
    other (calmer.pushing c pushing)
  refine ⟨fun c pushing => ?_, fun c found => ?_, fun c cleared => ?_, fun c some => ?_⟩
  · obtain ⟨bound, clear⟩ := unmarked.pushing c (calmer.pushing c pushing)
    exact ⟨calmer.queued ▸ bound, calmer.waitPush c clear⟩
  · rcases task with same | idle | ⟨d, sent, relocking⟩
    · obtain ⟨bound, other⟩ := unmarked.found c (same ▸ found)
      exact ⟨calmer.queued ▸ bound, still c other⟩
    · rw [idle] at found
      cases found
    · rw [relocking] at found
      cases found
  · rcases task with same | idle | ⟨d, sent, relocking⟩
    · obtain ⟨bound, other, clear⟩ := unmarked.cleared c (same ▸ cleared)
      exact ⟨calmer.queued ▸ bound, still c other, calmer.waitPush c clear⟩
    · rw [idle] at cleared
      cases cleared
    · rw [relocking] at cleared
      cases cleared
  · rcases host with same | none
    · obtain ⟨bound, other, clear⟩ := unmarked.host c (same ▸ some)
      exact ⟨calmer.queued ▸ bound, still c other, calmer.waitPush c clear⟩
    · rw [none] at some
      cases some

theorem calmer_modify (s : Sys) (c : Nat) {f : AmlCmd → AmlCmd}
    (clear : (s.mem c).waitPush = false → (f (s.mem c)).waitPush = false) :
    Calmer s (s.modify c f) := by
  refine ⟨rfl, fun _ => id, fun d before => ?_⟩
  by_cases same : d = c
  · subst same
    rw [Sys.modify_mem_self]
    exact clear before
  · rw [Sys.modify_mem_of_ne s f same]
    exact before

theorem calmer_go (s : Sys) (c : Nat) {caller : Caller} (other : caller ≠ .pushing) :
    Calmer s (s.go c caller) := by
  refine ⟨rfl, fun d pushing => ?_, fun _ => id⟩
  by_cases same : d = c
  · subst same
    rw [Sys.go_caller_self] at pushing
    exact absurd pushing other
  · rwa [Sys.go_caller_of_ne s caller same] at pushing

theorem calmer_finish (s : Sys) (c : Nat) : Calmer s (s.finish c) := by
  refine ⟨rfl, fun _ => id, fun d clear => ?_⟩
  by_cases same : d = c
  · subst same
    rw [Sys.finish_mem_self, AmlCmd.finish_eq]
    exact clear
  · rw [Sys.finish_mem_of_ne s same]
    exact clear

theorem calmer_drain (s : Sys) (c : Nat) : Calmer s (drainCmd s c) := by
  refine ⟨rfl, fun _ => id, fun d clear => ?_⟩
  by_cases same : d = c
  · subst same
    rw [drainCmd]
    simp only [Function.update_self, AmlCmd.drain]
    split_ifs <;> simp only [clear]
  · rw [drainCmd]
    simp only [Function.update_of_ne same]
    exact clear

theorem Unmarked.finish (unmarked : Unmarked s) (c : Nat) : Unmarked (s.finish c) :=
  unmarked.of_calmer (calmer_finish s c) (Or.inl rfl) (Or.inl rfl)

theorem Unmarked.go (unmarked : Unmarked s) (c : Nat) {caller : Caller}
    (other : caller ≠ .pushing) :
    Unmarked (s.go c caller) :=
  unmarked.of_calmer (calmer_go s c other) (Or.inl rfl) (Or.inl rfl)

theorem Unmarked.modify (unmarked : Unmarked s) (c : Nat) {f : AmlCmd → AmlCmd}
    (clear : (s.mem c).waitPush = false → (f (s.mem c)).waitPush = false) :
    Unmarked (s.modify c f) :=
  unmarked.of_calmer (calmer_modify s c clear) (Or.inl rfl) (Or.inl rfl)

theorem Unmarked.up (unmarked : Unmarked s) : Unmarked s.up :=
  unmarked.of_calmer (.of_eq rfl rfl rfl) (Or.inl rfl) (Or.inl rfl)

theorem Unmarked.drainCmds (unmarked : Unmarked s) : Unmarked (s.cmds.foldl drainCmd s) := by
  have turns : ∀ (cmds : List Nat) (s : Sys), Unmarked s → Unmarked (cmds.foldl drainCmd s) := by
    intro cmds
    induction cmds with
    | nil => exact fun s unmarked => unmarked
    | cons c cmds induction =>
        intro s unmarked
        exact induction _ (unmarked.of_calmer (calmer_drain s c) (Or.inl rfl) (Or.inl rfl))
  exact turns s.cmds s unmarked

theorem Unmarked.drain (unmarked : Unmarked s) : Unmarked (cmdMgrDrain s) :=
  unmarked.drainCmds.of_calmer (.of_eq rfl rfl rfl) (Or.inl rfl) (Or.inl rfl)

theorem Unmarked.stop (unmarked : Unmarked s) : Unmarked s.stop :=
  ⟨unmarked.pushing, fun c found => (by cases found), fun c cleared => (by cases cleared),
    unmarked.host⟩

theorem Unmarked.init (unmarked : Unmarked s) : Unmarked (amlCmdMgrInit s) :=
  unmarked.of_calmer (.of_eq rfl rfl rfl) (Or.inr (Or.inl rfl)) (Or.inr rfl)

/-- A command that is not marked, and not about to be pushed by its caller, is pushed. -/
theorem Unmarked.sent (unmarked : Unmarked s) (bound : c < s.queued)
    (other : s.caller c ≠ .pushing) (clear : (s.mem c).waitPush = false) (accepted : Bool) :
    Unmarked (amlIpcMsgPush s c accepted).2 := by
  rw [amlIpcMsgPush]
  split_ifs
  · refine ⟨unmarked.pushing, unmarked.found, unmarked.cleared, fun d some => ?_⟩
    cases some
    exact ⟨bound, other, clear⟩
  · exact unmarked

theorem afterPush_ne (nonblock : Bool) : afterPush nonblock ≠ .pushing := by
  cases nonblock <;> decide

theorem Unmarked.enqueue (unmarked : Unmarked s) (r : Request) : Unmarked (s.enqueue r) := by
  have before : ∀ {c}, c < s.queued → (s.enqueue r).mem c = s.mem c ∧
      (s.enqueue r).caller c = s.caller c := fun bound =>
    ⟨Function.update_of_ne (Nat.ne_of_lt bound) _ _,
      Function.update_of_ne (Nat.ne_of_lt bound) _ _⟩
  have later : ∀ {c}, c < s.queued → c < (s.enqueue r).queued := Nat.lt_succ_of_lt
  refine ⟨fun c pushing => ?_, fun c found => ?_, fun c cleared => ?_, fun c some => ?_⟩
  · by_cases new : c = s.queued
    · subst new
      refine ⟨Nat.lt_succ_self _, ?_⟩
      simp only [Sys.enqueue, Function.update_self] at pushing ⊢
      split_ifs at pushing with deferred
      · exact absurd pushing (afterPush_ne _)
      · exact Bool.eq_false_iff.mpr deferred
    · rw [Sys.enqueue] at pushing
      simp only [Function.update_of_ne new] at pushing
      obtain ⟨bound, clear⟩ := unmarked.pushing c pushing
      rw [(before bound).1]
      exact ⟨later bound, clear⟩
  · obtain ⟨bound, other⟩ := unmarked.found c found
    rw [(before bound).2]
    exact ⟨later bound, other⟩
  · obtain ⟨bound, other, clear⟩ := unmarked.cleared c cleared
    rw [(before bound).1, (before bound).2]
    exact ⟨later bound, other, clear⟩
  · obtain ⟨bound, other, clear⟩ := unmarked.host c some
    rw [(before bound).1, (before bound).2]
    exact ⟨later bound, other, clear⟩

/-- The caller leaves its command to the message task. -/
theorem Unmarked.leave (unmarked : Unmarked s) (pushing : s.caller c = .pushing) :
    Unmarked ((s.modify c fun cmd => { cmd with waitPush := true }).up.go c
      (afterPush (s.mem c).nonblock)) := by
  -- only the command of this caller is marked, and nobody else is about to push it
  have apart : ∀ {d}, s.caller d ≠ .pushing → d ≠ c := by
    rintro d other rfl
    exact other pushing
  have mem : ∀ {d}, d ≠ c → ((s.modify c fun cmd => { cmd with waitPush := true }).up.go c
      (afterPush (s.mem c).nonblock)).mem d = s.mem d := fun other =>
    Function.update_of_ne other _ s.mem
  have caller : ∀ {d}, d ≠ c → ((s.modify c fun cmd => { cmd with waitPush := true }).up.go c
      (afterPush (s.mem c).nonblock)).caller d = s.caller d := fun other =>
    Sys.go_caller_of_ne _ _ other
  refine ⟨fun d after => ?_, fun d found => ?_, fun d cleared => ?_, fun d some => ?_⟩
  · by_cases same : d = c
    · subst same
      rw [Sys.go_caller_self] at after
      exact absurd after (afterPush_ne _)
    · rw [caller same] at after
      rw [mem same]
      exact unmarked.pushing d after
  · obtain ⟨bound, other⟩ := unmarked.found d found
    rw [caller (apart other)]
    exact ⟨bound, other⟩
  · obtain ⟨bound, other, clear⟩ := unmarked.cleared d cleared
    rw [caller (apart other), mem (apart other)]
    exact ⟨bound, other, clear⟩
  · obtain ⟨bound, other, clear⟩ := unmarked.host d some
    rw [caller (apart other), mem (apart other)]
    exact ⟨bound, other, clear⟩

theorem Unmarked.leaveMsg (unmarked : Unmarked s) (pushing : s.caller c = .pushing)
    (accepted sent : Bool) : Unmarked ((amlIpcMsgPush s c accepted).2.go c (.relocking sent)) := by
  obtain ⟨bound, clear⟩ := unmarked.pushing c pushing
  have gone : Unmarked (s.go c (.relocking sent)) := unmarked.go c Caller.noConfusion
  have other : (s.go c (.relocking sent)).caller c ≠ .pushing := by
    rw [Sys.go_caller_self]
    exact Caller.noConfusion
  have after := gone.sent bound other clear accepted
  have commute : (amlIpcMsgPush (s.go c (.relocking sent)) c accepted).2 =
      (amlIpcMsgPush s c accepted).2.go c (.relocking sent) := by
    by_cases goes : ((s.mem c).a2eMsg && accepted) = true
    · rw [amlIpcMsgPush, amlIpcMsgPush, if_pos (by exact goes), if_pos goes]
      rfl
    · rw [amlIpcMsgPush, amlIpcMsgPush, if_neg (by exact goes), if_neg goes]
  rwa [commute] at after

/-! ## Pushing the next command -/

/-- What every step keeps. -/
structure Kept (s : Sys) : Prop extends Accounted s, Unmarked s

theorem Kept.of_same (kept : Kept s) (same : SameBooks s s') (unmarked : Unmarked s') : Kept s' :=
  ⟨kept.toAccounted.of_same same, unmarked⟩

theorem Kept.go (kept : Kept s) (c : Nat) {caller : Caller} (other : caller ≠ .pushing) :
    Kept (s.go c caller) := kept.of_same (sameBooks_go _ _ _) (kept.toUnmarked.go c other)

theorem Kept.modify (kept : Kept s) (c : Nat) {f : AmlCmd → AmlCmd}
    (nonblock : (f (s.mem c)).nonblock = (s.mem c).nonblock)
    (clear : (s.mem c).waitPush = false → (f (s.mem c)).waitPush = false) : Kept (s.modify c f) :=
  kept.of_same (sameBooks_modify s c nonblock) (kept.toUnmarked.modify c clear)

theorem Kept.complete (kept : Kept s) (listed : c ∈ s.cmds) :
    cmdComplete s c = .ok (s.finish c) ∧ Kept (s.finish c) := by
  obtain ⟨ran, after⟩ := kept.toAccounted.complete listed
  exact ⟨ran, after, kept.toUnmarked.finish c⟩

/-- A command whose push fails is completed while it is on the list. -/
theorem Kept.pushFailed (kept : Kept s) (listed : c ∈ s.cmds) :
    Cmd.pushFailed s c = .ok ((s.giveUp c).finish c) ∧ Kept ((s.giveUp c).finish c) :=
  (kept.modify c rfl id).complete listed

theorem pushFailed_of_not_mem (gone : c ∉ s.cmds) : pushFailed s c = .error .listDel :=
  cmdComplete_of_not_mem gone

theorem Kept.freeMsg (kept : Kept s) (c : Nat) : Kept (freeMsg s c) := kept.modify c rfl id

theorem Kept.nextCmd (accepted : Nat → Bool) {turns : Nat} (kept : Kept s) (listed : c ∈ s.cmds)
    (waits : (s.mem c).waitPush = true) :
    ∃ s', cmdMgrNextCmd accepted turns s c = .ok s' ∧ Kept s' := by
  induction turns generalizing s c with
  | zero => exact ⟨s, rfl, kept⟩
  | succ turns induction =>
      rw [cmdMgrNextCmd]
      have bound := kept.lt_of_mem listed
      have other : s.caller c ≠ .pushing := by
        intro pushing
        rw [(kept.pushing c pushing).2] at waits
        cases waits
      have cleared : Kept (s.modify c fun cmd => { cmd with waitPush := false }) :=
        kept.modify c rfl fun _ => rfl
      have clear : ((s.modify c fun cmd => { cmd with waitPush := false }).mem c).waitPush =
          false := by rw [Sys.modify_mem_self]
      have books := sameBooks_push (s.modify c fun cmd => { cmd with waitPush := false }) c
        (accepted c)
      have pushed := cleared.of_same books
        (cleared.toUnmarked.sent bound other clear (accepted c))
      have freed := pushed.freeMsg c
      simp only
      split_ifs with sent
      · exact ⟨_, rfl, freed⟩
      · have there : c ∈ (Cmd.freeMsg (amlIpcMsgPush
            (s.modify c fun cmd => { cmd with waitPush := false }) c (accepted c)).2 c).cmds := by
          rw [(sameBooks_freeMsg _ c).cmds, books.cmds]
          exact listed
        obtain ⟨failed, after⟩ := freed.pushFailed there
        rw [failed]
        simp only
        split
        · rename_i cur next rest eq
          split_ifs with marked
          · refine induction after ?_ marked
            rw [eq]
            exact List.mem_cons_self
          · exact ⟨_, rfl, after⟩
        · exact ⟨_, rfl, after⟩

theorem Kept.pushNext {next : Option Nat} (accepted : Nat → Bool) (kept : Kept s)
    (listed : ∀ c, next = some c → c ∈ s.cmds ∧ (s.mem c).waitPush = true) :
    ∃ s', Cmd.pushNext s next accepted = .ok s' ∧ Kept s' := by
  cases next with
  | none => exact ⟨s, rfl, kept⟩
  | some c =>
      obtain ⟨member, waits⟩ := listed c rfl
      rw [Cmd.pushNext]
      split_ifs
      · exact kept.nextCmd accepted member waits
      · exact ⟨s.up, rfl, kept.of_same (sameBooks_up s) kept.toUnmarked.up⟩

/-- The next command found is on the list, and waits to be pushed. -/
theorem llindSearch_next {mem : Nat → AmlCmd} {tkn : Nat} {acked found : Bool} {cmds : List Nat}
    (search : llindSearch mem tkn acked cmds = (found, some c)) :
    c ∈ cmds ∧ (mem c).waitPush = true := by
  induction cmds generalizing acked with
  | nil => cases search
  | cons cur cmds induction =>
      rw [llindSearch] at search
      split_ifs at search with same waits
      · exact (induction search).imp_left (List.mem_cons_of_mem cur)
      · cases search
        exact ⟨List.mem_cons_self, waits⟩
      · exact (induction search).imp_left (List.mem_cons_of_mem cur)

theorem behind_mem {cmds : List Nat} (eq : behind c cmds = some d) (nodup : cmds.Nodup) :
    d ∈ cmds ∧ d ≠ c := by
  induction cmds with
  | nil => cases eq
  | cons cur cmds induction =>
      rw [behind] at eq
      obtain ⟨head, tail⟩ := List.nodup_cons.mp nodup
      split_ifs at eq with same
      · have member := List.mem_of_head? eq
        refine ⟨List.mem_cons_of_mem cur member, ?_⟩
        rintro rfl
        exact head (same ▸ member)
      · exact (induction eq tail).imp_left (List.mem_cons_of_mem cur)

/-- What `cmd_mgr_llind` and `cmd_mgr_msgind` do once the command waits for no more answers. -/
theorem Kept.completeNext {next : Option Nat} (accepted : Nat → Bool) (kept : Kept s)
    (listed : c ∈ s.cmds)
    (behind : ∀ d, next = some d → d ∈ s.cmds ∧ d ≠ c ∧ (s.mem d).waitPush = true) :
    ∃ s', Cmd.pushNext (s.finish c) next accepted = .ok s' ∧ Kept s' := by
  refine (kept.complete listed).2.pushNext accepted fun d eq => ?_
  obtain ⟨member, other, waits⟩ := behind d eq
  rw [Sys.finish_mem_of_ne s other]
  exact ⟨(List.mem_erase_of_ne other).mpr member, waits⟩

/-! ## Steps -/

/-- The command that a failed push, a time-out or an ACK is about to complete. -/
def Sys.ending (s : Sys) : Event → Option Nat
  | .push c _ =>
      if s.caller c = .pushing ∧ (s.bus = .pcie ∨ (s.mem c).callThread = false) ∧
        (s.mem c).a2eMsg = false then some c else none
  | .relock c => if s.caller c = .relocking false then some c else none
  | .expire c => if s.caller c = .expired ∧ (s.mem c).done = false then some c else none
  | .task _ =>
      match s.task with
      | .cleared c => if (s.mem c).a2eMsg then none else some c
      | .relocking c false => some c
      | _ => none
  | .ack c early _ =>
      if c ∈ s.unacked ∧ (s.state ≠ .deinit ∨ early = true) then
        s.hostid.filter fun c =>
          (llindSearch s.mem (s.mem c).tkn false s.cmds).1 && !(s.mem c).waitCfm
      else none
  | _ => none

/-- An answer whose handler is let through goes on to a manager that is filled with zeros. -/
def Sys.Stray (s : Sys) : Event → Prop
  | .ack c early _ =>
      s.down = .cleared ∧ c ∈ s.unacked ∧ s.hostid ≠ none ∧ (s.state ≠ .deinit ∨ early = true)
  | .cfm c early _ _ _ =>
      s.down = .cleared ∧ c ∈ s.unconfirmed ∧ (s.state ≠ .deinit ∨ early = true)
  | _ => False

/-- What a step needs to keep the books. -/
structure Listed (s : Sys) (e : Event) : Prop where
  /-- A command about to be completed so is still on the list. -/
  listed : ∀ c, s.ending e = some c → c ∈ s.cmds
  /-- No command was queued between the drain and the end of the manager. -/
  empty : e = .clear → s.down = .drained → s.cmds = []
  heard : ¬s.Stray e

/-- A step keeps the books exactly if it meets the condition.  Without it, only the end of the
manager comes through. -/
def Settles (s : Sys) (e : Event) : Prop :=
  (Listed s e → ∃ s', s.step e = .ok s' ∧ Kept s') ∧
    (¬Listed s e → ∀ s', s.step e = .ok s' → e = .clear ∧ ¬Accounted s')

/-- Neither the end of the manager nor an answer that comes after it. -/
def Sys.Calm (s : Sys) (e : Event) : Prop := e ≠ .clear ∧ ¬s.Stray e

theorem Sys.Calm.listed_iff {e : Event} (calm : s.Calm e) :
    Listed s e ↔ ∀ c, s.ending e = some c → c ∈ s.cmds :=
  ⟨fun listed => listed.listed, fun all => ⟨all, fun clear => absurd clear calm.1, calm.2⟩⟩

theorem Settles.of_listed {e : Event} (listed : Listed s e)
    (ran : ∃ s', s.step e = .ok s' ∧ Kept s') : Settles s e :=
  ⟨fun _ => ran, fun outside => absurd listed outside⟩

/-- A step that ends no command with a failed push, a time-out or an ACK. -/
theorem Settles.of_ok {e : Event} (calm : s.Calm e) (none : s.ending e = none)
    (ran : ∃ s', s.step e = .ok s' ∧ Kept s') : Settles s e := by
  refine .of_listed (calm.listed_iff.mpr fun c some => ?_) ran
  rw [none] at some
  cases some

/-- A step that does not come through. -/
theorem Settles.of_fault {e : Event} {fault : Fault} (outside : ¬Listed s e)
    (ran : s.step e = .error fault) : Settles s e := by
  refine ⟨fun listed => absurd listed outside, fun _ s' ok => ?_⟩
  rw [ran] at ok
  cases ok

/-- A step that ends a command so, and then goes on. -/
theorem Settles.of_ending {e : Event} (calm : s.Calm e) (some : s.ending e = some c)
    (listed : c ∈ s.cmds → ∃ s', s.step e = .ok s' ∧ Kept s')
    (gone : c ∉ s.cmds → s.step e = .error .listDel) : Settles s e := by
  have only : Listed s e ↔ c ∈ s.cmds := by
    refine calm.listed_iff.trans ⟨fun all => all c some, fun member d other => ?_⟩
    rw [some] at other
    cases other
    exact member
  by_cases member : c ∈ s.cmds
  · exact .of_listed (only.mpr member) (listed member)
  · exact .of_fault (fun all => member (only.mp all)) (gone member)

theorem Kept.push (kept : Kept s) (c : Nat) (accepted : Bool) : Settles s (.push c accepted) := by
  have calm : s.Calm (.push c accepted) := ⟨Event.noConfusion, id⟩
  by_cases pushing : s.caller c = .pushing
  · have step : s.step (.push c accepted) = callerPush s c accepted := if_pos pushing
    by_cases thread : s.bus ≠ .pcie ∧ (s.mem c).callThread = true
    · have none : s.ending (.push c accepted) = none := by
        rw [Sys.ending, if_neg]
        rintro ⟨-, pcie | direct, -⟩
        · exact thread.1 pcie
        · rw [thread.2] at direct
          cases direct
      rw [callerPush, if_pos thread] at step
      refine .of_ok calm none ⟨_, step, kept.of_same ?_ (kept.toUnmarked.leave pushing)⟩
      exact (sameBooks_modify s c rfl).trans ((sameBooks_up _).trans (sameBooks_go _ _ _))
    · rw [callerPush, if_neg thread] at step
      by_cases message : (s.mem c).a2eMsg = true
      · have none : s.ending (.push c accepted) = none := by
          rw [Sys.ending, if_neg]
          rintro ⟨-, -, missing⟩
          rw [message] at missing
          cases missing
        rw [if_pos message] at step
        have left := kept.toUnmarked.leaveMsg pushing accepted
        refine .of_ok calm none ⟨_, step, kept.of_same ?_ (left _)⟩
        exact (sameBooks_push s c accepted).trans (sameBooks_go _ _ _)
      · have direct : s.bus = .pcie ∨ (s.mem c).callThread = false := by
          rw [not_and_or, not_not, Bool.not_eq_true] at thread
          exact thread
        have some : s.ending (.push c accepted) = some c :=
          if_pos ⟨pushing, direct, Bool.eq_false_iff.mpr message⟩
        rw [if_neg message] at step
        refine .of_ending calm some (fun listed => ?_) fun gone => ?_
        · obtain ⟨failed, after⟩ := kept.pushFailed listed
          rw [failed] at step
          exact ⟨_, step, after.go c Caller.noConfusion⟩
        · rw [pushFailed_of_not_mem gone] at step
          exact step
  · have none : s.ending (.push c accepted) = none := by
      rw [Sys.ending, if_neg]
      exact fun all => pushing all.1
    exact .of_ok calm none ⟨s, if_neg pushing, kept⟩

theorem Kept.relock (kept : Kept s) (c : Nat) : Settles s (.relock c) := by
  have calm : s.Calm (.relock c) := ⟨Event.noConfusion, id⟩
  have freed := kept.freeMsg c
  cases phase : s.caller c with
  | relocking sent =>
      have step : s.step (.relock c) = callerRelock s c sent := by
        simp only [Sys.step, phase]
      cases sent with
      | true =>
          have none : s.ending (.relock c) = none := by
            rw [Sys.ending, phase]
            rfl
          exact .of_ok calm none ⟨_, step, freed.go c (afterPush_ne _)⟩
      | false =>
          have some : s.ending (.relock c) = some c := if_pos phase
          rw [callerRelock, if_neg Bool.false_ne_true] at step
          refine .of_ending calm some (fun listed => ?_) fun gone => ?_
          · obtain ⟨failed, after⟩ := freed.pushFailed listed
            rw [failed] at step
            exact ⟨_, step, after.go c Caller.noConfusion⟩
          · have gone' : c ∉ (Cmd.freeMsg s c).cmds := gone
            rw [pushFailed_of_not_mem gone'] at step
            exact step
  | _ =>
      have none : s.ending (.relock c) = none := by
        rw [Sys.ending, phase]
        rfl
      exact .of_ok calm none ⟨s, by simp only [Sys.step, phase], kept⟩

theorem Unmarked.crash (unmarked : Unmarked s) (c : Nat) : Unmarked (s.crash c) := by
  rw [Sys.crash]
  split_ifs
  · exact unmarked.of_calmer (.of_eq rfl rfl rfl) (Or.inl rfl) (Or.inl rfl)
  · exact (unmarked.modify c (f := fun cmd => { cmd with result := etimedout }) id).of_calmer
      (.of_eq rfl rfl rfl) (Or.inl rfl) (Or.inl rfl)

theorem Kept.crash (kept : Kept s) (c : Nat) : Kept (s.crash c) :=
  kept.of_same (sameBooks_crash s c) (kept.toUnmarked.crash c)

theorem Kept.expire (kept : Kept s) (c : Nat) : Settles s (.expire c) := by
  have calm : s.Calm (.expire c) := ⟨Event.noConfusion, id⟩
  by_cases expired : s.caller c = .expired
  · have step : s.step (.expire c) = callerExpire s c := if_pos expired
    have crashed := kept.crash c
    have same := sameBooks_crash s c
    by_cases done : (s.mem c).done = true
    · have none : s.ending (.expire c) = none := by
        rw [Sys.ending, if_neg]
        rintro ⟨-, open_⟩
        rw [done] at open_
        cases open_
      rw [callerExpire, if_pos done] at step
      exact .of_ok calm none ⟨_, step, crashed.go c Caller.noConfusion⟩
    · have some : s.ending (.expire c) = some c :=
        if_pos ⟨expired, Bool.eq_false_iff.mpr done⟩
      rw [callerExpire, if_neg done] at step
      refine .of_ending calm some (fun listed => ?_) fun gone => ?_
      · rw [← same.cmds] at listed
        obtain ⟨ended, after⟩ := crashed.complete listed
        rw [ended] at step
        exact ⟨_, step, after.go c Caller.noConfusion⟩
      · rw [← same.cmds] at gone
        rw [cmdComplete_of_not_mem gone] at step
        exact step
  · have none : s.ending (.expire c) = none := by
      rw [Sys.ending, if_neg]
      exact fun all => expired all.1
    exact .of_ok calm none ⟨s, if_neg expired, kept⟩

theorem Kept.idle (kept : Kept s) : Kept { s with task := .idle } :=
  kept.of_same (sameBooks_task _ _)
    (kept.toUnmarked.of_calmer (.of_eq rfl rfl rfl) (Or.inr (Or.inl rfl)) (Or.inl rfl))

/-- After a failed push the message task completes the command and wakes itself up. -/
theorem Kept.taskFailed (kept : Kept s) (listed : c ∈ s.cmds) :
    ∃ s', taskFinish s c false = .ok s' ∧ Kept s' := by
  obtain ⟨failed, after⟩ := kept.pushFailed listed
  rw [taskFinish, if_neg Bool.false_ne_true, failed]
  refine ⟨_, rfl, Kept.idle ?_⟩
  split_ifs
  · exact after.of_same (sameBooks_up _) after.toUnmarked.up
  · exact after

theorem taskFailed_of_not_mem (gone : c ∉ s.cmds) :
    taskFinish s c false = .error .listDel := by
  rw [taskFinish, if_neg Bool.false_ne_true, pushFailed_of_not_mem gone]
  rfl

/-- The message task finds a command that waits to be pushed, if there is one. -/
theorem Kept.take (kept : Kept s) : Kept (taskTake s) := by
  refine kept.of_same (sameBooks_take s) ?_
  rw [taskTake]
  split_ifs with woken
  · cases search : s.cmds.find? fun c => (s.mem c).waitPush with
    | none =>
        exact kept.toUnmarked.of_calmer (.of_eq rfl rfl rfl) (Or.inr (Or.inl rfl)) (Or.inl rfl)
    | some c =>
        have waits := List.find?_some search
        have bound := kept.lt_of_mem (List.mem_of_find?_eq_some search)
        refine ⟨kept.pushing, fun d found => ?_, fun d cleared => (by cases cleared), kept.host⟩
        cases found
        refine ⟨bound, fun pushing => ?_⟩
        rw [(kept.pushing c pushing).2] at waits
        cases waits
  · exact kept.toUnmarked

theorem Kept.task (kept : Kept s) (accepted : Bool) : Settles s (.task accepted) := by
  have calm : s.Calm (.task accepted) := ⟨Event.noConfusion, id⟩
  have step : s.step (.task accepted) = taskStep s accepted := rfl
  cases phase : s.task with
  | idle =>
      rw [taskStep, phase] at step
      have none : s.ending (.task accepted) = none := by rw [Sys.ending, phase]
      exact .of_ok calm none ⟨_, step, kept.take⟩
  | found c =>
      rw [taskStep, phase] at step
      have none : s.ending (.task accepted) = none := by rw [Sys.ending, phase]
      obtain ⟨bound, other⟩ := kept.found c phase
      have marked : Kept (s.modify c fun cmd => { cmd with waitPush := false }) :=
        kept.modify c rfl fun _ => rfl
      refine .of_ok calm none ⟨_, step, marked.of_same (sameBooks_task _ _) ?_⟩
      refine ⟨marked.pushing, fun d found => (by cases found), fun d cleared => ?_, marked.host⟩
      cases cleared
      refine ⟨bound, other, ?_⟩
      simp only [Sys.modify_mem_self]
  | cleared c =>
      rw [taskStep, phase] at step
      simp only [taskPush] at step
      by_cases message : (s.mem c).a2eMsg = true
      · have none : s.ending (.task accepted) = none := by
          rw [Sys.ending, phase]
          exact if_pos message
        rw [if_pos message] at step
        obtain ⟨bound, other, clear⟩ := kept.cleared c phase
        have same := sameBooks_push s c accepted
        have sent := kept.toUnmarked.sent bound other clear accepted
        refine .of_ok calm none ⟨_, step, kept.of_same (same.trans (sameBooks_task _ _)) ?_⟩
        exact sent.of_calmer (.of_eq rfl rfl rfl) (Or.inr (Or.inr ⟨c, _, rfl⟩)) (Or.inl rfl)
      · have some : s.ending (.task accepted) = some c := by
          rw [Sys.ending, phase]
          exact if_neg message
        rw [if_neg message] at step
        refine .of_ending calm some (fun listed => ?_) fun gone => ?_
        · rw [step]
          exact kept.taskFailed listed
        · rw [step]
          exact taskFailed_of_not_mem gone
  | stopped =>
      have none : s.ending (.task accepted) = none := by rw [Sys.ending, phase]
      refine .of_ok calm none ⟨s, ?_, kept⟩
      rw [step, taskStep, phase]
  | relocking c sent =>
      rw [taskStep, phase] at step
      have freed := kept.freeMsg c
      cases sent with
      | true =>
          have none : s.ending (.task accepted) = none := by rw [Sys.ending, phase]
          exact .of_ok calm none ⟨_, step, freed.idle⟩
      | false =>
          have some : s.ending (.task accepted) = some c := by rw [Sys.ending, phase]
          refine .of_ending calm some (fun listed => ?_) fun gone => ?_
          · rw [step]
            exact freed.taskFailed listed
          · rw [step]
            exact taskFailed_of_not_mem gone

/-- Answers are taken by the books as they are. -/
theorem Kept.answer (kept : Kept s) (hostid : Option Nat) (unacked unconfirmed : List Nat)
    (credits : List (Nat × Nat)) (host : hostid = s.hostid ∨ hostid = none) :
    Kept { s with hostid, unacked, unconfirmed, credits } :=
  kept.of_same (sameBooks_answer s _ _ _ _)
    (kept.toUnmarked.of_calmer (.of_eq rfl rfl rfl) (Or.inl rfl) host)

/-- The command of an ACK is completed while it is on the list, if it waits for nothing else. -/
theorem Kept.llind (kept : Kept s) (answered : Nat) (accepted : Nat → Bool)
    (clear : (s.mem c).waitPush = false) :
    let ends := (llindSearch s.mem (s.mem c).tkn false s.cmds).1 && !(s.mem c).waitCfm
    (ends = false ∨ c ∈ s.cmds → ∃ s', cmdMgrLlind s answered c accepted = .ok s' ∧ Kept s') ∧
      (ends = true ∧ c ∉ s.cmds → cmdMgrLlind s answered c accepted = .error .listDel) := by
  intro ends
  rw [cmdMgrLlind]
  cases search : llindSearch s.mem (s.mem c).tkn false s.cmds with
  | mk found next =>
      cases found with
      | false =>
          have none : ends = false := by
            simp only [ends, search, Bool.false_and]
          exact ⟨fun _ => ⟨s, rfl, kept⟩, fun some => absurd some.1 (by simp [none])⟩
      | true =>
          have ends_eq : ends = !(s.mem c).waitCfm := by simp only [ends, search, Bool.true_and]
          have acked : Kept (s.modify c fun cmd => { cmd with waitAck := false }) :=
            kept.modify c rfl id
          have credited := acked.answer s.hostid s.unacked s.unconfirmed
            (s.credits ++ [(answered, c)]) (Or.inl rfl)
          have complete : ((s.modify c fun cmd => { cmd with waitAck := false }).mem c).waitComplete
              = !(s.mem c).waitCfm := by
            rw [Sys.modify_mem_self]
            rfl
          simp only
          rw [complete, ← ends_eq]
          constructor
          · intro safe
            split_ifs with done
            · have listed := safe.resolve_left (by simp [done])
              rw [cmdComplete_of_mem (by exact listed)]
              refine credited.completeNext accepted listed fun d eq => ?_
              rw [eq] at search
              obtain ⟨member, waits⟩ := llindSearch_next search
              have other : d ≠ c := by
                rintro rfl
                rw [clear] at waits
                cases waits
              refine ⟨member, other, ?_⟩
              simp only [Sys.modify_mem_of_ne s _ other]
              exact waits
            · exact ⟨_, rfl, credited⟩
          · rintro ⟨done, gone⟩
            rw [if_pos done, cmdComplete_of_not_mem (by exact gone)]

theorem Kept.ack (kept : Kept s) (c : Nat) (early : Bool) (accepted : Nat → Bool) :
    Settles s (.ack c early accepted) := by
  by_cases due : c ∈ s.unacked
  · have step : s.step (.ack c early accepted) = ackInd s c early accepted := if_pos due
    rw [ackInd] at step
    cases host : s.hostid with
    | none =>
        have none : s.ending (.ack c early accepted) = none := by
          rw [Sys.ending, host]
          split_ifs <;> rfl
        simp only [host] at step
        have calm : s.Calm (.ack c early accepted) :=
          ⟨Event.noConfusion, fun stray => stray.2.2.1 host⟩
        refine .of_ok calm none ⟨_, step, ?_⟩
        exact kept.answer _ _ s.unconfirmed s.credits (Or.inl host.symm)
    | some h =>
        simp only [host] at step
        have taken := kept.answer none (s.unacked.erase c) s.unconfirmed s.credits (Or.inr rfl)
        by_cases dropped : s.state = .deinit ∧ early = false
        · have none : s.ending (.ack c early accepted) = none := by
            rw [Sys.ending, if_neg]
            rintro ⟨-, running | passed⟩
            · exact running dropped.1
            · rw [dropped.2] at passed
              cases passed
          have calm : s.Calm (.ack c early accepted) := by
            refine ⟨Event.noConfusion, fun stray => ?_⟩
            rcases stray.2.2.2 with running | passed
            · exact running dropped.1
            · rw [dropped.2] at passed
              cases passed
          rw [if_pos dropped] at step
          exact .of_ok calm none ⟨_, step, taken⟩
        · have heard : c ∈ s.unacked ∧ (s.state ≠ .deinit ∨ early = true) := by
            rw [not_and_or, Bool.not_eq_false] at dropped
            exact ⟨due, dropped⟩
          rw [if_neg dropped] at step
          by_cases cleared : s.down = .cleared
          · have some : s.hostid ≠ none := by
              rw [host]
              exact Option.some_ne_none h
            rw [if_pos (by exact cleared)] at step
            exact .of_fault (fun all => all.heard ⟨cleared, due, some, heard.2⟩) step
          have calm : s.Calm (.ack c early accepted) :=
            ⟨Event.noConfusion, fun stray => cleared stray.1⟩
          rw [if_neg (by exact cleared)] at step
          obtain ⟨safe, lost⟩ := taken.llind (c := h) c accepted (kept.host h host).2.2
          have ending : s.ending (.ack c early accepted) = (some h).filter fun c =>
              (llindSearch s.mem (s.mem c).tkn false s.cmds).1 && !(s.mem c).waitCfm := by
            rw [Sys.ending, if_pos heard, host]
          by_cases ends : ((llindSearch s.mem (s.mem h).tkn false s.cmds).1 &&
              !(s.mem h).waitCfm) = true
          · rw [Option.filter_some, if_pos ends] at ending
            refine .of_ending calm ending (fun listed => ?_) fun gone => ?_
            · rw [step]
              exact safe (Or.inr listed)
            · rw [step]
              exact lost ⟨ends, gone⟩
          · rw [Option.filter_some, if_neg ends] at ending
            refine .of_ok calm ending ?_
            rw [step]
            exact safe (Or.inl (Bool.eq_false_iff.mpr ends))
  · have none : s.ending (.ack c early accepted) = none := by
      rw [Sys.ending, if_neg]
      exact fun all => due all.1
    have calm : s.Calm (.ack c early accepted) :=
      ⟨Event.noConfusion, fun stray => due stray.2.1⟩
    exact .of_ok calm none ⟨s, if_neg due, kept⟩

/-- A confirmation is taken by a command on the list, which is completed if it waits for nothing
else. -/
theorem Kept.msgind (kept : Kept s) (answered : Nat) (param : List UInt8)
    (cb accepted : Nat → Bool) :
    ∃ s', cmdMgrMsgind s answered param cb accepted = .ok s' ∧ Kept s' := by
  rw [cmdMgrMsgind]
  cases search : msgindTaker s (s.mem answered).reqid cb with
  | none => exact ⟨s, rfl, kept⟩
  | some c =>
      have listed := List.mem_of_find?_eq_some search
      have confirmed : Kept
          (s.modify c fun cmd => copyCfm param { cmd with waitCfm := false }) :=
        kept.modify c rfl id
      have credited := confirmed.answer s.hostid s.unacked s.unconfirmed
        (s.credits ++ [(answered, c)]) (Or.inl rfl)
      simp only
      split_ifs
      · rw [cmdComplete_of_mem (by exact listed)]
        refine credited.completeNext accepted listed fun d eq => ?_
        obtain ⟨next, waits⟩ := Option.filter_eq_some_iff.mp eq
        obtain ⟨member, other⟩ := behind_mem next (List.nodup_append.mp kept.nodup).1
        exact ⟨member, other, waits⟩
      · exact ⟨_, rfl, credited⟩

theorem Kept.cfm (kept : Kept s) (c : Nat) (early : Bool) (param : List UInt8)
    (cb accepted : Nat → Bool) : Settles s (.cfm c early param cb accepted) := by
  have taken := kept.answer s.hostid s.unacked (s.unconfirmed.erase c) s.credits (Or.inl rfl)
  by_cases due : c ∈ s.unconfirmed
  · have step : s.step (.cfm c early param cb accepted) = msgInd s c early param cb accepted :=
      if_pos due
    rw [msgInd] at step
    by_cases dropped : s.state = .deinit ∧ early = false
    · have calm : s.Calm (.cfm c early param cb accepted) := by
        refine ⟨Event.noConfusion, fun stray => ?_⟩
        rcases stray.2.2 with running | passed
        · exact running dropped.1
        · rw [dropped.2] at passed
          cases passed
      simp only at step
      rw [if_pos dropped] at step
      exact .of_ok calm rfl ⟨_, step, taken⟩
    · simp only at step
      rw [if_neg dropped] at step
      rw [not_and_or, Bool.not_eq_false] at dropped
      by_cases cleared : s.down = .cleared
      · rw [if_pos (by exact cleared)] at step
        exact .of_fault (fun all => all.heard ⟨cleared, due, dropped⟩) step
      · have calm : s.Calm (.cfm c early param cb accepted) :=
          ⟨Event.noConfusion, fun stray => cleared stray.1⟩
        rw [if_neg (by exact cleared)] at step
        refine .of_ok calm rfl ?_
        rw [step]
        exact taken.msgind c param cb accepted
  · have calm : s.Calm (.cfm c early param cb accepted) :=
      ⟨Event.noConfusion, fun stray => due stray.2.1⟩
    exact .of_ok calm rfl ⟨s, if_neg due, kept⟩

/-! ## The end of the manager -/

theorem Kept.stop (kept : Kept s) : Settles s .stop := by
  refine .of_ok ⟨Event.noConfusion, id⟩ rfl ⟨_, rfl, ?_⟩
  split_ifs
  · exact kept.of_same ⟨rfl, rfl, rfl, rfl, rfl, rfl, rfl, rfl, fun _ => rfl⟩ kept.toUnmarked.stop
  · exact kept

theorem Kept.deinit (kept : Kept s) : Settles s .deinit := by
  refine .of_ok ⟨Event.noConfusion, id⟩ rfl ⟨_, rfl, ?_⟩
  split_ifs with up
  · have before : s.down ≠ .cleared := by
      rw [up.1]
      exact Down.noConfusion
    have books : Accounted { s with down := .marked } :=
      kept.toAccounted.phase before Down.noConfusion
    exact ⟨books.of_same ⟨rfl, rfl, rfl, rfl, rfl, rfl, rfl, rfl, fun _ => rfl⟩,
      kept.toUnmarked.of_calmer (.of_eq rfl rfl rfl) (Or.inl rfl) (Or.inl rfl)⟩
  · exact kept

theorem Kept.drain (kept : Kept s) : Settles s .drain := by
  refine .of_ok ⟨Event.noConfusion, id⟩ rfl ⟨_, rfl, ?_⟩
  split_ifs with marked
  · refine ⟨kept.toAccounted.drain ?_, kept.toUnmarked.drain⟩
    rw [marked]
    exact Down.noConfusion
  · exact kept

/-- The end of the manager keeps the books exactly if no command is on the list any more. -/
theorem Kept.clear (kept : Kept s) : Settles s .clear := by
  have step : s.step .clear = .ok (if s.down = .drained then s.clear else s) := rfl
  have none : ∀ c, s.ending .clear = some c → c ∈ s.cmds := fun c some => by cases some
  by_cases drained : s.down = .drained
  · rw [if_pos drained] at step
    by_cases empty : s.cmds = []
    · refine .of_listed ⟨none, fun _ _ => empty, id⟩ ⟨_, step, ?_⟩
      exact ⟨kept.toAccounted.clear_iff.mpr empty,
        kept.toUnmarked.of_calmer (.of_eq rfl rfl rfl) (Or.inl rfl) (Or.inl rfl)⟩
    · refine ⟨fun listed => absurd (listed.empty rfl drained) empty, fun _ s' ran => ?_⟩
      rw [step] at ran
      cases ran
      exact ⟨rfl, fun after => empty (kept.toAccounted.clear_iff.mp after)⟩
  · rw [if_neg drained] at step
    exact .of_listed ⟨none, fun _ down => absurd down drained, id⟩ ⟨s, step, kept⟩

theorem Kept.init (kept : Kept s) : Settles s .init := by
  refine .of_ok ⟨Event.noConfusion, id⟩ rfl ⟨_, rfl, ?_⟩
  split_ifs with cleared
  · exact ⟨kept.toAccounted.init cleared, kept.toUnmarked.init⟩
  · exact kept

/-! ## Runs -/

theorem waitNext_ne (cmd : AmlCmd) (empty : Bool) {caller : Caller} (other : caller ≠ .pushing)
    (w : WaitEvent) : waitNext cmd empty caller w ≠ .pushing := by
  cases caller <;> cases w <;> simp only [waitNext] <;> first
    | exact other
    | exact Caller.noConfusion
    | split_ifs <;> exact Caller.noConfusion

/-- Every step keeps the books exactly if it meets the condition. -/
theorem Kept.step (kept : Kept s) (e : Event) : Settles s e := by
  cases e with
  | queue r =>
      refine .of_ok ⟨Event.noConfusion, id⟩ rfl ⟨_, rfl, kept.toAccounted.queue r, ?_⟩
      rw [cmdMgrQueue]
      split_ifs
      · exact kept.toUnmarked
      · exact kept.toUnmarked
      · exact kept.toUnmarked.enqueue r
  | push c accepted => exact kept.push c accepted
  | relock c => exact kept.relock c
  | wait c w =>
      refine .of_ok ⟨Event.noConfusion, id⟩ rfl ⟨_, rfl, ?_⟩
      by_cases pushing : s.caller c = .pushing
      · have stays : s.go c (waitNext (s.mem c) s.listEmpty (s.caller c) w) = s := by
          have same : waitNext (s.mem c) s.listEmpty .pushing w = .pushing := by cases w <;> rfl
          rw [pushing, same, Sys.go, ← pushing, Function.update_eq_self]
        rwa [stays]
      · exact kept.go c (waitNext_ne _ _ pushing w)
  | expire c => exact kept.expire c
  | task accepted => exact kept.task accepted
  | ack c early accepted => exact kept.ack c early accepted
  | cfm c early param cb accepted => exact kept.cfm c early param cb accepted
  | stop => exact kept.stop
  | deinit => exact kept.deinit
  | drain => exact kept.drain
  | clear => exact kept.clear
  | init => exact kept.init

theorem init_kept (bus : Bus) : Kept (Sys.init bus) where
  queueSz := rfl
  maxQueueSz := rfl
  bounded := Nat.zero_le _
  custody := List.Perm.refl []
  ended := List.Perm.refl []
  completed _ member := by cases member
  freed _ member := by cases member
  pushing _ pushing := by cases pushing
  found _ found := by cases found
  cleared _ cleared := by cases cleared
  host _ some := by cases some

/-- The books are in order throughout exactly those runs in which no failed push, time-out or ACK
ends a command that is not on the list, no command is queued between the drain and the end of the
manager, and no handler calls the manager after its end. -/
theorem accounted_iff_listed (bus : Bus) (events : List Event) :
    Run.Safe Sys.step Accounted events (Sys.init bus) ↔
      Run.Guarded Sys.step Listed events (Sys.init bus) := by
  have preserved : ∀ s e, Kept s → Listed s e → ∃ s', s.step e = .ok s' ∧ Kept s' :=
    fun s e kept listed => (kept.step e).1 listed
  have sharp : ∀ s e s', Kept s → ¬Listed s e → s.step e = .ok s' → ¬Accounted s' :=
    fun s e s' kept outside ran => ((kept.step e).2 outside s' ran).2
  exact Run.safe_iff_guarded preserved (fun s kept => kept.toAccounted) sharp (init_kept bus)

/-! ## A drain under an interrupted wait -/

/-- A blocking command that is only acknowledged. -/
def ackedRequest : Request where
  reqid := 0
  reqCfm := false
  nonblock := false
  callThread := false
  a2eMsg := true
  e2aMsg := none

/-- The wait for a command is interrupted, and the manager is deinitialized before the time of the
polling is over. -/
def drainedWhilePolling : List Event :=
  [.queue ackedRequest, .push 0 true, .relock 0, .wait 0 .interrupt, .deinit, .drain, .clear,
    .wait 0 .poll, .wait 0 .exhaust, .wait 0 .look, .expire 0]

/-- The drain does not mark the command as done, so its caller completes it once more. -/
theorem drained_command_ended_twice :
    ¬∀ bus events, Run.Safe Sys.step Accounted events (Sys.init bus) := by
  intro all
  obtain ⟨s, ran, -⟩ := all .pcie drainedWhilePolling drainedWhilePolling []
    (List.append_nil _).symm
  have faults : (Run.run Sys.step drainedWhilePolling (Sys.init .pcie)).toOption.isSome =
      false := by decide
  rw [ran] at faults
  cases faults

end AmlW2.Cmd
