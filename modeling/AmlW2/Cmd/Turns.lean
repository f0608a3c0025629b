import AmlW2.Cmd.Baton

/-!
# Every step passes the turn on

Each step of a manager that is not drained keeps the turn with one holder.  The turn is never lost
while commands wait, as long as every push that fails is followed by another one.
-/

namespace AmlW2.Cmd

variable {s s' : Sys} {c d : Nat} {h : Holder} {waiting : List Nat}

/-! ## Queueing -/

theorem Sys.enqueue_mem_of_lt (s : Sys) (r : Request) (before : d < s.queued) :
    (s.enqueue r).mem d = s.mem d := Function.update_of_ne (Nat.ne_of_lt before) _ s.mem

theorem Sys.enqueue_mem_self (s : Sys) (r : Request) :
    ((s.enqueue r).mem s.queued).waitAck = true ∧
      ((s.enqueue r).mem s.queued).waitPush = deferPush s ∧
      ((s.enqueue r).mem s.queued).tkn = s.nextTkn := by
  have eq : (s.enqueue r).mem s.queued = _ := Function.update_self s.queued _ s.mem
  rw [eq]
  exact ⟨rfl, rfl, rfl⟩

theorem Sys.enqueue_caller_self (s : Sys) (r : Request) :
    (s.enqueue r).caller s.queued =
      if deferPush s then afterPush r.nonblock else .pushing :=
  Function.update_self s.queued _ s.caller

theorem Sys.enqueue_caller_of_ne (s : Sys) (r : Request) (other : d ≠ s.queued) :
    (s.enqueue r).caller d = s.caller d := Function.update_of_ne other _ s.caller

/-- Every command on the list waits for something. -/
theorem Core.waits_any (core : Core s h waiting) (listed : c ∈ s.cmds) :
    ((s.mem c).waitAck || (s.mem c).waitPush || (s.mem c).waitCfm) = true := by
  by_cases pushed : c ∈ s.pushed
  · rcases core.flight c (core.firmware_of_pushed pushed listed) with ack | cfm
    · rw [ack]
      rfl
    · rw [cfm, Bool.or_true]
  · rw [core.waitAck c listed pushed]
    rfl

theorem Core.deferPush_eq (core : Core s h waiting) : deferPush s = decide (s.cmds ≠ []) := by
  rw [deferPush]
  cases last : s.cmds.getLast? with
  | none =>
      rw [List.getLast?_eq_none_iff.mp last]
      rfl
  | some c =>
      have listed := List.mem_of_getLast? last
      simp only [core.waits_any listed, List.ne_nil_of_mem listed, ne_eq, not_false_eq_true,
        decide_true]

theorem Core.tkn_enqueue (core : Core s h waiting) (r : Request) :
    ∀ d < s.queued + 1, ((s.enqueue r).mem d).tkn = d % 2 ^ 32 := by
  intro d lt
  rcases Nat.lt_succ_iff_lt_or_eq.mp lt with before | rfl
  · rw [s.enqueue_mem_of_lt r before]
    exact core.tkn d before
  · rw [(s.enqueue_mem_self r).2.2]
    exact core.nextTkn

theorem Core.nextTkn_enqueue (core : Core s h waiting) :
    (s.nextTkn + 1) % 2 ^ 32 = (s.queued + 1) % 2 ^ 32 := by
  rw [core.nextTkn, Nat.mod_add_mod]

/-- A command queued on its own is for its caller to push. -/
theorem Core.enqueueFirst (core : Core s .free waiting) (r : Request) (empty : s.cmds = [])
    (alive : s.state ≠ .crashed) : Core (s.enqueue r) (.caller s.queued) [] := by
  have cmds : (s.enqueue r).cmds = [s.queued] := by rw [Sys.enqueue, empty, List.nil_append]
  have answered : s.unacked = [] := by
    rcases core.unacked with none | ⟨a, -, -, -, -, firmware | free⟩
    · exact none
    · cases firmware.1
    · exact absurd free.2 alive
  refine ⟨⟨cmds, ?_, ?_, ?_, ?_⟩,
    ⟨fun d member => (by cases member), fun d listed _ => ?_, fun a eq => (by cases eq),
      core.tkn_enqueue r, core.nextTkn_enqueue⟩,
    ⟨core.pushed, fun p pushed => ?_, fun p _ d member => (by cases member), fun a eq => ?_,
      fun a eq => (by cases eq), Or.inl answered, core.unconfirmed⟩⟩
  · rw [cmds]
    exact List.pairwise_singleton _ _
  · intro c listed
    rw [cmds] at listed
    rw [List.mem_singleton.mp listed]
    exact Nat.lt_succ_self _
  · intro _ c listed
    rw [cmds] at listed ⊢
    rw [List.mem_singleton.mp listed]
    exact Nat.le_refl _
  · intro c listed
    rw [cmds] at listed
    rw [List.mem_singleton.mp listed]
    simp only [Sys.enqueue, amlCmdMaxQueued]
    omega
  · rw [cmds] at listed
    rw [List.mem_singleton.mp listed]
    exact (s.enqueue_mem_self r).1
  · exact Nat.lt_succ_of_lt (core.pushed_lt p pushed)
  · cases eq
    refine ⟨Nat.lt_succ_self _, ?_, core.pushed_lt, fun d member => (by cases member)⟩
    simp only [Sys.enqueue, amlCmdMaxQueued]
    omega

/-- A command queued behind others waits. -/
theorem Core.enqueueBehind (core : Core s h waiting) (r : Request) (some : s.cmds ≠ [])
    (alive : s.state ≠ .crashed) (room : s.cmds.length < amlCmdMaxQueued)
    (fresh : ∀ c, h ≠ .stale c) : Core (s.enqueue r) h (waiting ++ [s.queued]) := by
  have cmds : (s.enqueue r).cmds = s.cmds ++ [s.queued] := rfl
  have either : ∀ d, d ∈ s.cmds ++ [s.queued] → d ∈ s.cmds ∨ d = s.queued := fun d member =>
    (List.mem_append.mp member).imp_right List.mem_singleton.mp
  have later : ∀ d, d ∈ waiting ++ [s.queued] → d ∈ waiting ∨ d = s.queued := fun d member =>
    (List.mem_append.mp member).imp_right List.mem_singleton.mp
  have near : ∀ c ∈ s.cmds, s.queued + 1 ≤ c + amlCmdMaxQueued := fun c listed => by
    have close := core.dense alive c listed
    omega
  refine ⟨⟨?_, ?_, ?_, ?_, ?_⟩, ⟨?_, ?_, ?_, core.tkn_enqueue r, core.nextTkn_enqueue⟩,
    ⟨core.pushed, ?_, ?_, ?_, core.sent, ?_, core.unconfirmed⟩⟩
  · rw [cmds, core.cmds, List.append_assoc]
  · rw [cmds]
    refine List.pairwise_append.mpr ⟨core.sorted, List.pairwise_singleton _ _, ?_⟩
    intro d listed e eq
    rw [List.mem_singleton.mp eq]
    exact core.bound d listed
  · intro d listed
    rcases either d listed with before | rfl
    · exact Nat.lt_succ_of_lt (core.bound d before)
    · exact Nat.lt_succ_self _
  · intro _ d listed
    rw [cmds, List.length_append, List.length_singleton]
    simp only [Sys.enqueue]
    rcases either d listed with before | rfl
    · have close := core.dense alive d before
      omega
    · omega
  · intro d listed
    simp only [Sys.enqueue]
    rcases either d listed with before | rfl
    · exact near d before
    · simp only [amlCmdMaxQueued]
      omega
  · intro d member
    rcases later d member with before | rfl
    · rw [s.enqueue_mem_of_lt r (core.bound d (core.mem_waiting before))]
      exact core.waits d before
    · rw [(s.enqueue_mem_self r).2.1, core.deferPush_eq]
      exact decide_eq_true some
  · intro d listed unpushed
    rcases either d listed with before | rfl
    · rw [s.enqueue_mem_of_lt r (core.bound d before)]
      exact core.waitAck d before unpushed
    · exact (s.enqueue_mem_self r).1
  · intro a eq
    rw [s.enqueue_mem_of_lt r (core.pushed_lt a (core.sent a eq))]
    exact core.flight a eq
  · exact fun p pushed => Nat.lt_succ_of_lt (core.pushed_lt p pushed)
  · intro p pushed d member
    rcases later d member with before | rfl
    · exact core.before p pushed d before
    · exact core.pushed_lt p pushed
  · intro a eq
    obtain ⟨bound, -, above, below⟩ := core.next a eq
    have command : h.command = Option.some a := by
      cases h with
      | stale b => exact absurd rfl (fresh b)
      | firmware b => cases eq
      | _ => exact eq
    have listed : a ∈ s.cmds := by
      rw [core.cmds_eq command]
      exact List.mem_cons_self
    refine ⟨Nat.lt_succ_of_lt bound, near a listed, above, fun d member => ?_⟩
    rcases later d member with before | rfl
    · exact below d before
    · exact bound
  · rcases core.unacked with none | ⟨a, unacked, hostid, pushed, -, firmware | free⟩
    · exact Or.inl none
    · have listed : a ∈ s.cmds := by
        rw [core.cmds_eq (c := a) (by rw [firmware.1]; rfl)]
        exact List.mem_cons_self
      refine Or.inr ⟨a, unacked, hostid, pushed, near a listed, Or.inl ⟨firmware.1, ?_⟩⟩
      rw [s.enqueue_mem_of_lt r (core.pushed_lt a pushed)]
      exact firmware.2
    · exact absurd free.2 alive

/-! ## What a step has to keep -/

/-- Nobody may be waiting without a holder of the turn. -/
def Busy (s : Sys) (h : Holder) (waiting : List Nat) : Prop :=
  s.state ≠ .crashed → h = .free → waiting = []

/-- Of the commands behind the first one there is one at most, or the push of one in front of the
last succeeds. -/
def Reaches (s : Sys) (accepted : Nat → Bool) : Prop :=
  s.cmds.tail.length ≤ 1 ∨
    ∃ d ∈ s.cmds.tail.dropLast, ((s.mem d).a2eMsg && accepted d) = true

/-- While the manager has not crashed, no push by a caller fails with commands behind it, and on
PCIe no run of failing pushes ends in front of the last command. -/
def HandsOver (s : Sys) (e : Event) : Prop :=
  s.state ≠ .crashed →
    match e with
    | .push _ _ | .relock _ => ∀ c, s.ending e = some c → s.cmds = [c]
    | .ack _ _ accepted => s.bus = .pcie → s.ending e ≠ none → Reaches s accepted
    | .cfm c _ _ cb accepted =>
        s.bus = .pcie → c ∈ s.unconfirmed →
          (∃ d, msgindTaker s (s.mem c).reqid cb = some d ∧ (s.mem d).waitAck = false) →
          Reaches s accepted
    | _ => True

/-- Whatever is not part of the end of the manager. -/
def Event.Ordinary : Event → Prop
  | .stop => False
  | .deinit => False
  | .drain => False
  | .clear => False
  | .init => False
  | _ => True

/-- The turn is passed on. -/
def Passes (s : Sys) (h : Holder) (waiting : List Nat) (e : Event) (s' : Sys) : Prop :=
  ∃ h' waiting', Held s' h' waiting' ∧
    (HandsOver s e → Busy s h waiting → Busy s' h' waiting')

theorem Held.queue (held : Held s h waiting) (kept : Kept s) (r : Request) :
    Passes s h waiting (.queue r) (cmdMgrQueue s r) := by
  rw [cmdMgrQueue]
  split_ifs with crashed full
  · exact ⟨h, waiting, held, fun _ => id⟩
  · exact ⟨h, waiting, held, fun _ => id⟩
  · have core := held.toCore
    have fresh : ∀ c, h ≠ .stale c := fun c eq => crashed (held.stale c eq)
    have others : ∀ c, c ≠ s.queued → (s.enqueue r).caller c = s.caller c := fun c =>
      s.enqueue_caller_of_ne r
    have unused : ∀ c, h = .caller c → c ≠ s.queued := by
      rintro c rfl
      exact Nat.ne_of_lt (core.next c rfl).1
    by_cases empty : s.cmds = []
    · have free : h = .free := by
        rw [core.cmds, List.append_eq_nil_iff] at empty
        cases h with
        | free => rfl
        | woken => exact absurd empty.2 (held.woken crashed rfl)
        | stale c => exact absurd rfl (fresh c)
        | _ => cases empty.1
      subst free
      have direct : deferPush s = false := by rw [core.deferPush_eq, empty]; rfl
      refine ⟨.caller s.queued, [], ⟨core.enqueueFirst r empty crashed, held.running,
        fun c eq => (by cases eq), held.sem, fun _ eq => (by cases eq), held.task, fun c => ?_,
        fun pcie => ⟨Holder.noConfusion, (held.pcie pcie).2⟩⟩, fun _ _ _ eq => by cases eq⟩
      by_cases new : c = s.queued
      · rw [new, Sys.enqueue_caller_self, direct]
        exact ⟨fun _ => rfl, fun _ => Or.inl rfl⟩
      · rw [others c new, held.callers]
        refine ⟨fun eq => (by cases eq), fun eq => absurd ?_ new⟩
        cases eq
        rfl
    · have room : s.cmds.length < amlCmdMaxQueued := by
        have size := kept.queueSz
        have most := kept.maxQueueSz
        have bounded := kept.bounded
        obtain ⟨a, listed⟩ := List.exists_mem_of_ne_nil _ empty
        rw [most, if_neg (kept.not_cleared listed)] at bounded full
        rw [size] at full
        refine Nat.lt_of_le_of_ne bounded fun eq => full ⟨?_, eq⟩
        rw [Sys.listEmpty, List.isEmpty_eq_false_iff.mpr empty]
        rfl
      have deferred : deferPush s = true := by
        rw [core.deferPush_eq]
        exact decide_eq_true empty
      refine ⟨h, waiting ++ [s.queued], ⟨core.enqueueBehind r empty crashed room fresh,
        held.running, held.stale, held.sem, fun _ _ => List.append_ne_nil_of_right_ne_nil _
          (List.cons_ne_nil _ _), held.task, fun c => ?_, held.pcie⟩, fun _ busy alive eq => ?_⟩
      · by_cases new : c = s.queued
        · rw [new, Sys.enqueue_caller_self, deferred, if_pos rfl]
          refine ⟨fun pushing => ?_, fun eq => absurd rfl (unused _ eq)⟩
          cases nonblock : r.nonblock <;> rw [nonblock] at pushing <;>
            rcases pushing with eq | eq <;> cases eq
        · rw [others c new]
          exact held.callers c
      · subst eq
        have none := busy alive rfl
        rw [core.cmds_waiting rfl, none] at empty
        exact absurd rfl empty

/-! ## Callers -/

/-- A caller that is about to push, or whose push has failed. -/
def Caller.Active (caller : Caller) : Prop := caller = .pushing ∨ caller = .relocking false

theorem afterPush_not_active (nonblock : Bool) : ¬(afterPush nonblock).Active := by
  rintro (eq | eq) <;> cases nonblock <;> cases eq

theorem returned_not_active : ¬Caller.returned.Active := by
  rintro (eq | eq) <;> cases eq

/-- The caller that holds the turn leaves it to somebody else. -/
theorem callers_left {h' : Holder} {caller : Caller}
    (callers : ∀ d, (s.caller d).Active ↔ Holder.caller c = .caller d) (calm : ¬caller.Active)
    (other : ∀ d, h' ≠ .caller d) :
    ∀ d, ((s.go c caller).caller d).Active ↔ h' = .caller d := by
  intro d
  refine ⟨fun active => ?_, fun eq => absurd eq (other d)⟩
  by_cases same : d = c
  · rw [same, Sys.go_caller_self] at active
    exact absurd active calm
  · rw [Sys.go_caller_of_ne s caller same, callers] at active
    cases active
    exact absurd rfl same

/-- A caller that does not hold the turn moves. -/
theorem callers_other {caller : Caller} (callers : ∀ d, (s.caller d).Active ↔ h = .caller d)
    (same : caller.Active ↔ (s.caller c).Active) :
    ∀ d, ((s.go c caller).caller d).Active ↔ h = .caller d := by
  intro d
  by_cases here : d = c
  · rw [here, Sys.go_caller_self, same, callers]
  · rw [Sys.go_caller_of_ne s caller here, callers]

theorem Held.push {accepted : Bool} (held : Held s h waiting) (pushing : s.caller c = .pushing)
    (ran : callerPush s c accepted = .ok s') : Passes s h waiting (.push c accepted) s' := by
  obtain rfl : h = .caller c := (held.callers c).mp (Or.inl pushing)
  have core := held.toCore
  rw [callerPush] at ran
  by_cases thread : s.bus ≠ .pcie ∧ (s.mem c).callThread = true
  · rw [if_pos thread] at ran
    cases ran
    have same := (sameCore_up (s.modify c fun cmd => { cmd with waitPush := true })).trans
      (sameCore_go _ c (afterPush (s.mem c).nonblock))
    refine ⟨.woken, c :: waiting, ⟨core.leave same, held.running, fun a eq => (by cases eq),
      ?_, fun _ _ => List.cons_ne_nil c waiting, held.task, ?_,
      fun pcie => absurd pcie thread.1⟩, fun _ _ _ eq => by cases eq⟩
    · exact congrArg Nat.succ held.sem
    · exact callers_left (s := (s.modify c fun cmd => { cmd with waitPush := true }).up)
        held.callers (afterPush_not_active _) fun d => Holder.noConfusion
  · rw [if_neg thread] at ran
    by_cases message : (s.mem c).a2eMsg = true
    · rw [if_pos message, amlIpcMsgPush] at ran
      by_cases goes : ((s.mem c).a2eMsg && accepted) = true
      · rw [if_pos goes] at ran
        cases ran
        have sent : Core (s.send c) (.firmware c) waiting :=
          core.sendTo rfl (Or.inl ⟨rfl, rfl⟩)
        refine ⟨.firmware c, waiting, ⟨sent.of_same (sameCore_go _ _ _), held.running,
          fun a eq => (by cases eq), held.sem, fun _ eq => (by cases eq), held.task, ?_,
          fun pcie => ⟨Holder.noConfusion, (held.pcie pcie).2⟩⟩, fun _ _ _ eq => by cases eq⟩
        refine callers_left (s := s.send c) held.callers ?_ fun d => Holder.noConfusion
        rintro (eq | eq) <;> cases eq
      · rw [if_neg goes] at ran
        cases ran
        refine ⟨.caller c, waiting, ⟨core.of_same (sameCore_go _ _ _), held.running, held.stale,
          held.sem, held.woken, held.task, ?_, held.pcie⟩, fun _ _ _ eq => by cases eq⟩
        refine callers_other held.callers ⟨fun _ => Or.inl pushing, fun _ => Or.inr rfl⟩
    · rw [if_neg message] at ran
      obtain ⟨s₁, failed, rfl⟩ := Run.map_eq_ok ran
      obtain ⟨-, rfl⟩ := cmdComplete_ok failed
      have free := core.drop rfl (Or.inl (core.unacked_eq_nil rfl)) (drops_giveUp s c)
      refine ⟨.free, waiting, ⟨free.of_same (sameCore_go _ _ _), held.running,
        fun a eq => (by cases eq), held.sem, fun _ eq => (by cases eq), held.task, ?_,
        fun pcie => ⟨Holder.noConfusion, (held.pcie pcie).2⟩⟩, fun hands _ alive _ => ?_⟩
      · exact callers_left (s := (s.giveUp c).finish c) held.callers returned_not_active
          fun d => Holder.noConfusion
      · have direct : s.bus = .pcie ∨ (s.mem c).callThread = false := by
          rw [not_and_or, not_not, Bool.not_eq_true] at thread
          exact thread
        have only := hands alive c (if_pos ⟨pushing, direct, Bool.eq_false_iff.mpr message⟩)
        rw [core.cmds_eq rfl] at only
        exact (List.cons.inj only).2

theorem Held.relock {sent : Bool} (held : Held s h waiting) (phase : s.caller c = .relocking sent)
    (ran : callerRelock s c sent = .ok s') : Passes s h waiting (.relock c) s' := by
  have freed := sameCore_freeMsg s c
  rw [callerRelock] at ran
  cases sent with
  | true =>
      cases ran
      have inactive : ¬(s.caller c).Active := by
        rw [phase]
        rintro (eq | eq) <;> cases eq
      refine ⟨h, waiting, ⟨held.toCore.of_same (freed.trans (sameCore_go _ _ _)), held.running,
        held.stale, held.sem, held.woken, held.task, ?_, held.pcie⟩, fun _ => id⟩
      refine callers_other (s := freeMsg s c) held.callers ?_
      exact ⟨fun active => absurd active (afterPush_not_active _),
        fun active => absurd active inactive⟩
  | false =>
      obtain rfl : h = .caller c := (held.callers c).mp (Or.inr phase)
      rw [if_neg Bool.false_ne_true] at ran
      obtain ⟨s₁, failed, rfl⟩ := Run.map_eq_ok ran
      obtain ⟨-, rfl⟩ := cmdComplete_ok failed
      have core := held.toCore.of_same freed
      have free := core.drop rfl (Or.inl (core.unacked_eq_nil rfl)) (drops_giveUp (freeMsg s c) c)
      refine ⟨.free, waiting, ⟨free.of_same (sameCore_go _ _ _), held.running,
        fun a eq => (by cases eq), held.sem, fun _ eq => (by cases eq), held.task, ?_,
        fun pcie => ⟨Holder.noConfusion, (held.pcie pcie).2⟩⟩, fun hands _ alive _ => ?_⟩
      · exact callers_left (s := ((freeMsg s c).giveUp c).finish c) held.callers
          returned_not_active fun d => Holder.noConfusion
      · have only := hands alive c (if_pos phase)
        rw [held.toCore.cmds_eq rfl] at only
        exact (List.cons.inj only).2

/-- A wait neither starts nor ends a push. -/
theorem waitNext_active (cmd : AmlCmd) (empty : Bool) (caller : Caller) (w : WaitEvent) :
    (waitNext cmd empty caller w).Active ↔ caller.Active := by
  have calm {caller after : Caller} (before : ¬caller.Active) (later : ¬after.Active) :
      after.Active ↔ caller.Active := ⟨fun on => absurd on later, fun on => absurd on before⟩
  cases caller <;> cases w <;> simp only [waitNext] <;> first
    | rfl
    | (refine calm ?_ ?_ <;> try split_ifs) <;> rintro (eq | eq) <;> cases eq

theorem Held.wait (held : Held s h waiting) (c : Nat) (w : WaitEvent) :
    Passes s h waiting (.wait c w) (s.go c (waitNext (s.mem c) s.listEmpty (s.caller c) w)) :=
  ⟨h, waiting, ⟨held.toCore.of_same (sameCore_go _ _ _), held.running, held.stale, held.sem,
    held.woken, held.task, callers_other held.callers (waitNext_active _ _ _ _), held.pcie⟩,
    fun _ => id⟩

theorem crash_state (s : Sys) (c : Nat) : (s.crash c).state = .crashed := by
  rw [Sys.crash]
  split_ifs <;> rfl

/-- A crash touches none of the parties. -/
theorem Held.crash (held : Held s h waiting) (c : Nat) : Held (s.crash c) h waiting := by
  refine ⟨held.toCore.crash (sameCore_crash s c), ?_, fun _ _ => crash_state s c, ?_,
    fun alive => absurd (crash_state s c) alive, ?_, ?_, ?_⟩
  · rw [crash_state]
    exact MgrState.noConfusion
  · have sem : (s.crash c).msgSem = s.msgSem := by rw [Sys.crash]; split_ifs <;> rfl
    rw [sem, held.sem]
  · have task : (s.crash c).task = s.task := by rw [Sys.crash]; split_ifs <;> rfl
    rw [task]
    exact held.task
  · have caller : (s.crash c).caller = s.caller := by rw [Sys.crash]; split_ifs <;> rfl
    rw [caller]
    exact held.callers
  · have task : (s.crash c).task = s.task := by rw [Sys.crash]; split_ifs <;> rfl
    have bus : (s.crash c).bus = s.bus := by rw [Sys.crash]; split_ifs <;> rfl
    rw [task, bus]
    exact held.pcie

theorem Held.expire (held : Held s h waiting) (phase : s.caller c = .expired)
    (ran : callerExpire s c = .ok s') : Passes s h waiting (.expire c) s' := by
  have inactive : ¬(s.caller c).Active := by
    rw [phase]
    rintro (eq | eq) <;> cases eq
  have crashed := held.crash c
  have dead := crash_state s c
  have still : (s.crash c).caller = s.caller := by rw [Sys.crash]; split_ifs <;> rfl
  have calm : Caller.returned.Active ↔ ((s.crash c).caller c).Active := by
    rw [still]
    exact ⟨fun on => absurd on returned_not_active, fun on => absurd on inactive⟩
  rw [callerExpire] at ran
  split_ifs at ran with done
  · cases ran
    exact ⟨h, waiting, ⟨crashed.toCore.of_same (sameCore_go _ _ _), crashed.running,
      crashed.stale, crashed.sem, crashed.woken, crashed.task,
      callers_other crashed.callers calm, crashed.pcie⟩, fun _ _ alive => absurd dead alive⟩
  · obtain ⟨s₁, ended, rfl⟩ := Run.map_eq_ok ran
    obtain ⟨listed, rfl⟩ := cmdComplete_ok ended
    have core := crashed.toCore
    have drops := drops_finish (s.crash c) c
    have dead' : ((s.crash c).finish c).state = .crashed := dead
    rw [core.cmds, List.mem_append] at listed
    rcases listed with first | later
    · cases h with
      | task a =>
          obtain rfl : c = a := List.mem_singleton.mp first
          refine ⟨.stale c, waiting, ⟨(core.strand dead drops).of_same (sameCore_go _ _ _),
            crashed.running, fun _ _ => dead', crashed.sem, fun _ eq => (by cases eq),
            crashed.task, ?_, fun pcie => ⟨Holder.noConfusion, (crashed.pcie pcie).2⟩⟩,
            fun _ _ _ eq => by cases eq⟩
          have callers : ∀ d, (((s.crash c).finish c).caller d).Active ↔
              Holder.stale c = .caller d := by
            intro d
            refine (crashed.callers d).trans ⟨fun eq => (by cases eq), fun eq => (by cases eq)⟩
          exact callers_other callers calm
      | firmware a =>
          obtain rfl : c = a := List.mem_singleton.mp first
          refine ⟨.free, waiting,
            ⟨(core.drop rfl (Or.inr dead) drops).of_same (sameCore_go _ _ _), crashed.running,
              fun a eq => (by cases eq), crashed.sem, fun _ eq => (by cases eq), crashed.task,
              ?_, fun pcie => ⟨Holder.noConfusion, (crashed.pcie pcie).2⟩⟩,
            fun _ _ alive => absurd dead' alive⟩
          have callers : ∀ d, (((s.crash c).finish c).caller d).Active ↔
              Holder.free = .caller d := by
            intro d
            refine (crashed.callers d).trans ⟨fun eq => (by cases eq), fun eq => (by cases eq)⟩
          exact callers_other callers calm
      | caller a =>
          obtain rfl : c = a := List.mem_singleton.mp first
          exact absurd ((held.callers c).mpr rfl) inactive
      | _ => cases first
    · refine ⟨h, waiting.erase c,
        ⟨(core.dropWaiting later dead drops).of_same (sameCore_go _ _ _), crashed.running,
          crashed.stale, crashed.sem, fun alive => absurd dead' alive, crashed.task,
          callers_other (s := (s.crash c).finish c) crashed.callers calm, crashed.pcie⟩,
        fun _ _ alive => absurd dead' alive⟩

/-! ## The message task -/

/-- The message task is at a command that it is about to push. -/
theorem Held.holder_of_task (held : Held s h waiting)
    (task : s.task = .found c ∨ s.task = .cleared c ∨ s.task = .relocking c false) :
    h = .task c ∨ h = .stale c := by
  have at_ := held.task
  cases h with
  | task a =>
      left
      rcases at_ with eq | eq | eq <;> rw [eq] at task <;> rcases task with same | same | same <;>
        cases same <;> rfl
  | stale a =>
      right
      rcases at_ with eq | eq | eq <;> rw [eq] at task <;> rcases task with same | same | same <;>
        cases same <;> rfl
  | _ =>
      rcases at_ with eq | ⟨d, eq⟩ <;> rw [eq] at task <;> rcases task with same | same | same <;>
        cases same

/-- Nobody but the message task is about to push. -/
theorem Held.callers_task (held : Held s h waiting) (task : h = .task c ∨ h = .stale c)
    {h' : Holder} (other : ∀ d, h' ≠ .caller d) : ∀ d, (s.caller d).Active ↔ h' = .caller d := by
  intro d
  refine (held.callers d).trans ⟨fun eq => ?_, fun eq => absurd eq (other d)⟩
  rcases task with rfl | rfl <;> cases eq

theorem Held.not_pcie (held : Held s h waiting) (task : s.task ≠ .idle) : s.bus ≠ .pcie :=
  fun pcie => task (held.pcie pcie).2

theorem Held.take (held : Held s h waiting) :
    Passes s h waiting (.task accepted) (taskTake s) := by
  rw [taskTake]
  split_ifs with woken
  · have sem := held.sem
    obtain rfl : h = .woken := by
      cases h with
      | woken => rfl
      | _ =>
          rw [sem] at woken
          exact absurd woken (Nat.lt_irrefl 0)
    have core := held.toCore
    have cmds := core.cmds_waiting rfl
    have answered : s.unacked = [] := by
      rcases core.unacked with none | ⟨a, -, -, -, -, firmware | free⟩
      · exact none
      · cases firmware.1
      · cases free.1
    have calm : ∀ {h' : Holder}, (∀ d, h' ≠ .caller d) →
        ∀ d, (s.caller d).Active ↔ h' = .caller d := by
      intro h' other d
      exact (held.callers d).trans ⟨fun eq => (by cases eq), fun eq => absurd eq (other d)⟩
    have wire : s.bus ≠ .pcie := fun pcie => (held.pcie pcie).1 rfl
    have gone : s.msgSem - 1 = 0 := by rw [sem]; rfl
    cases waiting with
    | nil =>
        have none : s.cmds.find? (fun c => (s.mem c).waitPush) = none := by rw [cmds]; rfl
        rw [none]
        have free : Core s .free [] := core.release rfl (Or.inl rfl) (Or.inl answered)
        refine ⟨.free, [], ⟨free.of_same (sameCore_task s _ _), held.running,
          fun a eq => (by cases eq), gone, fun _ eq => (by cases eq), Or.inl rfl,
          calm fun d => Holder.noConfusion, fun pcie => absurd pcie wire⟩, fun _ _ _ _ => rfl⟩
    | cons c waiting =>
        have marked := core.waits c List.mem_cons_self
        have some : s.cmds.find? (fun c => (s.mem c).waitPush) = some c := by
          rw [cmds, List.find?_cons_of_pos (p := fun c => (s.mem c).waitPush) marked]
        rw [some]
        have picked := core.pick rfl answered
        refine ⟨.task c, waiting, ⟨picked.of_same (sameCore_task s _ _), held.running,
          fun a eq => (by cases eq), gone, fun _ eq => (by cases eq), Or.inl rfl,
          calm fun d => Holder.noConfusion, fun pcie => absurd pcie wire⟩,
          fun _ _ _ eq => by cases eq⟩
  · exact ⟨h, waiting, held, fun _ => id⟩

theorem Held.clear (held : Held s h waiting) (task : s.task = .found c) :
    Passes s h waiting (.task accepted)
      { s.modify c fun cmd => { cmd with waitPush := false } with task := .cleared c } := by
  have holder := held.holder_of_task (Or.inl task)
  have core := held.toCore
  have next : h.next = some c := by rcases holder with rfl | rfl <;> rfl
  have wire := held.not_pcie (by rw [task]; exact Task.noConfusion)
  have away : c ∉ waiting := fun member =>
    Nat.lt_irrefl c ((core.next c next).2.2.2 c member)
  have cleared : Core (s.modify c fun cmd => { cmd with waitPush := false }) h waiting :=
    core.modify rfl (fun member => absurd member away) (fun _ => rfl)
      fun eq => core.flight c eq
  refine ⟨h, waiting, ⟨cleared.of_same (sameCore_task _ _ _), held.running, held.stale, held.sem,
    held.woken, ?_, held.callers, fun pcie => absurd pcie wire⟩, fun _ => id⟩
  rcases holder with rfl | rfl <;> exact Or.inr (Or.inl rfl)

/-- The message task completes the command whose push has failed, and wakes itself up for the
next. -/
theorem Held.taskFailed (held : Held s h waiting) (kept : Kept s)
    (task : s.task = .cleared c ∨ s.task = .relocking c false)
    (ran : taskFinish s c false = .ok s') : Passes s h waiting (.task accepted) s' := by
  have holder := held.holder_of_task (Or.inr task)
  have wire := held.not_pcie (by rcases task with eq | eq <;> rw [eq] <;> exact Task.noConfusion)
  have core := held.toCore
  rw [taskFinish, if_neg Bool.false_ne_true] at ran
  obtain ⟨s₁, failed, rfl⟩ := Run.map_eq_ok ran
  rw [pushFailed_eq] at failed
  obtain ⟨listed, rfl⟩ := cmdComplete_ok failed
  have books := (kept.pushFailed listed).2.queueSz
  obtain rfl : h = .task c := by
    rcases holder with rfl | rfl
    · rfl
    · have waits : c ∈ waiting := by
        have cmds := core.cmds_waiting (h := .stale c) rfl
        rw [← cmds]
        exact listed
      exact absurd ((core.next c rfl).2.2.2 c waits) (Nat.lt_irrefl c)
  have answered := core.unacked_eq_nil (c := c) rfl
  have free := core.drop rfl (Or.inl answered) (drops_giveUp s c)
  have left := free.cmds_waiting rfl
  have calm : ∀ d, (s.caller d).Active ↔ Holder.free = .caller d :=
    held.callers_task (Or.inl rfl) fun d => Holder.noConfusion
  rw [left] at books
  by_cases more : 0 < ((s.giveUp c).finish c).queueSz
  · rw [if_pos more]
    have woken : Core ((s.giveUp c).finish c) .woken waiting :=
      free.release rfl (Or.inr rfl) (Or.inl answered)
    have some : waiting ≠ [] := List.length_pos_iff.mp (books ▸ more)
    refine ⟨.woken, waiting, ⟨(woken.of_same (sameCore_up _)).of_same (sameCore_task _ _ _),
      held.running, fun a eq => (by cases eq), congrArg Nat.succ held.sem, fun _ _ => some,
      Or.inl rfl, held.callers_task (Or.inl rfl) fun d => Holder.noConfusion,
      fun pcie => absurd pcie wire⟩, fun _ _ _ eq => by cases eq⟩
  · rw [if_neg more]
    have none : waiting = [] := List.length_eq_zero_iff.mp (by omega)
    refine ⟨.free, waiting, ⟨free.of_same (sameCore_task _ _ _), held.running,
      fun a eq => (by cases eq), held.sem, fun _ eq => (by cases eq), Or.inl rfl, calm,
      fun pcie => absurd pcie wire⟩, fun _ _ _ _ => none⟩

theorem Held.taskPush {accepted : Bool} (held : Held s h waiting) (kept : Kept s)
    (task : s.task = .cleared c) (ran : Cmd.taskPush s c accepted = .ok s') :
    Passes s h waiting (.task accepted) s' := by
  have holder := held.holder_of_task (Or.inr (Or.inl task))
  have wire := held.not_pcie (by rw [task]; exact Task.noConfusion)
  have core := held.toCore
  rw [Cmd.taskPush] at ran
  by_cases message : (s.mem c).a2eMsg = true
  · rw [if_pos message, amlIpcMsgPush] at ran
    by_cases goes : ((s.mem c).a2eMsg && accepted) = true
    · rw [if_pos goes] at ran
      cases ran
      rcases holder with rfl | rfl
      · have sent : Core (s.send c) (.firmware c) waiting :=
          core.sendTo rfl (Or.inl ⟨rfl, rfl⟩)
        refine ⟨.firmware c, waiting, ⟨sent.of_same (sameCore_task _ _ _), held.running,
          fun a eq => (by cases eq), held.sem, fun _ eq => (by cases eq), Or.inr ⟨c, rfl⟩,
          held.callers_task (Or.inl rfl) fun d => Holder.noConfusion,
          fun pcie => absurd pcie wire⟩, fun _ _ _ eq => by cases eq⟩
      · have dead := held.stale c rfl
        have sent : Core (s.send c) .free waiting := core.sendTo rfl (Or.inr ⟨rfl, rfl, dead⟩)
        refine ⟨.free, waiting, ⟨sent.of_same (sameCore_task _ _ _), held.running,
          fun a eq => (by cases eq), held.sem, fun _ eq => (by cases eq), Or.inr ⟨c, rfl⟩,
          held.callers_task (Or.inr rfl) fun d => Holder.noConfusion,
          fun pcie => absurd pcie wire⟩, fun _ _ alive => absurd dead alive⟩
    · rw [if_neg goes] at ran
      cases ran
      refine ⟨h, waiting, ⟨core.of_same (sameCore_task _ _ _), held.running, held.stale, held.sem,
        held.woken, ?_, held.callers, fun pcie => absurd pcie wire⟩, fun _ => id⟩
      rcases holder with rfl | rfl <;> exact Or.inr (Or.inr rfl)
  · rw [if_neg message] at ran
    exact held.taskFailed kept (Or.inl task) ran

theorem Held.taskStep {accepted : Bool} (held : Held s h waiting) (kept : Kept s)
    (ran : Cmd.taskStep s accepted = .ok s') : Passes s h waiting (.task accepted) s' := by
  cases task : s.task with
  | idle =>
      rw [Cmd.taskStep, task] at ran
      cases ran
      exact held.take
  | found c =>
      rw [Cmd.taskStep, task] at ran
      cases ran
      exact held.clear task
  | cleared c =>
      rw [Cmd.taskStep, task] at ran
      exact held.taskPush kept task ran
  | stopped =>
      rw [Cmd.taskStep, task] at ran
      cases ran
      exact ⟨h, waiting, held, fun _ => id⟩
  | relocking c sent =>
      rw [Cmd.taskStep, task] at ran
      have freed : Held (freeMsg s c) h waiting :=
        ⟨held.toCore.of_same (sameCore_freeMsg s c), held.running, held.stale, held.sem,
          held.woken, held.task, held.callers, held.pcie⟩
      cases sent with
      | true =>
          cases ran
          have wire := held.not_pcie (by rw [task]; exact Task.noConfusion)
          refine ⟨h, waiting, ⟨freed.toCore.of_same (sameCore_task _ _ _), held.running,
            held.stale, held.sem, held.woken, ?_, held.callers,
            fun pcie => absurd pcie wire⟩, fun _ => id⟩
          have at_ := held.task
          cases h with
          | task a => rcases at_ with eq | eq | eq <;> rw [task] at eq <;> cases eq
          | stale a => rcases at_ with eq | eq | eq <;> rw [task] at eq <;> cases eq
          | _ => exact Or.inl rfl
      | false =>
          have passed : Passes (freeMsg s c) h waiting (.task accepted) s' :=
            freed.taskFailed (kept.freeMsg c) (Or.inr task) ran
          obtain ⟨h', waiting', after, busy⟩ := passed
          exact ⟨h', waiting', after, fun _ => busy fun _ => trivial⟩

end AmlW2.Cmd
