import AmlW2.Cmd.Turns

/-!
# Answers pass the turn on

The firmware holds the turn until the command pushed last is answered in full.  Then the command is
completed, and the turn goes to the next one on the list, or to the message task.
-/

namespace AmlW2.Cmd

variable {s s' : Sys} {c d : Nat} {h : Holder} {waiting : List Nat} {accepted : Nat → Bool}

/-! ## The parties -/

/-- The parties are left where they are. -/
structure SameParties (s s' : Sys) : Prop where
  bus : s'.bus = s.bus
  state : s'.state = s.state
  msgSem : s'.msgSem = s.msgSem
  task : s'.task = s.task
  caller : s'.caller = s.caller

theorem SameParties.trans {s'' : Sys} (first : SameParties s s') (second : SameParties s' s'') :
    SameParties s s'' :=
  ⟨second.bus.trans first.bus, second.state.trans first.state, second.msgSem.trans first.msgSem,
    second.task.trans first.task, second.caller.trans first.caller⟩

theorem sameParties_modify (s : Sys) (c : Nat) (f : AmlCmd → AmlCmd) :
    SameParties s (s.modify c f) := ⟨rfl, rfl, rfl, rfl, rfl⟩

theorem sameParties_freeMsg (s : Sys) (c : Nat) : SameParties s (freeMsg s c) :=
  sameParties_modify s c _

theorem sameParties_giveUp (s : Sys) (c : Nat) : SameParties s (s.giveUp c) :=
  sameParties_modify s c _

theorem sameParties_send (s : Sys) (c : Nat) : SameParties s (s.send c) :=
  ⟨rfl, rfl, rfl, rfl, rfl⟩

theorem sameParties_finish (s : Sys) (c : Nat) : SameParties s (s.finish c) :=
  ⟨rfl, rfl, rfl, rfl, rfl⟩

/-- Neither the message task nor a caller has the turn. -/
def Holder.Quiet : Holder → Prop
  | .free => True
  | .firmware _ => True
  | _ => False

/-- The turn moves between the firmware and nobody without the other parties. -/
theorem Parties.quiet (parties : Parties s h waiting) (quiet : h.Quiet) (same : SameParties s s')
    {h' : Holder} (quiet' : h'.Quiet) {waiting' : List Nat} : Parties s' h' waiting' := by
  obtain ⟨running, -, sem, -, task, callers, pcie⟩ := parties
  have calm {k : Holder} (quiet : k.Quiet) : k.sem = 0 ∧ k ≠ .woken ∧
      (∀ d, k ≠ .stale d) ∧ (∀ d, k ≠ .caller d) ∧
      ∀ task, k.TaskAt task ↔ task = .idle ∨ ∃ d, task = .relocking d true := by
    cases k with
    | free => exact ⟨rfl, Holder.noConfusion, fun d => Holder.noConfusion,
        fun d => Holder.noConfusion, fun task => Iff.rfl⟩
    | firmware a => exact ⟨rfl, Holder.noConfusion, fun d => Holder.noConfusion,
        fun d => Holder.noConfusion, fun task => Iff.rfl⟩
    | _ => cases quiet
  obtain ⟨none, -, -, idle, at_⟩ := calm quiet
  obtain ⟨none', awake', fresh', idle', at'⟩ := calm quiet'
  refine ⟨?_, fun d eq => absurd eq (fresh' d), ?_, fun _ eq => absurd eq awake', ?_, fun d => ?_,
    fun wire => ⟨awake', ?_⟩⟩
  · rw [same.state]
    exact running
  · rw [same.msgSem, sem, none, none']
  · rw [same.task]
    exact (at' _).mpr ((at_ _).mp task)
  · rw [same.caller, callers]
    exact ⟨fun eq => absurd eq (idle d), fun eq => absurd eq (idle' d)⟩
  · rw [same.bus] at wire
    rw [same.task]
    exact (pcie wire).2

/-! ## The next command on PCIe -/

/-- The first command of a run of pushes succeeds, or is completed. -/
theorem Core.turn (core : Core s .free (c :: waiting)) (answered : s.unacked = [])
    (sent : Bool) :
    let cleared := s.modify c fun cmd => { cmd with waitPush := false }
    let after := freeMsg (if sent then cleared.send c else cleared) c
    SameParties s after ∧
      if sent then Core after (.firmware c) waiting
      else Core ((after.giveUp c).finish c) .free waiting ∧
        ((after.giveUp c).finish c).unacked = [] ∧
        ∀ d ∈ waiting, ((after.giveUp c).finish c).mem d = s.mem d := by
  intro cleared after
  have picked := core.pick rfl answered
  have away : c ∉ waiting := fun member =>
    Nat.lt_irrefl c ((picked.next c rfl).2.2.2 c member)
  have clear : Core cleared (.task c) waiting :=
    picked.modify rfl (fun member => absurd member away) (fun _ => rfl) fun eq => by cases eq
  cases sent with
  | true =>
      refine ⟨?_, ?_⟩
      · exact ((sameParties_modify s c _).trans (sameParties_send cleared c)).trans
          (sameParties_freeMsg _ c)
      · exact (clear.sendTo rfl (Or.inl ⟨rfl, rfl⟩)).of_same (sameCore_freeMsg _ c)
  | false =>
      have freed : Core after (.task c) waiting := clear.of_same (sameCore_freeMsg _ c)
      refine ⟨(sameParties_modify s c _).trans (sameParties_freeMsg cleared c),
        freed.drop rfl (Or.inl answered) (drops_giveUp after c), answered, fun d member => ?_⟩
      have other : d ≠ c := fun eq => away (eq ▸ member)
      rw [(drops_giveUp after c).others d other]
      exact (Sys.modify_mem_of_ne cleared _ other).trans (Sys.modify_mem_of_ne s _ other)

/-- `cmd_mgr_next_cmd` goes through the commands until a push succeeds; the last one is not tried
when it is not the first. -/
theorem Core.nextCmd {turns : Nat} (core : Core s .free (c :: waiting)) (answered : s.unacked = [])
    (enough : waiting.length < turns) (ran : cmdMgrNextCmd accepted turns s c = .ok s') :
    ∃ h' waiting', h'.Quiet ∧ Core s' h' waiting' ∧ SameParties s s' ∧
      (h' = .free → (waiting = [] ∨
        ∃ d ∈ (c :: waiting).dropLast, ((s.mem d).a2eMsg && accepted d) = true) →
        waiting' = []) := by
  induction turns generalizing s c waiting with
  | zero => cases enough
  | succ turns induction =>
      rw [cmdMgrNextCmd] at ran
      simp only [amlIpcMsgPush, Sys.modify_mem_self] at ran
      by_cases goes : ((s.mem c).a2eMsg && accepted c) = true
      · obtain ⟨parties, sent⟩ := core.turn answered true
        simp only [goes, if_true] at ran
        cases ran
        exact ⟨.firmware c, waiting, trivial, sent, parties, fun eq => by cases eq⟩
      · obtain ⟨parties, left, answered', kept⟩ := core.turn answered false
        simp only [goes, if_false, Bool.false_eq_true] at ran parties left answered' kept
        rw [pushFailed_eq] at ran
        split at ran
        · cases ran
        · rename_i s₁ failed
          obtain ⟨-, rfl⟩ := cmdComplete_ok failed
          have parties' := (parties.trans (sameParties_giveUp _ c)).trans
            (sameParties_finish _ c)
          have cmds := left.cmds_waiting rfl
          split at ran
          · rename_i cur next rest eq
            obtain rfl : waiting = cur :: next :: rest := cmds.symm.trans eq
            rw [if_pos (left.waits cur List.mem_cons_self)] at ran
            obtain ⟨h', waiting', quiet, core', same, ends⟩ :=
              induction left answered' (Nat.lt_of_succ_lt_succ enough) ran
            refine ⟨h', waiting', quiet, core', parties'.trans same, fun free reach => ?_⟩
            refine ends free (Or.inr ?_)
            rcases reach with nothing | ⟨d, member, success⟩
            · cases nothing
            · rw [List.dropLast_cons_of_ne_nil (List.cons_ne_nil _ _)] at member
              rcases List.mem_cons.mp member with rfl | later
              · exact absurd success goes
              · refine ⟨d, later, ?_⟩
                rw [kept d (List.dropLast_subset _ later)]
                exact success
          · rename_i few
            cases ran
            refine ⟨.free, waiting, trivial, left, parties', fun _ reach => ?_⟩
            rcases reach with nothing | ⟨d, member, success⟩
            · exact nothing
            · cases waiting with
              | nil => rfl
              | cons cur rest =>
                  cases rest with
                  | nil =>
                      rw [List.dropLast_cons_of_ne_nil (List.cons_ne_nil _ _)] at member
                      rw [List.mem_singleton.mp member] at success
                      exact absurd success goes
                  | cons next rest =>
                      exact absurd cmds (few cur next rest)

/-! ## The last answer -/

/-- A command the firmware has answered in full is taken off the list, and the turn goes on. -/
theorem Held.completeNext {t : Sys} (held : Held s (.firmware c) waiting)
    (answered : s.unacked = []) (drops : Drops s c t) (same : SameParties s t)
    (ran : pushNext t waiting.head? accepted = .ok s') :
    ∃ h' waiting', Held s' h' waiting' ∧ s'.state = s.state ∧
      ((s.bus = .pcie → Reaches s accepted) → h' = .free → waiting' = []) := by
  have core := held.toCore
  have left := core.drop rfl (Or.inl answered) drops
  have calm : Holder.Quiet .free := trivial
  have free : Held t .free waiting := ⟨left, held.toParties.quiet trivial same calm⟩
  have answered' : t.unacked = [] := drops.unacked.trans answered
  cases waiting with
  | nil =>
      cases ran
      exact ⟨.free, [], free, same.state, fun _ _ => rfl⟩
  | cons d waiting =>
      rw [List.head?_cons, pushNext, same.bus] at ran
      by_cases pcie : s.bus = .pcie
      · rw [if_pos pcie] at ran
        have cmds := left.cmds_waiting rfl
        have enough : waiting.length < t.cmds.length := by
          rw [cmds]
          exact Nat.lt_succ_self _
        obtain ⟨h', waiting', quiet, core', same', ends⟩ := left.nextCmd answered' enough ran
        refine ⟨h', waiting', ⟨core', free.toParties.quiet trivial same' quiet⟩,
          (same.trans same').state, fun reaches none => ends none ?_⟩
        have reach := reaches pcie
        rw [Reaches, core.cmds_eq rfl, List.tail_cons] at reach
        rcases reach with few | ⟨e, member, success⟩
        · left
          rw [List.length_cons] at few
          exact List.length_eq_zero_iff.mp (by omega)
        · right
          refine ⟨e, member, ?_⟩
          have listed : e ∈ d :: waiting := List.dropLast_subset _ member
          rw [drops.others e (Nat.ne_of_gt (core.lt_waiting rfl e listed))]
          exact success
      · rw [if_neg pcie] at ran
        cases ran
        have woken : Core t.up .woken (d :: waiting) :=
          (left.release rfl (Or.inr rfl) (Or.inl answered')).of_same (sameCore_up t)
        have sem : t.up.msgSem = Holder.woken.sem := congrArg Nat.succ free.sem
        have callers : ∀ a, (t.caller a).Active ↔ Holder.woken = .caller a := fun a =>
          (free.callers a).trans ⟨fun eq => (by cases eq), fun eq => (by cases eq)⟩
        have wire : t.up.bus ≠ .pcie := fun eq => pcie (same.bus.symm.trans eq)
        exact ⟨.woken, d :: waiting, ⟨woken, free.running, fun a eq => (by cases eq), sem,
          fun _ _ => List.cons_ne_nil d waiting, free.task, callers,
          fun eq => absurd eq wire⟩, same.state, fun _ eq => by cases eq⟩

/-! ## Acknowledgements -/

/-- Behind a command that has been found, the first one that waits is the next. -/
theorem llindSearch_waiting {mem : Nat → AmlCmd} (tkn : Nat)
    (waits : ∀ d ∈ waiting, (mem d).waitPush = true) :
    llindSearch mem tkn true waiting = (true, waiting.head?) := by
  cases waiting with
  | nil => rfl
  | cons d waiting =>
      rw [llindSearch, if_neg (by simp), if_pos (waits d List.mem_cons_self)]
      rfl

/-- A token no command has is not found. -/
theorem llindSearch_fresh {mem : Nat → AmlCmd} {tkn : Nat} {cmds : List Nat}
    (fresh : ∀ d ∈ cmds, (mem d).tkn ≠ tkn) : (llindSearch mem tkn false cmds).1 = false := by
  induction cmds with
  | nil => rfl
  | cons d cmds induction =>
      have other : ((mem d).tkn == tkn) = false :=
          beq_eq_false_iff_ne.mpr (fresh d List.mem_cons_self)
      rw [llindSearch, other, Bool.and_false, if_neg Bool.false_ne_true]
      split_ifs
      · rfl
      · exact induction fun e member => fresh e (List.mem_cons_of_mem d member)

/-- The tokens of recent commands are different. -/
theorem Core.tkn_ne (core : Core s h waiting) (listed : d ∈ s.cmds) (bound : c < s.queued)
    (recent : s.queued ≤ c + amlCmdMaxQueued) (other : d ≠ c) : (s.mem d).tkn ≠ (s.mem c).tkn := by
  have near := core.recent d listed
  have lt := core.bound d listed
  rw [core.tkn d lt, core.tkn c bound]
  rw [amlCmdMaxQueued] at near recent
  omega

/-- Answers taken and flags changed leave the parties where they are. -/
theorem Held.taken (held : Held s h waiting) (core : Core s' h waiting) (same : SameParties s s') :
    Held s' h waiting := by
  refine ⟨core, ?_, ?_, ?_, ?_, ?_, ?_, ?_⟩
  · rw [same.state]
    exact held.running
  · rw [same.state]
    exact held.stale
  · rw [same.msgSem]
    exact held.sem
  · rw [same.state]
    exact held.woken
  · rw [same.task]
    exact held.task
  · rw [same.caller]
    exact held.callers
  · rw [same.bus, same.task]
    exact held.pcie

/-- A command is credited with an answer. -/
def Sys.credit (s : Sys) (answered c : Nat) (f : AmlCmd → AmlCmd) : Sys :=
  { s.modify c f with credits := s.credits ++ [(answered, c)] }

theorem sameParties_credit (s : Sys) (answered c : Nat) (f : AmlCmd → AmlCmd) :
    SameParties s (s.credit answered c f) := ⟨rfl, rfl, rfl, rfl, rfl⟩

/-- A command completed with its last answer is off the list. -/
theorem drops_credit (s : Sys) (answered c : Nat) {f : AmlCmd → AmlCmd}
    (tkn : (f (s.mem c)).tkn = (s.mem c).tkn) :
    Drops s c ((s.credit answered c f).finish c) := by
  refine ⟨rfl, fun d other => ?_, ?_, rfl, rfl, rfl, rfl, rfl, rfl, rfl⟩
  · rw [Sys.finish_mem_of_ne _ other]
    exact Sys.modify_mem_of_ne s f other
  · have there : (s.credit answered c f).mem c = f (s.mem c) := Sys.modify_mem_self s c f
    rw [Sys.finish_mem_self, AmlCmd.finish_eq, there, tkn]

/-- A command that waits for another answer stays with the firmware. -/
theorem Held.credit (held : Held s h waiting) (answered : Nat) {f : AmlCmd → AmlCmd}
    (tkn : (f (s.mem c)).tkn = (s.mem c).tkn)
    (push : c ∈ waiting → (f (s.mem c)).waitPush = (s.mem c).waitPush)
    (ack : c ∉ s.pushed ∨ c ∈ s.unacked → (f (s.mem c)).waitAck = (s.mem c).waitAck)
    (flight : h = .firmware c → (f (s.mem c)).waitAck = true ∨ (f (s.mem c)).waitCfm = true) :
    Held (s.credit answered c f) h waiting := by
  have changed := held.toCore.modify tkn push ack flight
  have core : Core (s.credit answered c f) h waiting :=
    changed.answer s.hostid s.unacked s.unconfirmed _ (Or.inr ⟨rfl, rfl⟩) changed.unconfirmed
  exact held.taken core (sameParties_credit s answered c f)

/-- `cmd_mgr_llind` for a command that is found on the list. -/
theorem cmdMgrLlind_found {next : Option Nat} (answered : Nat)
    (search : llindSearch s.mem (s.mem c).tkn false s.cmds = (true, next)) (listed : c ∈ s.cmds) :
    cmdMgrLlind s answered c accepted =
      let credited := s.credit answered c fun cmd => { cmd with waitAck := false }
      if (s.mem c).waitCfm then .ok credited else pushNext (credited.finish c) next accepted := by
  have complete : ((s.modify c fun cmd => { cmd with waitAck := false }).mem c).waitComplete =
      !(s.mem c).waitCfm := by
    rw [Sys.modify_mem_self]
    rfl
  simp only [cmdMgrLlind, search, complete]
  by_cases more : (s.mem c).waitCfm = true
  · rw [if_pos more, more]
    rfl
  · rw [if_neg more, if_pos (by simp [more]), cmdComplete_of_mem (by exact listed)]
    rfl

theorem Held.ack {early : Bool} (held : Held s h waiting) (due : c ∈ s.unacked)
    (ran : ackInd s c early accepted = .ok s') :
    Passes s h waiting (.ack c early accepted) s' := by
  have core := held.toCore
  obtain ⟨a, unacked, hostid, pushed, recent, place⟩ :=
    core.unacked.resolve_left (List.ne_nil_of_mem due)
  obtain rfl : c = a := List.mem_singleton.mp (unacked ▸ due)
  have none : s.unacked.erase c = [] := by rw [unacked, List.erase_cons_head]
  replace ran := ackInd_ok held.running hostid ran
  rw [none] at ran
  have taken : Held { s with unacked := [], hostid := Option.none } h waiting :=
    held.taken (core.answer _ _ _ _ (Or.inl rfl) core.unconfirmed) ⟨rfl, rfl, rfl, rfl, rfl⟩
  rcases place with ⟨rfl, flag⟩ | ⟨rfl, crashed⟩
  · have cmds := core.cmds_eq (c := c) rfl
    have search : llindSearch s.mem (s.mem c).tkn false s.cmds = (true, waiting.head?) := by
      rw [cmds, llindSearch, if_pos (by simp)]
      exact llindSearch_waiting _ core.waits
    have listed : c ∈ s.cmds := by
      rw [cmds]
      exact List.mem_cons_self
    rw [cmdMgrLlind_found (s := { s with unacked := [], hostid := Option.none }) c search
      listed] at ran
    simp only at ran
    by_cases more : (s.mem c).waitCfm = true
    · rw [if_pos more] at ran
      cases ran
      have credited := taken.credit (c := c) (f := fun cmd => { cmd with waitAck := false }) c rfl
        (fun _ => rfl)
        (fun open_ => open_.elim (absurd pushed) (fun member => by cases member))
        fun _ => Or.inr more
      exact ⟨.firmware c, waiting, credited, fun _ _ _ eq => by cases eq⟩
    · rw [if_neg more] at ran
      obtain ⟨h', waiting', after, state, ends⟩ := taken.completeNext rfl (drops_credit _ c c rfl)
        ((sameParties_credit _ c c _).trans (sameParties_finish _ c)) ran
      refine ⟨h', waiting', after, fun hands _ alive => ends fun pcie => ?_⟩
      have ending : s.ending (.ack c early accepted) = some c := by
        rw [Sys.ending, if_pos ⟨due, Or.inl held.running⟩, hostid, Option.filter_some, if_pos]
        rw [search, Bool.eq_false_iff.mpr more]
        rfl
      rw [state] at alive
      refine hands alive pcie ?_
      rw [ending]
      exact Option.some_ne_none c
  · have gone : ∀ d ∈ s.cmds, (s.mem d).tkn ≠ (s.mem c).tkn := by
      intro d listed
      refine core.tkn_ne listed (core.pushed_lt c pushed) recent ?_
      rintro rfl
      cases core.firmware_of_pushed pushed listed
    cases search : llindSearch s.mem (s.mem c).tkn false s.cmds with
    | mk found next =>
        have none := llindSearch_fresh gone
        rw [search] at none
        cases none
        simp only [cmdMgrLlind, search] at ran
        cases ran
        exact ⟨.free, waiting, taken, fun _ _ alive => absurd crashed alive⟩

/-! ## Confirmations -/

/-- Behind the command whose turn it is, the first one that waits is the next. -/
theorem behind_waiting {mem : Nat → AmlCmd} {cmds : List Nat} (eq : cmds = c :: waiting)
    (waits : ∀ d ∈ waiting, (mem d).waitPush = true) :
    (behind c cmds).filter (fun next => (mem next).waitPush) = waiting.head? := by
  rw [eq, behind, if_pos rfl]
  cases waiting with
  | nil => rfl
  | cons d waiting =>
      rw [List.head?_cons, Option.filter_some, if_pos (waits d List.mem_cons_self)]

/-- `cmd_mgr_msgind` for a command that takes the confirmation. -/
theorem cmdMgrMsgind_taken {answered : Nat} {param : List UInt8} {cb : Nat → Bool}
    (search : msgindTaker s (s.mem answered).reqid cb = some c) :
    cmdMgrMsgind s answered param cb accepted =
      let credited := s.credit answered c fun cmd => copyCfm param { cmd with waitCfm := false }
      let next := (behind c s.cmds).filter fun next => (s.mem next).waitPush
      if (s.mem c).waitAck then .ok credited
      else pushNext (credited.finish c) next accepted := by
  have listed : c ∈ s.cmds := List.mem_of_find?_eq_some search
  have complete : ((s.modify c fun cmd => copyCfm param { cmd with waitCfm := false }).mem
      c).waitComplete = !(s.mem c).waitAck := by
    rw [Sys.modify_mem_self]
    simp only [AmlCmd.waitComplete, copyCfm, Bool.or_false]
  have waits : ∀ d, ((s.modify c fun cmd => copyCfm param { cmd with waitCfm := false }).mem
      d).waitPush = (s.mem d).waitPush := Sys.modify_same AmlCmd.waitPush rfl
  simp only [cmdMgrMsgind, search, complete, waits]
  by_cases more : (s.mem c).waitAck = true
  · rw [if_pos more, more]
    rfl
  · rw [if_neg more, if_pos (by simp [more]), cmdComplete_of_mem (by exact listed)]
    rfl

theorem Held.cfm {early : Bool} {param : List UInt8} {cb : Nat → Bool} (held : Held s h waiting)
    (due : c ∈ s.unconfirmed) (ran : msgInd s c early param cb accepted = .ok s') :
    Passes s h waiting (.cfm c early param cb accepted) s' := by
  have core := held.toCore
  replace ran := msgInd_ok held.running ran
  have taken : Held { s with unconfirmed := s.unconfirmed.erase c } h waiting :=
    held.taken (core.answer _ _ _ _ (Or.inr ⟨rfl, rfl⟩)
      fun d member => core.unconfirmed d (List.mem_of_mem_erase member)) ⟨rfl, rfl, rfl, rfl, rfl⟩
  cases search : msgindTaker s (s.mem c).reqid cb with
  | none =>
      have none : msgindTaker { s with unconfirmed := s.unconfirmed.erase c } (s.mem c).reqid cb =
          Option.none := search
      simp only [cmdMgrMsgind, none] at ran
      cases ran
      exact ⟨h, waiting, taken, fun _ => id⟩
  | some d =>
      rw [cmdMgrMsgind_taken (s := { s with unconfirmed := s.unconfirmed.erase c }) search] at ran
      simp only at ran
      have listed : d ∈ s.cmds := List.mem_of_find?_eq_some search
      by_cases more : (s.mem d).waitAck = true
      · rw [if_pos more] at ran
        cases ran
        have credited := taken.credit (c := d)
          (f := fun cmd => copyCfm param { cmd with waitCfm := false }) c rfl (fun _ => rfl)
          (fun _ => rfl) fun _ => Or.inl more
        exact ⟨h, waiting, credited, fun _ => id⟩
      · rw [if_neg more] at ran
        have pushed : d ∈ s.pushed := by
          by_contra unpushed
          exact more (core.waitAck d listed unpushed)
        obtain rfl := core.firmware_of_pushed pushed listed
        have answered : s.unacked = [] := by
          rcases core.unacked with none | ⟨a, -, -, -, -, firmware | free⟩
          · exact none
          · cases firmware.1
            exact absurd firmware.2 more
          · cases free.1
        rw [behind_waiting (core.cmds_eq rfl) core.waits] at ran
        obtain ⟨h', waiting', after, state, ends⟩ := taken.completeNext answered
          (drops_credit _ c d rfl)
          ((sameParties_credit _ c d _).trans (sameParties_finish _ d)) ran
        refine ⟨h', waiting', after, fun hands _ alive => ends fun pcie => ?_⟩
        rw [state] at alive
        exact hands alive pcie due ⟨d, search, Bool.eq_false_iff.mpr more⟩

end AmlW2.Cmd
