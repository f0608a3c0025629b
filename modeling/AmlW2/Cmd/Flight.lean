import AmlW2.Cmd.Answers

/-!
# One command in flight

Without a drain, no two commands wait for the firmware at once, and the commands are pushed in the
order of their tokens.  ACKs are credited to the command they are for.  A confirmation may be
credited to another command that waits for one of the same kind, which is all that can go wrong.
-/

namespace AmlW2.Cmd

variable {s s' : Sys} {c d : Nat} {h : Holder} {waiting : List Nat} {accepted : Nat → Bool}

/-! ## Steps -/

theorem Kept.of_step {e : Event} (kept : Kept s) (ordinary : e.Ordinary)
    (ran : s.step e = .ok s') : Kept s' := by
  by_cases listed : Listed s e
  · obtain ⟨s₁, ran₁, after⟩ := (kept.step e).1 listed
    rw [ran] at ran₁
    cases ran₁
    exact after
  · rw [((kept.step e).2 listed s' ran).1] at ordinary
    cases ordinary

/-- Every step but a drain passes the turn on. -/
theorem Held.step {e : Event} (held : Held s h waiting) (kept : Kept s) (ordinary : e.Ordinary)
    (ran : s.step e = .ok s') : Passes s h waiting e s' := by
  have stays : Passes s h waiting e s := ⟨h, waiting, held, fun _ => id⟩
  cases e with
  | queue r =>
      cases ran
      exact held.queue kept r
  | push c accepted =>
      rw [Sys.step] at ran
      split_ifs at ran with pushing
      · exact held.push pushing ran
      · cases ran
        exact stays
  | relock c =>
      rw [Sys.step] at ran
      split at ran
      · rename_i sent phase
        exact held.relock phase ran
      · cases ran
        exact stays
  | wait c w =>
      cases ran
      exact held.wait c w
  | expire c =>
      rw [Sys.step] at ran
      split_ifs at ran with phase
      · exact held.expire phase ran
      · cases ran
        exact stays
  | task accepted => exact held.taskStep kept ran
  | ack c early accepted =>
      rw [Sys.step] at ran
      split_ifs at ran with due
      · exact held.ack due ran
      · cases ran
        exact stays
  | cfm c early param cb accepted =>
      rw [Sys.step] at ran
      split_ifs at ran with due
      · exact held.cfm due ran
      · cases ran
        exact stays
  | stop => cases ordinary
  | deinit => cases ordinary
  | drain => cases ordinary
  | clear => cases ordinary
  | init => cases ordinary

theorem init_held (bus : Bus) : Held (Sys.init bus) .free [] where
  cmds := rfl
  sorted := List.Pairwise.nil
  bound _ member := by cases member
  dense _ _ member := by cases member
  recent _ member := by cases member
  waits _ member := by cases member
  waitAck _ member := by cases member
  flight _ eq := by cases eq
  tkn _ lt := by cases lt
  nextTkn := rfl
  pushed := List.Pairwise.nil
  pushed_lt _ member := by cases member
  before _ member := by cases member
  next _ eq := by cases eq
  sent _ eq := by cases eq
  unacked := Or.inl rfl
  unconfirmed _ member := by cases member
  running := MgrState.noConfusion
  stale _ eq := by cases eq
  sem := rfl
  woken _ eq := by cases eq
  task := Or.inl rfl
  callers c := by
    refine ⟨fun active => ?_, fun eq => by cases eq⟩
    rcases active with eq | eq <;> cases eq
  pcie _ := ⟨Holder.noConfusion, rfl⟩

/-! ## Credits -/

/-- Nothing is credited, and what is pushed stays so. -/
structure Forward (s s' : Sys) : Prop where
  credits : s'.credits = s.credits
  pushed : s.pushed ⊆ s'.pushed

theorem Forward.trans {s'' : Sys} (first : Forward s s') (second : Forward s' s'') :
    Forward s s'' :=
  ⟨second.credits.trans first.credits, List.Subset.trans first.pushed second.pushed⟩

/-- Nothing at all is said or pushed. -/
theorem Forward.of_eq (credits : s'.credits = s.credits) (pushed : s'.pushed = s.pushed) :
    Forward s s' := ⟨credits, pushed ▸ List.Subset.refl _⟩

theorem forward_send (s : Sys) (c : Nat) (accepted : Bool) :
    Forward s (amlIpcMsgPush s c accepted).2 := by
  rw [amlIpcMsgPush]
  split_ifs
  · exact ⟨rfl, List.subset_append_left _ _⟩
  · exact .of_eq rfl rfl

theorem forward_pushFailed (ran : pushFailed s c = .ok s') : Forward s s' := by
  obtain ⟨-, rfl⟩ := cmdComplete_ok ran
  exact .of_eq rfl rfl

theorem forward_nextCmd {turns : Nat} (ran : cmdMgrNextCmd accepted turns s c = .ok s') :
    Forward s s' := by
  induction turns generalizing s c with
  | zero =>
      cases ran
      exact .of_eq rfl rfl
  | succ turns induction =>
      rw [cmdMgrNextCmd] at ran
      have sent := forward_send (s.modify c fun cmd => { cmd with waitPush := false }) c
          (accepted c)
      have freed : Forward s (freeMsg (amlIpcMsgPush
          (s.modify c fun cmd => { cmd with waitPush := false }) c (accepted c)).2 c) :=
        ⟨sent.credits, sent.pushed⟩
      simp only at ran
      split_ifs at ran
      · cases ran
        exact freed
      · split at ran
        · cases ran
        · rename_i s₁ failed
          have given := freed.trans (forward_pushFailed failed)
          split at ran
          · split_ifs at ran
            · exact given.trans (induction ran)
            · cases ran
              exact given
          · cases ran
            exact given

theorem forward_pushNext {next : Option Nat} (ran : pushNext s next accepted = .ok s') :
    Forward s s' := by
  cases next with
  | none =>
      cases ran
      exact .of_eq rfl rfl
  | some d =>
      rw [pushNext] at ran
      split_ifs at ran
      · exact forward_nextCmd ran
      · cases ran
        exact .of_eq rfl rfl

theorem forward_push {accepted : Bool} (ran : callerPush s c accepted = .ok s') :
    Forward s s' := by
  rw [callerPush] at ran
  split_ifs at ran
  · cases ran
    exact .of_eq rfl rfl
  · cases ran
    have sent := forward_send s c accepted
    exact ⟨sent.credits, sent.pushed⟩
  · obtain ⟨s₁, failed, rfl⟩ := Run.map_eq_ok ran
    have given := forward_pushFailed failed
    exact ⟨given.credits, given.pushed⟩

theorem forward_relock {sent : Bool} (ran : callerRelock s c sent = .ok s') : Forward s s' := by
  rw [callerRelock] at ran
  split_ifs at ran
  · cases ran
    exact .of_eq rfl rfl
  · obtain ⟨s₁, failed, rfl⟩ := Run.map_eq_ok ran
    have given := forward_pushFailed failed
    exact ⟨given.credits, given.pushed⟩

theorem forward_crash (s : Sys) (c : Nat) : Forward s (s.crash c) := by
  rw [Sys.crash]
  split_ifs <;> exact .of_eq rfl rfl

theorem forward_expire (ran : callerExpire s c = .ok s') : Forward s s' := by
  have crashed := forward_crash s c
  rw [callerExpire] at ran
  split_ifs at ran
  · cases ran
    exact ⟨crashed.credits, crashed.pushed⟩
  · obtain ⟨s₁, ended, rfl⟩ := Run.map_eq_ok ran
    obtain ⟨-, rfl⟩ := cmdComplete_ok ended
    exact ⟨crashed.credits, crashed.pushed⟩

theorem forward_taskFinish {sent : Bool} (ran : taskFinish s c sent = .ok s') : Forward s s' := by
  rw [taskFinish] at ran
  split_ifs at ran
  · cases ran
    exact .of_eq rfl rfl
  · obtain ⟨s₁, failed, rfl⟩ := Run.map_eq_ok ran
    have given := forward_pushFailed failed
    split_ifs <;> exact ⟨given.credits, given.pushed⟩

theorem forward_task {accepted : Bool} (ran : taskStep s accepted = .ok s') : Forward s s' := by
  rw [taskStep] at ran
  split at ran
  · cases ran
    rw [taskTake]
    split_ifs <;> exact .of_eq rfl rfl
  · cases ran
    exact .of_eq rfl rfl
  · rename_i c task
    rw [taskPush] at ran
    split_ifs at ran
    · cases ran
      have sent := forward_send s c accepted
      exact ⟨sent.credits, sent.pushed⟩
    · exact forward_taskFinish ran
  · have finished := forward_taskFinish ran
    exact ⟨finished.credits, finished.pushed⟩
  · cases ran
    exact .of_eq rfl rfl

/-- Every answer is credited to the command it is for, which has been pushed. -/
def Credited (s : Sys) : Prop := ∀ p ∈ s.credits, p.1 = p.2 ∧ p.2 ∈ s.pushed

theorem Credited.forward (credited : Credited s) (forward : Forward s s') : Credited s' := by
  intro p member
  rw [forward.credits] at member
  exact (credited p member).imp_right fun pushed => forward.pushed pushed

theorem Credited.credit (credited : Credited s) (pushed : c ∈ s.pushed) (f : AmlCmd → AmlCmd) :
    Credited (s.credit c c f) := by
  intro p member
  rcases List.mem_append.mp member with before | new
  · exact credited p before
  · rw [List.mem_singleton.mp new]
    exact ⟨rfl, pushed⟩

/-- What `cmd_mgr_llind` credits is the command whose token it is given. -/
theorem Credited.llind (credited : Credited s) (pushed : c ∈ s.pushed)
    (ran : cmdMgrLlind s c c accepted = .ok s') : Credited s' := by
  rw [cmdMgrLlind] at ran
  split at ran
  · cases ran
    exact credited
  · have given := credited.credit pushed fun cmd => { cmd with waitAck := false }
    simp only at ran
    split_ifs at ran
    · split at ran
      · cases ran
      · rename_i s₁ ended
        obtain ⟨-, rfl⟩ := cmdComplete_ok ended
        have forward := forward_pushNext ran
        exact given.forward ⟨forward.credits, forward.pushed⟩
    · cases ran
      exact given

/-- An ACK is credited to the command pushed last, which it is for. -/
theorem Credited.ack {early : Bool} (credited : Credited s) (held : Held s h waiting)
    (due : c ∈ s.unacked) (ran : ackInd s c early accepted = .ok s') : Credited s' := by
  obtain ⟨a, unacked, hostid, pushed, -⟩ :=
    held.unacked.resolve_left (List.ne_nil_of_mem due)
  obtain rfl : c = a := List.mem_singleton.mp (unacked ▸ due)
  simp only [ackInd, hostid] at ran
  split_ifs at ran
  · cases ran
    exact credited
  · exact Credited.llind (s := { s with unacked := s.unacked.erase c, hostid := none }) credited
      pushed ran

/-- A confirmation is credited to whichever command takes it. -/
theorem msgInd_credits {early : Bool} {param : List UInt8} {cb : Nat → Bool}
    (running : s.state ≠ .deinit) (ran : msgInd s c early param cb accepted = .ok s') :
    s'.credits = s.credits ++
        ((msgindTaker s (s.mem c).reqid cb).map fun d => (c, d)).toList ∧
      s.pushed ⊆ s'.pushed := by
  replace ran := msgInd_ok running ran
  cases search : msgindTaker s (s.mem c).reqid cb with
  | none =>
      have none : msgindTaker { s with unconfirmed := s.unconfirmed.erase c } (s.mem c).reqid cb =
          Option.none := search
      simp only [cmdMgrMsgind, none] at ran
      cases ran
      exact ⟨(List.append_nil _).symm, List.Subset.refl _⟩
  | some d =>
      rw [cmdMgrMsgind_taken (s := { s with unconfirmed := s.unconfirmed.erase c }) search] at ran
      simp only at ran
      split_ifs at ran
      · cases ran
        exact ⟨rfl, List.Subset.refl _⟩
      · have forward := forward_pushNext ran
        exact ⟨forward.credits, forward.pushed⟩

/-! ## Confirmations for the command in flight -/

/-- A confirmation arrives for a command that takes it, or else for none on the list. -/
def Answerable (s : Sys) : Event → Prop
  | .cfm c _ _ cb _ =>
      c ∈ s.unconfirmed →
        c ∈ s.cmds ∧ (s.mem c).waitCfm = true ∧ cb c = true ∨
          ∀ d ∈ s.cmds, (s.mem d).reqid = (s.mem c).reqid → (s.mem d).waitCfm = true →
            cb d = false
  | _ => True

/-- Only for such a confirmation the command credited is the one it is for. -/
theorem Held.taker_iff {early : Bool} {param : List UInt8} {cb : Nat → Bool}
    (held : Held s h waiting) (due : c ∈ s.unconfirmed) :
    Answerable s (.cfm c early param cb accepted) ↔
      ∀ d, msgindTaker s (s.mem c).reqid cb = some d → d = c := by
  have takes : ∀ d, msgindTaker s (s.mem c).reqid cb = some d → d ∈ s.cmds ∧
      (s.mem d).reqid = (s.mem c).reqid ∧ (s.mem d).waitCfm = true ∧ cb d = true := by
    intro d search
    have fits := List.find?_some search
    simp only [Bool.and_eq_true, beq_iff_eq] at fits
    exact ⟨List.mem_of_find?_eq_some search, fits.1.1, fits.1.2, fits.2⟩
  constructor
  · intro answerable d search
    obtain ⟨listed, same, waits, ready⟩ := takes d search
    rcases answerable due with ⟨there, own, taken⟩ | none
    · have firmware := held.toCore.firmware_of_pushed (held.unconfirmed c due) there
      subst firmware
      rw [msgindTaker, held.toCore.cmds_eq (c := c) rfl, List.find?_cons_of_pos (by
        simp [own, taken])] at search
      exact (Option.some.inj search).symm
    · rw [none d listed same waits] at ready
      cases ready
  · intro only _
    cases search : msgindTaker s (s.mem c).reqid cb with
    | none =>
        right
        intro d listed same waits
        have no := List.find?_eq_none.mp search d listed
        simpa [same, waits] using no
    | some d =>
        obtain ⟨listed, -, waits, ready⟩ := takes d search
        obtain rfl := only d search
        exact Or.inl ⟨listed, waits, ready⟩

theorem Credited.step {e : Event} (credited : Credited s) (held : Held s h waiting)
    (ordinary : e.Ordinary) (answerable : Answerable s e) (ran : s.step e = .ok s') :
    Credited s' := by
  cases e with
  | queue r =>
      cases ran
      refine credited.forward ?_
      rw [cmdMgrQueue]
      split_ifs <;> exact .of_eq rfl rfl
  | push c accepted =>
      rw [Sys.step] at ran
      split_ifs at ran
      · exact credited.forward (forward_push ran)
      · cases ran
        exact credited
  | relock c =>
      rw [Sys.step] at ran
      split at ran
      · exact credited.forward (forward_relock ran)
      · cases ran
        exact credited
  | wait c w =>
      cases ran
      exact credited
  | expire c =>
      rw [Sys.step] at ran
      split_ifs at ran
      · exact credited.forward (forward_expire ran)
      · cases ran
        exact credited
  | task accepted => exact credited.forward (forward_task ran)
  | ack c early accepted =>
      rw [Sys.step] at ran
      split_ifs at ran with due
      · exact credited.ack held due ran
      · cases ran
        exact credited
  | cfm c early param cb accepted =>
      rw [Sys.step] at ran
      split_ifs at ran with due
      · obtain ⟨credits, pushed⟩ := msgInd_credits held.running ran
        intro p member
        rw [credits, List.mem_append] at member
        rcases member with before | new
        · exact (credited p before).imp_right fun there => pushed there
        · obtain ⟨d, search, rfl⟩ := Option.map_eq_some_iff.mp (Option.mem_toList.mp new)
          obtain rfl := (held.taker_iff due).mp answerable d search
          exact ⟨rfl, pushed (held.unconfirmed d due)⟩
      · cases ran
        exact credited
  | stop => cases ordinary
  | deinit => cases ordinary
  | drain => cases ordinary
  | clear => cases ordinary
  | init => cases ordinary

/-! ## The command in flight -/

/-- A command has been pushed and waits for its ACK or its confirmation. -/
def Awaiting (s : Sys) (c : Nat) : Prop :=
  c ∈ s.pushed ∧ c ∈ s.cmds ∧ ((s.mem c).waitAck = true ∨ (s.mem c).waitCfm = true)

/-- One command at most is in flight, commands are pushed as their tokens say, and answers are
credited to the commands they are for. -/
structure InOrder (s : Sys) : Prop where
  single : ∀ c d, Awaiting s c → Awaiting s d → c = d
  unacked : s.unacked.length ≤ 1
  pushed : s.pushed.Pairwise (· < ·)
  tkn : ∀ c ∈ s.pushed, c < s.queued ∧ (s.mem c).tkn = c % 2 ^ 32
  credited : Credited s

theorem Held.inOrder (held : Held s h waiting) (credited : Credited s) : InOrder s where
  single c d first second := by
    have eq := held.toCore.firmware_of_pushed first.1 first.2.1
    rw [held.toCore.firmware_of_pushed second.1 second.2.1] at eq
    cases eq
    rfl
  unacked := by
    rcases held.unacked with none | ⟨a, one, -⟩
    · rw [none]
      exact Nat.zero_le 1
    · rw [one]
      exact Nat.le_refl 1
  pushed := held.pushed
  tkn c pushed := ⟨held.pushed_lt c pushed, held.tkn c (held.pushed_lt c pushed)⟩
  credited := credited

/-- The turn is somebody's, and the books are in order. -/
def InTurn (s : Sys) : Prop := Kept s ∧ ∃ h waiting, Held s h waiting

theorem InTurn.step {e : Event} (turn : InTurn s) (ordinary : e.Ordinary)
    (ran : s.step e = .ok s') : InTurn s' := by
  obtain ⟨kept, h, waiting, held⟩ := turn
  obtain ⟨h', waiting', after, -⟩ := held.step kept ordinary ran
  exact ⟨kept.of_step ordinary ran, h', waiting', after⟩

/-- One command at a time is in flight, in order and with its own answers, throughout exactly those
runs in which every confirmation arrives for a command that takes it, or finds none that does. -/
theorem inOrder_iff_answerable (bus : Bus) (events : List Event)
    (ordinary : ∀ e ∈ events, e.Ordinary) :
    Run.Throughout Sys.step InOrder events (Sys.init bus) ↔
      Run.Guarded Sys.step Answerable events (Sys.init bus) := by
  have preserved : ∀ s e s', (InTurn s ∧ Credited s) → e.Ordinary → Answerable s e →
      s.step e = .ok s' → InTurn s' ∧ Credited s' := by
    rintro s e s' ⟨turn, credited⟩ ordinary answerable ran
    refine ⟨turn.step ordinary ran, ?_⟩
    obtain ⟨-, h, waiting, held⟩ := turn
    exact credited.step held ordinary answerable ran
  have sound : ∀ s, InTurn s ∧ Credited s → InOrder s := by
    rintro s ⟨⟨-, h, waiting, held⟩, credited⟩
    exact held.inOrder credited
  refine Run.throughout_iff_guarded preserved sound ?_ ordinary
    ⟨⟨init_kept bus, _, _, init_held bus⟩, fun p member => by cases member⟩
  rintro s e ⟨⟨kept, h, waiting, held⟩, -⟩ - wrong
  cases e with
  | cfm c early param cb accepted =>
      have due : c ∈ s.unconfirmed := by
        by_contra late
        exact wrong fun due => absurd due late
      -- some command takes the confirmation, so the manager is not cleared
      obtain ⟨taker, takes⟩ : ∃ d, msgindTaker s (s.mem c).reqid cb = some d := by
        by_contra none
        exact wrong ((held.taker_iff due).mpr fun d search => absurd ⟨d, search⟩ none)
      have up := kept.not_cleared (List.mem_of_find?_eq_some takes)
      have calm : s.Calm (.cfm c early param cb accepted) :=
        ⟨Event.noConfusion, fun stray => up stray.1⟩
      obtain ⟨s', ran, -⟩ := (kept.cfm c early param cb accepted).1
        (calm.listed_iff.mpr fun d some => by cases some)
      refine ⟨s', ran, fun good => wrong ((held.taker_iff due).mpr fun d search => ?_)⟩
      rw [Sys.step, if_pos due] at ran
      obtain ⟨credits, -⟩ := msgInd_credits held.running ran
      have there : (c, d) ∈ s'.credits := by
        rw [credits, search]
        exact List.mem_append_right _ (List.mem_singleton.mpr rfl)
      exact (good.credited _ there).1.symm
  | _ => exact absurd trivial wrong

/-- A blocking command that is confirmed. -/
def confirmedRequest : Request where
  reqid := 0
  reqCfm := true
  nonblock := false
  callThread := false
  a2eMsg := true
  e2aMsg := none

/-- A command is pushed, acknowledged and confirmed, and so is the one queued meanwhile. -/
def confirmedInTurn : List Event :=
  [.queue confirmedRequest, .push 0 true, .relock 0, .queue confirmedRequest,
    .ack 0 false fun _ => true, .cfm 0 false [] (fun _ => true) fun _ => true,
    .ack 1 false fun _ => true, .cfm 1 false [] (fun _ => true) fun _ => true]

/-- Whether a confirmation arrives for a command that takes it. -/
def takesOwn (s : Sys) : Event → Bool
  | .cfm c _ _ cb _ => s.cmds.contains c && (s.mem c).waitCfm && cb c
  | _ => true

theorem answerable_of_takesOwn (s : Sys) (e : Event) (own : takesOwn s e = true) :
    Answerable s e := by
  cases e with
  | cfm c early param cb accepted =>
      simp only [takesOwn, Bool.and_eq_true, List.contains_iff_mem] at own
      exact fun _ => Or.inl ⟨own.1.1, own.1.2, own.2⟩
  | _ => trivial

theorem confirmedInTurn_ordinary : ∀ e ∈ confirmedInTurn, e.Ordinary := by
  simp only [confirmedInTurn, List.forall_mem_cons]
  exact ⟨trivial, trivial, trivial, trivial, trivial, trivial, trivial, trivial,
    fun e member => by cases member⟩

theorem confirmedInTurn_inOrder :
    Run.Throughout Sys.step InOrder confirmedInTurn (Sys.init .pcie) :=
  (inOrder_iff_answerable .pcie confirmedInTurn confirmedInTurn_ordinary).mpr
    (Run.guarded_of_check answerable_of_takesOwn (by decide))

/-- A command is not confirmed in time, while another one of its kind waits to be pushed. -/
def confirmedLate : List Event :=
  [.queue confirmedRequest, .push 0 true, .relock 0, .queue confirmedRequest, .wait 0 .timeout,
    .wait 0 .look, .expire 0, .cfm 0 false [] (fun _ => true) fun _ => true]

/-- The confirmation is credited to the command that has not been pushed. -/
theorem late_confirmation_credited_to_next :
    ¬∀ bus events, (∀ e ∈ events, e.Ordinary) →
      Run.Throughout Sys.step InOrder events (Sys.init bus) := by
  intro all
  have ordinary : ∀ e ∈ confirmedLate, e.Ordinary := by
    simp only [confirmedLate, List.forall_mem_cons]
    exact ⟨trivial, trivial, trivial, trivial, trivial, trivial, trivial, trivial,
      fun e member => by cases member⟩
  have credits : (Run.run Sys.step confirmedLate (Sys.init .pcie)).toOption.map Sys.credits =
      some [(0, 1)] := by decide
  obtain ⟨s, ran, eq⟩ := Run.ends_of_toOption credits
  have good := all .pcie confirmedLate ordinary confirmedLate [] s (List.append_nil _).symm ran
  have own := (good.credited (0, 1) (eq ▸ List.mem_cons_self)).1
  cases own

end AmlW2.Cmd
