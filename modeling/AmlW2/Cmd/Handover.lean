import AmlW2.Cmd.Flight

/-!
# No stranded command

A command that waits on the list is pushed once nothing is in flight, as long as those who complete
a command hand over to the next one.  A caller whose push fails does not, and on PCIe a run of
failing pushes ends in front of the last command.
-/

namespace AmlW2.Cmd

variable {s s' : Sys} {c d : Nat} {h : Holder} {waiting : List Nat} {accepted : Nat → Bool}

/-! ## The push of the oldest command -/

/-- Somebody is about to push a command, or to go on after a push that has failed. -/
def BeingPushed (s : Sys) (c : Nat) : Prop :=
  s.caller c = .pushing ∨ s.caller c = .relocking false ∨
    s.task = .found c ∨ s.task = .cleared c ∨ s.task = .relocking c false

/-- The message task is about to look for a command, or the oldest one is being pushed. -/
def Scheduled (s : Sys) : Prop := 0 < s.msgSem ∨ ∃ c, s.cmds.head? = some c ∧ BeingPushed s c

/-- With a command that waits and none in flight, a push is scheduled. -/
def Served (s : Sys) : Prop :=
  s.state = .inited → (∃ c ∈ s.cmds, (s.mem c).waitPush = true) → (∀ c, ¬Awaiting s c) →
    Scheduled s

theorem Held.served (held : Held s h waiting) (busy : Busy s h waiting) : Served s := by
  rintro running ⟨c, listed, -⟩ idle
  have alive : s.state ≠ .crashed := by
    rw [running]
    exact MgrState.noConfusion
  have core := held.toCore
  cases h with
  | free =>
      rw [core.cmds_waiting rfl, busy alive rfl] at listed
      cases listed
  | woken =>
      left
      rw [held.sem]
      exact Nat.one_pos
  | task a =>
      right
      refine ⟨a, by rw [core.cmds_eq rfl]; rfl, Or.inr (Or.inr held.task)⟩
  | stale a => exact absurd (held.stale a rfl) alive
  | caller a =>
      right
      refine ⟨a, by rw [core.cmds_eq rfl]; rfl, ?_⟩
      rcases (held.callers a).mpr rfl with pushing | failed
      · exact Or.inl pushing
      · exact Or.inr (Or.inl failed)
  | firmware a =>
      have there : a ∈ s.cmds := by
        rw [core.cmds_eq rfl]
        exact List.mem_cons_self
      exact absurd ⟨held.sent a rfl, there, held.flight a rfl⟩ (idle a)

/-! ## Runs that hand over -/

/-- The turn is somebody's, and nobody waits while it is free. -/
def Passing (s : Sys) : Prop := Kept s ∧ ∃ h waiting, Held s h waiting ∧ Busy s h waiting

/-- As long as every failed push is followed by the next one, no command is stranded. -/
theorem served_of_handsOver (bus : Bus) (events : List Event)
    (ordinary : ∀ e ∈ events, e.Ordinary)
    (guarded : Run.Guarded Sys.step HandsOver events (Sys.init bus)) :
    Run.Throughout Sys.step Served events (Sys.init bus) := by
  have preserved : ∀ s e s', Passing s → e.Ordinary → HandsOver s e → s.step e = .ok s' →
      Passing s' := by
    rintro s e s' ⟨kept, h, waiting, held, busy⟩ ordinary hands ran
    obtain ⟨h', waiting', after, busy'⟩ := held.step kept ordinary ran
    exact ⟨kept.of_step ordinary ran, h', waiting', after, busy' hands busy⟩
  have sound : ∀ s, Passing s → Served s := by
    rintro s ⟨-, h, waiting, held, busy⟩
    exact held.served busy
  exact guarded.throughout preserved sound ordinary
    ⟨init_kept bus, _, _, init_held bus, fun _ _ => rfl⟩

/-- Whether nobody can be left behind. -/
def handsOver (s : Sys) : Event → Bool
  | .push c accepted => (s.ending (.push c accepted)).all fun c => s.cmds == [c]
  | .relock c => (s.ending (.relock c)).all fun c => s.cmds == [c]
  | _ => s.cmds.tail.length ≤ 1

theorem handsOver_sound (s : Sys) (e : Event) (hands : handsOver s e = true) : HandsOver s e := by
  intro alive
  cases e with
  | push c accepted =>
      intro d ending
      simpa [handsOver, ending] using hands
  | relock c =>
      intro d ending
      simpa [handsOver, ending] using hands
  | ack c early accepted =>
      intro _ _
      left
      simpa [handsOver] using hands
  | cfm c early param cb accepted =>
      intro _ _ _
      left
      simpa [handsOver] using hands
  | _ => trivial

theorem confirmedInTurn_served :
    Run.Throughout Sys.step Served confirmedInTurn (Sys.init .pcie) :=
  served_of_handsOver .pcie confirmedInTurn confirmedInTurn_ordinary
    (Run.guarded_of_check handsOver_sound (by decide))

/-! ## A failed push with a command behind -/

/-- The push of a command fails while another one has been queued behind it. -/
def failedInFront : List Event :=
  [.queue confirmedRequest, .queue confirmedRequest, .push 0 false, .relock 0]

/-- The command queued behind is stranded. -/
theorem failed_push_strands :
    ¬∀ bus events, (∀ e ∈ events, e.Ordinary) →
      Run.Throughout Sys.step Served events (Sys.init bus) := by
  intro all
  have ordinary : ∀ e ∈ failedInFront, e.Ordinary := by
    simp only [failedInFront, List.forall_mem_cons]
    exact ⟨trivial, trivial, trivial, trivial, fun e member => by cases member⟩
  have ends : (Run.run Sys.step failedInFront (Sys.init .pcie)).toOption.map (fun s =>
      ((s.state, s.cmds, (s.mem 1).waitPush, s.pushed), s.msgSem, s.task, s.caller 1)) =
        some ((.inited, [1], true, []), 0, .idle, .waiting) := by
    decide
  obtain ⟨s, ran, fields⟩ := Run.ends_of_toOption ends
  simp only [Prod.mk.injEq] at fields
  obtain ⟨⟨running, cmds, waits, pushed⟩, sem, task, caller⟩ := fields
  have served := all .pcie failedInFront ordinary failedInFront [] s (List.append_nil _).symm ran
  have none : ∀ c, ¬Awaiting s c := by
    rintro c ⟨there, -⟩
    rw [pushed] at there
    cases there
  rcases served running ⟨1, by rw [cmds]; exact List.mem_cons_self, waits⟩ none with
    awake | ⟨c, head, being⟩
  · rw [sem] at awake
    exact Nat.lt_irrefl 0 awake
  · rw [cmds] at head
    cases head
    rw [BeingPushed, caller, task] at being
    rcases being with eq | eq | eq | eq | eq <;> cases eq

end AmlW2.Cmd
