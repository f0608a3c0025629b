import AmlW2.Reorder.Delivery
import AmlW2.Reorder.Replay
import AmlW2.Rx.Napi

/-!
# From the reorder window to the network stack

A block-ack session hands up its MPDUs in order, but on two ways to the queue of the NAPI poll.  The
receive task gathers those that a reception or the aging hands up, and queues them at the end of its
round; a call of `aml_reo_forward_to` has a list of its own, which it queues after it has unlocked
the session.  The stack gets the MPDUs in order if an event hands up MPDUs only while no other list
holds any of the session, and otherwise the order is that of the race.
-/

namespace AmlW2.Rx.Stack

open Napi
open Reorder (Numbering Mpdu)

/-- An MPDU of the session, with its unwrapped number. -/
abbrev Numbered : Type := Mpdu (Frame × Nat)

/-- A session, the lists of those that took MPDUs out of it, and the queues behind them. -/
structure Path where
  session : Numbering Frame
  /-- The list `frames` of the receive task at `0`, and those of the calls of
  `aml_reo_forward_to`. -/
  lists : Nat → List Numbered
  /-- The MPDUs given to `aml_sdio_usb_rx_napi_preq_append`, in order. -/
  sent : List Numbered
  napi : Sys

/-- What happens on the path. -/
inductive Event
  /-- An event of the session; a call of `aml_reo_forward_to` is the one of this number. -/
  | session (call : Nat) (event : Reorder.Event Frame)
  /-- A list is given to `aml_sdio_usb_rx_napi_preq_append`. -/
  | queue (holder : Nat)
  /-- The frames of others, the calls to `napi_schedule` and the polls. -/
  | napi (event : Napi.Event)

/-- The list to which an event hands up MPDUs. -/
def holder (call : Nat) : Reorder.Event Frame → Nat
  | .enqueue _ _ | .aging _ => 0
  | .bar _ | .resetAll | .addkey | .release => call + 1

/-- The MPDUs handed up between two states of a session. -/
def handedUp (n next : Numbering Frame) : List Numbered :=
  next.place.frames.drop n.place.frames.length

/-- Why an event does not complete. -/
inductive Fault
  | session (fault : Reorder.Fault)
  | napi (fault : Napi.Fault)
  deriving DecidableEq, Repr

/-- One event. -/
def Path.step (s : Path) : Event → Except Fault Path
  | .session call event =>
      match s.session.step event with
      | .error fault => .error (.session fault)
      | .ok session =>
          let at_ := holder call event
          .ok { s with
            session
            lists := Function.update s.lists at_ (s.lists at_ ++ handedUp s.session session) }
  | .queue holder =>
      match s.napi.step (.append ((s.lists holder).map fun skb => skb.data.1)) with
      | .error fault => .error (.napi fault)
      | .ok napi =>
          .ok { s with
            lists := Function.update s.lists holder []
            sent := s.sent ++ s.lists holder
            napi }
  | .napi event =>
      match s.napi.step event with
      | .error fault => .error (.napi fault)
      | .ok napi => .ok { s with napi }

/-- A run. -/
abbrev Path.run : List Event → Path → Except Fault Path := Run.run Path.step

/-- A new session, with nothing on the way. -/
def Path.fresh (place : Reorder.Endpoint (Frame × Nat)) : Path :=
  ⟨⟨0, place⟩, fun _ => [], [], Sys.init⟩

/-- In whichever order the lists are queued, the MPDUs of the session are queued in the order of
their numbers. -/
def Path.InOrder (s : Path) : Prop :=
  ∀ holders : List Nat, holders.Nodup →
    ((s.sent ++ holders.flatMap s.lists).map Mpdu.number).Pairwise (· < ·)

/-- The session meets no MPDU at its blind spot, and serves its block-ack requests. -/
def Path.Served (s : Path) : Event → Prop
  | .session _ event => s.session.Served event
  | _ => True

/-- An event of the session that hands up MPDUs finds no other list that holds some. -/
def Path.Alone (s : Path) : Event → Prop
  | .session call event => ∀ next, s.session.step event = .ok next →
      handedUp s.session next ≠ [] → ∀ other, other ≠ holder call event → s.lists other = []
  | _ => True

/-! ## Steps of the session -/

/-- A session only adds to what it has handed up. -/
theorem endpoint_grows {e next : Reorder.Endpoint (Frame × Nat)}
    {event : Reorder.Event (Frame × Nat)} (stepped : e.step event = .ok next) :
    ∃ new, next.frames = e.frames ++ new := by
  cases present : e.reo with
  | none =>
      simp only [Reorder.Endpoint.step, present] at stepped
      cases stepped
      exact ⟨[], (List.append_nil _).symm⟩
  | some reo =>
      by_cases keeps : event.KeepsKey
      · obtain ⟨d, ⟨delivered, protects⟩, frames, -⟩ :=
          Reorder.Endpoint.step_protected keeps present stepped
        exact ⟨delivered, frames.trans protects.frames⟩
      · cases event with
        | addkey =>
            simp only [Reorder.Endpoint.step, present, Reorder.Endpoint.stepSession] at stepped
            cases stepped
            exact ⟨[], (List.append_nil _).symm⟩
        | enqueue | bar | aging | resetAll | release => exact absurd trivial keeps

theorem frames_eq {n next : Numbering Frame} {event : Reorder.Event Frame}
    (stepped : n.step event = .ok next) :
    next.place.frames = n.place.frames ++ handedUp n next := by
  have grows : ∃ new, next.place.frames = n.place.frames ++ new := by
    rcases Numbering.step_place stepped with same | ⟨event', stepped'⟩
    · exact ⟨[], by rw [same, List.append_nil]⟩
    · exact endpoint_grows stepped'
  obtain ⟨new, frames⟩ := grows
  rw [handedUp, frames, List.drop_left]

/-! ## Order -/

/-- The MPDUs handed up are those queued and those of at most one list, in this order. -/
structure Path.Sound (s : Path) : Prop where
  ordered : s.session.Ordered
  frames : ∃ only, s.session.place.frames = s.sent ++ s.lists only ∧
    ∀ other, other ≠ only → s.lists other = []

/-- Lists that hold nothing add nothing. -/
theorem flatMap_only {lists : Nat → List Numbered} {only : Nat}
    (others : ∀ other, other ≠ only → lists other = []) {holders : List Nat}
    (nodup : holders.Nodup) : holders.flatMap lists = [] ∨ holders.flatMap lists = lists only := by
  induction holders with
  | nil => exact Or.inl rfl
  | cons first holders induction =>
      rw [List.flatMap_cons]
      obtain ⟨fresh, nodup⟩ := List.nodup_cons.mp nodup
      by_cases same : first = only
      · right
        have empty : holders.flatMap lists = [] := by
          rw [List.flatMap_eq_nil_iff]
          intro other member
          apply others
          rintro rfl
          exact fresh (same ▸ member)
        rw [empty, List.append_nil, same]
      · rw [others first same, List.nil_append]
        exact induction nodup

theorem Path.Sound.inOrder {s : Path} (sound : s.Sound) : s.InOrder := by
  intro holders nodup
  obtain ⟨only, frames, others⟩ := sound.frames
  have sorted := sound.ordered.sorted
  rw [frames] at sorted
  rcases flatMap_only others nodup with empty | one
  · rw [empty, List.append_nil]
    exact List.Pairwise.sublist ((List.sublist_append_left _ _).map _) sorted
  · rw [one]
    exact sorted

/-- What a step of the path can do. -/
theorem Path.step_cases {s next : Path} {event : Event} (stepped : s.step event = .ok next) :
    (∃ call e session, event = .session call e ∧ s.session.step e = .ok session ∧
      next = { s with
        session
        lists := Function.update s.lists (holder call e)
          (s.lists (holder call e) ++ handedUp s.session session) }) ∨
    (∃ at_ napi, event = .queue at_ ∧
      s.napi.step (.append ((s.lists at_).map fun skb => skb.data.1)) = .ok napi ∧
      next = { s with
        lists := Function.update s.lists at_ []
        sent := s.sent ++ s.lists at_
        napi }) ∨
    ∃ e napi, event = .napi e ∧ s.napi.step e = .ok napi ∧ next = { s with napi } := by
  cases event with
  | session call e =>
      simp only [Path.step] at stepped
      split at stepped
      · cases stepped
      · rename_i session ran
        cases stepped
        exact Or.inl ⟨call, e, session, rfl, ran, rfl⟩
  | queue at_ =>
      simp only [Path.step] at stepped
      split at stepped
      · cases stepped
      · rename_i napi ran
        cases stepped
        exact Or.inr (Or.inl ⟨at_, napi, rfl, ran, rfl⟩)
  | napi e =>
      simp only [Path.step] at stepped
      split at stepped
      · cases stepped
      · rename_i napi ran
        cases stepped
        exact Or.inr (Or.inr ⟨e, napi, rfl, ran, rfl⟩)

/-- A step that is alone keeps the one list. -/
theorem Path.Sound.step {s next : Path} {event : Event} (sound : s.Sound) (served : s.Served event)
    (alone : s.Alone event) (stepped : s.step event = .ok next) : next.Sound := by
  obtain ⟨only, frames, others⟩ := sound.frames
  rcases Path.step_cases stepped with ⟨call, e, session, rfl, ran, rfl⟩ | ⟨at_, napi, rfl, -, rfl⟩ |
    ⟨e, napi, rfl, -, rfl⟩
  · obtain ⟨session', ran', ordered⟩ := s.session.step_ordered e sound.ordered served
    rw [ran] at ran'
    cases ran'
    refine ⟨ordered, ?_⟩
    have grown := frames_eq ran
    by_cases quiet : handedUp s.session session = []
    · refine ⟨only, ?_, ?_⟩
      · rw [quiet, List.append_nil, Function.update_eq_self]
        rw [quiet, List.append_nil] at grown
        exact grown.trans frames
      · rw [quiet, List.append_nil, Function.update_eq_self]
        exact others
    · have rest := alone session ran quiet
      have mine : s.lists only = s.lists (holder call e) := by
        by_cases same : only = holder call e
        · rw [same]
        · rw [rest only same, others _ (Ne.symm same)]
      refine ⟨holder call e, ?_, fun other different => ?_⟩
      · dsimp only
        rw [Function.update_self, grown, frames, mine, List.append_assoc]
      · dsimp only
        rw [Function.update_of_ne different]
        exact rest other different
  · refine ⟨sound.ordered, ?_⟩
    by_cases same : at_ = only
    · subst same
      refine ⟨at_, ?_, fun other different => ?_⟩
      · dsimp only
        rw [Function.update_self, List.append_nil]
        exact frames
      · dsimp only
        rw [Function.update_of_ne different]
        exact others other different
    · have nothing : s.lists at_ = [] := others at_ same
      have still : Function.update s.lists at_ [] = s.lists := by
        rw [← nothing, Function.update_eq_self]
      rw [nothing, List.append_nil, still]
      exact ⟨only, frames, others⟩
  · exact ⟨sound.ordered, only, frames, others⟩

/-- MPDUs handed up past a list that holds some are out of order in one of the races. -/
theorem Path.Sound.not_inOrder {s : Path} (sound : s.Sound) {event : Event}
    (served : s.Served event) (crowded : ¬s.Alone event) :
    ∃ next, s.step event = .ok next ∧ ¬next.InOrder := by
  cases event with
  | queue at_ => exact absurd trivial crowded
  | napi e => exact absurd trivial crowded
  | session call e =>
      obtain ⟨session, ran, ordered⟩ := s.session.step_ordered e sound.ordered served
      refine ⟨_, by rw [Path.step, ran], fun inOrder => crowded ?_⟩
      intro session' ran' some other different
      rw [ran] at ran'
      cases ran'
      by_contra held
      obtain ⟨skb, skb_mem⟩ := List.exists_mem_of_ne_nil _ held
      obtain ⟨new, new_mem⟩ := List.exists_mem_of_ne_nil _ some
      have nodup : [holder call e, other].Nodup := by
        simp [Ne.symm different]
      have raced := inOrder [holder call e, other] nodup
      dsimp only at raced
      rw [List.flatMap_cons, List.flatMap_singleton, Function.update_self,
        Function.update_of_ne different, List.map_append, List.map_append,
        List.map_append] at raced
      have late := (List.pairwise_append.mp (List.pairwise_append.mp raced).2.1).2.2
        new.number (List.mem_append_right _ (List.mem_map_of_mem new_mem))
        skb.number (List.mem_map_of_mem skb_mem)
      obtain ⟨only, frames, others⟩ := sound.frames
      have here : other = only := by
        by_contra elsewhere
        exact held (others other elsewhere)
      have sorted := ordered.sorted
      rw [frames_eq ran, frames, ← here, List.map_append, List.map_append] at sorted
      have early := (List.pairwise_append.mp sorted).2.2
        skb.number (List.mem_append_right _ (List.mem_map_of_mem skb_mem))
        new.number (List.mem_map_of_mem new_mem)
      exact Nat.lt_asymm early late

/-! ## The stack -/

/-- The MSDUs of the MPDUs queued, in order, are among those the stack gets. -/
def Path.Reaches (s : Path) : Prop :=
  (s.sent.flatMap fun skb => skb.data.1.opened).Sublist s.napi.all

theorem Path.Reaches.step {s next : Path} {event : Event} (reaches : s.Reaches)
    (stepped : s.step event = .ok next) : next.Reaches := by
  rcases Path.step_cases stepped with ⟨call, e, session, rfl, ran, rfl⟩ |
    ⟨at_, napi, rfl, queued, rfl⟩ | ⟨e, napi, rfl, ran, rfl⟩
  · exact reaches
  · rw [Path.Reaches, List.flatMap_append, Sys.step_all queued]
    apply reaches.append
    rw [Napi.Event.appended, List.flatMap_map]
  · rw [Path.Reaches, Sys.step_all ran]
    exact reaches.trans (List.sublist_append_left _ _)

/-- The MPDUs of a session are queued for the stack in the order of their unwrapped numbers, however
the receive task, the calls that move the window and the polls race, if and only if no event hands
up MPDUs past a list that holds some; and what is queued first reaches the stack first. -/
theorem session_reaches_stack {kernel : Kernel} {now : Jiffies} {req : Reorder.CreateReq}
    {place : Reorder.Endpoint (Frame × Nat)} (created : Reorder.Created kernel now req place)
    {events : List Event} (served : Run.Guarded Path.step Path.Served events (Path.fresh place)) :
    (Run.Throughout Path.step Path.InOrder events (Path.fresh place) ↔
      Run.Guarded Path.step Path.Alone events (Path.fresh place)) ∧
    ∀ final, Path.run events (Path.fresh place) = .ok final → final.Reaches := by
  have start : (Path.fresh place).Sound := by
    refine ⟨created.ordered, 0, ?_, fun _ _ => rfl⟩
    obtain ⟨reo, rfl, -⟩ := created.fresh
    rfl
  constructor
  · exact Run.throughout_iff_guarded_within
      (fun s event next sound served alone stepped => sound.step served alone stepped)
      (fun s sound => sound.inOrder)
      (fun s event sound served crowded => sound.not_inOrder served crowded) served start
  · intro final ran
    exact Run.invariant_of_run (fun s event next reaches stepped => reaches.step stepped) ran
      (List.nil_sublist _)

/-- A session of at least two slots serves all but block-ack requests. -/
theorem Path.served_of_wide {events : List Event} {s : Path} (wide : s.session.place.Wide)
    (barless : ∀ call ssn, .session call (.bar ssn) ∉ events) :
    Run.Guarded Path.step Path.Served events s := by
  induction events generalizing s with
  | nil => trivial
  | cons event events induction =>
      refine ⟨?_, fun next stepped => induction ?_ fun call ssn member =>
        barless call ssn (List.mem_cons_of_mem _ member)⟩
      · cases event with
        | queue at_ => trivial
        | napi e => trivial
        | session call e =>
            cases e with
            | enqueue now skb => exact wide.offBlindSpot (.enqueue now skb)
            | bar ssn => exact absurd List.mem_cons_self (barless call ssn)
            | aging | resetAll | addkey | release => trivial
      · rcases Path.step_cases stepped with ⟨call, e, session, rfl, ran, rfl⟩ |
          ⟨at_, napi, rfl, -, rfl⟩ | ⟨e, napi, rfl, -, rfl⟩
        · rcases Numbering.step_place ran with same | ⟨event', moved⟩
          · dsimp only
            rw [same]
            exact wide
          · obtain ⟨place, moved', kept⟩ := wide.step event'
            rw [moved] at moved'
            cases moved'
            exact kept
        · exact wide
        · exact wide

/-- A frame with one MSDU. -/
def single (data : List UInt8) : Frame := ⟨fromStation false data, []⟩

/-- The first MPDU is on the list of the receive task when the session is deleted with the third in
its window. -/
def overtaken : List Event :=
  [.session 0 (.enqueue 0 ⟨⟨0, by omega⟩, false, 0, single [1]⟩),
    .session 0 (.enqueue 0 ⟨⟨2, by omega⟩, false, 0, single [2]⟩), .session 0 .release, .queue 1,
    .queue 0]

theorem session_reaches_stack_overtaken :
    (Run.Throughout Path.step Path.InOrder overtaken (Path.fresh (Reorder.opened 8)) ↔
      Run.Guarded Path.step Path.Alone overtaken (Path.fresh (Reorder.opened 8))) ∧
    ∀ final, Path.run overtaken (Path.fresh (Reorder.opened 8)) = .ok final → final.Reaches :=
  session_reaches_stack
    (show Reorder.Created Reorder.hz250 0 (Reorder.addba 8) (Reorder.opened 8) from rfl)
    (Path.served_of_wide Reorder.opened_eight_wide (by simp [overtaken]))

end AmlW2.Rx.Stack
