import AmlW2.Lib.Run
import Mathlib.Algebra.Ring.Nat
import Mathlib.Data.List.Basic

/-!
# Remain-on-channel periods

One period at a time keeps the device on a channel, for user space or for a frame that user space
sends there.  The firmware tells when it has switched and when the period is over, and user space is
told in turn, of its own periods only.  That a period is for a frame is noted only after it has been
started, and some paths free a period without a word; this file says in which runs user space gets,
for each of its periods, first one event and then the other.
-/

namespace AmlW2.P2p.RemainOn

/-- `AML_MIN_ROC_DUR`. -/
def amlMinRocDur : Nat := 102

/-- A call of `aml_cfg80211_remain_on_channel`. -/
structure Req where
  /-- It comes from user space, not from `aml_cfg80211_mgmt_tx`. -/
  own : Bool
  chan : Nat
  duration : Nat
  deriving DecidableEq, Repr

/-- A `struct aml_roc`, with the call that allocated it. -/
structure Roc where
  /-- Where it was allocated, which is its cookie. -/
  addr : Nat
  req : Req
  internal : Bool
  onChan : Bool
  deriving DecidableEq, Repr

/-- The duration of a call that is not too short. -/
def Req.lasting (req : Req) : Req :=
  if req.duration < amlMinRocDur then { req with duration := amlMinRocDur } else req

/-- What user space is told. -/
inductive Note
  /-- `cfg80211_ready_on_channel`. -/
  | ready (cookie chan duration : Nat)
  /-- `cfg80211_remain_on_channel_expired`. -/
  | expired (cookie chan : Nat)
  deriving DecidableEq, Repr

def Roc.ready (roc : Roc) : Note := .ready roc.addr roc.req.chan roc.req.duration

def Roc.expired (roc : Roc) : Note := .expired roc.addr roc.req.chan

/-- How far a call has come. -/
inductive Stage
  /-- It waits for the period before it to be over. -/
  | waiting
  /-- It waits for the confirmation of `aml_send_roc`. -/
  | sending
  /-- It has returned to `aml_cfg80211_mgmt_tx`, which is to mark the period as its own. -/
  | marking
  deriving DecidableEq, Repr

structure Sys where
  /-- `aml_hw->roc`. -/
  roc : Option Roc
  /-- `roc_is_canceling`. -/
  canceling : Bool
  /-- The call under way; `cfg80211` makes one at a time. -/
  call : Option (Req × Stage)
  log : List Note
  deriving DecidableEq, Repr

def Sys.init : Sys := ⟨none, false, none, []⟩

/-- What happens to the periods. -/
inductive Event
  /-- `aml_cfg80211_remain_on_channel` is called; it cancels the period there is. -/
  | request (req : Req) (cancelSent : Bool)
  /-- The call goes on, the period before it being over or having been waited for in vain; the
  allocation may fail. -/
  | launch (addr : Option Nat) (late : Bool)
  /-- `aml_send_roc` returns. -/
  | sent (ok : Bool)
  /-- `aml_cfg80211_mgmt_tx` marks the period. -/
  | mark
  /-- `aml_rx_chan_switch_ind` for the channel of the period. -/
  | onChannel
  /-- `aml_rx_remain_on_channel_exp_ind`. -/
  | expire
  /-- `aml_send_cancel_roc`, on any of its other paths. -/
  | cancel
  /-- `aml_close` or the recovery frees the period. -/
  | discard
  deriving DecidableEq, Repr

/-- The event does not happen in this state. -/
inductive Fault
  | idle
  deriving DecidableEq, Repr

/-- `aml_send_cancel_roc`, as far as the host keeps track of it. -/
def Sys.sendCancelRoc (s : Sys) : Sys :=
  { s with canceling := s.roc.isSome || s.canceling }

/-- The call after `aml_send_roc`. -/
def Sys.returned (s : Sys) (req : Req) : Sys :=
  { s with call := if req.own then none else some (req, .marking) }

/-- One event. -/
def Sys.step (s : Sys) : Event → Except Fault Sys
  | .request req cancelSent =>
      match s.call with
      | some _ => .error .idle
      | none =>
          let req := req.lasting
          match s.roc with
          | none => .ok { s with call := some (req, .waiting) }
          | some _ =>
              let s := s.sendCancelRoc
              if cancelSent then .ok { s with call := some (req, .waiting) } else .ok s
  | .launch addr late =>
      match s.call with
      | some (req, .waiting) =>
          if s.roc.isSome && !late then .error .idle
          else
            match addr with
            | none => .ok { s with call := none }
            | some addr =>
                .ok { s with
                  roc := some { addr, req, internal := false, onChan := false }
                  canceling := false
                  call := some (req, .sending) }
      | _ => .error .idle
  | .sent ok =>
      match s.call with
      | some (req, .sending) =>
          if ok then .ok (s.returned req) else .ok { s with roc := none, call := none }
      | _ => .error .idle
  | .mark =>
      match s.call with
      | some (_, .marking) =>
          .ok { s with roc := s.roc.map fun roc => { roc with internal := true }, call := none }
      | _ => .error .idle
  | .onChannel =>
      match s.roc with
      | none => .ok s
      | some roc =>
          .ok { s with
            log := if roc.internal then s.log else s.log ++ [roc.ready]
            roc := some { roc with onChan := true } }
  | .expire =>
      match s.roc with
      | none => .ok s
      | some roc =>
          .ok { s with
            log := if !roc.internal && roc.onChan then s.log ++ [roc.expired] else s.log
            roc := none
            canceling := false }
  | .cancel => .ok s.sendCancelRoc
  | .discard => .ok { s with roc := none }

/-- A run. -/
abbrev Sys.run : List Event → Sys → Except Fault Sys := Run.run Sys.step

/-! ## What user space is told -/

/-- Both events of each period, one period after the other. -/
def pairs (past : List Roc) : List Note := past.flatMap fun roc => [roc.ready, roc.expired]

/-- The period of which only the first event was told. -/
def announced : Option Roc → List Roc
  | none => []
  | some roc => if !roc.internal && roc.onChan then [roc] else []

/-- User space was told both events of periods it asked for, one after the other, and of the period
under way the first. -/
def Informed (roc : Option Roc) (log : List Note) : Prop :=
  ∃ past : List Roc, log = pairs past ++ (announced roc).map Roc.ready ∧
    ∀ roc' ∈ past ++ announced roc, roc'.req.own = true

def Sys.Told (s : Sys) : Prop := Informed s.roc s.log

/-- A period is announced once, and not before it is known to be for a frame; and no period that was
announced is freed before it is over. -/
def Sys.Clean (s : Sys) (event : Event) : Prop :=
  ∀ next, s.step event = .ok next →
    match event with
    | .onChannel => ∀ roc, s.roc = some roc →
        roc.internal = true ∨ roc.req.own = true ∧ roc.onChan = false
    | .launch (some _) _ | .sent false | .discard => announced s.roc = []
    | _ => True

@[simp]
theorem announced_none : announced none = [] := rfl

theorem announced_internal (roc : Roc) (internal : roc.internal = true) :
    announced (some roc) = [] := by
  simp [announced, internal]

theorem announced_before (roc : Roc) (before : roc.onChan = false) :
    announced (some roc) = [] := by
  simp [announced, before]

theorem announced_now (roc : Roc) (external : roc.internal = false) (onChan : roc.onChan = true) :
    announced (some roc) = [roc] := by
  simp [announced, external, onChan]

@[simp]
theorem pairs_nil : pairs [] = [] := rfl

theorem pairs_concat (past : List Roc) (roc : Roc) :
    pairs (past ++ [roc]) = pairs past ++ [roc.ready, roc.expired] := by
  rw [pairs, List.flatMap_append, List.flatMap_singleton]
  rfl

theorem pairs_length (past : List Roc) : (pairs past).length = 2 * past.length := by
  induction past with
  | nil => rfl
  | cons roc past induction =>
      rw [pairs, List.flatMap_cons, List.length_append, ← pairs, induction, List.length_cons,
        List.length_cons, List.length_cons, List.length_nil]
      omega

theorem Informed.length {roc : Option Roc} {log : List Note} (told : Informed roc log) :
    ∃ n, log.length = 2 * n + (announced roc).length := by
  obtain ⟨past, rfl, -⟩ := told
  exact ⟨past.length, by rw [List.length_append, pairs_length, List.length_map]⟩

/-- A step that leaves the announced period alone. -/
theorem Informed.of_same {roc roc' : Option Roc} {log : List Note} (told : Informed roc log)
    (same : announced roc' = announced roc) : Informed roc' log := by
  obtain ⟨past, told, own⟩ := told
  exact ⟨past, by rw [same, told], by rw [same]; exact own⟩

/-- An announced period that is freed, or announced again, leaves user space with one event too
many or too few. -/
theorem Informed.not_of_odd {roc roc' : Option Roc} {log : List Note} {added : List Note}
    (told : Informed roc log)
    (odd : (added.length + (announced roc).length + (announced roc').length) % 2 = 1) :
    ¬Informed roc' (log ++ added) := by
  intro after
  obtain ⟨n, before⟩ := told.length
  obtain ⟨m, after⟩ := after.length
  rw [List.length_append] at after
  omega

/-! ## The indications -/

theorem Informed.announce {roc : Roc} {log : List Note} (told : Informed (some roc) log)
    (external : roc.internal = false) (own : roc.req.own = true) (before : roc.onChan = false) :
    Informed (some { roc with onChan := true }) (log ++ [roc.ready]) := by
  obtain ⟨past, rfl, owned⟩ := told
  rw [announced_before roc before, List.append_nil] at owned
  have now := announced_now { roc with onChan := true } external rfl
  refine ⟨past, ?_, ?_⟩
  · rw [announced_before roc before, now, List.map_nil, List.append_nil]
    rfl
  · rw [now]
    intro roc' member
    rcases List.mem_append.mp member with old | new
    · exact owned roc' old
    · rw [List.mem_singleton.mp new]
      exact own

theorem Informed.expire {roc : Roc} {log : List Note} (told : Informed (some roc) log)
    (external : roc.internal = false) (onChan : roc.onChan = true) :
    Informed none (log ++ [roc.expired]) := by
  obtain ⟨past, rfl, owned⟩ := told
  rw [announced_now roc external onChan] at owned
  refine ⟨past ++ [roc], ?_, ?_⟩
  · rw [announced_now roc external onChan, pairs_concat]
    simp
  · rw [announced_none, List.append_nil]
    exact owned

/-! ## Steps -/

/-- The periods are told as they are to be; the period started by a call under way is that of the
call, and only a call for a frame comes back to mark it. -/
structure Sys.Sound (s : Sys) : Prop where
  told : s.Told
  own : ∀ req stage roc, s.call = some (req, stage) → stage ≠ .waiting → s.roc = some roc →
    roc.req = req
  marking : ∀ req, s.call = some (req, .marking) → req.own = false

/-- Without a call that has started a period, only what is told matters. -/
theorem Sys.Sound.of_told {s : Sys} (told : s.Told)
    (call : s.call = none ∨ ∃ req, s.call = some (req, .waiting)) : s.Sound := by
  refine ⟨told, fun req stage roc under past => ?_, fun req under => ?_⟩
  · rcases call with ended | ⟨req', waits⟩
    · rw [ended] at under
      cases under
    · rw [waits] at under
      cases under
      exact absurd rfl past
  · rcases call with ended | ⟨req', waits⟩
    · rw [ended] at under
      cases under
    · rw [waits] at under
      cases under

/-- A period that was not announced may go, or be announced or marked. -/
theorem Sys.Sound.of_roc {s next : Sys} (sound : s.Sound) (told : next.Told)
    (call : next.call = s.call)
    (roc : ∀ roc', next.roc = some roc' → ∃ roc, s.roc = some roc ∧ roc'.req = roc.req) :
    next.Sound := by
  refine ⟨told, fun req stage roc' under past present => ?_, fun req under => ?_⟩
  · obtain ⟨before, there, same⟩ := roc roc' present
    rw [same]
    exact sound.own req stage before (call ▸ under) past there
  · exact sound.marking req (call ▸ under)

theorem Sys.Sound.onChannel {s next : Sys} (sound : s.Sound)
    (stepped : s.step .onChannel = .ok next) (clean : s.Clean .onChannel) : next.Sound := by
  have once := clean next stepped
  simp only [Sys.step] at stepped
  split at stepped
  · cases stepped
    exact sound
  · rename_i roc present
    have told : Informed (some roc) s.log := present ▸ sound.told
    have informed : Informed (some { roc with onChan := true })
        (if roc.internal then s.log else s.log ++ [roc.ready]) := by
      cases external : roc.internal with
      | true =>
          rw [if_pos rfl]
          apply told.of_same
          rw [announced_internal roc external, announced_internal _ rfl]
      | false =>
          rw [if_neg Bool.false_ne_true, ← external]
          rcases once roc present with internal | ⟨own, before⟩
          · rw [external] at internal
            cases internal
          · exact told.announce external own before
    cases stepped
    refine Sys.Sound.of_roc sound ?_ rfl ?_
    · exact informed
    · rintro roc' ⟨⟩
      exact ⟨roc, present, rfl⟩

theorem Sys.Sound.expire {s next : Sys} (sound : s.Sound) (stepped : s.step .expire = .ok next) :
    next.Sound := by
  simp only [Sys.step] at stepped
  split at stepped
  · cases stepped
    exact sound
  · rename_i roc present
    have told : Informed (some roc) s.log := present ▸ sound.told
    have informed : Informed none
        (if !roc.internal && roc.onChan then s.log ++ [roc.expired] else s.log) := by
      split
      · rename_i open_
        rw [Bool.and_eq_true, Bool.not_eq_true'] at open_
        exact told.expire open_.1 open_.2
      · rename_i closed
        apply told.of_same
        rw [announced_none, announced, if_neg closed]
    cases stepped
    refine Sys.Sound.of_roc sound ?_ rfl ?_
    · exact informed
    · rintro roc' ⟨⟩

theorem Sys.Sound.mark {s next : Sys} (sound : s.Sound) (stepped : s.step .mark = .ok next) :
    next.Sound := by
  simp only [Sys.step] at stepped
  split at stepped
  · rename_i req under
    cases stepped
    apply Sys.Sound.of_told _ (Or.inl rfl)
    apply sound.told.of_same
    dsimp only
    cases present : s.roc with
    | none => rfl
    | some roc =>
        rw [Option.map_some, announced_internal _ rfl]
        -- a period for a frame was not announced
        by_contra some_announced
        have told : Informed (some roc) s.log := present ▸ sound.told
        obtain ⟨past, -, owned⟩ := told
        obtain ⟨roc', member⟩ := List.exists_mem_of_ne_nil _ (Ne.symm some_announced)
        have own := owned roc' (List.mem_append_right _ member)
        have same : roc' = roc := by
          rw [announced] at member
          split at member
          · exact List.mem_singleton.mp member
          · cases member
        rw [same, sound.own req .marking roc under (by decide) present, sound.marking req under]
          at own
        cases own
  · cases stepped

/-- A clean step keeps what is to be told. -/
theorem Sys.Sound.step {s next : Sys} {event : Event} (sound : s.Sound)
    (stepped : s.step event = .ok next) (clean : s.Clean event) : next.Sound := by
  cases event with
  | onChannel => exact sound.onChannel stepped clean
  | expire => exact sound.expire stepped
  | mark => exact sound.mark stepped
  | request req cancelSent =>
      simp only [Sys.step] at stepped
      split at stepped
      · cases stepped
      · rename_i under
        split at stepped
        · cases stepped
          exact Sys.Sound.of_told sound.told (Or.inr ⟨_, rfl⟩)
        · split at stepped
          · cases stepped
            exact Sys.Sound.of_told sound.told (Or.inr ⟨_, rfl⟩)
          · cases stepped
            exact Sys.Sound.of_told sound.told (Or.inl under)
  | launch addr late =>
      have unannounced := clean next stepped
      simp only [Sys.step] at stepped
      split at stepped
      · rename_i req under
        split at stepped
        · cases stepped
        · split at stepped
          · cases stepped
            exact Sys.Sound.of_told sound.told (Or.inl rfl)
          · cases stepped
            refine ⟨sound.told.of_same ?_, ?_, ?_⟩
            · rw [announced_before _ rfl]
              exact unannounced.symm
            · rintro req' stage roc ⟨⟩ - ⟨⟩
              rfl
            · rintro req' ⟨⟩
      · cases stepped
  | sent ok =>
      have unannounced := clean next stepped
      simp only [Sys.step] at stepped
      split at stepped
      · rename_i req under
        cases ok with
        | true =>
            rw [if_pos rfl] at stepped
            cases stepped
            by_cases own : req.own = true
            · refine Sys.Sound.of_told ?_ ?_
              · exact sound.told
              · simp [Sys.returned, own]
            · refine ⟨sound.told, ?_, ?_⟩
              · intro req' stage roc under' past present
                simp only [Sys.returned, if_neg own] at under'
                cases under'
                exact sound.own req .sending roc under (by decide) present
              · intro req' under'
                simp only [Sys.returned, if_neg own] at under'
                cases under'
                exact Bool.eq_false_iff.mpr own
        | false =>
            rw [if_neg Bool.false_ne_true] at stepped
            cases stepped
            apply Sys.Sound.of_told _ (Or.inl rfl)
            exact sound.told.of_same unannounced.symm
      · cases stepped
  | cancel =>
      cases stepped
      exact ⟨sound.told, sound.own, sound.marking⟩
  | discard =>
      have unannounced := clean next stepped
      cases stepped
      refine Sys.Sound.of_roc sound ?_ rfl ?_
      · apply sound.told.of_same
        exact unannounced.symm
      · rintro roc' ⟨⟩

theorem announced_length {roc : Option Roc} (some_announced : announced roc ≠ []) :
    (announced roc).length = 1 := by
  cases roc with
  | none => exact absurd rfl some_announced
  | some roc =>
      rw [announced] at some_announced ⊢
      split
      · rfl
      · rename_i closed
        rw [if_neg closed] at some_announced
        exact absurd rfl some_announced

/-- A period that was announced is not over when it is freed. -/
theorem Informed.not_freed {roc roc' : Option Roc} {log : List Note} (told : Informed roc log)
    (open_ : announced roc ≠ []) (gone : announced roc' = []) : ¬Informed roc' log := by
  have wrong : ¬Informed roc' (log ++ []) := by
    apply told.not_of_odd
    rw [announced_length open_, gone]
    rfl
  rwa [List.append_nil] at wrong

/-- After any other step user space was told too much or too little. -/
theorem Sys.Sound.not_told {s : Sys} {event : Event} (sound : s.Sound) (unclean : ¬s.Clean event) :
    ∃ next, s.step event = .ok next ∧ ¬next.Told := by
  simp only [Sys.Clean, not_forall] at unclean
  obtain ⟨next, stepped, wrong⟩ := unclean
  refine ⟨next, stepped, ?_⟩
  have told : Informed s.roc s.log := sound.told
  cases event with
  | request | mark | expire | cancel => exact absurd trivial wrong
  | discard =>
      cases stepped
      exact told.not_freed wrong rfl
  | sent ok =>
      cases ok with
      | true => exact absurd trivial wrong
      | false =>
          simp only [Sys.step] at stepped
          split at stepped
          · rw [if_neg Bool.false_ne_true] at stepped
            cases stepped
            exact told.not_freed wrong rfl
          · cases stepped
  | launch addr late =>
      cases addr with
      | none => exact absurd trivial wrong
      | some addr =>
          simp only [Sys.step] at stepped
          split at stepped
          · split at stepped
            · cases stepped
            · cases stepped
              exact told.not_freed wrong (announced_before _ rfl)
          · cases stepped
  | onChannel =>
      simp only [not_forall, not_or, not_and_or, Bool.not_eq_true, Bool.not_eq_false] at wrong
      obtain ⟨roc, present, external, unwanted⟩ := wrong
      rw [present] at told
      simp only [Sys.step, present] at stepped
      cases stepped
      rw [Sys.Told, external, if_neg Bool.false_ne_true]
      have now := announced_now ⟨roc.addr, roc.req, false, true⟩ rfl rfl
      by_cases again : roc.onChan = true
      · apply told.not_of_odd
        rw [now, announced_now roc external again]
        simp
      · rintro ⟨past, -, owned⟩
        have own := owned _ (List.mem_append_right _ (now ▸ List.mem_singleton.mpr rfl))
        rcases unwanted with other | again'
        · rw [other] at own
          cases own
        · exact again again'

/-- In a run in which the calls of `aml_cfg80211_remain_on_channel`, the indications of the firmware
and the paths that free a period come in any order, user space is told of each of its periods, and
of no other, first that the channel is reached and then, before anything else, that the period is
over, in every state reached: if and only if no period is announced before it is marked as one for
a frame or a second time, and none that was announced is freed before it is over. -/
theorem periods_told {events : List Event} :
    Run.Throughout Sys.step Sys.Told events Sys.init ↔
      Run.Guarded Sys.step Sys.Clean events Sys.init := by
  have start : Sys.init.Sound := by
    refine Sys.Sound.of_told ⟨[], rfl, ?_⟩ (Or.inl rfl)
    rintro roc ⟨⟩
  have any : ∀ event ∈ events, (fun _ => True : Event → Prop) event := fun _ _ => trivial
  exact Run.throughout_iff_guarded
    (fun s event next sound _ clean stepped => sound.step stepped clean)
    (fun s sound => sound.told) (fun s event sound _ unclean => sound.not_told unclean) any start

/-- A period for a frame that is announced before it is marked never ends for user space. -/
example : (Sys.run [.request ⟨false, 36, 200⟩ true, .launch (some 4096) false, .sent true,
    .onChannel, .mark, .expire] Sys.init).toOption.map Sys.log = some [.ready 4096 36 200] := rfl

end AmlW2.P2p.RemainOn
