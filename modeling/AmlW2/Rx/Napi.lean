import AmlW2.Lib.Run
import AmlW2.Rx.Amsdu
import Mathlib.Algebra.Ring.Nat

/-!
# From the receive task to the network stack

On SDIO and USB the receive task and the reorder timers queue frames, and the NAPI poll takes them
to the stack or sends them back over the air.  The A-MSDUs are opened on the way into the queue.
The poll remembers the station and the interface of the last MSDU, and calls to the poll are asked
for by `napi_schedule`, which the appends race with.
-/

namespace AmlW2.Rx.Napi

/-- `AML_STA_ID_UNKNOWN`. -/
def amlStaIdUnknown : UInt8 := 0xff

/-- `NX_REMOTE_STA_MAX + NX_VIRT_DEV_MAX`. -/
def staTableSize : Nat := 10 + 4

/-- `NX_VIRT_DEV_MAX`. -/
def nxVirtDevMax : Nat := 4

/-! ## Frames -/

/-- What the poll reads of `struct aml_skb_rxcb`. -/
structure Rxcb where
  /-- Whether `amsdu` is set: the MSDU came in an A-MSDU of several. -/
  amsdu : Bool
  staIdx : UInt8
  dstIdx : UInt8
  /-- A field of three bits. -/
  vif : Fin 8
  tid : Fin 8
  is4addr : Bool
  deriving DecidableEq, Repr

/-- An MSDU with its Ethernet header. -/
structure Skb where
  rxcb : Rxcb
  data : List UInt8
  deriving DecidableEq, Repr

/-- A frame queued by the receive path: its last MSDU, and the list `amsdu->msdus` of those before
it, which only an A-MSDU has. -/
structure Frame where
  last : Skb
  msdus : List Skb
  deriving DecidableEq, Repr

/-- The MSDUs of a frame that `aml_sdio_usb_rx_napi_preq_append` queues. -/
def Frame.opened (frame : Frame) : List Skb :=
  if frame.last.rxcb.amsdu then frame.msdus ++ [frame.last] else [frame.last]

/-- The loop of `aml_sdio_usb_rx_napi_preq_append`. -/
def openFrames : List Frame → List Skb → List Skb
  | [], msdus => msdus
  | frame :: frames, msdus => openFrames frames (msdus ++ frame.opened)

theorem openFrames_eq (frames : List Frame) (msdus : List Skb) :
    openFrames frames msdus = msdus ++ frames.flatMap Frame.opened := by
  induction frames generalizing msdus with
  | nil => rw [openFrames, List.flatMap_nil, List.append_nil]
  | cons frame frames induction =>
      rw [openFrames, induction, List.flatMap_cons, List.append_assoc]

/-! ## Stations and interfaces -/

/-- What the poll reads of `struct aml_sta`. -/
structure Sta where
  staIdx : UInt8
  vlanIdx : UInt8
  macAddr : List UInt8
  deriving DecidableEq, Repr

/-- The types of interfaces, as far as the poll tells them apart. -/
inductive IfType
  | ap
  | apVlan
  | p2pGo
  | other
  deriving DecidableEq, Repr

/-- What the poll reads of `struct aml_vif`. -/
structure Vif where
  vifIndex : UInt8
  up : Bool
  iftype : IfType
  /-- `AML_AP_ISOLATE`. -/
  isolate : Bool
  use4addr : Bool
  devAddr : List UInt8
  deriving DecidableEq, Repr

/-- `sta_table`, `vif_table` and `gro_enable`. -/
structure Tables where
  /-- The valid stations. -/
  sta : Nat → Option Sta
  vif : Nat → Option Vif
  groEnable : Bool
  /-- A station is given the index of its place when it is added. -/
  sta_own : ∀ i sta', sta i = some sta' → sta'.staIdx.toNat = i

/-- `aml_sta_get`. -/
def Tables.staGet (t : Tables) (staId : UInt8) : Option Sta :=
  if staTableSize ≤ staId.toNat then none else t.sta staId.toNat

/-- `aml_rx_get_vif`. -/
def Tables.rxGetVif (t : Tables) (vifIdx : Nat) : Option Vif :=
  if vifIdx < nxVirtDevMax then (t.vif vifIdx).filter (·.up) else none

/-- The interface bridges its stations. -/
def Vif.sap (vif : Vif) : Bool :=
  (vif.iftype = .ap || vif.iftype = .apVlan || vif.iftype = .p2pGo) && !vif.isolate

/-! ## What the poll does with an MSDU -/

/-- What the kernel answers while an MSDU is processed: whether a copy can be made, and the result
of `dev_queue_xmit`. -/
structure Answers where
  copied : Bool
  xmit : Int

/-- What became of an MSDU on an interface. -/
structure Fate where
  /-- The interface; with none the MSDU is freed. -/
  vif : Option UInt8
  /-- `cfg80211_rx_unexpected_4addr_frame`, with the address told. -/
  unexpected4addr : Option (List UInt8)
  /-- The result of sending it, or a copy, to the driver, if it is sent. -/
  resent : Option Int
  /-- It is given to `aml_filter_sp_data_frame`. -/
  spData : Bool
  /-- It is handed to the stack: `some true` through `napi_gro_receive`. -/
  received : Option Bool
  /-- Its priority. -/
  priority : Nat
  deriving DecidableEq, Repr

/-- What the poll remembers from one MSDU to the next. -/
structure Cache where
  sta : Option Sta
  vif : Option Vif
  sap : Bool

def Cache.empty : Cache := ⟨none, none, false⟩

/-- The station and the interface of an MSDU, looked up. -/
def Cache.refresh (t : Tables) (rxcb : Rxcb) (cache : Cache) : Cache :=
  let sta := t.staGet rxcb.staIdx
  match t.rxGetVif (match sta with | some sta => sta.vlanIdx.toNat | none => rxcb.vif) with
  | none => { cache with sta, vif := none }
  | some vif => { sta, vif := some vif, sap := vif.sap }

/-- The lookup of `aml_sdio_usb_rx_napi_poll`, which is left out for a known station. -/
def Cache.lookup (t : Tables) (rxcb : Rxcb) (cache : Cache) : Cache :=
  match cache.vif, cache.sta with
  | some _, some sta => if sta.staIdx ≠ rxcb.staIdx then cache.refresh t rxcb else cache
  | _, _ => cache.refresh t rxcb

/-- `h_dest` of the Ethernet header. -/
def Skb.hDest (skb : Skb) : List UInt8 := skb.data.take 6

/-- Whether an MSDU is handed to the stack and whether it is sent again, on an interface that
bridges. -/
def bridge (t : Tables) (vif : Vif) (skb : Skb) : Bool × Bool :=
  if isMulticastEtherAddr skb.hDest then (true, true)
  else if skb.hDest ≠ vif.devAddr then
    if skb.rxcb.dstIdx ≠ amlStaIdUnknown then
      -- destination is inside the BSS?
      (false, (t.staGet skb.rxcb.dstIdx).any fun dst => dst.vlanIdx = vif.vifIndex)
    else
      (false, false)
  else (true, false)

/-- The body of the loop of `aml_sdio_usb_rx_napi_poll` behind the lookup. -/
def handle (t : Tables) (cache : Cache) (answers : Answers) (skb : Skb) : Fate :=
  match cache.vif with
  | none => ⟨none, none, none, false, none, 0⟩
  | some vif =>
      let unexpected4addr :=
        match cache.sta with
        | some sta => if skb.rxcb.is4addr ∧ !vif.use4addr then some sta.macAddr else none
        | none => none
      let (forward, resend) := if cache.sap then bridge t vif skb else (true, false)
      -- only a frame that is handed up as well needs a copy
      let resent := if resend ∧ (forward → answers.copied) then some answers.xmit else none
      { vif := some vif.vifIndex
        unexpected4addr
        resent
        spData := forward && !skb.rxcb.amsdu
        received := if forward then some t.groEnable else none
        priority := 256 + skb.rxcb.tid }

/-- An MSDU taken by the poll, with the tables and the answers of the kernel at that time. -/
structure Served where
  tables : Tables
  answers : Answers
  skb : Skb

/-- The fate of an MSDU that is looked up for itself. -/
def Served.fate (served : Served) : Fate :=
  handle served.tables (Cache.empty.refresh served.tables served.skb.rxcb) served.answers served.skb

/-! ## The poll -/

/-- What a poll has done. -/
structure Polled where
  /-- Each MSDU taken, with its fate. -/
  log : List (Skb × Fate)
  /-- What is left in `napi_pending`. -/
  pending : List Skb
  done : Nat

/-- The loop of `aml_sdio_usb_rx_napi_poll` over `napi_pending`; `answers` is by the number of MSDUs
still to come. -/
def pollLoop (t : Tables) (answers : Nat → Answers) (budget : Nat) :
    List Skb → Cache → Nat → List (Skb × Fate) → Polled
  | [], _, done, log => ⟨log, [], done⟩
  | skb :: pending, cache, done, log =>
      if done < budget then
        let cache := cache.lookup t skb.rxcb
        let fate := handle t cache (answers pending.length) skb
        pollLoop t answers budget pending cache
          (if fate.received.isSome then done + 1 else done) (log ++ [(skb, fate)])
      else
        ⟨log, skb :: pending, done⟩

/-- What the cache holds is what a lookup would find for the station it holds. -/
def Cache.Fresh (t : Tables) (cache : Cache) : Prop :=
  ∀ sta vif, cache.sta = some sta → cache.vif = some vif →
    t.staGet sta.staIdx = some sta ∧ t.rxGetVif sta.vlanIdx.toNat = some vif ∧ cache.sap = vif.sap

theorem Cache.fresh_empty (t : Tables) : Cache.empty.Fresh t := by
  intro sta vif known
  cases known

theorem Tables.staGet_staIdx {t : Tables} {staId : UInt8} {sta : Sta}
    (found : t.staGet staId = some sta) : sta.staIdx = staId := by
  simp only [Tables.staGet] at found
  split at found
  · cases found
  · exact UInt8.toNat_inj.mp (t.sta_own _ _ found)

theorem Cache.fresh_refresh (t : Tables) (rxcb : Rxcb) (cache : Cache) :
    (cache.refresh t rxcb).Fresh t := by
  intro sta vif known active
  rw [Cache.refresh] at known active ⊢
  split at active
  · cases active
  · rename_i vif' found
    rw [found] at known
    cases active
    dsimp only at known
    rw [known] at found
    refine ⟨?_, found, rfl⟩
    rw [Tables.staGet_staIdx known]
    exact known

theorem Cache.Fresh.lookup {t : Tables} {cache : Cache} (fresh : cache.Fresh t) (rxcb : Rxcb) :
    (cache.lookup t rxcb).Fresh t := by
  rw [Cache.lookup]
  split
  · split
    · exact cache.fresh_refresh t rxcb
    · exact fresh
  · exact cache.fresh_refresh t rxcb

/-- A fate reads the interface of the cache, and with one also its station and whether it
bridges. -/
theorem handle_congr {t : Tables} {c d : Cache} (answers : Answers) (skb : Skb)
    (vif : c.vif = d.vif) (rest : c.vif ≠ none → c.sta = d.sta ∧ c.sap = d.sap) :
    handle t c answers skb = handle t d answers skb := by
  rw [handle, handle, ← vif]
  cases active : c.vif with
  | none => rfl
  | some v =>
      obtain ⟨sta, sap⟩ := rest (by rw [active]; exact Option.some_ne_none v)
      rw [sta, sap]

/-- A lookup finds no interface, or what it leaves does not depend on what was remembered. -/
theorem Cache.refresh_cases (t : Tables) (rxcb : Rxcb) :
    (∀ cache : Cache, (cache.refresh t rxcb).vif = none) ∨
      ∃ found : Cache, ∀ cache : Cache, cache.refresh t rxcb = found := by
  cases reached : t.rxGetVif (match t.staGet rxcb.staIdx with
      | some sta => sta.vlanIdx.toNat
      | none => rxcb.vif) with
  | none =>
      left
      intro cache
      rw [Cache.refresh, reached]
  | some vif =>
      right
      refine ⟨⟨t.staGet rxcb.staIdx, some vif, vif.sap⟩, fun cache => ?_⟩
      rw [Cache.refresh, reached]

theorem Served.fate_refresh (served : Served) (cache : Cache) :
    handle served.tables (cache.refresh served.tables served.skb.rxcb) served.answers served.skb =
      served.fate := by
  rw [Served.fate]
  rcases Cache.refresh_cases served.tables served.skb.rxcb with inactive | ⟨found, same⟩
  · apply handle_congr
    · rw [inactive, inactive]
    · intro active
      exact absurd (inactive cache) active
  · rw [same, same]

/-- The remembered station and interface decide as the ones looked up for this MSDU. -/
theorem Cache.Fresh.handle_eq {cache : Cache} (served : Served)
    (fresh : cache.Fresh served.tables) :
    handle served.tables (cache.lookup served.tables served.skb.rxcb) served.answers served.skb =
      served.fate := by
  rw [Cache.lookup]
  split
  · rename_i vif sta active known
    split
    · exact served.fate_refresh cache
    · rename_i same
      obtain ⟨found, reached, sap⟩ := fresh sta vif known active
      rw [not_not.mp same] at found
      rw [← served.fate_refresh Cache.empty]
      apply handle_congr
      · simp only [Cache.refresh, found, reached, active]
      · intro _
        simp only [Cache.refresh, found, reached, known, sap, and_self]
  · exact served.fate_refresh cache

/-- What the loop of the poll does: it takes MSDUs from the front, each to its own fate, until the
queue is empty or the budget is spent. -/
structure Polls (t : Tables) (answers : Nat → Answers) (budget : Nat) (pending : List Skb)
    (before : Nat) (log : List (Skb × Fate)) (polled : Polled) (taken : List Served) : Prop where
  queue : pending = taken.map Served.skb ++ polled.pending
  tables : ∀ served ∈ taken, served.tables = t ∧ ∃ i, served.answers = answers i
  log : polled.log = log ++ taken.map fun served => (served.skb, served.fate)
  count : polled.done = before + (taken.filter (·.fate.received.isSome)).length
  stops : polled.pending = [] ∨ budget ≤ polled.done

theorem pollLoop_polls (t : Tables) (answers : Nat → Answers) (budget : Nat) (pending : List Skb)
    {cache : Cache} (fresh : cache.Fresh t) (before : Nat) (log : List (Skb × Fate)) :
    ∃ taken, Polls t answers budget pending before log
      (pollLoop t answers budget pending cache before log) taken := by
  induction pending generalizing cache before log with
  | nil =>
      refine ⟨[], ?_⟩
      constructor <;> simp [pollLoop]
  | cons skb pending induction =>
      simp only [pollLoop]
      by_cases room : before < budget
      · rw [if_pos room]
        let served : Served := ⟨t, answers pending.length, skb⟩
        have fate : handle t (cache.lookup t skb.rxcb) (answers pending.length) skb = served.fate :=
          Cache.Fresh.handle_eq served fresh
        rw [fate]
        obtain ⟨taken, polls⟩ := induction (fresh.lookup skb.rxcb)
          (if served.fate.received.isSome then before + 1 else before)
          (log ++ [(skb, served.fate)])
        refine ⟨served :: taken, ?_⟩
        constructor
        · rw [List.map_cons, List.cons_append, ← polls.queue]
        · exact List.forall_mem_cons.mpr ⟨⟨rfl, _, rfl⟩, polls.tables⟩
        · rw [polls.log, List.map_cons, List.append_assoc, List.singleton_append]
        · rw [polls.count, List.filter_cons]
          split
          · rw [List.length_cons]
            omega
          · rfl
        · exact polls.stops
      · rw [if_neg room]
        refine ⟨[], ?_⟩
        constructor <;> simp
        omega

/-! ## The queues and the scheduling of the poll -/

/-- The queues, the scheduling of the poll and the MSDUs it took so far. -/
structure Sys where
  /-- `napi_preq`. -/
  preq : List Skb
  /-- `napi_pending`. -/
  pending : List Skb
  /-- Appends that have filled `napi_preq` and are still to call `napi_schedule`. -/
  owed : Nat
  /-- `NAPI_STATE_SCHED`. -/
  sched : Bool
  /-- `NAPI_STATE_MISSED`. -/
  missed : Bool
  /-- A poll has taken over `napi_preq` and not returned. -/
  polling : Bool
  log : List (Skb × Fate)

/-- After `aml_sdio_usb_rx_init`. -/
def Sys.init : Sys := ⟨[], [], 0, false, false, false, []⟩

/-- `napi_schedule`. -/
def Sys.napiSchedule (s : Sys) : Sys :=
  if s.sched then { s with missed := true } else { s with sched := true }

/-- `napi_complete_done`, which asks for another poll when one was missed. -/
def Sys.napiCompleteDone (s : Sys) : Sys := { s with sched := s.missed, missed := false }

/-- What the receive task, the timers and the kernel do, in any order. -/
inductive Event
  /-- `aml_sdio_usb_rx_napi_preq_append`, until it unlocks `napi_preq`. -/
  | append (frames : List Frame)
  /-- The call to `napi_schedule` of one that appended. -/
  | schedule
  /-- `aml_sdio_usb_rx_napi_poll`, until it unlocks `napi_preq`. -/
  | splice
  /-- The rest of the poll. -/
  | poll (t : Tables) (answers : Nat → Answers) (budget : Nat)

/-- The event does not happen in this state. -/
inductive Fault
  | idle
  deriving DecidableEq, Repr

/-- One event. -/
def Sys.step (s : Sys) : Event → Except Fault Sys
  | .append frames =>
      if frames = [] then .ok s
      else .ok { s with preq := s.preq ++ openFrames frames [], owed := s.owed + 1 }
  | .schedule => if s.owed = 0 then .error .idle else .ok { s with owed := s.owed - 1 }.napiSchedule
  | .splice =>
      -- the kernel runs one poll at a time
      if s.sched && !s.polling then
        .ok { s with preq := [], pending := s.pending ++ s.preq, polling := true }
      else .error .idle
  | .poll t answers budget =>
      if s.polling then
        let polled := pollLoop t answers budget s.pending Cache.empty 0 s.log
        let s := { s with pending := polled.pending, polling := false, log := polled.log }
        if polled.done < budget then .ok s.napiCompleteDone else .ok s
      else .error .idle

/-- A run. -/
abbrev Sys.run : List Event → Sys → Except Fault Sys := Run.run Sys.step

/-- The MSDUs an event queues. -/
def Event.appended : Event → List Skb
  | .append frames => frames.flatMap Frame.opened
  | _ => []

/-- The poll returned, after it took some MSDUs. -/
structure Returned (s : Sys) (t : Tables) (answers : Nat → Answers) (budget : Nat) (next : Sys)
    (taken : List Served) : Prop where
  queue : s.pending = taken.map Served.skb ++ next.pending
  tables : ∀ served ∈ taken, served.tables = t ∧ ∃ i, served.answers = answers i
  log : next.log = s.log ++ taken.map fun served => (served.skb, served.fate)
  rest : next.preq = s.preq ∧ next.owed = s.owed ∧ next.polling = false
  /-- It emptied the queue and completed, or it handed up as many MSDUs as it may and is called
  again. -/
  flags : next.pending = [] ∧ next.sched = s.missed ∧ next.missed = false ∨
    budget ≤ taken.length ∧ next.sched = s.sched ∧ next.missed = s.missed

theorem Sys.step_poll {s : Sys} (polling : s.polling = true) (t : Tables) (answers : Nat → Answers)
    (budget : Nat) : ∃ next taken, s.step (.poll t answers budget) = .ok next ∧
      Returned s t answers budget next taken := by
  obtain ⟨taken, polls⟩ := pollLoop_polls t answers budget s.pending (Cache.fresh_empty t) 0 s.log
  simp only [Sys.step, if_pos polling]
  by_cases spare : (pollLoop t answers budget s.pending Cache.empty 0 s.log).done < budget
  · rw [if_pos spare]
    refine ⟨_, taken, rfl, polls.queue, polls.tables, polls.log, ⟨rfl, rfl, rfl⟩, Or.inl ?_⟩
    exact ⟨polls.stops.resolve_right (Nat.not_le.mpr spare), rfl, rfl⟩
  · rw [if_neg spare]
    refine ⟨_, taken, rfl, polls.queue, polls.tables, polls.log, ⟨rfl, rfl, rfl⟩, Or.inr ?_⟩
    refine ⟨?_, rfl, rfl⟩
    have counted := polls.count
    have fewer := List.length_filter_le (·.fate.received.isSome) taken
    omega

/-- What a step can do. -/
theorem Sys.step_cases {s next : Sys} {event : Event} (stepped : s.step event = .ok next) :
    (event.appended = [] ∧ next = s) ∨
    (next = { s with preq := s.preq ++ event.appended, owed := s.owed + 1 } ∧
      ∃ frames, event = .append frames) ∨
    (event = .schedule ∧ 0 < s.owed ∧ next = { s with owed := s.owed - 1 }.napiSchedule) ∨
    (event = .splice ∧ s.sched = true ∧ s.polling = false ∧
      next = { s with preq := [], pending := s.pending ++ s.preq, polling := true }) ∨
    ∃ t answers budget taken, event = .poll t answers budget ∧ s.polling = true ∧
      Returned s t answers budget next taken := by
  cases event with
  | append frames =>
      simp only [Sys.step] at stepped
      split at stepped
      · rename_i none_given
        subst none_given
        cases stepped
        exact Or.inl ⟨rfl, rfl⟩
      · cases stepped
        right
        left
        exact ⟨by rw [openFrames_eq]; rfl, frames, rfl⟩
  | schedule =>
      simp only [Sys.step] at stepped
      split at stepped
      · cases stepped
      · cases stepped
        exact Or.inr (Or.inr (Or.inl ⟨rfl, by omega, rfl⟩))
  | splice =>
      simp only [Sys.step, Bool.and_eq_true, Bool.not_eq_true'] at stepped
      split at stepped
      · rename_i free
        cases stepped
        exact Or.inr (Or.inr (Or.inr (Or.inl ⟨rfl, free.1, free.2, rfl⟩)))
      · cases stepped
  | poll t answers budget =>
      have polling : s.polling = true := by
        by_contra idle
        simp only [Sys.step, if_neg idle] at stepped
        cases stepped
      obtain ⟨next', taken, ran, returned⟩ := s.step_poll polling t answers budget
      rw [stepped] at ran
      cases ran
      exact Or.inr (Or.inr (Or.inr (Or.inr ⟨t, answers, budget, taken, rfl, polling, returned⟩)))

/-- All the MSDUs queued so far: those taken by polls, and those still to come. -/
def Sys.all (s : Sys) : List Skb := s.log.map Prod.fst ++ (s.pending ++ s.preq)

theorem Sys.napiSchedule_all (s : Sys) : s.napiSchedule.all = s.all := by
  rw [Sys.napiSchedule]
  split <;> rfl

/-- A step queues the MSDUs of its event behind all others, and loses none. -/
theorem Sys.step_all {s next : Sys} {event : Event} (stepped : s.step event = .ok next) :
    next.all = s.all ++ event.appended := by
  rcases Sys.step_cases stepped with ⟨nothing, rfl⟩ | ⟨rfl, frames, rfl⟩ | ⟨rfl, owes, rfl⟩ |
    ⟨rfl, sched, idle, rfl⟩ | ⟨t, answers, budget, taken, rfl, polling, returned⟩
  · rw [nothing, List.append_nil]
  · simp only [Sys.all, List.append_assoc]
  · rw [Sys.napiSchedule_all]
    exact (List.append_nil _).symm
  · simp only [Sys.all, Event.appended, List.append_nil]
  · rw [Sys.all, Sys.all, returned.log, returned.rest.1, returned.queue, List.map_append,
      List.map_map]
    simp only [List.append_assoc, Event.appended, List.append_nil]
    rfl

/-! ## Order -/

/-- The MSDUs taken so far account for the log, were each taken by a poll of the run, and are, with
those still queued, the ones appended. -/
structure Accounts (past : List Event) (s : Sys) (served : List Served) : Prop where
  log : s.log = served.map fun x => (x.skb, x.fate)
  queue : served.map Served.skb ++ (s.pending ++ s.preq) = past.flatMap Event.appended
  polled : ∀ x ∈ served, ∃ answers budget,
    .poll x.tables answers budget ∈ past ∧ ∃ i, x.answers = answers i

theorem Sys.napiSchedule_log (s : Sys) : s.napiSchedule.log = s.log := by
  rw [Sys.napiSchedule]
  split <;> rfl

theorem Accounts.all {past : List Event} {s : Sys} {served : List Served}
    (accounts : Accounts past s served) : s.all = past.flatMap Event.appended := by
  rw [← accounts.queue, Sys.all, accounts.log, List.map_map]
  rfl

/-- Every step keeps the account. -/
theorem Accounts.step {past : List Event} {s next : Sys} {event : Event} {served : List Served}
    (accounts : Accounts past s served) (stepped : s.step event = .ok next) :
    ∃ served, Accounts (past ++ [event]) next served := by
  have later : next.all = (past ++ [event]).flatMap Event.appended := by
    rw [Sys.step_all stepped, accounts.all, List.flatMap_append, List.flatMap_singleton]
  -- the account is that of the log, whose MSDUs come before those still queued
  have suffices_log : ∀ taken : List Served, next.log = taken.map (fun x => (x.skb, x.fate)) →
      (∀ x ∈ taken, ∃ answers budget, .poll x.tables answers budget ∈ past ++ [event] ∧
        ∃ i, x.answers = answers i) → ∃ served, Accounts (past ++ [event]) next served := by
    intro taken log polled
    refine ⟨taken, log, ?_, polled⟩
    rw [← later, Sys.all, log, List.map_map]
    rfl
  have older : ∀ x ∈ served, ∃ answers budget,
      .poll x.tables answers budget ∈ past ++ [event] ∧ ∃ i, x.answers = answers i := by
    intro x member
    obtain ⟨answers, budget, polled, answer⟩ := accounts.polled x member
    exact ⟨answers, budget, List.mem_append_left _ polled, answer⟩
  rcases Sys.step_cases stepped with ⟨nothing, rfl⟩ | ⟨rfl, frames, rfl⟩ | ⟨rfl, owes, rfl⟩ |
    ⟨rfl, sched, idle, rfl⟩ | ⟨t, answers, budget, taken, rfl, polling, returned⟩
  · exact suffices_log served accounts.log older
  · exact suffices_log served accounts.log older
  · apply suffices_log served _ older
    rw [Sys.napiSchedule_log]
    exact accounts.log
  · exact suffices_log served accounts.log older
  · apply suffices_log (served ++ taken)
    · rw [returned.log, accounts.log, List.map_append]
    · intro x member
      rcases List.mem_append.mp member with old | new
      · exact older x old
      · obtain ⟨same, answer⟩ := returned.tables x new
        refine ⟨answers, budget, ?_, answer⟩
        rw [same]
        exact List.mem_append_right _ (List.mem_singleton.mpr rfl)

/-- In any interleaving of appends, calls to `napi_schedule` and polls, the MSDUs are taken in the
order in which they were appended, each once, and each to the fate it has when its station and its
interface are looked up for it alone. -/
theorem msdus_served_in_order {events : List Event} {final : Sys}
    (ran : Sys.run events Sys.init = .ok final) : ∃ served, Accounts events final served := by
  have preserved : ∀ past s event next, (∃ served, Accounts past s served) → True →
      Sys.step s event = .ok next → ∃ served, Accounts (past ++ [event]) next served := by
    rintro past s event next ⟨served, accounts⟩ - stepped
    exact accounts.step stepped
  have any : Run.Guarded Sys.step (fun _ _ => True) events Sys.init :=
    Run.guarded_of_forall_split fun _ _ _ _ _ _ => trivial
  have start : ∃ served, Accounts [] Sys.init served :=
    ⟨[], rfl, rfl, fun x member => by cases member⟩
  exact Run.history_of_run preserved any ran start

/-- An access point with one station. -/
def oneStation : Tables where
  sta i := if i = 1 then some ⟨1, 0, [2, 0, 0, 0, 0, 1]⟩ else none
  vif i := if i = 0 then some ⟨0, true, .ap, false, false, [2, 0, 0, 0, 0, 9]⟩ else none
  groEnable := true
  sta_own := by
    intro i sta' found
    split at found
    · rename_i one
      cases found
      exact one.symm
    · cases found

/-- An MSDU of the station. -/
def fromStation (amsdu : Bool) (data : List UInt8) : Skb := ⟨⟨amsdu, 1, 0xff, 0, 0, false⟩, data⟩

/-- An A-MSDU of two comes, and while a poll takes them, a broadcast. -/
def arriving : List Event :=
  [.append [⟨fromStation true [2, 0, 0, 0, 0, 9, 5], [fromStation true [2, 0, 0, 0, 0, 9, 4]]⟩],
    .schedule, .splice, .append [⟨fromStation false [255, 255, 255, 255, 255, 255, 7], []⟩],
    .schedule, .poll oneStation (fun _ => ⟨true, 0⟩) 64]

theorem msdus_served_in_order_arriving : ∃ final, Sys.run arriving Sys.init = .ok final ∧
    ∃ served, Accounts arriving final served := by
  obtain ⟨final, ran⟩ : ∃ final, Sys.run arriving Sys.init = .ok final := ⟨_, rfl⟩
  exact ⟨final, ran, msdus_served_in_order ran⟩

/-! ## Progress -/

/-- Where MSDUs are queued, a poll is scheduled, or an append is about to ask for one. -/
structure Sys.Attended (s : Sys) : Prop where
  preq : s.preq ≠ [] → s.sched = true ∨ 0 < s.owed
  pending : s.pending ≠ [] → s.sched = true
  polling : s.polling = true → s.sched = true
  missed : s.missed = true → s.sched = true
  /-- An append that came while the poll was running left its mark, or is about to. -/
  running : s.polling = true → s.preq ≠ [] → s.missed = true ∨ 0 < s.owed

theorem Sys.attended_init : Sys.init.Attended := by
  constructor <;> simp [Sys.init]

theorem Sys.Attended.napiSchedule {s : Sys} (attended : { s with owed := s.owed + 1 }.Attended) :
    s.napiSchedule.Attended := by
  rw [Sys.napiSchedule]
  split
  · rename_i scheduled
    exact ⟨fun _ => Or.inl scheduled, fun _ => scheduled, fun _ => scheduled, fun _ => scheduled,
      fun _ _ => Or.inl rfl⟩
  · rename_i unscheduled
    refine ⟨fun _ => Or.inl rfl, fun _ => rfl, fun _ => rfl, fun _ => rfl, fun polling => ?_⟩
    exact absurd (attended.polling polling) unscheduled

/-- Every step keeps it. -/
theorem Sys.Attended.step {s next : Sys} {event : Event} (attended : s.Attended)
    (stepped : s.step event = .ok next) : next.Attended := by
  rcases Sys.step_cases stepped with ⟨-, rfl⟩ | ⟨rfl, -⟩ | ⟨-, owes, rfl⟩ |
    ⟨-, sched, idle, rfl⟩ | ⟨t, answers, budget, taken, rfl, polling, returned⟩
  · exact attended
  · exact ⟨fun _ => Or.inr (Nat.succ_pos _), attended.pending, attended.polling, attended.missed,
      fun _ _ => Or.inr (Nat.succ_pos _)⟩
  · apply Sys.Attended.napiSchedule
    dsimp only
    rw [Nat.sub_add_cancel owes]
    exact attended
  · exact ⟨fun some => absurd rfl some, fun _ => sched, fun _ => sched, fun _ => sched,
      fun _ some => absurd rfl some⟩
  · obtain ⟨preq, owed, stopped⟩ := returned.rest
    rcases returned.flags with ⟨empty, flag, missed⟩ | ⟨-, flag, missed⟩
    · refine ⟨fun some => ?_, fun some => absurd empty some, fun running => ?_, fun marked => ?_,
        fun running => ?_⟩
      · rw [preq] at some
        rw [flag, owed]
        exact attended.running polling some
      · rw [stopped] at running
        cases running
      · rw [missed] at marked
        cases marked
      · rw [stopped] at running
        cases running
    · have scheduled : next.sched = true := flag.trans (attended.polling polling)
      refine ⟨fun _ => Or.inl scheduled, fun _ => scheduled, fun _ => scheduled,
        fun _ => scheduled, fun running => ?_⟩
      rw [stopped] at running
      cases running

/-- The kernel calls the poll, a number of times in a row. -/
def polls (budget : Nat) (given : Nat → Tables × (Nat → Answers)) : Nat → List Event
  | 0 => []
  | n + 1 => .splice :: .poll (given 0).1 (given 0).2 budget ::
      polls budget (fun i => given (i + 1)) n

/-- Between two calls of the poll, with no append under way. -/
structure Sys.Quiet (s : Sys) : Prop extends s.Attended where
  owes : s.owed = 0
  idle : s.polling = false

/-- A call to a scheduled poll empties the queues and completes, or takes as many MSDUs as its
budget at least. -/
theorem Sys.Quiet.call {s : Sys} (quiet : s.Quiet) (sched : s.sched = true) (t : Tables)
    (answers : Nat → Answers) (budget : Nat) :
    ∃ next, (∀ events, Sys.run (.splice :: .poll t answers budget :: events) s =
        Sys.run events next) ∧ next.Quiet ∧ next.preq = [] ∧
      next.log.map Prod.fst ++ next.pending = s.log.map Prod.fst ++ s.pending ++ s.preq ∧
      (next.pending = [] ∧ next.sched = s.missed ∧ next.missed = false ∨
        budget + next.pending.length ≤ s.pending.length + s.preq.length ∧
          next.sched = true ∧ next.missed = s.missed) := by
  have spliced : s.step .splice =
      .ok { s with preq := [], pending := s.pending ++ s.preq, polling := true } := by
    simp only [Sys.step, sched, quiet.idle, Bool.not_false, Bool.and_self, if_true]
  obtain ⟨next, taken, polled, returned⟩ :=
    Sys.step_poll (s := { s with preq := [], pending := s.pending ++ s.preq, polling := true }) rfl
      t answers budget
  obtain ⟨preq, owed, stopped⟩ := returned.rest
  have queue := returned.queue
  have attended := (quiet.toAttended.step spliced).step polled
  refine ⟨next, fun events => ?_, ⟨attended, owed.trans quiet.owes, stopped⟩, preq, ?_, ?_⟩
  · rw [Sys.run, Run.run_cons_ok _ spliced, Run.run_cons_ok _ polled]
  · rw [List.append_assoc, show s.pending ++ s.preq = _ from queue, returned.log, List.map_append,
      List.append_assoc, List.map_map]
    rfl
  · have lengths := congrArg List.length queue
    rw [List.length_append, List.length_append, List.length_map] at lengths
    rcases returned.flags with finished | ⟨spent, flag, missed⟩
    · exact Or.inl finished
    · refine Or.inr ⟨?_, flag.trans sched, missed⟩
      omega

/-- The calls it takes at most. -/
theorem Sys.Quiet.drains {budget : Nat} (positive : 0 < budget) {queued : Nat} {s : Sys}
    (quiet : s.Quiet) (few : s.pending.length + s.preq.length = queued)
    (given : Nat → Tables × (Nat → Answers)) :
    ∃ n, n ≤ queued / budget + 1 + s.missed.toNat ∧
      ∃ last, Sys.run (polls budget given n) s = .ok last ∧ last.preq = [] ∧ last.pending = [] ∧
        last.sched = false ∧ last.log.map Prod.fst = s.log.map Prod.fst ++ s.pending ++ s.preq := by
  induction queued using Nat.strong_induction_on generalizing s given with
  | _ queued induction =>
      by_cases sched : s.sched = true
      · obtain ⟨next, ran, quiet', preq, kept, finished | ⟨fewer, flag, missed⟩⟩ :=
          quiet.call sched (given 0).1 (given 0).2 budget
        · obtain ⟨empty, flag, missed⟩ := finished
          rw [empty, List.append_nil] at kept
          by_cases again : s.missed = true
          · -- a poll was missed, and the one that makes up for it finds nothing
            have sched' : next.sched = true := flag.trans again
            obtain ⟨last, ran', quiet'', preq', kept', finished | ⟨fewer, -, -⟩⟩ :=
              quiet'.call sched' (given 1).1 (given 1).2 budget
            · refine ⟨2, ?_, last, ?_⟩
              · rw [again, Bool.toNat_true, Nat.add_assoc]
                exact Nat.le_add_left 2 _
              rw [finished.1, List.append_nil, kept, empty, preq, List.append_nil,
                List.append_nil] at kept'
              refine ⟨?_, preq', finished.1, finished.2.1.trans missed, kept'⟩
              rw [polls, ran, polls, ran']
              rfl
            · rw [empty, preq] at fewer
              simp only [List.length_nil] at fewer
              omega
          · have one : 1 ≤ queued / budget + 1 + s.missed.toNat :=
              (Nat.le_add_left 1 _).trans (Nat.le_add_right _ _)
            refine ⟨1, one, next, ?_, preq, empty, ?_, kept⟩
            · rw [polls, ran]
              rfl
            · rw [flag]
              exact Bool.eq_false_iff.mpr again
        · have smaller : next.pending.length + next.preq.length < queued := by
            rw [preq, List.length_nil]
            omega
          obtain ⟨n, bound, last, ran', rest⟩ :=
            induction _ smaller quiet' rfl fun i => given (i + 1)
          refine ⟨n + 1, ?_, last, ?_, rest.1, rest.2.1, rest.2.2.1, ?_⟩
          · have divided : (next.pending.length + next.preq.length) / budget + 1 ≤
                queued / budget := by
              rw [← Nat.add_div_right _ positive]
              apply Nat.div_le_div_right
              rw [preq, List.length_nil]
              omega
            rw [missed] at bound
            omega
          · rw [polls, ran, ran']
          · rw [rest.2.2.2, preq, List.append_nil, kept]
      · have pending : s.pending = [] := by
          by_contra some
          exact sched (quiet.pending some)
        have preq : s.preq = [] := by
          by_contra some
          rcases quiet.toAttended.preq some with scheduled | owes
          · exact sched scheduled
          · rw [quiet.owes] at owes
            omega
        refine ⟨0, Nat.zero_le _, s, rfl, preq, pending, Bool.eq_false_iff.mpr sched, ?_⟩
        rw [pending, preq, List.append_nil, List.append_nil]

/-- No MSDU is stranded: in any interleaving a poll is scheduled, or about to be, while MSDUs are
queued, and once the appends are over the polls empty the queues in a number of calls that the
budget bounds. -/
theorem msdus_never_stranded {events : List Event} {s : Sys}
    (ran : Sys.run events Sys.init = .ok s) :
    (s.preq ≠ [] ∨ s.pending ≠ [] → s.sched = true ∨ 0 < s.owed) ∧
      ∀ (budget : Nat) (given : Nat → Tables × (Nat → Answers)), 0 < budget → s.owed = 0 →
        s.polling = false →
        ∃ n, n ≤ (s.pending.length + s.preq.length) / budget + 2 ∧
          ∃ last, Sys.run (polls budget given n) s = .ok last ∧ last.preq = [] ∧
            last.pending = [] ∧ last.sched = false ∧
            last.log.map Prod.fst = s.log.map Prod.fst ++ s.pending ++ s.preq := by
  have attended : s.Attended := Run.invariant_of_run
    (fun s event next held stepped => held.step stepped) ran Sys.attended_init
  constructor
  · rintro (some | some)
    · exact attended.preq some
    · exact Or.inl (attended.pending some)
  · intro budget given positive owes idle
    obtain ⟨n, bound, last⟩ := Sys.Quiet.drains positive ⟨attended, owes, idle⟩ rfl given
    refine ⟨n, ?_, last⟩
    have flag := s.missed.toNat_le
    omega

theorem msdus_never_stranded_arriving : ∃ s, Sys.run arriving Sys.init = .ok s ∧
    ∀ (budget : Nat) (given : Nat → Tables × (Nat → Answers)), 0 < budget →
      ∃ n, n ≤ 1 / budget + 2 ∧ ∃ last, Sys.run (polls budget given n) s = .ok last ∧
        last.preq = [] ∧ last.pending = [] ∧ last.sched = false ∧
        last.log.map Prod.fst = s.log.map Prod.fst ++ s.pending ++ s.preq := by
  obtain ⟨s, ran, owes, idle, queued⟩ : ∃ s, Sys.run arriving Sys.init = .ok s ∧ s.owed = 0 ∧
      s.polling = false ∧ s.pending.length + s.preq.length = 1 := ⟨_, rfl, rfl, rfl, rfl⟩
  refine ⟨s, ran, fun budget given positive => ?_⟩
  rw [← queued]
  exact (msdus_never_stranded ran).2 budget given positive owes idle

end AmlW2.Rx.Napi
