import AmlW2.Lib.Run
import Mathlib.Algebra.Ring.Nat
import Mathlib.Data.List.Nodup
import Mathlib.Logic.Function.Basic

/-!
# Scan requests

The driver holds one scan request of `cfg80211`, and tells when it is done from the confirmations of
the firmware, from an abort, from the recovery or when the interface is closed, each of them under
the lock.  The request is stored before the firmware is asked for the scan, outside the lock, and
taken back when that fails.  This file says in which runs every request ends once, and that a closed
interface leaves no request behind.
-/

namespace AmlW2.Scan.Requests

/-- A `struct cfg80211_scan_request` with the interface of its `wdev`. -/
structure Request where
  id : Nat
  vif : Nat
  deriving DecidableEq, Repr

/-- The period on a channel that a scan finds. -/
inductive Roc
  | free
  /-- Of a station, and cancelled first. -/
  | sta (cancelFailed : Bool)
  | other
  deriving DecidableEq, Repr

/-- What else `aml_cfg80211_scan` looks at before it takes a request. -/
structure Gate where
  /-- `AML_RECY_STATE_ONGOING`, or a link loss that asks for a recovery. -/
  recovering : Bool
  /-- Scans are dropped for traffic, and the last one was long ago. -/
  busy : Bool
  roc : Roc
  deriving DecidableEq, Repr

/-- How a request ends for `cfg80211`. -/
inductive End
  /-- `cfg80211_scan_done`. -/
  | done (aborted : Bool)
  /-- `aml_cfg80211_scan` returns an error. -/
  | refused
  deriving DecidableEq, Repr

/-- Where a call that is serialised by the network stack stands, outside the lock. -/
inductive Call
  /-- In `aml_send_scanu_req`, the request being stored. -/
  | scan (r : Request)
  /-- In `aml_send_scanu_cancel_req`, the request having been told. -/
  | abort (vif : Nat)
  /-- `aml_close` in `aml_send_scanu_cancel_req`, and whether the confirmation was handled. -/
  | cancel (vif : Nat) (confirmed : Bool)
  /-- `aml_close` waiting for `cancel_scan_cfm`. -/
  | wait (vif cnt : Nat)
  deriving DecidableEq, Repr

structure Sys where
  /-- `aml_hw->scan_request`. -/
  held : Option Request
  call : Option Call
  /-- `sta.scan_hang` of each interface. -/
  scanHang : Nat → Bool
  /-- `sta.cancel_scan_cfm` of each interface. -/
  cancelScanCfm : Nat → Bool
  /-- The requests that `cfg80211` has made. -/
  given : List Request
  ends : List (Request × End)
  /-- The closed interfaces, with what was held when `aml_close` was through with the scans. -/
  closed : List (Nat × Option Request)

def Sys.init : Sys := ⟨none, none, fun _ => false, fun _ => false, [], [], []⟩

inductive Event
  /-- `aml_cfg80211_scan` is called. -/
  | scan (r : Request) (gate : Gate)
  /-- `aml_send_scanu_req` returns. -/
  | sent (ok : Bool)
  /-- `aml_rx_scanu_start_cfm`. -/
  | startCfm
  /-- `aml_scanu_cancel_cfm`, for an interface of the table or for none. -/
  | cancelCfm (vif : Option Nat)
  /-- The recovery aborts the scan. -/
  | recover
  /-- `aml_cfg80211_abort_scan` is called. -/
  | abort (vif : Nat)
  /-- `aml_send_scanu_cancel_req` returns to it. -/
  | abortSent
  /-- `aml_close` is called. -/
  | close (vif : Nat)
  /-- `aml_send_scanu_cancel_req` returns to it. -/
  | cancelSent (ok : Bool)
  /-- `aml_close` looks for `cancel_scan_cfm`. -/
  | poll
  /-- `aml_set_scan_hang`, on its other paths. -/
  | setScanHang (vif : Nat) (on : Bool)
  /-- Another `aml_cancel_scan` has seen `cancel_scan_cfm`. -/
  | cancelled (vif : Nat)
  deriving DecidableEq, Repr

/-- The event does not happen in this state. -/
inductive Fault
  | idle
  deriving DecidableEq, Repr

/-! ## Steps -/

def Sys.finish (s : Sys) (r : Request) (how : End) : Sys := { s with ends := s.ends ++ [(r, how)] }

/-- `cfg80211_scan_done` of the request held, if any, which is held no longer. -/
def Sys.scanDone (s : Sys) (aborted : Bool) : Sys :=
  match s.held with
  | none => s
  | some r => { s.finish r (.done aborted) with held := none }

/-- The last critical section of `aml_close` about scans, and what follows it. -/
def Sys.closeEnd (s : Sys) (vif : Nat) (err : Bool) : Sys :=
  let s := if err then s.scanDone false else s
  { s with
    call := none
    scanHang := Function.update s.scanHang vif false
    closed := s.closed ++ [(vif, s.held)] }

/-- `aml_cfg80211_scan` up to `aml_send_scanu_req`. -/
def Sys.cfg80211Scan (s : Sys) (r : Request) (gate : Gate) : Sys :=
  if gate.recovering then s.finish r .refused
  else if s.scanHang r.vif then s.finish r .refused
  else if gate.busy then s.finish r (.done false)
  else
    match gate.roc with
    | .sta true => s.finish r .refused
    | .other => s.finish r .refused
    | _ => { s with held := some r, call := some (.scan r) }

def Sys.step (s : Sys) : Event → Except Fault Sys
  | .scan r gate =>
      match s.call with
      | some _ => .error .idle
      | none => .ok ({ s with given := s.given ++ [r] }.cfg80211Scan r gate)
  | .sent ok =>
      match s.call with
      | some (.scan r) =>
          if ok then .ok { s with call := none }
          else .ok { s.finish r .refused with held := none, call := none }
      | _ => .error .idle
  | .startCfm => .ok (s.scanDone false)
  | .cancelCfm vif =>
      let s := s.scanDone true
      let s := match s.call with
        | some (.cancel vif _) => { s with call := some (.cancel vif true) }
        | _ => s
      match vif with
      | none => .ok s
      | some vif => .ok { s with cancelScanCfm := Function.update s.cancelScanCfm vif true }
  | .recover => .ok (s.scanDone true)
  | .abort vif =>
      match s.call with
      | some _ => .error .idle
      | none =>
          match s.held with
          | none => .ok s
          | some _ => .ok { s.scanDone true with call := some (.abort vif) }
  | .abortSent =>
      match s.call with
      | some (.abort vif) => .ok { s with
          call := none
          cancelScanCfm := Function.update s.cancelScanCfm vif false }
      | _ => .error .idle
  | .close vif =>
      match s.call with
      | some _ => .error .idle
      | none =>
          if s.held.any (·.vif = vif) then
            .ok { s with
              call := some (.cancel vif false)
              scanHang := Function.update s.scanHang vif true }
          else .ok (s.closeEnd vif false)
  | .cancelSent ok =>
      match s.call with
      | some (.cancel vif _) =>
          if ok then .ok { s with call := some (.wait vif 0) } else .ok (s.closeEnd vif true)
      | _ => .error .idle
  | .poll =>
      match s.call with
      | some (.wait vif cnt) =>
          if s.cancelScanCfm vif then
            .ok ({ s with cancelScanCfm := Function.update s.cancelScanCfm vif false }.closeEnd vif
              false)
          else if 20 < cnt then .ok (s.closeEnd vif true)
          else .ok { s with call := some (.wait vif (cnt + 1)) }
      | _ => .error .idle
  | .setScanHang vif on => .ok { s with scanHang := Function.update s.scanHang vif on }
  | .cancelled vif => .ok { s with cancelScanCfm := Function.update s.cancelScanCfm vif false }

abbrev Sys.run : List Event → Sys → Except Fault Sys := Run.run Sys.step

/-! ## Ends -/

def Sys.ended (s : Sys) : List Request := s.ends.map Prod.fst

/-- The cancel under way was confirmed. -/
def Call.confirmed : Call → Bool
  | .cancel _ confirmed => confirmed
  | _ => true

/-- `cfg80211` makes a request, always a new one, when those before it have ended; and a command
that is confirmed returns without an error only after its confirmation was handled. -/
def Proper (s : Sys) : Event → Prop
  | .scan r _ => r ∉ s.given ∧ ∀ q ∈ s.given, q ∈ s.ended
  | .cancelSent ok => ok = true → s.call.all Call.confirmed = true
  | _ => True

/-- Every request ends at most once, and as long as it has not it is the one held. -/
structure Sound (s : Sys) : Prop where
  once : s.ended.Nodup
  kept : ∀ r ∈ s.given, r ∉ s.ended → s.held = some r
  held : ∀ r, s.held = some r → r ∈ s.given ∧ r ∉ s.ended

/-- A scan that the firmware is not asked for has not been told to be done. -/
def Kept (s : Sys) : Event → Prop
  | .sent false => ∀ r, s.call = some (.scan r) → s.held = some r
  | _ => True

/-- What holds between two events of a run in which requests end once. -/
structure Inv (s : Sys) : Prop where
  sound : Sound s
  given : ∀ r ∈ s.ended, r ∈ s.given
  scan : ∀ r, s.call = some (.scan r) → r ∈ s.given ∧ (s.held = none ∨ s.held = some r)

theorem Inv.init : Inv Sys.init where
  sound := {
    once := List.nodup_nil
    kept := fun _ given => by cases given
    held := fun _ held => by cases held }
  given := fun _ ended => by cases ended
  scan := fun _ call => by cases call

@[simp]
theorem ended_finish (s : Sys) (r : Request) (how : End) :
    (s.finish r how).ended = s.ended ++ [r] := by
  simp [Sys.finish, Sys.ended]

/-- The request held ends, and is held no longer. -/
theorem Inv.finish {s : Sys} {r : Request} (inv : Inv s) (held : s.held = some r) (how : End) :
    Inv { s.finish r how with held := none } := by
  obtain ⟨made, fresh⟩ := inv.sound.held r held
  obtain ⟨⟨once, kept, -⟩, given, scan⟩ := inv
  refine ⟨⟨?_, ?_, fun q none => by cases none⟩, ?_, ?_⟩
  · change (s.finish r how).ended.Nodup
    rw [ended_finish]
    exact once.append (List.nodup_singleton r) (by simpa using fresh)
  · intro q member open_
    change q ∉ (s.finish r how).ended at open_
    rw [ended_finish, List.mem_append, not_or] at open_
    obtain rfl : r = q := Option.some.inj (held.symm.trans (kept q member open_.1))
    exact absurd (List.mem_singleton_self r) open_.2
  · intro q member
    change q ∈ (s.finish r how).ended at member
    rw [ended_finish, List.mem_append, List.mem_singleton] at member
    rcases member with old | rfl
    · exact given q old
    · exact made
  · exact fun q call => ⟨(scan q call).1, .inl rfl⟩

theorem Inv.scanDone {s : Sys} (inv : Inv s) (aborted : Bool) : Inv (s.scanDone aborted) := by
  rw [Sys.scanDone]
  split
  · exact inv
  · rename_i r held
    exact inv.finish held _

/-- Ends and requests apart, only the call matters. -/
theorem Inv.with_call {s : Sys} (inv : Inv s) (call : Option Call) (hang cfm : Nat → Bool)
    (closed : List (Nat × Option Request)) (other : ∀ r, call ≠ some (.scan r)) :
    Inv { s with call, scanHang := hang, cancelScanCfm := cfm, closed } :=
  ⟨⟨inv.sound.once, inv.sound.kept, inv.sound.held⟩, inv.given, fun r same => absurd same (other r)⟩

theorem Inv.with_flags {s : Sys} (inv : Inv s) (hang cfm : Nat → Bool) :
    Inv { s with scanHang := hang, cancelScanCfm := cfm } :=
  ⟨⟨inv.sound.once, inv.sound.kept, inv.sound.held⟩, inv.given, inv.scan⟩

theorem Inv.closeEnd {s : Sys} (inv : Inv s) (vif : Nat) (err : Bool) :
    Inv (s.closeEnd vif err) := by
  rw [Sys.closeEnd]
  split_ifs
  · exact (inv.scanDone false).with_call none _ _ _ fun _ scan => by cases scan
  · exact inv.with_call none _ _ _ fun _ scan => by cases scan

/-- A new request, after the others have ended. -/
theorem Inv.cfg80211Scan {s : Sys} {r : Request} (inv : Inv s) (fresh : r ∉ s.given)
    (all : ∀ q ∈ s.given, q ∈ s.ended) (call : s.call = none) (gate : Gate) :
    Inv ({ s with given := s.given ++ [r] }.cfg80211Scan r gate) := by
  obtain ⟨⟨once, -, held⟩, given, -⟩ := inv
  have unended : r ∉ s.ended := fun ended => fresh (given r ended)
  have empty : s.held = none := by
    rcases some : s.held with _ | q
    · rfl
    · exact absurd (all q (held q some).1) (held q some).2
  -- the request is refused or told at once
  have ends : ∀ how, Inv ({ s with given := s.given ++ [r] }.finish r how) := by
    intro how
    refine ⟨⟨?_, ?_, ?_⟩, ?_, ?_⟩
    · rw [ended_finish]
      exact once.append (List.nodup_singleton r) (by simpa using unended)
    · intro q member open_
      rw [ended_finish, List.mem_append, not_or] at open_
      rcases List.mem_append.mp member with old | new
      · exact absurd (all q old) open_.1
      · exact absurd new open_.2
    · intro q some
      exact absurd (empty.symm.trans some) (by simp)
    · intro q member
      rw [ended_finish] at member
      exact List.mem_append.mpr ((List.mem_append.mp member).imp (given q) id)
    · intro q scan
      exact absurd (call.symm.trans scan) (by simp)
  -- the request is stored
  have stored : Inv { s with given := s.given ++ [r], held := some r, call := some (.scan r) } := by
    refine ⟨⟨once, ?_, ?_⟩, ?_, ?_⟩
    · intro q member open_
      rcases List.mem_append.mp member with old | new
      · exact absurd (all q old) open_
      · rw [List.mem_singleton.mp new]
    · rintro q ⟨⟩
      exact ⟨List.mem_append_right _ (List.mem_singleton_self r), unended⟩
    · exact fun q member => List.mem_append_left _ (given q member)
    · rintro q ⟨⟩
      exact ⟨List.mem_append_right _ (List.mem_singleton_self r), .inr rfl⟩
  rw [Sys.cfg80211Scan]
  split_ifs
  · exact ends _
  · exact ends _
  · exact ends _
  · split
    · exact ends _
    · exact ends _
    · exact stored

theorem Inv.step {s next : Sys} {e : Event} (inv : Inv s) (proper : Proper s e) (kept : Kept s e)
    (stepped : s.step e = .ok next) : Inv next := by
  cases e with
  | scan r gate =>
      rw [Sys.step] at stepped
      split at stepped
      · cases stepped
      · rename_i call
        cases stepped
        exact inv.cfg80211Scan proper.1 proper.2 call gate
  | sent ok =>
      rw [Sys.step] at stepped
      split at stepped
      · rename_i r call
        cases ok with
        | true =>
            cases stepped
            exact inv.with_call none _ _ _ fun _ scan => by cases scan
        | false =>
            cases stepped
            exact (inv.finish (kept r call) _).with_call none _ _ _ fun _ scan => by cases scan
      · cases stepped
  | startCfm =>
      cases stepped
      exact inv.scanDone false
  | cancelCfm vif =>
      have confirmed : Inv (match (s.scanDone true).call with
          | some (.cancel vif _) => { s.scanDone true with call := some (.cancel vif true) }
          | _ => s.scanDone true) := by
        split
        · exact (inv.scanDone true).with_call _ _ _ _ fun _ scan => by cases scan
        · exact inv.scanDone true
      cases vif with
      | none =>
          cases stepped
          exact confirmed
      | some vif =>
          cases stepped
          exact confirmed.with_flags _ _
  | recover =>
      cases stepped
      exact inv.scanDone true
  | abort vif =>
      rw [Sys.step] at stepped
      split at stepped
      · cases stepped
      · split at stepped
        · cases stepped
          exact inv
        · cases stepped
          exact (inv.scanDone true).with_call _ _ _ _ fun _ scan => by cases scan
  | abortSent =>
      rw [Sys.step] at stepped
      split at stepped
      · cases stepped
        exact inv.with_call none _ _ _ fun _ scan => by cases scan
      · cases stepped
  | close vif =>
      rw [Sys.step] at stepped
      split at stepped
      · cases stepped
      · split_ifs at stepped
        · cases stepped
          exact inv.with_call _ _ _ _ fun _ scan => by cases scan
        · cases stepped
          exact inv.closeEnd vif false
  | cancelSent ok =>
      rw [Sys.step] at stepped
      split at stepped
      · split_ifs at stepped
        · cases stepped
          exact inv.with_call _ _ _ _ fun _ scan => by cases scan
        · cases stepped
          exact inv.closeEnd _ true
      · cases stepped
  | poll =>
      rw [Sys.step] at stepped
      split at stepped
      · split_ifs at stepped
        · cases stepped
          exact (inv.with_flags _ _).closeEnd _ false
        · cases stepped
          exact inv.closeEnd _ true
        · cases stepped
          exact inv.with_call _ _ _ _ fun _ scan => by cases scan
      · cases stepped
  | setScanHang vif on =>
      cases stepped
      exact inv.with_flags _ _
  | cancelled vif =>
      cases stepped
      exact inv.with_flags _ _

/-- A scan that was told to be done and then fails to be asked for ends twice. -/
theorem Inv.twice {s : Sys} {e : Event} (inv : Inv s) (not : ¬Kept s e) :
    ∃ next, s.step e = .ok next ∧ ¬Sound next := by
  cases e with
  | sent ok =>
      cases ok with
      | true => exact absurd trivial not
      | false =>
          simp only [Kept, not_forall] at not
          obtain ⟨r, call, gone⟩ := not
          obtain ⟨made, held⟩ := inv.scan r call
          have ended : r ∈ s.ended := by
            by_contra open_
            exact gone (inv.sound.kept r made open_)
          refine ⟨{ s.finish r .refused with held := none, call := none },
            by simp [Sys.step, call], fun sound => ?_⟩
          have once := sound.once
          change (s.finish r .refused).ended.Nodup at once
          rw [ended_finish] at once
          exact List.disjoint_of_nodup_append once ended (List.mem_singleton_self r)
  | _ => exact absurd trivial not

/-! ## Closed interfaces -/

/-- A cancel that was confirmed leaves no request, and neither does a close. -/
structure Clear (s : Sys) : Prop where
  confirmed : ∀ vif, s.call = some (.cancel vif true) → s.held = none
  waiting : ∀ vif cnt, s.call = some (.wait vif cnt) → s.held = none
  closed : ∀ entry ∈ s.closed, ∀ r, entry.2 = some r → r.vif ≠ entry.1

theorem Clear.init : Clear Sys.init :=
  ⟨fun _ _ => rfl, fun _ _ _ => rfl, fun _ closed => (by cases closed)⟩

@[simp]
theorem held_scanDone (s : Sys) (aborted : Bool) : (s.scanDone aborted).held = none := by
  rw [Sys.scanDone]
  split
  · assumption
  · rfl

@[simp]
theorem closed_scanDone (s : Sys) (aborted : Bool) : (s.scanDone aborted).closed = s.closed := by
  rw [Sys.scanDone]
  split <;> rfl

theorem Clear.of_held {s : Sys} (clear : Clear s) {next : Sys} (held : next.held = none)
    (closed : next.closed = s.closed) : Clear next :=
  ⟨fun _ _ => held, fun _ _ _ => held, closed ▸ clear.closed⟩

theorem Clear.of_call {s : Sys} (clear : Clear s) {next : Sys} (closed : next.closed = s.closed)
    (cancel : ∀ vif, next.call ≠ some (.cancel vif true))
    (wait : ∀ vif cnt, next.call ≠ some (.wait vif cnt)) : Clear next :=
  ⟨fun vif call => absurd call (cancel vif), fun vif cnt call => absurd call (wait vif cnt),
    closed ▸ clear.closed⟩

theorem Clear.closeEnd {s : Sys} (clear : Clear s) {vif : Nat} {err : Bool}
    (left : err = false → ∀ r, s.held = some r → r.vif ≠ vif) : Clear (s.closeEnd vif err) := by
  have entry : (s.closeEnd vif err).closed =
      s.closed ++ [(vif, if err then none else s.held)] := by
    cases err <;> simp [Sys.closeEnd]
  refine ⟨fun _ call => (by cases call), fun _ _ call => (by cases call), ?_⟩
  rw [entry]
  intro entry member r some
  rcases List.mem_append.mp member with old | new
  · exact clear.closed entry old r some
  · obtain rfl := List.mem_singleton.mp new
    cases err with
    | true => cases some
    | false => exact left rfl r some

theorem closed_cfg80211Scan (s : Sys) (r : Request) (gate : Gate) :
    (s.cfg80211Scan r gate).closed = s.closed ∧
      ((s.cfg80211Scan r gate).call = s.call ∨
        (s.cfg80211Scan r gate).call = some (.scan r)) := by
  rw [Sys.cfg80211Scan]
  split_ifs
  · exact ⟨rfl, .inl rfl⟩
  · exact ⟨rfl, .inl rfl⟩
  · exact ⟨rfl, .inl rfl⟩
  · split
    · exact ⟨rfl, .inl rfl⟩
    · exact ⟨rfl, .inl rfl⟩
    · exact ⟨rfl, .inr rfl⟩

theorem Clear.step {s next : Sys} {e : Event} (clear : Clear s) (proper : Proper s e)
    (stepped : s.step e = .ok next) : Clear next := by
  cases e with
  | scan r gate =>
      rw [Sys.step] at stepped
      split at stepped
      · cases stepped
      · rename_i none
        cases stepped
        obtain ⟨closed, call⟩ :=
          closed_cfg80211Scan { s with given := s.given ++ [r] } r gate
        refine clear.of_call closed (fun vif cancel => ?_) (fun vif cnt wait => ?_)
        · rcases call with same | scan
          · exact absurd (none.symm.trans (same.symm.trans cancel)) (by simp)
          · exact absurd (scan.symm.trans cancel) (by simp)
        · rcases call with same | scan
          · exact absurd (none.symm.trans (same.symm.trans wait)) (by simp)
          · exact absurd (scan.symm.trans wait) (by simp)
  | sent ok =>
      rw [Sys.step] at stepped
      split at stepped
      · split_ifs at stepped
        · cases stepped
          exact clear.of_call rfl (fun _ call => by cases call) fun _ _ call => by cases call
        · cases stepped
          exact clear.of_held rfl rfl
      · cases stepped
  | startCfm =>
      cases stepped
      exact clear.of_held (held_scanDone s false) (closed_scanDone s false)
  | cancelCfm vif =>
      have held := held_scanDone s true
      have closed := closed_scanDone s true
      have confirmed : Clear (match (s.scanDone true).call with
          | some (.cancel vif _) => { s.scanDone true with call := some (.cancel vif true) }
          | _ => s.scanDone true) := by
        split
        · exact clear.of_held held closed
        · exact clear.of_held held closed
      cases vif with
      | none =>
          cases stepped
          exact confirmed
      | some vif =>
          cases stepped
          exact ⟨confirmed.confirmed, confirmed.waiting, confirmed.closed⟩
  | recover =>
      cases stepped
      exact clear.of_held (held_scanDone s true) (closed_scanDone s true)
  | abort vif =>
      rw [Sys.step] at stepped
      split at stepped
      · cases stepped
      · split at stepped
        · cases stepped
          exact clear
        · cases stepped
          exact clear.of_held (held_scanDone s true) (closed_scanDone s true)
  | abortSent =>
      rw [Sys.step] at stepped
      split at stepped
      · cases stepped
        exact clear.of_call rfl (fun _ call => by cases call) fun _ _ call => by cases call
      · cases stepped
  | close vif =>
      rw [Sys.step] at stepped
      split at stepped
      · cases stepped
      · split_ifs at stepped with own
        · cases stepped
          exact clear.of_call rfl (fun _ call => by cases call) fun _ _ call => by cases call
        · cases stepped
          refine clear.closeEnd fun _ r held same => own ?_
          rw [held, Option.any_some, same]
          exact decide_eq_true rfl
  | cancelSent ok =>
      rw [Sys.step] at stepped
      split at stepped
      · rename_i vif confirmed call
        cases ok with
        | true =>
            cases stepped
            have ready := proper rfl
            rw [call] at ready
            obtain rfl : confirmed = true := ready
            exact clear.of_held (clear.confirmed vif call) rfl
        | false =>
            cases stepped
            exact clear.closeEnd fun err => by cases err
      · cases stepped
  | poll =>
      rw [Sys.step] at stepped
      split at stepped
      · rename_i vif cnt call
        have none := clear.waiting vif cnt call
        split_ifs at stepped
        · cases stepped
          have kept : Clear { s with
              cancelScanCfm := Function.update s.cancelScanCfm vif false } :=
            ⟨clear.confirmed, clear.waiting, clear.closed⟩
          exact kept.closeEnd fun _ r held => absurd (none.symm.trans held) (by simp)
        · cases stepped
          exact clear.closeEnd fun err => by cases err
        · cases stepped
          exact clear.of_held none rfl
      · cases stepped
  | setScanHang vif on =>
      cases stepped
      exact ⟨clear.confirmed, clear.waiting, clear.closed⟩
  | cancelled vif =>
      cases stepped
      exact ⟨clear.confirmed, clear.waiting, clear.closed⟩

/-- In every run, every request ends once, and until then it is the one the driver holds, if and
only if the firmware is asked for no scan in vain that was told to be done meanwhile; and an
interface is closed only when no request of its own is held. -/
theorem requests_end_once (events : List Event)
    (proper : Run.Guarded Sys.step Proper events .init) :
    (Run.Throughout Sys.step Sound events .init ↔ Run.Guarded Sys.step Kept events .init) ∧
      ∀ s, Sys.run events .init = .ok s →
        ∀ entry ∈ s.closed, ∀ r, entry.2 = some r → r.vif ≠ entry.1 := by
  constructor
  · exact Run.throughout_iff_guarded_within
      (fun _ _ _ inv proper kept stepped => inv.step proper kept stepped)
      (fun _ inv => inv.sound) (fun _ _ inv _ not => inv.twice not) proper Inv.init
  · intro s ran
    have clear : Clear s := proper.invariant_of_run
      (fun _ _ _ clear proper stepped => clear.step proper stepped) ran Clear.init
    exact clear.closed

instance (s : Sys) : DecidablePred (Proper s) := fun e =>
  match e with
  | .scan r _ => inferInstanceAs (Decidable (r ∉ s.given ∧ ∀ q ∈ s.given, q ∈ s.ended))
  | .cancelSent ok => inferInstanceAs (Decidable (ok = true → s.call.all Call.confirmed = true))
  | .sent _ | .startCfm | .cancelCfm _ | .recover | .abort _ | .abortSent | .close _ | .poll
  | .setScanHang _ _ | .cancelled _ => .isTrue trivial

/-- A scan is aborted, and what the firmware confirms of it reaches the next one, which is not
under way yet; a third one is held when the interface is closed. -/
def lateCfm : List Event :=
  [.scan ⟨0, 1⟩ ⟨false, false, .free⟩, .sent true, .abort 1, .abortSent,
   .scan ⟨1, 1⟩ ⟨false, false, .sta false⟩, .startCfm, .sent true,
   .scan ⟨2, 1⟩ ⟨false, false, .free⟩, .sent true, .close 1, .cancelCfm (some 1),
   .cancelSent true, .poll]

theorem requests_end_once_late :
    Run.Throughout Sys.step Sound lateCfm .init ∧
      ∃ s, Sys.run lateCfm .init = .ok s ∧
        s.ends = [(⟨0, 1⟩, .done true), (⟨1, 1⟩, .done false), (⟨2, 1⟩, .done true)] ∧
        ∀ entry ∈ s.closed, ∀ r, entry.2 = some r → r.vif ≠ entry.1 := by
  have proper : Run.Guarded Sys.step Proper lateCfm .init :=
    Run.guarded_of_check (fun s e passed => of_decide_eq_true (p := Proper s e) passed)
      (by decide +kernel)
  have kept : Run.Guarded Sys.step Kept lateCfm .init := by
    refine Run.guarded_of_forall_split fun front e back s split _ => ?_
    have member : e ∈ lateCfm := split ▸ List.mem_append_right front List.mem_cons_self
    have asked : e ≠ .sent false := fun same => absurd (same ▸ member) (by decide)
    cases e with
    | sent ok =>
        cases ok with
        | true => trivial
        | false => exact absurd rfl asked
    | _ => trivial
  obtain ⟨sound, closed⟩ := requests_end_once lateCfm proper
  obtain ⟨s, ran, ends⟩ := Run.ends_of_toOption (f := fun s : Sys => s.ends)
    (show ((Sys.run lateCfm .init).toOption.map fun s => s.ends) =
      some [(⟨0, 1⟩, .done true), (⟨1, 1⟩, .done false), (⟨2, 1⟩, .done true)] by decide +kernel)
  exact ⟨sound.mpr kept, s, ran, ends, closed s ran⟩

end AmlW2.Scan.Requests
