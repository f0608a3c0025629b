import AmlW2.Lib.Run
import Mathlib.Data.List.Perm.Subperm

/-!
# Frames sent in a remain-on-channel period

A frame to another channel is sent in a remain-on-channel period that `aml_cfg80211_mgmt_tx` starts
for it or finds.  The period counts the frames whose answers are awaited, but has places for the
cookies of `NX_ROC_TX` of them only, and a new cookie takes the place at the count, whatever is
there.  `aml_cfg80211_mgmt_tx_cancel_wait` makes up for the cookies it does not find by the number
of those it sees.  The operations that the driver registers leave it out; this file says what it
would do.
-/

namespace AmlW2.P2p.RocTx

/-- `NX_ROC_TX`. -/
def nxRocTx : Nat := 5

/-- What of `struct aml_roc` counts the frames. -/
structure Roc where
  /-- The period was started for a frame. -/
  internal : Bool
  /-- An `int` that is never decremented at zero. -/
  txCnt : Nat
  txCookie : List Nat
  txCookie_length : txCookie.length = nxRocTx

/-- As `aml_cfg80211_remain_on_channel` fills it in. -/
def Roc.start (internal : Bool) : Roc := ⟨internal, 0, List.replicate nxRocTx 0, rfl⟩

/-- The end of `aml_cfg80211_mgmt_tx` for a frame sent off the channel. -/
def Roc.mgmtTx (roc : Roc) (cookie : Nat) (probeResp : Bool) : Roc where
  internal := roc.internal
  txCookie := if roc.txCnt < nxRocTx then roc.txCookie.set roc.txCnt cookie else roc.txCookie
  txCnt := if probeResp then roc.txCnt else roc.txCnt + 1
  txCookie_length := by
    split
    · rw [List.length_set, roc.txCookie_length]
    · exact roc.txCookie_length

/-- The loop of `aml_cfg80211_mgmt_tx_cancel_wait`: the places with the cookie cleared, if it is
found, and the cookies seen. -/
def cancelLoop (cookie : Nat) : List Nat → Nat → Option (List Nat) × Nat
  | [], nbTxCookie => (none, nbTxCookie)
  | place :: places, nbTxCookie =>
      if place = 0 then
        let rest := cancelLoop cookie places nbTxCookie
        (rest.1.map (place :: ·), rest.2)
      else if place = cookie then (some (0 :: places), nbTxCookie + 1)
      else
        let rest := cancelLoop cookie places (nbTxCookie + 1)
        (rest.1.map (place :: ·), rest.2)

theorem cancelLoop_length {cookie : Nat} {places found : List Nat} {nbTxCookie : Nat}
    (cleared : (cancelLoop cookie places nbTxCookie).1 = some found) :
    found.length = places.length := by
  induction places generalizing nbTxCookie found with
  | nil => cases cleared
  | cons place places induction =>
      rw [cancelLoop] at cleared
      split at cleared
      · obtain ⟨rest, ran, rfl⟩ := Option.map_eq_some_iff.mp cleared
        rw [List.length_cons, List.length_cons, induction ran]
      · split at cleared
        · cases cleared
          rfl
        · obtain ⟨rest, ran, rfl⟩ := Option.map_eq_some_iff.mp cleared
          rw [List.length_cons, List.length_cons, induction ran]

/-- What becomes of a period in a call. -/
inductive Ending
  /-- Nothing; the call returns 0. -/
  | left
  /-- Nothing; the call returns `-EINVAL`. -/
  | refused
  /-- `aml_send_cancel_roc` is called for it. -/
  | cancelled
  deriving DecidableEq, Repr

/-- `aml_cfg80211_cancel_remain_on_channel` while there is a period and with its cookie, on an
interface that is `wlan0` or not. -/
def cancelRemainOnChannel (isStaMode : Bool) : Ending :=
  if isStaMode then .refused else .cancelled

/-- The end of `aml_cfg80211_mgmt_tx_cancel_wait`. -/
def Roc.stop (roc : Roc) (isStaMode : Bool) : Ending :=
  if !roc.internal || roc.txCnt > 0 then .left else cancelRemainOnChannel isStaMode

/-- `aml_cfg80211_mgmt_tx_cancel_wait` while there is a period. -/
def Roc.mgmtTxCancelWait (roc : Roc) (isStaMode : Bool) (cookie : Nat) : Roc × Ending :=
  if roc.txCnt = 0 then (roc, .left)
  else
    match found : cancelLoop cookie roc.txCookie 0 with
    | (some txCookie, _) =>
        let roc : Roc :=
          { roc with
            txCnt := roc.txCnt - 1
            txCookie
            txCookie_length := by
              rw [cancelLoop_length (congrArg Prod.fst found), roc.txCookie_length] }
        (roc, roc.stop isStaMode)
    | (none, nbTxCookie) =>
        -- the frame may still have been sent in this period if its cookie had no place
        if nbTxCookie ≠ roc.txCnt then
          let roc := { roc with txCnt := roc.txCnt - 1 }
          (roc, roc.stop isStaMode)
        else (roc, .left)

/-! ## Runs -/

/-- What is done with a period. -/
inductive Op
  | tx (cookie : Nat) (probeResp : Bool)
  | cancelWait (isStaMode : Bool) (cookie : Nat)
  deriving DecidableEq, Repr

/-- A period, the frames whose answers are awaited, and of the last operation the interface, if it
was a call of `aml_cfg80211_mgmt_tx_cancel_wait`, and what became of the period in it. -/
structure Period where
  roc : Roc
  awaited : List Nat
  waited : Option Bool
  ending : Ending

def Period.start (internal : Bool) : Period := ⟨Roc.start internal, [], none, .left⟩

/-- One operation. -/
def Period.apply (p : Period) : Op → Period
  | .tx cookie probeResp =>
      { roc := p.roc.mgmtTx cookie probeResp
        awaited := if probeResp then p.awaited else cookie :: p.awaited
        waited := none
        ending := .left }
  | .cancelWait isStaMode cookie =>
      let result := p.roc.mgmtTxCancelWait isStaMode cookie
      { roc := result.1
        awaited := p.awaited.erase cookie
        waited := some isStaMode
        ending := result.2 }

/-- One operation of a run, none of which fails. -/
def Period.step (p : Period) (op : Op) : Except Empty Period := .ok (p.apply op)

/-- The cookies that have a place. -/
def Roc.placed (roc : Roc) : List Nat := roc.txCookie.filter (· ≠ 0)

/-- A cookie is the address of a frame, and only a frame that is awaited is cancelled. -/
def Period.Asked (p : Period) : Op → Prop
  | .tx cookie _ => cookie ≠ 0
  | .cancelWait _ cookie => cookie ∈ p.awaited

instance (p : Period) (op : Op) : Decidable (p.Asked op) :=
  match op with
  | .tx cookie _ => inferInstanceAs (Decidable (cookie ≠ 0))
  | .cancelWait _ cookie => inferInstanceAs (Decidable (cookie ∈ p.awaited))

/-- The cookie has a place, or the number of those that do tells that one has none. -/
def Period.Told (p : Period) : Op → Prop
  | .tx _ _ => True
  | .cancelWait _ cookie => cookie ∈ p.roc.placed ∨ p.roc.placed.length ≠ p.roc.txCnt

/-- The last frame awaited has just been cancelled, in a period started for a frame. -/
def Period.Over (p : Period) : Prop := p.roc.internal = true ∧ p.awaited = []

/-- The frames awaited are counted, and a period started for a frame is cancelled with the last of
them, not before; on `wlan0` the call that would cancel it is refused. -/
structure Period.Counted (p : Period) : Prop where
  count : p.roc.txCnt = p.awaited.length
  cancelled : p.ending = .cancelled ↔ p.waited = some false ∧ p.Over
  refused : p.ending = .refused ↔ p.waited = some true ∧ p.Over

/-! ## The search for a cookie -/

/-- The loop finds the cookies that have a place, and sees all of them when it finds none. -/
theorem cancelLoop_cases (cookie : Nat) (places : List Nat) (nbTxCookie : Nat) :
    (cookie ∈ places.filter (· ≠ 0) ∧ ∃ found seen,
      cancelLoop cookie places nbTxCookie = (some found, seen) ∧
        found.filter (· ≠ 0) = (places.filter (· ≠ 0)).erase cookie) ∨
    (cookie ∉ places.filter (· ≠ 0) ∧
      cancelLoop cookie places nbTxCookie =
        (none, nbTxCookie + (places.filter (· ≠ 0)).length)) := by
  induction places generalizing nbTxCookie with
  | nil => exact Or.inr ⟨List.not_mem_nil, rfl⟩
  | cons place places induction =>
      by_cases free : place = 0
      · have skipped : (place :: places).filter (· ≠ 0) = places.filter (· ≠ 0) := by
          rw [List.filter_cons_of_neg]
          simpa using free
        rw [cancelLoop, if_pos free, skipped]
        rcases induction nbTxCookie with ⟨placed, found, seen, ran, rest⟩ | ⟨missing, ran⟩
        · refine Or.inl ⟨placed, place :: found, seen, by rw [ran]; rfl, ?_⟩
          rw [← rest, List.filter_cons_of_neg]
          simpa using free
        · exact Or.inr ⟨missing, by rw [ran]; rfl⟩
      · have kept : (place :: places).filter (· ≠ 0) = place :: places.filter (· ≠ 0) := by
          rw [List.filter_cons_of_pos]
          simpa using free
        rw [cancelLoop, if_neg free, kept]
        by_cases here : place = cookie
        · left
          refine ⟨here ▸ List.mem_cons_self, 0 :: places, nbTxCookie + 1, by rw [if_pos here], ?_⟩
          rw [here, List.erase_cons_head, List.filter_cons_of_neg]
          simp
        · rw [if_neg here]
          rcases induction (nbTxCookie + 1) with ⟨placed, found, seen, ran, rest⟩ | ⟨missing, ran⟩
          · left
            refine ⟨List.mem_cons_of_mem _ placed, place :: found, seen, by rw [ran]; rfl, ?_⟩
            rw [List.erase_cons_tail (by simpa using here), ← rest, List.filter_cons_of_pos]
            simpa using free
          · right
            refine ⟨fun member => ?_, ?_⟩
            · rcases List.mem_cons.mp member with same | member
              · exact here same.symm
              · exact missing member
            · rw [ran, List.length_cons, Nat.add_right_comm, Nat.add_assoc]
              rfl

theorem Roc.stop_eq (roc : Roc) (isStaMode : Bool) :
    roc.stop isStaMode =
      if roc.internal = true ∧ roc.txCnt = 0 then cancelRemainOnChannel isStaMode else .left := by
  rw [Roc.stop]
  cases roc.internal <;> by_cases none_left : roc.txCnt = 0 <;>
    simp [none_left, Nat.pos_iff_ne_zero]

theorem Roc.stop_cancelled {roc : Roc} {isStaMode : Bool} :
    roc.stop isStaMode = .cancelled ↔
      isStaMode = false ∧ roc.internal = true ∧ roc.txCnt = 0 := by
  rw [roc.stop_eq]
  split
  · rename_i ended
    cases isStaMode <;> simp [cancelRemainOnChannel, ended]
  · rename_i goes_on
    exact ⟨nofun, fun stopped => absurd stopped.2 goes_on⟩

theorem Roc.stop_refused {roc : Roc} {isStaMode : Bool} :
    roc.stop isStaMode = .refused ↔ isStaMode = true ∧ roc.internal = true ∧ roc.txCnt = 0 := by
  rw [roc.stop_eq]
  split
  · rename_i ended
    cases isStaMode <;> simp [cancelRemainOnChannel, ended]
  · rename_i goes_on
    exact ⟨nofun, fun stopped => absurd stopped.2 goes_on⟩

/-- What `aml_cfg80211_mgmt_tx_cancel_wait` does with frames awaited: it counts one down if it is
told, and does nothing otherwise. -/
theorem Roc.mgmtTxCancelWait_cases (roc : Roc) (isStaMode : Bool) (cookie : Nat)
    (some_counted : roc.txCnt ≠ 0) :
    (∃ after, roc.mgmtTxCancelWait isStaMode cookie = (after, after.stop isStaMode) ∧
      after.internal = roc.internal ∧ after.txCnt = roc.txCnt - 1 ∧
      (cookie ∈ roc.placed ∨ roc.placed.length ≠ roc.txCnt) ∧
      after.placed = roc.placed.erase cookie) ∨
    (cookie ∉ roc.placed ∧ roc.placed.length = roc.txCnt ∧
      roc.mgmtTxCancelWait isStaMode cookie = (roc, .left)) := by
  rw [Roc.mgmtTxCancelWait, if_neg some_counted]
  split
  · rename_i txCookie seen ran
    rcases cancelLoop_cases cookie roc.txCookie 0 with ⟨placed, found, seen', ran', rest⟩ |
      ⟨missing, ran'⟩
    · rw [ran] at ran'
      cases ran'
      exact Or.inl ⟨_, rfl, rfl, rfl, Or.inl placed, rest⟩
    · rw [ran] at ran'
      cases ran'
  · rename_i seen ran
    rcases cancelLoop_cases cookie roc.txCookie 0 with ⟨placed, found, seen', ran', rest⟩ |
      ⟨missing, ran'⟩
    · rw [ran] at ran'
      cases ran'
    · rw [ran, Nat.zero_add] at ran'
      cases ran'
      by_cases more : roc.placed.length ≠ roc.txCnt
      · left
        rw [if_pos (show (roc.txCookie.filter (· ≠ 0)).length ≠ roc.txCnt from more)]
        exact ⟨_, rfl, rfl, rfl, Or.inr more, (List.erase_of_not_mem missing).symm⟩
      · right
        rw [if_neg (show ¬(roc.txCookie.filter (· ≠ 0)).length ≠ roc.txCnt from more)]
        exact ⟨missing, not_not.mp more, rfl⟩

/-! ## Counting -/

theorem Period.Counted.tx {p : Period} (counted : p.Counted) (cookie : Nat) (probeResp : Bool) :
    (p.apply (.tx cookie probeResp)).Counted := by
  refine ⟨?_, ?_, ?_⟩
  · cases probeResp
    · exact congrArg Nat.succ counted.count
    · exact counted.count
  · simp [Period.apply]
  · simp [Period.apply]

/-- A frame awaited is counted down if the call is told, and only then. -/
theorem Period.Counted.cancelWait {p : Period} (counted : p.Counted) (isStaMode : Bool)
    {cookie : Nat} (awaited : cookie ∈ p.awaited) :
    (p.apply (.cancelWait isStaMode cookie)).Counted ↔
      p.Told (.cancelWait isStaMode cookie) := by
  have positive := List.length_pos_of_mem awaited
  have fewer := List.length_erase_of_mem awaited
  rcases p.roc.mgmtTxCancelWait_cases isStaMode cookie (by rw [counted.count]; omega) with
    ⟨after, ran, internal, count, told, -⟩ | ⟨missing, full, ran⟩
  · have last : after.txCnt = 0 ↔ p.awaited.erase cookie = [] := by
      rw [count, counted.count, ← fewer, List.length_eq_zero_iff]
    refine ⟨fun _ => told, fun _ => ⟨?_, ?_, ?_⟩⟩
    · simp only [Period.apply, ran]
      rw [count, counted.count, fewer]
    · simp only [Period.apply, Period.Over, ran, Option.some.injEq]
      rw [Roc.stop_cancelled, last]
    · simp only [Period.apply, Period.Over, ran, Option.some.injEq]
      rw [Roc.stop_refused, last]
  · constructor
    · intro after
      have count := after.count
      simp only [Period.apply, ran] at count
      rw [counted.count, fewer] at count
      omega
    · rintro (placed | more)
      · exact absurd placed missing
      · exact absurd full more

theorem Period.Counted.step {p : Period} (counted : p.Counted) {op : Op} (asked : p.Asked op) :
    (p.apply op).Counted ↔ p.Told op := by
  cases op with
  | tx cookie probeResp => exact ⟨fun _ => trivial, fun _ => counted.tx cookie probeResp⟩
  | cancelWait isStaMode cookie => exact counted.cancelWait isStaMode asked

/-! ## Without probe responses -/

/-- A place taken over adds its new cookie at most. -/
theorem filter_set_subperm (places : List Nat) (i cookie : Nat) :
    ((places.set i cookie).filter (· ≠ 0)).Subperm (cookie :: places.filter (· ≠ 0)) := by
  induction places generalizing i with
  | nil => exact List.nil_subperm
  | cons place places induction =>
      cases i with
      | zero =>
          rw [List.set_cons_zero, List.filter_cons, List.filter_cons]
          split
          · apply (List.subperm_cons cookie).mpr
            split
            · exact (List.sublist_cons_self _ _).subperm
            · exact List.Subperm.refl _
          · split
            · exact ((List.sublist_cons_self _ _).trans (List.sublist_cons_self _ _)).subperm
            · exact (List.sublist_cons_self _ _).subperm
      | succ i =>
          rw [List.set_cons_succ, List.filter_cons, List.filter_cons]
          split
          · exact ((List.subperm_cons place).mpr (induction i)).trans
              (List.Perm.swap cookie place _).subperm
          · exact induction i

/-- The cookies that have a place are of frames awaited. -/
def Period.Fresh (p : Period) : Prop := p.roc.placed.Subperm p.awaited

theorem Period.Fresh.told {p : Period} (fresh : p.Fresh) (counted : p.Counted) {op : Op}
    (asked : p.Asked op) : p.Told op := by
  cases op with
  | tx cookie probeResp => trivial
  | cancelWait isStaMode cookie =>
      by_cases placed : cookie ∈ p.roc.placed
      · exact Or.inl placed
      · -- one frame awaited has no place
        right
        have rest : p.roc.placed.Subperm (p.awaited.erase cookie) := by
          rw [← List.erase_of_not_mem placed]
          exact fresh.erase cookie
        have short := rest.length_le
        have positive := List.length_pos_of_mem asked
        rw [List.length_erase_of_mem asked] at short
        rw [counted.count]
        omega

theorem Period.Fresh.step {p : Period} (fresh : p.Fresh) (counted : p.Counted) {op : Op}
    (asked : p.Asked op) (answer : ∀ cookie, op ≠ .tx cookie true) : (p.apply op).Fresh := by
  cases op with
  | tx cookie probeResp =>
      cases probeResp with
      | true => exact absurd rfl (answer cookie)
      | false =>
          have grown : (cookie :: p.roc.placed).Subperm (cookie :: p.awaited) :=
            (List.subperm_cons cookie).mpr fresh
          simp only [Period.Fresh, Period.apply, Roc.placed, Roc.mgmtTx]
          split
          · exact (filter_set_subperm _ _ _).trans grown
          · exact (List.sublist_cons_self _ _).subperm.trans grown
  | cancelWait isStaMode cookie =>
      have positive := List.length_pos_of_mem asked
      rcases p.roc.mgmtTxCancelWait_cases isStaMode cookie (by rw [counted.count]; omega) with
        ⟨after, ran, -, -, -, placed⟩ | ⟨missing, full, -⟩
      · simp only [Period.Fresh, Period.apply, ran, placed]
        exact fresh.erase cookie
      · rcases fresh.told counted asked with placed | more
        · exact absurd placed missing
        · exact absurd full more

end AmlW2.P2p.RocTx
