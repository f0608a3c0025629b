import AmlW2.Lib.Greedy
import AmlW2.Tx.PsService

/-!
# The shares of a service period

On a traffic request the txqs of a station get shares of the service period, by priority.  This file
gives the requests that are shared out greedily.  A txq with frames and credits below zero is given
a share below zero, which adds to what the txqs after it may push, and a group is given its request
whatever frames it has.
-/

namespace AmlW2.Tx

namespace PowerSave

variable {n : Nat}

/-! ## What a request shares out -/

/-- What a txq has to push: its frames, as far as its credits go. -/
def avail (s : PowerSave n) (t : Fin n) : Int :=
  min ((s.hw.txqs t).queue.skList.length : Int) (s.hw.txqs t).credits

/-- A txq as the request comes to it. -/
structure Share (n : Nat) where
  txq : Fin n
  avail : Int
  /-- Its limit when the request comes to it. -/
  old : Int
  /-- Its limit when the request is done with it. -/
  limit : Int
  /-- The limit is a share of this request, and the txq is started. -/
  granted : Bool

/-- A txq gets a share. -/
def gets (s : PowerSave n) (t : Fin n) (count : Int) : Share n :=
  ⟨t, s.avail t, (s.hw.txqs t).pushLimit, count, true⟩

/-- A txq gets nothing, and keeps the limit it has. -/
def keeps (s : PowerSave n) (t : Fin n) : Share n :=
  ⟨t, s.avail t, (s.hw.txqs t).pushLimit, (s.hw.txqs t).pushLimit, false⟩

/-- The limit of a txq is cleared. -/
def loses (s : PowerSave n) (t : Fin n) : Share n :=
  ⟨t, s.avail t, (s.hw.txqs t).pushLimit, 0, false⟩

/-- The shares that the loop of `aml_ps_bh_traffic_req` sets, over the txqs of the `ps_id`. -/
def deal (id : PsId) : List (Fin n) → BitVec 16 → PowerSave n → List (Share n)
  | [], _, _ => []
  | t :: rest, pktReq, s =>
      if s.avail t = 0 then s.keeps t :: deal id rest pktReq s
      else if s.avail t < pktReq.toNat then
        s.gets t (s.avail t) ::
          deal id rest (pktReq - .ofInt 16 (s.avail t)) (s.grant id t (s.avail t))
      else s.gets t pktReq.toNat :: rest.map (s.grant id t pktReq.toNat).keeps

/-- The request interrupts a service period. -/
def Interrupts (pktReq : BitVec 16) (id : PsId) : Prop := pktReq = psSpInterrupted ∧ id = .uapsd

instance (pktReq : BitVec 16) (id : PsId) : Decidable (Interrupts pktReq id) :=
  inferInstanceAs (Decidable (_ ∧ _))

/-- The packets that are shared out: those asked for, as far as packets are counted ready. -/
def requested (s : PowerSave n) (pktReq : BitVec 16) (id : PsId) : BitVec 16 :=
  if pktReq = 0 ∨ (s.pktReady id).toNat < pktReq.toNat then s.pktReady id else pktReq

/-- The txqs of a group, or those of a station for the `ps_id`, by priority. -/
def ordered (s : PowerSave n) (id : PsId) : List (Fin n) :=
  if s.multicast then s.tids.take 1 else s.prio.filter fun t => s.psId t = id

/-- The share of a group. -/
def groupShare (s : PowerSave n) (request : Nat) (t : Fin n) : Share n :=
  if (s.hw.txqs t).credits ≤ 0 then s.keeps t else s.gets t (min request (s.hw.txqs t).credits)

/-- The shares of a request. -/
def shares (s : PowerSave n) (pktReq : BitVec 16) (id : PsId) : List (Share n) :=
  if Interrupts pktReq id then (s.ordered id).map s.loses
  else if s.requested pktReq id = 0 then (s.ordered id).map s.keeps
  else if s.multicast then (s.ordered id).map (s.groupShare (s.requested pktReq id).toNat)
  else deal id (s.ordered id) (s.requested pktReq id) s

/-- The limits of shares. -/
def limits (list : List (Share n)) : List Int := list.map (·.limit)

/-- What the txqs of shares have to push. -/
def avails (list : List (Share n)) : List Int := list.map (·.avail)

/-- What shares add to the counter of the service period. -/
def counts (list : List (Share n)) : List Int :=
  list.map fun e => if e.granted then e.limit else 0

/-- All that the txqs have to push. -/
def totalAvail (list : List (Share n)) : Int := Greedy.total ((avails list).map Greedy.worth)

/-- The packets asked for: all that the txqs have for 0. -/
def wanted (s : PowerSave n) (pktReq : BitVec 16) (id : PsId) : Int :=
  if Interrupts pktReq id then 0
  else if pktReq = 0 then totalAvail (s.shares pktReq id)
  else pktReq.toNat

/-- A share is set and its txq started. -/
def grantShare (id : PsId) (s : PowerSave n) (e : Share n) : PowerSave n :=
  if e.granted then s.grant id e.txq e.limit else s

/-- What a request leaves behind.  On PCIe, starting a txq pushes at once. -/
structure Served (s : PowerSave n) (pktReq : BitVec 16) (id : PsId) : Prop where
  txqs : (s.shares pktReq id).map (·.txq) = s.ordered id
  bounds : ∀ e ∈ s.shares pktReq id, 0 ≤ e.limit ∧ e.limit ≤ Greedy.worth e.avail
  greedy : limits (s.shares pktReq id) =
    Greedy.shares (s.wanted pktReq id) (avails (s.shares pktReq id))
  counts : Greedy.total (counts (s.shares pktReq id)) = Greedy.total (limits (s.shares pktReq id))
  total : Greedy.total (limits (s.shares pktReq id)) =
    min (s.wanted pktReq id) (totalAvail (s.shares pktReq id))
  grants : ¬Interrupts pktReq id →
    s.trafficReq pktReq id = (s.shares pktReq id).foldl (grantShare id) s
  found : s.hw.bus ≠ .pcie → ∀ e ∈ s.shares pktReq id, e.avail = s.avail e.txq
  leaves : s.hw.bus ≠ .pcie → ∀ e ∈ s.shares pktReq id,
    ((s.trafficReq pktReq id).hw.txqs e.txq).pushLimit = e.limit
  spCnt : s.hw.bus ≠ .pcie →
    (((s.trafficReq pktReq id).spCnt id).toNat : Int) = Greedy.total (limits (s.shares pktReq id))

/-- Until the request is met, no txq has less than nothing to push, and the others have no limit
from before. -/
def Fits (request : Int) : List (Share n) → Prop
  | [] => True
  | e :: rest =>
      if request = 0 ∨ e.avail = 0 then e.old = 0 ∧ Fits request rest
      else 0 < e.avail ∧ Fits (request - min request e.avail) rest

/-- `Fits` can be decided. -/
def decidableFits : (request : Int) → (list : List (Share n)) → Decidable (Fits request list)
  | _, [] => inferInstanceAs (Decidable True)
  | request, e :: rest =>
      have := decidableFits request rest
      have := decidableFits (request - min request e.avail) rest
      inferInstanceAs (Decidable (if request = 0 ∨ e.avail = 0 then e.old = 0 ∧ Fits request rest
        else 0 < e.avail ∧ Fits (request - min request e.avail) rest))

instance (request : Int) (list : List (Share n)) : Decidable (Fits request list) :=
  decidableFits request list

/-- A group has the frames that its credits let it ask for, or neither credits nor a limit. -/
def GroupFits (s : PowerSave n) (request : Nat) (t : Fin n) : Prop :=
  if (s.hw.txqs t).credits ≤ 0 then (s.hw.txqs t).pushLimit = 0
  else min (request : Int) (s.hw.txqs t).credits ≤ (s.hw.txqs t).queue.skList.length

instance (s : PowerSave n) (request : Nat) (t : Fin n) : Decidable (s.GroupFits request t) :=
  inferInstanceAs (Decidable (if (s.hw.txqs t).credits ≤ 0 then (s.hw.txqs t).pushLimit = 0
    else min (request : Int) (s.hw.txqs t).credits ≤ (s.hw.txqs t).queue.skList.length))

/-- The txqs of a request fit. -/
def TxqsFit (s : PowerSave n) (pktReq : BitVec 16) (id : PsId) : Prop :=
  if s.multicast = true ∧ s.requested pktReq id ≠ 0 then
    ∀ t ∈ s.ordered id, s.GroupFits (s.requested pktReq id).toNat t
  else Fits (s.requested pktReq id).toNat (s.shares pktReq id)

instance (s : PowerSave n) (pktReq : BitVec 16) (id : PsId) : Decidable (s.TxqsFit pktReq id) :=
  inferInstanceAs (Decidable (if s.multicast = true ∧ s.requested pktReq id ≠ 0 then
    ∀ t ∈ s.ordered id, s.GroupFits (s.requested pktReq id).toNat t
  else Fits (s.requested pktReq id).toNat (s.shares pktReq id)))

/-- The request interrupts, or its packets are counted ready and its txqs fit. -/
def Covered (s : PowerSave n) (pktReq : BitVec 16) (id : PsId) : Prop :=
  ¬Interrupts pktReq id →
    min (s.wanted pktReq id) (totalAvail (s.shares pktReq id)) ≤ (s.requested pktReq id).toNat ∧
      s.TxqsFit pktReq id

instance (s : PowerSave n) (pktReq : BitVec 16) (id : PsId) : Decidable (s.Covered pktReq id) :=
  inferInstanceAs (Decidable (_ → _ ∧ _))

/-! ## The txqs keep their `ps_id` -/

/-- Putting a txq on its list changes nothing but its flag. -/
theorem enlist_txqs (s : Hw n) (t u : Fin n) :
    ∃ flag, (s.enlist t).txqs u = { s.txqs u with inHwqList := flag } := by
  rw [Hw.enlist]
  split_ifs
  · by_cases same : u = t
    · subst same
      exact ⟨true, Hw.setTxq_self s u _⟩
    · exact ⟨(s.txqs u).inHwqList, Hw.setTxq_of_ne s _ same⟩
  · exact ⟨(s.txqs u).inHwqList, rfl⟩

/-- All txqs keep their `ps_id`. -/
def SamePsId (s s' : PowerSave n) : Prop := ∀ t, s'.psId t = s.psId t

namespace SamePsId

variable {s s' s'' : PowerSave n} {t : Fin n}

theorem refl (s : PowerSave n) : SamePsId s s := fun _ => rfl

theorem trans (first : SamePsId s s') (second : SamePsId s' s'') : SamePsId s s'' :=
  fun t => (second t).trans (first t)

theorem of_stays (stays : Hw.Stays s.hw s'.hw) : SamePsId s s' := by
  intro t
  rw [psId, psId, Txq.psId, Txq.psId, (stays t).legacyPs]

theorem pushSkbs (count : Nat) : SamePsId s (s.pushSkbs t count) := by
  have pushed : ∀ (frames : List Frame) (s : PowerSave n),
      SamePsId s (frames.foldl (fun s f => s.txPush t f) s) := by
    intro frames
    induction frames with
    | nil => exact refl
    | cons f frames induction =>
        intro s
        exact trans (of_stays (Hw.Stays.txPush f)) (induction (s.txPush t f))
  exact trans (of_stays (Hw.Stays.setQueue _)) (pushed _ _)

theorem endService : SamePsId s (s.endService t) := of_stays (by
  rw [PowerSave.endService]
  exact Hw.Stays.endService)

theorem endTurn (h : Fin nxTxqCnt) (done : Bool) : SamePsId s (s.endTurn h t done) :=
  of_stays (Hw.Stays.endTurn h done)

theorem turn (h : Fin nxTxqCnt) : SamePsId s (s.turn h t) := by
  have marked : SamePsId s { s with
      hw.broken := s.hw.broken ||
        decide (((s.hw.txqs t).skbToPush (s.hw.hwqs h).credits).1 ≤ 0) } := refl s
  exact ((marked.trans (pushSkbs _)).trans (endTurn h _)).trans endService

theorem hwqProcessFrom (h : Fin nxTxqCnt) (list : List (Fin n)) :
    SamePsId s (PowerSave.hwqProcessFrom h list s) := by
  induction list generalizing s with
  | nil => exact refl s
  | cons t rest induction =>
      rw [PowerSave.hwqProcessFrom]
      split_ifs
      · exact refl s
      · exact trans (turn h) induction
      · have marked : SamePsId s { s with hw := { s.hw with sanityError := true } } := refl s
        exact marked.trans induction

theorem start (reason : Finset Stop) : SamePsId s (s.start t reason) := by
  have unstopped : SamePsId s (s.unstop t reason) :=
    Hw.forall_setTxq (P := fun u q => q.psId = (s.hw.txqs u).psId) rfl fun _ => rfl
  rw [PowerSave.start]
  split_ifs
  · refine unstopped.trans ?_
    generalize s.unstop t reason = s
    have listed : SamePsId s { s with hw := s.hw.enlist t } := by
      intro u
      obtain ⟨flag, changed⟩ := enlist_txqs s.hw t u
      change ((s.hw.enlist t).txqs u).psId = _
      rw [changed]
      rfl
    rw [PowerSave.addToHwList]
    split_ifs
    · exact refl s
    · exact listed.trans (hwqProcessFrom _ _)
    · exact listed
  · exact refl s

theorem grant (id : PsId) (count : Int) : SamePsId s (s.grant id t count) := by
  have given : SamePsId s (s.give id t count) :=
    Hw.forall_setTxq (P := fun u q => q.psId = (s.hw.txqs u).psId) rfl fun _ => rfl
  exact given.trans (start _)

end SamePsId

/-! ## The shares are those the request sets -/

theorem foldl_keeps (s s' : PowerSave n) (id : PsId) (txqs : List (Fin n)) :
    (txqs.map s.keeps).foldl (grantShare id) s' = s' := by
  rw [List.foldl_map]
  induction txqs with
  | nil => rfl
  | cons t rest induction => exact induction

theorem filter_psId {s s' : PowerSave n} (same : SamePsId s s') (id : PsId) (txqs : List (Fin n)) :
    (txqs.filter fun t => s'.psId t = id) = txqs.filter fun t => s.psId t = id := by
  congr 1
  funext t
  rw [same t]

theorem map_txq {f : Fin n → Share n} (txq : ∀ t, (f t).txq = t) (txqs : List (Fin n)) :
    (txqs.map f).map (·.txq) = txqs := by
  rw [List.map_map]
  exact (List.map_congr_left fun t _ => txq t).trans (List.map_id txqs)

theorem groupShare_txq (s : PowerSave n) (request : Nat) (t : Fin n) :
    (s.groupShare request t).txq = t := by
  rw [groupShare]
  split_ifs
  · rfl
  · rfl

/-- The loop goes over the txqs in order. -/
theorem deal_txqs (id : PsId) (txqs : List (Fin n)) (pktReq : BitVec 16) (s : PowerSave n) :
    (deal id txqs pktReq s).map (·.txq) = txqs := by
  induction txqs generalizing pktReq s with
  | nil => rfl
  | cons t rest induction =>
      rw [deal]
      split_ifs
      · exact congrArg (t :: ·) (induction _ _)
      · exact congrArg (t :: ·) (induction _ _)
      · exact congrArg (t :: ·) (map_txq (fun _ => rfl) rest)

theorem shares_txqs (s : PowerSave n) (pktReq : BitVec 16) (id : PsId) :
    (s.shares pktReq id).map (·.txq) = s.ordered id := by
  rw [shares]
  split_ifs
  · exact map_txq (fun _ => rfl) _
  · exact map_txq (fun _ => rfl) _
  · exact map_txq (groupShare_txq s _) _
  · exact deal_txqs _ _ _ _

/-- The loop sets the shares in order. -/
theorem dispatch_eq_foldl (id : PsId) (txqs : List (Fin n)) (pktReq : BitVec 16)
    (s : PowerSave n) :
    PowerSave.dispatch id txqs pktReq s =
      (deal id (txqs.filter fun t => s.psId t = id) pktReq s).foldl (grantShare id) s := by
  induction txqs generalizing pktReq s with
  | nil => rfl
  | cons t rest induction =>
      rw [PowerSave.dispatch]
      change (if s.psId t ≠ id then _ else if s.avail t = 0 then _
        else if s.avail t < pktReq.toNat then
          PowerSave.dispatch id rest (pktReq - .ofInt 16 (s.avail t)) (s.grant id t (s.avail t))
        else _) = _
      by_cases own : s.psId t = id
      · rw [if_neg (not_not.mpr own), List.filter_cons_of_pos (by simpa using own), deal]
        split_ifs
        · exact induction pktReq s
        · rw [← filter_psId (SamePsId.grant id (s.avail t)) id rest]
          exact induction _ _
        · exact (foldl_keeps _ _ id _).symm
      · rw [if_pos own, List.filter_cons_of_neg (by simpa using own)]
        exact induction pktReq s

/-- The packets shared out are those of the loop. -/
theorem requested_eq {s : PowerSave n} {pktReq : BitVec 16} {id : PsId} (free : s.spCnt id = 0) :
    s.requested pktReq id =
      if pktReq = 0 ∨ ((s.pktReady id).toNat : Int) - (s.spCnt id).toNat < pktReq.toNat then
        .ofInt 16 ((s.pktReady id).toNat - (s.spCnt id).toNat)
      else pktReq := by
  have ready : ((s.pktReady id).toNat : Int) - (s.spCnt id).toNat = (s.pktReady id).toNat := by
    rw [free]
    exact Int.sub_zero _
  rw [requested, ready, BitVec.ofInt_natCast, BitVec.ofNat_toNat, BitVec.setWidth_eq]
  simp only [Int.ofNat_lt]

theorem requested_eq_zero_iff {s : PowerSave n} {pktReq : BitVec 16} {id : PsId} :
    s.requested pktReq id = 0 ↔ s.pktReady id = 0 := by
  rw [requested]
  split_ifs with less
  · exact Iff.rfl
  · obtain ⟨some, enough⟩ := not_or.mp less
    refine iff_of_false some fun none => ?_
    rw [none] at enough
    exact some (BitVec.eq_of_toNat_eq (Nat.eq_zero_of_not_pos enough))

/-- A request that does not interrupt sets its shares and starts their txqs, in order. -/
theorem trafficReq_eq_foldl {s : PowerSave n} {pktReq : BitVec 16} {id : PsId}
    (active : s.active = true) (free : s.spCnt id = 0) (going : ¬Interrupts pktReq id) :
    s.trafficReq pktReq id = (s.shares pktReq id).foldl (grantShare id) s := by
  have awake : ¬s.active = false := by
    rw [active]
    exact Bool.noConfusion
  have ready : ((s.pktReady id).toNat : Int) - (s.spCnt id).toNat = (s.pktReady id).toNat := by
    rw [free]
    exact Int.sub_zero _
  have keeps : ¬(pktReq = psSpInterrupted ∧ id = .uapsd) := going
  rw [PowerSave.trafficReq, if_neg awake, if_neg keeps, shares, if_neg going]
  simp only [← requested_eq free]
  by_cases none : s.requested pktReq id = 0
  · have empty : s.pktReady id = 0 := requested_eq_zero_iff.mp none
    rw [if_pos (Or.inr (by rw [ready, empty]; exact Int.le_refl 0)), if_pos none, foldl_keeps]
  · have some : 0 < (s.pktReady id).toNat :=
      Nat.pos_of_ne_zero fun zero => none (requested_eq_zero_iff.mpr (BitVec.eq_of_toNat_eq zero))
    have starts : ¬(s.spCnt id ≠ 0 ∨ ((s.pktReady id).toNat : Int) - (s.spCnt id).toNat ≤ 0) := by
      rw [ready, not_or]
      exact ⟨not_not.mpr free, by omega⟩
    rw [if_neg starts, if_neg none, ordered]
    split_ifs
    · cases s.tids with
      | nil => rfl
      | cons t rest =>
          simp only [List.take_succ_cons, List.take_zero, List.map_cons, List.map_nil, groupShare]
          split_ifs
          · exact (foldl_keeps s s id [t]).symm
          · rfl
    · exact dispatch_eq_foldl id s.prio _ s

/-! ## Where starting a txq does not push -/

/-- The txqs have the same frames, credits and shares, and the station the same counters. -/
structure Calm (s s' : PowerSave n) : Prop where
  bus : s'.hw.bus = s.hw.bus
  tids : s'.tids = s.tids
  spCnt : s'.spCnt = s.spCnt
  pushLimit : ∀ t, (s'.hw.txqs t).pushLimit = (s.hw.txqs t).pushLimit
  avail : ∀ t, s'.avail t = s.avail t

theorem Calm.refl (s : PowerSave n) : Calm s s := ⟨rfl, rfl, rfl, fun _ => rfl, fun _ => rfl⟩

theorem Calm.trans {s s' s'' : PowerSave n} (first : Calm s s') (second : Calm s' s'') :
    Calm s s'' where
  bus := second.bus.trans first.bus
  tids := second.tids.trans first.tids
  spCnt := second.spCnt.trans first.spCnt
  pushLimit t := (second.pushLimit t).trans (first.pushLimit t)
  avail t := (second.avail t).trans (first.avail t)

/-- Off PCIe, starting a txq only puts it on its list. -/
theorem Calm.start {s : PowerSave n} (bus : s.hw.bus ≠ .pcie) (t : Fin n) (reason : Finset Stop) :
    Calm s (s.start t reason) := by
  have unstopped : Calm s (s.unstop t reason) :=
    ⟨rfl, rfl, rfl,
      Hw.forall_setTxq (P := fun u q => q.pushLimit = (s.hw.txqs u).pushLimit) rfl fun _ => rfl,
      Hw.forall_setTxq (P := fun u q => min (q.queue.skList.length : Int) q.credits = s.avail u) rfl
        fun _ => rfl⟩
  rw [PowerSave.start]
  split_ifs
  · refine unstopped.trans ?_
    have quiet : (s.unstop t reason).hw.bus ≠ .pcie := bus
    generalize s.unstop t reason = s at quiet
    rw [PowerSave.addToHwList]
    split_ifs with stopped listed
    · exact Calm.refl s
    · exact absurd listed.1 quiet
    · refine ⟨?_, rfl, rfl, fun u => ?_, fun u => ?_⟩
      · change (s.hw.enlist t).bus = _
        rw [Hw.enlist]
        split_ifs <;> rfl
      · obtain ⟨flag, changed⟩ := enlist_txqs s.hw t u
        change ((s.hw.enlist t).txqs u).pushLimit = _
        rw [changed]
      · obtain ⟨flag, changed⟩ := enlist_txqs s.hw t u
        change min (((s.hw.enlist t).txqs u).queue.skList.length : Int)
          ((s.hw.enlist t).txqs u).credits = _
        rw [changed]
        rfl
  · exact Calm.refl s

/-- What a grant changes off PCIe: one limit, and the counter. -/
structure Granted (id : PsId) (t : Fin n) (count : Int) (s s' : PowerSave n) : Prop where
  bus : s'.hw.bus = s.hw.bus
  avail : ∀ u, s'.avail u = s.avail u
  limit : (s'.hw.txqs t).pushLimit = count
  others : ∀ u, u ≠ t → (s'.hw.txqs u).pushLimit = (s.hw.txqs u).pushLimit
  spCnt : s'.spCnt id = s.spCnt id + .ofInt 16 count

theorem granted_grant {s : PowerSave n} (bus : s.hw.bus ≠ .pcie) (id : PsId) (t : Fin n)
    (count : Int) : Granted id t count s (s.grant id t count) := by
  have calm : Calm (s.give id t count) (s.grant id t count) :=
    Calm.start (s := s.give id t count) bus t _
  refine ⟨calm.bus, fun u => (calm.avail u).trans ?_, ?_, fun u other => ?_, ?_⟩
  · by_cases same : u = t
    · subst same
      rw [avail, PowerSave.give, Hw.setTxq_self]
      rfl
    · rw [avail, PowerSave.give, Hw.setTxq_of_ne _ _ same]
      rfl
  · rw [calm.pushLimit, PowerSave.give, Hw.setTxq_self]
  · rw [calm.pushLimit]
    exact congrArg Txq.pushLimit (Hw.setTxq_of_ne s.hw _ other)
  · rw [calm.spCnt]
    exact Function.update_self id _ s.spCnt

/-! ## The shares off PCIe -/

/-- What setting shares leaves behind: their limits, and the counter has counted them. -/
structure Settled (id : PsId) (s s' : PowerSave n) (list : List (Share n)) : Prop where
  limit : ∀ e ∈ list, (s'.hw.txqs e.txq).pushLimit = e.limit
  others : ∀ u, u ∉ list.map (·.txq) → (s'.hw.txqs u).pushLimit = (s.hw.txqs u).pushLimit
  spCnt : s'.spCnt id = s.spCnt id + .ofInt 16 (Greedy.total (counts list))

theorem settled_foldl {s : PowerSave n} (bus : s.hw.bus ≠ .pcie) (id : PsId)
    {list : List (Share n)} (distinct : (list.map (·.txq)).Nodup)
    (kept : ∀ e ∈ list, e.granted = false → (s.hw.txqs e.txq).pushLimit = e.limit) :
    Settled id s (list.foldl (grantShare id) s) list := by
  induction list generalizing s with
  | nil => exact ⟨nofun, fun _ _ => rfl, (BitVec.add_zero _).symm⟩
  | cons e rest induction =>
      obtain ⟨fresh, distinct⟩ := List.nodup_cons.mp distinct
      have other : ∀ {x}, x ∈ rest → x.txq ≠ e.txq :=
        fun member same => fresh (List.mem_map.mpr ⟨_, member, same⟩)
      have total : Greedy.total (counts (e :: rest)) =
          (if e.granted then e.limit else 0) + Greedy.total (counts rest) := rfl
      rw [List.foldl_cons, grantShare]
      cases granted : e.granted with
      | true =>
          have made := granted_grant bus id e.txq e.limit
          rw [if_pos rfl]
          have settled := induction (s := s.grant id e.txq e.limit) (made.bus ▸ bus) distinct
            fun x member ungranted => by
              rw [made.others _ (other member)]
              exact kept x (List.mem_cons_of_mem e member) ungranted
          refine ⟨List.forall_mem_cons.mpr ⟨?_, settled.limit⟩, fun u outside => ?_, ?_⟩
          · rw [settled.others _ fresh, made.limit]
          · rw [List.map_cons, List.mem_cons, not_or] at outside
            rw [settled.others u outside.2, made.others u outside.1]
          · rw [settled.spCnt, made.spCnt, total, granted, if_pos rfl, BitVec.ofInt_add,
              BitVec.add_assoc]
      | false =>
          rw [if_neg Bool.false_ne_true]
          have settled := induction bus distinct fun x member =>
            kept x (List.mem_cons_of_mem e member)
          refine ⟨List.forall_mem_cons.mpr ⟨?_, settled.limit⟩, fun u outside => ?_, ?_⟩
          · rw [settled.others _ fresh, kept e List.mem_cons_self granted]
          · rw [List.map_cons, List.mem_cons, not_or] at outside
            exact settled.others u outside.2
          · rw [settled.spCnt, total, granted, if_neg Bool.false_ne_true, Int.zero_add]

/-- A share as the request finds its txq. -/
structure Finds (s : PowerSave n) (e : Share n) : Prop where
  avail : e.avail = s.avail e.txq
  old : e.old = (s.hw.txqs e.txq).pushLimit

theorem finds_groupShare (s : PowerSave n) (request : Nat) (t : Fin n) :
    s.Finds (s.groupShare request t) := by
  rw [groupShare]
  split_ifs
  · exact ⟨rfl, rfl⟩
  · exact ⟨rfl, rfl⟩

/-- Off PCIe, the loop finds the txqs as they were before the request. -/
theorem finds_deal {s : PowerSave n} (bus : s.hw.bus ≠ .pcie) (id : PsId) {txqs : List (Fin n)}
    (distinct : txqs.Nodup) (pktReq : BitVec 16) : ∀ e ∈ deal id txqs pktReq s, s.Finds e := by
  induction txqs generalizing pktReq s with
  | nil => exact nofun
  | cons t rest induction =>
      obtain ⟨fresh, distinct⟩ := List.nodup_cons.mp distinct
      -- what a grant to `t` leaves of the txqs after it
      have back : ∀ count {e}, e.txq ∈ rest → (s.grant id t count).Finds e → s.Finds e := by
        intro count e later finds
        have made := granted_grant bus id t count
        refine ⟨finds.avail.trans (made.avail _), finds.old.trans (made.others _ ?_)⟩
        exact fun same => fresh (same ▸ later)
      rw [deal]
      split_ifs
      · exact List.forall_mem_cons.mpr ⟨⟨rfl, rfl⟩, induction bus distinct pktReq⟩
      · have made := granted_grant bus id t (s.avail t)
        refine List.forall_mem_cons.mpr ⟨⟨rfl, rfl⟩, fun e member => back (s.avail t) ?_ ?_⟩
        · rw [← deal_txqs id rest (pktReq - .ofInt 16 (s.avail t)) (s.grant id t (s.avail t))]
          exact List.mem_map_of_mem member
        · exact induction (made.bus ▸ bus) distinct _ e member
      · refine List.forall_mem_cons.mpr ⟨⟨rfl, rfl⟩, fun e member => ?_⟩
        obtain ⟨u, later, rfl⟩ := List.mem_map.mp member
        exact back _ later ⟨rfl, rfl⟩

/-- A txq that gets nothing keeps its limit. -/
theorem deal_kept (id : PsId) (txqs : List (Fin n)) (pktReq : BitVec 16) (s : PowerSave n) :
    ∀ e ∈ deal id txqs pktReq s, e.granted = false → e.limit = e.old := by
  induction txqs generalizing pktReq s with
  | nil => exact nofun
  | cons t rest induction =>
      rw [deal]
      split_ifs
      · exact List.forall_mem_cons.mpr ⟨fun _ => rfl, induction pktReq s⟩
      · exact List.forall_mem_cons.mpr ⟨fun ungranted => (nomatch ungranted), induction _ _⟩
      · refine List.forall_mem_cons.mpr ⟨fun ungranted => (nomatch ungranted), fun e member _ => ?_⟩
        obtain ⟨u, _, rfl⟩ := List.mem_map.mp member
        rfl

/-! ## Greedy shares -/

theorem fits_zero {list : List (Share n)} : Fits 0 list ↔ ∀ e ∈ list, e.old = 0 := by
  induction list with
  | nil => exact iff_of_true trivial nofun
  | cons e rest induction => rw [Fits, if_pos (Or.inl rfl), induction, List.forall_mem_cons]

theorem limits_keeps (s : PowerSave n) {txqs : List (Fin n)}
    (fits : Fits 0 (txqs.map s.keeps)) :
    limits (txqs.map s.keeps) = Greedy.shares 0 (avails (txqs.map s.keeps)) := by
  rw [Greedy.shares_zero, limits, avails, List.map_map, List.map_map, List.map_map]
  exact List.map_congr_left fun t member => fits_zero.mp fits _ (List.mem_map_of_mem member)

section

variable {s : PowerSave n} {t : Fin n} {request count : Int} {rest : List (Share n)}

theorem fits_keeps (empty : s.avail t = 0) :
    Fits request (s.keeps t :: rest) ↔ (s.hw.txqs t).pushLimit = 0 ∧ Fits request rest := by
  have nothing : (s.keeps t).avail = 0 := empty
  rw [Fits, if_pos (Or.inr nothing)]
  rfl

theorem fits_gets_of_lt (asked : 0 < request) (some : s.avail t ≠ 0) (less : s.avail t < request) :
    Fits request (s.gets t count :: rest) ↔ 0 < s.avail t ∧ Fits (request - s.avail t) rest := by
  have found : (s.gets t count).avail = s.avail t := rfl
  rw [Fits, found, if_neg (not_or.mpr ⟨Int.ne_of_gt asked, some⟩),
    Int.min_eq_right (Int.le_of_lt less)]

theorem fits_gets_of_ge (asked : 0 < request) (covers : request ≤ s.avail t) :
    Fits request (s.gets t count :: rest) ↔ Fits 0 rest := by
  have found : (s.gets t count).avail = s.avail t := rfl
  have some : 0 < s.avail t := Int.lt_of_lt_of_le asked covers
  rw [Fits, found, if_neg (not_or.mpr ⟨Int.ne_of_gt asked, Int.ne_of_gt some⟩),
    Int.min_eq_left covers, Int.sub_self]
  exact and_iff_right some

end

/-- The loop shares out greedily when the txqs fit. -/
theorem limits_deal {id : PsId} {txqs : List (Fin n)} {pktReq : BitVec 16} {s : PowerSave n}
    (some : 0 < pktReq.toNat) (fits : Fits pktReq.toNat (deal id txqs pktReq s)) :
    limits (deal id txqs pktReq s) =
      Greedy.shares pktReq.toNat (avails (deal id txqs pktReq s)) := by
  induction txqs generalizing pktReq s with
  | nil => rfl
  | cons t rest induction =>
      have asked : (0 : Int) < pktReq.toNat := Int.natCast_pos.mpr some
      rw [deal] at fits ⊢
      split_ifs at fits ⊢ with empty less
      · obtain ⟨unlimited, fits⟩ := (fits_keeps empty).mp fits
        change (s.hw.txqs t).pushLimit :: limits _ = Greedy.shares _ (s.avail t :: avails _)
        rw [empty, unlimited, Greedy.shares_cons_of_le (Int.le_refl 0) (Int.le_of_lt asked),
          Int.sub_zero, induction some fits]
      · obtain ⟨pos, fits⟩ := (fits_gets_of_lt asked empty less).mp fits
        have left := toNat_sub_ofInt (Int.le_of_lt pos) less
        rw [← left] at fits
        change s.avail t :: limits _ = Greedy.shares _ (s.avail t :: avails _)
        rw [Greedy.shares_cons_of_le (Int.le_of_lt pos) (Int.le_of_lt less), ← left,
          induction (by omega) fits]
      · have covers : (pktReq.toNat : Int) ≤ s.avail t := Int.not_lt.mp less
        change (pktReq.toNat : Int) :: limits _ = Greedy.shares _ (s.avail t :: avails _)
        rw [Greedy.shares_cons_of_ge (Int.le_of_lt asked) covers,
          limits_keeps _ ((fits_gets_of_ge asked covers).mp fits)]

/-- When the txqs fit, one that gets nothing has no limit. -/
theorem rests_deal {id : PsId} {txqs : List (Fin n)} {pktReq : BitVec 16} {s : PowerSave n}
    (some : 0 < pktReq.toNat) (fits : Fits pktReq.toNat (deal id txqs pktReq s)) :
    ∀ e ∈ deal id txqs pktReq s, e.granted = false → e.limit = 0 := by
  induction txqs generalizing pktReq s with
  | nil => exact nofun
  | cons t rest induction =>
      have asked : (0 : Int) < pktReq.toNat := Int.natCast_pos.mpr some
      rw [deal] at fits ⊢
      split_ifs at fits ⊢ with empty less
      · obtain ⟨unlimited, fits⟩ := (fits_keeps empty).mp fits
        exact List.forall_mem_cons.mpr ⟨fun _ => unlimited, induction some fits⟩
      · obtain ⟨pos, fits⟩ := (fits_gets_of_lt asked empty less).mp fits
        have left := toNat_sub_ofInt (Int.le_of_lt pos) less
        rw [← left] at fits
        exact List.forall_mem_cons.mpr
          ⟨fun ungranted => (nomatch ungranted), induction (by omega) fits⟩
      · have unlimited := fits_zero.mp ((fits_gets_of_ge asked (Int.not_lt.mp less)).mp fits)
        refine List.forall_mem_cons.mpr ⟨fun ungranted => (nomatch ungranted), fun e member _ => ?_⟩
        have none := unlimited e member
        obtain ⟨u, _, rfl⟩ := List.mem_map.mp member
        exact none

/-- The txqs fit when the shares of the loop are not below zero, and the others have none. -/
theorem fits_deal {id : PsId} {txqs : List (Fin n)} {pktReq : BitVec 16} {s : PowerSave n}
    (some : 0 < pktReq.toNat) (nonneg : ∀ e ∈ deal id txqs pktReq s, 0 ≤ e.limit)
    (rests : ∀ e ∈ deal id txqs pktReq s, e.granted = false → e.limit = 0) :
    Fits pktReq.toNat (deal id txqs pktReq s) := by
  induction txqs generalizing pktReq s with
  | nil => trivial
  | cons t rest induction =>
      have asked : (0 : Int) < pktReq.toNat := Int.natCast_pos.mpr some
      rw [deal] at nonneg rests ⊢
      split_ifs at nonneg rests ⊢ with empty less
      · rw [List.forall_mem_cons] at nonneg rests
        exact (fits_keeps empty).mpr ⟨rests.1 rfl, induction some nonneg.2 rests.2⟩
      · rw [List.forall_mem_cons] at nonneg rests
        have share : 0 ≤ s.avail t := nonneg.1
        have left := toNat_sub_ofInt share less
        have fits := induction (s := s.grant id t (s.avail t)) (by omega) nonneg.2 rests.2
        rw [left] at fits
        exact (fits_gets_of_lt asked empty less).mpr
          ⟨lt_of_le_of_ne share (Ne.symm empty), fits⟩
      · rw [List.forall_mem_cons] at rests
        rw [fits_gets_of_ge asked (Int.not_lt.mp less), fits_zero]
        intro e member
        have unlimited := rests.2 e member
        obtain ⟨u, _, rfl⟩ := List.mem_map.mp member
        exact unlimited rfl

/-! ## Limits and the counter -/

theorem totalAvail_nonneg (list : List (Share n)) : 0 ≤ totalAvail list :=
  Greedy.total_worth_nonneg _

theorem wanted_nonneg (s : PowerSave n) (pktReq : BitVec 16) (id : PsId) :
    0 ≤ s.wanted pktReq id := by
  rw [wanted]
  split_ifs
  · exact Int.le_refl 0
  · exact totalAvail_nonneg _
  · exact Int.natCast_nonneg _

theorem bounds_of_greedy {list : List (Share n)} {request : Int} (nonneg : 0 ≤ request)
    (greedy : limits list = Greedy.shares request (avails list)) :
    ∀ e ∈ list, 0 ≤ e.limit ∧ e.limit ≤ Greedy.worth e.avail := by
  induction list generalizing request with
  | nil => exact nofun
  | cons e rest induction =>
      obtain ⟨first, others⟩ := List.cons.inj greedy
      have gives := Greedy.worth_nonneg e.avail
      refine List.forall_mem_cons.mpr ⟨?_, induction (by omega) others⟩
      simp only at first
      omega

theorem counts_eq_limits {list : List (Share n)}
    (rests : ∀ e ∈ list, e.granted = false → e.limit = 0) : counts list = limits list := by
  refine List.map_congr_left fun e member => ?_
  cases granted : e.granted with
  | true => rfl
  | false => exact (rests e member granted).symm

/-- When the counter has counted all limits, the txqs that got nothing have none. -/
theorem rests_of_total {list : List (Share n)} (nonneg : ∀ e ∈ list, 0 ≤ e.limit)
    (same : Greedy.total (counts list) = Greedy.total (limits list)) :
    ∀ e ∈ list, e.granted = false → e.limit = 0 := by
  have le : ∀ {list : List (Share n)}, (∀ e ∈ list, 0 ≤ e.limit) →
      Greedy.total (counts list) ≤ Greedy.total (limits list) := by
    intro list nonneg
    induction list with
    | nil => exact Int.le_refl 0
    | cons e rest induction =>
        rw [List.forall_mem_cons] at nonneg
        refine Int.add_le_add ?_ (induction nonneg.2)
        simp only
        cases e.granted with
        | true => exact Int.le_refl _
        | false => exact nonneg.1
  induction list with
  | nil => exact nofun
  | cons e rest induction =>
      rw [List.forall_mem_cons] at nonneg
      have others := le nonneg.2
      change (if e.granted then e.limit else 0) + Greedy.total (counts rest) =
        e.limit + Greedy.total (limits rest) at same
      refine List.forall_mem_cons.mpr ⟨fun ungranted => ?_, induction nonneg.2 ?_⟩
      · rw [ungranted, if_neg Bool.false_ne_true] at same
        omega
      · split_ifs at same
        · omega
        · omega

theorem toNat_ofInt_of_lt {count : Int} (nonneg : 0 ≤ count) (less : count < 65536) :
    ((BitVec.ofInt 16 count).toNat : Int) = count := by
  obtain ⟨m, rfl⟩ := Int.eq_ofNat_of_zero_le nonneg
  rw [BitVec.ofInt_natCast, BitVec.toNat_ofNat, Nat.mod_eq_of_lt (by omega)]

/-! ## What a request meets -/

variable {s : PowerSave n} {pktReq : BitVec 16} {id : PsId}

theorem requested_pos (some : s.requested pktReq id ≠ 0) : 0 < (s.requested pktReq id).toNat :=
  Nat.pos_of_ne_zero fun zero => some (BitVec.eq_of_toNat_eq zero)

/-- A txq that gets nothing keeps its limit. -/
theorem shares_kept (going : ¬Interrupts pktReq id) :
    ∀ e ∈ s.shares pktReq id, e.granted = false → e.limit = e.old := by
  intro e member ungranted
  rw [shares, if_neg going] at member
  split_ifs at member
  · obtain ⟨t, _, rfl⟩ := List.mem_map.mp member
    rfl
  · obtain ⟨t, _, rfl⟩ := List.mem_map.mp member
    rw [groupShare] at ungranted ⊢
    split_ifs at ungranted ⊢
    · rfl
    · exact nomatch ungranted
  · exact deal_kept id _ _ s e member ungranted

theorem ordered_nodup (s : PowerSave n) (id : PsId) : (s.ordered id).Nodup := by
  rw [ordered]
  split_ifs
  · exact s.distinct.sublist (List.take_sublist 1 _)
  · refine List.Nodup.filter _ (List.Nodup.filterMap ?_ (by decide))
    intro tid tid' t found found'
    obtain ⟨less, _⟩ := List.getElem?_eq_some_iff.mp found
    exact (List.getElem?_inj less s.distinct).mp (found.trans found'.symm)

/-- Off PCIe, a request finds the txqs as they were before. -/
theorem finds_shares (bus : s.hw.bus ≠ .pcie) : ∀ e ∈ s.shares pktReq id, s.Finds e := by
  intro e member
  rw [shares] at member
  split_ifs at member
  · obtain ⟨t, _, rfl⟩ := List.mem_map.mp member
    exact ⟨rfl, rfl⟩
  · obtain ⟨t, _, rfl⟩ := List.mem_map.mp member
    exact ⟨rfl, rfl⟩
  · obtain ⟨t, _, rfl⟩ := List.mem_map.mp member
    exact finds_groupShare s _ t
  · exact finds_deal bus id (s.ordered_nodup id) _ e member

/-- Off PCIe, a request leaves its shares behind. -/
theorem settled_trafficReq (active : s.active = true) (free : s.spCnt id = 0)
    (going : ¬Interrupts pktReq id) (bus : s.hw.bus ≠ .pcie) :
    Settled id s (s.trafficReq pktReq id) (s.shares pktReq id) := by
  rw [trafficReq_eq_foldl active free going]
  refine settled_foldl bus id ((s.shares_txqs pktReq id).symm ▸ s.ordered_nodup id) ?_
  intro e member ungranted
  rw [shares_kept going e member ungranted, (finds_shares bus e member).old]

/-- A group that fits gets a greedy share. -/
theorem groupShare_greedy {request : Nat} {t : Fin n} (some : 0 < request)
    (fits : s.GroupFits request t) :
    (s.groupShare request t).limit =
        min (request : Int) (Greedy.worth (s.groupShare request t).avail) ∧
      ((s.groupShare request t).granted = false → (s.groupShare request t).limit = 0) := by
  have frames : (0 : Int) ≤ (s.hw.txqs t).queue.skList.length := Int.natCast_nonneg _
  rw [GroupFits] at fits
  rw [groupShare]
  split_ifs at fits ⊢ with full
  · refine ⟨?_, fun _ => fits⟩
    change (s.hw.txqs t).pushLimit = min (request : Int) (max 0 (min _ _))
    omega
  · refine ⟨?_, fun ungranted => (nomatch ungranted)⟩
    change min (request : Int) (s.hw.txqs t).credits = min (request : Int) (max 0 (min _ _))
    omega

/-- A group fits when its share is within what it has to push. -/
theorem groupFits_of_bounds {request : Nat} {t : Fin n} (some : 0 < request)
    (upper : (s.groupShare request t).limit ≤ Greedy.worth (s.groupShare request t).avail)
    (rests : (s.groupShare request t).granted = false → (s.groupShare request t).limit = 0) :
    s.GroupFits request t := by
  rw [GroupFits]
  rw [groupShare] at upper rests
  split_ifs at upper rests ⊢ with full
  · exact rests rfl
  · change min (request : Int) (s.hw.txqs t).credits ≤ max 0 (min _ _) at upper
    omega

/-- The txqs of a group are at most one. -/
theorem ordered_group (group : s.multicast = true) :
    s.ordered id = [] ∨ ∃ t, s.ordered id = [t] := by
  rw [ordered, if_pos group]
  cases s.tids with
  | nil => exact Or.inl rfl
  | cons t rest => exact Or.inr ⟨t, rfl⟩

/-- The shares of a request are greedy shares of what it shares out, when the txqs fit. -/
theorem limits_shares (going : ¬Interrupts pktReq id) (fits : s.TxqsFit pktReq id) :
    limits (s.shares pktReq id) =
        Greedy.shares (s.requested pktReq id).toNat (avails (s.shares pktReq id)) ∧
      ∀ e ∈ s.shares pktReq id, e.granted = false → e.limit = 0 := by
  rw [TxqsFit, shares, if_neg going] at fits
  rw [shares, if_neg going]
  by_cases none : s.requested pktReq id = 0
  · rw [if_neg fun both => both.2 none, if_pos none, none] at fits
    rw [if_pos none, none]
    refine ⟨limits_keeps s fits, fun e member _ => ?_⟩
    have unlimited := fits_zero.mp fits e member
    obtain ⟨t, _, rfl⟩ := List.mem_map.mp member
    exact unlimited
  · have some := requested_pos none
    rw [if_neg none]
    by_cases group : s.multicast = true
    · rw [if_pos ⟨group, none⟩] at fits
      rw [if_pos group]
      rcases ordered_group group with empty | ⟨t, single⟩
      · rw [empty]
        exact ⟨rfl, nofun⟩
      · rw [single] at fits ⊢
        obtain ⟨share, rests⟩ := groupShare_greedy some (fits t List.mem_cons_self)
        exact ⟨congrArg ([·]) share, List.forall_mem_cons.mpr ⟨rests, nofun⟩⟩
    · rw [if_neg fun both => group both.1, if_neg none, if_neg group] at fits
      rw [if_neg group]
      exact ⟨limits_deal some fits, rests_deal some fits⟩

/-- The txqs fit when the shares are within what they have to push, and the others have no limit. -/
theorem txqsFit_of_bounds (going : ¬Interrupts pktReq id)
    (bounds : ∀ e ∈ s.shares pktReq id, 0 ≤ e.limit ∧ e.limit ≤ Greedy.worth e.avail)
    (rests : ∀ e ∈ s.shares pktReq id, e.granted = false → e.limit = 0) : s.TxqsFit pktReq id := by
  rw [shares, if_neg going] at bounds rests
  rw [TxqsFit, shares, if_neg going]
  by_cases none : s.requested pktReq id = 0
  · rw [if_neg fun both => both.2 none]
    rw [if_pos none] at rests ⊢
    rw [none]
    refine fits_zero.mpr fun e member => ?_
    have unlimited := rests e member
    obtain ⟨t, _, rfl⟩ := List.mem_map.mp member
    exact unlimited rfl
  · have some := requested_pos none
    rw [if_neg none] at bounds rests ⊢
    by_cases group : s.multicast = true
    · rw [if_pos ⟨group, none⟩]
      rw [if_pos group] at bounds rests
      intro t member
      have inside := List.mem_map_of_mem (f := s.groupShare (s.requested pktReq id).toNat) member
      exact groupFits_of_bounds some (bounds _ inside).2 (rests _ inside)
    · rw [if_neg fun both => group both.1]
      rw [if_neg group] at bounds rests ⊢
      exact fits_deal some (fun e member => (bounds e member).1) rests

/-- Of a request that is covered, what is shared out is what is wanted. -/
theorem min_requested (going : ¬Interrupts pktReq id) (covered : s.Covered pktReq id) :
    min ((s.requested pktReq id).toNat : Int) (totalAvail (s.shares pktReq id)) =
      min (s.wanted pktReq id) (totalAvail (s.shares pktReq id)) := by
  have ready := (covered going).1
  rw [wanted, if_neg going] at ready ⊢
  split_ifs at ready ⊢ with all
  · omega
  · have less : (s.requested pktReq id).toNat ≤ pktReq.toNat := by
      rw [requested]
      split_ifs with short
      · exact Nat.le_of_lt (short.resolve_left all)
      · exact Nat.le_refl _
    omega

/-- What interrupts a service period shares out nothing. -/
theorem shares_interrupts (stops : Interrupts pktReq id) :
    s.shares pktReq id = (s.ordered id).map s.loses ∧ s.wanted pktReq id = 0 := by
  rw [shares, wanted, if_pos stops, if_pos stops]
  exact ⟨rfl, rfl⟩

theorem foldl_clearLimit (txqs : List (Fin n)) (s : PowerSave n) :
    (∀ t ∈ txqs, ((txqs.foldl clearLimit s).hw.txqs t).pushLimit = 0) ∧
      (∀ t, (s.hw.txqs t).pushLimit = 0 → ((txqs.foldl clearLimit s).hw.txqs t).pushLimit = 0) ∧
      (txqs.foldl clearLimit s).spCnt = s.spCnt := by
  induction txqs generalizing s with
  | nil => exact ⟨nofun, fun _ none => none, rfl⟩
  | cons t rest induction =>
      obtain ⟨cleared, stays, spCnt⟩ := induction (s.clearLimit t)
      have first : ((s.clearLimit t).hw.txqs t).pushLimit = 0 := by
        rw [clearLimit, Hw.setTxq_self]
      refine ⟨List.forall_mem_cons.mpr ⟨stays t first, cleared⟩, fun u none => stays u ?_, spCnt⟩
      by_cases same : u = t
      · exact same ▸ first
      · exact (congrArg Txq.pushLimit (Hw.setTxq_of_ne s.hw _ same)).trans none

/-- The txqs of the `ps_id` are txqs of the station. -/
theorem ordered_subset (s : PowerSave n) (id : PsId) : s.ordered id ⊆ s.tids := by
  rw [ordered]
  split_ifs
  · exact List.take_subset 1 _
  · intro t member
    obtain ⟨tid, _, found⟩ := List.mem_filterMap.mp (List.mem_of_mem_filter member)
    exact List.mem_of_getElem? found

/-- What interrupts a service period is served. -/
theorem served_interrupts (active : s.active = true) (stops : Interrupts pktReq id) :
    s.Served pktReq id := by
  obtain ⟨cleared, none⟩ := s.shares_interrupts stops
  have greedy : limits (s.shares pktReq id) =
      Greedy.shares (s.wanted pktReq id) (avails (s.shares pktReq id)) := by
    rw [cleared, none, Greedy.shares_zero, limits, avails, List.map_map, List.map_map, List.map_map]
    rfl
  have total : Greedy.total (limits (s.shares pktReq id)) =
      min (s.wanted pktReq id) (totalAvail (s.shares pktReq id)) := by
    rw [greedy, Greedy.total_shares (s.wanted_nonneg pktReq id), totalAvail]
  have nothing : ∀ e ∈ s.shares pktReq id, e.limit = 0 := by
    intro e member
    rw [cleared] at member
    obtain ⟨t, _, rfl⟩ := List.mem_map.mp member
    rfl
  have made : s.trafficReq pktReq id = s.tids.foldl clearLimit s.forfeit := by
    have gives : pktReq = psSpInterrupted ∧ id = .uapsd := stops
    rw [PowerSave.trafficReq, if_neg (by rw [active]; exact Bool.noConfusion), if_pos gives,
      interrupt]
  obtain ⟨gone, _, spCnt⟩ := foldl_clearLimit s.tids s.forfeit
  refine ⟨s.shares_txqs pktReq id, bounds_of_greedy (s.wanted_nonneg pktReq id) greedy, greedy,
    congrArg Greedy.total (counts_eq_limits fun e member _ => nothing e member), total,
    fun going => absurd stops going, fun bus e member => (finds_shares bus e member).avail,
    fun _ e member => ?_, fun _ => ?_⟩
  · rw [made, nothing e member]
    refine gone _ (s.ordered_subset id ?_)
    rw [← s.shares_txqs pktReq id]
    exact List.mem_map_of_mem member
  · have reset : (s.trafficReq pktReq id).spCnt id = 0 := by
      rw [made, spCnt, stops.2]
      exact Function.update_self .uapsd 0 s.spCnt
    rw [reset, total, none, Int.min_eq_left (totalAvail_nonneg _)]
    rfl

/-- A request that is covered is served. -/
theorem served_of_covered (active : s.active = true) (free : s.spCnt id = 0)
    (going : ¬Interrupts pktReq id) (covered : s.Covered pktReq id) : s.Served pktReq id := by
  obtain ⟨shared, rests⟩ := limits_shares going (covered going).2
  have meets := min_requested going covered
  have greedy : limits (s.shares pktReq id) =
      Greedy.shares (s.wanted pktReq id) (avails (s.shares pktReq id)) := by
    rw [shared]
    exact Greedy.shares_eq_of_min_eq (Int.natCast_nonneg _) (s.wanted_nonneg pktReq id) meets
  have total : Greedy.total (limits (s.shares pktReq id)) =
      min (s.wanted pktReq id) (totalAvail (s.shares pktReq id)) := by
    rw [greedy, Greedy.total_shares (s.wanted_nonneg pktReq id), totalAvail]
  have counted : Greedy.total (counts (s.shares pktReq id)) =
      Greedy.total (limits (s.shares pktReq id)) := congrArg Greedy.total (counts_eq_limits rests)
  refine ⟨s.shares_txqs pktReq id, bounds_of_greedy (s.wanted_nonneg pktReq id) greedy, greedy,
    counted, total, fun _ => trafficReq_eq_foldl active free going,
    fun bus e member => (finds_shares bus e member).avail,
    fun bus => (settled_trafficReq active free going bus).limit, fun bus => ?_⟩
  have ready := (covered going).1
  have wanted := s.wanted_nonneg pktReq id
  have some := totalAvail_nonneg (s.shares pktReq id)
  have word := (s.requested pktReq id).isLt
  rw [(settled_trafficReq active free going bus).spCnt, free, counted, total]
  rw [show (0 : BitVec 16) = 0#16 from rfl, BitVec.zero_add]
  exact toNat_ofInt_of_lt (by omega) (by omega)

/-- A request that is served is covered. -/
theorem Served.covered (served : s.Served pktReq id) : s.Covered pktReq id := by
  intro going
  have rests := rests_of_total (fun e member => (served.bounds e member).1) served.counts
  have fits := txqsFit_of_bounds going served.bounds rests
  have total := served.total
  rw [(limits_shares going fits).1, Greedy.total_shares (Int.natCast_nonneg _),
    ← totalAvail] at total
  exact ⟨by omega, fits⟩

/-- A request that is taken is served exactly when it is covered. -/
theorem served_iff_covered (s : PowerSave n) (pktReq : BitVec 16) (id : PsId)
    (active : s.active = true) (taken : Interrupts pktReq id ∨ s.spCnt id = 0) :
    s.Served pktReq id ↔ s.Covered pktReq id := by
  by_cases stops : Interrupts pktReq id
  · exact iff_of_true (served_interrupts active stops) fun going => absurd stops going
  · exact ⟨Served.covered, served_of_covered active (taken.resolve_left stops) stops⟩

/-- Two txqs of a station in power save get frames. -/
def dozing : List (PsEvent nxNbTxq) :=
  [.hw (.init 7 ∅ 1 true true), .hw (.init 0 ∅ 1 true true), .enable,
    .hw (.queueSkb 7 ⟨0, 100, 1, false⟩), .hw (.queueSkb 7 ⟨0, 100, 1, false⟩),
    .hw (.queueSkb 7 ⟨0, 100, 1, false⟩), .hw (.queueSkb 0 ⟨0, 100, 1, false⟩),
    .hw (.queueSkb 0 ⟨0, 100, 1, false⟩)]

theorem dozing_served :
    ∃ s, Run.run step dozing
        (init .sdio (fun _ => true) firstTids firstTids_nodup false false) = .ok s ∧
      limits (s.shares 4 .legacy) = [0, 3, 0, 0, 0, 0, 1, 0, 0] ∧ s.Served 4 .legacy := by
  have outcome : (Run.run step dozing
      (init .sdio (fun _ => true) firstTids firstTids_nodup false false)).toOption.map (fun s =>
        (s.active, s.spCnt .legacy, limits (s.shares 4 .legacy), decide (s.Covered 4 .legacy))) =
          some (true, 0, [0, 3, 0, 0, 0, 0, 1, 0, 0], true) := by
    decide +kernel
  obtain ⟨s, ran, ends⟩ := Run.ends_of_toOption outcome
  simp only [Prod.mk.injEq, decide_eq_true_eq] at ends
  obtain ⟨active, free, shared, covered⟩ := ends
  exact ⟨s, ran, shared, (served_iff_covered s 4 .legacy active (Or.inr free)).mpr covered⟩

/-- On PCIe a txq with frames has its credits taken away. -/
def overdrawn : List (PsEvent nxNbTxq) :=
  [.hw (.init 7 ∅ 1 true true), .hw (.init 0 ∅ 1 true true), .hw (.creditUpdate 7 (-5)), .enable,
    .hw (.queueSkb 7 ⟨0, 100, 1, false⟩), .hw (.queueSkb 0 ⟨0, 100, 1, false⟩),
    .hw (.queueSkb 0 ⟨0, 100, 1, false⟩), .hw (.queueSkb 0 ⟨0, 100, 1, false⟩),
    .hw (.queueSkb 0 ⟨0, 100, 1, false⟩)]

/-- Its share of two packets is below zero, and the other txq gets three. -/
theorem overdrawn_not_served :
    ∃ s, Run.run step overdrawn
        (init .pcie (fun _ => true) firstTids firstTids_nodup false false) = .ok s ∧
      s.active = true ∧ s.spCnt .legacy = 0 ∧
      limits (s.shares 2 .legacy) = [0, -1, 0, 0, 0, 0, 3, 0, 0] ∧ ¬s.Served 2 .legacy := by
  have outcome : (Run.run step overdrawn
      (init .pcie (fun _ => true) firstTids firstTids_nodup false false)).toOption.map (fun s =>
        (s.active, s.spCnt .legacy, limits (s.shares 2 .legacy))) =
          some (true, 0, [0, -1, 0, 0, 0, 0, 3, 0, 0]) := by
    decide +kernel
  obtain ⟨s, ran, ends⟩ := Run.ends_of_toOption outcome
  simp only [Prod.mk.injEq] at ends
  obtain ⟨active, free, shared⟩ := ends
  refine ⟨s, ran, active, free, shared, fun served => ?_⟩
  have negative : -1 ∈ limits (s.shares 2 .legacy) := by
    rw [shared]
    decide
  obtain ⟨e, member, same⟩ := List.mem_map.mp negative
  have bound := (served.bounds e member).1
  omega

end PowerSave

end AmlW2.Tx
