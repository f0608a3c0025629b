import AmlW2.Lib.Slots
import Mathlib.Data.List.FinRange

/-!
# MU groups and their users

The driver keeps who is in which group twice: a group has a table of its users, and a station has a
bitmap of its groups.  Three counters go with them.  This file is the data of `aml_mu_group.h`, with
the stations of the interfaces, and what it means that the two agree.
-/

namespace AmlW2.Mu

/-- `CONFIG_USER_MAX`, with MU-MIMO. -/
abbrev configUserMax : Nat := 2

/-- `NX_MU_GROUP_MAX`. -/
abbrev nxMuGroupMax : Nat := 62

/-- The entry of a group in `mu->groups`; its `group_id` is one more, and 0 is no group. -/
abbrev GroupIdx := Fin nxMuGroupMax

abbrev UserIdx := Fin configUserMax

/-- The address of a `struct aml_sta`. -/
abbrev Sta := Nat

/-- `BIT_ULL(group_id)`. -/
def bitUll (g : GroupIdx) : BitVec 64 := BitVec.twoPow 64 (g.val + 1)

/-- `AML_SU_GROUP`. -/
def suGroup : BitVec 64 := 1#64

/-- `struct aml_sta_group_info`; its two list nodes are told by the lists. -/
structure StaGroupInfo where
  lastUpdate : UInt16
  cnt : Int
  map : BitVec 64
  traffic : Int
  group : Option GroupIdx

/-- The groups of a bitmap in the order of `group_sta_for_each`, from the last one to the first. -/
def groupIds (map : BitVec 64) : List GroupIdx :=
  (List.finRange nxMuGroupMax).reverse.filter fun g => map.getLsbD (g.val + 1)

/-- Which groups a station has in its bitmap. -/
def StaGroupInfo.bits (i : StaGroupInfo) (g : GroupIdx) : Bool := i.map.getLsbD (g.val + 1)

/-- `aml_mu_group_sta_init`, with whether the capabilities are there and name a MU beamformee. -/
def muGroupStaInit (beamformee : Bool) : StaGroupInfo where
  lastUpdate := 0
  cnt := 0
  map := if beamformee then 0#64 else suGroup
  traffic := 0
  group := none

/-- `struct aml_mu_group`. -/
structure MuGroup where
  userCnt : Int
  users : Slots UserIdx Sta

/-- A table without users. -/
def noUsers : Slots UserIdx Sta := fun _ => none

/-- An interface, and its list of stations. -/
structure Vif where
  /-- `AML_VIF_TYPE(vif) == NL80211_IFTYPE_AP`. -/
  ap : Bool
  staList : List Sta

/-- `active_groups`, which holds every group. -/
structure GroupList where
  ids : List GroupIdx
  ids_ne_nil : ids ≠ []

/-- `aml_mu_group_move_head`. -/
def moveHead {α : Type} [DecidableEq α] (list : List α) (elem : α) : List α :=
  elem :: list.erase elem

def GroupList.moveHead (list : GroupList) (g : GroupIdx) : GroupList :=
  ⟨Mu.moveHead list.ids g, List.cons_ne_nil g _⟩

/-- `list_last_entry`. -/
def GroupList.last (list : GroupList) : GroupIdx := list.ids.getLast list.ids_ne_nil

/-- `struct aml_mu_info`, the stations and the interfaces.  The last three fields tell of the
selections made so far and are not in the source. -/
structure MuInfo where
  activeGroups : GroupList
  activeSta : List Sta
  updateSta : List Sta
  groups : GroupIdx → MuGroup
  updateCount : UInt16
  groupCnt : UInt8
  info : Sta → StaGroupInfo
  vifs : List Vif
  /-- The stations whose traffic counted in the last selection. -/
  counted : List Sta
  /-- The most entries of `order` that a selection has written. -/
  written : Nat
  /-- The sorts of all selections have ended. -/
  sorted : Bool

/-- A station is in the list of an access point. -/
def MuInfo.Present (mu : MuInfo) (sta : Sta) : Prop := ∃ vif ∈ mu.vifs, vif.ap ∧ sta ∈ vif.staList

/-- The tables, the bitmaps and the counters agree, and a station is assigned to no group or to one
of its own that has two active users. -/
structure Consistent (mu : MuInfo) : Prop where
  map : ∀ sta g, (mu.info sta).bits g = true ↔ (mu.groups g).users.Holds sta
  cnt : ∀ sta, (mu.info sta).cnt = census (mu.info sta).bits (· = true)
  userCnt : ∀ g, (mu.groups g).userCnt = (mu.groups g).users.used
  pair : ∀ g, (mu.groups g).userCnt = 0 ∨ 2 ≤ (mu.groups g).userCnt
  groupCnt : mu.groupCnt.toNat = census mu.groups fun group => 0 < group.users.used
  assigned : ∀ sta g, (mu.info sta).group = some g → (mu.groups g).users.Holds sta ∧
    ∃ a b, a ≠ b ∧ (mu.groups g).users.Holds a ∧ (mu.groups g).users.Holds b ∧
      a ∈ mu.counted ∧ b ∈ mu.counted
  order : mu.written ≤ nxMuGroupMax + 1
  sorted : mu.sorted = true

/-! ## One group of one station -/

/-- The station leaves the group. -/
def StaGroupInfo.leave (g : GroupIdx) (i : StaGroupInfo) : StaGroupInfo :=
  { i with cnt := i.cnt - 1, map := i.map &&& ~~~bitUll g }

/-- The station joins the group. -/
def StaGroupInfo.join (g : GroupIdx) (i : StaGroupInfo) : StaGroupInfo :=
  { i with cnt := i.cnt + 1, map := i.map ||| bitUll g }

variable {g : GroupIdx} {i : StaGroupInfo}

theorem mem_groupIds {map : BitVec 64} : g ∈ groupIds map ↔ map.getLsbD (g.val + 1) = true := by
  simp [groupIds]

theorem nodup_groupIds (map : BitVec 64) : (groupIds map).Nodup :=
  (List.nodup_reverse.mpr (List.nodup_finRange _)).filter _

theorem groupId_lt (g : GroupIdx) : g.val + 1 < 64 :=
  Nat.lt_of_lt_of_le (Nat.succ_lt_succ g.isLt) (by decide)

theorem getLsbD_bitUll (g g' : GroupIdx) : (bitUll g).getLsbD (g'.val + 1) = decide (g = g') := by
  rw [bitUll, BitVec.getLsbD_twoPow, decide_eq_true (groupId_lt g), Bool.true_and]
  simp [Fin.ext_iff]

theorem bits_leave : (i.leave g).bits = Function.update i.bits g false := by
  funext g'
  rw [StaGroupInfo.bits, StaGroupInfo.leave, BitVec.getLsbD_and, BitVec.getLsbD_not,
    getLsbD_bitUll, decide_eq_true (groupId_lt g'), Bool.true_and]
  rcases eq_or_ne g' g with rfl | other
  · simp
  · simp [other.symm, Function.update_of_ne other, StaGroupInfo.bits]

theorem bits_join : (i.join g).bits = Function.update i.bits g true := by
  funext g'
  rw [StaGroupInfo.bits, StaGroupInfo.join, BitVec.getLsbD_or, getLsbD_bitUll]
  rcases eq_or_ne g' g with rfl | other
  · simp
  · simp [other.symm, Function.update_of_ne other, StaGroupInfo.bits]

theorem used_noUsers : noUsers.used = 0 := Slots.used_empty fun _ => rfl

theorem not_holds_noUsers (sta : Sta) : ¬noUsers.Holds sta :=
  fun ⟨_, held⟩ => Option.some_ne_none sta held.symm

theorem distinct_noUsers : noUsers.Distinct :=
  fun _ _ sta held => absurd held.symm (Option.some_ne_none sta)

/-- The counter of a station is right. -/
def StaGroupInfo.Counts (i : StaGroupInfo) : Prop := i.cnt = census i.bits (· = true)

theorem StaGroupInfo.Counts.leave (counts : i.Counts) (member : i.bits g = true) :
    (i.leave g).Counts := by
  have change := census_update_leave (p := (· = true)) member Bool.false_ne_true
  rw [Counts, bits_leave, StaGroupInfo.leave]
  rw [Counts] at counts
  simp only
  omega

theorem StaGroupInfo.Counts.join (counts : i.Counts) (free : i.bits g = false) :
    (i.join g).Counts := by
  have before : ¬i.bits g = true := by rw [free]; exact Bool.false_ne_true
  have change := census_update_join (p := (· = true)) (a := true) before rfl
  rw [Counts, bits_join, StaGroupInfo.join]
  rw [Counts] at counts
  simp only
  omega

end AmlW2.Mu
