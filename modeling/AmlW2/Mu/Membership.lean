import AmlW2.Lib.Run
import AmlW2.Mu.Select

/-!
# Who is in which MU group

The work item makes groups of the active stations and recycles the groups that were used least, and
the deletion of a station empties the groups of two that it was in.  Here the deletion forgets the
user that is left, and this file shows that nothing else goes wrong: the runs in which tables,
bitmaps and counters agree throughout are those that delete no station with a group.
-/

namespace AmlW2.Mu

/-! ## Making groups -/

/-- The groups of a station change, and the firmware is to be told. -/
def regroup (f : StaGroupInfo → StaGroupInfo) (mu : MuInfo) (sta : Sta) : MuInfo :=
  { mu.setInfo sta (f (mu.info sta)) with updateSta := moveHead mu.updateSta sta }

/-- `aml_mu_group_remove_users`. -/
def removeUsers (g : GroupIdx) (mu : MuInfo) : MuInfo :=
  let mu' := (mu.groups g).staUsers.foldl (regroup (.leave g)) mu
  { mu' with
      groups := Function.update mu.groups g ⟨0, noUsers⟩
      groupCnt := if (mu.groups g).userCnt ≠ 0 then mu.groupCnt - 1 else mu.groupCnt }

/-- `aml_mu_group_add_users`. -/
def addUsers (g : GroupIdx) (users : List Sta) (mu : MuInfo) : MuInfo :=
  let filled := (mu.groups g).users.fill (List.finRange configUserMax) users
  let mu' := filled.2.foldl (regroup (.join g)) mu
  { mu' with
      groups := Function.update mu.groups g
        ⟨(mu.groups g).userCnt + filled.2.length, filled.1⟩
      groupCnt := if (mu.groups g).userCnt = 0 then mu.groupCnt + 1 else mu.groupCnt }

/-- `aml_mu_group_create_one`, with `nb_group_left`; a group that has all the users is found where
their bitmaps meet. -/
def createOne (first : Sta) (others : List Sta) (mu : MuInfo) (left : Int) : MuInfo × Int × Bool :=
  let groupMatch := others.foldl (fun m sta => m &&& (mu.info sta).map) (mu.info first).map
  if groupMatch ≠ 0 then
    ({ mu with activeGroups :=
        (groupIds groupMatch).head?.elim mu.activeGroups mu.activeGroups.moveHead }, left, false)
  else
    let g := mu.activeGroups.last
    let mu := addUsers g (first :: others) (removeUsers g mu)
    ({ mu with activeGroups := mu.activeGroups.moveHead g }, left - 1, true)

/-- `aml_mu_group_create`, on the stations behind `sta` in `active_sta`: with two users to a group,
each of them is tried with it. -/
def groupCreate (sta : Sta) : List Sta → MuInfo × Int → MuInfo × Int
  | [], s => s
  | user :: rest, s =>
      if s.2 = 0 then s
      else
        let made := createOne sta [user] s.1 s.2
        groupCreate sta rest (made.1, if made.2.2 then made.2.1 - 1 else made.2.1)

/-- The loop of the work item over `active_sta`. -/
def groupWorkLoop : List Sta → MuInfo × Int → MuInfo × Int
  | [], s => s
  | sta :: rest, s =>
      let s := if s.2 ≠ 0 then groupCreate sta rest s else s
      let mu := s.1.setInfo sta { s.1.info sta with lastUpdate := s.1.updateCount }
      groupWorkLoop rest ({ mu with activeSta := mu.activeSta.erase sta }, s.2)

/-- `aml_mu_group_work`, when it gets the lock; `update_sta` is empty when the messages are sent. -/
def groupWork (mu : MuInfo) : MuInfo :=
  let updateCount := if mu.updateCount + 1 = 0 then mu.updateCount + 2 else mu.updateCount + 1
  let s := groupWorkLoop mu.activeSta ({ mu with updateCount := updateCount }, nxMuGroupMax)
  groupStaSelect true { s.1 with updateSta := [] }

/-- `aml_mu_set_active_sta`. -/
def setActiveSta (sta : Sta) (traffic : Int) (mu : MuInfo) : MuInfo :=
  if (mu.info sta).map &&& suGroup ≠ 0 then mu
  else
    let i := mu.info sta
    let mu := mu.setInfo sta { i with traffic := addInt i.traffic traffic }
    if i.lastUpdate ≠ mu.updateCount ∨ mu.activeSta ≠ [] then
      { mu with activeSta := moveHead mu.activeSta sta }
    else mu

/-! ## Stations that come and go -/

/-- The user that is left is dropped from the counters, not from the table. -/
def forsake (g : GroupIdx) (mu : MuInfo) (partner : Sta) : MuInfo :=
  let i := (mu.info partner).leave g
  mu.setInfo partner { i with group := if i.group = some g then none else i.group }

/-- The loop of `aml_mu_group_sta_del`, for a group. -/
def groupStaDelOne (sta : Sta) (mu : MuInfo) (g : GroupIdx) : MuInfo :=
  let group := mu.groups g
  match (List.finRange configUserMax).find? fun i => group.users i = some sta with
  | none => mu
  | some i =>
      let users := group.users.vacate i
      if group.userCnt - 1 = 1 then
        match (List.finRange configUserMax).findSome? users with
        | none =>
            { mu with
                groups := Function.update mu.groups g ⟨group.userCnt - 1, users⟩
                groupCnt := mu.groupCnt - 1 }
        | some partner =>
            { forsake g mu partner with
                groups := Function.update mu.groups g ⟨group.userCnt - 1 - 1, users⟩
                groupCnt := mu.groupCnt - 1 }
      else { mu with groups := Function.update mu.groups g ⟨group.userCnt - 1, users⟩ }

/-- `aml_mu_group_sta_del`. -/
def groupStaDel (sta : Sta) (mu : MuInfo) : MuInfo :=
  let mu := (groupIds (mu.info sta).map).foldl (groupStaDelOne sta) mu
  let mu := mu.setInfo sta { mu.info sta with map := 0#64, cnt := 0, traffic := 0 }
  { mu with activeSta := mu.activeSta.erase sta, updateSta := mu.updateSta.erase sta }

/-- The station leaves the list of its interface. -/
def Vif.remove (sta : Sta) (vif : Vif) : Vif := { vif with staList := vif.staList.erase sta }

/-- The part of `aml_cfg80211_del_station` that is about groups. -/
def delStation (sta : Sta) (mu : MuInfo) : MuInfo :=
  let mu := groupStaDel sta mu
  { mu with vifs := mu.vifs.map (Vif.remove sta) }

/-- The part of `aml_cfg80211_add_station` that is about groups. -/
def addStation (vifIdx : Nat) (sta : Sta) (beamformee : Bool) (mu : MuInfo) : MuInfo :=
  { mu.setInfo sta (muGroupStaInit beamformee) with
      vifs := mu.vifs.modify vifIdx fun vif => { vif with staList := vif.staList ++ [sta] } }

/-- What is called. -/
inductive Event
  | setActiveSta (sta : Sta) (traffic : Int)
  | groupWork
  | groupStaSelect (due : Bool)
  | addStation (vifIdx : Nat) (sta : Sta) (beamformee : Bool)
  | delStation (sta : Sta)

/-- Why a call is none that the driver makes. -/
inductive Fault
  | absent
  | notAp
  deriving DecidableEq

instance (mu : MuInfo) (sta : Sta) : Decidable (mu.Present sta) :=
  inferInstanceAs (Decidable (∃ vif ∈ mu.vifs, vif.ap ∧ sta ∈ vif.staList))

/-- A call; traffic and deletions are of stations that are there, and a station that comes is new to
the access points. -/
def step (mu : MuInfo) : Event → Except Fault MuInfo
  | .setActiveSta sta traffic =>
      if mu.Present sta then .ok (setActiveSta sta traffic mu) else .error .absent
  | .groupWork => .ok (groupWork mu)
  | .groupStaSelect due => .ok (groupStaSelect due mu)
  | .addStation vifIdx sta beamformee =>
      if mu.vifs[vifIdx]?.any Vif.ap ∧ ¬mu.Present sta then
        .ok (addStation vifIdx sta beamformee mu)
      else .error .notAp
  | .delStation sta => if mu.Present sta then .ok (delStation sta mu) else .error .absent

/-- `aml_mu_group_init`, with interfaces that have no station yet. -/
def muGroupInit (aps : List Bool) : MuInfo where
  activeGroups := ⟨(List.finRange nxMuGroupMax).reverse, by simp⟩
  activeSta := []
  updateSta := []
  groups _ := ⟨0, noUsers⟩
  updateCount := 1
  groupCnt := 0
  info _ := ⟨0, 0, 0#64, 0, none⟩
  vifs := aps.map fun ap => ⟨ap, []⟩
  counted := []
  written := 0
  sorted := true

/-- No station is deleted that has a group. -/
def Spares (mu : MuInfo) : Event → Prop
  | .delStation sta => groupIds (mu.info sta).map = []
  | _ => True

/-! ## What holds of every state -/

/-- What the tables, the bitmaps and the counters tell, whatever the assignments are. -/
structure Core (mu : MuInfo) : Prop where
  map : ∀ sta g, (mu.info sta).bits g = true ↔ (mu.groups g).users.Holds sta
  cnt : ∀ sta, (mu.info sta).Counts
  userCnt : ∀ g, (mu.groups g).userCnt = (mu.groups g).users.used
  pair : ∀ g, (mu.groups g).userCnt = 0 ∨ 2 ≤ (mu.groups g).userCnt
  groupCnt : mu.groupCnt.toNat = census mu.groups fun group => 0 < group.users.used
  distinct : ∀ g, (mu.groups g).users.Distinct
  present : ∀ g sta, (mu.groups g).users.Holds sta → mu.Present sta
  active : ∀ sta ∈ mu.activeSta, mu.Present sta
  active_nodup : mu.activeSta.Nodup
  apart : (apStations mu.vifs).Nodup
  grouped : ∀ sta, (mu.info sta).group ≠ none → mu.Present sta
  written : mu.written ≤ nxMuGroupMax + 1
  sorted : mu.sorted = true

/-- The assignments are those of the last selection. -/
def Settled (mu : MuInfo) : Prop :=
  ∀ sta g, (mu.info sta).group = some g →
    (mu.groups g).users.Holds sta ∧ mu.HasPair mu.counted g

theorem Core.consistent {mu : MuInfo} (core : Core mu) (settled : Settled mu) : Consistent mu :=
  ⟨core.map, core.cnt, core.userCnt, core.pair, core.groupCnt, settled, core.written, core.sorted⟩

variable {mu : MuInfo} {g : GroupIdx}

theorem foldl_regroup (f : StaGroupInfo → StaGroupInfo) {stas : List Sta} (nodup : stas.Nodup)
    (mu : MuInfo) :
    stas.foldl (regroup f) mu =
      { mu with
          info := fun sta => if sta ∈ stas then f (mu.info sta) else mu.info sta
          updateSta := stas.foldl moveHead mu.updateSta } := by
  induction stas generalizing mu with
  | nil => simp
  | cons sta stas induction =>
      obtain ⟨fresh, nodup⟩ := List.nodup_cons.mp nodup
      rw [List.foldl_cons, induction nodup, regroup]
      congr 1
      funext sta'
      rcases eq_or_ne sta' sta with rfl | other
      · simp [fresh, MuInfo.setInfo]
      · simp [other, MuInfo.setInfo]

theorem forall_update {P : MuGroup → Prop} {group : MuGroup} (all : ∀ g, P (mu.groups g))
    (new : P group) (g' : GroupIdx) : P (Function.update mu.groups g group g') := by
  rcases eq_or_ne g' g with rfl | other
  · rwa [Function.update_self]
  · rw [Function.update_of_ne other]
    exact all g'

/-- One group changes, and the stations and the counter of groups with it. -/
theorem core_update (core : Core mu) (g : GroupIdx) (cnt : Int) (users : Slots UserIdx Sta)
    {info : Sta → StaGroupInfo} {groupCnt : UInt8} (activeGroups : GroupList)
    (updateSta : List Sta) (used : cnt = users.used) (pair : cnt = 0 ∨ 2 ≤ cnt)
    (distinct : users.Distinct) (present : ∀ sta, users.Holds sta → mu.Present sta)
    (bits : ∀ sta, (info sta).bits = Function.update (mu.info sta).bits g ((info sta).bits g))
    (here : ∀ sta, (info sta).bits g = true ↔ users.Holds sta)
    (counts : ∀ sta, (info sta).Counts) (group : ∀ sta, (info sta).group = (mu.info sta).group)
    (total : groupCnt.toNat = census (Function.update mu.groups g ⟨cnt, users⟩)
      fun group => 0 < group.users.used) :
    Core { mu with
      activeGroups := activeGroups
      updateSta := updateSta
      groups := Function.update mu.groups g ⟨cnt, users⟩
      groupCnt := groupCnt
      info := info } where
  map sta g' := by
    rcases eq_or_ne g' g with rfl | other
    · simp only [Function.update_self]
      exact here sta
    · simp only [Function.update_of_ne other]
      rw [bits, Function.update_of_ne other]
      exact core.map sta g'
  cnt := counts
  userCnt := forall_update (P := fun group => group.userCnt = group.users.used) core.userCnt used
  pair := forall_update (P := fun group => group.userCnt = 0 ∨ 2 ≤ group.userCnt) core.pair pair
  groupCnt := total
  distinct := forall_update (P := fun group => group.users.Distinct) core.distinct distinct
  present := forall_update (P := fun group => ∀ sta, group.users.Holds sta → mu.Present sta)
    core.present present
  active := core.active
  active_nodup := core.active_nodup
  apart := core.apart
  grouped sta := by
    simp only [group]
    exact core.grouped sta
  written := core.written
  sorted := core.sorted

theorem nodup_staUsers {group : MuGroup} (distinct : group.users.Distinct) :
    group.staUsers.Nodup := by
  refine (List.nodup_finRange _).filterMap ?_
  intro i i' sta first second
  exact distinct i i' sta first second

theorem toNat_pred {c : UInt8} {n : Nat} (count : c.toNat = n + 1) : (c - 1).toNat = n := by
  have one : (1 : UInt8) ≤ c := UInt8.le_iff_toNat_le.mpr (by rw [count]; exact Nat.le_add_left 1 n)
  rw [UInt8.toNat_sub_of_le _ _ one, count]
  rfl

theorem toNat_succ {c : UInt8} (small : c.toNat < nxMuGroupMax) : (c + 1).toNat = c.toNat + 1 := by
  have room : nxMuGroupMax < 2 ^ 8 := by decide
  rw [UInt8.toNat_add, UInt8.toNat_one]
  exact Nat.mod_eq_of_lt (by omega)

/-- A group is recycled. -/
theorem removeUsers_core (core : Core mu) (g : GroupIdx) : Core (removeUsers g mu) := by
  have member (sta : Sta) : sta ∈ (mu.groups g).staUsers ↔ (mu.info sta).bits g = true := by
    rw [mem_staUsers, core.map]
  rw [removeUsers, foldl_regroup _ (nodup_staUsers (core.distinct g))]
  apply core_update core g 0 noUsers _ _ (by rw [used_noUsers]; rfl)
    (Or.inl rfl) distinct_noUsers (fun sta held =>
      absurd held (not_holds_noUsers sta))
  · intro sta
    dsimp only
    split
    · rw [bits_leave, Function.update_self]
    · rw [Function.update_eq_self]
  · intro sta
    refine iff_of_false ?_ (not_holds_noUsers sta)
    dsimp only
    split
    · rw [bits_leave, Function.update_self]
      exact Bool.false_ne_true
    · rename_i missing
      exact mt (member sta).mpr missing
  · intro sta
    dsimp only
    split
    · rename_i here
      exact (core.cnt sta).leave ((member sta).mp here)
    · exact core.cnt sta
  · intro sta
    dsimp only
    split
    · rfl
    · rfl
  · have used := core.userCnt g
    have after : ¬0 < noUsers.used := by rw [used_noUsers]; exact Nat.lt_irrefl 0
    by_cases empty : (mu.groups g).userCnt = 0
    · have before : ¬0 < (mu.groups g).users.used := by omega
      have kept : census (Function.update mu.groups g ⟨0, noUsers⟩)
          (fun group => 0 < group.users.used) =
            census mu.groups fun group => 0 < group.users.used :=
        census_update_keep (iff_of_false after before)
      rw [if_neg (not_not.mpr empty), kept, core.groupCnt]
    · have before : 0 < (mu.groups g).users.used := by omega
      have lost : census (Function.update mu.groups g ⟨0, noUsers⟩)
          (fun group => 0 < group.users.used) + 1 =
            census mu.groups fun group => 0 < group.users.used :=
        census_update_leave before after
      rw [if_pos empty]
      exact toNat_pred (core.groupCnt.trans lost.symm)

theorem removeUsers_group (g : GroupIdx) (mu : MuInfo) :
    (removeUsers g mu).groups g = ⟨0, noUsers⟩ := Function.update_self _ _ _

/-- Where a group is empty, the counter of groups has room. -/
theorem groupCnt_lt (core : Core mu) (empty : mu.groups g = ⟨0, noUsers⟩) :
    mu.groupCnt.toNat < nxMuGroupMax := by
  have before : ¬0 < (mu.groups g).users.used := by
    rw [empty, used_noUsers]
    exact Nat.lt_irrefl 0
  rw [core.groupCnt]
  exact Nat.lt_of_lt_of_eq (census_lt before) (Fintype.card_fin _)

/-- An empty group gets two users. -/
theorem addUsers_core (core : Core mu) (empty : mu.groups g = ⟨0, noUsers⟩) {a b : Sta}
    (ne : a ≠ b) (a_present : mu.Present a) (b_present : mu.Present b) :
    Core (addUsers g [a, b] mu) := by
  have nodup : [a, b].Nodup := by simp [ne]
  have all : (noUsers.fill (List.finRange configUserMax) [a, b]).2 = [a, b] :=
    Slots.fill_all (List.nodup_finRange _) (fun _ _ => rfl) (by simp)
  obtain ⟨held, count⟩ := Slots.fill_spec (List.finRange configUserMax) noUsers [a, b]
  rw [all, used_noUsers] at count
  have holds (sta : Sta) :
      (noUsers.fill (List.finRange configUserMax) [a, b]).1.Holds sta ↔ sta ∈ [a, b] := by
    rw [held, all]
    exact or_iff_right (not_holds_noUsers sta)
  have free (sta : Sta) : (mu.info sta).bits g = false := by
    rw [← Bool.not_eq_true, core.map, empty]
    exact not_holds_noUsers sta
  have distinct : (noUsers.fill (List.finRange configUserMax) [a, b]).1.Distinct :=
    distinct_noUsers.fill nodup fun _ _ _ => (Option.some_ne_none _).symm
  rw [addUsers, empty]
  dsimp only
  generalize noUsers.fill (List.finRange configUserMax) [a, b] = filled at *
  rw [all, foldl_regroup _ nodup]
  apply core_update core g _ _ _ _ (by rw [count]; rfl) (Or.inr (Int.le_refl 2)) distinct
  · intro sta held
    rw [holds, List.mem_pair] at held
    obtain rfl | rfl := held
    · exact a_present
    · exact b_present
  · intro sta
    dsimp only
    split
    · rw [bits_join, Function.update_self]
    · rw [Function.update_eq_self]
  · intro sta
    dsimp only
    rw [holds]
    split
    · rename_i here
      exact iff_of_true (by rw [bits_join, Function.update_self]) here
    · rename_i missing
      exact iff_of_false (by rw [free]; exact Bool.false_ne_true) missing
  · intro sta
    dsimp only
    split
    · exact (core.cnt sta).join (free sta)
    · exact core.cnt sta
  · intro sta
    dsimp only
    split
    · rfl
    · rfl
  · have before : ¬0 < (mu.groups g).users.used := by
      rw [empty, used_noUsers]
      exact Nat.lt_irrefl 0
    have after : 0 < filled.1.used := by
      rw [count]
      exact Nat.zero_lt_succ 1
    have gained : census (Function.update mu.groups g ⟨2, filled.1⟩)
        (fun group => 0 < group.users.used) =
          (census mu.groups fun group => 0 < group.users.used) + 1 :=
      census_update_join before after
    rw [if_pos rfl, toNat_succ (groupCnt_lt core empty), core.groupCnt]
    exact gained.symm

/-- Without groups, no station is assigned to one. -/
def Quiet (mu : MuInfo) : Prop := mu.groupCnt = 0 → ∀ sta, (mu.info sta).group = none

/-- What making groups keeps. -/
structure Making (vifs : List Vif) (activeSta : List Sta) (mu : MuInfo) : Prop where
  core : Core mu
  quiet : Quiet mu
  vifs : mu.vifs = vifs
  activeSta : mu.activeSta = activeSta

theorem foldl_regroup_lists (f : StaGroupInfo → StaGroupInfo) (stas : List Sta) (mu : MuInfo) :
    (stas.foldl (regroup f) mu).vifs = mu.vifs ∧
      (stas.foldl (regroup f) mu).activeSta = mu.activeSta := by
  induction stas generalizing mu with
  | nil => exact ⟨rfl, rfl⟩
  | cons sta stas induction => exact induction (regroup f mu sta)

theorem removeUsers_lists (g : GroupIdx) (mu : MuInfo) :
    (removeUsers g mu).vifs = mu.vifs ∧ (removeUsers g mu).activeSta = mu.activeSta :=
  foldl_regroup_lists _ _ mu

theorem addUsers_lists (g : GroupIdx) (users : List Sta) (mu : MuInfo) :
    (addUsers g users mu).vifs = mu.vifs ∧ (addUsers g users mu).activeSta = mu.activeSta :=
  foldl_regroup_lists _ _ mu

theorem addUsers_groupCnt (core : Core mu) (empty : mu.groups g = ⟨0, noUsers⟩)
    (users : List Sta) : (addUsers g users mu).groupCnt ≠ 0 := by
  intro zero
  have one := toNat_succ (groupCnt_lt core empty)
  rw [addUsers, empty] at zero
  rw [show mu.groupCnt + 1 = 0 from zero] at one
  exact Nat.succ_ne_zero _ one.symm

variable {vifs : List Vif} {activeSta : List Sta} {sta : Sta}

theorem Core.withActiveGroups (core : Core mu) (list : GroupList) :
    Core { mu with activeGroups := list } :=
  ⟨core.map, core.cnt, core.userCnt, core.pair, core.groupCnt, core.distinct, core.present,
    core.active, core.active_nodup, core.apart, core.grouped, core.written, core.sorted⟩

theorem createOne_making (making : Making vifs activeSta mu) {user : Sta} (ne : sta ≠ user)
    (sta_present : mu.Present sta) (user_present : mu.Present user) (left : Int) :
    Making vifs activeSta (createOne sta [user] mu left).1 := by
  rw [createOne]
  split
  · exact ⟨making.core.withActiveGroups _, making.quiet, making.vifs, making.activeSta⟩
  · have removed := removeUsers_core making.core mu.activeGroups.last
    have empty := removeUsers_group mu.activeGroups.last mu
    have lists := removeUsers_lists mu.activeGroups.last mu
    have same {sta' : Sta} (there : mu.Present sta') :
        (removeUsers mu.activeGroups.last mu).Present sta' := by
      rwa [MuInfo.Present, lists.1]
    have added := addUsers_core removed empty ne (same sta_present) (same user_present)
    have lists' := addUsers_lists mu.activeGroups.last [sta, user]
      (removeUsers mu.activeGroups.last mu)
    refine ⟨added.withActiveGroups _, fun zero => ?_, ?_, ?_⟩
    · exact absurd zero (addUsers_groupCnt removed empty [sta, user])
    · exact lists'.1.trans (lists.1.trans making.vifs)
    · exact lists'.2.trans (lists.2.trans making.activeSta)

theorem groupCreate_making {rest : List Sta} {s : MuInfo × Int}
    (making : Making vifs activeSta s.1) (fresh : sta ∉ rest) (sta_present : s.1.Present sta)
    (present : ∀ user ∈ rest, s.1.Present user) :
    Making vifs activeSta (groupCreate sta rest s).1 := by
  induction rest generalizing s with
  | nil => exact making
  | cons user rest induction =>
      rw [groupCreate]
      split
      · exact making
      · have ne : sta ≠ user := fun same => fresh (same ▸ List.mem_cons_self)
        have next := createOne_making making ne sta_present (present user List.mem_cons_self) s.2
        have same {sta' : Sta} (there : s.1.Present sta') :
            (createOne sta [user] s.1 s.2).1.Present sta' := by
          rwa [MuInfo.Present, next.vifs, ← making.vifs]
        exact induction next (fun member => fresh (List.mem_cons_of_mem user member))
          (same sta_present) fun user' member =>
            same (present user' (List.mem_cons_of_mem _ member))

/-- Nothing changes but traffic, assignments and what a selection tells. -/
theorem Frame.core {mu' : MuInfo} (frame : Frame mu mu') (core : Core mu)
    (grouped : ∀ sta, (mu'.info sta).group ≠ none → mu.Present sta)
    (written : mu'.written ≤ nxMuGroupMax + 1) (sorted : mu'.sorted = true) : Core mu' := by
  have present (sta : Sta) (there : mu.Present sta) : mu'.Present sta := by
    rwa [MuInfo.Present, frame.vifs]
  refine ⟨fun sta g => ?_, fun sta => ?_, ?_, ?_, ?_, ?_, fun g sta held => ?_, ?_, ?_, ?_, ?_,
    written, sorted⟩
  · rw [frame.bits, frame.groups]
    exact core.map sta g
  · rw [StaGroupInfo.Counts, frame.bits, frame.cnt]
    exact core.cnt sta
  · rw [frame.groups]
    exact core.userCnt
  · rw [frame.groups]
    exact core.pair
  · rw [frame.groups, frame.groupCnt]
    exact core.groupCnt
  · rw [frame.groups]
    exact core.distinct
  · rw [frame.groups] at held
    exact present sta (core.present g sta held)
  · rw [frame.activeSta]
    exact fun sta member => present sta (core.active sta member)
  · rw [frame.activeSta]
    exact core.active_nodup
  · rw [frame.vifs]
    exact core.apart
  · exact fun sta some => present sta (grouped sta some)

theorem Core.withActiveSta (core : Core mu) {stas : List Sta}
    (present : ∀ sta ∈ stas, mu.Present sta) (nodup : stas.Nodup) :
    Core { mu with activeSta := stas } :=
  ⟨core.map, core.cnt, core.userCnt, core.pair, core.groupCnt, core.distinct, core.present,
    present, nodup, core.apart, core.grouped, core.written, core.sorted⟩

theorem group_setInfo (mu : MuInfo) (sta : Sta) {i : StaGroupInfo}
    (same : i.group = (mu.info sta).group) (sta' : Sta) :
    ((mu.setInfo sta i).info sta').group = (mu.info sta').group := by
  rcases eq_or_ne sta' sta with rfl | other
  · rw [setInfo_self, same]
  · rw [setInfo_of_ne other]

theorem groupWorkLoop_making {stas : List Sta} {s : MuInfo × Int} (making : Making vifs stas s.1) :
    Making vifs [] (groupWorkLoop stas s).1 := by
  induction stas generalizing s with
  | nil => exact making
  | cons sta rest induction =>
      rw [groupWorkLoop]
      have nodup := making.core.active_nodup
      have present := making.core.active
      rw [making.activeSta] at nodup present
      obtain ⟨fresh, nodup⟩ := List.nodup_cons.mp nodup
      have made : Making vifs (sta :: rest) (if s.2 ≠ 0 then groupCreate sta rest s else s).1 := by
        split
        · exact groupCreate_making making fresh (present sta List.mem_cons_self)
            fun user member => present user (List.mem_cons_of_mem sta member)
        · exact making
      generalize (if s.2 ≠ 0 then groupCreate sta rest s else s) = s' at made
      apply induction
      have frame : Frame s'.1
          (s'.1.setInfo sta { s'.1.info sta with lastUpdate := s'.1.updateCount }) :=
        setInfo_frame rfl rfl
      have group := group_setInfo s'.1 sta
        (i := { s'.1.info sta with lastUpdate := s'.1.updateCount }) rfl
      have core :=
          frame.core made.core (fun sta' some => made.core.grouped sta' (group sta' ▸ some))
        made.core.written made.core.sorted
      have active := made.core.active
      rw [made.activeSta] at active
      have erased : s'.1.activeSta.erase sta = rest := by
        rw [made.activeSta, List.erase_cons_head]
      refine ⟨?_, fun zero sta' => ?_, made.vifs, erased⟩
      · rw [show (s'.1.setInfo sta { s'.1.info sta with
          lastUpdate := s'.1.updateCount }).activeSta.erase sta = rest from erased]
        exact core.withActiveSta (fun sta' member => active sta' (List.mem_cons_of_mem _ member))
          nodup
      · exact (group sta').trans (made.quiet zero sta')

/-! ## One call -/

/-- What holds between two calls. -/
structure Settles (mu : MuInfo) : Prop where
  core : Core mu
  settled : Settled mu

theorem Settles.quiet (settles : Settles mu) : Quiet mu := by
  intro zero sta
  have none := settles.core.groupCnt
  rw [zero] at none
  cases assigned : (mu.info sta).group with
  | none => rfl
  | some g =>
      obtain ⟨held, -⟩ := settles.settled sta g assigned
      exact absurd (Slots.used_pos.mpr ⟨sta, held⟩) (census_eq_zero.mp none.symm g)

theorem groupStaSelect_settles {due : Bool} (core : Core mu)
    (before : Settled mu ∨ due = true ∧ Quiet mu) : Settles (groupStaSelect due mu) := by
  by_cases idle : mu.groupCnt = 0 ∨ due = false
  · rw [groupStaSelect, if_pos idle]
    refine ⟨core, ?_⟩
    obtain settled | ⟨rfl, quiet⟩ := before
    · exact settled
    · have zero : mu.groupCnt = 0 := idle.resolve_right (Bool.false_ne_true ·.symm)
      intro sta g assigned
      rw [quiet zero sta] at assigned
      cases assigned
  · obtain ⟨grouped, late⟩ := not_or.mp idle
    obtain rfl : due = true := Bool.not_eq_false due ▸ late
    obtain ⟨order, selecting⟩ :=
      groupStaSelect_selecting core.map core.apart core.written core.sorted grouped
    have of_absent {sta : Sta} (absent : ¬mu.Present sta) :
        ((groupStaSelect true mu).info sta).group = none := by
      refine (selecting.others sta (mt mem_apStations.mp absent)).trans ?_
      by_contra some
      exact absent (core.grouped sta some)
    refine ⟨selecting.frame.core core (fun sta some => ?_) selecting.written selecting.sorted,
      fun sta g assigned => ?_⟩
    · by_contra absent
      exact some (of_absent absent)
    · have there : mu.Present sta := by
        by_contra absent
        rw [of_absent absent] at assigned
        cases assigned
      obtain ⟨held, pair⟩ := selecting.assigned sta (mem_apStations.mpr there) g assigned
      rw [MuInfo.HasPair, selecting.frame.groups]
      exact ⟨held, pair⟩

theorem groupWork_settles (settles : Settles mu) : Settles (groupWork mu) := by
  have core := settles.core
  have start (count : UInt16) : Making mu.vifs mu.activeSta { mu with updateCount := count } :=
    ⟨⟨core.map, core.cnt, core.userCnt, core.pair, core.groupCnt, core.distinct, core.present,
      core.active, core.active_nodup, core.apart, core.grouped, core.written, core.sorted⟩,
      settles.quiet, rfl, rfl⟩
  have made := groupWorkLoop_making (s := (_, nxMuGroupMax)) (start
    (if mu.updateCount + 1 = 0 then mu.updateCount + 2 else mu.updateCount + 1))
  have done := made.core
  exact groupStaSelect_settles ⟨done.map, done.cnt, done.userCnt, done.pair, done.groupCnt,
    done.distinct, done.present, done.active, done.active_nodup, done.apart, done.grouped,
    done.written, done.sorted⟩ (Or.inr ⟨rfl, made.quiet⟩)

/-- The assignments stay when stations and groups do. -/
theorem Settled.congr {mu' : MuInfo} (settled : Settled mu) (groups : mu'.groups = mu.groups)
    (counted : mu'.counted = mu.counted)
    (group : ∀ sta, (mu'.info sta).group = (mu.info sta).group) : Settled mu' := by
  intro sta g assigned
  rw [group] at assigned
  rw [MuInfo.HasPair, groups, counted]
  exact settled sta g assigned

theorem Settles.setInfo (settles : Settles mu) (sta : Sta) {i : StaGroupInfo}
    (bits : i.bits = (mu.info sta).bits) (cnt : i.cnt = (mu.info sta).cnt)
    (group : i.group = (mu.info sta).group) : Settles (mu.setInfo sta i) := by
  have same := group_setInfo mu sta group
  refine ⟨(setInfo_frame bits cnt).core settles.core (fun sta' some => ?_) settles.core.written
    settles.core.sorted, settles.settled.congr rfl rfl same⟩
  rw [same] at some
  exact settles.core.grouped sta' some

theorem nodup_moveHead {stas : List Sta} (nodup : stas.Nodup) (sta : Sta) :
    (moveHead stas sta).Nodup :=
  List.nodup_cons.mpr ⟨nodup.not_mem_erase, nodup.erase sta⟩

theorem setActiveSta_settles (settles : Settles mu) (present : mu.Present sta) (traffic : Int) :
    Settles (setActiveSta sta traffic mu) := by
  rw [setActiveSta]
  split
  · exact settles
  · have counted := settles.setInfo sta
      (i := { mu.info sta with traffic := addInt (mu.info sta).traffic traffic }) rfl rfl rfl
    dsimp only
    split
    · refine ⟨counted.core.withActiveSta (fun sta' member => ?_)
        (nodup_moveHead settles.core.active_nodup sta), counted.settled⟩
      obtain rfl | member := List.mem_cons.mp member
      · exact present
      · exact settles.core.active sta' (List.mem_of_mem_erase member)
    · exact counted

/-- A station without groups counts none and is assigned to none. -/
theorem Settles.alone (settles : Settles mu) (none : ∀ g, (mu.info sta).bits g = false) :
    (mu.info sta).cnt = 0 ∧ (mu.info sta).group = Option.none := by
  have zero : census (mu.info sta).bits (· = true) = 0 :=
    census_eq_zero.mpr fun g => by simp [none g]
  refine ⟨(settles.core.cnt sta).trans (by rw [zero]; rfl), ?_⟩
  cases assigned : (mu.info sta).group with
  | none => rfl
  | some g =>
      have held := (settles.core.map sta g).mpr (settles.settled sta g assigned).1
      rw [none g] at held
      cases held

/-- The lists of the interfaces change, and every station with a group stays. -/
theorem Settles.withLists (settles : Settles mu) {stas update : List Sta} {vifs : List Vif}
    (nodup : stas.Nodup) (apart : (apStations vifs).Nodup)
    (active : ∀ sta ∈ stas, ∃ vif ∈ vifs, vif.ap ∧ sta ∈ vif.staList)
    (kept : ∀ sta, mu.Present sta → (∃ g, (mu.groups g).users.Holds sta) →
      ∃ vif ∈ vifs, vif.ap ∧ sta ∈ vif.staList) :
    Settles { mu with activeSta := stas, updateSta := update, vifs := vifs } := by
  have core := settles.core
  refine ⟨⟨core.map, core.cnt, core.userCnt, core.pair, core.groupCnt, core.distinct,
    fun g sta held => kept sta (core.present g sta held) ⟨g, held⟩, active, nodup, apart,
    fun sta some => ?_, core.written, core.sorted⟩, settles.settled⟩
  obtain ⟨g, assigned⟩ := Option.ne_none_iff_exists'.mp some
  exact kept sta (core.grouped sta some) ⟨g, (settles.settled sta g assigned).1⟩

theorem apStations_remove (sta : Sta) (vifs : List Vif) :
    (apStations (vifs.map (Vif.remove sta))).Sublist (apStations vifs) := by
  induction vifs with
  | nil => exact .refl _
  | cons vif vifs induction =>
      by_cases ap : vif.ap = true
      · have same : (vif.remove sta).ap = true := ap
        have both : ((vif.remove sta).staList ++ apStations (vifs.map (Vif.remove sta))).Sublist
            (vif.staList ++ apStations vifs) :=
          List.erase_sublist.append induction
        simpa [apStations, ap, same] using both
      · have same : ¬(vif.remove sta).ap = true := ap
        simpa [apStations, ap, same] using induction

/-- A station without groups goes. -/
theorem delStation_settles (settles : Settles mu) (spared : groupIds (mu.info sta).map = []) :
    Settles (delStation sta mu) := by
  have none (g : GroupIdx) : (mu.info sta).bits g = false := by
    rw [← Bool.not_eq_true, StaGroupInfo.bits, ← mem_groupIds, spared]
    exact List.not_mem_nil
  obtain ⟨cnt, -⟩ := settles.alone none
  have cleared := settles.setInfo sta
    (i := { mu.info sta with map := 0#64, cnt := 0, traffic := 0 })
    (by funext g; rw [none g, StaGroupInfo.bits]; exact BitVec.getLsbD_zero) cnt.symm rfl
  have stays (sta' : Sta) (present : mu.Present sta') (other : sta' ≠ sta) :
      ∃ vif ∈ mu.vifs.map (Vif.remove sta), vif.ap ∧ sta' ∈ vif.staList := by
    obtain ⟨vif, member, ap, listed⟩ := present
    exact ⟨vif.remove sta, List.mem_map_of_mem member, ap,
      (List.mem_erase_of_ne other).mpr listed⟩
  rw [delStation, groupStaDel, spared, List.foldl_nil]
  apply cleared.withLists (settles.core.active_nodup.erase sta)
    (settles.core.apart.sublist (apStations_remove sta mu.vifs))
  · intro sta' member
    exact stays sta' (settles.core.active sta' (List.mem_of_mem_erase member))
      fun same => settles.core.active_nodup.not_mem_erase (same ▸ member)
  · rintro sta' present ⟨g, held⟩
    refine stays sta' present fun same => ?_
    have set := (settles.core.map sta' g).mpr held
    rw [same, none g] at set
    cases set

theorem apStations_modify {vifs : List Vif} {vifIdx : Nat}
    (ap : (vifs[vifIdx]?).any Vif.ap = true) (sta : Sta) :
    ∃ front back, apStations vifs = front ++ back ∧
      apStations (vifs.modify vifIdx fun vif => { vif with staList := vif.staList ++ [sta] }) =
        front ++ sta :: back := by
  induction vifs generalizing vifIdx with
  | nil => cases ap
  | cons vif vifs induction =>
      cases vifIdx with
      | zero =>
          have ap : vif.ap = true := ap
          exact ⟨vif.staList, apStations vifs, by simp [apStations, ap], by simp [apStations, ap]⟩
      | succ vifIdx =>
          obtain ⟨front, back, split, after⟩ := induction ap
          by_cases first : vif.ap = true
          · refine ⟨vif.staList ++ front, back, ?_, ?_⟩
            · simpa [apStations, first] using split
            · simpa [apStations, first] using after
          · refine ⟨front, back, ?_, ?_⟩
            · simpa [apStations, first] using split
            · simpa [apStations, first] using after

/-- A new station comes. -/
theorem addStation_settles (settles : Settles mu) (absent : ¬mu.Present sta) {vifIdx : Nat}
    (ap : (mu.vifs[vifIdx]?).any Vif.ap = true) (beamformee : Bool) :
    Settles (addStation vifIdx sta beamformee mu) := by
  have none (g : GroupIdx) : (mu.info sta).bits g = false := by
    rw [← Bool.not_eq_true, settles.core.map]
    exact fun held => absent (settles.core.present g sta held)
  obtain ⟨cnt, group⟩ := settles.alone none
  have fresh (g : GroupIdx) : (muGroupStaInit beamformee).bits g = false := by
    cases beamformee with
    | true => exact BitVec.getLsbD_zero
    | false => simp [StaGroupInfo.bits, muGroupStaInit, suGroup]
  have cleared := settles.setInfo sta (i := muGroupStaInit beamformee)
    (funext fun g => (fresh g).trans (none g).symm) cnt.symm group.symm
  obtain ⟨front, back, split, after⟩ := apStations_modify ap sta
  have stays (sta' : Sta) (present : mu.Present sta') :
      ({ mu with vifs := mu.vifs.modify vifIdx fun vif =>
        { vif with staList := vif.staList ++ [sta] } } : MuInfo).Present sta' := by
    rw [← mem_apStations, split] at present
    rw [← mem_apStations, after]
    exact List.mem_append.mpr
      ((List.mem_append.mp present).imp_right (List.mem_cons_of_mem sta))
  refine cleared.withLists settles.core.active_nodup ?_
    (fun sta' member => stays sta' (settles.core.active sta' member))
    fun sta' present _ => stays sta' present
  have nodup := settles.core.apart
  rw [split] at nodup
  rw [after, List.nodup_middle]
  refine List.nodup_cons.mpr ⟨?_, nodup⟩
  rw [← split, mem_apStations]
  exact absent

/-! ## Runs -/

theorem muGroupInit_settles (aps : List Bool) : Settles (muGroupInit aps) := by
  have none : census (fun _ : GroupIdx => (⟨0, noUsers⟩ : MuGroup))
      (fun group => 0 < group.users.used) = 0 :=
    census_eq_zero.mpr fun _ => by rw [used_noUsers]; exact Nat.lt_irrefl 0
  have clear (g : GroupIdx) : (⟨0, 0, 0#64, 0, .none⟩ : StaGroupInfo).bits g = false :=
    BitVec.getLsbD_zero
  have empty : apStations (aps.map fun ap => ⟨ap, []⟩) = [] := by
    refine List.flatMap_eq_nil_iff.mpr fun vif member => ?_
    obtain ⟨ap, -, rfl⟩ := List.mem_map.mp (List.mem_filter.mp member).1
    rfl
  refine ⟨⟨fun sta g => ?_, fun sta => ?_, fun g => ?_, fun g => Or.inl rfl, none.symm,
    fun g => distinct_noUsers, fun g sta held => absurd held (not_holds_noUsers sta),
    fun sta member => absurd member List.not_mem_nil, List.nodup_nil, ?_,
    fun sta some => absurd rfl some, Nat.zero_le _, rfl⟩, fun sta g assigned => ?_⟩
  · exact iff_of_false (by rw [muGroupInit, clear]; exact Bool.false_ne_true)
      (not_holds_noUsers sta)
  · exact congrArg Int.ofNat (census_eq_zero.mpr fun g => by rw [muGroupInit, clear]; simp).symm
  · rw [muGroupInit, used_noUsers]
    rfl
  · rw [muGroupInit, empty]
    exact List.nodup_nil
  · cases assigned

/-- A call that spares the stations with groups. -/
theorem step_settles {mu' : MuInfo} {event : Event} (settles : Settles mu)
    (spares : Spares mu event) (stepped : step mu event = .ok mu') : Settles mu' := by
  cases event with
  | setActiveSta sta traffic =>
      rw [step] at stepped
      split at stepped
      · rename_i present
        cases stepped
        exact setActiveSta_settles settles present traffic
      · cases stepped
  | groupWork =>
      cases stepped
      exact groupWork_settles settles
  | groupStaSelect due =>
      cases stepped
      exact groupStaSelect_settles settles.core (Or.inl settles.settled)
  | addStation vifIdx sta beamformee =>
      rw [step] at stepped
      split at stepped
      · rename_i new
        cases stepped
        exact addStation_settles settles new.2 new.1 beamformee
      · cases stepped
  | delStation sta =>
      rw [step] at stepped
      split at stepped
      · cases stepped
        exact delStation_settles settles spares
      · cases stepped

/-! ## A station with a group -/

theorem groupStaDelOne_other {g' : GroupIdx} (other : g' ≠ g) (sta : Sta) (mu : MuInfo) :
    (groupStaDelOne sta mu g).groups g' = mu.groups g' := by
  rw [groupStaDelOne]
  dsimp only
  split
  · rfl
  · split
    · split
      · exact Function.update_of_ne other _ _
      · exact Function.update_of_ne other _ _
    · exact Function.update_of_ne other _ _

theorem foldl_groupStaDelOne_other {ids : List GroupIdx} (missing : g ∉ ids) (sta : Sta)
    (mu : MuInfo) : (ids.foldl (groupStaDelOne sta) mu).groups g = mu.groups g := by
  induction ids generalizing mu with
  | nil => rfl
  | cons id ids induction =>
      obtain ⟨other, missing⟩ := List.ne_and_not_mem_of_not_mem_cons missing
      rw [List.foldl_cons, induction missing, groupStaDelOne_other other]

/-- A table has a user that no counter counts. -/
def MuGroup.Forgets (group : MuGroup) : Prop := group.userCnt ≠ group.users.used

/-- The user that is left stays in the table. -/
theorem groupStaDelOne_forgets (core : Core mu) (held : (mu.groups g).users.Holds sta)
    {mu' : MuInfo} (same : mu'.groups g = mu.groups g) :
    ((groupStaDelOne sta mu' g).groups g).Forgets := by
  have count := core.userCnt g
  have two : (mu.groups g).users.used = 2 := by
    have some := Slots.used_pos.mpr ⟨sta, held⟩
    have le : (mu.groups g).users.used ≤ configUserMax :=
      Slots.used_le.trans_eq (Fintype.card_fin _)
    have pair := core.pair g
    have max : configUserMax = 2 := rfl
    omega
  rw [groupStaDelOne]
  simp only [same]
  split
  · rename_i missing
    obtain ⟨i, there⟩ := held
    have not := List.find?_eq_none.mp missing i (List.mem_finRange i)
    exact absurd (decide_eq_true there) not
  · rename_i i found
    have there : (mu.groups g).users i = some sta := by simpa using List.find?_some found
    have left := Slots.used_vacate there
    rw [if_pos (by omega)]
    split
    · rename_i none
      have some : 0 < ((mu.groups g).users.vacate i).used := by omega
      obtain ⟨partner, j, there⟩ := Slots.used_pos.mp some
      rw [List.findSome?_eq_none_iff.mp none j (List.mem_finRange j)] at there
      cases there
    · simp only [Function.update_self, MuGroup.Forgets]
      omega

theorem foldl_groupStaDelOne_forgets (core : Core mu) (held : (mu.groups g).users.Holds sta)
    {ids : List GroupIdx} (nodup : ids.Nodup) (member : g ∈ ids) {mu' : MuInfo}
    (same : mu'.groups g = mu.groups g) :
    ((ids.foldl (groupStaDelOne sta) mu').groups g).Forgets := by
  induction ids generalizing mu' with
  | nil => cases member
  | cons id ids induction =>
      obtain ⟨fresh, nodup⟩ := List.nodup_cons.mp nodup
      rw [List.foldl_cons]
      obtain rfl | member := List.mem_cons.mp member
      · rw [foldl_groupStaDelOne_other fresh]
        exact groupStaDelOne_forgets core held same
      · have other : g ≠ id := fun here => fresh (here ▸ member)
        exact induction nodup member ((groupStaDelOne_other other sta mu').trans same)

/-- The deletion of a station with a group. -/
theorem delStation_not_consistent (settles : Settles mu)
    (grouped : groupIds (mu.info sta).map ≠ []) :
    ¬Consistent (delStation sta mu) := by
  intro consistent
  obtain ⟨g, member⟩ := List.exists_mem_of_ne_nil _ grouped
  have held := (settles.core.map sta g).mp (mem_groupIds.mp member)
  exact foldl_groupStaDelOne_forgets settles.core held (nodup_groupIds _) member rfl
    (consistent.userCnt g)

/-- The runs in which tables, bitmaps and counters agree throughout are those that delete no station
with a group. -/
theorem throughout_iff_spares (aps : List Bool) (events : List Event) :
    Run.Throughout step Consistent events (muGroupInit aps) ↔
      Run.Guarded step Spares events (muGroupInit aps) := by
  have sharp (mu : MuInfo) (event : Event) (settles : Settles mu) (_ : True)
      (outside : ¬Spares mu event) : ∃ mu', step mu event = .ok mu' ∧ ¬Consistent mu' := by
    cases event with
    | delStation sta =>
        obtain ⟨g, member⟩ := List.exists_mem_of_ne_nil _ outside
        have present := settles.core.present g sta
          ((settles.core.map sta g).mp (mem_groupIds.mp member))
        exact ⟨delStation sta mu, if_pos present, delStation_not_consistent settles outside⟩
    | _ => exact absurd trivial outside
  exact Run.throughout_iff_guarded
    (fun _ _ _ settles _ spares stepped => step_settles settles spares stepped)
    (fun _ settles => settles.core.consistent settles.settled) sharp (fun _ _ => trivial)
    (muGroupInit_settles aps)

/-- Two stations become a group, and one of them leaves. -/
def pairAndLeave : List Event :=
  [.addStation 0 0 true, .addStation 0 1 true, .setActiveSta 0 60, .setActiveSta 1 60, .groupWork,
    .delStation 0]

/-- The group that they become. -/
def pairGroup : GroupIdx := (muGroupInit [true]).activeGroups.last

/-- The other one is still a user of the group, which counts none. -/
theorem pairAndLeave_forgets : ¬Run.Throughout step Consistent pairAndLeave
    (muGroupInit [true]) := by
  intro throughout
  have read : (Run.run step pairAndLeave (muGroupInit [true])).toOption.map (fun mu =>
      ((mu.groups pairGroup).userCnt, (mu.groups pairGroup).staUsers)) = some (0, [1]) := by
    decide +kernel
  obtain ⟨mu, ran, ends⟩ := Run.ends_of_toOption read
  obtain ⟨cnt, users⟩ := Prod.mk.inj ends
  have held : (mu.groups pairGroup).users.Holds 1 := by
    rw [← mem_staUsers, users]
    exact List.mem_singleton_self 1
  have count := (throughout pairAndLeave [] mu (List.append_nil _).symm ran).userCnt pairGroup
  have some := Slots.used_pos.mpr ⟨1, held⟩
  omega

end AmlW2.Mu
