import AmlW2.Lib.Bubble
import AmlW2.Mu.Info
import Mathlib.Algebra.Order.Ring.Int

/-!
# Selecting the group of a station

`aml_mu_group_sta_select` adds up the traffic of each group and assigns the groups in the order of
their traffic.  The array that keeps this order is filled across all interfaces, and its bound is
that no group has two active users on two interfaces.
-/

namespace AmlW2.Mu

/-- The arrays of a selection, and the part of `order` that is written. -/
structure Stats where
  nbUsers : GroupIdx → Int
  traffic : GroupIdx → Int
  order : List GroupIdx

/-- The sum of two `int`. -/
def addInt (a b : Int) : Int := (a + b).bmod 4294967296

/-- `AML_MU_GROUP_MIN_TRAFFIC`. -/
abbrev muGroupMinTraffic : Int := 50

/-- A group of a station that is active. -/
def Stats.count (staTraffic : Int) (stats : Stats) (g : GroupIdx) : Stats where
  nbUsers := Function.update stats.nbUsers g (stats.nbUsers g + 1)
  traffic := Function.update stats.traffic g (addInt (stats.traffic g) staTraffic)
  order := if stats.nbUsers g + 1 = 2 then stats.order ++ [g] else stats.order

def MuInfo.setInfo (mu : MuInfo) (sta : Sta) (i : StaGroupInfo) : MuInfo :=
  { mu with info := Function.update mu.info sta i }

/-- The first pass, for a station. -/
def gather (s : MuInfo × Stats) (sta : Sta) : MuInfo × Stats :=
  let i := s.1.info sta
  let mu := s.1.setInfo sta { i with traffic := 0, group := none }
  if i.cnt = 0 ∨ i.traffic < muGroupMinTraffic then (mu, s.2)
  else
    ({ mu with counted := mu.counted ++ [sta] },
      (groupIds i.map).foldl (Stats.count i.traffic) s.2)

/-- A group of a user that is assigned to another. -/
def lower (g : GroupIdx) (nbUsers : GroupIdx → Int) (tmp : GroupIdx) : GroupIdx → Int :=
  if g ≠ tmp then Function.update nbUsers tmp (nbUsers tmp - 1) else nbUsers

/-- A user of the group that is assigned. -/
def assignUser (g : GroupIdx) (s : MuInfo × (GroupIdx → Int)) (sta : Sta) :
    MuInfo × (GroupIdx → Int) :=
  (s.1.setInfo sta { s.1.info sta with group := some g },
    (groupIds (s.1.info sta).map).foldl (lower g) s.2)

/-- The users of a group by position. -/
def MuGroup.staUsers (group : MuGroup) : List Sta :=
  (List.finRange configUserMax).filterMap group.users

/-- The second pass, for a group. -/
def assign (s : MuInfo × (GroupIdx → Int)) (g : GroupIdx) : MuInfo × (GroupIdx → Int) :=
  if s.2 g < 2 then s else (s.1.groups g).staUsers.foldl (assignUser g) s

/-- Two neighbours of `order` that are swapped. -/
def Stats.wrong (stats : Stats) (g g' : GroupIdx) : Bool :=
    decide (stats.traffic g < stats.traffic g')

theorem wrong_asymm (stats : Stats) (g g' : GroupIdx) (wrong : stats.wrong g g' = true) :
    stats.wrong g' g = false := by
  rw [Stats.wrong, decide_eq_true_eq] at wrong
  exact decide_eq_false (Int.not_lt.mpr (Int.le_of_lt wrong))

/-- An interface, with what is in `order`. -/
def selectVif (s : MuInfo × List GroupIdx) (vif : Vif) : MuInfo × List GroupIdx :=
  if vif.ap then
    let first := vif.staList.foldl gather (s.1, ⟨fun _ => 0, fun _ => 0, s.2⟩)
    let order := Bubble.sort first.2.wrong first.2.order
    let mu := (order.1.foldl assign (first.1, first.2.nbUsers)).1
    ({ mu with
        written := max mu.written first.2.order.length
        sorted := mu.sorted && !order.2 }, order.1)
  else s

/-- `aml_mu_group_sta_select`; `due` is when `next_group_select` has come. -/
def groupStaSelect (due : Bool) (mu : MuInfo) : MuInfo :=
  if mu.groupCnt = 0 ∨ due = false then mu
  else (mu.vifs.foldl selectVif ({ mu with counted := [] }, [])).1

/-! ## What a selection leaves alone -/

/-- The tables, the bitmaps, the counters and the lists are the same. -/
structure Frame (mu mu' : MuInfo) : Prop where
  groups : mu'.groups = mu.groups
  groupCnt : mu'.groupCnt = mu.groupCnt
  activeSta : mu'.activeSta = mu.activeSta
  vifs : mu'.vifs = mu.vifs
  bits : ∀ sta, (mu'.info sta).bits = (mu.info sta).bits
  cnt : ∀ sta, (mu'.info sta).cnt = (mu.info sta).cnt

variable {mu mu' mu'' : MuInfo}

theorem Frame.refl (mu : MuInfo) : Frame mu mu := ⟨rfl, rfl, rfl, rfl, fun _ => rfl, fun _ => rfl⟩

theorem Frame.trans (first : Frame mu mu') (second : Frame mu' mu'') : Frame mu mu'' where
  groups := second.groups.trans first.groups
  groupCnt := second.groupCnt.trans first.groupCnt
  activeSta := second.activeSta.trans first.activeSta
  vifs := second.vifs.trans first.vifs
  bits sta := (second.bits sta).trans (first.bits sta)
  cnt sta := (second.cnt sta).trans (first.cnt sta)

@[simp] theorem setInfo_self (sta : Sta) (i : StaGroupInfo) : (mu.setInfo sta i).info sta = i :=
  Function.update_self _ _ _

theorem setInfo_of_ne {sta sta' : Sta} (other : sta' ≠ sta) (i : StaGroupInfo) :
    (mu.setInfo sta i).info sta' = mu.info sta' :=
  Function.update_of_ne other _ _

theorem setInfo_frame {sta : Sta} {i : StaGroupInfo} (bits : i.bits = (mu.info sta).bits)
    (cnt : i.cnt = (mu.info sta).cnt) : Frame mu (mu.setInfo sta i) := by
  refine ⟨rfl, rfl, rfl, rfl, fun sta' => ?_, fun sta' => ?_⟩
  · rcases eq_or_ne sta' sta with rfl | other
    · rw [setInfo_self, bits]
    · rw [setInfo_of_ne other]
  · rcases eq_or_ne sta' sta with rfl | other
    · rw [setInfo_self, cnt]
    · rw [setInfo_of_ne other]

/-! ## The first pass -/

/-- The groups of a station are counted, and a group enters the order with its second user. -/
theorem foldl_count {ids : List GroupIdx} (nodup : ids.Nodup) (staTraffic : Int) (stats : Stats) :
    (∀ g, (ids.foldl (Stats.count staTraffic) stats).nbUsers g =
      stats.nbUsers g + if g ∈ ids then 1 else 0) ∧
    (ids.foldl (Stats.count staTraffic) stats).order =
      stats.order ++ ids.filter fun g => stats.nbUsers g = 1 := by
  induction ids generalizing stats with
  | nil => simp
  | cons g ids induction =>
      obtain ⟨fresh, nodup⟩ := List.nodup_cons.mp nodup
      obtain ⟨users, order⟩ := induction nodup (stats.count staTraffic g)
      rw [List.foldl_cons]
      constructor
      · intro g'
        rw [users, Stats.count]
        rcases eq_or_ne g' g with rfl | other
        · simp [fresh]
        · simp [other]
      · have same : ids.filter (fun g' => decide ((stats.count staTraffic g).nbUsers g' = 1)) =
            ids.filter fun g' => decide (stats.nbUsers g' = 1) := by
          apply List.filter_congr
          intro g' member
          have other : g' ≠ g := fun same => fresh (same ▸ member)
          simp only [Stats.count, Function.update_of_ne other]
        have second : stats.nbUsers g + 1 = 2 ↔ stats.nbUsers g = 1 := by omega
        rw [order, same, Stats.count, List.filter_cons]
        simp only [second]
        split
        · rename_i one
          simp [one]
        · rename_i one
          simp [one]

/-- The first pass after some stations: `active` are those that were counted. -/
structure Gathered (mu : MuInfo) (order : List GroupIdx) (passed active : List Sta)
    (s : MuInfo × Stats) : Prop where
  frame : Frame mu s.1
  counted : s.1.counted = mu.counted ++ active
  sublist : active.Sublist passed
  nbUsers : ∀ g, s.2.nbUsers g = active.countP fun sta => (mu.info sta).bits g
  order : ∃ new, s.2.order = order ++ new ∧ new.Nodup ∧ ∀ g ∈ new, 2 ≤ s.2.nbUsers g
  group : ∀ sta, (s.1.info sta).group = if sta ∈ passed then none else (mu.info sta).group
  written : s.1.written = mu.written
  sorted : s.1.sorted = mu.sorted

theorem gathered_start (mu : MuInfo) (order : List GroupIdx) :
    Gathered mu order [] [] (mu, ⟨fun _ => 0, fun _ => 0, order⟩) where
  frame := .refl mu
  counted := (List.append_nil _).symm
  sublist := .refl []
  nbUsers _ := rfl
  order := ⟨[], (List.append_nil _).symm, List.nodup_nil, by simp⟩
  group sta := by simp
  written := rfl
  sorted := rfl

theorem group_setInfo_none {passed : List Sta} {group : Sta → Option GroupIdx} (sta : Sta)
    {i : StaGroupInfo} (cleared : i.group = none)
    (before : ∀ sta', (mu.info sta').group = if sta' ∈ passed then none else group sta')
    (sta' : Sta) :
    ((mu.setInfo sta i).info sta').group =
      if sta' ∈ passed ++ [sta] then none else group sta' := by
  rcases eq_or_ne sta' sta with rfl | other
  · simp [cleared]
  · rw [setInfo_of_ne other, before]
    simp [other]

theorem gather_gathered {order : List GroupIdx} {passed active : List Sta} {s : MuInfo × Stats}
    (gathered : Gathered mu order passed active s) (sta : Sta) :
    ∃ active', Gathered mu order (passed ++ [sta]) active' (gather s sta) := by
  have frame : Frame s.1 (s.1.setInfo sta { s.1.info sta with traffic := 0, group := none }) :=
    setInfo_frame rfl rfl
  have group := group_setInfo_none sta
    (i := { s.1.info sta with traffic := 0, group := none }) rfl gathered.group
  by_cases idle : (s.1.info sta).cnt = 0 ∨ (s.1.info sta).traffic < muGroupMinTraffic
  · refine ⟨active, ?_⟩
    rw [gather, if_pos idle]
    exact ⟨gathered.frame.trans frame, gathered.counted, gathered.sublist.trans
      (List.sublist_append_left _ _), gathered.nbUsers, gathered.order, group, gathered.written,
      gathered.sorted⟩
  · refine ⟨active ++ [sta], ?_⟩
    obtain ⟨users, entered⟩ := foldl_count (nodup_groupIds (s.1.info sta).map)
      (s.1.info sta).traffic s.2
    have member (g : GroupIdx) :
        g ∈ groupIds (s.1.info sta).map ↔ (mu.info sta).bits g = true := by
      rw [mem_groupIds, ← gathered.frame.bits sta, StaGroupInfo.bits]
    obtain ⟨new, split, nodup, second⟩ := gathered.order
    rw [gather, if_neg idle]
    refine ⟨gathered.frame.trans ⟨frame.1, frame.2, frame.3, frame.4, frame.5, frame.6⟩, ?_,
      gathered.sublist.append (.refl _), fun g => ?_, ?_, group, gathered.written,
      gathered.sorted⟩
    · show s.1.counted ++ [sta] = _
      rw [gathered.counted, List.append_assoc]
    · rw [users, gathered.nbUsers, List.countP_append, List.countP_singleton]
      simp only [member]
      split
      · rfl
      · rfl
    · refine ⟨new ++ (groupIds (s.1.info sta).map).filter fun g => s.2.nbUsers g = 1, ?_, ?_, ?_⟩
      · rw [entered, split, List.append_assoc]
      · refine List.nodup_append.mpr ⟨nodup, (nodup_groupIds _).filter _, ?_⟩
        rintro g old g' fresh rfl
        have := second g old
        have one : s.2.nbUsers g = 1 := by simpa using (List.mem_filter.mp fresh).2
        omega
      · intro g entry
        rw [users]
        obtain old | fresh := List.mem_append.mp entry
        · have := second g old
          split
          · omega
          · omega
        · obtain ⟨here, one⟩ := List.mem_filter.mp fresh
          have one : s.2.nbUsers g = 1 := by simpa using one
          rw [if_pos here]
          omega

theorem foldl_gather {order : List GroupIdx} {passed active : List Sta} {s : MuInfo × Stats}
    (gathered : Gathered mu order passed active s) (stas : List Sta) :
    ∃ active', Gathered mu order (passed ++ stas) active' (stas.foldl gather s) := by
  induction stas generalizing passed active s with
  | nil => exact ⟨active, by rwa [List.append_nil]⟩
  | cons sta stas induction =>
      obtain ⟨active', next⟩ := gather_gathered gathered sta
      obtain ⟨active'', last⟩ := induction next
      exact ⟨active'', by simpa using last⟩

/-! ## The second pass -/

theorem mem_staUsers {group : MuGroup} {sta : Sta} :
    sta ∈ group.staUsers ↔ group.users.Holds sta := by
  simp [MuGroup.staUsers, Slots.Holds]

/-- The second pass after some groups. -/
structure Assigned (mu : MuInfo) (nb : GroupIdx → Int) (s : MuInfo × (GroupIdx → Int)) :
    Prop where
  frame : Frame mu s.1
  counted : s.1.counted = mu.counted
  nbUsers : ∀ g, s.2 g ≤ nb g
  group : ∀ sta, (s.1.info sta).group = (mu.info sta).group ∨
    ∃ g, 2 ≤ nb g ∧ (mu.groups g).users.Holds sta ∧ (s.1.info sta).group = some g
  written : s.1.written = mu.written
  sorted : s.1.sorted = mu.sorted

theorem foldl_lower (g : GroupIdx) (ids : List GroupIdx) (nb : GroupIdx → Int) (g' : GroupIdx) :
    ids.foldl (lower g) nb g' ≤ nb g' := by
  induction ids generalizing nb with
  | nil => exact Int.le_refl _
  | cons tmp ids induction =>
      refine Int.le_trans (induction _) ?_
      rw [lower]
      split
      · rcases eq_or_ne g' tmp with rfl | other
        · rw [Function.update_self]
          omega
        · rw [Function.update_of_ne other]
      · exact Int.le_refl _

variable {nb : GroupIdx → Int} {s : MuInfo × (GroupIdx → Int)}

theorem foldl_assignUser (assigned : Assigned mu nb s) {g : GroupIdx} (pair : 2 ≤ nb g)
    {stas : List Sta} (users : ∀ sta ∈ stas, (mu.groups g).users.Holds sta) :
    Assigned mu nb (stas.foldl (assignUser g) s) := by
  induction stas generalizing s with
  | nil => exact assigned
  | cons sta stas induction =>
      apply induction _ fun sta' member => users sta' (List.mem_cons_of_mem sta member)
      refine ⟨assigned.frame.trans (setInfo_frame rfl rfl), assigned.counted, fun g' => ?_,
        fun sta' => ?_, assigned.written, assigned.sorted⟩
      · exact Int.le_trans (foldl_lower g _ _ g') (assigned.nbUsers g')
      · rcases eq_or_ne sta' sta with rfl | other
        · right
          exact ⟨g, pair, users _ List.mem_cons_self, by rw [assignUser, setInfo_self]⟩
        · rw [assignUser, setInfo_of_ne other]
          exact assigned.group sta'

theorem assign_assigned (assigned : Assigned mu nb s) (g : GroupIdx) :
    Assigned mu nb (assign s g) := by
  rw [assign]
  split
  · exact assigned
  · rename_i pair
    apply foldl_assignUser assigned (Int.le_trans (Int.not_lt.mp pair) (assigned.nbUsers g))
    intro sta member
    rwa [mem_staUsers, assigned.frame.groups] at member

theorem foldl_assign (assigned : Assigned mu nb s) (order : List GroupIdx) :
    Assigned mu nb (order.foldl assign s) := by
  induction order generalizing s with
  | nil => exact assigned
  | cons g order induction => exact induction (assign_assigned assigned g)

theorem assigned_start (mu : MuInfo) (nb : GroupIdx → Int) : Assigned mu nb (mu, nb) :=
  ⟨.refl mu, rfl, fun _ => Int.le_refl _, fun _ => Or.inl rfl, rfl, rfl⟩

/-! ## All interfaces -/

/-- A group has two active users. -/
def MuInfo.HasPair (mu : MuInfo) (active : List Sta) (g : GroupIdx) : Prop :=
  ∃ a b, a ≠ b ∧ (mu.groups g).users.Holds a ∧ (mu.groups g).users.Holds b ∧
    a ∈ active ∧ b ∈ active

theorem MuInfo.HasPair.mono {active active' : List Sta} {g : GroupIdx}
    (pair : mu.HasPair active g) (subset : active ⊆ active') : mu.HasPair active' g := by
  obtain ⟨a, b, ne, first, second, a_mem, b_mem⟩ := pair
  exact ⟨a, b, ne, first, second, subset a_mem, subset b_mem⟩

/-- The two are all its users. -/
theorem MuInfo.HasPair.mem {active : List Sta} {g : GroupIdx} (pair : mu.HasPair active g)
    {sta : Sta} (holds : (mu.groups g).users.Holds sta) : sta ∈ active := by
  obtain ⟨a, b, ne, first, second, a_mem, b_mem⟩ := pair
  by_contra missing
  have third : [sta, a, b].Nodup := by
    have other : sta ≠ a := fun same => missing (same ▸ a_mem)
    have other' : sta ≠ b := fun same => missing (same ▸ b_mem)
    simp [other, other', ne]
  have le : 3 ≤ Fintype.card UserIdx :=
    Slots.length_le_card (s := (mu.groups g).users) third (by simp [holds, first, second])
  rw [Fintype.card_fin] at le
  exact absurd le (by decide)

/-- No group has pairs in two lists apart from each other. -/
theorem HasPair.not_apart {stas stas' : List Sta} {g : GroupIdx} (pair : mu.HasPair stas g)
    (pair' : mu.HasPair stas' g) : ¬(stas ++ stas').Nodup := by
  intro nodup
  obtain ⟨a, b, ne, first, second, a_mem, b_mem⟩ := pair
  obtain ⟨c, d, ne', third, fourth, c_mem, d_mem⟩ := pair'
  obtain ⟨-, -, apart⟩ := List.nodup_append.mp nodup
  have four : [a, b, c, d].Nodup := by
    simp [ne, ne', apart a a_mem c c_mem, apart a a_mem d d_mem, apart b b_mem c c_mem,
      apart b b_mem d d_mem]
  have le : 4 ≤ Fintype.card UserIdx :=
    Slots.length_le_card (s := (mu.groups g).users) four (by simp [first, second, third, fourth])
  rw [Fintype.card_fin] at le
  exact absurd le (by decide)

theorem two_of_countP {p : Sta → Bool} {stas : List Sta} (nodup : stas.Nodup)
    (two : 2 ≤ stas.countP p) : ∃ a ∈ stas, ∃ b ∈ stas, a ≠ b ∧ p a = true ∧ p b = true := by
  have distinct := nodup.filter p
  rw [List.countP_eq_length_filter] at two
  match filtered : stas.filter p with
  | [] => rw [filtered] at two; cases two
  | [_] => rw [filtered] at two; cases two; contradiction
  | a :: b :: _ =>
      have a_mem : a ∈ stas.filter p := filtered ▸ List.mem_cons_self
      have b_mem : b ∈ stas.filter p := filtered ▸ List.mem_cons_of_mem a List.mem_cons_self
      rw [filtered] at distinct
      obtain ⟨a_mem, a_has⟩ := List.mem_filter.mp a_mem
      obtain ⟨b_mem, b_has⟩ := List.mem_filter.mp b_mem
      refine ⟨a, a_mem, b, b_mem, ?_, a_has, b_has⟩
      rintro rfl
      exact (List.nodup_cons.mp distinct).1 List.mem_cons_self

/-- The selection after some access points, with their stations. -/
structure Selecting (mu : MuInfo) (done : List Sta) (s : MuInfo × List GroupIdx) : Prop where
  frame : Frame mu s.1
  nodup : s.2.Nodup
  pairs : ∀ g ∈ s.2, mu.HasPair done g
  assigned : ∀ sta ∈ done, ∀ g, (s.1.info sta).group = some g →
    (mu.groups g).users.Holds sta ∧ mu.HasPair s.1.counted g
  others : ∀ sta ∉ done, (s.1.info sta).group = (mu.info sta).group
  written : s.1.written ≤ nxMuGroupMax + 1
  sorted : s.1.sorted = true

theorem selectVif_selecting {done : List Sta} {s : MuInfo × List GroupIdx}
    (agree : ∀ sta g, (mu.info sta).bits g = true ↔ (mu.groups g).users.Holds sta)
    (selecting : Selecting mu done s) {vif : Vif} (ap : vif.ap = true)
    (apart : (done ++ vif.staList).Nodup) :
    Selecting mu (done ++ vif.staList) (selectVif s vif) := by
  obtain ⟨active, first⟩ := foldl_gather (gathered_start s.1 s.2) vif.staList
  rw [List.nil_append] at first
  have active_nodup : active.Nodup := (List.nodup_append.mp apart).2.1.sublist first.sublist
  have pair (g : GroupIdx)
      (two : 2 ≤ (vif.staList.foldl gather (s.1, ⟨fun _ => 0, fun _ => 0, s.2⟩)).2.nbUsers g) :
      mu.HasPair active g := by
    rw [first.nbUsers g] at two
    obtain ⟨a, a_mem, b, b_mem, ne, a_has, b_has⟩ :=
      two_of_countP active_nodup (Int.ofNat_le.mp two)
    rw [selecting.frame.bits, agree] at a_has b_has
    exact ⟨a, b, ne, a_has, b_has, a_mem, b_mem⟩
  obtain ⟨new, split, new_nodup, second⟩ := first.order
  have order_nodup :
      (vif.staList.foldl gather (s.1, ⟨fun _ => 0, fun _ => 0, s.2⟩)).2.order.Nodup := by
    rw [split]
    refine List.nodup_append.mpr ⟨selecting.nodup, new_nodup, ?_⟩
    rintro g old g' fresh rfl
    exact HasPair.not_apart (selecting.pairs g old) (pair g (second g fresh))
      (apart.sublist (List.Sublist.append (.refl done) first.sublist))
  have short := order_nodup.length_le_card
  rw [Fintype.card_fin] at short
  rw [selectVif, if_pos ap]
  generalize vif.staList.foldl gather (s.1, ⟨fun _ => 0, fun _ => 0, s.2⟩) = r at *
  have perm := Bubble.sort_perm r.2.wrong r.2.order
  have last := foldl_assign (assigned_start r.1 r.2.nbUsers) (Bubble.sort r.2.wrong r.2.order).1
  refine ⟨selecting.frame.trans (first.frame.trans ⟨last.frame.1, last.frame.2, last.frame.3,
    last.frame.4, last.frame.5, last.frame.6⟩), perm.nodup_iff.mpr order_nodup, ?_, ?_, ?_, ?_, ?_⟩
  · intro g entry
    have entry := perm.mem_iff.mp entry
    rw [split] at entry
    obtain old | fresh := List.mem_append.mp entry
    · exact (selecting.pairs g old).mono (List.subset_append_left done _)
    · exact (pair g (second g fresh)).mono
        (List.Subset.trans first.sublist.subset
        (List.subset_append_right done _))
  · intro sta member g group
    have grown : (s.1.counted ++ active) ⊆
        ((Bubble.sort r.2.wrong r.2.order).1.foldl assign (r.1, r.2.nbUsers)).1.counted := by
      rw [last.counted, first.counted]
      exact List.Subset.refl _
    obtain same | ⟨g', two, holds, chosen⟩ := last.group sta
    · have before := same.symm.trans group
      rw [first.group] at before
      split at before
      · cases before
      · rename_i other
        obtain earlier | here := List.mem_append.mp member
        · obtain ⟨holds, old⟩ := selecting.assigned sta earlier g before
          exact ⟨holds, old.mono (List.Subset.trans (List.subset_append_left _ active) grown)⟩
        · exact absurd here other
    · obtain rfl : g' = g := Option.some.inj (chosen.symm.trans group)
      rw [first.frame.groups, selecting.frame.groups] at holds
      exact ⟨holds, (pair g' two).mono
        (List.Subset.trans (List.subset_append_right s.1.counted _) grown)⟩
  · intro sta missing
    obtain ⟨before, outside⟩ := not_or.mp (mt List.mem_append.mpr missing)
    obtain same | ⟨g, two, holds, -⟩ := last.group sta
    · refine same.trans ?_
      rw [first.group, if_neg outside, selecting.others sta before]
    · rw [first.frame.groups, selecting.frame.groups] at holds
      exact absurd (first.sublist.subset ((pair g two).mem holds)) outside
  · have written : ((Bubble.sort r.2.wrong r.2.order).1.foldl assign (r.1, r.2.nbUsers)).1.written =
        s.1.written := last.written.trans first.written
    exact Nat.max_le.mpr ⟨written ▸ selecting.written, Nat.le_succ_of_le short⟩
  · have sorted : ((Bubble.sort r.2.wrong r.2.order).1.foldl assign (r.1, r.2.nbUsers)).1.sorted =
        s.1.sorted := last.sorted.trans first.sorted
    simp [sorted, selecting.sorted, Bubble.sort_ends (wrong_asymm r.2)]

/-- The stations of the access points. -/
def apStations (vifs : List Vif) : List Sta := (vifs.filter Vif.ap).flatMap Vif.staList

theorem mem_apStations {sta : Sta} : sta ∈ apStations mu.vifs ↔ mu.Present sta := by
  simp [apStations, MuInfo.Present, List.mem_flatMap, and_assoc]

theorem foldl_selectVif {done : List Sta} {s : MuInfo × List GroupIdx} {vifs : List Vif}
    (agree : ∀ sta g, (mu.info sta).bits g = true ↔ (mu.groups g).users.Holds sta)
    (selecting : Selecting mu done s) (apart : (done ++ apStations vifs).Nodup) :
    Selecting mu (done ++ apStations vifs) (vifs.foldl selectVif s) := by
  induction vifs generalizing done s with
  | nil => simpa [apStations] using selecting
  | cons vif vifs induction =>
      rw [List.foldl_cons]
      by_cases ap : vif.ap = true
      · have split : apStations (vif :: vifs) = vif.staList ++ apStations vifs := by
          simp [apStations, ap]
        rw [split, ← List.append_assoc] at apart ⊢
        exact induction (selectVif_selecting agree selecting ap (List.nodup_append.mp apart).1)
          apart
      · have split : apStations (vif :: vifs) = apStations vifs := by simp [apStations, ap]
        rw [split] at apart ⊢
        rw [selectVif, if_neg ap]
        exact induction selecting apart

/-- A selection assigns stations of the access points to groups with two active users. -/
theorem groupStaSelect_selecting (agree : ∀ sta g, (mu.info sta).bits g = true ↔
    (mu.groups g).users.Holds sta) (apart : (apStations mu.vifs).Nodup)
    (written : mu.written ≤ nxMuGroupMax + 1) (sorted : mu.sorted = true)
      (grouped : mu.groupCnt ≠ 0) :
    ∃ order, Selecting mu (apStations mu.vifs) (groupStaSelect true mu, order) := by
  have start : Selecting mu [] ({ mu with counted := [] }, []) :=
    ⟨⟨rfl, rfl, rfl, rfl, fun _ => rfl, fun _ => rfl⟩, List.nodup_nil, by simp, by simp,
      fun _ _ => rfl, written, sorted⟩
  have last := foldl_selectVif agree start apart
  rw [groupStaSelect, if_neg (by simp [grouped])]
  exact ⟨_, last⟩

end AmlW2.Mu
