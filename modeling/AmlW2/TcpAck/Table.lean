import AmlW2.Lib.Slots
import AmlW2.TcpAck.Ownership

/-!
# The session table of the acknowledgement filter

With one call of the filter at a time, the counter of sessions in use, the cached free index and the
busy flags agree, the sessions in use are of distinct flows, and an allocation finds a free session
if there is one.  The table is followed through every section of a call, so that timers and settings
may come in between.
-/

namespace AmlW2.TcpAck

/-! ## Where a call stands -/

/-- The call holds a session that is counted but not yet busy. -/
def Place.owes : Place → Bool
  | .allocated _ => true
  | .setup _ _ => true
  | _ => false

/-- The call scans under the lock of the manager. -/
def Place.scans : Place → Bool
  | .scan _ => true
  | _ => false

namespace Filter

variable {s s' s₁ : Filter} {t : Nat} {skb : Skb} {i : SessIdx} {info : TcpSess}

/-! ## The table -/

/-- The flow of each busy session. -/
def slots (s : Filter) : Slots SessIdx Flow :=
  fun i => if (s.info i).busy then some (s.info i).flow else none

theorem slots_eq_none : s.slots i = none ↔ (s.info i).busy = false := by
  rw [slots]
  cases (s.info i).busy <;> simp

theorem slots_eq_some {flow : Flow} :
    s.slots i = some flow ↔ (s.info i).busy = true ∧ (s.info i).flow = flow := by
  rw [slots]
  cases (s.info i).busy <;> simp

theorem slots_setInfo : (s.setInfo i info).slots =
    Function.update s.slots i (if info.busy then some info.flow else none) := by
  funext j
  rcases eq_or_ne j i with rfl | other
  · simp [slots, setInfo]
  · simp [slots, setInfo, other]

/-- A session that stays busy with its flow, or stays free, leaves the table as it is. -/
theorem slots_setInfo_same (busy : info.busy = (s.info i).busy)
    (flow : info.flow = (s.info i).flow) : (s.setInfo i info).slots = s.slots := by
  rw [slots_setInfo, busy, flow]
  exact Function.update_eq_self i s.slots

/-- What a call knows of the table at a place. -/
def Stage (s : Filter) (flow : Flow) : Place → Prop
  | .find i => ∀ j < i, s.slots j ≠ some flow
  | .alloc => s.slots.Lacks flow
  | .scan i => s.slots.Lacks flow ∧ s.mgr.freeIndex = none ∧ ∀ j < i, s.slots j ≠ none
  | .allocated i => s.slots.Lacks flow ∧ s.mgr.freeIndex = none ∧ s.slots i = none
  | .setup i _ => s.slots.Lacks flow ∧ s.mgr.freeIndex = none ∧ s.slots i = none
  | _ => True

/-- The counter counts the busy sessions and `owed` more, and the lock is as given. -/
structure Counts (s : Filter) (owed locked : Bool) : Prop where
  used : s.mgr.usedNum = s.slots.used + owed.toNat
  locked : s.mgr.locked = locked

/-- The busy flags and the cached index are sound. -/
structure Keyed (s : Filter) : Prop where
  distinct : s.slots.Distinct
  cached : ∀ i, s.mgr.freeIndex = some i → s.slots i = none

/-- The table and the one call in progress agree. -/
structure Tabled (s : Filter) : Prop extends Keyed s where
  alone : ∀ {t t' c c'}, s.calls t = some c → s.calls t' = some c' → t = t'
  idle : (∀ t, s.calls t = none) → Counts s false false
  counts : ∀ {t c}, s.calls t = some c → Counts s c.place.owes c.place.scans
  stage : ∀ {t c}, s.calls t = some c → Stage s c.skb.flow c.place

/-- The same table. -/
structure SameTable (s s' : Filter) : Prop where
  slots : s'.slots = s.slots
  usedNum : s'.mgr.usedNum = s.mgr.usedNum
  freeIndex : s'.mgr.freeIndex = s.mgr.freeIndex
  locked : s'.mgr.locked = s.mgr.locked

theorem SameTable.stage (same : SameTable s s') {flow : Flow} {place : Place}
    (stage : Stage s flow place) : Stage s' flow place := by
  cases place <;> simp only [Stage, same.slots, same.freeIndex] at stage ⊢ <;> exact stage

theorem SameTable.counts (same : SameTable s s') {owed locked : Bool}
    (counts : Counts s owed locked) : Counts s' owed locked where
  used := by rw [same.usedNum, same.slots, counts.used]
  locked := same.locked.trans counts.locked

theorem SameTable.keyed (same : SameTable s s') (keyed : Keyed s) : Keyed s' where
  distinct := by
    rw [same.slots]
    exact keyed.distinct
  cached := by
    rw [same.slots, same.freeIndex]
    exact keyed.cached

theorem Tabled.of_same (tabled : Tabled s) (same : SameTable s s') (calls : s'.calls = s.calls) :
    Tabled s' where
  toKeyed := same.keyed tabled.toKeyed
  alone := by
    rw [calls]
    exact tabled.alone
  idle := by
    rw [calls]
    exact fun idle => same.counts (tabled.idle idle)
  counts := by
    rw [calls]
    exact fun call => same.counts (tabled.counts call)
  stage := by
    rw [calls]
    exact fun call => same.stage (tabled.stage call)

/-- A call goes on while no other is in progress. -/
theorem Tabled.goto {place : Place} (only : ∀ t', t' ≠ t → s₁.calls t' = none) (keyed : Keyed s₁)
    (counts : Counts s₁ place.owes place.scans) (stage : Stage s₁ skb.flow place) :
    Tabled (s₁.goto t skb place) := by
  have call : ∀ {t' c}, (s₁.goto t skb place).calls t' = some c → t' = t ∧ c = ⟨skb, place⟩ := by
    intro t' c called
    change Function.update s₁.calls t (some ⟨skb, place⟩) t' = some c at called
    rcases eq_or_ne t' t with rfl | other
    · rw [Function.update_self] at called
      exact ⟨rfl, (Option.some.inj called).symm⟩
    · rw [Function.update_of_ne other, only t' other] at called
      cases called
  have same : SameTable s₁ (s₁.goto t skb place) := ⟨rfl, rfl, rfl, rfl⟩
  exact {
    toKeyed := same.keyed keyed
    alone := fun first second => (call first).1.trans (call second).1.symm
    idle := by
      intro idle
      have here : (s₁.goto t skb place).calls t = some ⟨skb, place⟩ := Function.update_self t _ _
      rw [idle t] at here
      cases here
    counts := by
      intro t' c called
      rw [(call called).2]
      exact same.counts counts
    stage := by
      intro t' c called
      rw [(call called).2]
      exact same.stage stage }

/-- The call in progress returns. -/
theorem Tabled.leave (only : ∀ t', t' ≠ t → s₁.calls t' = none) (keyed : Keyed s₁)
    (counts : Counts s₁ false false) (same : SameTable s₁ s')
    (calls : s'.calls = Function.update s₁.calls t none) : Tabled s' := by
  have gone : ∀ t', s'.calls t' = none := by
    intro t'
    rw [calls]
    rcases eq_or_ne t' t with rfl | other
    · exact Function.update_self t' _ _
    · rw [Function.update_of_ne other, only t' other]
  exact {
    toKeyed := same.keyed keyed
    alone := by
      intro t' _ c _ called
      rw [gone t'] at called
      cases called
    idle := fun _ => same.counts counts
    counts := by
      intro t' c called
      rw [gone t'] at called
      cases called
    stage := by
      intro t' c called
      rw [gone t'] at called
      cases called }

theorem Tabled.pass (only : ∀ t', t' ≠ t → s₁.calls t' = none) (keyed : Keyed s₁)
    (counts : Counts s₁ false false) : Tabled (s₁.pass t skb) :=
  Tabled.leave only keyed counts ⟨rfl, rfl, rfl, rfl⟩ rfl

theorem Tabled.take (only : ∀ t', t' ≠ t → s₁.calls t' = none) (keyed : Keyed s₁)
    (counts : Counts s₁ false false) : Tabled (s₁.take t skb) :=
  Tabled.leave only keyed counts ⟨rfl, rfl, rfl, rfl⟩ rfl

/-! ## What each section does to the table -/

theorem slots_ageout : (s.ageout i).slots = s.slots ∧ (s.ageout i).mgr = s.mgr ∨
    (∃ flow, s.slots i = some flow) ∧ (s.ageout i).slots = s.slots.vacate i ∧
      (s.ageout i).mgr = { s.mgr with freeIndex := some i, usedNum := s.mgr.usedNum - 1 } := by
  rw [ageout]
  split
  · rename_i aged
    refine .inr ⟨⟨_, slots_eq_some.mpr ⟨aged.1, rfl⟩⟩, ?_, rfl⟩
    exact slots_setInfo
  · exact .inl ⟨rfl, rfl⟩

/-- Ageing keeps the table sound, whatever its count. -/
theorem ageout_keyed (keyed : Keyed s) {locked : Bool} (counts : Counts s false locked) :
    Keyed (s.ageout i) ∧ Counts (s.ageout i) false locked := by
  obtain ⟨slots, mgr⟩ | ⟨⟨flow, held⟩, slots, mgr⟩ : _ ∨ _ := @slots_ageout s i
  · have same : SameTable s (s.ageout i) := ⟨slots, by rw [mgr], by rw [mgr], by rw [mgr]⟩
    exact ⟨same.keyed keyed, same.counts counts⟩
  · have fewer := Slots.used_vacate held
    have before := counts.used
    refine ⟨⟨?_, ?_⟩, ⟨?_, ?_⟩⟩
    · rw [slots]
      exact keyed.distinct.vacate i
    · intro j free
      rw [mgr] at free
      obtain rfl : i = j := Option.some.inj free
      rw [slots]
      exact Slots.vacate_self
    · rw [mgr, slots]
      simp only [Bool.toNat_false] at before ⊢
      omega
    · rw [mgr]
      exact counts.locked

theorem same_adjustDropCnt : SameTable s s.adjustDropCnt := by
  rw [adjustDropCnt]
  split <;> exact ⟨rfl, rfl, rfl, rfl⟩

theorem same_replaceTcpAck {type : AckType} : SameTable s (s.replaceTcpAck skb i type).1 := by
  obtain ⟨-, ran⟩ | ⟨-, info, accepted, ⟨-, -, ran⟩ | ⟨-, -, ran⟩⟩ :=
    s.replaceTcpAck_cases skb i type
  · rw [ran]
    exact ⟨slots_setInfo_same rfl rfl, rfl, rfl, rfl⟩
  all_goals
    rw [ran]
    exact ⟨slots_setInfo_same accepted.busy accepted.flow, rfl, rfl, rfl⟩

theorem cached_of_none {P : SessIdx → Prop} {cached : Option SessIdx} (empty : cached = none) :
    ∀ i, cached = some i → P i := by
  intro i held
  rw [empty] at held
  cases held

/-- Setting up a free session puts the flow in its slot. -/
theorem setup_keyed {dropCnt : BitVec 8} (keyed : Keyed s) (counts : Counts s true false)
    (lacks : s.slots.Lacks skb.flow) (uncached : s.mgr.freeIndex = none)
    (free : s.slots i = none) :
    Keyed (s.setup skb i dropCnt) ∧ Counts (s.setup skb i dropCnt) false false := by
  have slots : (s.setup skb i dropCnt).slots = s.slots.occupy i skb.flow := by
    rw [setup, slots_setInfo]
    rfl
  have more : (s.slots.occupy i skb.flow).used = s.slots.used + 1 := Slots.used_occupy free
  refine ⟨⟨?_, ?_⟩, ⟨?_, counts.locked⟩⟩
  · rw [slots]
    exact keyed.distinct.occupy lacks i
  · exact cached_of_none uncached
  · rw [slots, more]
    exact counts.used

/-- A section of the one call in progress keeps the table sound. -/
theorem advance_tabled {c : Call} (tabled : Tabled s) (call : s.calls t = some c) :
    Tabled (s.advance t c.skb c.place) := by
  obtain ⟨skb, place⟩ := c
  have only : ∀ t', t' ≠ t → s.calls t' = none := by
    intro t' other
    cases called : s.calls t' with
    | none => rfl
    | some c' => exact absurd (tabled.alone called call) other
  have keyed := tabled.toKeyed
  have counts := tabled.counts call
  have stage := tabled.stage call
  simp only at counts stage ⊢
  cases place with
  | gate =>
      rw [advance]
      split
      · exact Tabled.goto only ⟨keyed.distinct, keyed.cached⟩ ⟨counts.used, counts.locked⟩ trivial
      · exact Tabled.goto only keyed counts trivial
  | sweep i =>
      have aged : Keyed (s.ageout i) ∧ Counts (s.ageout i) false false :=
        ageout_keyed keyed counts
      have only' : ∀ t', t' ≠ t → (s.ageout i).calls t' = none := by
        rw [calls_ageout.1]
        exact only
      obtain ⟨_ | j, lt⟩ := i
      · exact Tabled.goto only' aged.1 aged.2 trivial
      · exact Tabled.goto only' aged.1 aged.2 trivial
  | adjust =>
      have same : SameTable s s.adjustDropCnt := same_adjustDropCnt
      exact Tabled.goto (calls_adjustDropCnt.1.symm ▸ only) (same.keyed keyed) (same.counts counts)
        trivial
  | classified =>
      have same : SameTable s
          (if skb.winScale ≠ 0 then { s with mgr.winScale := skb.winScale } else s) := by
        split <;> exact ⟨rfl, rfl, rfl, rfl⟩
      have calls : (if skb.winScale ≠ 0 then { s with mgr.winScale := skb.winScale } else s).calls =
          s.calls := by
        split <;> rfl
      simp only [advance]
      generalize (if skb.winScale ≠ 0 then { s with mgr.winScale := skb.winScale } else s) = s₁
        at same calls
      have only' : ∀ t', t' ≠ t → s₁.calls t' = none := calls.symm ▸ only
      split
      · exact Tabled.pass only' (same.keyed keyed) (same.counts counts)
      · exact Tabled.goto only' (same.keyed keyed) (same.counts counts) trivial
  | enabled =>
      rw [advance]
      split
      · exact Tabled.goto only keyed counts fun j lt => absurd lt (Fin.not_lt_zero j)
      · exact Tabled.pass only keyed counts
  | find i =>
      rw [advance]
      split
      · exact Tabled.goto only keyed counts trivial
      · rename_i other
        have here : s.slots i ≠ some skb.flow := fun held => other (slots_eq_some.mp held)
        have sofar : ∀ j : SessIdx, j.val < i.val + 1 → s.slots j ≠ some skb.flow := by
          intro j lt
          rcases Nat.lt_or_eq_of_le (Nat.le_of_lt_succ lt) with before | same
          · exact stage j before
          · rw [Fin.ext same]
            exact here
        split
        · exact Tabled.goto only keyed counts sofar
        · rename_i last
          refine Tabled.goto only keyed counts fun j => sofar j ?_
          have := j.isLt
          omega
  | found i =>
      have same : SameTable s (if s.mgr.winScale ≠ 0 then
          s.setInfo i { s.info i with winScale := s.mgr.winScale } else s) := by
        split
        · exact ⟨slots_setInfo_same rfl rfl, rfl, rfl, rfl⟩
        · exact ⟨rfl, rfl, rfl, rfl⟩
      have calls : (if s.mgr.winScale ≠ 0 then
          s.setInfo i { s.info i with winScale := s.mgr.winScale } else s).calls = s.calls := by
        split <;> rfl
      exact Tabled.goto (calls.symm ▸ only) (same.keyed keyed) (same.counts counts) trivial
  | scaled i => exact Tabled.goto only keyed counts trivial
  | replace i type =>
      have same : SameTable s (s.replaceTcpAck skb i type).1 := same_replaceTcpAck
      have only' : ∀ t', t' ≠ t → (s.replaceTcpAck skb i type).1.calls t' = none :=
        calls_replaceTcpAck.1.symm ▸ only
      rw [advance]
      split
      · exact Tabled.take only' (same.keyed keyed) (same.counts counts)
      · exact Tabled.pass only' (same.keyed keyed) (same.counts counts)
  | alloc =>
      rw [advance]
      split
      · exact Tabled.pass only keyed counts
      split
      · rename_i i cached
        have more : s.mgr.usedNum + 1 = s.slots.used + 1 := by rw [counts.used]; rfl
        exact Tabled.goto only ⟨keyed.distinct, cached_of_none rfl⟩ ⟨more, counts.locked⟩
          ⟨stage, rfl, keyed.cached i cached⟩
      · rename_i uncached
        exact Tabled.goto only ⟨keyed.distinct, keyed.cached⟩ ⟨counts.used, rfl⟩
          ⟨stage, uncached, fun j lt => absurd lt (Fin.not_lt_zero j)⟩
  | scan i =>
      obtain ⟨lacks, uncached, before⟩ := stage
      rw [advance]
      split
      · rename_i busy
        split
        · refine Tabled.goto only keyed counts ⟨lacks, uncached, fun j lt => ?_⟩
          rcases Nat.lt_or_eq_of_le (Nat.le_of_lt_succ lt) with earlier | same
          · exact before j earlier
          · rw [Fin.ext same, Ne, slots_eq_none, busy]
            exact Bool.noConfusion
        · exact Tabled.pass only ⟨keyed.distinct, keyed.cached⟩ ⟨counts.used, rfl⟩
      · rename_i free
        have more : s.mgr.usedNum + 1 = s.slots.used + 1 := by rw [counts.used]; rfl
        exact Tabled.goto only ⟨keyed.distinct, cached_of_none rfl⟩ ⟨more, rfl⟩
          ⟨lacks, rfl, slots_eq_none.mpr (Bool.eq_false_of_not_eq_true free)⟩
  | allocated i =>
      have same : SameTable s s.adjustDropCnt := same_adjustDropCnt
      obtain ⟨lacks, uncached, free⟩ := stage
      refine Tabled.goto (calls_adjustDropCnt.1.symm ▸ only) (same.keyed keyed) (same.counts counts)
        ⟨?_, ?_, ?_⟩
      · rw [same.slots]
        exact lacks
      · rw [same.freeIndex, uncached]
      · rw [same.slots, free]
  | setup i dropCnt =>
      obtain ⟨lacks, uncached, free⟩ := stage
      have built : Keyed (s.setup skb i dropCnt) ∧ Counts (s.setup skb i dropCnt) false false :=
        setup_keyed keyed counts lacks uncached free
      exact Tabled.pass only built.1 built.2

/-! ## Runs of one call at a time -/

/-- No call begins before the one in progress has returned. -/
def OneAtATime (s : Filter) : Event → Prop
  | .call _ _ => ∀ t, s.calls t = none
  | _ => True

theorem tabled_init (usb : Bool) (hz jiffies : Nat) : Tabled (init usb hz jiffies) where
  distinct := fun i j k held => nomatch held
  cached := fun i _ => rfl
  alone := fun call => nomatch call
  idle := by
    intro _
    have empty : (init usb hz jiffies).slots.used = 0 := Slots.used_empty fun i => rfl
    exact ⟨by rw [empty]; rfl, rfl⟩
  counts := fun call => nomatch call
  stage := fun call => nomatch call

theorem same_tcpAckTimeout {e : Sending} : SameTable s (s.tcpAckTimeout i e) := by
  have sent : ∀ (s : Filter) (skb : Skb), SameTable s (s.sendTcpAck skb e) := by
    intro s skb
    simp only [sendTcpAck]
    repeat' split
    all_goals exact ⟨rfl, rfl, rfl, rfl⟩
  simp only [tcpAckTimeout]
  repeat' split
  · have same := sent
      (s.setInfo i { s.info i with firing := false, skb := none, dropCnt := 0 }) (by assumption)
    exact ⟨same.slots.trans (slots_setInfo_same rfl rfl), same.usedNum, same.freeIndex, same.locked⟩
  all_goals exact ⟨slots_setInfo_same rfl rfl, rfl, rfl, rfl⟩

/-- A step of a run of one call at a time keeps the table sound. -/
theorem step_tabled {e : Event} (tabled : Tabled s) (serial : OneAtATime s e)
    (stepped : s.step e = .ok s') : Tabled s' := by
  cases e with
  | call t skb =>
      simp only [step] at stepped
      split at stepped
      · cases stepped
      split at stepped
      · cases stepped
        exact Tabled.pass (fun t' _ => serial t') tabled.toKeyed (tabled.idle serial)
      · cases stepped
        have counts := tabled.idle serial
        exact Tabled.goto (fun t' _ => serial t') ⟨tabled.distinct, tabled.cached⟩
          ⟨counts.used, counts.locked⟩ trivial
  | go t =>
      simp only [step] at stepped
      split at stepped
      · cases stepped
      · rename_i c call
        split at stepped
        · cases stepped
        · cases stepped
          exact advance_tabled tabled call
  | xmit skb e =>
      simp only [step] at stepped
      split at stepped
      · cases stepped
        exact tabled.of_same ⟨rfl, rfl, rfl, rfl⟩ rfl
      · cases stepped
  | timeout i e =>
      simp only [step] at stepped
      split at stepped
      · cases stepped
        exact tabled.of_same same_tcpAckTimeout calls_tcpAckTimeout.1
      · cases stepped
  | expire i =>
      simp only [step] at stepped
      split at stepped
      · cases stepped
      · split at stepped
        · cases stepped
        · cases stepped
          exact tabled.of_same ⟨slots_setInfo_same rfl rfl, rfl, rfl, rfl⟩ rfl
  | release i =>
      cases stepped
      exact tabled.of_same ⟨slots_setInfo_same rfl rfl, rfl, rfl, rfl⟩ rfl
  | setTcpAckAuto trafficBusy =>
      cases stepped
      rw [setTcpAckAuto]
      split <;> exact tabled.of_same ⟨rfl, rfl, rfl, rfl⟩ rfl
  | setMaxDropNum num =>
      cases stepped
      rw [setMaxDropNum]
      split <;> exact tabled.of_same ⟨rfl, rfl, rfl, rfl⟩ rfl
  | tick | setTcpDelayAck | setMaxTimeout | stop =>
      cases stepped
      exact tabled.of_same ⟨rfl, rfl, rfl, rfl⟩ rfl

/-! ## Allocation -/

/-- The sections that follow take the call to a free session. -/
def Allocates (s : Filter) (t : Nat) (skb : Skb) : Prop :=
  ∃ n i s', Run.run step (List.replicate n (.go t)) s = .ok s' ∧
    s'.calls t = some ⟨skb, .allocated i⟩ ∧ (s.info i).busy = false

theorem Allocates.step (stepped : s.step (.go t) = .ok s') (info : s'.info = s.info)
    (allocates : Allocates s' t skb) : Allocates s t skb := by
  obtain ⟨n, i, final, ran, arrived, free⟩ := allocates
  refine ⟨n + 1, i, final, ?_, arrived, info ▸ free⟩
  rw [List.replicate_succ, Run.run_cons_ok _ stepped, ran]

/-- A section of the scan needs no lock. -/
theorem step_scan (call : s.calls t = some ⟨skb, .scan i⟩) :
    s.step (.go t) = .ok (s.advance t skb (.scan i)) := by
  simp only [Filter.step, call]
  rw [if_neg (fun refused => by simp [Place.locks] at refused)]

/-- The scan ends at a free session, if there is one from where it stands. -/
theorem scan_allocates {k : Nat} (k_lt : k < tcpSessNum) {d : Nat}
    (free : (s.info ⟨k, k_lt⟩).busy = false) (call : s.calls t = some ⟨skb, .scan i⟩)
    (distance : i.val + d = k) : Allocates s t skb := by
  induction d generalizing s i with
  | zero =>
      obtain rfl : i.val = k := distance
      have here := step_scan call
      rw [advance, if_neg (by simp [free])] at here
      exact ⟨1, i, _, Run.run_cons_ok [] here, Function.update_self t _ _, free⟩
  | succ d induction =>
      have next_lt : i.val + 1 < tcpSessNum := by omega
      have stepped := step_scan call
      by_cases busy : (s.info i).busy = true
      · rw [advance, if_pos busy, dif_pos next_lt] at stepped
        refine Allocates.step stepped rfl (induction free (Function.update_self t _ _) ?_)
        rw [← distance]
        exact Nat.succ_add_eq_add_succ i.val d
      · rw [advance, if_neg busy] at stepped
        exact ⟨1, i, _, Run.run_cons_ok [] stepped, Function.update_self t _ _,
          Bool.eq_false_of_not_eq_true busy⟩

/-- A call about to allocate gets a free session if there is one. -/
theorem Tabled.allocates (tabled : Tabled s) (call : s.calls t = some ⟨skb, .alloc⟩)
    (room : ∃ i, (s.info i).busy = false) : Allocates s t skb := by
  obtain ⟨j, free⟩ := room
  obtain ⟨used, locked⟩ := tabled.counts call
  have below : s.slots.used < tcpSessNum := by
    have lt := Slots.used_lt (slots_eq_none.mpr free)
    rwa [Fintype.card_fin] at lt
  have notFull : ¬s.mgr.usedNum = tcpSessNum := by
    rw [used]
    change ¬((s.slots.used : Int) + 0 = _)
    omega
  have stepped : s.step (.go t) = .ok (s.advance t skb .alloc) := by
    simp only [Filter.step, call]
    rw [if_neg (fun refused => by rw [locked] at refused; cases refused.2)]
  rw [advance, if_neg notFull] at stepped
  cases cached : s.mgr.freeIndex with
  | some i =>
      simp only [cached] at stepped
      exact ⟨1, i, _, Run.run_cons_ok [] stepped, Function.update_self t _ _,
        slots_eq_none.mp (tabled.cached i cached)⟩
  | none =>
      simp only [cached] at stepped
      exact Allocates.step stepped rfl
        (scan_allocates j.isLt free (Function.update_self t _ _) (Nat.zero_add j.val))

/-! ## The table over runs -/

/-- The counter, the cached index and the busy sessions agree, and allocation finds what is free. -/
structure TableSound (s : Filter) : Prop where
  used : (∀ t, s.calls t = none) → s.mgr.usedNum = census s.info fun info => info.busy = true
  cached : ∀ i, s.mgr.freeIndex = some i → (s.info i).busy = false
  distinct : ∀ i j, (s.info i).busy = true → (s.info j).busy = true →
    (s.info i).flow = (s.info j).flow → i = j
  allocates : ∀ t skb, s.calls t = some ⟨skb, .alloc⟩ → (∃ i, (s.info i).busy = false) →
    Allocates s t skb

theorem used_slots : s.slots.used = census s.info fun info => info.busy = true := by
  rw [Slots.used, census, census]
  congr 1
  apply Finset.filter_congr
  intro i _
  rw [slots]
  cases (s.info i).busy <;> simp

theorem Tabled.sound (tabled : Tabled s) : TableSound s where
  used := by
    intro idle
    rw [(tabled.idle idle).used, used_slots]
    exact Int.add_zero _
  cached := fun i cached => slots_eq_none.mp (tabled.cached i cached)
  distinct := fun i j first second same =>
    tabled.distinct i j _ (slots_eq_some.mpr ⟨first, same⟩) (slots_eq_some.mpr ⟨second, rfl⟩)
  allocates := fun _ _ call room => tabled.allocates call room

/-- After every run of calls one at a time, the table is sound. -/
theorem tableSound_of_oneAtATime (usb : Bool) (hz jiffies : Nat) {events : List Event}
    (serial : Run.Guarded step OneAtATime events (init usb hz jiffies))
    (ran : Run.run step events (init usb hz jiffies) = .ok s) : TableSound s := by
  have preserved : ∀ s e s', Tabled s → True → OneAtATime s e → step s e = .ok s' → Tabled s' :=
    fun _ _ _ tabled _ serial stepped => step_tabled tabled serial stepped
  have tabled : Tabled s :=
    serial.throughout preserved (fun _ tabled => tabled) (fun _ _ => trivial)
      (tabled_init usb hz jiffies) events [] s (List.append_nil events).symm ran
  exact tabled.sound

/-- Sections of a call may follow one another. -/
theorem oneAtATime_go (t n : Nat) (s : Filter) :
    Run.Guarded step OneAtATime (List.replicate n (.go t)) s := by
  induction n generalizing s with
  | zero => trivial
  | succ n induction => exact ⟨trivial, fun next _ => induction next⟩

/-- The first acknowledgement after delaying is enabled. -/
def firstAck : List Event :=
  .setTcpDelayAck .enable 0 :: .call 0 (pureAck 1 1000) :: List.replicate 134 (.go 0)

theorem tableSound_of_oneAtATime_firstAck : ∃ s,
    Run.run step firstAck (init true 1000 0) = .ok s ∧ (s.info 0).busy = true ∧ TableSound s := by
  obtain ⟨s, ran, busy⟩ := Run.ends_of_toOption
    (show (Run.run step firstAck (init true 1000 0)).toOption.map (fun s => (s.info 0).busy) =
        some true by decide +kernel)
  have serial : Run.Guarded step OneAtATime firstAck (init true 1000 0) := by
    refine ⟨trivial, fun s' enabled => ⟨?_, fun s'' _ => oneAtATime_go 0 134 s''⟩⟩
    cases enabled
    exact fun t => rfl
  exact ⟨s, ran, busy, tableSound_of_oneAtATime true 1000 0 serial ran⟩

end Filter

end AmlW2.TcpAck
