import AmlW2.Lib.Census
import Mathlib.Data.Fintype.Card

/-!
# Tables of keyed slots

A finite table whose slots are empty or hold a key.  Emptying a slot, or filling an empty one with a
key that the table lacks, keeps the keys distinct, and changes the number of slots in use by one.
-/

namespace AmlW2

/-- What each slot holds. -/
abbrev Slots (ι κ : Type*) := ι → Option κ

namespace Slots

variable {ι κ : Type*} {s : Slots ι κ} {i : ι} {k : κ}

/-- No slot holds the key. -/
def Lacks (s : Slots ι κ) (k : κ) : Prop := ∀ i, s i ≠ some k

/-- Some slot holds the key. -/
def Holds (s : Slots ι κ) (k : κ) : Prop := ∃ i, s i = some k

/-- No two slots hold one key. -/
def Distinct (s : Slots ι κ) : Prop := ∀ i j k, s i = some k → s j = some k → i = j

variable [DecidableEq ι]

/-- Empty a slot. -/
def vacate (s : Slots ι κ) (i : ι) : Slots ι κ := Function.update s i none

/-- Fill a slot. -/
def occupy (s : Slots ι κ) (i : ι) (k : κ) : Slots ι κ := Function.update s i (some k)

theorem vacate_self : s.vacate i i = none := by rw [vacate, Function.update_self]

theorem occupy_self : s.occupy i k i = some k := by rw [occupy, Function.update_self]

theorem eq_some_of_vacate {j : ι} (held : s.vacate i j = some k) : s j = some k := by
  rcases eq_or_ne j i with rfl | other
  · rw [vacate_self] at held
    cases held
  · rwa [vacate, Function.update_of_ne other] at held

theorem occupy_of_ne {j : ι} (other : j ≠ i) : s.occupy i k j = s j :=
    Function.update_of_ne other _ s

theorem Distinct.vacate (distinct : s.Distinct) (i : ι) : (s.vacate i).Distinct :=
  fun a b k first second =>
    distinct a b k (eq_some_of_vacate first) (eq_some_of_vacate second)

theorem Distinct.occupy (distinct : s.Distinct) (lacks : s.Lacks k) (i : ι) :
    (s.occupy i k).Distinct := by
  intro a b k' first second
  rcases eq_or_ne a i with a_eq | a_ne <;> rcases eq_or_ne b i with b_eq | b_ne
  · rw [a_eq, b_eq]
  · rw [a_eq, occupy_self] at first
    rw [occupy_of_ne b_ne, ← first] at second
    exact absurd second (lacks b)
  · rw [b_eq, occupy_self] at second
    rw [occupy_of_ne a_ne, ← second] at first
    exact absurd first (lacks a)
  · rw [occupy_of_ne a_ne] at first
    rw [occupy_of_ne b_ne] at second
    exact distinct a b k' first second

variable [Fintype ι]

/-- How many slots are in use. -/
def used (s : Slots ι κ) : Nat := census s fun held => held.isSome = true

omit [DecidableEq ι] in
theorem used_lt (empty : s i = none) : s.used < Fintype.card ι :=
  census_lt (i := i) (by simp [empty])

omit [DecidableEq ι] in
theorem used_empty (empty : ∀ i, s i = none) : s.used = 0 :=
  census_eq_zero.mpr fun i => by simp [empty i]

theorem used_vacate (held : s i = some k) : (s.vacate i).used + 1 = s.used :=
  census_update_leave (by simp [held]) (by simp)

theorem used_occupy (empty : s i = none) : (s.occupy i k).used = s.used + 1 :=
  census_update_join (by simp [empty]) (by simp)

omit [DecidableEq ι] in
theorem used_le : s.used ≤ Fintype.card ι := Finset.card_le_univ _

omit [DecidableEq ι] in
theorem used_pos : 0 < s.used ↔ ∃ k, s.Holds k := by
  rw [used, census_pos]
  constructor
  · rintro ⟨i, held⟩
    obtain ⟨k, held⟩ := Option.isSome_iff_exists.mp held
    exact ⟨k, i, held⟩
  · rintro ⟨k, i, held⟩
    exact ⟨i, by rw [held]; rfl⟩

omit [DecidableEq ι] in
/-- A table holds no more keys than it has slots. -/
theorem length_le_card {keys : List κ} (nodup : keys.Nodup) (held : ∀ k ∈ keys, s.Holds k) :
    keys.length ≤ Fintype.card ι := by
  choose slot there using held
  have slots : (keys.attach.map fun k => slot k.1 k.2).Nodup := by
    refine (List.nodup_attach.mpr nodup).map_on fun a _ b _ same => ?_
    have first := there a.1 a.2
    rw [same, there b.1 b.2] at first
    exact Subtype.ext (Option.some.inj first).symm
  simpa using slots.length_le_card

/-! ## Filling the free slots -/

/-- Keys are put into the free slots one after the other: what the slots hold then, and the keys
that found one. -/
def fill : List ι → Slots ι κ → List κ → Slots ι κ × List κ
  | i :: is, s, k :: ks =>
      if (s i).isNone then ((fill is (s.occupy i k) ks).1, k :: (fill is (s.occupy i k) ks).2)
      else fill is s (k :: ks)
  | _, s, _ => (s, [])

omit [Fintype ι] in
theorem holds_occupy (empty : s i = none) (k' : κ) :
    (s.occupy i k).Holds k' ↔ s.Holds k' ∨ k' = k := by
  constructor
  · rintro ⟨j, held⟩
    rcases eq_or_ne j i with rfl | other
    · rw [occupy_self] at held
      exact Or.inr (Option.some.inj held).symm
    · rw [occupy_of_ne other] at held
      exact Or.inl ⟨j, held⟩
  · rintro (⟨j, held⟩ | rfl)
    · have other : j ≠ i := by
        rintro rfl
        rw [empty] at held
        cases held
      exact ⟨j, by rw [occupy_of_ne other, held]⟩
    · exact ⟨i, occupy_self⟩

/-- The keys that found a slot are held, the others that were held before. -/
theorem fill_spec (is : List ι) (s : Slots ι κ) (ks : List κ) :
    (∀ k, (fill is s ks).1.Holds k ↔ s.Holds k ∨ k ∈ (fill is s ks).2) ∧
      (fill is s ks).1.used = s.used + (fill is s ks).2.length := by
  induction is generalizing s ks with
  | nil => simp [fill]
  | cons i is induction =>
      cases ks with
      | nil => simp [fill]
      | cons k ks =>
          rw [fill]
          split
          · rename_i free
            have empty : s i = none := Option.isNone_iff_eq_none.mp free
            obtain ⟨held, count⟩ := induction (s.occupy i k) ks
            refine ⟨fun k' => ?_, ?_⟩
            · rw [held, holds_occupy empty, List.mem_cons, or_assoc]
            · rw [count, used_occupy empty, List.length_cons]
              omega
          · exact induction s (k :: ks)

omit [Fintype ι] in
/-- Free slots enough take all keys. -/
theorem fill_all {is : List ι} {s : Slots ι κ} {ks : List κ} (nodup : is.Nodup)
    (free : ∀ i ∈ is, s i = none) (enough : ks.length ≤ is.length) : (fill is s ks).2 = ks := by
  induction is generalizing s ks with
  | nil =>
      obtain rfl := List.length_eq_zero_iff.mp (Nat.le_zero.mp enough)
      rfl
  | cons i is induction =>
      cases ks with
      | nil => rfl
      | cons k ks =>
          have here : (s i).isNone = true := by rw [free i List.mem_cons_self]; rfl
          obtain ⟨fresh, nodup⟩ := List.nodup_cons.mp nodup
          rw [fill, if_pos here, induction nodup _ (Nat.le_of_succ_le_succ enough)]
          intro j member
          have other : j ≠ i := fun same => fresh (same ▸ member)
          rw [occupy_of_ne other]
          exact free j (List.mem_cons_of_mem i member)

omit [Fintype ι] in
/-- Distinct new keys keep the keys distinct. -/
theorem Distinct.fill {is : List ι} {s : Slots ι κ} {ks : List κ} (distinct : s.Distinct)
    (nodup : ks.Nodup) (lacks : ∀ k ∈ ks, s.Lacks k) : (fill is s ks).1.Distinct := by
  induction is generalizing s ks with
  | nil => simpa [Slots.fill] using distinct
  | cons i is induction =>
      cases ks with
      | nil => simpa [Slots.fill] using distinct
      | cons k ks =>
          obtain ⟨fresh, rest⟩ := List.nodup_cons.mp nodup
          rw [Slots.fill]
          split
          · apply induction (distinct.occupy (lacks k List.mem_cons_self) i) rest
            intro k' member j
            rcases eq_or_ne j i with rfl | other
            · rw [occupy_self]
              rintro same
              exact fresh (Option.some.inj same ▸ member)
            · rw [occupy_of_ne other]
              exact lacks k' (List.mem_cons_of_mem k member) j
          · exact induction distinct nodup lacks

end Slots

end AmlW2
