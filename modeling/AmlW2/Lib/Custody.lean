import Mathlib.Data.List.Nodup
import Mathlib.Data.Set.Insert
import Mathlib.Logic.Function.Basic

/-!
# Custody

Items are taken over, kept in slots and disposed of.  What moves them disposes of whatever it finds
in the slot, so an item that has been taken over is in one slot or has been disposed of once.
-/

namespace AmlW2

/-- Who keeps what: the slots, what has been disposed of, and what has been taken over. -/
@[ext]
structure Custody (κ α : Type*) where
  slot : κ → Option α
  gone : List α
  taken : Set α

namespace Custody

variable {κ α : Type*}

/-- Every item taken over is in one slot, or has been disposed of once. -/
structure Sound (c : Custody κ α) : Prop where
  distinct : ∀ {i j a}, c.slot i = some a → c.slot j = some a → i = j
  kept : ∀ {i a}, c.slot i = some a → a ∉ c.gone
  once : c.gone.Nodup
  mem_taken : ∀ a, a ∈ c.taken ↔ (∃ i, c.slot i = some a) ∨ a ∈ c.gone

variable [DecidableEq κ]

/-- Take an item over without keeping it. -/
def discard (c : Custody κ α) (a : α) : Custody κ α :=
  { c with gone := c.gone ++ [a], taken := insert a c.taken }

/-- Dispose of what a slot holds. -/
def clear (c : Custody κ α) (i : κ) : Custody κ α :=
  { c with slot := Function.update c.slot i none, gone := c.gone ++ (c.slot i).toList }

/-- Take an item over into an empty slot. -/
def fill (c : Custody κ α) (i : κ) (a : α) : Custody κ α :=
  { c with slot := Function.update c.slot i (some a), taken := insert a c.taken }

/-- What a slot holds is lost. -/
def lose (c : Custody κ α) (i : κ) : Custody κ α :=
  { c with slot := Function.update c.slot i none }

variable {c : Custody κ α} {i j : κ} {a b : α}

theorem slot_clear : (c.clear i).slot j = some a ↔ j ≠ i ∧ c.slot j = some a := by
  rcases eq_or_ne j i with rfl | ne
  · simp [clear]
  · simp [clear, ne]

theorem slot_fill : (c.fill i a).slot j = some b ↔
    (j = i ∧ b = a) ∨ (j ≠ i ∧ c.slot j = some b) := by
  rcases eq_or_ne j i with rfl | ne
  · simp [fill, eq_comm]
  · simp [fill, ne]

theorem mem_gone_clear : a ∈ (c.clear i).gone ↔ a ∈ c.gone ∨ c.slot i = some a := by
  simp [clear]

namespace Sound

omit [DecidableEq κ] in
theorem slot_taken (sound : c.Sound) (slot : c.slot i = some a) : a ∈ c.taken :=
  (sound.mem_taken a).mpr (.inl ⟨i, slot⟩)

omit [DecidableEq κ] in
theorem gone_taken (sound : c.Sound) (gone : a ∈ c.gone) : a ∈ c.taken :=
  (sound.mem_taken a).mpr (.inr gone)

omit [DecidableEq κ] in
theorem discard (sound : c.Sound) (fresh : a ∉ c.taken) : (c.discard a).Sound where
  distinct := sound.distinct
  kept {i b} slot gone := by
    rcases List.mem_append.mp gone with before | now
    · exact sound.kept slot before
    · obtain rfl := List.mem_singleton.mp now
      exact fresh (sound.slot_taken slot)
  once := by
    apply List.Nodup.append sound.once (List.nodup_singleton a)
    intro b gone now
    obtain rfl := List.mem_singleton.mp now
    exact fresh (sound.gone_taken gone)
  mem_taken b := by
    have before := sound.mem_taken b
    simp only [Custody.discard, Set.mem_insert_iff, List.mem_append, List.mem_singleton, before]
    tauto

theorem clear (sound : c.Sound) (i : κ) : (c.clear i).Sound where
  distinct first second :=
    sound.distinct (slot_clear.mp first).2 (slot_clear.mp second).2
  kept {j b} slot gone := by
    obtain ⟨ne, slot⟩ := slot_clear.mp slot
    rcases mem_gone_clear.mp gone with before | now
    · exact sound.kept slot before
    · exact ne (sound.distinct slot now)
  once := by
    apply List.Nodup.append sound.once
    · cases c.slot i <;> simp
    · intro b gone now
      exact sound.kept (Option.mem_toList.mp now) gone
  mem_taken b := by
    have before := sound.mem_taken b
    rw [mem_gone_clear]
    simp only [slot_clear]
    constructor
    · intro taken
      rcases before.mp taken with ⟨j, slot⟩ | gone
      · rcases eq_or_ne j i with rfl | ne
        · exact .inr (.inr slot)
        · exact .inl ⟨j, ne, slot⟩
      · exact .inr (.inl gone)
    · rintro (⟨j, -, slot⟩ | gone | slot)
      · exact sound.slot_taken slot
      · exact sound.gone_taken gone
      · exact sound.slot_taken slot

theorem fill (sound : c.Sound) (empty : c.slot i = none) (fresh : a ∉ c.taken) :
    (c.fill i a).Sound where
  distinct {j k b} first second := by
    rcases slot_fill.mp first with ⟨rfl, rfl⟩ | ⟨-, slot⟩
    · rcases slot_fill.mp second with ⟨rfl, -⟩ | ⟨-, other⟩
      · rfl
      · exact absurd (sound.slot_taken other) fresh
    · rcases slot_fill.mp second with ⟨rfl, rfl⟩ | ⟨-, other⟩
      · exact absurd (sound.slot_taken slot) fresh
      · exact sound.distinct slot other
  kept {j b} slot gone := by
    rcases slot_fill.mp slot with ⟨rfl, rfl⟩ | ⟨-, slot⟩
    · exact fresh (sound.gone_taken gone)
    · exact sound.kept slot gone
  once := sound.once
  mem_taken b := by
    have before := sound.mem_taken b
    simp only [slot_fill]
    constructor
    · rintro (rfl | taken)
      · exact .inl ⟨i, .inl ⟨rfl, rfl⟩⟩
      · rcases before.mp taken with ⟨j, slot⟩ | gone
        · have ne : j ≠ i := by
            rintro rfl
            rw [empty] at slot
            cases slot
          exact .inl ⟨j, .inr ⟨ne, slot⟩⟩
        · exact .inr gone
    · rintro (⟨j, ⟨-, rfl⟩ | ⟨-, slot⟩⟩ | gone)
      · exact Set.mem_insert b c.taken
      · exact Set.mem_insert_of_mem a (sound.slot_taken slot)
      · exact Set.mem_insert_of_mem a (sound.gone_taken gone)

/-- An item that is lost is nowhere to be found. -/
theorem not_lose (sound : c.Sound) (slot : c.slot i = some a) : ¬(c.lose i).Sound := by
  intro later
  have taken : a ∈ (c.lose i).taken := sound.slot_taken slot
  rcases (later.mem_taken a).mp taken with ⟨j, found⟩ | gone
  · rcases eq_or_ne j i with rfl | ne
    · simp [lose] at found
    · have elsewhere : c.slot j = some a := by simpa [lose, ne] using found
      exact ne (sound.distinct elsewhere slot)
  · exact sound.kept slot gone

end Sound

omit [DecidableEq κ] in
/-- Custody is sound when each item taken over is accounted for once, and no other item at all. -/
theorem sound_iff [DecidableEq α] : c.Sound ↔
    (∀ a ∈ c.taken, (∃! i, c.slot i = some a) ∧ c.gone.count a = 0 ∨
      (∀ i, c.slot i ≠ some a) ∧ c.gone.count a = 1) ∧
    ∀ a ∉ c.taken, (∀ i, c.slot i ≠ some a) ∧ c.gone.count a = 0 := by
  constructor
  · intro sound
    constructor
    · intro a taken
      rcases (sound.mem_taken a).mp taken with ⟨i, slot⟩ | gone
      · exact .inl ⟨⟨i, slot, fun j other => sound.distinct other slot⟩,
          List.count_eq_zero.mpr (sound.kept slot)⟩
      · exact .inr ⟨fun i slot => sound.kept slot gone, List.count_eq_one_of_mem sound.once gone⟩
    · intro a fresh
      exact ⟨fun i slot => fresh (sound.slot_taken slot),
        List.count_eq_zero.mpr fun gone => fresh (sound.gone_taken gone)⟩
  · rintro ⟨mine, others⟩
    have slot_mine : ∀ {i a}, c.slot i = some a →
        (∃! i, c.slot i = some a) ∧ c.gone.count a = 0 := by
      intro i a slot
      by_cases taken : a ∈ c.taken
      · exact (mine a taken).resolve_right fun gone => gone.1 i slot
      · exact absurd slot ((others a taken).1 i)
    constructor
    · intro i j a first second
      exact (slot_mine first).1.unique first second
    · intro i a slot
      exact List.count_eq_zero.mp (slot_mine slot).2
    · rw [List.nodup_iff_count_le_one]
      intro a
      by_cases taken : a ∈ c.taken
      · rcases mine a taken with held | gone
        · exact held.2.trans_le (Nat.zero_le 1)
        · exact gone.2.le
      · exact (others a taken).2.trans_le (Nat.zero_le 1)
    · intro a
      constructor
      · intro taken
        rcases mine a taken with held | gone
        · exact .inl held.1.exists
        · exact .inr (List.count_pos_iff.mp (gone.2 ▸ Nat.one_pos))
      · intro somewhere
        by_contra fresh
        rcases somewhere with ⟨i, slot⟩ | gone
        · exact (others a fresh).1 i slot
        · exact List.count_eq_zero.mp (others a fresh).2 gone

end Custody

end AmlW2
