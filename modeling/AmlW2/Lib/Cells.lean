import AmlW2.Lib.Memory
import Mathlib.Data.List.Chain

/-!
# Linked cells in a byte memory

A cell is a region of fixed size whose word at a fixed offset tells the position of the next cell.
Linking the cells of a list one after the other changes these words only, so the cells that lie
apart from them keep theirs.
-/

namespace AmlW2.Cells

/-- Regions of a given size at two positions that do not overlap. -/
def Apart (size p q : Nat) : Prop := p + size ≤ q ∨ q + size ≤ p

theorem Apart.symm {size p q : Nat} (apart : Apart size p q) : Apart size q p := Or.symm apart

/-- The link of the cell at a position. -/
def word (off : Nat) (m : Memory) (p : Nat) : Nat := m.u32 (p + off)

/-- Set the link of the cell at a position. -/
def link (off : Nat) (m : Memory) (p v : Nat) : Memory := m.set32 (p + off) v

/-- Set the link of a cell, if there is one, and then of each cell of the list but the last, to the
cell that follows. -/
def linkAll (off : Nat) (m : Memory) : Option Nat → List Nat → Memory
  | _, [] => m
  | none, p :: ps => linkAll off m (some p) ps
  | some q, p :: ps => linkAll off (link off m q p) (some p) ps

variable {off size : Nat} {m m' : Memory} {p q v : Nat}

theorem word_link_same (small : v < 2 ^ 32) : word off (link off m p v) p = v :=
  Memory.u32_set32 small

theorem word_eq_of_same (same : Memory.Same m p m' q size) (fits : off + 4 ≤ size) :
    word off m p = word off m' q :=
  (same.drop off).u32_eq (by omega)

/-- Setting a link leaves every byte outside the cell alone. -/
theorem link_same {r n : Nat} (fits : off + 4 ≤ size) (apart : r + n ≤ p ∨ p + size ≤ r) :
    Memory.Same (link off m p v) r m r n := by
  rw [link, Memory.set32]
  rcases apart with before | after
  · exact Memory.same_put_of_le (by omega)
  · exact Memory.same_put_of_ge (by omega)

theorem word_link_apart (fits : off + 4 ≤ size) (apart : Apart size p q) :
    word off (link off m p v) q = word off m q :=
  word_eq_of_same (link_same fits apart.symm) fits

/-- Linking leaves every byte outside the cells that are linked alone. -/
theorem linkAll_same {r n : Nat} (fits : off + 4 ≤ size) {prev : Option Nat} {ps : List Nat}
    (apart : ∀ q ∈ prev.toList ++ ps, r + n ≤ q ∨ q + size ≤ r) :
    Memory.Same (linkAll off m prev ps) r m r n := by
  induction ps generalizing m prev with
  | nil => exact Memory.Same.refl m r n
  | cons p ps induction =>
      have rest : ∀ q ∈ (some p).toList ++ ps, r + n ≤ q ∨ q + size ≤ r := fun q member =>
        apart q (List.mem_append_right _ member)
      cases prev with
      | none => exact induction rest
      | some first => exact (induction rest).trans (link_same fits (apart first (by simp)))

/-- Linking leaves every byte outside the links alone. -/
theorem linkAll_byte {x : Nat} {prev : Option Nat} {ps : List Nat}
    (outside : ∀ q ∈ prev.toList ++ ps, x < q + off ∨ q + off + 4 ≤ x) :
    linkAll off m prev ps x = m x := by
  induction ps generalizing m prev with
  | nil => cases prev <;> rfl
  | cons p ps induction =>
      have rest : ∀ q ∈ (some p).toList ++ ps, x < q + off ∨ q + off + 4 ≤ x := fun q member =>
        outside q (List.mem_append_right _ member)
      cases prev with
      | none => exact induction rest
      | some first =>
          have away := outside first (by simp)
          rw [linkAll, induction rest, link, Memory.set32, Memory.put, if_neg (by omega)]

theorem word_linkAll_apart (fits : off + 4 ≤ size) {prev : Option Nat} {ps : List Nat}
    (apart : ∀ p ∈ prev.toList ++ ps, Apart size q p) :
    word off (linkAll off m prev ps) q = word off m q :=
  word_eq_of_same (linkAll_same fits apart) fits

/-- The cells linked are chained. -/
theorem linkAll_isChain (fits : off + 4 ≤ size) {prev : Option Nat} {ps : List Nat}
    (apart : (prev.toList ++ ps).Pairwise (Apart size)) (small : ∀ p ∈ ps, p < 2 ^ 32) :
    (prev.toList ++ ps).IsChain fun a b => word off (linkAll off m prev ps) a = b := by
  induction ps generalizing m prev with
  | nil => cases prev <;> simp
  | cons p ps induction =>
      have tail : ((some p).toList ++ ps).Pairwise (Apart size) :=
        apart.sublist (List.sublist_append_right _ _)
      have rest : ∀ m, ((some p).toList ++ ps).IsChain
          fun a b => word off (linkAll off m (some p) ps) a = b := fun m =>
        induction tail fun q member => small q (List.mem_cons_of_mem p member)
      cases prev with
      | none => exact rest m
      | some first =>
          refine List.isChain_cons_cons.mpr ⟨?_, rest _⟩
          have others : ∀ q ∈ (some p).toList ++ ps, Apart size first q := fun _ member =>
            List.rel_of_pairwise_cons apart member
          rw [linkAll, word_linkAll_apart fits others, word_link_same (small p List.mem_cons_self)]

/-- The last cell keeps its link. -/
theorem word_linkAll_last (fits : off + 4 ≤ size) {prev : Option Nat} {ps : List Nat} {last : Nat}
    (apart : (prev.toList ++ ps).Pairwise (Apart size))
    (isLast : (prev.toList ++ ps).getLast? = some last) :
    word off (linkAll off m prev ps) last = word off m last := by
  induction ps generalizing m prev with
  | nil => rfl
  | cons p ps induction =>
      have tail : ((some p).toList ++ ps).Pairwise (Apart size) :=
        apart.sublist (List.sublist_append_right _ _)
      have end_ : ((some p).toList ++ ps).getLast? = some last := by
        rw [← isLast, List.getLast?_append_of_ne_nil _ (List.cons_ne_nil p ps)]
        rfl
      cases prev with
      | none => exact induction tail end_
      | some first =>
          rw [linkAll, induction tail end_]
          exact word_link_apart fits
            (List.rel_of_pairwise_cons apart (List.mem_of_getLast? end_))

end AmlW2.Cells
