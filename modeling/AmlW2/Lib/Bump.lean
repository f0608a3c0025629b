import Mathlib.Data.List.Pairwise
import Mathlib.Order.Nat

/-!
# Bump allocation

Extents of a buffer are handed out one right behind the other and are given back in the order in
which they were handed out.  An extent that would pass the end of the buffer goes to its beginning.
No two extents in use overlap as long as every new one ends before the oldest.
-/

namespace AmlW2.Bump

/-- Some bytes of a buffer. -/
structure Extent where
  start : Nat
  length : Nat
deriving DecidableEq, Repr

namespace Extent

/-- Where an extent ends. -/
def stop (x : Extent) : Nat := x.start + x.length

/-- Two extents lie in different places. -/
def Apart (x y : Extent) : Prop := x.stop ≤ y.start ∨ y.stop ≤ x.start

instance (x y : Extent) : Decidable (x.Apart y) := inferInstanceAs (Decidable (_ ∨ _))

end Extent

/-- Extents one right behind the other, from one position to another. -/
def Row : Nat → List Extent → Nat → Prop
  | a, [], b => a = b
  | a, x :: xs, b => x.start = a ∧ Row x.stop xs b

section Row

variable {a b : Nat} {x : Extent} {xs : List Extent}

theorem Row.snoc {length : Nat} (row : Row a xs b) : Row a (xs ++ [⟨b, length⟩]) (b + length) := by
  induction xs generalizing a with
  | nil => exact ⟨row.symm, rfl⟩
  | cons x xs induction => exact ⟨row.1, induction row.2⟩

theorem Row.le (row : Row a xs b) : a ≤ b := by
  induction xs generalizing a with
  | nil => exact Nat.le_of_eq row
  | cons x xs induction =>
      have first := row.1
      have later := induction row.2
      rw [Extent.stop] at later
      omega

theorem Row.within (row : Row a xs b) (member : x ∈ xs) : a ≤ x.start ∧ x.stop ≤ b := by
  induction xs generalizing a with
  | nil => cases member
  | cons y ys induction =>
      have first := row.1
      rcases List.mem_cons.mp member with rfl | later
      · exact ⟨Nat.le_of_eq first.symm, row.2.le⟩
      · have inside := induction row.2 later
        rw [Extent.stop] at inside
        omega

theorem Row.pairwise (row : Row a xs b) : xs.Pairwise Extent.Apart := by
  induction xs generalizing a with
  | nil => exact List.Pairwise.nil
  | cons x xs induction =>
      exact List.pairwise_cons.mpr
        ⟨fun y member => Or.inl (row.2.within member).1, induction row.2⟩

end Row

/-- Where an extent goes. -/
def place (size offset length : Nat) : Nat := if offset + length > size then 0 else offset

/-- How the extents in use lie: in one row up to the offset, or in two, the older ones behind the
offset and the others from the beginning up to it. -/
inductive Laid (size offset : Nat) : List Extent → Prop
  | straight {a : Nat} {used : List Extent} (row : Row a used offset) (inside : offset ≤ size) :
      Laid size offset used
  | anew {a b : Nat} {x y : Extent} {older newer : List Extent} (behind : Row a (x :: older) b)
      (row : Row 0 (y :: newer) offset) (room : offset ≤ a) (inside : b ≤ size) :
      Laid size offset (x :: older ++ y :: newer)

/-- What is required of the length of a new extent: it fits the buffer, and it does not reach the
oldest extent in use, where the offset has not yet come or where the new extent begins anew. -/
def Room (size offset length : Nat) (used : List Extent) : Prop :=
  length ≤ size ∧ ∀ oldest ∈ used.head?,
    if offset ≤ oldest.start then offset + length ≤ oldest.start
    else offset + length ≤ size ∨ length ≤ oldest.start

instance (size offset length : Nat) (used : List Extent) :
    Decidable (Room size offset length used) :=
  inferInstanceAs (Decidable (_ ∧ ∀ oldest ∈ used.head?, _))

section Laid

variable {size offset length : Nat} {x : Extent} {used : List Extent}

theorem laid_nil (inside : offset ≤ size) : Laid size offset [] := .straight rfl inside

theorem Laid.inside (laid : Laid size offset used) (member : x ∈ used) : x.stop ≤ size := by
  cases laid with
  | straight row inside => exact (row.within member).2.trans inside
  | anew behind row room inside =>
      rcases List.mem_append.mp member with older | newer
      · exact (behind.within older).2.trans inside
      · exact (row.within newer).2.trans (room.trans (behind.le.trans inside))

theorem Laid.offset_le (laid : Laid size offset used) : offset ≤ size := by
  cases laid with
  | straight row inside => exact inside
  | anew behind row room inside => exact room.trans (behind.le.trans inside)

theorem Laid.pairwise (laid : Laid size offset used) : used.Pairwise Extent.Apart := by
  cases laid with
  | straight row inside => exact row.pairwise
  | anew behind row room inside =>
      refine List.pairwise_append.mpr ⟨behind.pairwise, row.pairwise, fun x older y newer => ?_⟩
      have first := behind.within older
      have second := row.within newer
      right
      omega

/-- The oldest extent is given back. -/
theorem Laid.tail (laid : Laid size offset (x :: used)) : Laid size offset used := by
  generalize all : x :: used = extents at laid
  cases laid with
  | straight row inside =>
      subst all
      exact .straight row.2 inside
  | anew behind row room inside =>
      rename_i a b x' y older newer
      obtain ⟨rfl, rfl⟩ := List.cons.inj all
      cases older with
      | nil => exact .straight row (room.trans (behind.le.trans inside))
      | cons z older =>
          have later := (behind.2.within List.mem_cons_self).1
          have start := behind.1
          have next := behind.2.1
          refine .anew behind.2 row ?_ inside
          rw [Extent.stop]
          omega

/-- When the second oldest extent lies before the oldest, all the others do. -/
theorem Laid.before {y : Extent} (laid : Laid size offset (x :: y :: used))
    (first : y.start < x.start) : ∀ z ∈ y :: used, z.stop ≤ x.start := by
  generalize all : x :: y :: used = extents at laid
  cases laid with
  | straight row inside =>
      subst all
      have next := row.2.1
      rw [Extent.stop] at next
      omega
  | anew behind row room inside =>
      rename_i a b x' y' older newer
      obtain ⟨rfl, rest⟩ := List.cons.inj all
      cases older with
      | nil =>
          rw [show y :: used = y' :: newer from rest]
          intro z member
          have start := behind.1
          exact (row.within member).2.trans (by omega)
      | cons z older =>
          obtain ⟨rfl, -⟩ := List.cons.inj rest
          have next := behind.2.1
          rw [Extent.stop] at next
          omega

/-- An extent with room is handed out. -/
theorem Laid.push (laid : Laid size offset used) (positive : ∀ x ∈ used, 0 < x.length)
    (room : Room size offset length used) :
    Laid size (place size offset length + length)
      (used ++ [⟨place size offset length, length⟩]) := by
  obtain ⟨fits, ahead⟩ := room
  cases laid with
  | straight row inside =>
      rw [place]
      split_ifs with passes
      · rw [Nat.zero_add]
        cases used with
        | nil => exact .straight (a := 0) ⟨rfl, Nat.zero_add length⟩ fits
        | cons x used =>
            have last := (row.within List.mem_cons_self).2
            have some := positive x List.mem_cons_self
            have clear := ahead x rfl
            rw [Extent.stop] at last
            rw [if_neg (by omega)] at clear
            have start := row.1
            refine .anew row ⟨rfl, Nat.zero_add length⟩ ?_ inside
            omega
      · exact .straight row.snoc (by omega)
  | anew behind row room inside =>
      rename_i a b x y older newer
      have start := behind.1
      have whole := behind.le
      have clear := ahead x rfl
      rw [if_pos (by omega)] at clear
      rw [place, if_neg (by omega), List.append_assoc, List.cons_append]
      exact .anew behind row.snoc (by omega) inside

/-- An extent that fits and lies apart from those in use had room. -/
theorem Laid.room (laid : Laid size offset used) (positive : ∀ x ∈ used, 0 < x.length)
    (some : 0 < length) (fits : place size offset length + length ≤ size)
    (apart : ∀ x ∈ used, x.Apart ⟨place size offset length, length⟩) :
    Room size offset length used := by
  refine ⟨(Nat.le_add_left _ _).trans fits, fun oldest member => ?_⟩
  have first := positive oldest (List.mem_of_mem_head? member)
  have clear := apart oldest (List.mem_of_mem_head? member)
  simp only [place, Extent.Apart, Extent.stop] at fits clear
  cases laid with
  | straight row inside =>
      have last := (row.within (List.mem_of_mem_head? member)).2
      rw [Extent.stop] at last
      split_ifs at fits clear ⊢ <;> omega
  | anew behind row room inside =>
      rename_i a b x y older newer
      obtain rfl : x = oldest := Option.some.inj member
      have start := behind.1
      have second := apart y (List.mem_append_right _ List.mem_cons_self)
      have zero := row.1
      have filled := positive y (List.mem_append_right _ List.mem_cons_self)
      simp only [place, Extent.Apart, Extent.stop] at second
      split_ifs at fits clear second ⊢ <;> omega

end Laid

end AmlW2.Bump
