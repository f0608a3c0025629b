import Mathlib.Data.List.Basic

/-!
# Allocated blocks

A block is a row of cells that hold nothing until they are written.  A store outside the block
fails, and so does a load outside it or of a cell never written.
-/

namespace AmlW2

/-- The cells of a block, by position. -/
abbrev Block (α : Type*) := List (Option α)

namespace Block

variable {α : Type*} {b b' : Block α} {pos off n : Nat} {data : List α}

/-- A block just allocated. -/
def fresh (n : Nat) : Block α := List.replicate n none

/-- What a row of cells holds, if each of them has been written. -/
def written : Block α → Option (List α)
  | [] => some []
  | none :: _ => none
  | some a :: cells => (written cells).map (a :: ·)

/-- Write a row of values from a position on. -/
def store (b : Block α) (pos : Nat) (data : List α) : Option (Block α) :=
  if pos + data.length ≤ b.length then
    some (b.take pos ++ (data.map some ++ b.drop (pos + data.length)))
  else none

/-- Read `n` cells from a position on. -/
def load (b : Block α) (pos n : Nat) : Option (List α) :=
  if pos + n ≤ b.length then written ((b.drop pos).take n) else none

@[simp] theorem length_fresh : (fresh n : Block α).length = n := List.length_replicate

@[simp] theorem written_map_some : written (data.map some) = some data := by
  induction data with
  | nil => rfl
  | cons a data induction =>
      rw [List.map_cons, written, induction]
      rfl

theorem store_of_le (fits : pos + data.length ≤ b.length) :
    ∃ b', b.store pos data = some b' := ⟨_, if_pos fits⟩

theorem le_of_store (stored : b.store pos data = some b') : pos + data.length ≤ b.length := by
  by_contra outside
  rw [store, if_neg outside] at stored
  cases stored

@[simp] theorem length_store (stored : b.store pos data = some b') : b'.length = b.length := by
  have fits := le_of_store stored
  rw [store, if_pos fits] at stored
  cases stored
  simp only [List.length_append, List.length_take, List.length_map, List.length_drop]
  omega

/-- What has been stored is what is loaded. -/
theorem load_store (stored : b.store pos data = some b') (inside : off + n ≤ data.length) :
    b'.load (pos + off) n = some ((data.drop off).take n) := by
  have fits := le_of_store stored
  have size := length_store stored
  rw [store, if_pos fits] at stored
  cases stored
  have front : (b.take pos).length = pos := List.length_take_of_le (by omega)
  rw [load, if_pos (by omega), ← List.drop_drop, List.drop_left' front,
    List.drop_append_of_le_length (by rw [List.length_map]; omega),
    List.take_append_of_le_length (by rw [List.length_drop, List.length_map]; omega),
    ← List.map_drop, ← List.map_take, written_map_some]

end Block

end AmlW2
