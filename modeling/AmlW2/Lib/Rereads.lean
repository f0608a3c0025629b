import Mathlib.Data.List.Basic

/-!
# Words seen again

A reader looks at a place that is written from time to time.  Words that are overwritten before it
looks it does not see, others it sees more than once; what it sees is in the order of the writes.
-/

namespace AmlW2

/-- The second list is seen of the first: each word seen has its place in what was written, and the
places do not go back. -/
def Rereads {α : Type} (written seen : List α) : Prop :=
  ∃ places : List Nat, places.Pairwise (· ≤ ·) ∧ seen.map some = places.map (written[·]?)

section

variable {α : Type} {written seen : List α} {word : α}

theorem Rereads.nil : Rereads ([] : List α) [] := ⟨[], List.Pairwise.nil, rfl⟩

/-- The place of a word that is seen lies inside what was written. -/
theorem place_lt {places : List Nat} (read : seen.map some = places.map (written[·]?)) :
    ∀ i ∈ places, i < written.length := by
  intro i member
  have mapped : written[i]? ∈ seen.map some := by
    rw [read]
    exact List.mem_map_of_mem member
  obtain ⟨word, _, found⟩ := List.mem_map.mp mapped
  exact (List.getElem?_eq_some_iff.mp found.symm).1

/-- The places of words in a list are their places in a longer one. -/
theorem places_append {places : List Nat} (read : seen.map some = places.map (written[·]?))
    (more : List α) : seen.map some = places.map ((written ++ more)[·]?) := by
  rw [read]
  apply List.map_congr_left
  intro i member
  exact (List.getElem?_append_left (place_lt read i member)).symm

/-- What was seen at first is seen of the list. -/
theorem Rereads.of_append {more : List α} (rereads : Rereads written (seen ++ more)) :
    Rereads written seen := by
  obtain ⟨places, sorted, read⟩ := rereads
  rw [List.map_append] at read
  obtain ⟨front, back, rfl, before, _⟩ := List.map_eq_append_iff.mp read.symm
  exact ⟨front, (List.pairwise_append.mp sorted).1, before.symm⟩

/-- A word is written that is not seen. -/
theorem Rereads.missed (rereads : Rereads written seen) (word : α) :
    Rereads (written ++ [word]) seen := by
  obtain ⟨places, sorted, read⟩ := rereads
  exact ⟨places, sorted, places_append read [word]⟩

/-- A word is written and seen. -/
theorem Rereads.first (rereads : Rereads written seen) (word : α) :
    Rereads (written ++ [word]) (seen ++ [word]) := by
  obtain ⟨places, sorted, read⟩ := rereads
  refine ⟨places ++ [written.length], ?_, ?_⟩
  · apply List.pairwise_append.mpr
    refine ⟨sorted, List.pairwise_singleton _ _, ?_⟩
    intro i member j last
    rw [List.mem_singleton.mp last]
    exact Nat.le_of_lt (place_lt read i member)
  · rw [List.map_append, List.map_append, places_append read [word], List.map_singleton,
      List.map_singleton, List.getElem?_concat_length]

/-- The word seen last is seen again. -/
theorem Rereads.again (rereads : Rereads written (seen ++ [word])) :
    Rereads written (seen ++ [word] ++ [word]) := by
  obtain ⟨places, sorted, read⟩ := rereads
  rw [List.map_append, List.map_singleton] at read
  obtain ⟨front, back, rfl, before, last⟩ := List.map_eq_append_iff.mp read.symm
  obtain ⟨place, rfl, found⟩ := List.map_eq_singleton_iff.mp last
  refine ⟨front ++ [place] ++ [place], ?_, ?_⟩
  · apply List.pairwise_append.mpr
    refine ⟨sorted, List.pairwise_singleton _ _, ?_⟩
    intro i member j same
    rw [List.mem_singleton.mp same]
    rcases List.mem_append.mp member with earlier | equal
    · exact (List.pairwise_append.mp sorted).2.2 i earlier place (List.mem_singleton_self _)
    · exact Nat.le_of_eq (List.mem_singleton.mp equal)
  · rw [List.map_append, List.map_append, List.map_append, List.map_append, before,
      List.map_singleton, List.map_singleton, found]

end

end AmlW2
