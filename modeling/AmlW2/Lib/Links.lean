import Mathlib.Data.List.Chain
import Mathlib.Logic.Function.Basic

/-!
# Doubly linked rings

A list is kept as a ring: each node points to the next and to the previous one, and the ring is
closed by the node that stands for the list itself.  What is linked inside a stretch of nodes does
not change when only its two ends are linked anew.
-/

namespace AmlW2

/-- Where the nodes point. -/
structure Links (α : Type*) where
  next : α → α
  prev : α → α

namespace Links

variable {α : Type*} {m m' : Links α} {h : α} {nodes front back : List α}

/-- One node is followed by another. -/
def Joined (m : Links α) (a b : α) : Prop := m.next a = b ∧ m.prev b = a

/-- The ring of a list that has these nodes. -/
def Ring (m : Links α) (h : α) (nodes : List α) : Prop := (h :: (nodes ++ [h])).IsChain m.Joined

theorem ring_nil : m.Ring h [] ↔ m.Joined h h := List.isChain_pair

/-- A ring is a stretch of nodes whose ends are joined to the node of the list. -/
theorem ring_iff (some : nodes ≠ []) :
    m.Ring h nodes ↔ m.Joined h (nodes.head some) ∧ nodes.IsChain m.Joined ∧
      m.Joined (nodes.getLast some) h := by
  rw [Ring, List.isChain_cons, List.isChain_append]
  simp [List.head?_append, List.head?_eq_some_head some, List.getLast?_eq_some_getLast some]

/-- The nodes of a ring lie in two stretches that are joined. -/
theorem Ring.split (ring : m.Ring h (front ++ back)) (some : front ≠ []) (more : back ≠ []) :
    front.IsChain m.Joined ∧ back.IsChain m.Joined ∧
      m.Joined (front.getLast some) (back.head more) := by
  have chain := ((ring_iff (List.append_ne_nil_of_left_ne_nil some back)).mp ring).2.1
  exact ⟨chain.left_of_append, chain.right_of_append, chain.rel_getLast_head_of_append some more⟩

/-- Going on from the first node one comes to the one behind a stretch. -/
theorem iterate_next (chain : (front ++ back).IsChain m.Joined) (some : front ≠ [])
    (more : back ≠ []) : m.next^[front.length] (front.head some) = back.head more := by
  induction front with
  | nil => exact absurd rfl some
  | cons a front induction =>
      rw [List.length_cons, Function.iterate_succ_apply, List.head_cons]
      cases front with
      | nil =>
          have joined := chain.rel_getLast_head_of_append (List.cons_ne_nil a []) more
          exact joined.1
      | cons b front =>
          have joined := (List.isChain_cons_cons.mp chain).1
          rw [joined.1]
          exact induction (List.isChain_cons_cons.mp chain).2 (List.cons_ne_nil b front)

/-- A stretch stays linked when no node but its last points elsewhere, and none but its first back
elsewhere. -/
theorem chain_of_ends (first last : α) (chain : nodes.IsChain m.Joined)
    (before : m.prev first ∉ nodes) (behind : m.next last ∉ nodes)
    (next : ∀ a ∈ nodes, a ≠ last → m'.next a = m.next a)
    (prev : ∀ a ∈ nodes, a ≠ first → m'.prev a = m.prev a) : nodes.IsChain m'.Joined := by
  refine chain.imp_of_mem_imp fun a b here there joined => ?_
  have inner : a ≠ last := fun same => behind (by rw [← same, joined.1]; exact there)
  have later : b ≠ first := fun same => before (by rw [← same, joined.2]; exact here)
  exact ⟨(next a here inner).trans joined.1, (prev b there later).trans joined.2⟩

end Links

end AmlW2
