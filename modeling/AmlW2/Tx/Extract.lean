import AmlW2.Lib.Links
import AmlW2.Tx.Queue

/-!
# The frames taken out of a queue

`skb_queue_extract` moves the first frames of a list to the list of those to push, by the pointers
of the frames at the two ends.  For a number that is not positive it finds the head of the list
where it looks for the last frame to move, and links that head into the list of frames to push.
-/

namespace AmlW2.Tx

/-- Lists of socket buffers: the pointers of the buffers and of the heads, and the lengths that the
heads tell. -/
structure SkbLists (α : Type*) extends Links α where
  qlen : α → Int

namespace SkbLists

variable {α : Type*} [DecidableEq α]

def setNext (m : SkbLists α) (a b : α) : SkbLists α := { m with next := Function.update m.next a b }

def setPrev (m : SkbLists α) (a b : α) : SkbLists α := { m with prev := Function.update m.prev a b }

def addQlen (m : SkbLists α) (a : α) (n : Int) : SkbLists α :=
  { m with qlen := Function.update m.qlen a (m.qlen a + n) }

/-- `skb_queue_extract`. -/
def skbQueueExtract (m : SkbLists α) (list head : α) (nbElt : Int) : SkbLists α :=
  let first := m.next list
  let ptr := m.next^[nbElt.toNat] first
  let last := m.prev ptr
  -- unlinked from the list
  let m := ((m.addQlen list (-nbElt)).setNext list ptr).setPrev ptr list
  -- appended to the other one
  let m := (m.addQlen head nbElt).setNext last head
  let m := m.setNext (m.prev head) first
  let m := m.setPrev first (m.prev head)
  m.setPrev head last

/-- A list has these buffers. -/
structure Holds (m : SkbLists α) (h : α) (skbs : List α) : Prop where
  ring : m.Ring h skbs
  qlen : m.qlen h = skbs.length

variable {m : SkbLists α} {list head : α} {skbs : List α} {nbElt : Int}

/-- The pointers afterwards, when the other list was empty. -/
theorem skbQueueExtract_links (empty : m.Holds head []) {first ptr last : α}
    (start : m.next list = first) (behind : m.next^[nbElt.toNat] first = ptr)
    (before : m.prev ptr = last) (other : ptr ≠ head) (a : α) :
    (m.skbQueueExtract list head nbElt).next a =
        (if a = head then first else if a = last then head else if a = list then ptr
          else m.next a) ∧
      (m.skbQueueExtract list head nbElt).prev a =
        (if a = head then last else if a = first then head else if a = ptr then list
          else m.prev a) := by
  have alone := (Links.ring_nil.mp empty.ring).2
  simp only [skbQueueExtract, addQlen, setNext, setPrev, start, behind, before,
    Function.update_of_ne other.symm, alone]
  exact ⟨by simp only [Function.update_apply], by simp only [Function.update_apply]⟩

theorem skbQueueExtract_qlen (m : SkbLists α) (nbElt : Int) (apart : list ≠ head) :
    (m.skbQueueExtract list head nbElt).qlen list = m.qlen list - nbElt ∧
      (m.skbQueueExtract list head nbElt).qlen head = m.qlen head + nbElt := by
  simp [skbQueueExtract, addQlen, setNext, setPrev, apart, apart.symm, Int.sub_eq_add_neg]

/-- A positive number of buffers, less than there are, is moved. -/
theorem skbQueueExtract_append {front back : List α}
    (distinct : (list :: head :: (front ++ back)).Nodup) (holds : m.Holds list (front ++ back))
    (empty : m.Holds head []) (some : front ≠ []) (more : back ≠ []) :
    (m.skbQueueExtract list head front.length).Holds list back ∧
      (m.skbQueueExtract list head front.length).Holds head front := by
  obtain ⟨list_out, head_out, nodup⟩ : list ∉ head :: (front ++ back) ∧ head ∉ front ++ back ∧
      (front ++ back).Nodup := by
    simpa only [List.nodup_cons] using distinct
  have disjoint := (List.nodup_append.mp nodup).2.2
  obtain ⟨chain, chain', seam⟩ := holds.ring.split some more
  obtain ⟨start, whole, stop⟩ :=
    (Links.ring_iff (List.append_ne_nil_of_left_ne_nil some back)).mp holds.ring
  rw [List.head_append_of_ne_nil some] at start
  rw [List.getLast_append_of_ne_nil _ more] at stop
  have f_in := List.head_mem some
  have l_in := List.getLast_mem some
  have b_in := List.head_mem more
  have e_in := List.getLast_mem more
  have behind : m.next^[(front.length : Int).toNat] (front.head some) = back.head more :=
    Links.iterate_next whole some more
  have links := skbQueueExtract_links empty start.1 behind seam.2
    fun same => head_out (List.mem_append_right _ (same ▸ b_in))
  have apart : list ≠ head := fun same => list_out (same ▸ List.mem_cons_self)
  obtain ⟨qlen, qlen'⟩ := skbQueueExtract_qlen m front.length apart
  generalize m.skbQueueExtract list head front.length = m' at links qlen qlen' ⊢
  have next := fun a => (links a).1
  have prev := fun a => (links a).2
  have out : ∀ a ∈ front ++ back, a ≠ list ∧ a ≠ head := fun a member =>
    ⟨fun same => list_out (same ▸ List.mem_cons_of_mem head member),
      fun same => head_out (same ▸ member)⟩
  have out_front := fun a member => out a (List.mem_append_left back member)
  have out_back := fun a member => out a (List.mem_append_right front member)
  constructor
  · refine ⟨(Links.ring_iff more).mpr ⟨⟨?_, ?_⟩, ?_, ?_, ?_⟩, ?_⟩
    · rw [next, if_neg apart, if_neg (out_front _ l_in).1.symm, if_pos rfl]
    · rw [prev, if_neg (out_back _ b_in).2, if_neg fun same => disjoint _ f_in _ b_in same.symm,
        if_pos rfl]
    · refine Links.chain_of_ends (back.head more) (back.getLast more) chain' ?_ ?_ ?_ ?_
      · rw [seam.2]
        exact fun member => disjoint _ l_in _ member rfl
      · rw [stop.1]
        exact fun member => (out_back _ member).1 rfl
      · intro a member _
        rw [next, if_neg (out_back a member).2,
          if_neg fun same => disjoint _ l_in _ member same.symm, if_neg (out_back a member).1]
      · intro a member later
        rw [prev, if_neg (out_back a member).2,
          if_neg fun same => disjoint _ f_in _ member same.symm, if_neg later]
    · rw [next, if_neg (out_back _ e_in).2,
        if_neg fun same => disjoint _ l_in _ e_in same.symm, if_neg (out_back _ e_in).1, stop.1]
    · rw [prev, if_neg apart, if_neg (out_front _ f_in).1.symm, if_neg (out_back _ b_in).1.symm,
        stop.2]
    · rw [qlen, holds.qlen, List.length_append]
      omega
  · refine ⟨(Links.ring_iff some).mpr ⟨⟨?_, ?_⟩, ?_, ?_, ?_⟩, ?_⟩
    · rw [next, if_pos rfl]
    · rw [prev, if_neg (out_front _ f_in).2, if_pos rfl]
    · refine Links.chain_of_ends (front.head some) (front.getLast some) chain ?_ ?_ ?_ ?_
      · rw [start.2]
        exact fun member => (out_front _ member).1 rfl
      · rw [seam.1]
        exact fun member => disjoint _ member _ b_in rfl
      · intro a member inner
        rw [next, if_neg (out_front a member).2, if_neg inner, if_neg (out_front a member).1]
      · intro a member later
        rw [prev, if_neg (out_front a member).2, if_neg later,
          if_neg (disjoint _ member _ b_in)]
    · rw [next, if_neg (out_front _ l_in).2, if_pos rfl]
    · rw [prev, if_pos rfl]
    · rw [qlen', empty.qlen]
      exact Int.zero_add _

/-- For a number that is not positive, the head of the list comes to stand in the ring of the other
list, behind all its buffers. -/
theorem skbQueueExtract_of_nonpos (distinct : (list :: head :: skbs).Nodup)
    (holds : m.Holds list skbs) (empty : m.Holds head []) (some : skbs ≠ [])
    (none : nbElt ≤ 0) : (m.skbQueueExtract list head nbElt).Ring head (skbs ++ [list]) := by
  obtain ⟨list_out, head_out, nodup⟩ : list ∉ head :: skbs ∧ head ∉ skbs ∧ skbs.Nodup := by
    simpa only [List.nodup_cons] using distinct
  obtain ⟨start, chain, stop⟩ := (Links.ring_iff some).mp holds.ring
  have f_in := List.head_mem some
  have e_in := List.getLast_mem some
  have out : ∀ a ∈ skbs, a ≠ list ∧ a ≠ head := fun a member =>
    ⟨fun same => list_out (same ▸ List.mem_cons_of_mem head member),
      fun same => head_out (same ▸ member)⟩
  have apart : list ≠ head := fun same => list_out (same ▸ List.mem_cons_self)
  have here : m.next^[nbElt.toNat] (skbs.head some) = skbs.head some := by
    rw [Int.toNat_of_nonpos none]
    rfl
  have links := skbQueueExtract_links empty start.1 here start.2 (out _ f_in).2
  generalize m.skbQueueExtract list head nbElt = m' at links ⊢
  have next := fun a => (links a).1
  have prev := fun a => (links a).2
  have kept : skbs.IsChain m'.Joined := by
    refine Links.chain_of_ends (skbs.head some) (skbs.getLast some) chain ?_ ?_ ?_ ?_
    · rw [start.2]
      exact fun member => (out _ member).1 rfl
    · rw [stop.1]
      exact fun member => (out _ member).1 rfl
    · intro a member _
      rw [next, if_neg (out a member).2, if_neg (out a member).1, if_neg (out a member).1]
    · intro a member later
      rw [prev, if_neg (out a member).2, if_neg later, if_neg later]
  have joined : m'.Joined (skbs.getLast some) list := by
    constructor
    · rw [next, if_neg (out _ e_in).2, if_neg (out _ e_in).1, if_neg (out _ e_in).1, stop.1]
    · rw [prev, if_neg apart, if_neg (out _ f_in).1.symm, if_neg (out _ f_in).1.symm, stop.2]
  refine (Links.ring_iff (List.append_ne_nil_of_left_ne_nil some _)).mpr ⟨⟨?_, ?_⟩, ?_, ⟨?_, ?_⟩⟩
  · rw [next, if_pos rfl, List.head_append_of_ne_nil some]
  · rw [List.head_append_of_ne_nil some, prev, if_neg (out _ f_in).2, if_pos rfl]
  · refine kept.append (List.isChain_singleton list) fun a last b first => ?_
    rw [List.getLast?_eq_some_getLast some] at last
    obtain rfl := Option.some.inj last
    obtain rfl := Option.some.inj first
    exact joined
  · rw [List.getLast_concat, next, if_neg apart, if_pos rfl]
  · rw [List.getLast_concat, prev, if_pos rfl]

end SkbLists

namespace Queue

/-- What `skb_queue_extract` leaves of the frames of a queue, and what it takes; nothing is said
when it takes the head of the list for one of them. -/
def extract (frames : List Frame) (nbElt : Int) : Option (List Frame × List Frame) :=
  if 0 < nbElt then some (frames.drop nbElt.toNat, frames.take nbElt.toNat) else none

/-- So it does with the pointers of the frames, when there are more than it is to take. -/
theorem extract_spec {α : Type*} [DecidableEq α] {m : SkbLists α} {list head : α} {node : Frame → α}
    {frames : List Frame} {nbElt : Int} (distinct : (list :: head :: frames.map node).Nodup)
    (holds : m.Holds list (frames.map node)) (empty : m.Holds head []) (some : frames ≠ [])
    (fewer : nbElt < frames.length) :
    match extract frames nbElt with
    | .some (left, taken) =>
        (m.skbQueueExtract list head nbElt).Holds list (left.map node) ∧
          (m.skbQueueExtract list head nbElt).Holds head (taken.map node)
    | .none => (m.skbQueueExtract list head nbElt).Ring head (frames.map node ++ [list]) := by
  rw [extract]
  split_ifs with positive
  · have count : ((frames.take nbElt.toNat).map node).length = nbElt := by
      rw [List.length_map, List.length_take]
      omega
    have whole : frames.map node =
        (frames.take nbElt.toNat).map node ++ (frames.drop nbElt.toNat).map node := by
      rw [← List.map_append, List.take_append_drop]
    rw [whole] at distinct holds
    have moved := SkbLists.skbQueueExtract_append distinct holds empty ?_ ?_
    · rwa [count] at moved
    · refine List.ne_nil_of_length_pos ?_
      omega
    · refine List.ne_nil_of_length_pos ?_
      rw [List.length_map, List.length_drop]
      omega
  · refine SkbLists.skbQueueExtract_of_nonpos distinct holds empty ?_ (Int.not_lt.mp positive)
    exact fun none => some (List.map_eq_nil_iff.mp none)

end Queue

end AmlW2.Tx
