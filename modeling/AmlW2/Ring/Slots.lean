import AmlW2.Ring.Chunk
import AmlW2.Ring.Overwrite

/-!
# Slots of the host's buffer

The descriptors not released follow each other without gaps, in one piece or from the tail to the
end of the buffer and on from its beginning.  One of them may be in two parts there.  Every byte of
them is one that a fetch leaves alone, and none is where the links of the others are.
-/

namespace AmlW2.Ring

/-! ## Rows -/

theorem Consecutive.append {p q r : Nat} {a b : List (Nat × Nat)} (front : Consecutive p a q)
    (back : Consecutive q b r) : Consecutive p (a ++ b) r := by
  induction front with
  | nil => exact back
  | cons size _ induction => exact .cons size (induction back)

theorem Consecutive.within {p q : Nat} {slots : List (Nat × Nat)} (row : Consecutive p slots q) :
    ∀ s ∈ slots, p ≤ s.1 ∧ rxDescSize ≤ s.2 ∧ s.1 + s.2 ≤ q := by
  induction row with
  | nil => simp
  | cons size tail induction =>
      have le := tail.le
      intro s member
      rcases List.mem_cons.mp member with rfl | later
      · exact ⟨Nat.le_refl _, size, le⟩
      · have bound := induction s later
        omega

theorem Consecutive.pairwise {p q : Nat} {slots : List (Nat × Nat)} (row : Consecutive p slots q) :
    slots.Pairwise fun a b => a.1 + a.2 ≤ b.1 := by
  induction row with
  | nil => exact .nil
  | cons size tail induction =>
      exact List.pairwise_cons.mpr ⟨fun s member => (tail.within s member).1, induction⟩

/-- Slots in one part each, one after the other. -/
structure Row (lo : Nat) (slots : List Slot) (hi : Nat) : Prop where
  row : Consecutive lo (slots.map Slot.pair) hi
  whole : ∀ s ∈ slots, s.first = 0

namespace Row

variable {lo mid hi : Nat} {slots : List Slot}

theorem le (row : Row lo slots hi) : lo ≤ hi := row.row.le

theorem nil (p : Nat) : Row p [] p := ⟨.nil p, by simp⟩

theorem append {later : List Slot} (front : Row lo slots mid) (back : Row mid later hi) :
    Row lo (slots ++ later) hi := by
  refine ⟨?_, fun s member => ?_⟩
  · rw [List.map_append]
    exact front.row.append back.row
  · exact (List.mem_append.mp member).elim (front.whole s) (back.whole s)

theorem within (row : Row lo slots hi) {s : Slot} (member : s ∈ slots) :
    lo ≤ s.pos ∧ rxDescSize ≤ s.len ∧ s.pos + s.len ≤ hi :=
  row.row.within s.pair (List.mem_map_of_mem member)

theorem place (row : Row lo slots hi) {s : Slot} (member : s ∈ slots) (j : Nat) :
    s.place j = s.pos + j := Slot.place_front (Or.inl (row.whole s member))

theorem pairwise (row : Row lo slots hi) : slots.Pairwise fun a b => a.pos + a.len ≤ b.pos :=
  List.pairwise_map.mp row.row.pairwise

theorem spaced (row : Row lo slots hi) : Spaced lo hi (slots.map Slot.pos) := by
  have spaced := row.row.spaced
  rwa [List.map_map] at spaced

/-- Without its first slot. -/
theorem of_cons {s : Slot} (row : Row lo (s :: slots) hi) :
    s.pos = lo ∧ Row (lo + s.len) slots hi := by
  have whole := fun s member => row.whole s (List.mem_cons_of_mem _ member)
  obtain ⟨row, -⟩ := row
  generalize all : (s :: slots).map Slot.pair = pairs at row
  cases row with
  | nil => cases all
  | cons size tail =>
      cases all
      exact ⟨rfl, tail, whole⟩

end Row

/-! ## Where the slots are -/

/-- The part of the next descriptor that is carried; while it is the only thing at the end of the
buffer it may be in two parts. -/
def Rx.carry (rx : Rx) : Slot :=
  ⟨rx.head, rx.fw.frag0, if rx.tail ≤ rx.head then rx.frag0 else 0⟩

/-- Where the carried part of a descriptor is, while the slots are in one piece. -/
inductive Carry (rx : Rx) : Prop
  | single (none : rx.frag0 = 0) (room : rx.head + rx.fw.frag0 < rx.bufSz)
  | parts (long : amlRxFrag0MiniSize ≤ rx.frag0) (room : rx.head + rx.frag0 < rx.bufSz)
      (second : rx.fw.frag0 - rx.frag0 < rx.tail)
      (covers : rx.frag0 ≤ rx.fw.frag0 ∨ rx.fw.frag0 < amlRxFrag0MiniSize)

/-- How the slots lie between the tail and the head. -/
inductive Lies (rx : Rx) : List Slot → Prop
  | straight {slots : List Slot} (row : Row rx.tail slots rx.head) (some : rx.tail < rx.head)
      (carry : Carry rx) : Lies rx slots
  | wrapped {ups downs : List Slot} {top : Nat} (upper : Row rx.tail ups top)
      (top_le : top ≤ rx.bufSz) (lower : Row 0 downs rx.head)
      (room : rx.head + rx.fw.frag0 < rx.tail) (none : rx.frag0 = 0) : Lies rx (ups ++ downs)
  | split {ups downs : List Slot} {s : Slot} (upper : Row rx.tail ups s.pos)
      (long : amlRxFrag0MiniSize ≤ s.first) (part : s.first < s.len)
      (top_le : s.pos + s.first ≤ rx.bufSz) (lower : Row (s.len - s.first) downs rx.head)
      (room : rx.head + rx.fw.frag0 < rx.tail)
      (mark : rx.frag0 = if ups = [] then 0 else s.first) : Lies rx (ups ++ s :: downs)

/-- The bytes of a slot are not in the header of another. -/
def Slot.Clear (a b : Slot) : Prop :=
  ∀ j < a.len, a.place j < b.pos ∨ b.pos + rxDescSize ≤ a.place j

/-- The bytes of a slot, but for its next pointer, are not where another is linked. -/
def Slot.Outside (a b : Slot) : Prop :=
  ∀ j < a.len, j < 76 ∨ 80 ≤ j → a.place j < b.pos + 76 ∨ b.pos + 80 ≤ a.place j

theorem rxDescSize_le_mini : rxDescSize ≤ amlRxFrag0MiniSize := by decide

theorem mini_pos : 0 < amlRxFrag0MiniSize := by decide

namespace Lies

variable {rx : Rx} {slots : List Slot}

theorem order (lies : Lies rx slots) :
    rx.tail < rx.head ∨ rx.head + rx.fw.frag0 < rx.tail := by
  cases lies with
  | straight _ some _ => exact Or.inl some
  | wrapped _ _ _ room _ => exact Or.inr room
  | split _ _ _ _ _ room _ => exact Or.inr room

theorem shape (lies : Lies rx slots) : Shape rx (slots.map Slot.pos) := by
  cases lies with
  | straight row some carry =>
      refine .straight row.spaced ?_
      cases carry <;> omega
  | wrapped upper top_le lower room none =>
      rw [List.map_append]
      exact .wrapped (upper.spaced.mono (Nat.le_refl _) top_le) lower.spaced room
  | @split ups downs s upper long part top_le lower room mark =>
      have le := upper.le
      have fits : s.pos + rxDescSize ≤ rx.bufSz := by
        have mini := rxDescSize_le_mini
        omega
      have parts := upper.spaced.append (.singleton (Nat.le_refl s.pos) fits) le (by omega)
      have all : (ups ++ s :: downs).map Slot.pos =
          (ups.map Slot.pos ++ [s.pos]) ++ downs.map Slot.pos := by simp
      rw [all]
      exact .wrapped parts (lower.spaced.mono (Nat.zero_le _) (Nat.le_refl _)) room

/-- No fetch writes to the bytes of a slot. -/
theorem held (lies : Lies rx slots) {s : Slot} (member : s ∈ slots) {j : Nat} (inside : j < s.len) :
    Held rx (s.place j) := by
  refine Or.inl ?_
  cases lies with
  | straight row some carry =>
      have bound := row.within member
      rw [row.place member, if_pos (Nat.le_of_lt some)]
      omega
  | wrapped upper top_le lower room none =>
      rw [if_neg (by omega)]
      rcases List.mem_append.mp member with up | down
      · have bound := upper.within up
        rw [upper.place up]
        omega
      · have bound := lower.within down
        rw [lower.place down]
        omega
  | @split ups downs s' upper long part top_le lower room mark =>
      rw [if_neg (by omega)]
      rcases List.mem_append.mp member with up | rest
      · have bound := upper.within up
        rw [upper.place up]
        omega
      rcases List.mem_cons.mp rest with rfl | down
      · have le := upper.le
        have le' := lower.le
        have mini := mini_pos
        by_cases front : j < s.first
        · rw [Slot.place_front (Or.inr front)]
          omega
        · rw [Slot.place_back (by omega) (by omega)]
          omega
      · have bound := lower.within down
        rw [lower.place down]
        omega

/-- The header of a slot is in one part. -/
theorem header (lies : Lies rx slots) {s : Slot} (member : s ∈ slots) {j : Nat}
    (inside : j < rxDescSize) : s.place j = s.pos + j ∧ j < s.len := by
  have mini := rxDescSize_le_mini
  cases lies with
  | straight row some carry =>
      have bound := row.within member
      exact ⟨row.place member j, by omega⟩
  | wrapped upper top_le lower room none =>
      rcases List.mem_append.mp member with up | down
      · have bound := upper.within up
        exact ⟨upper.place up j, by omega⟩
      · have bound := lower.within down
        exact ⟨lower.place down j, by omega⟩
  | @split ups downs s' upper long part top_le lower room mark =>
      rcases List.mem_append.mp member with up | rest
      · have bound := upper.within up
        exact ⟨upper.place up j, by omega⟩
      rcases List.mem_cons.mp rest with rfl | down
      · exact ⟨Slot.place_front (Or.inr (by omega)), by omega⟩
      · have bound := lower.within down
        exact ⟨lower.place down j, by omega⟩

/-- Where the bytes of the carried part are. -/
theorem carry_place (lies : Lies rx slots) {j : Nat} (inside : j < rx.fw.frag0) :
    rx.carry.place j = rx.head + j ∧ (rx.tail < rx.head → rx.frag0 = 0 ∨ j < rx.frag0) ∨
      rx.tail < rx.head ∧ rx.frag0 ≠ 0 ∧ rx.carry.place j + rx.frag0 = j ∧
        rx.fw.frag0 - rx.frag0 < rx.tail := by
  have pos : rx.carry.pos = rx.head := rfl
  cases lies with
  | straight row some carry =>
      have first : rx.carry.first = rx.frag0 := if_pos (Nat.le_of_lt some)
      have mini := mini_pos
      cases carry with
      | single none room =>
          exact Or.inl ⟨Slot.place_front (Or.inl (first.trans none)), fun _ => Or.inl none⟩
      | parts long room second covers =>
          by_cases front : j < rx.frag0
          · exact Or.inl ⟨Slot.place_front (Or.inr (by omega)), fun _ => Or.inr front⟩
          · have place := Slot.place_back (s := rx.carry) (j := j) (by omega) (by omega)
            exact Or.inr ⟨some, by omega, by omega, second⟩
  | wrapped _ _ _ room _ =>
      exact Or.inl ⟨Slot.place_front (Or.inl (if_neg (by omega))), by omega⟩
  | split _ _ _ _ _ room _ =>
      exact Or.inl ⟨Slot.place_front (Or.inl (if_neg (by omega))), by omega⟩

theorem carry_held (lies : Lies rx slots) {j : Nat} (inside : j < rx.fw.frag0) :
    Held rx (rx.carry.place j) := by
  rcases lies.carry_place inside with ⟨front, -⟩ | ⟨straight, two, back, -⟩
  · exact Or.inr (Or.inl (by omega))
  · exact Or.inr (Or.inr ⟨by omega, two, by omega⟩)

theorem row_clear {lo hi : Nat} (row : Row lo slots hi) :
    slots.Pairwise fun a b => a.Clear b ∧ b.Clear a := by
  refine row.pairwise.imp_of_mem fun {a b} a_mem b_mem before => ⟨fun j inside => ?_,
    fun j inside => ?_⟩
  · rw [row.place a_mem]
    omega
  · have bound := row.within a_mem
    rw [row.place b_mem]
    omega

/-- The bytes of a slot are not in the header of another. -/
theorem clear (lies : Lies rx slots) : slots.Pairwise fun a b => a.Clear b ∧ b.Clear a := by
  cases lies with
  | straight row some carry => exact row_clear row
  | wrapped upper top_le lower room none =>
      refine List.pairwise_append.mpr ⟨row_clear upper, row_clear lower, fun a a_mem b b_mem =>
        ⟨fun j inside => ?_, fun j inside => ?_⟩⟩
      · have above := upper.within a_mem
        have below := lower.within b_mem
        rw [upper.place a_mem]
        omega
      · have above := upper.within a_mem
        have below := lower.within b_mem
        rw [lower.place b_mem]
        omega
  | @split ups downs s upper long part top_le lower room mark =>
      have le := upper.le
      have le' := lower.le
      have mini := mini_pos
      -- the first part is at the end of the buffer, the second at its beginning
      have parts : ∀ j < s.len, s.pos ≤ s.place j ∨ s.place j < s.len - s.first := by
        intro j inside
        by_cases front : j < s.first
        · rw [Slot.place_front (Or.inr front)]
          omega
        · rw [Slot.place_back (by omega) (by omega)]
          omega
      refine List.pairwise_append.mpr ⟨row_clear upper, List.pairwise_cons.mpr ⟨fun b b_mem =>
        ⟨fun j inside => ?_, fun j inside => ?_⟩, row_clear lower⟩, fun a a_mem b b_mem => ?_⟩
      · have below := lower.within b_mem
        have place := parts j inside
        omega
      · have below := lower.within b_mem
        rw [lower.place b_mem]
        omega
      · have above := upper.within a_mem
        rcases List.mem_cons.mp b_mem with rfl | down
        · refine ⟨fun j inside => ?_, fun j inside => ?_⟩
          · rw [upper.place a_mem]
            omega
          · have place := parts j inside
            omega
        · have below := lower.within down
          refine ⟨fun j inside => ?_, fun j inside => ?_⟩
          · rw [upper.place a_mem]
            omega
          · rw [lower.place down]
            omega

/-- No byte of a slot but its own next pointer is where one is linked. -/
theorem outside (lies : Lies rx slots) : ∀ a ∈ slots, ∀ b ∈ slots, a.Outside b := by
  have own : ∀ a ∈ slots, a.Outside a ∧ a.Outside a := by
    intro a member
    suffices a.Outside a from ⟨this, this⟩
    intro j inside other
    by_cases front : a.first = 0 ∨ j < a.first
    · rw [Slot.place_front front]
      omega
    · rw [Slot.place_back (by omega) (by omega)]
      cases lies with
      | straight row some carry =>
          have whole := row.whole a member
          omega
      | wrapped upper top_le lower room none =>
          rcases List.mem_append.mp member with up | down
          · have whole := upper.whole a up
            omega
          · have whole := lower.whole a down
            omega
      | @split ups downs s upper long part top_le lower room mark =>
          rcases List.mem_append.mp member with up | rest
          · have whole := upper.whole a up
            omega
          rcases List.mem_cons.mp rest with rfl | down
          · have le := upper.le
            have le' := lower.le
            omega
          · have whole := lower.whole a down
            omega
  have apart : slots.Pairwise fun a b => a.Outside b ∧ b.Outside a := by
    refine lies.clear.imp fun {a b} clear => ⟨fun j inside _ => ?_, fun j inside _ => ?_⟩
    · have away := clear.1 j inside
      simp only [rxDescSize] at away
      omega
    · have away := clear.2 j inside
      simp only [rxDescSize] at away
      omega
  intro a a_mem b b_mem
  have symmetric : Std.Symm fun a b : Slot => a.Outside b ∧ b.Outside a :=
    ⟨fun _ _ both => both.symm⟩
  exact (apart.forall_of_forall own a_mem b_mem).1

/-- The bytes of the carried part are not in the header of a slot. -/
theorem carry_clear (lies : Lies rx slots) {s : Slot} (member : s ∈ slots) : rx.carry.Clear s := by
  intro j inside
  have place := lies.carry_place inside
  have inside : j < rx.fw.frag0 := inside
  cases lies with
  | straight row some carry =>
      have bound := row.within member
      omega
  | wrapped upper top_le lower room none =>
      rcases List.mem_append.mp member with up | down
      · have bound := upper.within up
        omega
      · have bound := lower.within down
        omega
  | @split ups downs s' upper long part top_le lower room mark =>
      rcases List.mem_append.mp member with up | rest
      · have bound := upper.within up
        omega
      rcases List.mem_cons.mp rest with rfl | down
      · have le := upper.le
        omega
      · have bound := lower.within down
        omega

end Lies

end AmlW2.Ring
