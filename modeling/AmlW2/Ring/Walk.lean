import AmlW2.Ring.Fetch
import AmlW2.Lib.Cells

/-!
# What a walk finds

A completed walk is a chain of turns.  Each turn but the last finds one descriptor, so a walk has a
list of descriptors found, with their positions and lengths: they follow each other in the host's
buffer, lie inside the bytes walked over, and are linked in order.
-/

namespace AmlW2.Ring

/-! ## Single turns -/

/-- What holds of a walk between two turns: the descriptor looked at is at the position, except that
the first one may be in two parts and start at `pos0`. -/
structure Walk.Steady (w : Walk) (pos0 : Nat) (prev : Option Nat) : Prop where
  rxdesc : w.rxdesc = if w.pos < 0 then pos0 else w.pos.toNat
  pnext : w.pnext = prev.map amlRxDescNextPtr
  later : prev ≠ none → 0 ≤ w.pos

/-- A turn that goes on finds a descriptor of `n` bytes. -/
structure Found (fw : Fw) (bufSz pos0 : Nat) (w : Walk) (n : Nat) (w' : Walk) : Prop where
  eq : w' = walkNext w pos0 n
  size : rxDescSize ≤ n
  size_le : n ≤ w.len
  next : rxbufStartAddr ≤ newRead w.buf w.rxdesc ∧ newRead w.buf w.rxdesc ≤ fw.rxEnd
  pos : 0 ≤ w.pos + n ∧ w.pos + n < bufSz

variable {fw : Fw} {bufSz pos0 : Nat} {reachEnd : Bool} {w w' : Walk}

theorem rxDescSize_le_pktLen (m : Memory) (rxdesc : Nat) : rxDescSize ≤ pktLen m rxdesc := by
  simp only [pktLen]
  omega

/-- The length kept of a descriptor that is cut is not longer. -/
theorem cutAtEnd_le {m : Memory} {rxdesc len skip len' skip' : Nat} (fits : rxDescSize ≤ len)
    (cut : cutAtEnd m rxdesc len skip = .ok (len', skip')) : len' ≤ len := by
  simp only [cutAtEnd] at cut
  split_ifs at cut with short mpdu low <;> cases cut
  · exact fits
  · omega
  · omega
  · exact Nat.le_refl len

/-- A turn that ends the walk only shortens the length. -/
theorem walkTurn_stop (turn : walkTurn fw bufSz reachEnd pos0 w = .ok (w', false)) :
    ∃ len skip, w' = { w with len, skip } ∧ len ≤ w.len := by
  simp only [walkTurn] at turn
  split_ifs at turn with short padding misaligned range wraps more shortTotal longer walkRange
  · cases turn
    exact ⟨0, w.skip, rfl, Nat.zero_le _⟩
  · cases turn
    exact ⟨w.len, w.skip, rfl, Nat.le_refl w.len⟩
  · cases turn
    exact ⟨w.len, w.skip, rfl, Nat.le_refl w.len⟩
  · split at turn
    · cases turn
    · rename_i len skip cut
      cases turn
      exact ⟨len, skip, rfl, cutAtEnd_le (Nat.le_of_not_lt short) cut⟩
  · cases turn
    exact ⟨w.len, w.skip, rfl, Nat.le_refl w.len⟩
  · cases turn

theorem walkTurn_next (turn : walkTurn fw bufSz reachEnd pos0 w = .ok (w', true)) :
    ∃ n, Found fw bufSz pos0 w n w' := by
  simp only [walkTurn] at turn
  split_ifs at turn with short padding misaligned range wraps more shortTotal longer walkRange
  · cases turn
  · cases turn
  · cases turn
  · split at turn <;> cases turn
  · cases turn
  · cases turn
    have packet := rxDescSize_le_pktLen w.buf w.rxdesc
    have total : ((totLen fw w).toNat : Int) = totLen fw w := Int.toNat_of_nonneg (by omega)
    refine ⟨(totLen fw w).toNat, rfl, by omega, by omega, ?_, ?_⟩
    · simpa [amlSdioUsbRxPosInRange] using range
    · simp only [walkNext] at walkRange
      omega

/-- After a descriptor is found the walk is at the next position. -/
theorem Found.steady {n : Nat} (found : Found fw bufSz pos0 w n w') :
    w'.Steady pos0 (some w.rxdesc) := by
  have pos := found.pos
  rw [found.eq]
  refine ⟨?_, rfl, fun _ => pos.1⟩
  exact (if_neg (Int.not_lt.mpr pos.1)).symm

theorem Found.last_eq {n : Nat} (found : Found fw bufSz pos0 w n w') {prev : Option Nat}
    (steady : w.Steady pos0 prev) : w'.last = w.rxdesc := by
  rw [found.eq, steady.rxdesc]
  rfl

theorem Found.pos_eq {n : Nat} (found : Found fw bufSz pos0 w n w') : w'.pos = w.pos + n := by
  rw [found.eq]
  rfl

theorem Found.len_eq {n : Nat} (found : Found fw bufSz pos0 w n w') : w'.len = w.len - n := by
  rw [found.eq]
  rfl

/-- The next pointer of a descriptor in the buffer. -/
theorem newRead_eq_word (m : Memory) (rxdesc : Nat) : newRead m rxdesc = Cells.word 76 m rxdesc :=
  rfl

/-- Finding a descriptor links the one before to it. -/
theorem Found.linkAll_buf {n : Nat} (found : Found fw bufSz pos0 w n w') {prev : Option Nat}
    (steady : w.Steady pos0 prev) (rest : List Nat) :
    Cells.linkAll 76 w.buf prev (w.rxdesc :: rest) =
      Cells.linkAll 76 w'.buf (some w.rxdesc) rest := by
  have pnext := steady.pnext
  rw [found.eq]
  cases prev with
  | none =>
      rw [Option.map_none] at pnext
      simp only [Cells.linkAll, walkNext, pnext]
  | some first =>
      rw [Option.map_some] at pnext
      have nonneg := steady.later (Option.some_ne_none first)
      have place : w.rxdesc = w.pos.toNat := by
        rw [steady.rxdesc, if_neg (by omega)]
      simp only [Cells.linkAll, walkNext, pnext, place, Cells.link, amlRxDescNextPtr]

/-! ## Whole walks -/

/-- The turns of a walk, with the descriptors found as pairs of position and length. -/
inductive Walked (fw : Fw) (bufSz : Nat) (reachEnd : Bool) (pos0 : Nat) :
    Walk → List (Nat × Nat) → Walk → Prop
  | done {w : Walk} (empty : w.len = 0) : Walked fw bufSz reachEnd pos0 w [] w
  | stop {w w' : Walk} (some : w.len ≠ 0)
      (turn : walkTurn fw bufSz reachEnd pos0 w = .ok (w', false)) :
      Walked fw bufSz reachEnd pos0 w [] w'
  | next {w w₁ w' : Walk} {n : Nat} {news : List (Nat × Nat)}
      (found : Found fw bufSz pos0 w n w₁) (rest : Walked fw bufSz reachEnd pos0 w₁ news w') :
      Walked fw bufSz reachEnd pos0 w ((w.rxdesc, n) :: news) w'

theorem walked_of_walk {fuel : Nat} (enough : w.len ≤ fuel)
    (ran : walk fw bufSz reachEnd pos0 fuel w = .ok w') :
    ∃ news, Walked fw bufSz reachEnd pos0 w news w' := by
  induction fuel generalizing w with
  | zero =>
      cases ran
      exact ⟨[], .done (Nat.le_zero.mp enough)⟩
  | succ fuel induction =>
      rw [walk] at ran
      split_ifs at ran with empty
      · cases ran
        exact ⟨[], .done empty⟩
      · split at ran
        · cases ran
        · rename_i after turn
          cases ran
          exact ⟨[], .stop empty turn⟩
        · rename_i after turn
          obtain ⟨n, found⟩ := walkTurn_next turn
          have size := found.size
          have shorter : after.len ≤ fuel := by
            rw [found.len_eq]
            simp only [rxDescSize] at size
            omega
          obtain ⟨news, rest⟩ := induction shorter ran
          exact ⟨_, .next found rest⟩

/-- Descriptors that follow each other from one position to another. -/
inductive Consecutive : Nat → List (Nat × Nat) → Nat → Prop
  | nil (p : Nat) : Consecutive p [] p
  | cons {p n q : Nat} {rest : List (Nat × Nat)} (size : rxDescSize ≤ n)
      (tail : Consecutive (p + n) rest q) : Consecutive p ((p, n) :: rest) q

theorem Consecutive.le {p q : Nat} {slots : List (Nat × Nat)} (row : Consecutive p slots q) :
    p ≤ q := by
  induction row with
  | nil => exact Nat.le_refl _
  | cons _ _ induction => omega

/-- Positions at least a descriptor apart, between two bounds. -/
structure Spaced (lo hi : Nat) (ps : List Nat) : Prop where
  pairwise : ps.Pairwise fun p q => p + rxDescSize ≤ q
  bounds : ∀ p ∈ ps, lo ≤ p ∧ p + rxDescSize ≤ hi

theorem Spaced.nil (lo hi : Nat) : Spaced lo hi [] := ⟨List.Pairwise.nil, by simp⟩

theorem Consecutive.spaced {p q : Nat} {slots : List (Nat × Nat)} (row : Consecutive p slots q) :
    Spaced p q (slots.map Prod.fst) := by
  induction row with
  | nil => exact Spaced.nil _ _
  | @cons p n q rest size tail induction =>
      have le := tail.le
      refine ⟨List.pairwise_cons.mpr ⟨?_, induction.pairwise⟩, ?_⟩
      · intro r member
        have bound := (induction.bounds r member).1
        omega
      · intro r member
        rcases List.mem_cons.mp member with rfl | later
        · exact ⟨Nat.le_refl r, by omega⟩
        · have bound := induction.bounds r later
          exact ⟨by omega, bound.2⟩

namespace Walked

variable {news : List (Nat × Nat)}

/-- The bytes left over end where the bytes walked over end, or before. -/
theorem end_le (walked : Walked fw bufSz reachEnd pos0 w news w') :
    w'.pos + w'.len ≤ w.pos + w.len := by
  induction walked with
  | done => exact Int.le_refl _
  | stop _ turn =>
      obtain ⟨len, skip, rfl, shorter⟩ := walkTurn_stop turn
      simp only
      omega
  | next found _ induction =>
      have size := found.size_le
      rw [found.pos_eq, found.len_eq] at induction
      omega

/-- From a position in the buffer on, the descriptors found follow each other. -/
theorem consecutive (walked : Walked fw bufSz reachEnd pos0 w news w') {prev : Option Nat}
    (steady : w.Steady pos0 prev) (inside : 0 ≤ w.pos) :
    0 ≤ w'.pos ∧ Consecutive w.pos.toNat news w'.pos.toNat := by
  induction walked generalizing prev with
  | done => exact ⟨inside, .nil _⟩
  | stop _ turn =>
      obtain ⟨len, skip, rfl, -⟩ := walkTurn_stop turn
      exact ⟨inside, .nil _⟩
  | @next w w₁ w' n news found _ induction =>
      have pos := found.pos
      have moved := found.pos_eq
      obtain ⟨last, row⟩ := induction found.steady (by omega)
      have place : w.rxdesc = w.pos.toNat := by
        rw [steady.rxdesc, if_neg (by omega)]
      have next : w₁.pos.toNat = w.pos.toNat + n := by omega
      rw [next] at row
      rw [place]
      exact ⟨last, .cons found.size row⟩

/-- The descriptors found are linked in order, after the one before them. -/
theorem buf_eq (walked : Walked fw bufSz reachEnd pos0 w news w') {prev : Option Nat}
    (steady : w.Steady pos0 prev) :
    w'.buf = Cells.linkAll 76 w.buf prev (news.map Prod.fst) := by
  induction walked generalizing prev with
  | done => cases prev <;> rfl
  | stop _ turn =>
      obtain ⟨len, skip, rfl, -⟩ := walkTurn_stop turn
      cases prev <;> rfl
  | next found _ induction =>
      rw [List.map_cons, found.linkAll_buf steady]
      exact induction found.steady

/-- The last descriptor found is the new last one. -/
theorem last_eq (walked : Walked fw bufSz reachEnd pos0 w news w') {prev : Option Nat}
    (steady : w.Steady pos0 prev) :
    w'.last = ((news.map Prod.fst).getLast?).getD w.last := by
  induction walked generalizing prev with
  | done => rfl
  | stop _ turn =>
      obtain ⟨len, skip, rfl, -⟩ := walkTurn_stop turn
      rfl
  | @next w w₁ w' n news found _ induction =>
      rw [induction found.steady, found.last_eq steady]
      cases news with
      | nil => rfl
      | cons slot news =>
          rw [List.map_cons, List.map_cons, List.map_cons, List.getLast?_cons_cons,
            List.getLast?_cons, Option.getD_some, Option.getD_some]

/-- The last descriptor found still points into the device's buffer. -/
theorem last_range (walked : Walked fw bufSz reachEnd pos0 w news w') {prev : Option Nat}
    (steady : w.Steady pos0 prev)
    (apart : (prev.toList ++ news.map Prod.fst).Pairwise (Cells.Apart rxDescSize))
    {last : Nat} (isLast : (news.map Prod.fst).getLast? = some last) :
    rxbufStartAddr ≤ newRead w'.buf last ∧ newRead w'.buf last ≤ fw.rxEnd := by
  induction walked generalizing prev with
  | done => cases isLast
  | stop => cases isLast
  | @next w w₁ w' n news found rest induction =>
      have tail : ((some w.rxdesc).toList ++ news.map Prod.fst).Pairwise
          (Cells.Apart rxDescSize) := apart.sublist (List.sublist_append_right _ _)
      cases news with
      | nil =>
          obtain rfl : w.rxdesc = last := by simpa using isLast
          have same : newRead w'.buf w.rxdesc = newRead w.buf w.rxdesc := by
            rw [rest.buf_eq found.steady, List.map_nil, ← found.linkAll_buf steady []]
            have whole := Cells.word_linkAll_last (m := w.buf) (show 76 + 4 ≤ rxDescSize by decide)
              apart (List.getLast?_append_cons prev.toList w.rxdesc [])
            exact whole
          rw [same]
          exact found.next
      | cons slot news =>
          rw [List.map_cons, List.map_cons, List.getLast?_cons_cons] at isLast
          exact induction found.steady tail isLast

end Walked

end AmlW2.Ring
