import AmlW2.Lib.Run
import AmlW2.Ring.Walk

/-!
# How the ring lies in the host's buffer

The descriptors not yet released form a linked list from the consumer's to the producer's last one.
They lie in one piece between tail and head, or in two pieces, from the tail to the end of the
buffer and from its beginning to the head.  A fetch adds the descriptors found to the list and keeps
this arrangement, as long as a third read of a descriptor leaves room before the tail.
-/

namespace AmlW2.Ring

/-! ## The arrangement -/

/-- The descriptors not yet released, by position. -/
structure Linked (rx : Rx) (ps : List Nat) : Prop where
  first : ps.head? = some rx.tail
  final : ps.getLast? = some rx.last
  chained : ps.IsChain fun p q => clearWrap (newRead rx.buf p) = q
  stop : rx.bufSz ≤ clearWrap (newRead rx.buf rx.last)

/-- The pieces of the buffer they lie in, and the room after the carried fragment. -/
inductive Shape (rx : Rx) : List Nat → Prop
  | straight {ps : List Nat} (spaced : Spaced rx.tail rx.head ps)
      (room : rx.head + min rx.fw.frag0 amlRxFrag0MiniSize < rx.bufSz) : Shape rx ps
  | wrapped {up down : List Nat} (upper : Spaced rx.tail rx.bufSz up)
      (lower : Spaced 0 rx.head down) (room : rx.head + rx.fw.frag0 < rx.tail) :
      Shape rx (up ++ down)

/-- Sizes of the buffers. -/
structure Sized (rx : Rx) : Prop where
  bufSz_le : rx.bufSz ≤ rxbufStartAddr
  end_lt : rx.fw.rxEnd < amlRxWrapFlag
  layout_lt : ∀ layout, (rx.layouts layout).rxEnd < amlRxWrapFlag

/-- The ring between two operations. -/
structure Arranged (rx : Rx) (ps : List Nat) : Prop where
  sized : Sized rx
  linked : Linked rx ps
  shape : Shape rx ps
  /-- A part at the end of the buffer is never short. -/
  split : rx.frag0 = 0 ∨ amlRxFrag0MiniSize ≤ rx.frag0

theorem Spaced.apart {lo hi : Nat} {ps : List Nat} (spaced : Spaced lo hi ps) :
    ps.Pairwise (Cells.Apart rxDescSize) := spaced.pairwise.imp Or.inl

theorem Spaced.append {lo mid hi : Nat} {ps qs : List Nat} (low : Spaced lo mid ps)
    (high : Spaced mid hi qs) (lo_le : lo ≤ mid) (le_hi : mid ≤ hi) : Spaced lo hi (ps ++ qs) := by
  refine ⟨List.pairwise_append.mpr ⟨low.pairwise, high.pairwise, ?_⟩, ?_⟩
  · intro p p_mem q q_mem
    have p_bound := low.bounds p p_mem
    have q_bound := high.bounds q q_mem
    omega
  · intro p member
    rcases List.mem_append.mp member with before | after
    · have bound := low.bounds p before
      omega
    · have bound := high.bounds p after
      omega

theorem Spaced.singleton {lo hi p : Nat} (le : lo ≤ p) (fits : p + rxDescSize ≤ hi) :
    Spaced lo hi [p] := by
  refine ⟨List.pairwise_singleton _ p, ?_⟩
  intro q member
  rw [List.mem_singleton.mp member]
  exact ⟨le, fits⟩

theorem Spaced.mono {lo lo' hi hi' : Nat} {ps : List Nat} (spaced : Spaced lo hi ps)
    (le_lo : lo' ≤ lo) (le_hi : hi ≤ hi') : Spaced lo' hi' ps := by
  refine ⟨spaced.pairwise, fun p member => ?_⟩
  have bound := spaced.bounds p member
  omega

/-- Without its first position a piece starts at the second. -/
theorem Spaced.tail {lo hi p q : Nat} {ps : List Nat} (spaced : Spaced lo hi (p :: q :: ps)) :
    Spaced q hi (q :: ps) := by
  have pairs := (List.pairwise_cons.mp spaced.pairwise).2
  refine ⟨pairs, fun r member => ⟨?_, (spaced.bounds r (List.mem_cons_of_mem p member)).2⟩⟩
  rcases List.mem_cons.mp member with rfl | later
  · exact Nat.le_refl r
  · have after := List.rel_of_pairwise_cons pairs later
    omega

/-- An upper and a lower piece do not overlap. -/
theorem apart_of_pieces {lo hi top : Nat} {up down : List Nat} (upper : Spaced lo hi up)
    (lower : Spaced 0 top down) (below : top ≤ lo) :
    (up ++ down).Pairwise (Cells.Apart rxDescSize) := by
  refine List.pairwise_append.mpr ⟨upper.apart, lower.apart, ?_⟩
  intro p p_mem q q_mem
  have p_bound := upper.bounds p p_mem
  have q_bound := lower.bounds q q_mem
  exact Or.inr (by omega)

theorem Shape.apart {rx : Rx} {ps : List Nat} (shape : Shape rx ps) :
    ps.Pairwise (Cells.Apart rxDescSize) := by
  cases shape with
  | straight spaced room => exact spaced.apart
  | wrapped upper lower room => exact apart_of_pieces upper lower (by omega)

/-- Every descriptor lies inside the buffer. -/
theorem Shape.fits {rx : Rx} {ps : List Nat} (shape : Shape rx ps) (tail_mem : rx.tail ∈ ps) :
    ∀ p ∈ ps, p + rxDescSize ≤ rx.bufSz := by
  intro p member
  cases shape with
  | straight spaced room =>
      have bound := spaced.bounds p member
      omega
  | wrapped upper lower room =>
      rcases List.mem_append.mp tail_mem with high | low
      · have top := upper.bounds rx.tail high
        rcases List.mem_append.mp member with above | below
        · exact (upper.bounds p above).2
        · have bound := lower.bounds p below
          omega
      · have bound := lower.bounds rx.tail low
        omega

theorem Linked.tail_mem {rx : Rx} {ps : List Nat} (linked : Linked rx ps) : rx.tail ∈ ps :=
  List.mem_of_head? linked.first

theorem Linked.last_mem {rx : Rx} {ps : List Nat} (linked : Linked rx ps) : rx.last ∈ ps :=
  List.mem_of_getLast? linked.final

/-- Links survive whatever leaves the descriptors alone. -/
theorem Linked.of_same {rx rx' : Rx} {ps : List Nat} (linked : Linked rx ps)
    (tail : rx'.tail = rx.tail) (last : rx'.last = rx.last) (bufSz : rx'.bufSz = rx.bufSz)
    (same : ∀ p ∈ ps, Memory.Same rx'.buf p rx.buf p rxDescSize) : Linked rx' ps := by
  have word : ∀ p ∈ ps, newRead rx'.buf p = newRead rx.buf p := fun p member =>
    Cells.word_eq_of_same (same p member) (by decide)
  refine ⟨by rw [tail, linked.first], by rw [last, linked.final], ?_, ?_⟩
  · refine linked.chained.imp_of_mem_imp ?_
    intro p q p_mem _ link
    rwa [word p p_mem]
  · rw [bufSz, last, word rx.last linked.last_mem]
    exact linked.stop

/-- Links after new descriptors are linked to each other and then to the last one. -/
theorem Linked.append {rx rx' : Rx} {ps news : List Nat} {v p : Nat} {buf : Memory}
    (linked : Linked rx ps) (tail : rx'.tail = rx.tail) (bufSz : rx'.bufSz = rx.bufSz)
    (apart : (ps ++ p :: news).Pairwise (Cells.Apart rxDescSize))
    (small : ∀ q ∈ p :: news, q < amlRxWrapFlag)
    (same : ∀ q ∈ ps, Memory.Same buf q rx.buf q rxDescSize)
    (wrap : clearWrap v = p) (word_lt : v < 2 ^ 32)
    (last : (p :: news).getLast? = some rx'.last)
    (stop : rx.bufSz ≤ clearWrap (newRead (Cells.linkAll 76 buf none (p :: news)) rx'.last))
    (eq : rx'.buf = Cells.link 76 (Cells.linkAll 76 buf none (p :: news)) rx.last v) :
    Linked rx' (ps ++ p :: news) := by
  have fits : 76 + 4 ≤ rxDescSize := by decide
  obtain ⟨-, news_apart, across⟩ := List.pairwise_append.mp apart
  -- the link of the last descriptor touches no other descriptor, and the new links no old one
  have old : ∀ q ∈ ps, newRead (Cells.linkAll 76 buf none (p :: news)) q = newRead rx.buf q := by
    intro q member
    refine (Cells.word_linkAll_apart fits fun r r_mem => ?_).trans
      (Cells.word_eq_of_same (same q member) fits)
    exact across q member r r_mem
  have junction : newRead rx'.buf rx.last = v := by
    rw [eq]
    exact Cells.word_link_same word_lt
  have others : ∀ q, Cells.Apart rxDescSize rx.last q →
      newRead rx'.buf q = newRead (Cells.linkAll 76 buf none (p :: news)) q := by
    intro q away
    rw [eq]
    exact Cells.word_link_apart fits away
  have new_mem := List.mem_of_getLast? last
  refine ⟨?first, ?final, ?chained, ?stop⟩
  case first =>
    rw [tail, List.head?_append, linked.first]
    rfl
  case final => rw [List.getLast?_append, last, Option.some_or]
  case stop =>
    rw [bufSz, others rx'.last (across rx.last linked.last_mem _ new_mem)]
    exact stop
  case chained =>
    refine List.isChain_append.mpr ⟨?_, ?_, ?_⟩
    · refine List.isChain_iff_forall_rel_of_append_cons_cons.mpr ?_
      intro q r front back split
      -- a descriptor with a successor is apart from the last one
      have away : Cells.Apart rxDescSize rx.last q := by
        have final := linked.final
        have pairs := (List.pairwise_append.mp apart).1
        rw [split] at final pairs
        rw [List.getLast?_append_of_ne_nil _ (List.cons_ne_nil _ _), List.getLast?_cons_cons]
          at final
        have after := (List.pairwise_append.mp pairs).2.1
        exact (List.rel_of_pairwise_cons after (List.mem_of_getLast? final)).symm
      have member : q ∈ ps := by
        rw [split]
        simp
      rw [others q away, old q member]
      exact List.isChain_iff_forall_rel_of_append_cons_cons.mp linked.chained split
    · have bounds : ∀ q ∈ p :: news, q < 2 ^ 32 := fun q member =>
        Nat.lt_of_lt_of_le (small q member) (by decide)
      have chain := @Cells.linkAll_isChain 76 rxDescSize buf fits none (p :: news) news_apart bounds
      refine chain.imp_of_mem_imp ?_
      intro q r q_mem r_mem word
      rw [others q (across rx.last linked.last_mem q q_mem), newRead_eq_word, word]
      exact Nat.mod_eq_of_lt (small r r_mem)
    · intro q q_mem r r_mem
      rw [linked.final] at q_mem
      cases q_mem
      cases r_mem
      rw [junction, wrap]

/-! ## Placing a read -/

theorem align_ge (x a : Nat) (pos : 0 < a) : x ≤ align x a := by
  have split := Nat.div_add_mod (x + (a - 1)) a
  have small := Nat.mod_lt (x + (a - 1)) pos
  rw [align, Nat.mul_comm]
  omega

theorem le_busLen (len : Nat) : len ≤ busLen len := by
  rw [busLen]
  split_ifs
  · exact align_ge len sdioBlksize (by decide)
  · exact Nat.le_refl len

/-- The room found is after the carried fragment, before the tail or the end of the buffer; or at
the beginning of the buffer, before the tail. -/
theorem amlSdioUsbRxBufGet_some {head tail bufSz len frag0 pos : Nat}
    (room : amlSdioUsbRxBufGet head tail bufSz len frag0 = some pos) :
    (pos = head + frag0 ∧ (pos < tail ∧ pos + busLen len < tail ∨
      tail ≤ pos ∧ pos + busLen len < bufSz)) ∨
    (pos = 0 ∧ tail ≤ head + frag0 ∧ bufSz ≤ head + frag0 + busLen len ∧
      busLen len + (if frag0 < amlRxFrag0MiniSize then frag0 else 0) < tail) := by
  simp only [amlSdioUsbRxBufGet] at room
  split_ifs at room with below fits inside short before before <;> cases room
  · exact Or.inl ⟨rfl, Or.inl ⟨below, by omega⟩⟩
  · exact Or.inl ⟨rfl, Or.inr ⟨Nat.le_of_not_lt below, inside⟩⟩
  · refine Or.inr ⟨rfl, Nat.le_of_not_lt below, Nat.le_of_not_lt inside, ?_⟩
    rw [if_pos short]
    exact before
  · refine Or.inr ⟨rfl, Nat.le_of_not_lt below, Nat.le_of_not_lt inside, ?_⟩
    rw [if_neg short]
    exact before

/-- The fetch is the third read of a descriptor in two parts, which continues its second part. -/
def ThirdRead (rx : Rx) (len : Nat) : Prop :=
  amlSdioUsbRxBufGet rx.head rx.tail rx.bufSz len rx.fw.frag0 = some 0 ∧
    amlRxFrag0MiniSize ≤ rx.fw.frag0 ∧ rx.frag0 ≠ 0

/-- A third read leaves room before the tail, the second part counted. -/
def ThirdFits (rx : Rx) (len : Nat) : Prop :=
  ThirdRead rx len → rx.fw.frag0 - rx.frag0 + busLen len < rx.tail

/-- Where a read goes, and the state it starts from. -/
inductive Placed (rx : Rx) (len : Nat) : Rx → Nat → Prop
  /-- After the carried fragment. -/
  | append {frag0 : Nat} (kept : frag0 = rx.frag0 ∨ frag0 = 0)
      (room : rx.head + rx.fw.frag0 + busLen len < rx.tail ∨
        rx.tail ≤ rx.head + rx.fw.frag0 ∧ rx.head + rx.fw.frag0 + busLen len < rx.bufSz) :
      Placed rx len { rx with frag0 } (rx.head + rx.fw.frag0)
  /-- At the beginning of the buffer, after the carried fragment has been moved there. -/
  | moved (below : rx.tail ≤ rx.head + rx.fw.frag0) (short : rx.fw.frag0 < amlRxFrag0MiniSize)
      (room : rx.fw.frag0 + busLen len < rx.tail) :
      Placed rx len
        { rx with buf := rx.buf.put 0 rx.fw.frag0 fun i => rx.buf (rx.head + i), frag0 := 0 }
        rx.fw.frag0
  /-- At the beginning of the buffer, while the first part stays at the end. -/
  | split {first : Nat} (below : rx.tail ≤ rx.head + rx.fw.frag0)
      (long : amlRxFrag0MiniSize ≤ rx.fw.frag0) (le : first ≤ rx.fw.frag0)
      (origin : rx.frag0 = 0 ∧ first = rx.fw.frag0 ∨ rx.frag0 ≠ 0 ∧ first = rx.frag0)
      (room : rx.fw.frag0 - first + busLen len < rx.tail) :
      Placed rx len { rx with frag0 := first } (rx.fw.frag0 - first)

theorem Memory.put_zero (m : Memory) (p : Nat) (data : Nat → UInt8) : m.put p 0 data = m := by
  funext i
  rw [Memory.put, if_neg (by omega)]

/-- A fetch whose third read leaves room places its read. -/
theorem placed_of_fetchPlace {rx rx' : Rx} {len pos place : Nat} (fits : ThirdFits rx len)
    (room : amlSdioUsbRxBufGet rx.head rx.tail rx.bufSz len rx.fw.frag0 = some pos)
    (placed : fetchPlace rx pos = .ok (rx', place)) : Placed rx len rx' place := by
  rcases amlSdioUsbRxBufGet_some room with ⟨rfl, after⟩ | ⟨rfl, below, _, before⟩
  · have after' : rx.head + rx.fw.frag0 + busLen len < rx.tail ∨
        rx.tail ≤ rx.head + rx.fw.frag0 ∧
          rx.head + rx.fw.frag0 + busLen len < rx.bufSz := by omega
    by_cases zero : rx.head + rx.fw.frag0 = 0
    · have empty : rx.fw.frag0 = 0 := by omega
      rw [fetchPlace, if_pos zero, if_pos (by rw [empty]; decide)] at placed
      cases placed
      have append : Placed rx len { rx with frag0 := 0 } (rx.head + rx.fw.frag0) :=
        .append (Or.inr rfl) after'
      rw [empty, Memory.put_zero]
      rwa [zero] at append
    · rw [fetchPlace, if_neg zero] at placed
      cases placed
      exact Placed.append (Or.inl rfl) after'
  · rw [fetchPlace, if_pos rfl] at placed
    split_ifs at placed with short single shorter
    · cases placed
      rw [if_pos short] at before
      exact .moved below short (by omega)
    · cases placed
      rw [if_neg short] at before
      have place : Placed rx len _ _ := .split below (Nat.le_of_not_lt short) (Nat.le_refl _)
        (Or.inl ⟨single, rfl⟩) (by omega)
      rwa [Nat.sub_self] at place
    · cases placed
      exact .split below (Nat.le_of_not_lt short) (Nat.le_of_not_lt shorter)
        (Or.inr ⟨single, rfl⟩) (fits ⟨room, Nat.le_of_not_lt short, single⟩)

/-- The place of the read is not before the tail only if nothing is after it. -/
theorem Shape.straight_of_le {rx : Rx} {ps : List Nat} (shape : Shape rx ps)
    (below : rx.tail ≤ rx.head + rx.fw.frag0) :
    Spaced rx.tail rx.head ps ∧
      rx.head + min rx.fw.frag0 amlRxFrag0MiniSize < rx.bufSz := by
  cases shape with
  | straight spaced room => exact ⟨spaced, room⟩
  | wrapped upper lower room => omega

/-- A read, and the move before it, leaves the descriptors not yet released alone. -/
theorem Placed.same {rx rx' : Rx} {len place : Nat} {ps : List Nat} (shape : Shape rx ps)
    (placed : Placed rx len rx' place) (data : Nat → UInt8) :
    ∀ p ∈ ps, Memory.Same (rx'.buf.put place (busLen len) data) p rx.buf p rxDescSize := by
  intro p member
  cases placed with
  | append kept room =>
      cases shape with
      | straight spaced _ =>
          have bound := spaced.bounds p member
          exact Memory.same_put_of_le (by omega)
      | @wrapped up down upper lower free =>
          have before : rx.head + rx.fw.frag0 + busLen len < rx.tail := by omega
          rcases List.mem_append.mp member with high | low
          · have bound := upper.bounds p high
            exact Memory.same_put_of_ge (by omega)
          · have bound := lower.bounds p low
            exact Memory.same_put_of_le (by omega)
  | moved below short room =>
      have bound := (shape.straight_of_le below).1.bounds p member
      have moved : Memory.Same (rx.buf.put 0 rx.fw.frag0 fun i => rx.buf (rx.head + i)) p rx.buf p
          rxDescSize := Memory.same_put_of_ge (by omega)
      exact Memory.Same.trans (Memory.same_put_of_ge (by omega)) moved
  | split below long le origin room =>
      have bound := (shape.straight_of_le below).1.bounds p member
      exact Memory.same_put_of_ge (by omega)

theorem walkStart_steady (rx : Rx) (fwPos received pos : Nat) :
    (walkStart rx fwPos received pos).Steady (walkStart rx fwPos received pos).rxdesc none := by
  refine ⟨?_, rfl, by simp⟩
  simp only [walkStart]
  split_ifs <;> rfl

/-- The descriptors found after a read lie in the piece of the read, or the first of them at the
end of the buffer and the others at its beginning. -/
theorem Placed.shape {rx rx₁ rx' : Rx} {len received fwPos place : Nat} {ps : List Nat}
    {news : List (Nat × Nat)} {w w' : Walk} {buf : Memory} {bufSz : Nat} {reachEnd : Bool}
    (shape : Shape rx ps) (tail_mem : rx.tail ∈ ps) (placed : Placed rx len rx₁ place)
    (le : received ≤ len) (start : w = walkStart { rx₁ with buf } fwPos received place)
    (walked : Walked rx₁.fw bufSz reachEnd w.rxdesc w news w') (tail : rx'.tail = rx.tail)
    (size : rx'.bufSz = rx.bufSz)
    (head : rx'.head = if 0 ≤ w'.pos then w'.pos.toNat else rx₁.head)
    (frag0 : rx'.fw.frag0 ≤ w'.len) : Shape rx' (ps ++ news.map Prod.fst) := by
  have steady : w.Steady w.rxdesc none := start ▸ walkStart_steady _ _ _ _
  have total := walked.end_le
  have block := le_busLen len
  have pos_eq : w.pos = (place : Int) - rx₁.fw.frag0 := start ▸ rfl
  have len_eq : w.len = received + rx₁.fw.frag0 := start ▸ rfl
  cases placed with
  | append kept room =>
      simp only at pos_eq len_eq
      obtain ⟨last, row⟩ := walked.consecutive steady (by omega)
      rw [if_pos last] at head
      have origin : w.pos.toNat = rx.head := by omega
      rw [origin, ← head] at row
      have found := row.spaced
      have grown := row.le
      cases shape with
      | straight spaced below =>
          have bound := spaced.bounds rx.tail tail_mem
          refine .straight (tail ▸ spaced.append found (by omega) grown) ?_
          rw [size]
          omega
      | @wrapped up down upper lower free =>
          rw [List.append_assoc]
          refine .wrapped ?_ (lower.append found (Nat.zero_le _) grown) ?_
          · rw [tail, size]
            exact upper
          · rw [tail]
            omega
  | moved below short room =>
      simp only at pos_eq len_eq
      obtain ⟨last, row⟩ := walked.consecutive steady (by omega)
      rw [if_pos last] at head
      have origin : w.pos.toNat = 0 := by omega
      rw [origin, ← head] at row
      obtain ⟨spaced, end_lt⟩ := shape.straight_of_le below
      refine .wrapped ?_ row.spaced ?_
      · rw [tail, size]
        exact spaced.mono (Nat.le_refl _) (by omega)
      · rw [tail]
        omega
  | @split first below long first_le origin room =>
      simp only at pos_eq len_eq
      obtain ⟨spaced, end_lt⟩ := shape.straight_of_le below
      have bound := spaced.bounds rx.tail tail_mem
      rw [Nat.min_eq_right long] at end_lt
      have negative : w.pos < 0 := by
        simp only [amlRxFrag0MiniSize, rxDescSize] at long
        omega
      have place : w.rxdesc = rx.head := by
        rw [start]
        exact if_pos (by rw [← pos_eq]; exact negative)
      -- without a descriptor found the second part only grows
      have unfinished (same : w'.pos = w.pos) : Shape rx' (ps ++ []) := by
        rw [if_neg (by omega)] at head
        rw [List.append_nil]
        refine .straight ?_ ?_
        · rw [tail, head]
          exact spaced
        · rw [head, size]
          simp only
          omega
      cases walked with
      | done empty => exact unfinished rfl
      | stop _ turn =>
          obtain ⟨_, _, rfl, _⟩ := walkTurn_stop turn
          exact unfinished rfl
      | @next w w₁ w' n news found rest =>
          have moved := found.pos_eq
          have inside := found.pos.1
          obtain ⟨last, row⟩ := rest.consecutive found.steady (by omega)
          rw [if_pos last] at head
          rw [← head] at row
          have upper : Spaced rx.tail rx.bufSz (ps ++ [rx.head]) :=
            spaced.append (.singleton (Nat.le_refl _) (by
              simp only [amlRxFrag0MiniSize, rxDescSize] at end_lt ⊢
              omega)) (by omega) (by omega)
          have split : ps ++ ((w.rxdesc, n) :: news).map Prod.fst =
              (ps ++ [rx.head]) ++ news.map Prod.fst := by
            rw [List.map_cons, place, List.append_assoc, List.singleton_append]
          rw [split]
          refine .wrapped ?_ (row.spaced.mono (Nat.zero_le _) (Nat.le_refl _)) ?_
          · rw [tail, size]
            exact upper
          · rw [tail]
            omega

/-! ## Fetching -/

/-- What the end of a fetch leaves: the walk's position and remainder, and the new last descriptor
linked, if one was found. -/
structure Fetched (rx : Rx) (pos0 : Nat) (w : Walk) (rx' : Rx) : Prop where
  eq : rx' = { rx with
    buf := rx'.buf
    last := w.last
    head := if 0 ≤ w.pos then w.pos.toNat else rx.head
    fw := { rx.fw with frag0 := w.len % 65536, skip := w.skip } }
  buf : rx'.buf =
    if rx.last = w.last then w.buf
    else Cells.link 76 w.buf rx.last (if w.pos < pos0 then pos0 + amlRxWrapFlag else pos0)

theorem fetched_of_fetchLink {rx rx' : Rx} {pos0 : Nat} {w : Walk}
    (linked : fetchLink rx pos0 w = .ok rx') : Fetched rx pos0 w rx' := by
  rw [fetchLink] at linked
  by_cases same : rx.last = w.last
  · rw [if_pos same] at linked
    cases linked
    exact ⟨rfl, (if_pos same).symm⟩
  · rw [if_neg same] at linked
    by_cases aligned : rx.last % 4 ≠ 0
    · rw [if_pos aligned] at linked
      cases linked
    · rw [if_neg aligned] at linked
      cases linked
      exact ⟨rfl, (if_neg same).symm⟩

/-- A read either fails, or walks over the bytes received and links what it finds. -/
theorem fetchRead_ok {rx rx' : Rx} {fwPos len place received : Nat} {bus : Bus}
    (ran : fetchRead rx fwPos len place bus = .ok (received, rx')) :
    let rx₁ := { rx with buf := rx.buf.put place (busLen len) bus.data }
    received = 0 ∧ rx' = amlSdioUsbRxError rx₁ ∨
      0 < received ∧ received ≤ len ∧ ∃ w w' news, w = walkStart rx₁ fwPos received place ∧
        Walked rx₁.fw rx₁.bufSz (rx₁.fw.rxEnd == fwPos + len) w.rxdesc w news w' ∧
        Fetched rx₁ w.rxdesc w' rx' := by
  simp only [fetchRead] at ran
  split_ifs at ran with failed
  · cases ran
    exact Or.inl ⟨rfl, rfl⟩
  · split at ran
    · cases ran
    · rename_i after walk
      obtain ⟨news, walked⟩ := walked_of_walk (Nat.le_refl _) walk
      obtain ⟨rx₂, linked, eq⟩ := Run.map_eq_ok ran
      cases eq
      exact Or.inr ⟨by omega, Nat.min_le_right _ _, _, after, news, rfl, walked,
        fetched_of_fetchLink linked⟩

/-- A failed fetch changes the fragments and the bytes after them at most. -/
theorem Arranged.error {rx : Rx} {ps : List Nat} (arranged : Arranged rx ps) :
    Arranged (amlSdioUsbRxError rx) ps := by
  rw [amlSdioUsbRxError]
  split_ifs
  · exact arranged
  · obtain ⟨⟨bufSz_le, end_lt, layout_lt⟩, ⟨first, final, chained, stop⟩, shape, split⟩ := arranged
    refine ⟨⟨bufSz_le, end_lt, layout_lt⟩, ⟨first, final, chained, stop⟩, ?_, split⟩
    cases shape with
    | straight spaced room => exact .straight spaced room
    | wrapped upper lower room => exact .wrapped upper lower room

/-- A read keeps the arrangement before the bytes are walked over. -/
theorem Placed.arranged {rx rx₁ : Rx} {len place : Nat} {ps : List Nat} (arranged : Arranged rx ps)
    (placed : Placed rx len rx₁ place) (data : Nat → UInt8) :
    Arranged { rx₁ with buf := rx₁.buf.put place (busLen len) data } ps := by
  have same := placed.same arranged.shape data
  have linked := arranged.linked
  obtain ⟨⟨bufSz_le, end_lt, layout_lt⟩, -, shape, split⟩ := arranged
  cases placed with
  | append kept room =>
      refine ⟨⟨bufSz_le, end_lt, layout_lt⟩, linked.of_same rfl rfl rfl same, ?_, ?_⟩
      · cases shape with
        | straight spaced room => exact .straight spaced room
        | wrapped upper lower room => exact .wrapped upper lower room
      · rcases kept with rfl | rfl
        · exact split
        · exact Or.inl rfl
  | moved below short room =>
      refine ⟨⟨bufSz_le, end_lt, layout_lt⟩, linked.of_same rfl rfl rfl same, ?_, Or.inl rfl⟩
      obtain ⟨spaced, free⟩ := shape.straight_of_le below
      exact .straight spaced free
  | split below long le origin room =>
      refine ⟨⟨bufSz_le, end_lt, layout_lt⟩, linked.of_same rfl rfl rfl same, ?_, ?_⟩
      · obtain ⟨spaced, free⟩ := shape.straight_of_le below
        exact .straight spaced free
      · rcases origin with ⟨-, rfl⟩ | ⟨-, rfl⟩
        · exact Or.inr long
        · exact split

/-- Linking the descriptors a walk found. -/
theorem Fetched.linked {rx rx' : Rx} {w w' : Walk} {reachEnd : Bool} {ps : List Nat}
    {news : List (Nat × Nat)} (sized : Sized rx) (linked : Linked rx ps)
    (buf : w.buf = rx.buf) (last_eq : w.last = rx.last) (steady : w.Steady w.rxdesc none)
    (walked : Walked rx.fw rx.bufSz reachEnd w.rxdesc w news w')
      (fetched : Fetched rx w.rxdesc w' rx')
    (small : ∀ p ∈ news.map Prod.fst, p < amlRxWrapFlag)
    (apart : (ps ++ news.map Prod.fst).Pairwise (Cells.Apart rxDescSize)) :
    Linked rx' (ps ++ news.map Prod.fst) := by
  have tail : rx'.tail = rx.tail := by rw [fetched.eq]
  have size : rx'.bufSz = rx.bufSz := by rw [fetched.eq]
  have last : rx'.last = ((news.map Prod.fst).getLast?).getD rx.last := by
    rw [fetched.eq, ← last_eq]
    exact walked.last_eq steady
  have bufs := walked.buf_eq steady
  rw [buf] at bufs
  have new_apart := (List.pairwise_append.mp apart).2.1
  have across := (List.pairwise_append.mp apart).2.2
  cases news with
  | nil =>
      have same : rx.last = w'.last := by
        rw [← last_eq]
        exact (walked.last_eq steady).symm
      have unchanged : rx'.buf = rx.buf := by
        rw [fetched.buf, if_pos same, bufs]
        rfl
      rw [List.map_nil, List.append_nil]
      refine linked.of_same tail last size fun p _ => ?_
      rw [unchanged]
      exact Memory.Same.refl _ _ _
  | cons slot news =>
      obtain ⟨p, n⟩ := slot
      rw [List.map_cons] at small apart bufs last new_apart across ⊢
      obtain ⟨final, isLast⟩ : ∃ final, (p :: news.map Prod.fst).getLast? = some final := by
        rw [List.getLast?_cons]
        exact ⟨_, rfl⟩
      rw [isLast, Option.getD_some] at last
      have member := List.mem_of_getLast? isLast
      have place : w.rxdesc = p := by
        cases walked with
        | next found rest => rfl
      have moved : rx.last ≠ w'.last := by
        have away := across rx.last linked.last_mem final member
        rw [← last, fetched.eq] at away
        intro same
        rw [same] at away
        simp only [Cells.Apart, rxDescSize] at away
        omega
      have words := fetched.buf
      rw [if_neg moved, bufs, place] at words
      have p_lt := small p List.mem_cons_self
      -- the flag does not change the position linked to
      have wrap : clearWrap (if w'.pos < p then p + amlRxWrapFlag else p) = p := by
        rw [clearWrap]
        split_ifs
        · rw [Nat.add_mod_right, Nat.mod_eq_of_lt p_lt]
        · exact Nat.mod_eq_of_lt p_lt
      have word_lt : (if w'.pos < p then p + amlRxWrapFlag else p) < 2 ^ 32 := by
        simp only [amlRxWrapFlag] at p_lt ⊢
        split_ifs <;> omega
      have range := walked.last_range steady new_apart isLast
      rw [bufs] at range
      have same : ∀ q ∈ ps, Memory.Same rx.buf q rx.buf q rxDescSize := fun q _ =>
        Memory.Same.refl _ _ _
      refine linked.append tail size apart small same wrap word_lt (last ▸ isLast) ?_ words
      rw [last, clearWrap, Nat.mod_eq_of_lt (Nat.lt_of_le_of_lt range.2 sized.end_lt)]
      exact Nat.le_trans sized.bufSz_le range.1

/-- A read whose place leaves what is not released alone keeps the arrangement. -/
theorem Arranged.fetchRead {rx rx₁ rx' : Rx} {fwPos len place received : Nat} {bus : Bus}
    {ps : List Nat} (arranged : Arranged rx ps) (placed : Placed rx len rx₁ place)
    (ran : Ring.fetchRead rx₁ fwPos len place bus = .ok (received, rx')) :
    ∃ news, Arranged rx' (ps ++ news) := by
  have before := placed.arranged arranged bus.data
  rcases fetchRead_ok ran with ⟨-, rfl⟩ | ⟨-, le, w, w', news, start, walked, fetched⟩
  · exact ⟨[], by rw [List.append_nil]; exact before.error⟩
  · have steady : w.Steady w.rxdesc none := start ▸ walkStart_steady _ _ _ _
    have eq := fetched.eq
    have tail : rx'.tail = rx.tail := by
      rw [eq]
      cases placed <;> rfl
    have size : rx'.bufSz = rx.bufSz := by
      rw [eq]
      cases placed <;> rfl
    have shape : Shape rx' (ps ++ news.map Prod.fst) := by
      refine placed.shape arranged.shape arranged.linked.tail_mem le start walked tail size ?_ ?_
      · rw [eq]
      · rw [eq]
        exact Nat.mod_le _ _
    have sized := before.sized
    have bounded : ∀ p ∈ news.map Prod.fst, p < amlRxWrapFlag := by
      intro p member
      have bufSz_le := arranged.sized.bufSz_le
      have tail_mem : rx'.tail ∈ ps ++ news.map Prod.fst := by
        rw [tail]
        exact List.mem_append_left _ arranged.linked.tail_mem
      have inside := shape.fits tail_mem p (List.mem_append_right _ member)
      simp only [rxbufStartAddr] at bufSz_le
      simp only [amlRxWrapFlag]
      omega
    refine ⟨news.map Prod.fst, ⟨?_, ?_, shape, ?_⟩⟩
    · rw [eq]
      exact ⟨sized.bufSz_le, sized.end_lt, sized.layout_lt⟩
    · exact fetched.linked sized before.linked (start ▸ rfl) (start ▸ rfl) steady walked bounded
        shape.apart
    · rw [eq]
      exact before.split

theorem Arranged.fetch {rx rx' : Rx} {fwPos len received : Nat} {bus : Bus} {ps : List Nat}
    (arranged : Arranged rx ps) (fits : ThirdFits rx len)
    (ran : amlSdioUsbRxDescFetch rx fwPos len bus = .ok (received, rx')) :
    ∃ news, Arranged rx' (ps ++ news) := by
  rw [amlSdioUsbRxDescFetch] at ran
  split at ran
  · cases ran
    exact ⟨[], by rwa [List.append_nil]⟩
  · rename_i pos room
    split_ifs at ran
    split at ran
    · cases ran
    · rename_i rx₁ place placed
      exact arranged.fetchRead (placed_of_fetchPlace fits room placed) ran

/-! ## Consuming -/

/-- Without the descriptor at the tail, the next one is at the tail. -/
theorem Shape.tail {rx rx' : Rx} {p : Nat} {ps : List Nat} (shape : Shape rx (rx.tail :: p :: ps))
    (tail : rx'.tail = p) (head : rx'.head = rx.head) (size : rx'.bufSz = rx.bufSz)
    (frag0 : rx'.fw.frag0 = rx.fw.frag0) : Shape rx' (p :: ps) := by
  have fits := shape.fits List.mem_cons_self
  generalize all : rx.tail :: p :: ps = qs at shape
  cases shape with
  | straight spaced room =>
      subst all
      refine .straight ?_ ?_
      · rw [tail, head]
        exact spaced.tail
      · rwa [head, size, frag0]
  | @wrapped up down upper lower room =>
      cases up with
      | nil =>
          rw [List.nil_append] at all
          have bound := lower.bounds rx.tail (all ▸ List.mem_cons_self)
          omega
      | cons first up =>
          obtain ⟨rfl, rest⟩ := List.cons.inj all
          cases up with
          | nil =>
              obtain rfl : p :: ps = down := rest
              have bound := lower.bounds p List.mem_cons_self
              have top := fits rx.tail List.mem_cons_self
              refine .straight ⟨lower.pairwise, fun q member => ?_⟩ ?_
              · rw [tail, head]
                have below := lower.bounds q member
                rcases List.mem_cons.mp member with rfl | later
                · omega
                · have after := List.rel_of_pairwise_cons lower.pairwise later
                  omega
              · rw [head, size, frag0]
                omega
          | cons second up =>
              obtain ⟨rfl, rest⟩ := List.cons.inj rest
              have bound := upper.tail.bounds p List.mem_cons_self
              have above := List.rel_of_pairwise_cons upper.pairwise List.mem_cons_self
              rw [rest]
              change Shape rx' (p :: up ++ down)
              refine .wrapped ?_ ?_ ?_
              · rw [tail, size]
                exact upper.tail
              · rw [head]
                exact lower
              · rw [head, frag0, tail]
                omega

/-- The consumer finds no descriptor, or moves to the next one; a flagged link also tells the length
of its first part. -/
theorem amlSdioUsbRxBufPut_ok {rx rx' : Rx} {taken : Option (Nat × Nat)}
    (ran : amlSdioUsbRxBufPut rx = .ok (taken, rx')) :
    taken = none ∧ rx' = rx ∧ rx.bufSz ≤ clearWrap (newRead rx.buf rx.tail) ∨
      ∃ p, p = clearWrap (newRead rx.buf rx.tail) ∧ p < rx.bufSz ∧
        (amlRxWrapFlag ≤ newRead rx.buf rx.tail ∧ taken = some (p, rx.frag0) ∧
            rx' = { rx with frag0 := 0, tail := p } ∨
          newRead rx.buf rx.tail < amlRxWrapFlag ∧ taken = some (p, 0) ∧
            rx' = { rx with tail := p }) := by
  simp only [amlSdioUsbRxBufPut] at ran
  by_cases aligned : rx.tail % 4 ≠ 0
  · rw [if_pos aligned] at ran
    cases ran
  rw [if_neg aligned] at ran
  simp only [amlSdioUsbRxDescNext] at ran
  by_cases inside : clearWrap (newRead rx.buf rx.tail) < rx.bufSz
  · rw [if_pos inside] at ran
    refine Or.inr ⟨_, rfl, inside, ?_⟩
    by_cases flagged : amlRxWrapFlag ≤ newRead rx.buf rx.tail
    · rw [if_pos flagged] at ran
      simp only at ran
      split_ifs at ran
      cases ran
      exact Or.inl ⟨flagged, rfl, rfl⟩
    · rw [if_neg flagged] at ran
      simp only at ran
      split_ifs at ran
      cases ran
      exact Or.inr ⟨Nat.lt_of_not_le flagged, rfl, rfl⟩
  · rw [if_neg inside] at ran
    cases ran
    exact Or.inl ⟨rfl, rfl, Nat.le_of_not_lt inside⟩

/-- A list with a descriptor after the tail. -/
theorem Linked.second {rx : Rx} {ps : List Nat} (linked : Linked rx ps)
    (more : clearWrap (newRead rx.buf rx.tail) < rx.bufSz) :
    ∃ qs, ps = rx.tail :: clearWrap (newRead rx.buf rx.tail) :: qs := by
  obtain ⟨first, final, chained, stop⟩ := linked
  match ps with
  | [] => cases first
  | [p] =>
      cases first
      have same : rx.tail = rx.last := Option.some.inj final
      rw [same] at more
      omega
  | p :: q :: qs =>
      cases first
      have link := (List.isChain_cons_cons.mp chained).1
      exact ⟨qs, by rw [link]⟩

/-- The consumer takes the next descriptor of the list, if there is one. -/
theorem Arranged.put {rx rx' : Rx} {ps : List Nat} {taken : Option (Nat × Nat)}
    (arranged : Arranged rx ps) (ran : amlSdioUsbRxBufPut rx = .ok (taken, rx')) :
    ∃ qs, Arranged rx' qs := by
  rcases amlSdioUsbRxBufPut_ok ran with ⟨-, rfl, -⟩ | ⟨p, eq, inside, taken⟩
  · exact ⟨ps, arranged⟩
  · rw [eq] at inside
    obtain ⟨qs, rfl⟩ := arranged.linked.second inside
    obtain ⟨⟨bufSz_le, end_lt, layout_lt⟩, ⟨first, final, chained, stop⟩, shape, split⟩ := arranged
    rw [← eq] at final chained shape
    have rest := (List.isChain_cons_cons.mp chained).2
    rw [List.getLast?_cons_cons] at final
    refine ⟨p :: qs, ?_⟩
    rcases taken with ⟨-, -, rfl⟩ | ⟨-, -, rfl⟩
    · exact ⟨⟨bufSz_le, end_lt, layout_lt⟩, ⟨rfl, final, rest, stop⟩, shape.tail rfl rfl rfl rfl,
        Or.inl rfl⟩
    · exact ⟨⟨bufSz_le, end_lt, layout_lt⟩, ⟨rfl, final, rest, stop⟩, shape.tail rfl rfl rfl rfl,
        split⟩

end AmlW2.Ring
