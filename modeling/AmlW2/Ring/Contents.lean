import AmlW2.Ring.Placing

/-!
# What a fetch brings into the host's buffer

A fetch that is placed right, of bytes of the tape, adds slots with the descriptors that end in them
and keeps what it has of the next one, wherever in the buffer it puts them.
-/

namespace AmlW2.Ring

variable {rx rx₁ rx' : Rx} {len place received fwPos : Nat} {slots news : List Slot}

/-! ## Links -/

/-- The word that links to a slot; it tells whether the slot is in two parts. -/
def Slot.mark (s : Slot) : Nat := if s.first ≠ 0 then s.pos + amlRxWrapFlag else s.pos

theorem Slot.clearWrap_mark {s : Slot} (small : s.pos < amlRxWrapFlag) :
    clearWrap s.mark = s.pos := by
  rw [clearWrap, mark]
  split_ifs
  · rw [Nat.add_mod_right, Nat.mod_eq_of_lt small]
  · exact Nat.mod_eq_of_lt small

theorem Slot.mark_lt {s : Slot} (small : s.pos < amlRxWrapFlag) : s.mark < 2 ^ 32 := by
  rw [mark]
  simp only [amlRxWrapFlag] at small ⊢
  split_ifs <;> omega

theorem Slot.mark_ge_iff {s : Slot} (small : s.pos < amlRxWrapFlag) :
    amlRxWrapFlag ≤ s.mark ↔ s.first ≠ 0 := by
  rw [mark]
  split_ifs with two <;> omega

/-- Each slot links to the next one. -/
abbrev Chained (m : Memory) (slots : List Slot) : Prop :=
  slots.IsChain fun a b => newRead m a.pos = b.mark

/-- New slots are linked to each other and then to the last one. -/
theorem chained_append {m m' : Memory} {s : Slot} {last : Nat} (old : Chained m slots)
    (apart : ((slots ++ s :: news).map Slot.pos).Pairwise (Cells.Apart rxDescSize))
    (final : (slots.map Slot.pos).getLast? = some last) (whole : ∀ b ∈ news, b.first = 0)
    (small : ∀ b ∈ s :: news, b.pos < amlRxWrapFlag)
    (eq : m' = Cells.link 76 (Cells.linkAll 76 m none ((s :: news).map Slot.pos)) last s.mark) :
    Chained m' (slots ++ s :: news) := by
  have fits : 76 + 4 ≤ rxDescSize := by decide
  rw [List.map_append] at apart
  obtain ⟨old_apart, new_apart, across⟩ := List.pairwise_append.mp apart
  have others : ∀ q, Cells.Apart rxDescSize last q →
      newRead m' q = newRead (Cells.linkAll 76 m none ((s :: news).map Slot.pos)) q := by
    intro q away
    rw [eq]
    exact Cells.word_link_apart fits away
  have last_mem := List.mem_of_getLast? final
  refine List.isChain_append.mpr ⟨?_, ?_, ?_⟩
  · refine List.isChain_iff_forall_rel_of_append_cons_cons.mpr ?_
    intro a b front back split
    -- a slot with a successor is apart from the last one
    have away : Cells.Apart rxDescSize last a.pos := by
      rw [split, List.map_append, List.map_cons, List.map_cons] at final old_apart
      rw [List.getLast?_append_of_ne_nil _ (List.cons_ne_nil _ _), List.getLast?_cons_cons]
        at final
      have after := (List.pairwise_append.mp old_apart).2.1
      exact (List.rel_of_pairwise_cons after (List.mem_of_getLast? final)).symm
    have member : a.pos ∈ slots.map Slot.pos := by
      rw [split]
      simp
    have same : newRead (Cells.linkAll 76 m none ((s :: news).map Slot.pos)) a.pos =
        newRead m a.pos := Cells.word_linkAll_apart fits fun r r_mem => across _ member r r_mem
    rw [others _ away, same]
    exact List.isChain_iff_forall_rel_of_append_cons_cons.mp old split
  · have bounds : ∀ q ∈ (s :: news).map Slot.pos, q < 2 ^ 32 := by
      intro q member
      obtain ⟨b, b_mem, rfl⟩ := List.mem_map.mp member
      exact Nat.lt_of_lt_of_le (small b b_mem) (by decide)
    have chain := @Cells.linkAll_isChain 76 rxDescSize m fits none _ new_apart bounds
    rw [Option.toList_none, List.nil_append] at chain
    refine (List.isChain_map Slot.pos).mp chain |>.imp_of_mem_tail_imp ?_
    intro a b a_mem b_mem word
    have mark : b.mark = b.pos := if_neg (not_not.mpr (whole b b_mem))
    rw [others _ (across last last_mem _ (List.mem_map_of_mem a_mem)), newRead_eq_word, mark]
    exact word
  · intro a a_mem b b_mem
    cases b_mem
    have at_last : a.pos = last := by
      rw [List.getLast?_map, Option.mem_def.mp a_mem] at final
      exact Option.some.inj final
    rw [at_last, eq]
    exact Cells.word_link_same (Slot.mark_lt (small s List.mem_cons_self))

/-! ## The ring and the tape -/

namespace Tape

variable {t : Tape} {i : Nat} {m m' : Memory}

theorem stored_append {later : List Slot} :
    t.Stored m i (slots ++ later) ↔ t.Stored m i slots ∧ t.Stored m (i + slots.length) later := by
  induction slots generalizing i with
  | nil => simp [Stored]
  | cons s slots induction =>
      simp only [List.cons_append, Stored, induction, List.length_cons, and_assoc]
      rw [Nat.add_right_comm, Nat.add_assoc i]

theorem Stored.of_same (stored : t.Stored m i slots)
    (same : ∀ s ∈ slots, ∀ j < s.len, j < 76 ∨ 80 ≤ j → m' (s.place j) = m (s.place j)) :
    t.Stored m' i slots := by
  induction slots generalizing i with
  | nil => trivial
  | cons s slots induction =>
      obtain ⟨⟨len, holds⟩, rest⟩ := stored
      refine ⟨⟨len, fun j inside outside => ?_⟩, induction rest fun s member =>
        same s (List.mem_cons_of_mem _ member)⟩
      rw [same s List.mem_cons_self j inside outside]
      exact holds j inside outside

end Tape

/-- After the slot that is consumed the buffer holds the descriptors of the tape from one on, and
then what was read of the next one. -/
structure Filled (t : Tape) (rx : Rx) (taken i place : Nat) (slots : List Slot) : Prop where
  bufSz_le : rx.bufSz ≤ rxbufStartAddr
  lies : Lies rx slots
  first : (slots.map Slot.pos).head? = some rx.tail
  final : (slots.map Slot.pos).getLast? = some rx.last
  chained : Chained rx.buf slots
  stop : rx.bufSz ≤ clearWrap (newRead rx.buf rx.last)
  stored : t.Stored rx.buf taken slots.tail
  count : taken + slots.tail.length = i
  carried : ∃ view, t.At i rx.fw.frag0 rx.fw.skip place view ∧
    ∀ j < rx.fw.frag0, rx.buf (rx.carry.place j) = view j

section Links

variable {w w' : Walk} {fw : Fw} {bufSz : Nat} {reachEnd : Bool}

/-- What a fetch leaves in the buffer: the links of the new slots, if there are any. -/
theorem Fetched.links (clear : w.Clear)
    (steady : w.Steady w.rxdesc none) (last_eq : w.last = rx.last)
    (parsed : Parsed fw bufSz reachEnd w.rxdesc w news w') (fetched : Fetched rx w.rxdesc w' rx')
    (other : ∀ s ∈ news, s.pos ≠ rx.last) :
    news = [] ∧ rx'.buf = w.buf ∨ ∃ s rest, news = s :: rest ∧
      rx'.buf = Cells.link 76 (Cells.linkAll 76 w.buf none (news.map Slot.pos)) rx.last s.mark := by
  have walked := parsed.walked
  have last := walked.last_eq steady
  have bufs := walked.buf_eq steady
  have fsts : (news.map Slot.pair).map Prod.fst = news.map Slot.pos := List.map_map
  rw [fsts] at last bufs
  have final := fetched.buf
  cases news with
  | nil =>
      rw [if_pos (last_eq ▸ last.symm)] at final
      exact Or.inl ⟨rfl, final.trans bufs⟩
  | cons s rest =>
      refine Or.inr ⟨s, rest, rfl, ?_⟩
      obtain ⟨b, isLast⟩ : ∃ b, (s :: rest).getLast? = some b := ⟨_, List.getLast?_cons⟩
      rw [List.getLast?_map, isLast] at last
      have moved : rx.last ≠ w'.last := fun same =>
        other b (List.mem_of_getLast? isLast) (last.symm.trans same.symm)
      rw [if_neg moved, bufs] at final
      rw [final]
      congr 1
      have total := walked.end_le
      cases parsed with
      | @next _ w₁ _ n _ measured rest' =>
          rw [Slot.mark]
          change (if w'.pos < w.rxdesc then w.rxdesc + amlRxWrapFlag else w.rxdesc) =
            if (-w.pos).toNat ≠ 0 then w.rxdesc + amlRxWrapFlag else w.rxdesc
          by_cases two : w.pos < 0
          · have behind := clear.behind two
            rw [if_pos (by omega), if_pos (by omega)]
          · have place := clear.rxdesc (by omega)
            have pos := measured.pos_eq
            obtain ⟨inside, row⟩ := rest'.row measured.toFound.steady (by omega)
            have le := row.le
            rw [if_neg (by omega), if_neg (by omega)]

/-- A fetch changes the bytes of the links at most, of those not written by the read. -/
theorem Fetched.byte (clear : w.Clear)
    (steady : w.Steady w.rxdesc none) (last_eq : w.last = rx.last)
    (parsed : Parsed fw bufSz reachEnd w.rxdesc w news w') (fetched : Fetched rx w.rxdesc w' rx')
    (other : ∀ s ∈ news, s.pos ≠ rx.last) {x : Nat}
    (last : x < rx.last + 76 ∨ rx.last + 80 ≤ x)
    (outside : ∀ s ∈ news, x < s.pos + 76 ∨ s.pos + 80 ≤ x) : rx'.buf x = w.buf x := by
  rcases fetched.links clear steady last_eq parsed other with ⟨-, same⟩ | ⟨s, rest, -, links⟩
  · rw [same]
  · rw [links, Cells.link, Memory.set32, Memory.put, if_neg (by omega)]
    refine Cells.linkAll_byte fun q member => ?_
    obtain ⟨b, b_mem, rfl⟩ := List.mem_map.mp member
    exact outside b b_mem

theorem Fetched.byte_walked {pos0 : Nat} (fetched : Fetched rx pos0 w rx') {x : Nat}
    (last : x < rx.last + 76 ∨ rx.last + 80 ≤ x) : rx'.buf x = w.buf x := by
  rw [fetched.buf]
  by_cases same : rx.last = w.last
  · rw [if_pos same]
  · rw [if_neg same, Cells.link, Memory.set32, Memory.put, if_neg (by omega)]

end Links

variable {t : Tape} {taken i stop : Nat}

theorem Filled.nonempty (filled : Filled t rx taken i place slots) :
    ∃ a rest, slots = a :: rest ∧ a.pos = rx.tail := by
  have first := filled.first
  cases slots with
  | nil => cases first
  | cons a rest => exact ⟨a, rest, rfl, Option.some.inj first⟩

/-- Where the last slot is. -/
theorem Filled.last (filled : Filled t rx taken i place slots) :
    ∃ b ∈ slots, b.pos = rx.last := by
  have member := List.mem_of_getLast? filled.final
  obtain ⟨b, b_mem, eq⟩ := List.mem_map.mp member
  exact ⟨b, b_mem, eq⟩

/-- A fetch of bytes of the tape fills the buffer up to where they end. -/
theorem Filled.walked {w w' : Walk} {fw : Fw} {bufSz pos : Nat} {reachEnd : Bool}
    {data : Nat → UInt8} (filled : Filled t rx taken i place slots) (written : t.Written)
    (goes : Goes rx len rx₁ pos) (le : received ≤ len)
    (start : w = Ring.walkStart (rx₁.read pos len data) fwPos received pos) (clear : w.Clear)
    (rxEnd_lt : fw.rxEnd < amlRxWrapFlag)
    (parsed : Parsed fw bufSz reachEnd w.rxdesc w news w')
    (fetched : Fetched (rx₁.read pos len data) w.rxdesc w' rx') (stored : t.Stored w'.buf i news)
    (leaves : t.Leaves stop (i + news.length) w')
    (longer : ∀ s rest, news = s :: rest → rx.fw.frag0 < s.len) :
    Filled t rx' taken (i + news.length) stop (slots ++ news) := by
  obtain ⟨view, at_, left⟩ := leaves
  obtain ⟨a, tl, all, a_pos⟩ := filled.nonempty
  obtain ⟨b, b_mem, b_pos⟩ := filled.last
  have some : slots ≠ [] := all ▸ List.cons_ne_nil a tl
  have clear' := parsed.clear clear
  obtain ⟨lies, carry_pos, carry_first⟩ := goes.lies filled.lies some le start clear' parsed fetched
    (at_.lt written) longer
  have steady : w.Steady w.rxdesc none := start ▸ walkStart_steady _ _ _ _
  have same := fun x held => goes.same filled.lies data (x := x) held
  have eq := fetched.eq
  obtain ⟨tail, size, last⟩ : rx₁.tail = rx.tail ∧ rx₁.bufSz = rx.bufSz ∧ rx₁.last = rx.last := by
    cases goes <;> exact ⟨rfl, rfl, rfl⟩
  have tail : rx'.tail = rx.tail := by rw [eq]; exact tail
  have size : rx'.bufSz = rx.bufSz := by rw [eq]; exact size
  have buf : w.buf = (rx₁.read pos len data).buf := start ▸ rfl
  have last_eq : w.last = (rx₁.read pos len data).last := start ▸ rfl
  have last : (rx₁.read pos len data).last = b.pos := last.trans b_pos.symm
  have apart := lies.shape.apart
  have outside := lies.outside
  have mem_old : ∀ s ∈ slots, s ∈ slots ++ news := fun s => List.mem_append_left news
  have mem_new : ∀ s ∈ news, s ∈ slots ++ news := fun s => List.mem_append_right slots
  have across : ∀ s ∈ news, Cells.Apart rxDescSize b.pos s.pos := by
    rw [List.map_append] at apart
    exact fun s member => (List.pairwise_append.mp apart).2.2 _ (List.mem_map_of_mem b_mem) _
      (List.mem_map_of_mem member)
  have other : ∀ s ∈ news, s.pos ≠ (rx₁.read pos len data).last := by
    intro s member same
    have away := across s member
    simp only [Cells.Apart, rxDescSize] at away
    omega
  have links := fetched.links clear steady last_eq parsed other
  have byte := fun x => fetched.byte clear steady last_eq parsed other (x := x)
  have headers : ∀ s ∈ slots, newRead w.buf s.pos = newRead rx.buf s.pos := by
    intro s member
    refine newRead_of_same fun j inside => ?_
    obtain ⟨at_pos, inner⟩ := filled.lies.header member inside
    rw [buf, ← at_pos]
    exact same _ (filled.lies.held member inner)
  have final : rx'.last = ((news.map Slot.pos).getLast?).getD rx.last := by
    have fsts : (news.map Slot.pair).map Prod.fst = news.map Slot.pos := List.map_map
    have last' := parsed.walked.last_eq steady
    rw [fsts, last_eq, last, b_pos] at last'
    rw [eq]
    exact last'
  have frag0 : rx'.fw.frag0 = w'.len := by
    rw [eq]
    exact Nat.mod_eq_of_lt (at_.lt written)
  have skip : rx'.fw.skip = w'.skip := by rw [eq]
  have small : ∀ s ∈ slots ++ news, s.pos < amlRxWrapFlag := by
    intro s member
    have bufSz_le := filled.bufSz_le
    have tail_mem : rx'.tail ∈ (slots ++ news).map Slot.pos := by
      rw [tail, ← a_pos]
      exact List.mem_map_of_mem (mem_old a (all ▸ List.mem_cons_self))
    have fits := lies.shape.fits tail_mem s.pos (List.mem_map_of_mem member)
    simp only [rxbufStartAddr] at bufSz_le
    simp only [amlRxWrapFlag]
    omega
  refine ⟨size ▸ filled.bufSz_le, lies, ?first, ?final, ?chained, ?stop, ?stored, ?count, view,
    ?reader, ?carried⟩
  case first =>
    rw [List.map_append, List.head?_append, filled.first, tail]
    rfl
  case final =>
    rw [List.map_append, List.getLast?_append, filled.final, final]
    cases (news.map Slot.pos).getLast? <;> rfl
  case chained =>
    have old : Chained w.buf slots := by
      refine filled.chained.imp_of_mem_imp fun c d c_mem _ link => ?_
      rwa [headers c c_mem]
    rcases links with ⟨rfl, unchanged⟩ | ⟨s, rest, rfl, linked⟩
    · rw [List.append_nil, unchanged]
      exact old
    · exact chained_append old apart (b_pos ▸ filled.final) parsed.whole
        (fun c member => small c (mem_new c member)) (last ▸ linked)
  case stop =>
    rw [size, final]
    cases isLast : (news.map Slot.pos).getLast? with
    | none =>
        rw [List.getLast?_eq_none_iff, List.map_eq_nil_iff] at isLast
        rcases links with ⟨-, unchanged⟩ | ⟨s, rest, more, -⟩
        · rw [Option.getD_none, unchanged, ← b_pos, headers b b_mem, b_pos]
          exact filled.stop
        · rw [isLast] at more
          cases more
    | some p =>
        obtain ⟨s, member, rfl⟩ := List.mem_map.mp (List.mem_of_getLast? isLast)
        have away := across s member
        have kept : newRead rx'.buf s.pos = newRead w'.buf s.pos := by
          refine newRead_of_same fun j inside => fetched.byte_walked ?_
          simp only [Cells.Apart, rxDescSize] at away inside
          omega
        have fsts : (news.map Slot.pair).map Prod.fst = news.map Slot.pos := List.map_map
        have new_apart : ((none : Option Nat).toList ++
            (news.map Slot.pair).map Prod.fst).Pairwise (Cells.Apart rxDescSize) := by
          rw [fsts]
          rw [List.map_append] at apart
          exact (List.pairwise_append.mp apart).2.1
        have range := parsed.walked.last_range steady new_apart (fsts ▸ isLast)
        have bufSz_le := filled.bufSz_le
        rw [Option.getD_some, kept, clearWrap, Nat.mod_eq_of_lt (by omega)]
        omega
  case stored =>
    have stored_old := filled.stored
    have count := filled.count
    rw [all, List.tail_cons] at stored_old count
    rw [all, List.cons_append, List.tail_cons, Tape.stored_append, count]
    refine ⟨stored_old.of_same fun s member j inside away => ?_,
      stored.of_same fun s member j inside away => ?_⟩
    · have old : s ∈ slots := all ▸ List.mem_cons_of_mem a member
      rw [byte _ (last ▸ outside s (mem_old s old) b (mem_old b b_mem) j inside away)
        fun c c_mem => outside s (mem_old s old) c (mem_new c c_mem) j inside away, buf]
      exact same _ (filled.lies.held old inside)
    · exact fetched.byte_walked
        (last ▸ outside s (mem_new s member) b (mem_old b b_mem) j inside away)
  case count =>
    have count := filled.count
    rw [all, List.tail_cons] at count
    rw [all, List.cons_append, List.tail_cons, List.length_append]
    omega
  case reader =>
    rw [frag0, skip]
    exact at_
  case carried =>
    intro j inside
    have away := lies.carry_clear (mem_old b b_mem) j inside
    rw [frag0] at inside
    simp only [rxDescSize] at away
    have place : rx'.carry.place j = (w'.slot 0).place j := by
      rw [Slot.place, Slot.place, carry_pos, carry_first]
      rfl
    rw [fetched.byte_walked (by omega), place, ← clear'.byteAt_eq]
    exact left j inside

/-- What a fetch leaves as it is. -/
structure Kept (rx rx' : Rx) : Prop where
  layouts : rx'.layouts = rx.layouts
  start : rx'.start = rx.start
  reset : rx'.reset = rx.reset
  fw : rx'.fw = { rx.fw with frag0 := rx'.fw.frag0, skip := rx'.fw.skip }

/-- The end of a read is that of the lap if it is that of the device's buffer. -/
theorem Tape.reach_iff {fw : Fw} (rxEnd : fw.rxEnd = rxbufStartAddr + t.size)
    (some : len ≠ 0) (fits : place % t.size + len ≤ t.size) :
    (fw.rxEnd == t.addr place + len) = true ↔ (place + len) % t.size = 0 := by
  have lap := lapEnd_add_mod (t := t) place
  rw [beq_iff_eq, rxEnd, addr]
  rcases Nat.lt_or_eq_of_le fits with inside | ending
  · rw [mod_of_lt_lapEnd (Nat.le_add_right place len) (by omega)]
    omega
  · have at_end : place + len = t.lapEnd place := by omega
    rw [at_end, mod_lapEnd]
    omega

/-- A fetch finds no room, or it fills the buffer up to where it reads. -/
theorem Filled.fetch {bus : Bus} (filled : Filled t rx taken i place slots) (written : t.Written)
    (rxEnd : rx.fw.rxEnd = rxbufStartAddr + t.size) (skip : rx.fw.skip = 0)
    (regular : Regular rx len) (some : len ≠ 0) (data : ∀ k < len, bus.data k = t.data (place + k))
    (whole : len ≤ bus.received)
    (ran : amlSdioUsbRxDescFetch rx (t.addr place) len bus = .ok (received, rx')) :
    received = 0 ∧ rx' = rx ∨ received = len ∧ place + len ≤ t.lapEnd place ∧ Kept rx rx' ∧
      ∃ news, Filled t rx' taken (i + news.length) (place + len) (slots ++ news) := by
  rw [amlSdioUsbRxDescFetch] at ran
  split at ran
  · cases ran
    exact Or.inl ⟨rfl, rfl⟩
  rename_i pos room
  split_ifs at ran with range
  have fits : place % t.size + len ≤ t.size := by
    simp only [amlSdioUsbRxPosInRange, rxEnd, Tape.addr] at range
    simp only [Bool.not_eq_true', Bool.not_eq_false, Bool.and_eq_true, decide_eq_true_eq] at range
    omega
  have lap := Tape.lapEnd_add_mod (t := t) place
  split at ran
  · cases ran
  rename_i rx₁ pos' placed
  have goes := filled.lies.goes regular room placed
  have fw : rx₁.fw = rx.fw := by cases goes <;> rfl
  simp only [fetchRead, Nat.min_eq_right whole, if_neg some] at ran
  split at ran
  · cases ran
  rename_i w' walk
  obtain ⟨rx₂, linked, eq⟩ := Run.map_eq_ok ran
  cases eq
  obtain ⟨news, parsed⟩ := parsed_of_walk (Nat.le_refl _) walk
  obtain ⟨clear, old, new⟩ := goes.walkStart filled.lies (Nat.le_refl len) (t.addr place) bus.data
  obtain ⟨view, at_, carried⟩ := filled.carried
  generalize start : Ring.walkStart (rx₁.read pos' len bus.data) (t.addr place) len pos' = w
    at clear old new
  have len_eq : w.len = len + rx.fw.frag0 := by
    rw [← start, ← fw]
    rfl
  have fwPos_eq : w.fwPos + rx.fw.frag0 = t.addr place := by
    have at_start : w.fwPos = (t.addr place : Int) - rx.fw.frag0 := by
      rw [← start, ← fw]
      rfl
    omega
  have skip_eq : w.skip = 0 := by
    rw [← start, ← skip, ← fw]
    rfl
  have rxEnd₁ : rx₁.fw.rxEnd = rxbufStartAddr + t.size := by rw [fw, rxEnd]
  have walks : t.Walking (place + len) i w ∧
      ∀ n w₁, Measured rx₁.fw rx₁.bufSz w.rxdesc w n w₁ → rx.fw.frag0 < n :=
    at_.walking written skip clear rxEnd₁ (show place + len ≤ t.lapEnd place by omega) len_eq
      fwPos_eq (fun j inside => (old j inside).trans (carried j inside))
      (fun j inside => (new j inside).trans (data j inside))
  obtain ⟨walking, longer⟩ := walks
  have parsed :
      Parsed rx₁.fw rx₁.bufSz (rx₁.fw.rxEnd == t.addr place + len) w.rxdesc w news w' := by
    rw [← start]
    exact parsed
  have fetched : Fetched (rx₁.read pos' len bus.data) w.rxdesc w' rx' := by
    rw [← start]
    exact fetched_of_fetchLink linked
  obtain ⟨stored, leaves⟩ := walking.parsed written rxEnd₁
    (Tape.reach_iff rxEnd₁ some fits) clear skip_eq parsed
  have size_le := written.size_le
  refine Or.inr ⟨rfl, by omega, ?_, news, filled.walked written goes (Nat.le_refl len) start.symm
    clear (by omega) parsed fetched stored leaves ?_⟩
  · have eq := fetched.eq
    have same : rx₁.layouts = rx.layouts ∧ rx₁.start = rx.start ∧ rx₁.reset = rx.reset := by
      cases goes <;> exact ⟨rfl, rfl, rfl⟩
    refine ⟨?_, ?_, ?_, ?_⟩
    · rw [eq]
      exact same.1
    · rw [eq]
      exact same.2.1
    · rw [eq]
      exact same.2.2
    · rw [eq, ← fw]
      rfl
  · rintro s rest rfl
    cases parsed with
    | next measured _ => exact longer _ _ measured

/-! ## Consuming -/

/-- Without the slot that was consumed, the next one is at the tail. -/
theorem Lies.put {a b : Slot} (lies : Lies rx (a :: b :: slots)) (first : a.pos = rx.tail)
    (head : rx'.head = rx.head) (bufSz : rx'.bufSz = rx.bufSz)
    (carried : rx'.fw.frag0 = rx.fw.frag0) (tail : rx'.tail = b.pos)
    (frag0 : rx'.frag0 = if b.first ≠ 0 then 0 else rx.frag0) :
    Lies rx' (b :: slots) ∧ (b.first ≠ 0 → rx.frag0 = b.first) ∧
      rx'.carry.first = rx.carry.first := by
  have mini := mini_pos
  have some := rxDescSize_le_mini
  -- what is carried is in one part, but before and after where the slots are in one piece
  have single : rx.head < rx.tail → (rx'.tail ≤ rx'.head → rx'.frag0 = 0) →
      rx'.carry.first = rx.carry.first := by
    intro above none
    change (if rx'.tail ≤ rx'.head then rx'.frag0 else 0) =
      if rx.tail ≤ rx.head then rx.frag0 else 0
    rw [if_neg (Nat.not_le.mpr above)]
    split_ifs with straight
    · exact none straight
    · rfl
  generalize all : a :: b :: slots = qs at lies
  cases lies with
  | straight row below carry =>
      subst all
      obtain ⟨-, row⟩ := row.of_cons
      have whole := row.whole b List.mem_cons_self
      obtain ⟨at_b, -⟩ := row.of_cons
      have bound := row.within List.mem_cons_self
      rw [if_neg (not_not.mpr whole)] at frag0
      simp only [rxDescSize] at bound
      refine ⟨.straight ?_ ?_ ?_, fun two => absurd whole two, ?_⟩
      · rw [tail, head, at_b]
        exact row
      · omega
      · cases carry with
        | single none room => exact .single (by omega) (by omega)
        | parts long room second covers =>
            exact .parts (by omega) (by omega) (by omega) (by omega)
      · change (if rx'.tail ≤ rx'.head then rx'.frag0 else 0) =
          if rx.tail ≤ rx.head then rx.frag0 else 0
        rw [if_pos (by omega), if_pos (by omega), frag0]
  | @wrapped ups downs top upper top_le lower room none =>
      cases ups with
      | nil =>
          rw [List.nil_append] at all
          subst all
          have bound := lower.within List.mem_cons_self
          omega
      | cons a' ups =>
          obtain ⟨rfl, rest⟩ := List.cons.inj all
          have above := upper.within List.mem_cons_self
          obtain ⟨-, upper⟩ := upper.of_cons
          cases ups with
          | nil =>
              obtain rfl : b :: slots = downs := rest
              have whole := lower.whole b List.mem_cons_self
              have bound := lower.within List.mem_cons_self
              obtain ⟨at_b, -⟩ := lower.of_cons
              rw [if_neg (not_not.mpr whole)] at frag0
              refine ⟨.straight ?_ ?_ (.single ?_ ?_), fun two => absurd whole two,
                single (by omega) fun _ => frag0.trans none⟩
              · rw [tail, head, at_b]
                exact lower
              · simp only [rxDescSize] at bound
                omega
              · omega
              · omega
          | cons b' ups =>
              obtain ⟨rfl, rfl⟩ := List.cons.inj rest
              have whole := upper.whole b List.mem_cons_self
              have bound := upper.within List.mem_cons_self
              obtain ⟨at_b, -⟩ := upper.of_cons
              rw [if_neg (not_not.mpr whole)] at frag0
              refine ⟨?_, fun two => absurd whole two, single (by omega) (by omega)⟩
              change Lies rx' (b :: ups ++ downs)
              refine .wrapped ?_ (bufSz ▸ top_le) (head ▸ lower) ?_ (frag0.trans none)
              · rw [tail, at_b]
                exact upper
              · omega
  | @split ups downs s upper long part top_le lower room mark =>
      cases ups with
      | nil =>
          obtain ⟨rfl, rfl⟩ := List.cons.inj all
          rw [if_pos rfl] at mark
          have whole := lower.whole b List.mem_cons_self
          have bound := lower.within List.mem_cons_self
          obtain ⟨at_b, -⟩ := lower.of_cons
          rw [if_neg (not_not.mpr whole)] at frag0
          refine ⟨.straight ?_ ?_ (.single ?_ ?_), fun two => absurd whole two,
            single (by omega) fun _ => frag0.trans mark⟩
          · rw [tail, head, at_b]
            exact lower
          · simp only [rxDescSize] at bound
            omega
          · omega
          · omega
      | cons a' ups =>
          obtain ⟨rfl, rest⟩ := List.cons.inj all
          rw [if_neg (List.cons_ne_nil a ups)] at mark
          have above := upper.within List.mem_cons_self
          obtain ⟨-, upper⟩ := upper.of_cons
          cases ups with
          | nil =>
              obtain ⟨rfl, rfl⟩ := List.cons.inj rest
              have le := upper.le
              rw [if_pos (by omega)] at frag0
              refine ⟨?_, fun _ => mark, single (by omega) (by omega)⟩
              change Lies rx' ([] ++ b :: slots)
              refine .split ?_ long part (bufSz ▸ top_le) (head ▸ lower) ?_ frag0
              · rw [tail]
                exact .nil _
              · omega
          | cons b' ups =>
              obtain ⟨rfl, rfl⟩ := List.cons.inj rest
              have whole := upper.whole b List.mem_cons_self
              have bound := upper.within List.mem_cons_self
              obtain ⟨at_b, -⟩ := upper.of_cons
              rw [if_neg (not_not.mpr whole)] at frag0
              refine ⟨?_, fun two => absurd whole two, single (by omega) (by omega)⟩
              change Lies rx' (b :: ups ++ s :: downs)
              refine .split ?_ long part (bufSz ▸ top_le) (head ▸ lower) ?_ ?_
              · rw [tail, at_b]
                exact upper
              · omega
              · rw [if_neg (List.cons_ne_nil b ups), frag0]
                exact mark

/-- The consumer takes the next descriptor of the tape, or there is none. -/
theorem Filled.put {found : Option (Nat × Nat)} (filled : Filled t rx taken i place slots)
    (ran : amlSdioUsbRxBufPut rx = .ok (found, rx')) :
    found = none ∧ rx' = rx ∧ taken = i ∨
      ∃ (s : Slot) (slots' : List Slot),
        found = some (s.pos, s.first) ∧ taken < i ∧ s.len = t.len taken ∧
        s.Holds rx'.buf (t.content taken) ∧ rx'.fw = rx.fw ∧ Kept rx rx' ∧
        Filled t rx' (taken + 1) i place slots' := by
  obtain ⟨a, rest, rfl, a_pos⟩ := filled.nonempty
  have chained := filled.chained
  have count := filled.count
  have fits := filled.lies.shape.fits
  have bufSz_le := filled.bufSz_le
  rw [List.tail_cons] at count
  cases rest with
  | nil =>
      have final : a.pos = rx.last := Option.some.inj filled.final
      rcases amlSdioUsbRxBufPut_ok ran with ⟨rfl, rfl, -⟩ | ⟨p, p_eq, inside, -⟩
      · exact Or.inl ⟨rfl, rfl, count⟩
      · have stop := filled.stop
        rw [← final, a_pos, ← p_eq] at stop
        omega
  | cons b rest =>
      obtain ⟨link, chained'⟩ := List.isChain_cons_cons.mp chained
      have fits_b := fits (a_pos ▸ List.mem_cons_self) b.pos (by simp)
      have small : b.pos < amlRxWrapFlag := by
        simp only [rxbufStartAddr] at bufSz_le
        simp only [amlRxWrapFlag]
        omega
      rw [a_pos] at link
      have flagged := b.mark_ge_iff small
      obtain ⟨⟨len, holds⟩, stored⟩ := filled.stored
      have more : taken < i := by
        rw [List.length_cons] at count
        omega
      rcases amlSdioUsbRxBufPut_ok ran with ⟨-, -, full⟩ | ⟨p, p_eq, inside, taking⟩
      · rw [link, b.clearWrap_mark small] at full
        simp only [rxDescSize] at fits_b
        omega
      · rw [link] at taking
        rw [link, b.clearWrap_mark small] at p_eq
        subst p_eq
        have same : rx'.head = rx.head ∧ rx'.bufSz = rx.bufSz ∧ rx'.fw = rx.fw ∧
            rx'.buf = rx.buf ∧ rx'.last = rx.last ∧ rx'.tail = b.pos ∧ rx'.layouts = rx.layouts ∧
            rx'.start = rx.start ∧ rx'.reset = rx.reset := by
          rcases taking with ⟨-, -, rfl⟩ | ⟨-, -, rfl⟩ <;> exact ⟨rfl, rfl, rfl, rfl, rfl, rfl, rfl,
            rfl, rfl⟩
        obtain ⟨head, bufSz, fw, buf, last, tail, layouts, start, reset⟩ := same
        have frag0 : rx'.frag0 = if b.first ≠ 0 then 0 else rx.frag0 := by
          rcases taking with ⟨flag, -, rfl⟩ | ⟨flag, -, rfl⟩
          · exact (if_pos (flagged.mp flag)).symm
          · exact (if_neg fun two => Nat.not_le.mpr flag (flagged.mpr two)).symm
        obtain ⟨lies, first, carry_first⟩ :=
          filled.lies.put a_pos head bufSz (by rw [fw]) tail frag0
        have found_eq : found = some (b.pos, b.first) := by
          rcases taking with ⟨flag, rfl, -⟩ | ⟨flag, rfl, -⟩
          · rw [first (flagged.mp flag)]
          · have whole : b.first = 0 := by
              by_contra two
              exact Nat.not_le.mpr flag (flagged.mpr two)
            rw [whole]
        obtain ⟨view, at_, carried⟩ := filled.carried
        refine Or.inr ⟨b, b :: rest, found_eq, more, len, buf ▸ holds, fw,
          ⟨layouts, start, reset, by rw [fw]⟩, bufSz ▸ bufSz_le, lies, tail ▸ rfl, ?_,
          buf ▸ chained', ?_, buf ▸ stored, ?_, view, fw ▸ at_, fun j inside => ?_⟩
        · rw [last, ← filled.final]
          rfl
        · rw [bufSz, last, buf]
          exact filled.stop
        · rw [List.tail_cons]
          rw [List.length_cons] at count
          omega
        · rw [fw] at inside
          have place : rx'.carry.place j = rx.carry.place j := by
            have pos : rx'.carry.pos = rx.carry.pos := head
            rw [Slot.place, Slot.place, pos, carry_first]
          rw [buf, place]
          exact carried j inside

end AmlW2.Ring
