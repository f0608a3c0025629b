import AmlW2.Ring.Contents

/-!
# Descriptors from the device to the receive task

The bus task reads what the firmware announces, in whichever chunks the head and the ends of the
buffers leave, and the receive task consumes descriptors in between.  As long as every read is
placed right, the receive task takes the descriptors of the tape, one after the other and each as
it was written, and leaves none that was read whole.
-/

namespace AmlW2.Ring

/-! ## Words of the device -/

namespace Tape

variable (t : Tape)

/-- The word of a place: its address, flagged in every other lap. -/
def word (place : Nat) : Nat :=
  t.addr place + if t.size ≤ place % (2 * t.size) then amlRxWrapFlag else 0

/-- Where a word is in two laps. -/
def unroll (w : Nat) : Nat :=
  clearWrap w - rxbufStartAddr + if amlRxWrapFlag ≤ w then t.size else 0

/-- How far a word is ahead of another. -/
def ahead (w w' : Nat) : Nat := (t.unroll w' + 2 * t.size - t.unroll w) % (2 * t.size)

variable {t}

theorem mod_two_laps (pos : 0 < t.size) (place : Nat) :
    place % (2 * t.size) = place % t.size ∨ place % (2 * t.size) = place % t.size + t.size := by
  have small := Nat.mod_lt place (show 0 < 2 * t.size by omega)
  have same : place % (2 * t.size) % t.size = place % t.size :=
    Nat.mod_mod_of_dvd place (Nat.dvd_mul_left t.size 2)
  by_cases first : place % (2 * t.size) < t.size
  · rw [Nat.mod_eq_of_lt first] at same
    exact Or.inl same
  · rw [Nat.mod_eq_sub_mod (by omega), Nat.mod_eq_of_lt (by omega)] at same
    omega

theorem addr_lt (written : t.Written) (place : Nat) :
    rxbufStartAddr ≤ t.addr place ∧ t.addr place < rxbufStartAddr + t.size := by
  have small := Nat.mod_lt place written.size_pos
  rw [addr]
  omega

theorem clearWrap_word (written : t.Written) (place : Nat) :
    clearWrap (t.word place) = t.addr place := by
  have bound := addr_lt written place
  have size_le := written.size_le
  rw [clearWrap, word]
  split_ifs
  · rw [Nat.add_mod_right, Nat.mod_eq_of_lt (by omega)]
  · exact Nat.mod_eq_of_lt (by omega)

theorem flagged_word (written : t.Written) (place : Nat) :
    amlRxWrapFlag ≤ t.word place ↔ t.size ≤ place % (2 * t.size) := by
  have bound := addr_lt written place
  have size_le := written.size_le
  rw [word]
  split_ifs with later <;> omega

theorem unroll_word (written : t.Written) (place : Nat) :
    t.unroll (t.word place) = place % (2 * t.size) := by
  have small := Nat.mod_lt place written.size_pos
  rw [unroll, clearWrap_word written, addr]
  simp only [flagged_word written]
  rcases mod_two_laps written.size_pos place with first | second
  · rw [if_neg (by omega)]
    omega
  · rw [if_pos (by omega)]
    omega

theorem ahead_word (written : t.Written) {p q : Nat} (le : p ≤ q) (near : q < p + 2 * t.size) :
    t.ahead (t.word p) (t.word q) = q - p := by
  have pos := written.size_pos
  have small := Nat.mod_lt p (show 0 < 2 * t.size by omega)
  obtain ⟨d, rfl⟩ := Nat.exists_eq_add_of_le le
  have sum : (p + d) % (2 * t.size) = (p % (2 * t.size) + d) % (2 * t.size) := by
    rw [Nat.add_mod, Nat.mod_eq_of_lt (show d < 2 * t.size by omega)]
  rw [ahead, unroll_word written, unroll_word written, sum]
  by_cases fits : p % (2 * t.size) + d < 2 * t.size
  · rw [Nat.mod_eq_of_lt fits, Nat.mod_eq_sub_mod (by omega), Nat.mod_eq_of_lt (by omega)]
    omega
  · rw [Nat.mod_eq_sub_mod (Nat.le_of_not_lt fits),
      Nat.mod_eq_of_lt (show p % (2 * t.size) + d - 2 * t.size < 2 * t.size by omega),
      Nat.mod_eq_of_lt (by omega)]
    omega

/-- Places of one lap have their flag in common. -/
theorem flag_of_lt_lapEnd {p q : Nat} (pos : 0 < t.size) (le : p ≤ q) (lt : q < t.lapEnd p) :
    t.size ≤ q % (2 * t.size) ↔ t.size ≤ p % (2 * t.size) := by
  have small := Nat.mod_lt p (show 0 < 2 * t.size by omega)
  have lap := lapEnd_add_mod (t := t) p
  obtain ⟨d, rfl⟩ := Nat.exists_eq_add_of_le le
  have inside := Nat.mod_lt p pos
  have sum : (p + d) % (2 * t.size) = p % (2 * t.size) + d := by
    rw [Nat.add_mod, Nat.mod_eq_of_lt (show d < 2 * t.size by omega)]
    rcases mod_two_laps pos p with first | second <;> exact Nat.mod_eq_of_lt (by omega)
  rcases mod_two_laps pos p with first | second <;> omega

theorem addr_add {p d : Nat} (inside : p + d < t.lapEnd p) : t.addr (p + d) = t.addr p + d := by
  rw [addr, addr, mod_of_lt_lapEnd (Nat.le_add_right p d) inside]
  omega

/-- The word of a place further on in the lap. -/
theorem word_add {p d : Nat} (written : t.Written) (inside : p + d < t.lapEnd p) :
    t.word (p + d) = t.word p + d := by
  have flag := flag_of_lt_lapEnd written.size_pos (Nat.le_add_right p d) inside
  rw [word, word, addr_add inside]
  simp only [flag]
  omega

/-- The word of the start of a lap, from that of a place in it. -/
theorem word_lapEnd {p h : Nat} (written : t.Written) (le : t.lapEnd p ≤ h)
    (lt : h < t.lapEnd p + t.size) :
    t.word (t.lapEnd p) =
      rxbufStartAddr + if amlRxWrapFlag ≤ t.word h then amlRxWrapFlag else 0 := by
  have zero := mod_lapEnd (t := t) p
  have inside : h < t.lapEnd (t.lapEnd p) := by
    rw [lapEnd, zero]
    omega
  have flag := flag_of_lt_lapEnd written.size_pos le inside
  simp only [flagged_word written, flag]
  rw [word, addr, zero]
  rfl

end Tape

/-! ## The receive path with the tape -/

/-- A byte of the descriptor that the receive task takes: one in two parts goes on at the beginning
of the buffer. -/
def descByteAt (m : Memory) (rxdesc frag0 j : Nat) : UInt8 :=
  if frag0 ≠ 0 ∧ frag0 ≤ j then m (j - frag0) else m (rxdesc + j)

theorem descByteAt_eq (m : Memory) (s : Slot) (j : Nat) :
    descByteAt m s.pos s.first j = m (s.place j) := by
  rw [descByteAt, Slot.place]
  split_ifs <;> rfl

/-- The receive path, the place of the device's tail on the tape, and what the receive task took. -/
structure Reader where
  host : Host
  place : Nat
  taken : List Memory

/-- Where the device's tail is after an event. -/
def Reader.follow (t : Tape) (s : Reader) (host : Host) : Reader :=
  { s with host, place := s.place + t.ahead s.host.rx.fw.tail host.rx.fw.tail }

/-- The descriptor that the receive task takes, if there is one. -/
def Reader.take (s : Reader) (found : Option (Nat × Nat)) (rx : Rx) : Reader :=
  { s with
    host := { s.host with rx }
    taken := s.taken ++ found.toList.map fun desc => descByteAt rx.buf desc.1 desc.2 }

/-- One event. -/
def Reader.step (t : Tape) (s : Reader) : Event → Except Bug Reader
  | .put => (amlSdioUsbRxBufPut s.host.rx).map fun result => s.take result.1 result.2
  | e => (s.host.step e).map (s.follow t)

/-- A run. -/
abbrev Reader.run (t : Tape) : List Event → Reader → Except Bug Reader := Run.run (Reader.step t)

/-- After `aml_sdio_usb_rx_init` and `aml_sdio_usb_rx_restart`. -/
def Reader.init (config : Config) : Reader where
  host := { Host.init config with rx := amlSdioUsbRxRestart (Host.init config).rx }
  place := 0
  taken := []

/-- The firmware announces a place that is less than a lap ahead, the bus gives the bytes of the
tape, and every read is placed right. -/
def Reader.Fed (t : Tape) (s : Reader) : Event → Prop
  | .headInd fwRxHead => s.host.call = none →
      let rx := amlSdioUsbFwRxHeadInd s.host.rx fwRxHead
      rx.fw.state = 0 ∧ ∃ h, rx.fw.head = t.word h ∧ s.place ≤ h ∧ h < s.place + t.size
  | .dataind busErr newTail => busErr = false ∧ (s.host.rx.reset = true → newTail = rxbufStartAddr)
  | .turn bus => ∀ rx len, s.host.fetch = some (rx, len) → Regular rx len ∧ len ≤ bus.received ∧
      ∀ k < len, bus.data k = t.data (s.place + t.ahead s.host.rx.fw.tail rx.fw.tail + k)
  | .put => True
  | .stop => False
  | .restart => False

variable {t : Tape} {rx rx' : Rx} {taken i place : Nat} {slots : List Slot}

/-- What is filled depends on the ring and the fragments only. -/
theorem Filled.adjust {place' : Nat} (filled : Filled t rx taken i place slots) (fw : Fw)
    (start reset : Bool) (txPage : Nat) (frag0 : fw.frag0 = rx.fw.frag0)
    (reads : ∀ view, t.At i rx.fw.frag0 rx.fw.skip place view →
      t.At i rx.fw.frag0 fw.skip place' view) :
    Filled t { rx with fw, start, reset, txPage } taken i place' slots := by
  obtain ⟨bufSz_le, lies, first, final, chained, stop, stored, count, view, at_, carried⟩ := filled
  refine ⟨bufSz_le, ?_, first, final, chained, stop, stored, count, view, ?_, ?_⟩
  · cases lies with
    | straight row some carry =>
        refine .straight row some ?_
        cases carry with
        | single none room => exact .single none (frag0 ▸ room)
        | parts long room second covers => exact .parts long room (frag0 ▸ second) (frag0 ▸ covers)
    | wrapped upper top_le lower room none =>
        exact .wrapped upper top_le lower (frag0 ▸ room) none
    | split upper long part top_le lower room mark =>
        exact .split upper long part top_le lower (frag0 ▸ room) mark
  · rw [frag0]
    exact reads view at_
  · intro j inside
    exact carried j (frag0 ▸ inside)

theorem Filled.with_fw (filled : Filled t rx taken i place slots) (fw : Fw) (start reset : Bool)
    (txPage : Nat) (frag0 : fw.frag0 = rx.fw.frag0) (skip : fw.skip = rx.fw.skip) :
    Filled t { rx with fw, start, reset, txPage } taken i place slots :=
  filled.adjust fw start reset txPage frag0 fun _ at_ => skip ▸ at_

/-- The driver and the firmware at a place of the tape. -/
structure Follows (t : Tape) (rx : Rx) (place h : Nat) : Prop where
  rxEnd : rx.fw.rxEnd = rxbufStartAddr + t.size
  tail : rx.fw.tail = t.word place
  head : rx.fw.head = t.word h
  le : place ≤ h
  near : h < place + t.size
  state : rx.fw.state = 0
  confirmFlags : rx.fw.confirmFlags = 0
  start : rx.start = true

/-- What holds between two events. -/
structure Reader.Sound (t : Tape) (s : Reader) : Prop where
  follows : ∃ h, Follows t s.host.rx s.place h
  call : ∀ c, s.host.call = some c →
    c.rxHead = clearWrap s.host.rx.fw.head ∧ c.rxTail = t.addr s.place ∧ s.host.rx.reset = false
  /-- Before the first call nothing was read. -/
  fresh : s.host.rx.reset = true → s.place = 0 ∧ s.host.rx.frag0 = 0 ∧ s.host.rx.fw.frag0 = 0 ∧
    s.host.rx.fw.skip = 0
  filled : ∃ i slots, Filled t s.host.rx s.taken.length i s.place slots
  taken : ∀ n m, s.taken[n]? = some m → ∀ j < t.len n, j < 76 ∨ 80 ≤ j → m j = t.content n j

/-! ## Turns of the loop -/

theorem Tape.At.no_padding {f skip : Nat} {view : Memory} (at_ : t.At i f skip place view)
    (written : t.Written) :
    t.addr place - f + rxDescSize ≤ rxbufStartAddr + t.size := by
  have bound := addr_lt written place
  have header := written.header i
  have kept := kept_ge written i
  have header_le : rxDescSize ≤ rxbufStartAddr := by decide
  cases at_ with
  | plain before within =>
      have lap := lapEnd_add_mod (t := t) (t.start i)
      have mod := mod_of_lt_lapEnd (t := t) (Nat.le_add_right _ f) within
      rw [addr, mod]
      omega
  | further wraps le lt => omega
  | due wraps repeats => omega

/-- Restarting the device's tail changes nothing inside the lap. -/
theorem Follows.restart {h : Nat} (follows : Follows t rx place h) (written : t.Written)
    (pending : rx.fw.tail ≠ rx.fw.head) {skip : Nat} {view : Memory}
    (at_ : t.At i rx.fw.frag0 skip place view) :
    amlSdioUsbFwTailRestart rx (t.addr place) = .ok (rx, t.addr place) := by
  have bound := Tape.addr_lt written place
  have padding := at_.no_padding written
  rw [amlSdioUsbFwTailRestart, if_neg pending, if_neg]
  rw [follows.rxEnd]
  omega

/-- Confirming does nothing while the layout does not change. -/
theorem Follows.confirm {h : Nat} (follows : Follows t rx place h) :
    amlSdioUsbRxConfirm rx = rx := by
  have state := follows.state
  have flags := follows.confirmFlags
  have switch : confirmSwitch rx = (0, rx) := by
    simp only [confirmSwitch, state, flags]
    rfl
  have fw : { rx.fw with confirmFlags := 0 } = rx.fw := by rw [← flags]
  rw [amlSdioUsbRxConfirm, switch]
  simp only [if_neg (show ¬(0 = hostRxbufReduceFinish ∨ 0 = hostRxbufEnlargeFinish) by decide), fw]

/-- The read asked for goes up to the head, or to the end of the lap. -/
theorem Follows.reach {h : Nat} (follows : Follows t rx place h) (written : t.Written)
    (pending : rx.fw.tail ≠ rx.fw.head) :
    let len := if t.addr place < t.addr h then t.addr h - t.addr place
      else rx.fw.rxEnd - t.addr place
    0 < len ∧ place + len ≤ h ∧ place + len ≤ t.lapEnd place := by
  intro len
  have le := follows.le
  have near := follows.near
  have lap := Tape.lapEnd_add_mod (t := t) place
  have small := Nat.mod_lt place written.size_pos
  have bound := Tape.addr_lt written place
  have apart : place ≠ h := by
    rintro rfl
    exact pending (follows.tail.trans follows.head.symm)
  rcases Nat.lt_or_ge h (t.lapEnd place) with inside | later
  · have address : t.addr h = t.addr place + (h - place) := by
      rw [← Tape.addr_add (by omega), Nat.add_sub_cancel' le]
    have eq : len = h - place := by
      rw [show len = t.addr h - t.addr place from if_pos (by omega)]
      omega
    omega
  · have mod := Tape.mod_of_lapEnd_le later (by omega)
    have eq : len = t.lapEnd place - place := by
      rw [show len = rx.fw.rxEnd - t.addr place from if_neg (by
        rw [Tape.addr, Tape.addr, mod]
        omega), follows.rxEnd, Tape.addr]
      omega
    have below := Tape.lt_lapEnd written.size_pos place
    omega

/-- What a turn of the loop asks for. -/
theorem Follows.args {h len rxTail : Nat} {c : Call} (follows : Follows t rx place h)
    (written : t.Written) (pending : rx.fw.tail ≠ rx.fw.head)
    (rxHead : c.rxHead = clearWrap rx.fw.head) (at_tail : c.rxTail = t.addr place)
    (filled : Filled t rx taken i place slots) (ran : turnArgs rx c = .ok (rx', rxTail, len)) :
    ∃ place', place ≤ place' ∧ rxTail = t.addr place' ∧ Follows t rx' place' h ∧
      Filled t rx' taken i place' slots ∧ rx'.fw.skip = 0 ∧ place' + len ≤ h ∧
      place' + len ≤ t.lapEnd place' ∧ rx'.reset = rx.reset := by
  have bound := Tape.addr_lt written place
  obtain ⟨some, le_h, le_lap⟩ := follows.reach written pending
  have skipped : turnSkip rx (t.addr place) (if t.addr place < t.addr h then
      t.addr h - t.addr place else rx.fw.rxEnd - t.addr place) = .ok (rx', rxTail, len) := by
    rw [turnArgs, at_tail, rxHead, follows.head, Tape.clearWrap_word written] at ran
    have ordered : ¬rx.fw.rxEnd < t.addr place := by
      rw [follows.rxEnd]
      omega
    rw [if_neg ordered] at ran
    split_ifs at ran ⊢ <;> exact ran
  generalize (if t.addr place < t.addr h then t.addr h - t.addr place
    else rx.fw.rxEnd - t.addr place) = asked at some le_h le_lap skipped
  obtain ⟨view, at_, -⟩ := filled.carried
  rw [turnSkip] at skipped
  by_cases skip : rx.fw.skip = 0
  · rw [if_neg fun both => both.1 skip] at skipped
    cases skipped
    exact ⟨place, Nat.le_refl _, rfl, follows, filled, skip, le_h, le_lap, rfl⟩
  · -- the reader is at the end of a lap, before what is repeated
    have due : t.Wraps i ∧ t.repeated i ≠ 0 ∧ rx.fw.frag0 = t.kept i ∧
        rx.fw.skip = t.repeated i ∧ place = t.lapEnd (t.start i) := by
      generalize rx.fw.frag0 = f, rx.fw.skip = k at at_ skip
      cases at_ with
      | plain => exact absurd rfl skip
      | further => exact absurd rfl skip
      | due wraps repeats => exact ⟨wraps, repeats, rfl, rfl, rfl⟩
    obtain ⟨wraps, repeats, had, skips, at_end⟩ := due
    have zero : t.addr place = rxbufStartAddr := by
      rw [at_end, Tape.addr, Tape.mod_lapEnd]
      rfl
    rw [if_pos ⟨skip, zero⟩] at skipped
    split_ifs at skipped with short
    cases skipped
    have inside : place + rx.fw.skip < t.lapEnd place := by omega
    have word := Tape.word_add written inside
    have lap := Tape.lapEnd_of_lt_lapEnd written.size_pos (Nat.le_add_right _ _) inside
    obtain ⟨rxEnd, tail, head, le, near, state, flags, start⟩ := follows
    refine ⟨place + rx.fw.skip, Nat.le_add_right _ _, (Tape.addr_add inside).symm, ⟨rxEnd, ?_, head,
      by omega, by omega, state, flags, start⟩, ?_, rfl, by omega, by omega, rfl⟩
    · rw [word, ← tail]
    · refine filled.adjust _ _ _ _ rfl fun view at_ => ?_
      have resumes := written.resumes i wraps
      have length := Tape.len_of_wraps wraps
      have further := Tape.At.further wraps (Nat.le_refl _) (show t.kept i < t.len i by omega)
      rw [Tape.rest, Nat.sub_self, Nat.add_zero, ← at_end, ← skips, ← had] at further
      generalize rx.fw.frag0 = f, rx.fw.skip = k, place = p at at_ skip further
      cases at_ with
      | plain => exact absurd rfl skip
      | further => exact absurd rfl skip
      | due => exact further

/-- The end of a turn that read up to a place. -/
theorem Follows.advance {h received : Nat} {c c' : Call} (follows : Follows t rx place h)
    (written : t.Written) (le_h : place + received ≤ h)
    (le_lap : place + received ≤ t.lapEnd place)
    (filled : Filled t rx taken i (place + received) slots)
    (ran : turnAdvance rx c (t.addr place) received = .ok (rx', c')) :
    Follows t rx' (place + received) h ∧ Filled t rx' taken i (place + received) slots ∧
      c'.rxHead = c.rxHead ∧ c'.rxTail = t.addr (place + received) ∧
      rx'.reset = rx.reset ∧ rx'.fw.head = rx.fw.head := by
  have bound := Tape.addr_lt written place
  have lap := Tape.lapEnd_add_mod (t := t) place
  have below := Tape.lt_lapEnd written.size_pos place
  obtain ⟨rxEnd, tail, head, le, near, state, flags, start⟩ := follows
  obtain ⟨view, at_, -⟩ := filled.carried
  have filled' := filled.with_fw { rx.fw with tail := rx.fw.tail + received } rx.start rx.reset
    rx.txPage rfl rfl
  simp only [turnAdvance] at ran
  split_ifs at ran with range drained
  · cases ran
    have inside : place + received < t.lapEnd place := by
      refine Nat.lt_of_le_of_ne le_lap fun ending => ?_
      have bound' := Tape.addr_lt written h
      have size_le := written.size_le
      rw [tail, head, Tape.word, Tape.word] at drained
      have far : t.addr place + received = rxbufStartAddr + t.size := by
        rw [Tape.addr]
        omega
      split_ifs at drained <;> omega
    refine ⟨⟨rxEnd, ?_, head, le_h, by omega, state, flags, start⟩, filled', rfl,
      (Tape.addr_add inside).symm, rfl, rfl⟩
    rw [Tape.word_add written inside, ← tail]
  · obtain ⟨⟨rx₁, rxTail⟩, restarted, eq⟩ := Run.map_eq_ok ran
    cases eq
    rcases Nat.lt_or_eq_of_le le_lap with inside | ending
    · have follows : Follows t { rx with fw := { rx.fw with tail := rx.fw.tail + received } }
          (place + received) h := by
        refine ⟨rxEnd, ?_, head, le_h, by omega, state, flags, start⟩
        rw [Tape.word_add written inside, ← tail]
      rw [← Tape.addr_add inside, follows.restart written drained at_] at restarted
      cases restarted
      exact ⟨follows, filled', rfl, rfl, rfl, rfl⟩
    · have far : t.addr place + received = rx.fw.rxEnd := by
        rw [rxEnd, Tape.addr]
        omega
      have word := Tape.word_lapEnd written (ending ▸ le_h) (show h < _ + t.size by omega)
      have zero : t.addr (place + received) = rxbufStartAddr := by
        rw [ending, Tape.addr, Tape.mod_lapEnd]
        rfl
      rw [amlSdioUsbFwTailRestart, if_neg drained, if_pos (Or.inl far)] at restarted
      simp only [if_pos far] at restarted
      cases restarted
      refine ⟨⟨rxEnd, ?_, head, le_h, by omega, state, flags, start⟩, ?_, rfl, zero.symm, rfl, rfl⟩
      · rw [ending, word, ← head]
      · exact filled.with_fw _ _ _ _ rfl rfl

/-- Where the device's tail was followed to. -/
theorem Reader.follow_place {s : Reader} {host : Host} {h h' : Nat} (written : t.Written)
    (before : Follows t s.host.rx s.place h) (after : Follows t host.rx place h')
    (le : s.place ≤ place) (near : place < s.place + 2 * t.size) :
    (s.follow t host).place = place := by
  change s.place + t.ahead s.host.rx.fw.tail host.rx.fw.tail = place
  rw [before.tail, after.tail, Tape.ahead_word written le near]
  omega

theorem Follows.leave {h : Nat} (follows : Follows t rx place h) (c : Call) :
    rxdataindLeave rx c = rx := by
  rw [rxdataindLeave, follows.confirm, ite_self]

theorem Follows.kept {h : Nat} (follows : Follows t rx place h) (kept : Kept rx rx') :
    Follows t rx' place h := by
  obtain ⟨rxEnd, tail, head, le, near, state, flags, start⟩ := follows
  have fw := kept.fw
  exact ⟨by rw [fw]; exact rxEnd, by rw [fw]; exact tail, by rw [fw]; exact head, le, near,
    by rw [fw]; exact state, by rw [fw]; exact flags, kept.start.trans start⟩

theorem readLen_le (len : Nat) : readLen len ≤ len := by
  rw [readLen]
  split_ifs <;> omega

/-- A turn reads up to a place that is not behind the head, and fills the buffer up to there. -/
theorem Follows.turn {h : Nat} {c c' : Call} {bus : Bus} {more : Bool}
    (follows : Follows t rx place h) (written : t.Written) (pending : rx.fw.tail ≠ rx.fw.head)
    (rxHead : c.rxHead = clearWrap rx.fw.head) (rxTail : c.rxTail = t.addr place)
    (filled : Filled t rx taken i place slots)
    (fed : ∀ rx₁ rxTail₁ len, turnArgs rx c = .ok (rx₁, rxTail₁, len) → len ≠ 0 →
      Regular rx₁ (readLen len) ∧ readLen len ≤ bus.received ∧
        ∀ k < readLen len, bus.data k = t.data (place + t.ahead rx.fw.tail rx₁.fw.tail + k))
    (ran : rxdataindTurn rx c bus = .ok (rx', c', more)) :
    ∃ place' i' slots', place ≤ place' ∧ Follows t rx' place' h ∧
      Filled t rx' taken i' place' slots' ∧ rx'.reset = rx.reset ∧
      (more = true → c'.rxHead = clearWrap rx'.fw.head ∧ c'.rxTail = t.addr place') := by
  rw [rxdataindTurn] at ran
  split at ran
  · cases ran
  rename_i rx₁ rxTail₁ len args
  obtain ⟨place₁, le, rfl, follows₁, filled₁, skip, le_h, le_lap, reset⟩ :=
    follows.args written pending rxHead rxTail filled args
  split_ifs at ran with empty
  · cases ran
    exact ⟨place₁, i, slots, le, follows₁, filled₁, reset, fun go => by cases go⟩
  obtain ⟨regular, whole, data⟩ := fed rx₁ _ len args empty
  have near := follows.near
  have at_place : place + t.ahead rx.fw.tail rx₁.fw.tail = place₁ := by
    rw [follows.tail, follows₁.tail, Tape.ahead_word written le (by omega)]
    omega
  rw [at_place] at data
  have short := readLen_le len
  have some : readLen len ≠ 0 := by
    rw [readLen]
    split_ifs
    · exact empty
    · decide
  split at ran
  · cases ran
  · -- no room
    rename_i rx₂ fetched
    cases ran
    rcases filled₁.fetch written follows₁.rxEnd skip regular some data whole fetched with
      ⟨-, rfl⟩ | ⟨none, -⟩
    · exact ⟨place₁, i, slots, le, follows₁, filled₁, reset, fun go => by cases go⟩
    · exact absurd none.symm some
  · rename_i received rx₂ nonzero fetched
    obtain ⟨⟨rx₃, c₃⟩, advanced, eq⟩ := Run.map_eq_ok ran
    cases eq
    rcases filled₁.fetch written follows₁.rxEnd skip regular some data whole fetched with
      ⟨none, -⟩ | ⟨rfl, le_lap', kept, news, filled₂⟩
    · exact absurd none nonzero
    · obtain ⟨follows₃, filled₃, head, tail, reset₃, same⟩ := (follows₁.kept kept).advance written
        (show place₁ + readLen len ≤ h by omega) le_lap' filled₂ advanced
      refine ⟨_, _, _, by omega, follows₃, filled₃, ?_, fun _ => ⟨?_, tail⟩⟩
      · rw [reset₃, kept.reset, reset]
      · rw [head, rxHead, follows.head, follows₃.head]

/-- A turn of the loop. -/
theorem Reader.Sound.turn {s : Reader} {c : Call} {bus : Bus} {host : Host} (sound : s.Sound t)
    (written : t.Written) (call : s.host.call = some c) (fed : s.Fed t (.turn bus))
    (ran : s.host.turn c bus = .ok host) : (s.follow t host).Sound t := by
  obtain ⟨⟨h, follows⟩, calls, fresh, ⟨i, slots, filled⟩, taken⟩ := sound
  obtain ⟨rxHead, rxTail, reset⟩ := calls c call
  -- after a turn that is the last one
  have leaves : ∀ rx₁ place₁ i₁ slots₁, s.place ≤ place₁ → Follows t rx₁ place₁ h →
      Filled t rx₁ s.taken.length i₁ place₁ slots₁ → rx₁.reset = false →
      ∀ call₁, (∀ c₁, call₁ = some c₁ → c₁.rxHead = clearWrap rx₁.fw.head ∧
        c₁.rxTail = t.addr place₁) → (s.follow t ⟨rx₁, call₁⟩).Sound t := by
    intro rx₁ place₁ i₁ slots₁ le follows₁ filled₁ reset₁ call₁ calls₁
    have near := follows.near
    have le_h := follows₁.le
    have at_place : (s.follow t ⟨rx₁, call₁⟩).place = place₁ :=
      Reader.follow_place written follows follows₁ le (by omega)
    refine ⟨⟨h, at_place ▸ follows₁⟩, fun c₁ eq => ?_, fun again => ?_, ⟨i₁, slots₁, ?_⟩, taken⟩
    · obtain ⟨head, tail⟩ := calls₁ c₁ eq
      exact ⟨head, at_place ▸ tail, reset₁⟩
    · exact absurd (reset₁.symm.trans again) Bool.false_ne_true
    · rw [at_place]
      exact filled₁
  rw [Host.turn] at ran
  split_ifs at ran with drained
  · cases ran
    rw [follows.leave]
    exact leaves _ _ _ _ (Nat.le_refl _) follows filled reset none (fun _ eq => by cases eq)
  have feeds : ∀ rx₁ rxTail₁ len, turnArgs s.host.rx c = .ok (rx₁, rxTail₁, len) → len ≠ 0 →
      Regular rx₁ (readLen len) ∧ readLen len ≤ bus.received ∧ ∀ k < readLen len,
        bus.data k = t.data (s.place + t.ahead s.host.rx.fw.tail rx₁.fw.tail + k) := by
    intro rx₁ rxTail₁ len args some
    refine fed rx₁ (readLen len) ?_
    rw [Host.fetch, call]
    simp only [if_neg drained, args, if_neg some]
  split at ran
  · cases ran
  · rename_i rx₁ c₁ turned
    cases ran
    obtain ⟨place₁, i₁, slots₁, le, follows₁, filled₁, reset₁, calls₁⟩ :=
      follows.turn written drained rxHead rxTail filled feeds turned
    refine leaves _ _ _ _ le follows₁ filled₁ (reset₁.trans reset) (some c₁) fun c₂ eq => ?_
    cases eq
    exact calls₁ rfl
  · rename_i rx₁ c₁ turned
    cases ran
    obtain ⟨place₁, i₁, slots₁, le, follows₁, filled₁, reset₁, -⟩ :=
      follows.turn written drained rxHead rxTail filled feeds turned
    rw [follows₁.leave]
    exact leaves _ _ _ _ le follows₁ filled₁ (reset₁.trans reset) none fun _ eq => by cases eq

/-! ## The other events -/

theorem Tape.At.origin {f skip : Nat} {view : Memory} (at_ : t.At i f skip 0 view)
    (written : t.Written) : i = 0 ∧ f = 0 ∧ skip = 0 := by
  have bounds := at_.place_lt written
  have first : i = 0 := by
    cases i with
    | zero => rfl
    | succ i =>
        have ordered := written.ordered i
        simp only [rxDescSize] at ordered
        omega
  obtain ⟨p, zero⟩ : ∃ p, p = 0 := ⟨0, rfl⟩
  rw [← zero] at at_
  have below := lt_lapEnd written.size_pos (t.start i)
  cases at_ with
  | plain => exact ⟨first, by omega, rfl⟩
  | further wraps le lt =>
      rw [rest] at zero
      omega
  | due wraps repeats => omega

/-- The receive task takes a descriptor. -/
theorem Reader.Sound.put {s s' : Reader} (sound : s.Sound t) (written : t.Written)
    (ran : s.step t .put = .ok s') : s'.Sound t := by
  obtain ⟨⟨h, follows⟩, calls, fresh, ⟨i, slots, filled⟩, taken⟩ := sound
  obtain ⟨⟨found, rx⟩, put, rfl⟩ := Run.map_eq_ok ran
  rcases filled.put put with ⟨rfl, rfl, -⟩ | ⟨b, slots', rfl, more, len, holds, fw, kept, filled'⟩
  · have same : s.take none s.host.rx = s := by
      rw [Reader.take, Option.toList_none, List.map_nil, List.append_nil]
    rw [same]
    exact ⟨⟨h, follows⟩, calls, fresh, ⟨i, slots, filled⟩, taken⟩
  · refine ⟨⟨h, follows.kept kept⟩, fun c call => ?_, fun reset => ?_, ⟨i, slots', ?_⟩,
      fun n m eq j small outside => ?_⟩
    · obtain ⟨head, tail, reset⟩ := calls c call
      exact ⟨fw ▸ head, tail, kept.reset.trans reset⟩
    · obtain ⟨origin, -⟩ := fresh (kept.reset.symm.trans reset)
      obtain ⟨view, at_, -⟩ := filled.carried
      rw [origin] at at_
      have none := (at_.origin written).1
      omega
    · rw [Reader.take, List.length_append]
      exact filled'
    · change (s.taken ++ [descByteAt rx.buf b.pos b.first])[n]? = some m at eq
      rcases Nat.lt_trichotomy n s.taken.length with old | rfl | later
      · rw [List.getElem?_append_left old] at eq
        exact taken n m eq j small outside
      · rw [List.getElem?_concat_length] at eq
        cases eq
        rw [descByteAt_eq]
        exact holds j (len ▸ small) outside
      · rw [List.getElem?_eq_none (by rw [List.length_append]; exact later)] at eq
        cases eq

/-- The firmware's head is read. -/
theorem Reader.Sound.headInd {s : Reader} {fwRxHead : Nat} {host : Host} (sound : s.Sound t)
    (written : t.Written) (fed : s.Fed t (.headInd fwRxHead))
    (ran : s.host.step (.headInd fwRxHead) = .ok host) : (s.follow t host).Sound t := by
  obtain ⟨⟨h, follows⟩, calls, fresh, ⟨i, slots, filled⟩, taken⟩ := sound
  have still : t.ahead s.host.rx.fw.tail s.host.rx.fw.tail = 0 := by
    rw [follows.tail, Tape.ahead_word written (Nat.le_refl _) (by have := written.size_pos; omega)]
    omega
  simp only [Host.step] at ran
  split_ifs at ran with under
  · cases ran
    rw [Reader.follow, still]
    exact ⟨⟨h, follows⟩, calls, fresh, ⟨i, slots, filled⟩, taken⟩
  · cases ran
    have none : s.host.call = none := by simpa using under
    obtain ⟨state, h', head, le, near⟩ := fed none
    have only : ∃ fw : Fw, amlSdioUsbFwRxHeadInd s.host.rx fwRxHead = { s.host.rx with fw } ∧
        fw = { s.host.rx.fw with head := fw.head, state := fw.state } := by
      rw [amlSdioUsbFwRxHeadInd]
      split
      · exact ⟨_, rfl, rfl⟩
      · exact ⟨_, rfl, rfl⟩
    obtain ⟨fw, eq, same⟩ := only
    rw [eq] at head state ⊢
    have tail : fw.tail = s.host.rx.fw.tail := by rw [same]
    rw [Reader.follow]
    simp only [tail, still, Nat.add_zero]
    refine ⟨⟨h', ?_, ?_, head, le, near, state, ?_, follows.start⟩, ?_, ?_, ⟨i, slots, ?_⟩, taken⟩
    · rw [same]
      exact follows.rxEnd
    · rw [same]
      exact follows.tail
    · rw [same]
      exact follows.confirmFlags
    · intro c call
      rw [none] at call
      cases call
    · intro reset
      rw [same]
      exact fresh reset
    · exact filled.with_fw fw _ _ _ (by rw [same]) (by rw [same])

theorem Fw.eta (fw : Fw) {tail frag0 skip : Nat} (same_frag0 : fw.frag0 = frag0)
    (same_skip : fw.skip = skip) (same_tail : fw.tail = tail) :
    { fw with frag0, skip, tail } = fw := by
  subst same_frag0 same_skip same_tail
  rfl

/-- `aml_sdio_usb_rxdataind` is called. -/
theorem Reader.Sound.dataind {s : Reader} {busErr : Bool} {newTail : Nat} {host : Host}
    (sound : s.Sound t) (written : t.Written) (fed : s.Fed t (.dataind busErr newTail))
    (ran : s.host.step (.dataind busErr newTail) = .ok host) : (s.follow t host).Sound t := by
  obtain ⟨⟨h, follows⟩, calls, fresh, ⟨i, slots, filled⟩, taken⟩ := sound
  obtain ⟨rfl, origin⟩ := fed
  have still : t.ahead s.host.rx.fw.tail s.host.rx.fw.tail = 0 := by
    rw [follows.tail, Tape.ahead_word written (Nat.le_refl _) (by have := written.size_pos; omega)]
    omega
  simp only [Host.step] at ran
  split_ifs at ran with under
  · cases ran
    rw [Reader.follow, still]
    exact ⟨⟨h, follows⟩, calls, fresh, ⟨i, slots, filled⟩, taken⟩
  obtain ⟨⟨rx, call⟩, entered, rfl⟩ := Run.map_eq_ok ran
  -- where a reset is pending nothing was read
  have reset : rxdataindReset s.host.rx newTail = some { s.host.rx with reset := false } := by
    rw [rxdataindReset]
    by_cases pending : s.host.rx.reset = true
    · obtain ⟨at_origin, frag0, carried, skip⟩ := fresh pending
      have tail := follows.tail
      have range : amlSdioUsbRxPosInRange s.host.rx.fw (clearWrap newTail) 0 = true := by
        rw [origin pending, amlSdioUsbRxPosInRange, follows.rxEnd]
        simp [clearWrap, rxbufStartAddr, amlRxWrapFlag]
      have word : t.word 0 = rxbufStartAddr := by
        have pos := written.size_pos
        rw [Tape.word, Tape.addr, Nat.zero_mod, Nat.zero_mod, if_neg (by omega)]
        rfl
      rw [at_origin, word] at tail
      rw [if_pos pending, if_pos range, origin pending]
      have single : ({ s.host.rx with reset := false, frag0 := 0 } : Rx) =
          { s.host.rx with reset := false } := by rw [← frag0]
      rw [s.host.rx.fw.eta carried skip tail]
      exact congrArg some single
    · rw [if_neg pending, ← (Bool.not_eq_true _).mp pending]
  have follows' : Follows t { s.host.rx with reset := false } s.place h := by
    obtain ⟨rxEnd, tail, head, le, near, state, flags, start⟩ := follows
    exact ⟨rxEnd, tail, head, le, near, state, flags, start⟩
  have filled' := filled.with_fw s.host.rx.fw s.host.rx.start false s.host.rx.txPage rfl rfl
  rw [rxdataindEnter, if_neg (by decide), if_neg (by simp [follows.start]), reset] at entered
  have finish : ∀ call : Option Call, (∀ c, call = some c →
      c.rxHead = clearWrap s.host.rx.fw.head ∧ c.rxTail = t.addr s.place) →
      (s.follow t ⟨{ s.host.rx with reset := false }, call⟩).Sound t := by
    intro call calls'
    rw [Reader.follow]
    simp only [still, Nat.add_zero]
    refine ⟨⟨h, follows'⟩, fun c eq => ?_, fun again => (by cases again),
      ⟨i, slots, filled'⟩, taken⟩
    obtain ⟨head, tail⟩ := calls' c eq
    exact ⟨head, tail, rfl⟩
  simp only at entered
  split_ifs at entered with drained changing
  · cases entered
    rw [follows'.confirm]
    exact finish none fun _ eq => by cases eq
  · cases entered
    exact finish none fun _ eq => by cases eq
  · obtain ⟨⟨rx₁, rxTail⟩, restarted, eq⟩ := Run.map_eq_ok entered
    cases eq
    obtain ⟨view, at_, -⟩ := filled.carried
    rw [follows.tail, Tape.clearWrap_word written, follows'.restart written drained at_]
      at restarted
    cases restarted
    exact finish (some _) fun c eq => by cases eq; exact ⟨rfl, rfl⟩

theorem Reader.Sound.step {s s' : Reader} {e : Event} (sound : s.Sound t) (written : t.Written)
    (fed : s.Fed t e) (ran : s.step t e = .ok s') : s'.Sound t := by
  cases e with
  | put => exact sound.put written ran
  | headInd fwRxHead =>
      obtain ⟨host, stepped, rfl⟩ := Run.map_eq_ok ran
      exact sound.headInd written fed stepped
  | dataind busErr newTail =>
      obtain ⟨host, stepped, rfl⟩ := Run.map_eq_ok ran
      exact sound.dataind written fed stepped
  | turn bus =>
      obtain ⟨host, stepped, rfl⟩ := Run.map_eq_ok ran
      rw [Host.step] at stepped
      split at stepped
      · rename_i c call
        exact sound.turn written call fed stepped
      · cases stepped
        obtain ⟨h, follows⟩ := sound.follows
        have still : t.ahead s.host.rx.fw.tail s.host.rx.fw.tail = 0 := by
          have pos := written.size_pos
          rw [follows.tail, Tape.ahead_word written (Nat.le_refl _) (by omega), Nat.sub_self]
        rw [Reader.follow, still]
        exact sound
  | stop => exact fed.elim
  | restart => exact fed.elim

/-- At first the buffer holds a dummy descriptor, and nothing was read. -/
theorem filled_empty (written : t.Written) (bufSz_le : rx.bufSz ≤ rxbufStartAddr)
    (large : 2 * rxDescSize < rx.bufSz) (tail : rx.tail = rx.bufSz - rxDescSize)
    (last : rx.last = rx.bufSz - rxDescSize) (head : rx.head = 0) (none : rx.frag0 = 0)
    (frag0 : rx.fw.frag0 = 0) (skip : rx.fw.skip = 0)
    (stop : rx.bufSz ≤ clearWrap (newRead rx.buf rx.last)) :
    Filled t rx 0 0 0 [⟨rx.bufSz - rxDescSize, rxDescSize, 0⟩] := by
  have ordered := written.ordered 0
  have inside := Tape.lt_lapEnd written.size_pos (t.start 0)
  have origin := written.origin
  have some : 0 < rxDescSize := by decide
  have upper : Row rx.tail [⟨rx.bufSz - rxDescSize, rxDescSize, 0⟩] rx.bufSz := by
    rw [tail]
    refine ⟨.cons (Nat.le_refl _) ?_, by simp⟩
    rw [Nat.sub_add_cancel (by omega)]
    exact .nil _
  have reads := Tape.At.plain (t := t) (i := 0) (f := 0) (by omega) (by omega)
  rw [origin, Nat.zero_add] at reads
  have carried : ∃ view, t.At 0 rx.fw.frag0 rx.fw.skip 0 view ∧
      ∀ j < rx.fw.frag0, rx.buf (rx.carry.place j) = view j :=
    ⟨_, by rw [frag0, skip]; exact reads, fun j small => by omega⟩
  refine ⟨bufSz_le, .wrapped upper (Nat.le_refl _) (head ▸ .nil 0) (by omega) none, ?_, ?_,
    List.isChain_singleton _, stop, trivial, rfl, carried⟩
  · rw [tail]
    rfl
  · rw [last]
    rfl

theorem Reader.init_sound (written : t.Written) (config : Config)
    (rxEnd : (config.layouts .expand).rxEnd = rxbufStartAddr + t.size) :
    (Reader.init config).Sound t := by
  obtain ⟨ps, arranged⟩ := init_arranged config
  have pos := written.size_pos
  have large : 2 * rxDescSize < config.bufSz := by
    have member := config.bufSz_mem
    simp only [List.mem_cons, List.not_mem_nil, or_false] at member
    simp only [preallocBufTypeRxbufSize, rxDescSize] at member ⊢
    omega
  have word : t.word 0 = rxbufStartAddr := by
    rw [Tape.word, Tape.addr, Nat.zero_mod, Nat.zero_mod, if_neg (by omega)]
    rfl
  have filled : Filled t (Reader.init config).host.rx 0 0 0 _ :=
    filled_empty written arranged.sized.bufSz_le large rfl rfl rfl rfl rfl rfl
      arranged.linked.stop
  exact ⟨⟨0, rxEnd, word.symm, word.symm, Nat.le_refl _, (by omega), rfl, rfl, rfl⟩,
    fun c call => (by cases call), fun _ => ⟨rfl, rfl, rfl, rfl⟩, ⟨0, _, filled⟩,
    fun n m eq => (by cases eq)⟩

/-- In every run where the bus gives what the firmware wrote and every read is placed right, the
receive task takes the descriptors in the order in which they were written, each with the bytes that
were written, but for its next pointer; and when it finds none it has taken all that were read. -/
theorem descriptors_taken_in_order (written : t.Written) (config : Config)
    (rxEnd : (config.layouts .expand).rxEnd = rxbufStartAddr + t.size) (events : List Event)
    (fed : Run.Guarded (Reader.step t) (Reader.Fed t) events (Reader.init config)) {s : Reader}
    (ran : Reader.run t events (Reader.init config) = .ok s) :
    (∀ n m, s.taken[n]? = some m → ∀ j < t.len n, j < 76 ∨ 80 ≤ j → m j = t.content n j) ∧
      s.host.rx.fw.tail = t.word s.place ∧
      ∃ i, t.start i ≤ s.place ∧ s.place < t.start (i + 1) ∧ s.taken.length ≤ i ∧
        ∀ rx, amlSdioUsbRxBufPut s.host.rx = .ok (none, rx) → s.taken.length = i := by
  have sound : s.Sound t := fed.invariant_of_run
    (fun _ _ _ sound fed stepped => sound.step written fed stepped) ran
    (Reader.init_sound written config rxEnd)
  obtain ⟨⟨h, follows⟩, -, -, ⟨i, slots, filled⟩, taken⟩ := sound
  obtain ⟨view, at_, -⟩ := filled.carried
  obtain ⟨le, lt⟩ := at_.place_lt written
  have count := filled.count
  refine ⟨taken, follows.tail, i, le, lt, by omega, fun rx none => ?_⟩
  rcases filled.put none with ⟨-, -, all⟩ | ⟨b, slots', found, -⟩
  · exact all
  · cases found

/-! ## A descriptor that is cut -/

instance (rx : Rx) (len : Nat) : Decidable (Regular rx len) :=
  decidable_of_iff (ThirdFits rx len ∧ (rx.frag0 ≠ 0 → rx.tail ≤ rx.head →
      amlSdioUsbRxBufGet rx.head rx.tail rx.bufSz len rx.fw.frag0 ≠ some (rx.head + rx.fw.frag0)))
    ⟨fun both => ⟨both.1, both.2⟩, fun regular => ⟨regular.third, regular.behind⟩⟩

/-- Descriptors every 8704 bytes, of which the last of each lap is cut. -/
def evenTape : Tape where
  data p := descByte 8668 (rxbufStartAddr + 8704 * (p / 8704 + 1) % 320512) (p % 8704)
  size := 320512
  start i := 8704 * i

theorem evenTape_written : evenTape.Written := by
  have laps : ∀ i, evenTape.lapEnd (evenTape.start i) =
      8704 * i - 8704 * i % 320512 + 320512 := fun _ => rfl
  refine ⟨rfl, by decide, fun i => ?_, fun i => ?_, fun i => ?_, fun i => ?_, fun i wraps => ?_⟩
  · change 8704 * i + 128 ≤ 8704 * (i + 1)
    omega
  · change 8704 * (i + 1) < 8704 * i + 320512 ∧ 8704 * (i + 1) < 8704 * i + 65536
    omega
  · rw [laps]
    change 8704 * i + 128 ≤ _
    omega
  · have small : rxbufStartAddr + 8704 * (i + 1) % 320512 < 2 ^ 32 := by
      rw [rxbufStartAddr]
      omega
    change Memory.u32 evenTape.data (8704 * i + 76) = rxbufStartAddr + 8704 * (i + 1) % 320512
    rw [← Memory.u32_set32 (m := evenTape.data) (p := 8704 * i + 76) small]
    refine Memory.Same.u32_eq (n := 4) (fun k inside => ?_) (Nat.le_refl 4)
    have lap : (8704 * i + 76 + k) / 8704 = i := by omega
    have place : (8704 * i + 76 + k) % 8704 = 76 + k := by omega
    rw [Memory.set32, Memory.put_inside inside]
    change descByte 8668 (rxbufStartAddr + 8704 * ((8704 * i + 76 + k) / 8704 + 1) % 320512)
      ((8704 * i + 76 + k) % 8704) = _
    rw [lap, place, descByte, if_neg (by omega), if_neg (by omega), if_pos (by omega),
      Nat.add_sub_cancel_left]
  · have later : 8704 * i - 8704 * i % 320512 + 320512 < 8704 * (i + 1) := wraps
    have repeated : evenTape.repeated i ≤ 36 := by
      rw [Tape.repeated, cutAt]
      split_ifs
      · exact Nat.zero_le _
      · exact Nat.zero_le _
      · exact Nat.zero_le _
      · exact Nat.le_refl _
    change _ + evenTape.repeated i < 8704 * (i + 1)
    rw [laps]
    omega

/-- What the firmware and the tasks do. -/
inductive Move
  /-- The head is announced. -/
  | announce (place : Nat)
  | call
  /-- A turn of the loop reads from a place on. -/
  | read (place len : Nat)
  | take

/-- The event of a move. -/
def Move.event : Move → Event
  | announce place => .headInd (evenTape.addr place +
      if evenTape.size ≤ place % (2 * evenTape.size) then rxWrapTempFlag else 0)
  | call => .dataind false rxbufStartAddr
  | read place len => .turn ⟨fun k => evenTape.data (place + k), len⟩
  | take => .put

/-- The firmware and the bus do what they are to do. -/
def Move.proper (s : Reader) : Move → Bool
  | announce place =>
      let rx := amlSdioUsbFwRxHeadInd s.host.rx (evenTape.addr place +
        if evenTape.size ≤ place % (2 * evenTape.size) then rxWrapTempFlag else 0)
      decide (rx.fw.state = 0) && decide (rx.fw.head = evenTape.word place) &&
        decide (s.place ≤ place) && decide (place < s.place + evenTape.size)
  | read place len =>
      match s.host.fetch with
      | some (rx, asked) => decide (Regular rx asked) && decide (asked ≤ len) &&
          decide (s.place + evenTape.ahead s.host.rx.fw.tail rx.fw.tail = place)
      | none => true
  | _ => true

theorem Move.fed_of_proper (s : Reader) (move : Move) (proper : move.proper s = true) :
    s.Fed evenTape move.event := by
  cases move with
  | announce place =>
      simp only [Move.proper, Bool.and_eq_true, decide_eq_true_eq] at proper
      obtain ⟨⟨⟨state, head⟩, le⟩, near⟩ := proper
      exact fun _ => ⟨state, place, head, le, near⟩
  | call => exact ⟨rfl, fun _ => rfl⟩
  | take => trivial
  | read place len =>
      intro rx asked fetch
      simp only [Move.proper, fetch, Bool.and_eq_true, decide_eq_true_eq] at proper
      obtain ⟨⟨regular, whole⟩, eq⟩ := proper
      exact ⟨regular, whole, fun k _ => by rw [eq]⟩

/-- Most of a lap is read and consumed, then the rest of it with the beginning of the next. -/
def overTheEnd : List Move :=
  [.announce 313344, .call, .read 0 131072, .read 131072 131072, .read 262144 51200, .read 0 0] ++
  List.replicate 36 .take ++
  [.announce 330752, .call, .read 313344 7168, .read 320548 10204, .read 0 0] ++
  List.replicate 3 .take

/-- A descriptor that is cut is taken whole. -/
theorem descriptors_taken_in_order_cut :
    ∃ s, Reader.run evenTape (overTheEnd.map Move.event) (Reader.init sdioConfig) = .ok s ∧
      s.taken.length = 38 ∧ ∀ m, s.taken[36]? = some m →
        ∀ j < 8668, j < 76 ∨ 80 ≤ j → m j = evenTape.content 36 j := by
  obtain ⟨s, ran, length⟩ := Run.ends_of_toOption (f := fun s : Reader => s.taken.length)
    (show ((Reader.run evenTape (overTheEnd.map Move.event) (Reader.init sdioConfig)).toOption.map
      fun s => s.taken.length) = some 38 by decide +kernel)
  have fed : Run.Guarded (Reader.step evenTape) (Reader.Fed evenTape)
      (overTheEnd.map Move.event) (Reader.init sdioConfig) := by
    refine Run.guarded_map (Run.guarded_of_check Move.fed_of_proper ?_)
    decide +kernel
  have taken := (descriptors_taken_in_order evenTape_written sdioConfig rfl _ fed ran).1
  have len : evenTape.len 36 = 8668 := by decide +kernel
  exact ⟨s, ran, length, fun m eq j small => taken 36 m eq j (len ▸ small)⟩

end AmlW2.Ring
