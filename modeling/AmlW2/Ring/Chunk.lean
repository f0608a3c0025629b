import AmlW2.Ring.Tape

/-!
# Walking over a chunk of the tape

A fetch reads a chunk of the tape behind what was carried of a descriptor, and walks over both.  The
walk finds the descriptors that end in the chunk, one after the other and each with its own bytes,
and leaves what it has of the next one, cut as the format says where the lap ends.
-/

namespace AmlW2.Ring

/-! ## Turns, measured -/

/-- A turn that goes on takes the total length of the descriptor. -/
structure Measured (fw : Fw) (bufSz pos0 : Nat) (w : Walk) (n : Nat) (w' : Walk) : Prop extends
    Found fw bufSz pos0 w n w' where
  total : totLen fw w = n

variable {fw : Fw} {bufSz pos0 : Nat} {reachEnd : Bool} {w w' : Walk}

theorem walkTurn_measured (turn : walkTurn fw bufSz reachEnd pos0 w = .ok (w', true)) :
    ∃ n, Measured fw bufSz pos0 w n w' := by
  obtain ⟨n, found⟩ := walkTurn_next turn
  refine ⟨n, found, ?_⟩
  have moved := found.pos_eq
  simp only [walkTurn] at turn
  split_ifs at turn with short padding misaligned range wraps more shortTotal longer walkRange
  · cases turn
  · cases turn
  · cases turn
  · split at turn <;> cases turn
  · cases turn
  · cases turn
    have total : ((totLen fw w).toNat : Int) = totLen fw w := Int.toNat_of_nonneg (by omega)
    simp only [walkNext] at moved
    omega

/-- How a turn ends the walk. -/
inductive Stops (fw : Fw) (reachEnd : Bool) (w : Walk) : Walk → Prop
  | short (len : w.len < rxDescSize) :
      Stops fw reachEnd w { w with len := if reachEnd then 0 else w.len }
  | waits (len : rxDescSize ≤ w.len) (wraps : totLen fw w < 0) (goes : reachEnd = false) :
      Stops fw reachEnd w w
  | cut {len skip : Nat} (long : rxDescSize ≤ w.len) (wraps : totLen fw w < 0)
      (ends : reachEnd = true) (cut : cutAtEnd w.buf w.rxdesc w.len w.skip = .ok (len, skip)) :
      Stops fw reachEnd w { w with len, skip }
  | partly (len : rxDescSize ≤ w.len) (stays : 0 ≤ totLen fw w) (more : w.len < totLen fw w) :
      Stops fw reachEnd w w

theorem walkTurn_stops (turn : walkTurn fw bufSz reachEnd pos0 w = .ok (w', false)) :
    Stops fw reachEnd w w' := by
  simp only [walkTurn] at turn
  split_ifs at turn with short padding misaligned range wraps more shortTotal longer walkRange
  · cases turn
    have stops : Stops fw reachEnd w _ := .short short
    rw [if_pos padding] at stops
    exact stops
  · cases turn
    have stops : Stops fw reachEnd w _ := .short short
    rw [if_neg padding] at stops
    exact stops
  · cases turn
    exact .waits (by omega) wraps (by simpa using more)
  · split at turn
    · cases turn
    · rename_i len skip cut
      cases turn
      exact .cut (by omega) wraps (by simpa using more) cut
  · cases turn
    exact .partly (by omega) (by omega) longer
  · cases turn

/-- A descriptor in the host's buffer; one in two parts has the second at the beginning. -/
structure Slot where
  pos : Nat
  len : Nat
  /-- The length of the first part, or 0. -/
  first : Nat

/-- Where a byte of it is. -/
def Slot.place (s : Slot) (j : Nat) : Nat :=
  if s.first ≠ 0 ∧ s.first ≤ j then j - s.first else s.pos + j

theorem Slot.place_front {s : Slot} {j : Nat} (front : s.first = 0 ∨ j < s.first) :
    s.place j = s.pos + j := by
  rw [place, if_neg (by omega)]

theorem Slot.place_back {s : Slot} {j : Nat} (two : s.first ≠ 0) (back : s.first ≤ j) :
    s.place j = j - s.first := by
  rw [place, if_pos ⟨two, back⟩]

/-- Its position and length. -/
def Slot.pair (s : Slot) : Nat × Nat := (s.pos, s.len)

/-- A descriptor of a given length where a walk is. -/
def Walk.slot (w : Walk) (n : Nat) : Slot := ⟨w.rxdesc, n, (-w.pos).toNat⟩

/-- The turns of a walk, measured, with the descriptors found. -/
inductive Parsed (fw : Fw) (bufSz : Nat) (reachEnd : Bool) (pos0 : Nat) :
    Walk → List Slot → Walk → Prop
  | done {w : Walk} (empty : w.len = 0) : Parsed fw bufSz reachEnd pos0 w [] w
  | stop {w w' : Walk} (some : w.len ≠ 0)
      (turn : walkTurn fw bufSz reachEnd pos0 w = .ok (w', false)) :
      Parsed fw bufSz reachEnd pos0 w [] w'
  | next {w w₁ w' : Walk} {n : Nat} {news : List Slot}
      (measured : Measured fw bufSz pos0 w n w₁)
      (rest : Parsed fw bufSz reachEnd pos0 w₁ news w') :
      Parsed fw bufSz reachEnd pos0 w (w.slot n :: news) w'

theorem Parsed.walked {news : List Slot} (parsed : Parsed fw bufSz reachEnd pos0 w news w') :
    Walked fw bufSz reachEnd pos0 w (news.map Slot.pair) w' := by
  induction parsed with
  | done empty => exact .done empty
  | stop some turn => exact .stop some turn
  | next measured rest induction => exact .next measured.toFound induction

theorem parsed_of_walk {fuel : Nat} (enough : w.len ≤ fuel)
    (ran : walk fw bufSz reachEnd pos0 fuel w = .ok w') :
    ∃ news, Parsed fw bufSz reachEnd pos0 w news w' := by
  induction fuel generalizing w with
  | zero =>
      cases ran
      exact ⟨[], .done (Nat.le_zero.mp enough)⟩
  | succ fuel induction =>
      rw [walk] at ran
      split_ifs at ran with empty
      · cases ran
        exact ⟨[], .done empty⟩
      · split at ran
        · cases ran
        · rename_i after turn
          cases ran
          exact ⟨[], .stop empty turn⟩
        · rename_i after turn
          obtain ⟨n, measured⟩ := walkTurn_measured turn
          have size := measured.size
          have shorter : after.len ≤ fuel := by
            rw [measured.len_eq]
            simp only [rxDescSize] at size
            omega
          obtain ⟨news, rest⟩ := induction shorter ran
          exact ⟨_, .next measured rest⟩

/-! ## What a walk looks at -/

/-- A byte of what is walked over; a position before the buffer is one of the first part, which is
at the descriptor looked at. -/
def Walk.byteAt (w : Walk) (j : Nat) : UInt8 :=
  if w.pos + j < 0 then w.buf (w.rxdesc + j) else w.buf (w.pos + j).toNat

/-- The places of a walk that the links it sets are not in. -/
structure Walk.Clear (w : Walk) : Prop where
  rxdesc : 0 ≤ w.pos → w.rxdesc = w.pos.toNat
  /-- A first part holds the header. -/
  header : w.pos < 0 → w.pos + rxDescSize ≤ 0
  /-- It lies behind the second part. -/
  behind : w.pos < 0 → w.pos + w.len < w.rxdesc
  pnext : ∀ q, w.pnext = some q → 0 ≤ w.pos ∧ ((q : Int) + 4 ≤ w.pos ∨ w.pos + w.len ≤ q)

theorem Walk.Clear.header_byte (clear : w.Clear) {j : Nat} (inside : j < rxDescSize) :
    w.byteAt j = w.buf (w.rxdesc + j) := by
  rw [Walk.byteAt]
  by_cases first : w.pos < 0
  · have header := clear.header first
    rw [if_pos (by omega)]
  · have place := clear.rxdesc (by omega)
    rw [if_neg (by omega), place]
    congr 1
    omega

/-- Where the next turn looks, the bytes are what they were. -/
theorem Measured.byteAt_next {n : Nat} (measured : Measured fw bufSz pos0 w n w') (clear : w.Clear)
    {j : Nat} (inside : j < w'.len) : w'.byteAt j = w.byteAt (n + j) := by
  have pos := measured.pos
  have moved := measured.pos_eq
  have shorter := measured.len_eq
  rw [Walk.byteAt, Walk.byteAt, if_neg (by omega), if_neg (by omega)]
  have place : (w'.pos + (j : Int)).toNat = (w.pos + ((n + j : Nat) : Int)).toNat := by omega
  rw [place, measured.eq]
  cases linked : w.pnext with
  | none => simp only [walkNext, linked]
  | some q =>
      have away := clear.pnext q linked
      simp only [walkNext, linked]
      rw [Memory.set32, Memory.put, if_neg (by omega)]

theorem Measured.clear {n : Nat} (measured : Measured fw bufSz pos0 w n w') (clear : w.Clear) :
    w'.Clear := by
  have pos := measured.pos
  have moved := measured.pos_eq
  have shorter := measured.len_eq
  have size := measured.size
  simp only [rxDescSize] at size
  have next : w'.rxdesc = w'.pos.toNat ∧ w'.pnext = some (w.rxdesc + 76) := by
    rw [measured.eq]
    exact ⟨rfl, rfl⟩
  refine ⟨fun _ => next.1, fun negative => absurd negative (by omega),
    fun negative => absurd negative (by omega), fun q linked => ⟨by omega, ?_⟩⟩
  obtain rfl : w.rxdesc + 76 = q := Option.some.inj (next.2.symm.trans linked)
  by_cases first : w.pos < 0
  · have behind := clear.behind first
    have fits := measured.size_le
    omega
  · have place := clear.rxdesc (by omega)
    omega

/-- A byte of what is walked over is one of the descriptor that starts there. -/
theorem Walk.Clear.byteAt_eq (clear : w.Clear) (n j : Nat) :
    w.byteAt j = w.buf ((w.slot n).place j) := by
  have first : (w.slot n).first = (-w.pos).toNat := rfl
  have pos : (w.slot n).pos = w.rxdesc := rfl
  rw [Walk.byteAt]
  by_cases front : w.pos + j < 0
  · rw [if_pos front, Slot.place_front (by omega), pos]
  · rw [if_neg front]
    congr 1
    by_cases two : w.pos < 0
    · rw [Slot.place_back (by omega) (by omega)]
      omega
    · have place := clear.rxdesc (by omega)
      rw [Slot.place_front (by omega)]
      omega

/-- What is walked over is not changed by the link that a turn sets. -/
theorem Measured.byte {n : Nat} (measured : Measured fw bufSz pos0 w n w') (clear : w.Clear)
    {j : Nat} (inside : j < w.len) : w'.buf ((w.slot n).place j) = w.byteAt j := by
  rw [clear.byteAt_eq n, measured.eq]
  cases linked : w.pnext with
  | none => simp only [walkNext, linked]
  | some q =>
      have away := clear.pnext q linked
      have place := clear.rxdesc away.1
      have first : (w.slot n).first = (-w.pos).toNat := rfl
      have pos : (w.slot n).pos = w.rxdesc := rfl
      rw [Slot.place_front (by omega), pos]
      simp only [walkNext, linked]
      rw [Memory.set32, Memory.put, if_neg (by omega)]

/-- The descriptors found after a first one lie behind it, and before its first part. -/
theorem Parsed.bounds {news : List Slot} (parsed : Parsed fw bufSz reachEnd pos0 w news w')
    {prev : Option Nat} (steady : w.Steady pos0 prev) (inside : 0 ≤ w.pos) :
    ∀ s ∈ news, w.pos.toNat ≤ s.pos ∧ (s.pos : Int) + rxDescSize ≤ w.pos + w.len := by
  have walked := parsed.walked
  obtain ⟨nonneg, row⟩ := walked.consecutive steady inside
  have ends := walked.end_le
  intro s member
  have bound := row.spaced.bounds s.pos
    (List.mem_map_of_mem (f := Prod.fst) (List.mem_map_of_mem (f := Slot.pair) member))
  omega

theorem Parsed.clear {news : List Slot} (parsed : Parsed fw bufSz reachEnd pos0 w news w')
    (clear : w.Clear) : w'.Clear := by
  induction parsed with
  | done => exact clear
  | stop _ turn =>
      obtain ⟨len, skip, rfl, shorter⟩ := walkTurn_stop turn
      obtain ⟨rxdesc, header, behind, pnext⟩ := clear
      refine ⟨rxdesc, header, fun negative => ?_, fun q linked => ?_⟩
      · have le := behind negative
        simp only
        omega
      · have away := pnext q linked
        simp only
        omega
  | next measured _ induction => exact induction (measured.clear clear)

/-- A slot holds a descriptor, but for its next pointer. -/
def Slot.Holds (s : Slot) (buf view : Memory) : Prop :=
  ∀ j < s.len, j < 76 ∨ 80 ≤ j → buf (s.place j) = view j

/-- What a turn finds stays as it is while the walk goes on. -/
theorem Measured.holds {n : Nat} {w₁ : Walk} {news : List Slot} {view : Memory}
    (measured : Measured fw bufSz pos0 w n w₁) (clear : w.Clear)
    (rest : Parsed fw bufSz reachEnd pos0 w₁ news w') (bytes : ∀ j < n, w.byteAt j = view j) :
    (w.slot n).Holds w'.buf view := by
  intro j inside outside
  have fits := measured.size_le
  have pos := measured.pos
  have moved := measured.pos_eq
  have shorter := measured.len_eq
  have inside : j < n := inside
  have steady := measured.toFound.steady
  have bounds := rest.bounds steady (by omega)
  rw [← bytes j inside, ← measured.byte clear (by omega), rest.walked.buf_eq steady]
  refine Cells.linkAll_byte fun q member => ?_
  have first : (w.slot n).first = (-w.pos).toNat := rfl
  have place : (w.slot n).pos = w.rxdesc := rfl
  -- the part where the byte is lies before the next one, or is the first, behind the rest
  have part : (w.slot n).place j = w.rxdesc + j ∧ (w.pos < 0 → w.pos + w.len < w.rxdesc) ∧
      (0 ≤ w.pos → w.rxdesc = w.pos.toNat) ∨
      (w.slot n).place j + 1 ≤ w.pos + n ∧ w.pos + w.len < w.rxdesc := by
    by_cases two : w.pos < 0
    · have behind := clear.behind two
      by_cases front : j < (-w.pos).toNat
      · exact Or.inl ⟨by rw [Slot.place_front (by omega), place], fun _ => behind, by omega⟩
      · rw [Slot.place_back (by omega) (by omega)]
        exact Or.inr ⟨by omega, behind⟩
    · exact Or.inl ⟨by rw [Slot.place_front (by omega), place], by omega, clear.rxdesc⟩
  rcases List.mem_cons.mp member with rfl | later
  · omega
  · obtain ⟨pair, pair_mem, rfl⟩ := List.mem_map.mp later
    obtain ⟨s, s_mem, rfl⟩ := List.mem_map.mp pair_mem
    have bound := bounds s s_mem
    have eq : s.pair.1 = s.pos := rfl
    simp only [rxDescSize] at bound
    omega

/-! ## The walk over the tape -/

theorem newRead_of_same {m m' : Memory} {p p' : Nat} (same : Memory.Same m p m' p' rxDescSize) :
    newRead m p = newRead m' p' :=
  Cells.word_eq_of_same same (by decide)

theorem pktLen_of_same {m m' : Memory} {p p' : Nat} (same : Memory.Same m p m' p' rxDescSize) :
    pktLen m p = pktLen m' p' := by
  have length : amlRhdFrmLen m p = amlRhdFrmLen m' p' := (same.drop 48).u16_eq (by decide)
  have offset : paylOffset m p = paylOffset m' p' := congrArg UInt8.toNat (same 52 (by decide))
  rw [pktLen, pktLen, length, offset]

theorem cutAtEnd_of_same {m m' : Memory} {p p' len skip : Nat}
    (same : Memory.Same m p m' p' rxDescSize) :
    cutAtEnd m p len skip = cutAtEnd m' p' len skip := by
  have flags : flagsIs80211Mpdu m p = flagsIs80211Mpdu m' p' :=
    congrArg (fun b : UInt8 => b.toNat / 2 % 2 == 1) (same 96 (by decide))
  rw [cutAtEnd, cutAtEnd, flags, pktLen_of_same same]

namespace Tape

variable {t : Tape}

theorem lapEnd_add_mod (p : Nat) : t.lapEnd p + p % t.size = p + t.size := by
  have le := mod_le_place (t := t) p
  rw [lapEnd]
  omega

/-- The address of the next descriptor, if it starts in the same lap. -/
theorem addr_next_inside (written : t.Written) {i : Nat}
    (inside : t.start (i + 1) < t.lapEnd (t.start i)) :
    t.addr (t.start (i + 1)) = t.addr (t.start i) + (t.start (i + 1) - t.start i) := by
  have ordered := written.ordered i
  rw [addr, addr, mod_of_lt_lapEnd (by omega) inside]
  omega

/-- The address of the next descriptor, if it starts in the next lap. -/
theorem addr_next_later (written : t.Written) {i : Nat}
    (later : t.lapEnd (t.start i) ≤ t.start (i + 1)) :
    t.addr (t.start (i + 1)) = rxbufStartAddr + (t.start (i + 1) - t.lapEnd (t.start i)) := by
  have short := (written.short i).1
  have header := written.header i
  rw [addr, mod_of_lapEnd_le later (by omega)]

variable (t)

/-- A walk is at a descriptor of the tape in the lap where it starts, and has the bytes up to a
place of this lap. -/
structure OnLap (stop i : Nat) (w : Walk) : Prop where
  fwPos : w.len ≠ 0 → w.fwPos = t.addr (t.start i)
  ends : t.start i + w.len = stop
  le : stop ≤ t.lapEnd (t.start i)
  bytes : ∀ j < w.len, w.byteAt j = t.data (t.start i + j)

/-- A walk is at a descriptor of the tape that was cut, and has the bytes up to a place of the next
lap. -/
structure Resumed (stop i : Nat) (w : Walk) : Prop where
  wraps : t.Wraps i
  fwPos : w.fwPos + t.kept i = rxbufStartAddr + t.repeated i
  kept : t.kept i ≤ w.len
  ends : t.rest i + (w.len - t.kept i) = stop
  le : stop ≤ t.lapEnd (t.start i) + t.size
  bytes : ∀ j < w.len, w.byteAt j = t.content i j

variable {t} {stop i : Nat}

theorem OnLap.header (on : t.OnLap stop i w) (clear : w.Clear) (long : rxDescSize ≤ w.len) :
    Memory.Same w.buf w.rxdesc t.data (t.start i) rxDescSize := by
  intro j inside
  rw [← clear.header_byte inside, on.bytes j (by omega)]

theorem Resumed.header (on : t.Resumed stop i w) (written : t.Written) (clear : w.Clear)
    (long : rxDescSize ≤ w.len) : Memory.Same w.buf w.rxdesc t.data (t.start i) rxDescSize := by
  intro j inside
  rw [← clear.header_byte inside, on.bytes j (by omega), content_header written i inside]

/-- The total length is that of the descriptor, but where it is cut. -/
theorem OnLap.totLen (on : t.OnLap stop i w) (written : t.Written) (clear : w.Clear)
    (rxEnd : fw.rxEnd = rxbufStartAddr + t.size) (long : rxDescSize ≤ w.len) :
    if t.Wraps i then Ring.totLen fw w < 0 else Ring.totLen fw w = t.len i := by
  have next : newRead w.buf w.rxdesc = t.addr (t.start (i + 1)) :=
    (newRead_of_same (on.header clear long)).trans (written.linked i)
  have ordered := written.ordered i
  have short := (written.short i).1
  have lap := lapEnd_add_mod (t := t) (t.start i)
  simp only [rxDescSize] at long
  have place := on.fwPos (by omega)
  simp only [Ring.totLen, next]
  rcases Nat.lt_trichotomy (t.start (i + 1)) (t.lapEnd (t.start i)) with inside | ending | after
  · have plain : ¬t.Wraps i := Nat.not_lt.mpr (Nat.le_of_lt inside)
    have address := addr_next_inside written inside
    rw [if_neg plain, if_neg (by omega), len_of_not_wraps plain]
    omega
  · have plain : ¬t.Wraps i := Nat.not_lt.mpr (Nat.le_of_eq ending)
    have address := addr_next_later written (Nat.le_of_eq ending.symm)
    rw [addr] at place
    rw [if_neg plain, address, if_pos (by omega), len_of_not_wraps plain]
    omega
  · have wraps : t.Wraps i := after
    have address := addr_next_later written (Nat.le_of_lt after)
    rw [addr] at place
    rw [if_pos wraps, address, if_neg (by omega)]
    omega

theorem Resumed.totLen (on : t.Resumed stop i w) (written : t.Written) (clear : w.Clear) :
    Ring.totLen fw w = t.len i := by
  have kept := kept_ge written i
  have next : newRead w.buf w.rxdesc = t.addr (t.start (i + 1)) :=
    (newRead_of_same (on.header written clear (Nat.le_trans kept on.kept))).trans
      (written.linked i)
  have address := addr_next_later written (Nat.le_of_lt on.wraps)
  have later : t.lapEnd (t.start i) < t.start (i + 1) := on.wraps
  have len := len_of_wraps on.wraps
  have resumes := written.resumes i on.wraps
  have place := on.fwPos
  rw [rest] at len resumes
  simp only [Ring.totLen, next, address]
  rw [if_neg (by omega)]
  omega

/-- A turn that goes on finds the descriptor, and is at the next one. -/
theorem OnLap.next {n : Nat} (on : t.OnLap stop i w) (written : t.Written) (clear : w.Clear)
    (rxEnd : fw.rxEnd = rxbufStartAddr + t.size) (measured : Measured fw bufSz pos0 w n w') :
    n = t.len i ∧ (∀ j < n, w.byteAt j = t.content i j) ∧ t.OnLap stop (i + 1) w' := by
  have fits := measured.size_le
  have shorter := measured.len_eq
  have moved : w'.fwPos = w.fwPos + n := by
    rw [measured.eq]
    rfl
  have total := on.totLen written clear rxEnd (Nat.le_trans measured.size fits)
  have plain : ¬t.Wraps i := by
    intro wraps
    rw [if_pos wraps, measured.total] at total
    omega
  rw [if_neg plain, measured.total] at total
  obtain rfl : n = t.len i := by omega
  have len := len_of_not_wraps plain
  have le_lap : t.start (i + 1) ≤ t.lapEnd (t.start i) := Nat.le_of_not_lt plain
  have ordered := written.ordered i
  obtain ⟨fwPos, ends, le, bytes⟩ := on
  refine ⟨rfl, fun j inside => ?_, fun more => ?_, by omega, ?_, fun j inside => ?_⟩
  · rw [bytes j (by omega), content, if_neg fun both => plain both.1]
  · have address := addr_next_inside written (show t.start (i + 1) < _ by omega)
    have place := fwPos (by omega)
    omega
  · rcases Nat.lt_or_eq_of_le le_lap with inside | ending
    · rwa [lapEnd_of_lt_lapEnd written.size_pos (by omega) inside]
    · have later := lt_lapEnd written.size_pos (t.start (i + 1))
      omega
  · rw [measured.byteAt_next clear inside, bytes (t.len i + j) (by omega)]
    congr 1
    omega

theorem Resumed.next {n : Nat} (on : t.Resumed stop i w) (written : t.Written) (clear : w.Clear)
    (measured : Measured fw bufSz pos0 w n w') :
    n = t.len i ∧ (∀ j < n, w.byteAt j = t.content i j) ∧ t.OnLap stop (i + 1) w' := by
  have fits := measured.size_le
  have shorter := measured.len_eq
  have moved : w'.fwPos = w.fwPos + n := by
    rw [measured.eq]
    rfl
  have total : Ring.totLen fw w = t.len i := on.totLen written clear
  rw [measured.total] at total
  obtain rfl : n = t.len i := by omega
  obtain ⟨wraps, fwPos, kept, ends, le, bytes⟩ := on
  have short := (written.short i).1
  have header := written.header i
  have later : t.lapEnd (t.start i) < t.start (i + 1) := wraps
  have len := len_of_wraps wraps
  have resumes := written.resumes i wraps
  have lap := lapEnd_of_lapEnd_le (Nat.le_of_lt later) (show _ < _ + t.size by omega)
  have address := addr_next_later written (Nat.le_of_lt later)
  rw [rest] at len resumes ends
  refine ⟨rfl, fun j inside => bytes j (by omega), fun _ => by omega, by omega, by omega,
    fun j inside => ?_⟩
  rw [measured.byteAt_next clear inside, bytes (t.len i + j) (by omega), content_len_add written]

/-- The bytes that a walk leaves are those that a reader at a place has. -/
def Leaves (t : Tape) (stop i : Nat) (w : Walk) : Prop :=
  ∃ view, t.At i w.len w.skip stop view ∧ ∀ j < w.len, w.byteAt j = view j

theorem OnLap.leaves (on : t.OnLap stop i w) (skip : w.skip = 0)
    (before : stop < t.start (i + 1)) (inside : stop < t.lapEnd (t.start i)) :
    t.Leaves stop i w := by
  obtain ⟨-, rfl, -, bytes⟩ := on
  exact ⟨_, skip ▸ .plain before inside, bytes⟩

theorem OnLap.mod_ne_zero (on : t.OnLap stop i w) (some : w.len ≠ 0)
    (inside : stop < t.lapEnd (t.start i)) : stop % t.size ≠ 0 := by
  obtain ⟨-, rfl, -, -⟩ := on
  rw [mod_of_lt_lapEnd (Nat.le_add_right _ _) inside]
  omega

/-- Where a descriptor is cut, what is left of it is what the format keeps. -/
theorem OnLap.leaves_cut {len skip : Nat} (on : t.OnLap stop i w) (written : t.Written)
    (clear : w.Clear) (long : rxDescSize ≤ w.len) (wraps : t.Wraps i)
    (ending : stop = t.lapEnd (t.start i))
    (cut : cutAtEnd w.buf w.rxdesc w.len 0 = .ok (len, skip)) :
    t.Leaves stop i { w with len, skip } := by
  have room : w.len = t.room i := by
    have ends := on.ends
    rw [Tape.room]
    omega
  rw [cutAtEnd_of_same (on.header clear long), room] at cut
  have sizes := cutAt_of_cutAtEnd cut
  obtain rfl : t.kept i = len := congrArg Prod.fst sizes
  obtain rfl : t.repeated i = skip := congrArg Prod.snd sizes
  have le := kept_le written i
  have bytes : ∀ j < t.kept i, w.byteAt j = t.content i j := by
    intro j inside
    rw [on.bytes j (by omega), content, if_neg (by omega)]
  subst ending
  by_cases none : t.repeated i = 0
  · have resumes := written.resumes i wraps
    have len := len_of_wraps wraps
    have at_rest := At.further wraps (Nat.le_refl _) (show t.kept i < t.len i by omega)
    rw [rest, none, Nat.sub_self] at at_rest
    exact ⟨_, none ▸ at_rest, bytes⟩
  · exact ⟨_, .due wraps none, bytes⟩

/-- Where a walk stops, it leaves what it has of a descriptor. -/
theorem OnLap.stops (on : t.OnLap stop i w) (written : t.Written) (clear : w.Clear)
    (rxEnd : fw.rxEnd = rxbufStartAddr + t.size) (reach : reachEnd = true ↔ stop % t.size = 0)
    (some : w.len ≠ 0) (skip : w.skip = 0) (stops : Stops fw reachEnd w w') :
    t.Leaves stop i w' := by
  have ends := on.ends
  have le := on.le
  have ordered := written.ordered i
  cases stops with
  | short len =>
      have header := written.header i
      have inside : stop < t.lapEnd (t.start i) := by omega
      obtain rfl : reachEnd = false := by
        rw [← Bool.not_eq_true, reach]
        exact on.mod_ne_zero some inside
      exact on.leaves skip (by omega) inside
  | waits long wraps goes =>
      have total := on.totLen written clear rxEnd long
      have beyond : t.lapEnd (t.start i) < t.start (i + 1) := by
        by_contra plain
        rw [if_neg (show ¬t.Wraps i from plain)] at total
        omega
      have inside : stop < t.lapEnd (t.start i) := by
        refine Nat.lt_of_le_of_ne le fun ending => ?_
        rw [ending, mod_lapEnd] at reach
        rw [reach.mpr rfl] at goes
        cases goes
      exact on.leaves skip (by omega) inside
  | cut long wraps reached cut =>
      have total := on.totLen written clear rxEnd long
      have beyond : t.Wraps i := by
        by_contra plain
        rw [if_neg plain] at total
        omega
      have ending : stop = t.lapEnd (t.start i) := by
        refine (Nat.lt_or_eq_of_le le).resolve_left fun inside => ?_
        exact on.mod_ne_zero some inside (reach.mp reached)
      rw [skip] at cut
      exact on.leaves_cut written clear long beyond ending cut
  | partly long stays more =>
      have total := on.totLen written clear rxEnd long
      have plain : ¬t.Wraps i := by
        intro wraps
        rw [if_pos wraps] at total
        omega
      rw [if_neg plain, len_of_not_wraps plain] at total
      have le_lap : t.start (i + 1) ≤ t.lapEnd (t.start i) := Nat.le_of_not_lt plain
      exact on.leaves skip (by omega) (by omega)

theorem Resumed.stops (on : t.Resumed stop i w) (written : t.Written) (clear : w.Clear)
    (skip : w.skip = 0) (stops : Stops fw reachEnd w w') : t.Leaves stop i w' := by
  have total : Ring.totLen fw w = t.len i := on.totLen written clear
  have kept := kept_ge written i
  have le := on.kept
  cases stops with
  | short len => omega
  | waits long wraps goes => omega
  | cut long wraps reached cut => omega
  | partly long stays more =>
      obtain ⟨wraps, -, -, rfl, -, bytes⟩ := on
      exact ⟨_, skip ▸ .further wraps le (by omega), bytes⟩

/-- A walk has bytes of the tape. -/
inductive Walking (t : Tape) (stop i : Nat) (w : Walk) : Prop
  | onLap (on : t.OnLap stop i w)
  | resumed (on : t.Resumed stop i w)

/-- Slots hold the descriptors from one on. -/
def Stored (t : Tape) (buf : Memory) : Nat → List Slot → Prop
  | _, [] => True
  | i, s :: rest => (s.len = t.len i ∧ s.Holds buf (t.content i)) ∧ t.Stored buf (i + 1) rest

theorem Walking.done (walking : t.Walking stop i w) (written : t.Written) (skip : w.skip = 0)
    (empty : w.len = 0) : t.Leaves stop i w := by
  cases walking with
  | onLap on =>
      have ends := on.ends
      have ordered := written.ordered i
      have inside := lt_lapEnd written.size_pos (t.start i)
      simp only [rxDescSize] at ordered
      exact on.leaves skip (by omega) (by omega)
  | resumed on =>
      have kept := kept_ge written i
      have le := on.kept
      simp only [rxDescSize] at kept
      omega

/-- A walk over bytes of the tape finds the descriptors that end there, and leaves what it has of
the next one. -/
theorem Walking.parsed {news : List Slot} (walking : t.Walking stop i w) (written : t.Written)
    (rxEnd : fw.rxEnd = rxbufStartAddr + t.size) (reach : reachEnd = true ↔ stop % t.size = 0)
    (clear : w.Clear) (skip : w.skip = 0) (parsed : Parsed fw bufSz reachEnd pos0 w news w') :
    t.Stored w'.buf i news ∧ t.Leaves stop (i + news.length) w' := by
  induction parsed generalizing i with
  | done empty => exact ⟨trivial, walking.done written skip empty⟩
  | stop some turn =>
      refine ⟨trivial, ?_⟩
      cases walking with
      | onLap on => exact on.stops written clear rxEnd reach some skip (walkTurn_stops turn)
      | resumed on => exact on.stops written clear skip (walkTurn_stops turn)
  | @next w w₁ w' n news measured rest induction =>
      obtain ⟨len, bytes, next⟩ : n = t.len i ∧ (∀ j < n, w.byteAt j = t.content i j) ∧
          t.OnLap stop (i + 1) w₁ := by
        cases walking with
        | onLap on => exact on.next written clear rxEnd measured
        | resumed on => exact on.next written clear measured
      have same : w₁.skip = 0 := by
        rw [measured.eq]
        exact skip
      obtain ⟨stored, leaves⟩ := induction (.onLap next) (measured.clear clear) same
      refine ⟨⟨⟨len, measured.holds clear rest bytes⟩, stored⟩, ?_⟩
      rw [List.length_cons, Nat.add_comm news.length 1, ← Nat.add_assoc]
      exact leaves

end Tape

end AmlW2.Ring
