import Mathlib.Order.Basic
import AmlW2.Lib.Memory

/-!
# Names in DNS messages

`aml_filter_sp_dns` of `aml_tx.c` writes the name of a question as a string.  A name is a run of
labels, each with its length in front, that ends with an empty one; a pointer stands for the rest
of a name found elsewhere in the message.
-/

namespace AmlW2.Special

/-- `MDNS_QNAME_LENGTH_MAX` -/
def mdnsQnameLengthMax : Nat := 256

/-- `MDNS_NAME_LABEL_LEN_MAX` -/
def mdnsNameLabelLenMax : Nat := 63

/-- The byte starts a pointer: `(*p & 0xC0) == 0xC0`. -/
def isPointer (byte : UInt8) : Bool := byte &&& 0xC0 == 0xC0

/-- Where the pointer at `p` leads. -/
def location (buf : Memory) (p : Nat) : Nat :=
  ((buf p).toNat <<< 8 ||| (buf (p + 1)).toNat) &&& 0x3fff

/-- The variables of the loop, with the positions of the buffer read and of the output written. -/
structure NameState where
  p : Nat
  ptrCount : Nat := 0
  totalLen : Nat := 0
  qname : Memory
  reads : List Nat
  writes : List Nat

/-- Read `n` bytes from `p` on. -/
def NameState.read (s : NameState) (n : Nat) : NameState :=
  { s with reads := s.reads ++ List.range' s.p n }

/-- Go where the pointer at `p` leads. -/
def NameState.jump (s : NameState) (buf : Memory) : NameState :=
  { s with
    p := location buf s.p
    ptrCount := s.ptrCount + 1
    reads := s.reads ++ List.range' s.p 2 }

/-- Copy the label whose length is at `p` to the output and put a dot behind it. -/
def NameState.copyLabel (s : NameState) (buf : Memory) : NameState :=
  let labelLen := (buf s.p).toNat
  { s with
    p := s.p + 1 + labelLen
    totalLen := s.totalLen + labelLen + 1
    qname := (s.qname.put s.totalLen labelLen fun i => buf (s.p + 1 + i)).put
      (s.totalLen + labelLen) 1 fun _ => 0x2e
    reads := s.reads ++ List.range' s.p (labelLen + 1)
    writes := s.writes ++ List.range' s.totalLen (labelLen + 1) }

/-- The loop of `aml_filter_sp_dns`, a round for each unit of fuel: whether it came to the end of
the name, or failed. -/
def decodeName (buf : Memory) (bufLen : Nat) : Nat → NameState → Option (NameState × Bool)
  | 0, _ => none
  | fuel + 1, s =>
      if buf s.p = 0 then some (s.read 1, true)
      else if isPointer (buf s.p) then
        if 10 < s.ptrCount then some (s.read 1, false)
        else if bufLen - 1 < location buf s.p then some (s.read 2, false)
        else decodeName buf bufLen fuel (s.jump buf)
      else if mdnsNameLabelLenMax < (buf s.p).toNat ∨
          mdnsQnameLengthMax < s.totalLen + (buf s.p).toNat + 1 ∨
          bufLen < s.p + 1 + (buf s.p).toNat then
        some (s.read 1, false)
      else decodeName buf bufLen fuel (s.copyLabel buf)

/-- What comes back from `aml_filter_sp_dns`, and what it read and wrote. -/
structure NameResult where
  ret : Int
  qname : Memory
  reads : List Nat
  writes : List Nat

/-- What the loop starts from: the output cleared, the first byte read. -/
def NameState.start (p : Nat) (qname : Memory) : NameState where
  p := p
  qname := qname.put 0 mdnsQnameLengthMax fun _ => 0
  reads := [p]
  writes := List.range' 0 mdnsQnameLengthMax

/-- The string is ended where the last dot is. -/
def NameState.finish (s : NameState) : NameResult :=
  let last := if 0 < s.totalLen then s.totalLen - 1 else 0
  { ret := 0
    qname := s.qname.put last 1 fun _ => 0
    reads := s.reads
    writes := s.writes ++ [last] }

/-- `aml_filter_sp_dns`, for a buffer and an output that there are. -/
def amlFilterSpDns (buf : Memory) (bufLen : Nat) (offset : Int) (qname : Memory) (fuel : Nat) :
    Option NameResult :=
  if bufLen < 1 ∨ offset < 0 ∨ (bufLen : Int) - 1 < offset then some ⟨-1, qname, [], []⟩
  else if buf offset.toNat = 0 then some ⟨-1, qname, [offset.toNat], []⟩
  else
    (decodeName buf bufLen fuel (NameState.start offset.toNat qname)).map fun result =>
      if result.2 then result.1.finish
      else ⟨-1, result.1.qname, result.1.reads, result.1.writes⟩

/-- The parser stayed in its buffers and what it calls a name is a string. -/
structure NameResult.Safe (r : NameResult) (bufLen : Nat) : Prop where
  reads : ∀ pos ∈ r.reads, pos < bufLen
  writes : ∀ pos ∈ r.writes, pos < mdnsQnameLengthMax
  string : r.ret = 0 → ∃ pos < mdnsQnameLengthMax, r.qname pos = 0

/-! ## The way a name takes -/

/-- The name at `offset` leads to a position, by so many pointers and with so many bytes of output,
within the limits there are for names. -/
inductive Leads (buf : Memory) (bufLen offset : Nat) : Nat → Nat → Nat → Prop where
  | start : Leads buf bufLen offset offset 0 0
  | label {pos pointers size : Nat} : Leads buf bufLen offset pos pointers size →
      buf pos ≠ 0 → isPointer (buf pos) = false → (buf pos).toNat ≤ mdnsNameLabelLenMax →
      size + (buf pos).toNat + 1 ≤ mdnsQnameLengthMax → pos + 1 + (buf pos).toNat ≤ bufLen →
      Leads buf bufLen offset (pos + 1 + (buf pos).toNat) pointers (size + (buf pos).toNat + 1)
  | pointer {pos pointers size : Nat} : Leads buf bufLen offset pos pointers size →
      isPointer (buf pos) = true → pointers ≤ 10 → location buf pos < bufLen →
      Leads buf bufLen offset (location buf pos) (pointers + 1) size

/-- Wherever the name leads the message goes on, behind the first byte of a pointer too. -/
def Contained (buf : Memory) (bufLen offset : Nat) : Prop :=
  ∀ pos pointers size, Leads buf bufLen offset pos pointers size →
    pos < bufLen ∧ (isPointer (buf pos) = true → pointers ≤ 10 → pos + 1 < bufLen)

/-! ## The loop ends -/

/-- The rounds a name can take: eleven pointers, and labels of two bytes at least. -/
def nameFuel : Nat := 12 + mdnsQnameLengthMax

theorem toNat_pos_of_ne_zero {byte : UInt8} (nonzero : byte ≠ 0) : 0 < byte.toNat := by
  rcases Nat.eq_zero_or_pos byte.toNat with zero | pos
  · exact absurd (UInt8.toNat_inj.mp zero) nonzero
  · exact pos

/-- Fuel left over does not matter. -/
theorem decodeName_mono {buf : Memory} {bufLen fuel more : Nat} (enough : fuel ≤ more)
    {s : NameState} {result : NameState × Bool}
      (ended : decodeName buf bufLen fuel s = some result) :
    decodeName buf bufLen more s = some result := by
  induction fuel generalizing more s with
  | zero => cases ended
  | succ fuel induction =>
      obtain ⟨more, rfl⟩ := Nat.exists_eq_add_of_le' (Nat.le_trans (Nat.le_add_left 1 fuel) enough)
      have enough := Nat.le_of_succ_le_succ enough
      simp only [decodeName] at ended ⊢
      split_ifs at ended ⊢
      · exact ended
      · exact ended
      · exact ended
      · exact induction enough ended
      · exact ended
      · exact induction enough ended

/-- Each round uses up a pointer or a part of the output. -/
theorem decodeName_ends (buf : Memory) (bufLen fuel : Nat) (s : NameState)
    (enough : 11 - s.ptrCount + (mdnsQnameLengthMax - s.totalLen) < fuel) :
    ∃ result, decodeName buf bufLen fuel s = some result := by
  induction fuel generalizing s with
  | zero => exact absurd enough (Nat.not_lt_zero _)
  | succ fuel induction =>
      simp only [decodeName]
      split_ifs with zero pointer many far
      · exact ⟨_, rfl⟩
      · exact ⟨_, rfl⟩
      · exact ⟨_, rfl⟩
      · apply induction
        show 11 - (s.ptrCount + 1) + (mdnsQnameLengthMax - s.totalLen) < fuel
        omega
      · exact ⟨_, rfl⟩
      · apply induction
        have some_byte := toNat_pos_of_ne_zero zero
        show 11 - s.ptrCount + (mdnsQnameLengthMax - (s.totalLen + (buf s.p).toNat + 1)) < fuel
        omega

/-! ## What the loop reads and writes -/

/-- The state of the loop is the way the name took, all of it inside. -/
structure NameState.Inside (s : NameState) (buf : Memory) (bufLen offset : Nat) : Prop where
  leads : Leads buf bufLen offset s.p s.ptrCount s.totalLen
  fits : s.totalLen ≤ mdnsQnameLengthMax
  reads : ∀ pos ∈ s.reads, pos < bufLen
  writes : ∀ pos ∈ s.writes, pos < mdnsQnameLengthMax

/-- Reading on from inside stays inside. -/
theorem reads_inside {reads : List Nat} {bound first n : Nat} (before : ∀ pos ∈ reads, pos < bound)
    (fits : first + n ≤ bound) : ∀ pos ∈ reads ++ List.range' first n, pos < bound := by
  intro pos member
  rcases List.mem_append.mp member with earlier | now
  · exact before pos earlier
  · exact Nat.lt_of_lt_of_le (List.mem_range'_1.mp now).2 fits

/-- Where the name stays inside, the loop reads and writes inside. -/
theorem NameState.Inside.decodeName {buf : Memory} {bufLen offset fuel : Nat} {s : NameState}
    (inside : s.Inside buf bufLen offset) (contained : Contained buf bufLen offset)
    {result : NameState × Bool} (ended : decodeName buf bufLen fuel s = some result) :
    result.1.totalLen ≤ mdnsQnameLengthMax ∧ (∀ pos ∈ result.1.reads, pos < bufLen) ∧
      ∀ pos ∈ result.1.writes, pos < mdnsQnameLengthMax := by
  induction fuel generalizing s with
  | zero => cases ended
  | succ fuel induction =>
      obtain ⟨here, behind⟩ := contained _ _ _ inside.leads
      simp only [Special.decodeName] at ended
      split_ifs at ended with zero pointer many far bad
      · cases ended
        exact ⟨inside.fits, reads_inside inside.reads here, inside.writes⟩
      · cases ended
        exact ⟨inside.fits, reads_inside inside.reads here, inside.writes⟩
      · cases ended
        have two := behind pointer (by omega)
        exact ⟨inside.fits, reads_inside inside.reads two, inside.writes⟩
      · have few : s.ptrCount ≤ 10 := by omega
        apply induction _ ended
        exact ⟨.pointer inside.leads pointer few (by omega), inside.fits,
          reads_inside inside.reads (behind pointer few), inside.writes⟩
      · cases ended
        exact ⟨inside.fits, reads_inside inside.reads here, inside.writes⟩
      · rw [not_or, not_or] at bad
        obtain ⟨short, room, fits⟩ := bad
        apply induction _ ended
        refine ⟨?_, Nat.le_of_not_lt room, reads_inside inside.reads (by omega),
          reads_inside inside.writes (by omega)⟩
        exact .label inside.leads zero (by simpa using pointer) (by omega) (by omega) (by omega)

/-! ## What the way of the name tells -/

/-- What was read stays read. -/
theorem decodeName_reads {buf : Memory} {bufLen fuel : Nat} {s : NameState}
    {result : NameState × Bool} (ended : decodeName buf bufLen fuel s = some result) :
    ∀ pos ∈ s.reads, pos ∈ result.1.reads := by
  induction fuel generalizing s with
  | zero => cases ended
  | succ fuel induction =>
      intro pos member
      simp only [decodeName] at ended
      split_ifs at ended
      · cases ended
        exact List.mem_append_left _ member
      · cases ended
        exact List.mem_append_left _ member
      · cases ended
        exact List.mem_append_left _ member
      · exact induction ended pos (List.mem_append_left _ member)
      · cases ended
        exact List.mem_append_left _ member
      · exact induction ended pos (List.mem_append_left _ member)

theorem ne_zero_of_isPointer {byte : UInt8} (pointer : isPointer byte = true) : byte ≠ 0 := by
  rintro rfl
  cases pointer

/-- A round reads where it is, and both bytes of a pointer that it may follow. -/
theorem decodeName_reads_here {buf : Memory} {bufLen fuel : Nat} {s : NameState}
    {result : NameState × Bool} (ended : decodeName buf bufLen fuel s = some result) :
    s.p ∈ result.1.reads ∧
      (isPointer (buf s.p) = true → s.ptrCount ≤ 10 → s.p + 1 ∈ result.1.reads) := by
  have grown : ∀ n, 1 ≤ n → s.p ∈ s.reads ++ List.range' s.p n := fun n some_byte =>
    List.mem_append_right _ (List.mem_range'_1.mpr ⟨Nat.le_refl _, by omega⟩)
  have both : s.p + 1 ∈ s.reads ++ List.range' s.p 2 :=
    List.mem_append_right _ (List.mem_range'_1.mpr ⟨by omega, by omega⟩)
  cases fuel with
  | zero => cases ended
  | succ fuel =>
      simp only [decodeName] at ended
      split_ifs at ended with zero pointer many far
      · cases ended
        exact ⟨grown 1 (Nat.le_refl _), fun pointer => absurd zero (ne_zero_of_isPointer pointer)⟩
      · cases ended
        exact ⟨grown 1 (Nat.le_refl _), fun _ few => absurd few (Nat.not_le_of_lt many)⟩
      · cases ended
        exact ⟨grown 2 (by omega), fun _ _ => both⟩
      · have later := decodeName_reads ended
        exact ⟨later _ (grown 2 (by omega)), fun _ _ => later _ both⟩
      · cases ended
        exact ⟨grown 1 (Nat.le_refl _), fun pointer' => absurd pointer' pointer⟩
      · have later := decodeName_reads ended
        exact ⟨later _ (grown _ (by omega)), fun pointer' => absurd pointer' pointer⟩

/-- Wherever the name leads, the loop comes by, to end as it did. -/
theorem Leads.visited {buf : Memory} {bufLen fuel : Nat} {start : NameState}
    (fresh : start.ptrCount = 0 ∧ start.totalLen = 0) {result : NameState × Bool}
    (ended : decodeName buf bufLen fuel start = some result) {pos pointers size : Nat}
    (leads : Leads buf bufLen start.p pos pointers size) :
    ∃ left s, decodeName buf bufLen left s = some result ∧
      s.p = pos ∧ s.ptrCount = pointers ∧ s.totalLen = size := by
  induction leads with
  | start => exact ⟨fuel, start, ended, rfl, fresh⟩
  | label leads nonzero pointer short room fits induction =>
      obtain ⟨left, s, ended, rfl, rfl, rfl⟩ := induction
      cases left with
      | zero => cases ended
      | succ left =>
          simp only [decodeName] at ended
          rw [if_neg nonzero, if_neg (by simp [pointer]), if_neg (by omega)] at ended
          exact ⟨left, s.copyLabel buf, ended, rfl, rfl, rfl⟩
  | pointer leads pointer few inside induction =>
      obtain ⟨left, s, ended, rfl, rfl, rfl⟩ := induction
      cases left with
      | zero => cases ended
      | succ left =>
          simp only [decodeName] at ended
          rw [if_neg (ne_zero_of_isPointer pointer), if_pos pointer, if_neg (by omega),
            if_neg (by omega)] at ended
          exact ⟨left, s.jump buf, ended, rfl, rfl, rfl⟩

/-- A loop that read inside the buffer only tells that the name stays there. -/
theorem contained_of_reads {buf : Memory} {bufLen fuel : Nat} {start : NameState}
    (fresh : start.ptrCount = 0 ∧ start.totalLen = 0) {result : NameState × Bool}
    (ended : decodeName buf bufLen fuel start = some result)
    (inside : ∀ pos ∈ result.1.reads, pos < bufLen) : Contained buf bufLen start.p := by
  intro pos pointers size leads
  obtain ⟨left, s, ended, rfl, rfl, rfl⟩ := leads.visited fresh ended
  obtain ⟨here, behind⟩ := decodeName_reads_here ended
  exact ⟨inside _ here, fun pointer few => inside _ (behind pointer few)⟩

/-- An empty name leads nowhere. -/
theorem contained_of_zero {buf : Memory} {bufLen offset : Nat} (zero : buf offset = 0)
    (inside : offset < bufLen) : Contained buf bufLen offset := by
  intro pos pointers size leads
  have same : pos = offset := by
    induction leads with
    | start => rfl
    | label leads nonzero _ _ _ _ induction => exact absurd (induction ▸ zero) nonzero
    | pointer leads pointer _ _ induction =>
        exact absurd (induction ▸ zero) (ne_zero_of_isPointer pointer)
  rw [same]
  exact ⟨inside, fun pointer => absurd zero (ne_zero_of_isPointer pointer)⟩

/-! ## The parser -/

/-- The string ends inside the output. -/
theorem NameState.finish_safe {s : NameState} {bufLen : Nat}
    (fits : s.totalLen ≤ mdnsQnameLengthMax) (reads : ∀ pos ∈ s.reads, pos < bufLen)
    (writes : ∀ pos ∈ s.writes, pos < mdnsQnameLengthMax) : s.finish.Safe bufLen := by
  have last : (if 0 < s.totalLen then s.totalLen - 1 else 0) < mdnsQnameLengthMax := by
    have some_room : 0 < mdnsQnameLengthMax := by decide
    split <;> omega
  refine ⟨reads, fun pos member => ?_, fun _ => ⟨_, last, ?_⟩⟩
  · rcases List.mem_append.mp member with before | end_of_string
    · exact writes pos before
    · rw [List.mem_singleton.mp end_of_string]
      exact last
  · simp [NameState.finish, Memory.put]

/-- The parser ends on every input, and it stays in its buffers exactly when the name does. -/
theorem amlFilterSpDns_safe_iff (buf : Memory) (bufLen : Nat) (offset : Int) (qname : Memory) :
    (∃ r, (∀ fuel, nameFuel ≤ fuel → amlFilterSpDns buf bufLen offset qname fuel = some r) ∧
        r.Safe bufLen) ↔
      (0 ≤ offset → offset < bufLen → Contained buf bufLen offset.toNat) := by
  unfold amlFilterSpDns
  by_cases refused : bufLen < 1 ∨ offset < 0 ∨ (bufLen : Int) - 1 < offset
  · simp only [if_pos refused]
    refine iff_of_true ⟨_, fun _ _ => rfl, ?_⟩ fun low high => by omega
    exact ⟨by simp, by simp, fun done => by cases done⟩
  have low : 0 ≤ offset := by omega
  have high : offset.toNat < bufLen := by omega
  simp only [if_neg refused]
  by_cases zero : buf offset.toNat = 0
  · simp only [if_pos zero]
    refine iff_of_true ⟨_, fun _ _ => rfl, ?_⟩ fun _ _ => contained_of_zero zero high
    exact ⟨by simpa using high, by simp, fun done => by cases done⟩
  simp only [if_neg zero]
  let start := NameState.start offset.toNat qname
  obtain ⟨result, ended⟩ := decodeName_ends buf bufLen nameFuel start (by
    show 11 - 0 + (mdnsQnameLengthMax - 0) < nameFuel
    unfold nameFuel
    omega)
  have always : ∀ fuel, nameFuel ≤ fuel → decodeName buf bufLen fuel start = some result :=
    fun fuel enough => decodeName_mono enough ended
  constructor
  · rintro ⟨r, returns, safe⟩ _ _
    have returned := returns nameFuel (Nat.le_refl _)
    rw [ended, Option.map_some] at returned
    apply contained_of_reads ⟨rfl, rfl⟩ ended
    have reads := safe.reads
    rw [← Option.some.inj returned] at reads
    split at reads <;> exact reads
  · intro contained
    have initial : start.Inside buf bufLen offset.toNat := by
      refine ⟨.start, Nat.zero_le _, ?_, ?_⟩
      · simpa [start, NameState.start] using high
      · intro pos member
        have below := (List.mem_range'_1.mp member).2
        rwa [Nat.zero_add] at below
    obtain ⟨fits, reads, writes⟩ := initial.decodeName (contained low (by omega)) ended
    refine ⟨_, fun fuel enough => by rw [always fuel enough, Option.map_some], ?_⟩
    split
    · exact NameState.finish_safe fits reads writes
    · exact ⟨reads, writes, fun done => by cases done⟩

/-- The name `a`, cut off behind its only label. -/
def cutOff : Memory := fun i => if i = 12 then 1 else if i = 13 then 0x61 else 0

/-- The label ends where the message does, and the parser looks for the next one behind it. -/
theorem cutOff_unsafe :
    ¬∃ r, (∀ fuel, nameFuel ≤ fuel → amlFilterSpDns cutOff 14 12 (fun _ => 0) fuel = some r) ∧
      r.Safe 14 := by
  rintro ⟨r, returns, safe⟩
  have reads : (amlFilterSpDns cutOff 14 12 (fun _ => 0) nameFuel).map NameResult.reads =
      some [12, 12, 13, 14] := by
    decide +kernel
  rw [returns nameFuel (Nat.le_refl _), Option.map_some] at reads
  have inside := safe.reads 14
  rw [Option.some.inj reads] at inside
  exact absurd (inside (by simp)) (Nat.lt_irrefl 14)

end AmlW2.Special
