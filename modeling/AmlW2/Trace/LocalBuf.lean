import AmlW2.Lib.Layout
import AmlW2.Lib.Run
import Mathlib.Algebra.Ring.Nat

/-!
# The local buffer of the firmware trace

`aml_fw_trace_copy` copies trace entries from the buffer shared with the firmware to a ring of
16-bit words, and `aml_fw_trace_read_local` turns them into text for the user.  An entry that does
not fit before the end of the ring is written at its start, and the words skipped are not free until
the reader passes them.
-/

namespace AmlW2.Trace

open Layout

/-- `AML_FW_TRACE_LAST_ENTRY`. -/
def lastEntry : UInt16 := 0xffff

/-- `AML_FW_TRACE_NB_PARAM` of a header word. -/
def nbParam (header : UInt16) : Nat := header.toNat / 256

/-- `AML_FW_TRACE_ENTRY_SIZE` of a header word, `AML_FW_TRACE_HEADER_LEN` included. -/
def entrySize (header : UInt16) : Nat := nbParam header + 4

theorem entrySize_pos (header : UInt16) : 0 < entrySize header := Nat.succ_pos _

/-- The buffer shared with the firmware, as one call finds it. -/
structure TraceBuf where
  data : Nat → UInt16
  size : Nat
  start : Nat
  endIdx : Nat
  resetIdx : Int

namespace TraceBuf

/-- `aml_fw_trace_empty`. -/
def empty (b : TraceBuf) : Bool := b.size ≤ b.endIdx

/-- The position read at a pointer: the firmware wraps as well. -/
def wrap (b : TraceBuf) (ptr : Nat) : Nat :=
  if ptr = b.size ∨ b.data ptr = lastEntry then 0 else ptr

def sizeAt (b : TraceBuf) (ptr : Nat) : Nat := entrySize (b.data ptr)

/-- The positions at which a copy reads a header, from a first pointer on. -/
inductive Header (b : TraceBuf) (ptr : Nat) : Nat → Prop
  | first : Header b ptr (b.wrap ptr)
  | next {p : Nat} : Header b ptr p → p ≠ b.endIdx → p + b.sizeAt p ≤ b.size →
      Header b ptr (b.wrap (p + b.sizeAt p))

end TraceBuf

/-- `struct aml_fw_trace_local_buf`, with the entries not read yet and where they were written, the
entries copied so far and those read so far. -/
structure LocalBuf where
  size : Nat
  data : Nat → UInt16
  read : Nat := 0
  write : Nat := 0
  nbEntries : Nat := 0
  freeSpace : Nat
  lastRead : Option Nat := none
  lastReadValue : UInt16 := 0
  resetIdx : Int := 0
  showReset : Option Nat := none
  unread : List (Nat × List UInt16) := []
  copied : List (List UInt16) := []
  taken : List (List UInt16) := []

inductive Fault where
  /-- A write outside the buffer. -/
  | outside
  /-- A write to a word of an unread entry. -/
  | unread
  /-- The copy does not come to an end. -/
  | endless

/-- A difference of `uint32_t`. -/
def sub32 (m n : Nat) : Nat := if n ≤ m then m - n else m + 2 ^ 32 - n

/-- A difference of `size_t`. -/
def sub64 (m n : Nat) : Nat := if n ≤ m then m - n else m + 2 ^ 64 - n

namespace LocalBuf

/-! ## Copying -/

/-- Write one word. -/
def put (s : LocalBuf) (p : Nat) (w : UInt16) : Except Fault LocalBuf :=
  if s.size ≤ p then .error .outside
  else if Inside s.unread p then .error .unread
  else .ok { s with data := store s.data p [w] }

def putAll (s : LocalBuf) : Nat → List UInt16 → Except Fault LocalBuf
  | _, [] => .ok s
  | p, w :: e =>
      match s.put p w with
      | .error fault => .error fault
      | .ok s' => s'.putAll (p + 1) e

/-- What `aml_fw_trace_copy_entry` sets once the words of the entry are written. -/
def entered (s : LocalBuf) (ptr : Nat) (e : List UInt16) : LocalBuf :=
  { s with
    write := if s.size ≤ s.write + e.length then 0 else s.write + e.length
    freeSpace := sub32 s.freeSpace e.length
    lastRead := some ptr
    lastReadValue := e.headD 0
    nbEntries := (s.nbEntries + 1) % 2 ^ 16
    unread := s.unread ++ [(s.write, e)]
    copied := s.copied ++ [e] }

/-- `aml_fw_trace_copy_entry`. -/
def amlFwTraceCopyEntry (s : LocalBuf) (ptr : Nat) (e : List UInt16) : Except Fault LocalBuf :=
  (s.putAll s.write e).map fun s' => s'.entered ptr e

/-- Leave a gap at the end of the buffer. -/
def skip (s : LocalBuf) : LocalBuf :=
  { s with
    showReset := if s.showReset = some s.write then some 0 else s.showReset
    write := 0
    freeSpace := sub32 s.freeSpace (s.size - s.write) }

/-- Copy an entry if there is room for it. -/
def place (s : LocalBuf) (ptr : Nat) (e : List UInt16) : Except Fault (Option LocalBuf) :=
  if e.length ≤ s.freeSpace then
    if s.write < s.read ∨ e.length ≤ s.size - s.write then
      (s.amlFwTraceCopyEntry ptr e).map some
    else if e.length ≤ sub32 s.freeSpace (s.size - s.write) then
      match s.put s.write lastEntry with
      | .error fault => .error fault
      | .ok s' => (s'.skip.amlFwTraceCopyEntry ptr e).map some
    else .ok none
  else .ok none

/-- The loop of `aml_fw_trace_copy`, with the number of entries copied. -/
def copyLoop (b : TraceBuf) : (passes : Nat) → LocalBuf → (ptr ret : Nat) →
    Except Fault (LocalBuf × Nat)
  | 0, _, _, _ => .error .endless
  | passes + 1, s, ptr, ret =>
      let ptr := b.wrap ptr
      if b.size < ptr + b.sizeAt ptr then
        -- the shared buffer is corrupted, and is reset
        .ok (s, ret)
      else if s.size < b.sizeAt ptr then copyLoop b passes s (ptr + b.sizeAt ptr) ret
      else
        match s.place ptr (load b.data ptr (b.sizeAt ptr)) with
        | .error fault => .error fault
        | .ok none => .ok (s, ret)
        | .ok (some s') =>
            if ptr = b.endIdx then .ok (s', ret + 1)
            else copyLoop b passes s' (ptr + b.sizeAt ptr) (ret + 1)

/-- The shared buffer has been reset since the last copy. -/
def seeReset (s : LocalBuf) (b : TraceBuf) : LocalBuf :=
  if s.resetIdx ≠ b.resetIdx then
    { s with showReset := some s.write, resetIdx := b.resetIdx, lastRead := none }
  else s

/-- The first entry to copy: the one after the last entry copied, if that is still there. -/
def firstPtr (s : LocalBuf) (b : TraceBuf) : Nat :=
  match s.lastRead with
  | none => b.start
  | some p => if s.lastReadValue = b.data p then p + b.sizeAt p else b.start

/-- `aml_fw_trace_copy`.  Each pass copies an entry, unless the entry is longer than the buffer. -/
def amlFwTraceCopy (s : LocalBuf) (b : TraceBuf) (interrupted : Bool) :
    Except Fault (LocalBuf × Nat) :=
  if interrupted then .ok (s, 0)
  else
    let s := s.seeReset b
    if b.empty ∨ s.lastRead = some b.endIdx then .ok (s, 0)
    else copyLoop b (s.size + 1) s (s.firstPtr b) 0

/-! ## Reading -/

/-- `aml_fw_trace_strlen` of the header word. -/
def amlFwTraceStrlen (header : UInt16) : Nat := 27 + nbParam header * 7 + 1

/-- The size of the text `aml_fw_trace_to_str` makes of an entry: numbers are padded to their
maximal width, and the text of a UART entry loses its last character unless that is a newline. -/
def amlFwTraceToStr (e : List UInt16) : Nat :=
  let header := e.headD 0
  let id := header.toNat % 256 * 65536 + (e.getD 1 0).toNat
  -- `UART_TRACE_ID`; the text ends with the high byte of the last parameter
  if id = 203 then
    27 + 12 + nbParam header * 2 -
      (if nbParam header ≠ 0 ∧ (e.getD (nbParam header + 3) 0).toNat / 256 = 10 then 0 else 1)
  else 27 + nbParam header * 7 + 1

/-- Take the entry at the read pointer. -/
def take (s : LocalBuf) : LocalBuf :=
  let n := entrySize (s.data s.read)
  let ptr := s.read + n
  { s with
    nbEntries := s.nbEntries - 1
    freeSpace :=
      if s.size ≤ ptr then (s.freeSpace + n) % 2 ^ 32
      else if s.data ptr = lastEntry then (s.freeSpace + n + (s.size - ptr)) % 2 ^ 32
      else (s.freeSpace + n) % 2 ^ 32
    read := if s.size ≤ ptr ∨ s.data ptr = lastEntry then 0 else ptr
    unread := s.unread.tail
    taken := s.taken ++ [load s.data s.read n] }

/-- `AML_FW_TRACE_RESET_SIZE`. -/
def resetSize : Nat := 14

/-- The loop of `aml_fw_trace_read_local`, with the bytes left in the user's buffer and the number
of copies made to it; `notCpy` tells what each copy leaves out. -/
def readLoop (notCpy : Nat → Nat) : (left : Nat) → LocalBuf → (remain res copies : Nat) →
    LocalBuf × Nat
  | 0, s, _, res, _ => (s, res)
  | left + 1, s, remain, res, copies =>
      let reset := s.showReset = some s.read
      if reset ∧ remain < resetSize then (s, res)
      else
        let line := if reset then resetSize - min (notCpy copies) resetSize else 0
        let s := if reset then { s with showReset := none } else s
        let copies := if reset then copies + 1 else copies
        if remain - line < amlFwTraceStrlen (s.data s.read) then (s, res + line)
        else
          let strSize := amlFwTraceToStr (load s.data s.read (entrySize (s.data s.read)))
          let missed := min (notCpy copies) strSize
          if missed ≠ 0 then (s.take, res + line + (strSize - missed))
          else readLoop notCpy left s.take (sub64 (remain - line) strSize) (res + line + strSize)
            (copies + 1)

/-- An empty buffer starts again at its beginning. -/
def restart (s : LocalBuf) : LocalBuf :=
  if s.nbEntries = 0 then { s with write := 0, read := 0, freeSpace := s.size } else s

/-- `aml_fw_trace_read_local`, with the size written. -/
def amlFwTraceReadLocal (s : LocalBuf) (allocated : Bool) (size : Nat) (notCpy : Nat → Nat) :
    LocalBuf × Nat :=
  if s.nbEntries = 0 ∨ !allocated then (s, 0)
  else
    let out := readLoop notCpy s.nbEntries s size 0 0
    (out.1.restart, out.2)

/-! ## Runs -/

/-- `aml_fw_trace_alloc_local`: what the buffer holds is arbitrary. -/
def amlFwTraceAllocLocal (size : Nat) (data : Nat → UInt16) : LocalBuf where
  size := size
  data := data
  freeSpace := size

end LocalBuf

inductive Event where
  | copy (b : TraceBuf) (interrupted : Bool)
  | readLocal (allocated : Bool) (size : Nat) (notCpy : Nat → Nat)

namespace LocalBuf

def step (s : LocalBuf) : Event → Except Fault LocalBuf
  | .copy b interrupted => (s.amlFwTraceCopy b interrupted).map Prod.fst
  | .readLocal allocated size notCpy => .ok (s.amlFwTraceReadLocal allocated size notCpy).1

/-- No entry a copy comes across is longer than the local buffer or starts with the end marker. -/
def Ordinary (s : LocalBuf) : Event → Prop
  | .copy b _ => ∀ p, b.Header ((s.seeReset b).firstPtr b) p → p + b.sizeAt p ≤ b.size →
      b.sizeAt p ≤ s.size ∧ b.data p ≠ lastEntry
  | .readLocal _ _ _ => True

/-- The words skipped at the end of the buffer, between an entry and the next. -/
def skipped (size : Nat) : List (Nat × List UInt16) → Nat
  | (p, e) :: (q, e') :: entries =>
      (if q = p + e.length then 0 else size - (p + e.length)) + skipped size ((q, e') :: entries)
  | _ => 0

/-- The entries taken are those copied, in order and once each, but for the unread ones; these are
counted, and their words and those skipped are not free. -/
structure Fifo (s : LocalBuf) : Prop where
  order : s.taken ++ s.unread.map Prod.snd = s.copied
  count : s.nbEntries = s.unread.length
  space : s.freeSpace + (words s.unread + skipped s.size s.unread) = s.size

/-! ## The shape of the buffer -/

/-- An entry as long as its header says, which is not the end marker. -/
structure Whole (e : List UInt16) : Prop where
  length : e.length = entrySize (e.headD 0)
  header : e.headD 0 ≠ lastEntry

theorem Whole.pos {e : List UInt16} (whole : Whole e) : 0 < e.length := by
  rw [whole.length]
  exact entrySize_pos _

/-- The unread entries lie between the two pointers. -/
structure Flat (s : LocalBuf) : Prop where
  laid : Laid s.data s.read s.unread s.write
  inside : s.unread ≠ [] → s.write < s.size
  fresh : s.unread = [] → s.read = 0
  free : s.freeSpace + words s.unread = s.size

/-- The unread entries lie in two parts: from the read pointer to the end of the buffer or to a gap
there, and from its start to the write pointer. -/
structure Wrapped (s : LocalBuf) (front back : List (Nat × List UInt16)) (gap : Nat) : Prop where
  split : s.unread = front ++ back
  front_ne : front ≠ []
  front_laid : Laid s.data s.read front gap
  gap_le : gap ≤ s.size
  marked : gap < s.size → s.data gap = lastEntry ∧ back ≠ []
  back_laid : Laid s.data 0 back s.write
  free : s.write + s.freeSpace = s.read

def Shape (s : LocalBuf) : Prop := s.Flat ∨ ∃ front back gap, s.Wrapped front back gap

/-- What holds whatever the buffer holds. -/
structure Counted (s : LocalBuf) : Prop where
  order : s.taken ++ s.unread.map Prod.snd = s.copied
  whole : ∀ entry ∈ s.unread, Whole entry.2
  count : s.nbEntries = s.unread.length
  small : s.size < 2 ^ 18

/-- What holds between two calls. -/
structure Sound (s : LocalBuf) : Prop extends Counted s where
  shape : s.Shape

variable {s : LocalBuf} {e : List UInt16} {front back : List (Nat × List UInt16)} {gap ptr : Nat}

theorem headD_load {m : Nat → UInt16} {p n : Nat} (pos : 0 < n) :
    (load m p n).headD 0 = m p := by
  cases n with
  | zero => exact absurd pos (Nat.lt_irrefl 0)
  | succ n => rw [load, List.range_succ_eq_map]; rfl

theorem header_of_holds {m : Nat → UInt16} {p : Nat} (whole : Whole e) (held : Holds m p e) :
    m p = e.headD 0 := by
  cases e with
  | nil => exact absurd whole.pos (Nat.lt_irrefl 0)
  | cons a e => exact held 0 (Nat.succ_pos _)

theorem words_pos {entries : List (Nat × List UInt16)} (whole : ∀ entry ∈ entries, Whole entry.2)
    (some_entry : entries ≠ []) : 0 < words entries := by
  cases entries with
  | nil => exact absurd rfl some_entry
  | cons entry entries =>
      rw [words_cons]
      exact Nat.add_pos_left (whole entry List.mem_cons_self).pos _

/-- No entry is shorter than its header. -/
theorem length_le_words {entries : List (Nat × List UInt16)}
    (whole : ∀ entry ∈ entries, Whole entry.2) : 4 * entries.length ≤ words entries := by
  induction entries with
  | nil => exact Nat.le_refl 0
  | cons entry entries induction =>
      have first := (whole entry List.mem_cons_self).length
      have rest := induction fun entry member => whole entry (List.mem_cons_of_mem _ member)
      rw [entrySize] at first
      rw [List.length_cons, words_cons]
      omega

theorem skipped_of_laid {size p q : Nat} {m : Nat → UInt16} {entries : List (Nat × List UInt16)}
    (laid : Laid m p entries q) : skipped size entries = 0 := by
  induction entries generalizing p with
  | nil => rfl
  | cons first entries induction =>
      cases entries with
      | nil => rfl
      | cons second entries =>
          have later := induction laid.2.2
          have next : second.1 = first.1 + first.2.length := by rw [laid.2.2.1, laid.1]
          rw [skipped, if_pos next, later]

/-- Two parts that do not follow on each other leave a gap. -/
theorem skipped_of_parts {size p q : Nat} {m : Nat → UInt16} (front_laid : Laid m p front gap)
    (back_laid : Laid m 0 back q) (front_ne : front ≠ []) (back_ne : back ≠ []) (pos : 0 < gap) :
    skipped size (front ++ back) = size - gap := by
  induction front generalizing p with
  | nil => exact absurd rfl front_ne
  | cons first front induction =>
      cases front with
      | nil =>
          cases back with
          | nil => exact absurd rfl back_ne
          | cons second back =>
              have last : first.1 + first.2.length = gap := by
                rw [front_laid.1]
                exact front_laid.2.2
              have apart : second.1 ≠ first.1 + first.2.length := by
                rw [back_laid.1, last]
                exact pos.ne
              rw [List.cons_append, List.nil_append, skipped, if_neg apart, last,
                skipped_of_laid back_laid, Nat.add_zero]
      | cons second front =>
          have later := induction front_laid.2.2 (List.cons_ne_nil _ _)
          have next : second.1 = first.1 + first.2.length := by
            rw [front_laid.2.2.1, front_laid.1]
          rw [List.cons_append, List.cons_append, skipped, if_pos next, Nat.zero_add]
          exact later

theorem Sound.fifo (sound : s.Sound) : s.Fifo where
  order := sound.order
  count := sound.count
  space := by
    rcases sound.shape with flat | ⟨front, back, gap, wrapped⟩
    · rw [skipped_of_laid flat.laid, Nat.add_zero]
      exact flat.free
    · have whole := sound.whole
      rw [wrapped.split] at whole ⊢
      have pos := words_pos (fun entry member => whole entry (List.mem_append_left back member))
        wrapped.front_ne
      have front_end := wrapped.front_laid.end_eq
      have back_end := wrapped.back_laid.end_eq
      have free := wrapped.free
      have bound := wrapped.gap_le
      by_cases back_ne : back = []
      · have full : ¬gap < s.size := fun short => (wrapped.marked short).2 back_ne
        subst back_ne
        rw [List.append_nil, skipped_of_laid wrapped.front_laid]
        rw [words_nil] at back_end
        omega
      · rw [skipped_of_parts wrapped.front_laid wrapped.back_laid wrapped.front_ne back_ne
          (by omega), words_append]
        omega

/-! ## Copying an entry -/

theorem putAll_eq {p : Nat} (fits : p + e.length ≤ s.size)
    (apart : ∀ i, p ≤ i → i < p + e.length → ¬Inside s.unread i) :
    s.putAll p e = .ok { s with data := store s.data p e } := by
  induction e generalizing s p with
  | nil => rfl
  | cons w e induction =>
      rw [List.length_cons] at fits apart
      have first : s.put p w = .ok { s with data := store s.data p [w] } := by
        rw [put, if_neg (by omega), if_neg (apart p (Nat.le_refl p) (by omega))]
      rw [putAll, first]
      exact induction (s := { s with data := store s.data p [w] }) (by dsimp only; omega)
        fun i low high => apart i (by omega) (by omega)

/-- An entry has been copied, or there is no room for it. -/
def Placed (s : LocalBuf) (result : Except Fault (Option LocalBuf)) : Prop :=
  result = .ok none ∨
    ∃ s', result = .ok (some s') ∧ s'.Sound ∧ s'.size = s.size ∧ s'.freeSpace < s.freeSpace

theorem Counted.entered (counted : s.Counted) (whole : Whole e)
    (room : words s.unread + e.length ≤ s.size) : (s.entered ptr e).Counted := by
  have all : ∀ entry ∈ s.unread ++ [(s.write, e)], Whole entry.2 := by
    intro entry member
    rcases List.mem_append.mp member with old | new
    · exact counted.whole entry old
    · obtain rfl := List.mem_singleton.mp new
      exact whole
  refine ⟨?_, all, ?_, counted.small⟩
  · change s.taken ++ (s.unread ++ [(s.write, e)]).map Prod.snd = s.copied ++ [e]
    rw [List.map_append, ← List.append_assoc, counted.order]
    rfl
  · have long := length_le_words all
    have small := counted.small
    change (s.nbEntries + 1) % 2 ^ 16 = (s.unread ++ [(s.write, e)]).length
    rw [words_append, words_cons, words_nil, List.length_append, List.length_singleton] at long
    dsimp only at long
    rw [List.length_append, List.length_singleton, counted.count, Nat.mod_eq_of_lt (by omega)]

/-- The words of an entry written where the unread entries are not. -/
theorem copyEntry_eq (fits : s.write + e.length ≤ s.size)
    (apart : ∀ i, s.write ≤ i → i < s.write + e.length → ¬Inside s.unread i) :
    s.amlFwTraceCopyEntry ptr e =
      .ok (LocalBuf.entered { s with data := store s.data s.write e } ptr e) := by
  rw [amlFwTraceCopyEntry, putAll_eq fits apart]
  rfl

theorem Flat.write_eq (flat : s.Flat) : s.write = s.read + words s.unread := flat.laid.end_eq

/-- An entry copied behind the last one of a buffer that is not wrapped. -/
theorem Flat.entered (flat : s.Flat) (fits : s.write + e.length ≤ s.size) :
    (LocalBuf.entered { s with data := store s.data s.write e } ptr e).Shape := by
  have write_eq := flat.write_eq
  have free := flat.free
  have kept : Laid (store s.data s.write e) s.read s.unread s.write :=
    flat.laid.congr fun i _ high => store_of_lt high
  have laid := kept.snoc (holds_store (m := s.data) (p := s.write) (e := e))
  have rest : sub32 s.freeSpace e.length = s.freeSpace - e.length := if_pos (by omega)
  by_cases reaches : s.size ≤ s.write + e.length
  · refine .inr ⟨s.unread ++ [(s.write, e)], [], s.write + e.length, ?_⟩
    refine ⟨(List.append_nil _).symm, by simp, laid, fits, fun short => ?_, ?_, ?_⟩
    · exact absurd short (Nat.not_lt_of_le reaches)
    · exact (if_pos reaches).symm
    · change (if s.size ≤ s.write + e.length then 0 else s.write + e.length) +
        sub32 s.freeSpace e.length = s.read
      rw [if_pos reaches, rest]
      omega
  · have write' : (if s.size ≤ s.write + e.length then 0 else s.write + e.length) =
        s.write + e.length := if_neg reaches
    refine .inl ⟨?_, fun _ => ?_, fun none => absurd none (by simp [LocalBuf.entered]), ?_⟩
    · change Laid (store s.data s.write e) s.read (s.unread ++ [(s.write, e)])
        (if s.size ≤ s.write + e.length then 0 else s.write + e.length)
      rw [write']
      exact laid
    · change (if s.size ≤ s.write + e.length then 0 else s.write + e.length) < s.size
      omega
    · change sub32 s.freeSpace e.length + words (s.unread ++ [(s.write, e)]) = s.size
      rw [rest, words_append, words_cons, words_nil]
      dsimp only
      omega

/-- An entry copied behind the last one of a wrapped buffer. -/
theorem Wrapped.entered (wrapped : s.Wrapped front back gap) (below : s.read < gap)
    (fits : e.length ≤ s.freeSpace) :
    (LocalBuf.entered { s with data := store s.data s.write e } ptr e).Wrapped front
      (back ++ [(s.write, e)]) gap := by
  have free := wrapped.free
  have bound := wrapped.gap_le
  have kept : Laid (store s.data s.write e) 0 back s.write :=
    wrapped.back_laid.congr fun i _ high => store_of_lt high
  have laid := kept.snoc (holds_store (m := s.data) (p := s.write) (e := e))
  have write' : (if s.size ≤ s.write + e.length then 0 else s.write + e.length) =
      s.write + e.length := if_neg (by omega)
  refine ⟨?_, wrapped.front_ne, ?_, bound, fun short => ⟨?_, by simp⟩, ?_, ?_⟩
  · change s.unread ++ [(s.write, e)] = front ++ (back ++ [(s.write, e)])
    rw [wrapped.split, List.append_assoc]
  · exact wrapped.front_laid.congr fun i low _ => store_of_ge (by omega)
  · exact (store_of_ge (by omega)).trans (wrapped.marked short).1
  · change Laid (store s.data s.write e) 0 (back ++ [(s.write, e)])
      (if s.size ≤ s.write + e.length then 0 else s.write + e.length)
    rw [write']
    exact laid
  · change (if s.size ≤ s.write + e.length then 0 else s.write + e.length) +
      sub32 s.freeSpace e.length = s.read
    rw [write', sub32, if_pos fits]
    omega

/-- A gap left at the end of a buffer that is not wrapped, and an entry copied to its start. -/
theorem Flat.skipped (flat : s.Flat) (some_entry : s.unread ≠ []) (short : s.write < s.size)
    (fits : e.length ≤ s.read) (pos : 0 < e.length) :
    (LocalBuf.entered { LocalBuf.skip { s with data := store s.data s.write [lastEntry] } with
      data := store (store s.data s.write [lastEntry]) 0 e } ptr e).Wrapped s.unread [(0, e)]
        s.write := by
  have write_eq := flat.write_eq
  have free := flat.free
  have gap_free : sub32 s.freeSpace (s.size - s.write) = s.read := by
    rw [sub32, if_pos (by omega)]
    omega
  have write' : (if s.size ≤ 0 + e.length then 0 else 0 + e.length) = 0 + e.length :=
    if_neg (by omega)
  have kept : ∀ i, s.read ≤ i →
      store (store s.data s.write [lastEntry]) 0 e i = store s.data s.write [lastEntry] i :=
    fun i low => store_of_ge (by omega)
  refine ⟨rfl, some_entry, ?_, short.le, fun _ => ⟨?_, List.cons_ne_nil _ _⟩, ?_, ?_⟩
  · refine flat.laid.congr fun i low high => ?_
    exact (kept i low).trans (store_of_lt high)
  · refine (kept s.write (by omega)).trans ?_
    exact (holds_store (m := s.data) (p := s.write) (e := [lastEntry])) 0 Nat.zero_lt_one
  · change Laid _ 0 [(0, e)] (if s.size ≤ 0 + e.length then 0 else 0 + e.length)
    rw [write']
    exact ⟨rfl, holds_store, rfl⟩
  · change (if s.size ≤ 0 + e.length then 0 else 0 + e.length) +
      sub32 (sub32 s.freeSpace (s.size - s.write)) e.length = s.read
    rw [write', gap_free, sub32, if_pos fits]
    omega

theorem Wrapped.read_lt (wrapped : s.Wrapped front back gap)
    (whole : ∀ entry ∈ s.unread, Whole entry.2) : s.read < gap := by
  rw [wrapped.split] at whole
  have pos := words_pos (fun entry member => whole entry (List.mem_append_left back member))
    wrapped.front_ne
  have front_end := wrapped.front_laid.end_eq
  omega

theorem Wrapped.words_le (wrapped : s.Wrapped front back gap) :
    words s.unread + s.freeSpace ≤ s.size := by
  have front_end := wrapped.front_laid.end_eq
  have back_end := wrapped.back_laid.end_eq
  have free := wrapped.free
  have bound := wrapped.gap_le
  rw [wrapped.split, words_append]
  omega

theorem Counted.placed (counted : s.Counted) (ptr : Nat) (whole : Whole e)
    (room : words s.unread + e.length ≤ s.size) (free : e.length ≤ s.freeSpace)
      (fits : s.write + e.length ≤ s.size)
    (apart : ∀ i, s.write ≤ i → i < s.write + e.length → ¬Inside s.unread i)
    (shape : (LocalBuf.entered { s with data := store s.data s.write e } ptr e).Shape) :
    s.Placed ((s.amlFwTraceCopyEntry ptr e).map some) := by
  have kept : LocalBuf.Counted { s with data := store s.data s.write e } :=
    ⟨counted.order, counted.whole, counted.count, counted.small⟩
  refine .inr ⟨_, congrArg (Except.map some) (copyEntry_eq fits apart),
    ⟨kept.entered whole room, shape⟩, rfl, ?_⟩
  change sub32 s.freeSpace e.length < s.freeSpace
  rw [sub32, if_pos free]
  exact Nat.sub_lt (whole.pos.trans_le free) whole.pos

/-- Copying an entry keeps the buffer sound, and takes free space. -/
theorem Sound.place (sound : s.Sound) (ptr : Nat) (whole : Whole e) (fits : e.length ≤ s.size) :
    s.Placed (s.place ptr e) := by
  have pos := whole.pos
  rw [LocalBuf.place]
  split_ifs with room contiguous behind
  · -- The entry goes behind the last one.
    rcases sound.shape with flat | ⟨front, back, gap, wrapped⟩
    · have write_eq := flat.write_eq
      have free := flat.free
      have fits : s.write + e.length ≤ s.size := by omega
      exact sound.placed ptr whole (by omega) room fits
        (fun i low _ => flat.laid.not_inside (.inr low)) (flat.entered fits)
    · have below := wrapped.read_lt sound.whole
      have free := wrapped.free
      have bound := wrapped.gap_le
      have total := wrapped.words_le
      refine sound.placed ptr whole (by omega) room (by omega) (fun i low high => ?_)
        (.inr ⟨front, _, gap, wrapped.entered below room⟩)
      rw [wrapped.split, not_inside_append]
      exact ⟨wrapped.front_laid.not_inside (.inl (by omega)),
        wrapped.back_laid.not_inside (.inr low)⟩
  · -- It does not fit behind the last one: a gap, and it goes to the start.
    obtain ⟨not_wrapped, long⟩ := not_or.mp contiguous
    rcases sound.shape with flat | ⟨front, back, gap, wrapped⟩
    · have write_eq := flat.write_eq
      have free := flat.free
      have some_entry : s.unread ≠ [] := fun none => by
        have start := flat.fresh none
        rw [none, words_nil] at write_eq
        omega
      have short := flat.inside some_entry
      have gap_free : sub32 s.freeSpace (s.size - s.write) = s.read := by
        rw [sub32, if_pos (by omega)]
        omega
      have marked : s.put s.write lastEntry =
          .ok { s with data := store s.data s.write [lastEntry] } := by
        rw [put, if_neg (by omega), if_neg (flat.laid.not_inside (.inr (Nat.le_refl _)))]
      rw [gap_free] at behind
      rw [marked]
      have counted : (LocalBuf.skip { s with data := store s.data s.write [lastEntry] }).Counted :=
        ⟨sound.order, sound.whole, sound.count, sound.small⟩
      obtain none | ⟨s', copied, sound', size', less⟩ :=
        counted.placed ptr whole (by change words s.unread + _ ≤ s.size; omega)
          (by change _ ≤ sub32 s.freeSpace (s.size - s.write); omega)
          (by change 0 + _ ≤ s.size; omega)
          (fun i _ high => flat.laid.not_inside (.inl (by
            change i < 0 + e.length at high
            omega)))
          (.inr ⟨s.unread, [(0, e)], s.write, flat.skipped some_entry short behind pos⟩)
      · exact .inl none
      · refine .inr ⟨s', copied, sound', size', less.trans_le ?_⟩
        change sub32 s.freeSpace (s.size - s.write) ≤ s.freeSpace
        omega
    · have free := wrapped.free
      omega
  · exact .inl rfl
  · exact .inl rfl

/-! ## Copying and reading -/

theorem header_trans {b : TraceBuf} {p q : Nat} (header : b.Header ptr p) (more : p ≠ b.endIdx)
    (inside : p + b.sizeAt p ≤ b.size) (later : b.Header (p + b.sizeAt p) q) : b.Header ptr q := by
  induction later with
  | first => exact header.next more inside
  | next _ more inside induction => exact induction.next more inside

/-- The loop comes to an end, since every pass takes free space. -/
theorem Sound.copyLoop {b : TraceBuf} {passes ret : Nat} (sound : s.Sound)
    (enough : s.freeSpace < passes)
    (ordinary : ∀ p, b.Header ptr p → p + b.sizeAt p ≤ b.size →
      b.sizeAt p ≤ s.size ∧ b.data p ≠ lastEntry) :
    ∃ s' ret', LocalBuf.copyLoop b passes s ptr ret = .ok (s', ret') ∧ s'.Sound := by
  induction passes generalizing s ptr ret with
  | zero => exact absurd enough (Nat.not_lt_zero _)
  | succ passes induction =>
      rw [LocalBuf.copyLoop]
      by_cases corrupted : b.size < b.wrap ptr + b.sizeAt (b.wrap ptr)
      · rw [if_pos corrupted]
        exact ⟨s, ret, rfl, sound⟩
      have inside := Nat.le_of_not_lt corrupted
      obtain ⟨fits, marker⟩ := ordinary _ .first inside
      have header :=
          headD_load (m := b.data) (p := b.wrap ptr) (entrySize_pos (b.data (b.wrap ptr)))
      have whole : Whole (load b.data (b.wrap ptr) (b.sizeAt (b.wrap ptr))) := by
        refine ⟨?_, ?_⟩
        · rw [length_load, TraceBuf.sizeAt, header]
        · rw [TraceBuf.sizeAt, header]
          exact marker
      rw [if_neg corrupted, if_neg (Nat.not_lt_of_le fits)]
      obtain none | ⟨s', copied, sound', size', less⟩ :=
        sound.place (b.wrap ptr) whole (by rwa [length_load])
      · rw [none]
        exact ⟨s, ret, rfl, sound⟩
      · rw [copied]
        dsimp only
        split_ifs with last
        · exact ⟨s', ret + 1, rfl, sound'⟩
        · refine induction sound' (by omega) fun p header inside' => ?_
          rw [size']
          exact ordinary p (header_trans .first last inside header) inside'

/-- What is noted about resets and the last entry read does not matter. -/
theorem Sound.noted (sound : s.Sound) (shown : Option Nat) (resetIdx : Int)
    (lastRead : Option Nat) :
    ({ s with showReset := shown, resetIdx := resetIdx, lastRead := lastRead } :
      LocalBuf).Sound := by
  refine ⟨⟨sound.order, sound.whole, sound.count, sound.small⟩, ?_⟩
  rcases sound.shape with flat | ⟨front, back, gap, wrapped⟩
  · exact .inl ⟨flat.laid, flat.inside, flat.fresh, flat.free⟩
  · exact .inr ⟨front, back, gap, wrapped.split, wrapped.front_ne, wrapped.front_laid,
      wrapped.gap_le, wrapped.marked, wrapped.back_laid, wrapped.free⟩

theorem Sound.seeReset (sound : s.Sound) (b : TraceBuf) : (s.seeReset b).Sound := by
  rw [LocalBuf.seeReset]
  split_ifs
  · exact sound.noted _ _ _
  · exact sound

theorem Shape.free_le (shape : s.Shape) : s.freeSpace ≤ s.size := by
  rcases shape with flat | ⟨front, back, gap, wrapped⟩
  · have free := flat.free
    omega
  · have total := wrapped.words_le
    omega

theorem Sound.amlFwTraceCopy {b : TraceBuf} {interrupted : Bool} (sound : s.Sound)
    (ordinary : s.Ordinary (.copy b interrupted)) :
    ∃ s' ret, s.amlFwTraceCopy b interrupted = .ok (s', ret) ∧ s'.Sound := by
  rw [LocalBuf.amlFwTraceCopy]
  split_ifs with stop
  · exact ⟨s, 0, rfl, sound⟩
  · have seen := sound.seeReset b
    dsimp only
    split_ifs
    · exact ⟨_, 0, rfl, seen⟩
    · have size' : (s.seeReset b).size = s.size := by
        rw [LocalBuf.seeReset]
        split_ifs
        · rfl
        · rfl
      refine seen.copyLoop (Nat.lt_succ_of_le seen.shape.free_le) fun p header inside => ?_
      rw [size']
      exact ordinary p header inside

/-- Entries laid out start with a header, which is not the end marker. -/
theorem header_of_laid {m : Nat → UInt16} {p q : Nat} {entries : List (Nat × List UInt16)}
    (laid : Laid m p entries q) (whole : ∀ entry ∈ entries, Whole entry.2)
    (some_entry : entries ≠ []) : m p ≠ lastEntry ∧ p < q := by
  cases entries with
  | nil => exact absurd rfl some_entry
  | cons entry entries =>
      have first := whole entry List.mem_cons_self
      have tail_end := laid.end_eq
      have pos := first.pos
      rw [header_of_holds first laid.2.1]
      rw [words_cons] at tail_end
      exact ⟨first.header, by omega⟩

theorem Counted.take (counted : s.Counted) {p : Nat} {entries : List (Nat × List UInt16)}
    (first : s.unread = (p, e) :: entries) (held : Holds s.data s.read e) : s.take.Counted := by
  have whole := counted.whole
  rw [first] at whole
  have size : entrySize (s.data s.read) = e.length := by
    rw [header_of_holds (whole _ List.mem_cons_self) held, (whole _ List.mem_cons_self).length]
  refine ⟨?_, ?_, ?_, counted.small⟩
  · change s.taken ++ [load s.data s.read (entrySize (s.data s.read))] ++
      s.unread.tail.map Prod.snd = s.copied
    rw [size, held.load_eq, ← counted.order, first, List.append_assoc]
    rfl
  · intro entry member
    exact counted.whole entry (List.mem_of_mem_tail member)
  · change s.nbEntries - 1 = s.unread.tail.length
    rw [counted.count, List.length_tail]

/-- The read pointer when the next entry follows. -/
theorem take_follows (inside : s.read + entrySize (s.data s.read) < s.size)
    (header : s.data (s.read + entrySize (s.data s.read)) ≠ lastEntry) :
    s.take.read = s.read + entrySize (s.data s.read) ∧
      s.take.freeSpace = (s.freeSpace + entrySize (s.data s.read)) % 2 ^ 32 := by
  refine ⟨if_neg ?_, ?_⟩
  · rintro (outside | marker)
    · exact absurd outside (Nat.not_le_of_lt inside)
    · exact header marker
  · exact (if_neg (Nat.not_le_of_lt inside)).trans (if_neg header)

theorem Flat.take (flat : s.Flat) (small : s.size < 2 ^ 18) {p : Nat}
    {entries : List (Nat × List UInt16)} (whole : ∀ entry ∈ s.unread, Whole entry.2)
    (first : s.unread = (p, e) :: entries) (more : entries ≠ []) : s.take.Flat := by
  have laid := flat.laid
  have free := flat.free
  have inside := flat.inside (by rw [first]; exact List.cons_ne_nil _ _)
  rw [first] at laid whole free
  rw [words_cons] at free
  dsimp only at free
  have size : entrySize (s.data s.read) = e.length := by
    rw [header_of_holds (whole _ List.mem_cons_self) laid.2.1, (whole _ List.mem_cons_self).length]
  obtain ⟨header, below⟩ := header_of_laid laid.2.2
    (fun entry member => whole entry (List.mem_cons_of_mem _ member)) more
  obtain ⟨read', free'⟩ := take_follows (s := s) (by rw [size]; exact below.trans inside)
    (by rwa [size])
  rw [size] at read' free'
  have unread' : s.take.unread = entries := congrArg List.tail first
  refine ⟨?_, fun _ => inside, fun none => absurd (unread'.symm.trans none) more, ?_⟩
  · rw [read', unread']
    exact laid.2.2
  · rw [free', unread', Nat.mod_eq_of_lt (by omega)]
    change _ = s.size
    omega

theorem Wrapped.take (wrapped : s.Wrapped front back gap) (small : s.size < 2 ^ 18)
    (whole : ∀ entry ∈ s.unread, Whole entry.2) (more : s.unread.tail ≠ []) : s.take.Shape := by
  have laid := wrapped.front_laid
  have split := wrapped.split
  have free := wrapped.free
  have bound := wrapped.gap_le
  have below := wrapped.read_lt whole
  have back_end := wrapped.back_laid.end_eq
  cases front with
  | nil => exact absurd rfl wrapped.front_ne
  | cons entry front =>
      obtain ⟨p, e⟩ := entry
      rw [split] at whole more
      have first := whole _ List.mem_cons_self
      have size : entrySize (s.data s.read) = e.length := by
        rw [header_of_holds first laid.2.1, first.length]
      have unread' : s.take.unread = front ++ back := congrArg List.tail split
      have front_whole : ∀ entry ∈ front, Whole entry.2 := fun entry member =>
        whole entry (List.mem_cons_of_mem _ (List.mem_append_left back member))
      by_cases front_ne : front = []
      · -- The last entry of the first part: the reader goes on at the start.
        subst front_ne
        have last : s.read + e.length = gap := laid.2.2
        have read' : s.take.read = 0 := by
          refine if_pos ?_
          rw [size, last]
          rcases Nat.lt_or_ge gap s.size with short | full
          · exact .inr (wrapped.marked short).1
          · exact .inl full
        have free' : s.take.freeSpace = s.freeSpace + e.length + (s.size - gap) := by
          rcases Nat.lt_or_ge gap s.size with short | full
          · refine (if_neg ?_).trans ((if_pos ?_).trans ?_)
            · rw [size, last]
              exact Nat.not_le_of_lt short
            · rw [size, last]
              exact (wrapped.marked short).1
            · rw [size, last, Nat.mod_eq_of_lt (by omega)]
          · refine (if_pos ?_).trans ?_
            · rw [size, last]
              exact full
            · rw [size, Nat.mod_eq_of_lt (by omega)]
              omega
        refine .inl ⟨?_, fun _ => ?_, fun _ => read', ?_⟩
        · rw [read', unread']
          exact wrapped.back_laid
        · change s.write < s.size
          omega
        · rw [free', unread', List.nil_append]
          change _ = s.size
          omega
      · obtain ⟨header, inside⟩ := header_of_laid laid.2.2 front_whole front_ne
        obtain ⟨read', free'⟩ := take_follows (s := s) (by rw [size]; exact inside.trans_le bound)
          (by rwa [size])
        rw [size] at read' free'
        refine .inr ⟨front, back, gap, unread', front_ne, ?_, bound, wrapped.marked,
          wrapped.back_laid, ?_⟩
        · rw [read']
          exact laid.2.2
        · rw [read', free', Nat.mod_eq_of_lt (by omega)]
          change s.write + _ = _
          omega

/-- Taking an entry keeps what is counted, and the shape while there are entries. -/
theorem Sound.take (sound : s.Sound) (some_entry : s.unread ≠ []) :
    s.take.Counted ∧ (s.take.unread ≠ [] → s.take.Shape) := by
  cases unread : s.unread with
  | nil => exact absurd unread some_entry
  | cons entry entries =>
      obtain ⟨p, e⟩ := entry
      rcases sound.shape with flat | ⟨front, back, gap, wrapped⟩
      · have laid := flat.laid
        rw [unread] at laid
        refine ⟨sound.toCounted.take unread laid.2.1, fun more => .inl ?_⟩
        refine flat.take sound.small sound.whole unread fun none => more ?_
        exact (congrArg List.tail unread).trans none
      · refine ⟨?_, fun more => wrapped.take sound.small sound.whole more⟩
        have split := wrapped.split
        have laid := wrapped.front_laid
        cases front with
        | nil => exact absurd rfl wrapped.front_ne
        | cons first front =>
            rw [unread, List.cons_append] at split
            obtain rfl := (List.cons.inj split).1
            exact sound.toCounted.take unread laid.2.1

theorem Sound.showReset (sound : s.Sound) (shown : Option Nat) :
    ({ s with showReset := shown } : LocalBuf).Sound :=
  sound.noted shown s.resetIdx s.lastRead

/-- What one pass of the loop does: it ends for want of room, it takes an entry and cannot copy all
of its text, or it takes an entry and goes on. -/
theorem readLoop_cases (notCpy : Nat → Nat) (left : Nat) (s : LocalBuf) (remain res copies : Nat) :
    let strSize := amlFwTraceToStr (load s.data s.read (entrySize (s.data s.read)))
    ∃ shown line copies' missed, line ≤ resetSize ∧ line ≤ remain ∧
      (remain < resetSize + amlFwTraceStrlen (s.data s.read) ∧
          readLoop notCpy (left + 1) s remain res copies =
            ({ s with showReset := shown }, res + line) ∨
        line + amlFwTraceStrlen (s.data s.read) ≤ remain ∧
          ((∃ i, notCpy i ≠ 0) ∧ readLoop notCpy (left + 1) s remain res copies =
              ({ s with showReset := shown }.take, res + line + (strSize - missed)) ∨
            readLoop notCpy (left + 1) s remain res copies =
              readLoop notCpy left { s with showReset := shown }.take
                (sub64 (remain - line) strSize) (res + line + strSize) copies')) := by
  intro strSize
  rw [readLoop]
  dsimp only
  by_cases reset : s.showReset = some s.read
  · by_cases room : remain < resetSize
    · rw [if_pos ⟨reset, room⟩]
      exact ⟨s.showReset, 0, 0, 0, Nat.zero_le _, Nat.zero_le _,
        .inl ⟨Nat.lt_add_right _ room, rfl⟩⟩
    · rw [if_neg fun stop => room stop.2]
      simp only [if_pos reset]
      refine ⟨none, resetSize - min (notCpy copies) resetSize, copies + 1 + 1,
        min (notCpy (copies + 1)) strSize, Nat.sub_le _ _,
        (Nat.sub_le _ _).trans (Nat.le_of_not_lt room), ?_⟩
      split_ifs with short cut
      · exact .inl ⟨by omega, rfl⟩
      · exact .inr ⟨by omega, .inl ⟨⟨copies + 1, by omega⟩, rfl⟩⟩
      · exact .inr ⟨by omega, .inr rfl⟩
  · rw [if_neg fun stop => reset stop.1]
    simp only [if_neg reset]
    refine ⟨s.showReset, 0, copies + 1, min (notCpy copies) strSize, Nat.zero_le _,
      Nat.zero_le _, ?_⟩
    split_ifs with short cut
    · exact .inl ⟨by omega, rfl⟩
    · exact .inr ⟨by omega, .inl ⟨⟨copies, by omega⟩, rfl⟩⟩
    · exact .inr ⟨by omega, .inr rfl⟩

theorem Counted.readLoop (notCpy : Nat → Nat) {left : Nat} (remain res copies : Nat)
    (counted : s.Counted) (shape : s.unread ≠ [] → s.Shape) (left_eq : left = s.unread.length) :
    (LocalBuf.readLoop notCpy left s remain res copies).1.Counted ∧
      ((LocalBuf.readLoop notCpy left s remain res copies).1.unread ≠ [] →
        (LocalBuf.readLoop notCpy left s remain res copies).1.Shape) := by
  induction left generalizing s remain res copies with
  | zero => exact ⟨counted, shape⟩
  | succ left induction =>
      have some_entry : s.unread ≠ [] := fun none => by
        rw [none] at left_eq
        cases left_eq
      have sound : s.Sound := ⟨counted, shape some_entry⟩
      obtain ⟨shown, line, copies', missed, -, -, ⟨-, ended⟩ | ⟨-, ⟨-, cut⟩ | goes_on⟩⟩ :=
        readLoop_cases notCpy left s remain res copies
      · rw [ended]
        exact ⟨(sound.showReset shown).toCounted, fun _ => (sound.showReset shown).shape⟩
      · rw [cut]
        exact (sound.showReset shown).take some_entry
      · obtain ⟨taken, taken_shape⟩ := (sound.showReset shown).take some_entry
        rw [goes_on]
        refine induction _ _ _ taken taken_shape ?_
        change left = s.unread.tail.length
        rw [List.length_tail, ← left_eq]
        rfl

/-- An empty buffer that starts again has a shape. -/
theorem Counted.restart (counted : s.Counted) (shape : s.unread ≠ [] → s.Shape) :
    s.restart.Sound := by
  rw [LocalBuf.restart]
  split_ifs with empty
  · have none : s.unread = [] := List.eq_nil_of_length_eq_zero (counted.count.symm.trans empty)
    refine ⟨⟨counted.order, counted.whole, counted.count, counted.small⟩, .inl ⟨?_, ?_, ?_, ?_⟩⟩
    · change Laid s.data 0 s.unread 0
      rw [none]
      rfl
    · exact fun some_entry => absurd none some_entry
    · exact fun _ => rfl
    · change s.size + words s.unread = s.size
      rw [none]
      rfl
  · refine ⟨counted, shape fun none => empty ?_⟩
    rw [counted.count, none]
    rfl

theorem Sound.step (sound : s.Sound) {event : Event} (ordinary : s.Ordinary event) :
    ∃ next, s.step event = .ok next ∧ next.Sound := by
  cases event with
  | copy b interrupted =>
      obtain ⟨s', ret, copied, sound'⟩ := sound.amlFwTraceCopy ordinary
      exact ⟨s', by rw [LocalBuf.step, copied]; rfl, sound'⟩
  | readLocal allocated size notCpy =>
      refine ⟨_, rfl, ?_⟩
      rw [amlFwTraceReadLocal]
      split_ifs
      · exact sound
      · obtain ⟨counted, shape⟩ := Counted.readLoop notCpy size 0 0 sound.toCounted
          (fun _ => sound.shape) sound.count
        exact counted.restart shape

theorem sound_alloc {size : Nat} (small : size < 2 ^ 18) (data : Nat → UInt16) :
    (amlFwTraceAllocLocal size data).Sound where
  order := rfl
  whole := List.forall_mem_nil _
  count := rfl
  small := small
  shape := .inl ⟨rfl, fun some_entry => absurd rfl some_entry, fun _ => rfl, rfl⟩

/-- The local buffer is a queue: in every run whose shared entries are ordinary, the entries read
are those copied, in order, each once, and no write touches an unread one. -/
theorem fifo_of_ordinary {size : Nat} (small : size < 2 ^ 18) (data : Nat → UInt16)
    (events : List Event)
    (ordinary : Run.Guarded step Ordinary events (amlFwTraceAllocLocal size data)) :
    Run.Safe step Fifo events (amlFwTraceAllocLocal size data) :=
  ordinary.safe (fun _ _ sound meets => sound.step meets) (fun _ sound => sound.fifo)
    (sound_alloc small data)

/-- A test that a shared buffer is ordinary, whatever is copied from it. -/
def ordinaryTest (s : LocalBuf) : Event → Bool
  | .copy b _ => decide (∀ p < b.size, b.sizeAt p ≤ s.size ∧ b.data p ≠ lastEntry)
  | .readLocal _ _ _ => true

theorem ordinary_of_test (s : LocalBuf) (event : Event) (passed : s.ordinaryTest event = true) :
    s.Ordinary event := by
  cases event with
  | copy b interrupted =>
      intro p _ inside
      refine of_decide_eq_true passed p ?_
      have pos : 0 < b.sizeAt p := entrySize_pos _
      omega
  | readLocal allocated size notCpy => trivial

/-- Three entries of four words. -/
def threeEntries : TraceBuf where
  data := fun i => [1, 0, 0, 10, 2, 0, 0, 20, 3, 0, 0, 30].getD i 0
  size := 12
  start := 0
  endIdx := 8
  resetIdx := 0

/-- A buffer of ten words: the third entry is copied behind a gap, once the first has been read. -/
theorem fifo_of_ordinary_gap :
    Run.Safe step Fifo
      [.copy threeEntries false, .readLocal true 40 fun _ => 0, .copy threeEntries false,
        .readLocal true 100 fun _ => 0] (amlFwTraceAllocLocal 10 fun _ => 0) :=
  fifo_of_ordinary (by decide) _ _ (Run.guarded_of_check ordinary_of_test (by decide +kernel))

end LocalBuf

end AmlW2.Trace
