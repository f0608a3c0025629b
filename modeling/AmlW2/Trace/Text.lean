import AmlW2.Lib.Numerals
import AmlW2.Trace.LocalBuf
import Mathlib.Data.List.GetD

/-!
# The text of the firmware trace

`aml_fw_trace_read_local` asks `aml_fw_trace_strlen` whether the text of an entry fits what is left
of the user's buffer, and then has `aml_fw_trace_to_str` write the text.  The estimate is that of a
list of numbers; a UART entry is written as characters after a fixed label.
-/

namespace AmlW2.Trace

open Layout Numerals

/-! ## The converter -/

/-- `MAX_PARAM_LEN`: the size of the buffer an entry is converted in. -/
def maxParamLen : Nat := 1824

/-- `UART_TRACE_ID`. -/
def uartTraceId : Nat := 203

/-- `AML_FW_TRACE_ID`. -/
def traceId (e : List UInt16) : Nat := (e.headD 0).toNat % 256 * 65536 + (e.getD 1 0).toNat

/-- The time stamp, its high word first. -/
def timeStamp (e : List UInt16) : Nat := (e.getD 2 0).toNat * 65536 + (e.getD 3 0).toNat

/-- The parameters that follow the header. -/
def params (e : List UInt16) : List UInt16 :=
  (List.range (nbParam (e.headD 0))).map fun i => e.getD (i + 4) 0

/-- `scnprintf` at the end of what has been written, with the length of the piece. -/
def scnprintf (out : List Char × Nat) (text : List Char) : List Char × Nat :=
  let piece := text.take (maxParamLen - out.1.length - 1)
  (out.1 ++ piece, piece.length)

/-- `AML_FW_TRACE_HEADER_FMT`. -/
def headerText (ts id : Nat) : List Char :=
  "ts=".toList ++ padded 10 12 ' ' ts ++ (" ID=".toList ++ padded 10 8 ' ' id)

/-- `AML_FW_TRACE_PARAM_FMT`. -/
def paramText (w : UInt16) : List Char := ", ".toList ++ padded 10 5 ' ' w.toNat

/-- A pass of the loop of `aml_fw_trace_to_str`: the two bytes of a parameter as characters, or its
value. -/
def putParam (id : Nat) (out : List Char × Nat) (w : UInt16) : List Char × Nat :=
  if id = uartTraceId then
    scnprintf (scnprintf out [Char.ofNat (w.toNat % 256)]) [Char.ofNat (w.toNat / 256)]
  else scnprintf out (paramText w)

/-- What stands before the parameters. -/
def putHeader (e : List UInt16) : List Char × Nat :=
  let out := scnprintf ([], 0) (headerText (timeStamp e) (traceId e))
  if traceId e = uartTraceId then scnprintf out ", uart log: ".toList else out

def putParams (e : List UInt16) : List Char × Nat :=
  (params e).foldl (putParam (traceId e)) (putHeader e)

/-- The text `aml_fw_trace_to_str` makes of an entry.  A UART text counts one character less, unless
its last piece starts with a newline. -/
def traceText (e : List UInt16) : List Char :=
  let out := putParams e
  if traceId e ≠ uartTraceId then (scnprintf out ['\n']).1
  else if out.1.getD (out.1.length - out.2) ' ' ≠ '\n' then out.1.dropLast
  else out.1

/-! ## Its length -/

variable {e : List UInt16} {out : List Char × Nat} {text : List Char} {id : Nat}

/-- A text that fits is written whole. -/
theorem scnprintf_of_fits (fits : out.1.length + text.length < maxParamLen) :
    scnprintf out text = (out.1 ++ text, text.length) := by
  have whole : text.take (maxParamLen - out.1.length - 1) = text :=
    List.take_of_length_le (by omega)
  rw [scnprintf, whole]

theorem length_headerText {ts : Nat} (ts_lt : ts < 2 ^ 32) (id_lt : id < 2 ^ 24) :
    (headerText ts id).length = 27 := by
  have first : (padded 10 12 ' ' ts).length = 12 :=
    length_padded (by decide) (by decide) (by omega)
  have second : (padded 10 8 ' ' id).length = 8 :=
    length_padded (by decide) (by decide) (by omega)
  simp [headerText, first, second]

theorem length_paramText (w : UInt16) : (paramText w).length = 7 := by
  have digits : (padded 10 5 ' ' w.toNat).length = 5 :=
    length_padded (by decide) (by decide) (w.toNat_lt.trans (by decide))
  simp [paramText, digits]

theorem traceId_lt (e : List UInt16) : traceId e < 2 ^ 24 := by
  have low := (e.getD 1 0).toNat_lt
  rw [traceId]
  omega

theorem timeStamp_lt (e : List UInt16) : timeStamp e < 2 ^ 32 := by
  have high := (e.getD 2 0).toNat_lt
  have low := (e.getD 3 0).toNat_lt
  rw [timeStamp]
  omega

theorem nbParam_lt (header : UInt16) : nbParam header < 256 := by
  have bound := header.toNat_lt
  rw [nbParam]
  omega

/-- The characters of a pass. -/
def paramLength (id : Nat) : Nat := if id = uartTraceId then 2 else 7

/-- The two characters of a UART parameter. -/
theorem putUart (fits : out.1.length + 2 < maxParamLen) {low high : Char} :
    scnprintf (scnprintf out [low]) [high] = (out.1 ++ [low, high], 1) := by
  have first : scnprintf out [low] = (out.1 ++ [low], 1) :=
    scnprintf_of_fits (by rw [List.length_singleton]; omega)
  rw [first, scnprintf_of_fits, List.append_assoc]
  · rfl
  · simp only [List.length_append, List.length_singleton]
    omega

theorem length_putParam (w : UInt16) (fits : out.1.length + paramLength id < maxParamLen) :
    (putParam id out w).1.length = out.1.length + paramLength id := by
  rw [paramLength] at fits
  rw [putParam, paramLength]
  split_ifs at fits ⊢
  · rw [putUart fits, List.length_append]
    rfl
  · rw [scnprintf_of_fits (by rwa [length_paramText]), List.length_append, length_paramText]

theorem length_putParams {ws : List UInt16}
    (fits : out.1.length + paramLength id * ws.length < maxParamLen) :
    (ws.foldl (putParam id) out).1.length = out.1.length + paramLength id * ws.length := by
  induction ws generalizing out with
  | nil => rfl
  | cons w ws induction =>
      rw [List.length_cons, Nat.mul_succ] at fits ⊢
      have passed : (putParam id out w).1.length = out.1.length + paramLength id :=
        length_putParam w (by omega)
      rw [List.foldl_cons, induction (by omega), passed]
      omega

theorem length_params (e : List UInt16) : (params e).length = nbParam (e.headD 0) := by
  rw [params, List.length_map, List.length_range]

theorem header_fits (e : List UInt16) :
    scnprintf ([], 0) (headerText (timeStamp e) (traceId e)) =
      (headerText (timeStamp e) (traceId e), 27) := by
  have length := length_headerText (timeStamp_lt e) (traceId_lt e)
  rw [scnprintf_of_fits (by rw [length]; decide), length, List.nil_append]

theorem putHeader_uart (uart : traceId e = uartTraceId) :
    putHeader e = (headerText (timeStamp e) (traceId e) ++ ", uart log: ".toList, 12) := by
  have length := length_headerText (timeStamp_lt e) (traceId_lt e)
  rw [putHeader, header_fits, if_pos uart, scnprintf_of_fits (by rw [length]; decide)]
  rfl

theorem length_putHeader (e : List UInt16) :
    (putHeader e).1.length = if traceId e = uartTraceId then 39 else 27 := by
  have length := length_headerText (timeStamp_lt e) (traceId_lt e)
  split_ifs with uart
  · rw [putHeader_uart uart, List.length_append, length]
    rfl
  · rw [putHeader, header_fits, if_neg uart, length]

/-- Nothing is cut off: the parameters fit what the header leaves. -/
theorem params_fit (e : List UInt16) :
    (putHeader e).1.length + paramLength (traceId e) * nbParam (e.headD 0) + 1 < maxParamLen := by
  have bound := nbParam_lt (e.headD 0)
  rw [length_putHeader, paramLength, maxParamLen]
  split_ifs
  · omega
  · omega

theorem length_putParams_entry (e : List UInt16) :
    (putParams e).1.length =
      (putHeader e).1.length + paramLength (traceId e) * nbParam (e.headD 0) := by
  have fits := params_fit e
  rw [putParams, length_putParams, length_params]
  rw [length_params]
  omega

/-- A place counted from the end of what was put last. -/
theorem getD_put {n : Nat} {piece : List Char} (inside : n ≤ piece.length) (d : Char) :
    (text ++ piece).getD ((text ++ piece).length - n) d = piece.getD (piece.length - n) d := by
  rw [List.length_append, Nat.add_sub_assoc inside,
    List.getD_append_right _ _ _ _ (Nat.le_add_right _ _), Nat.add_sub_cancel_left]

/-- The last piece of a UART text is the label, or the high byte of the last parameter. -/
theorem lastPiece_uart (uart : traceId e = uartTraceId) :
    (putParams e).1.getD ((putParams e).1.length - (putParams e).2) ' ' =
      if nbParam (e.headD 0) = 0 then ','
      else Char.ofNat ((e.getD (nbParam (e.headD 0) + 3) 0).toNat / 256) := by
  have fits := params_fit e
  rw [putParams, params]
  cases count : nbParam (e.headD 0) with
  | zero =>
      rw [if_pos rfl, List.range_zero, List.map_nil, List.foldl_nil, putHeader_uart uart]
      exact getD_put (Nat.le_refl 12) ' '
  | succ n =>
      have earlier : (((List.range n).map fun i => e.getD (i + 4) 0).foldl (putParam (traceId e))
          (putHeader e)).1.length = (putHeader e).1.length + paramLength (traceId e) * n := by
        rw [length_putParams, List.length_map, List.length_range]
        rw [List.length_map, List.length_range]
        rw [count, Nat.mul_succ] at fits
        omega
      have two : paramLength (traceId e) = 2 := if_pos uart
      rw [count, two] at fits
      rw [two] at earlier
      rw [if_neg (Nat.succ_ne_zero n), List.range_succ, List.map_append, List.foldl_append,
        List.map_singleton, List.foldl_cons, List.foldl_nil, putParam, if_pos uart,
        putUart (by rw [earlier]; omega)]
      exact getD_put (Nat.le_succ 1) ' '

/-- `Char.ofNat` does not lose a byte. -/
theorem ofNat_eq_newline {n : Nat} (byte : n < 256) : Char.ofNat n = '\n' ↔ n = 10 := by
  constructor
  · intro same
    have valid : n.isValidChar := .inl (by omega)
    have value : (Char.ofNat n).toNat = n := by
      rw [Char.ofNat, dif_pos valid]
      rfl
    rw [← value, same]
    rfl
  · intro same
    rw [same]

/-- The UART entries whose text is longer than the estimate: their label is longer than the
parameters are short. -/
def ShortUart (e : List UInt16) : Prop :=
  traceId e = uartTraceId ∧ (nbParam (e.headD 0) < 2 ∨
    nbParam (e.headD 0) = 2 ∧ (e.getD 5 0).toNat / 256 = 10)

/-- The size of a UART text. -/
theorem amlFwTraceToStr_uart (uart : traceId e = uartTraceId) :
    LocalBuf.amlFwTraceToStr e = 27 + 12 + nbParam (e.headD 0) * 2 -
      (if nbParam (e.headD 0) ≠ 0 ∧ (e.getD (nbParam (e.headD 0) + 3) 0).toNat / 256 = 10 then 0
        else 1) := if_pos uart

/-- The size of a UART text, whether it loses a character or not. -/
theorem amlFwTraceToStr_uart_bounds (uart : traceId e = uartTraceId) :
    27 + 12 + nbParam (e.headD 0) * 2 ≤ LocalBuf.amlFwTraceToStr e + 1 ∧
      LocalBuf.amlFwTraceToStr e ≤ 27 + 12 + nbParam (e.headD 0) * 2 := by
  rw [amlFwTraceToStr_uart uart]
  split_ifs
  · omega
  · omega

theorem amlFwTraceToStr_numbers (numbers : traceId e ≠ uartTraceId) :
    LocalBuf.amlFwTraceToStr e = LocalBuf.amlFwTraceStrlen (e.headD 0) := if_neg numbers

/-- The text of an entry has the size computed from its header and its last word. -/
theorem length_traceText (e : List UInt16) : (traceText e).length = LocalBuf.amlFwTraceToStr e := by
  have total := length_putParams_entry e
  have fits := params_fit e
  rw [← length_putParams_entry] at fits
  rw [length_putHeader, paramLength] at total
  by_cases uart : traceId e = uartTraceId
  · have byte := (e.getD (nbParam (e.headD 0) + 3) 0).toNat_lt
    rw [if_pos uart, if_pos uart] at total
    rw [amlFwTraceToStr_uart uart, traceText, if_neg (not_not_intro uart), lastPiece_uart uart]
    by_cases none : nbParam (e.headD 0) = 0
    · rw [if_pos none, if_pos (by decide), if_neg fun last => last.1 none, List.length_dropLast,
        total]
      omega
    · rw [if_neg none]
      split_ifs with cut newline newline
      · exact absurd ((ofNat_eq_newline (by omega)).mpr newline.2) cut
      · rw [List.length_dropLast, total]
        omega
      · omega
      · exact absurd ⟨none, (ofNat_eq_newline (by omega)).mp (not_not.mp cut)⟩ newline
  · rw [if_neg uart, if_neg uart, Nat.mul_comm] at total
    rw [amlFwTraceToStr_numbers uart, traceText, if_pos uart, scnprintf_of_fits fits,
      List.length_append, total]
    rfl

/-- No text is longer than that of 255 numbers. -/
theorem amlFwTraceToStr_lt (e : List UInt16) : LocalBuf.amlFwTraceToStr e < 1814 := by
  have bound := nbParam_lt (e.headD 0)
  by_cases uart : traceId e = uartTraceId
  · have upper := (amlFwTraceToStr_uart_bounds uart).2
    omega
  · rw [amlFwTraceToStr_numbers uart, LocalBuf.amlFwTraceStrlen]
    omega

/-- The estimate covers the text of every entry but these. -/
theorem length_traceText_le_iff (e : List UInt16) :
    (traceText e).length ≤ LocalBuf.amlFwTraceStrlen (e.headD 0) ↔ ¬ShortUart e := by
  rw [length_traceText, ShortUart]
  by_cases uart : traceId e = uartTraceId
  · rw [LocalBuf.amlFwTraceStrlen]
    by_cases two : nbParam (e.headD 0) = 2
    · rw [amlFwTraceToStr_uart uart, two]
      split_ifs with newline
      · exact iff_of_false (by decide) (not_not_intro ⟨uart, .inr ⟨rfl, newline.2⟩⟩)
      · refine iff_of_true (by decide) ?_
        rintro ⟨-, fewer | ⟨-, last⟩⟩
        · exact absurd fewer (Nat.lt_irrefl 2)
        · exact newline ⟨by decide, last⟩
    · obtain ⟨lower, upper⟩ := amlFwTraceToStr_uart_bounds uart
      constructor
      · rintro fits ⟨-, fewer | same⟩
        · omega
        · exact two same.1
      · intro long
        have fewer : ¬nbParam (e.headD 0) < 2 := fun fewer => long ⟨uart, .inl fewer⟩
        omega
  · rw [amlFwTraceToStr_numbers uart]
    exact iff_of_true (Nat.le_refl _) fun short => uart short.1

/-! ## The reader -/

namespace LocalBuf

/-- The read pointer behind the entry at a pointer. -/
def behind (data : Nat → UInt16) (size ptr : Nat) : Nat :=
  let ptr := ptr + entrySize (data ptr)
  if size ≤ ptr ∨ data ptr = lastEntry then 0 else ptr

/-- The entries a reader comes across from a pointer on. -/
def entriesFrom (data : Nat → UInt16) (size : Nat) : (count ptr : Nat) → List (List UInt16)
  | 0, _ => []
  | count + 1, ptr =>
      load data ptr (entrySize (data ptr)) :: entriesFrom data size count (behind data size ptr)

/-- The entries the buffer holds for the reader. -/
def pending (s : LocalBuf) : List (List UInt16) := entriesFrom s.data s.size s.nbEntries s.read

/-- Every read writes at most the bytes asked for, and the text of every entry it takes is no longer
than the estimate, which is what the bytes left are compared with. -/
def Bounded (s : LocalBuf) : Prop :=
  ∀ (allocated : Bool) (size : Nat) (notCpy : Nat → Nat), size < 2 ^ 64 →
    (s.amlFwTraceReadLocal allocated size notCpy).2 ≤ size ∧
      ∀ e ∈ (s.amlFwTraceReadLocal allocated size notCpy).1.taken.drop s.taken.length,
        (traceText e).length ≤ amlFwTraceStrlen (e.headD 0)

theorem sub64_of_le {m n : Nat} (below : n ≤ m) : sub64 m n = m - n := if_pos below

variable {s : LocalBuf} {notCpy : Nat → Nat} {left remain res copies : Nat}

/-- What is written is bounded as long as the estimate covers the texts. -/
theorem readLoop_le
    (covers : ∀ e ∈ entriesFrom s.data s.size left s.read,
      amlFwTraceToStr e ≤ amlFwTraceStrlen (e.headD 0)) :
    (readLoop notCpy left s remain res copies).2 ≤ res + remain := by
  induction left generalizing s remain res copies with
  | zero => exact Nat.le_add_right _ _
  | succ left induction =>
      have first := covers _ List.mem_cons_self
      rw [headD_load (entrySize_pos _)] at first
      obtain ⟨shown, line, copies', missed, -, line_le, ⟨-, ended⟩ | ⟨room, ⟨-, cut⟩ | goes_on⟩⟩ :=
        readLoop_cases notCpy left s remain res copies
      · rw [ended]
        exact Nat.add_le_add_left line_le res
      · rw [cut]
        dsimp only
        omega
      · rw [goes_on]
        refine Nat.le_trans
          (induction fun e member => covers e (List.mem_cons_of_mem _ member)) ?_
        rw [sub64_of_le (by omega)]
        omega

/-- The entries taken are among those the buffer holds. -/
theorem readLoop_taken (s : LocalBuf) (left remain res copies : Nat) :
    ∃ entries, (readLoop notCpy left s remain res copies).1.taken = s.taken ++ entries ∧
      entries ⊆ entriesFrom s.data s.size left s.read := by
  induction left generalizing s remain res copies with
  | zero => exact ⟨[], (List.append_nil _).symm, List.nil_subset _⟩
  | succ left induction =>
      rw [entriesFrom]
      obtain ⟨shown, line, copies', missed, -, -, ⟨-, ended⟩ | ⟨-, ⟨-, cut⟩ | goes_on⟩⟩ :=
        readLoop_cases notCpy left s remain res copies
      · rw [ended]
        exact ⟨[], (List.append_nil _).symm, List.nil_subset _⟩
      · rw [cut]
        exact ⟨[_], rfl, List.cons_subset_cons _ (List.nil_subset _)⟩
      · obtain ⟨entries, taken, among⟩ := induction { s with showReset := shown }.take
          (sub64 (remain - line)
            (amlFwTraceToStr (load s.data s.read (entrySize (s.data s.read)))))
          (res + line + amlFwTraceToStr (load s.data s.read (entrySize (s.data s.read)))) copies'
        rw [goes_on, taken]
        exact ⟨_ :: entries, List.append_assoc _ _ _, List.cons_subset_cons _ among⟩

/-- With room enough and no copy cut short, every entry is taken. -/
theorem readLoop_all (s : LocalBuf) (res copies : Nat) (room : left * 2048 ≤ remain) :
    (readLoop (fun _ => 0) left s remain res copies).1.taken =
      s.taken ++ entriesFrom s.data s.size left s.read := by
  induction left generalizing s remain res copies with
  | zero => exact (List.append_nil _).symm
  | succ left induction =>
      have short := amlFwTraceToStr_lt (load s.data s.read (entrySize (s.data s.read)))
      have estimate := nbParam_lt (s.data s.read)
      rw [entriesFrom]
      obtain ⟨shown, line, copies', missed, line_le, -,
        ⟨tight, -⟩ | ⟨-, ⟨⟨i, cut⟩, -⟩ | goes_on⟩⟩ :=
          readLoop_cases (fun _ => 0) left s remain res copies
      · rw [amlFwTraceStrlen, resetSize] at tight
        omega
      · exact absurd rfl cut
      · rw [resetSize] at line_le
        generalize amlFwTraceToStr (load s.data s.read (entrySize (s.data s.read))) = strSize
          at short goes_on
        have enough : left * 2048 + strSize + line ≤ remain := by omega
        rw [sub64_of_le (by omega)] at goes_on
        rw [goes_on, induction _ _ _ (Nat.le_sub_of_add_le (Nat.le_sub_of_add_le enough))]
        change (s.taken ++ [_]) ++ _ = _
        rw [List.append_assoc, List.singleton_append]
        rfl

theorem taken_restart (s : LocalBuf) : s.restart.taken = s.taken := by
  rw [restart]
  split_ifs
  · rfl
  · rfl

/-- The reader stays within the user's buffer, and the estimate covers every text it writes, exactly
as long as the buffer holds no short UART entry. -/
theorem bounded_iff_no_shortUart (s : LocalBuf) (narrow : s.nbEntries < 2 ^ 16) :
    s.Bounded ↔ ∀ e ∈ s.pending, ¬ShortUart e := by
  constructor
  · intro bounded e member
    rw [← length_traceText_le_iff]
    have some_entry : ¬(s.nbEntries = 0 ∨ (!true) = true) := by
      rintro (none | refused)
      · rw [pending, none] at member
        exact List.not_mem_nil member
      · cases refused
    have taken : (readLoop (fun _ => 0) s.nbEntries s (2 ^ 27) 0 0).1.taken =
        s.taken ++ s.pending := readLoop_all s 0 0 (by omega)
    refine (bounded true (2 ^ 27) (fun _ => 0) (by decide)).2 e ?_
    rw [amlFwTraceReadLocal, if_neg some_entry]
    dsimp only
    rw [taken_restart, taken, List.drop_left]
    exact member
  · intro long allocated size notCpy _
    have covers : ∀ e ∈ s.pending, amlFwTraceToStr e ≤ amlFwTraceStrlen (e.headD 0) := by
      intro e member
      rw [← length_traceText]
      exact (length_traceText_le_iff e).mpr (long e member)
    have written : (readLoop notCpy s.nbEntries s size 0 0).2 ≤ 0 + size := readLoop_le covers
    obtain ⟨entries, taken, among⟩ : ∃ entries,
        (readLoop notCpy s.nbEntries s size 0 0).1.taken = s.taken ++ entries ∧
          entries ⊆ s.pending := readLoop_taken s s.nbEntries size 0 0
    rw [Nat.zero_add] at written
    rw [amlFwTraceReadLocal]
    split_ifs
    · refine ⟨Nat.zero_le _, fun e member => ?_⟩
      rw [List.drop_length] at member
      exact absurd member List.not_mem_nil
    · refine ⟨written, fun e member => ?_⟩
      dsimp only at member
      rw [taken_restart, taken, List.drop_left] at member
      rw [length_traceText]
      exact covers e (among member)

/-- A buffer with one entry, of the characters of a word. -/
def oneEntry (id : UInt16) : LocalBuf where
  size := 8
  data := fun i => [0x0100, id, 0, 0, 0x6968].getD i 0
  write := 5
  nbEntries := 1
  freeSpace := 3

theorem bounded_oneEntry_numbers : (oneEntry 7).Bounded :=
  (bounded_iff_no_shortUart (oneEntry 7) (by decide)).mpr (by
    intro e member short
    rw [List.mem_singleton.mp member] at short
    exact absurd short.1 (by decide))

/-- A UART text of 40 characters is written to 36 bytes: the estimate for its one parameter is
35. -/
theorem uart_overrun : ∃ s, (amlFwTraceAllocLocal 8 fun _ => 0).step
      (.copy { data := (oneEntry 203).data, size := 5, start := 0, endIdx := 0, resetIdx := 0 }
        false) = .ok s ∧
    (s.amlFwTraceReadLocal true 36 fun _ => 0).2 = 40 ∧ ¬s.Bounded := by
  refine ⟨_, rfl, by decide +kernel, fun bounded => ?_⟩
  have written := (bounded true 36 (fun _ => 0) (by decide)).1
  exact absurd written (by decide +kernel)

end LocalBuf

end AmlW2.Trace
