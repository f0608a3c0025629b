import AmlW2.Lib.Loop
import AmlW2.Lib.Memory

/-!
# TCP options in the acknowledgement filter

`aml_get_tcp_ack_info` walks the options of a TCP header.  An end of options or a malformed option
leaves only the `switch` inside the loop, not the loop, and the remaining length does not shrink:
the walk goes on with the byte that follows.  This file gives the headers whose walk ends, stays
inside the header and stops where it should: those with complete options and padding alone.
-/

namespace AmlW2.TcpAck

/-! ## The walk -/

/-- `TCPOPT_EOL`. -/
def tcpoptEol : UInt8 := 0

/-- `TCPOPT_NOP`. -/
def tcpoptNop : UInt8 := 1

/-- `TCPOPT_WINDOW`. -/
def tcpoptWindow : UInt8 := 3

/-- `TCPOPT_TIMESTAMP`. -/
def tcpoptTimestamp : UInt8 := 8

/-- The locals of `aml_get_tcp_ack_info`, with the positions the loop has read. -/
structure OptScan where
  /-- `ptr`, counted from the TCP header. -/
  ptr : Nat
  len : Int
  type : Nat
  winScale : Nat
  reads : List Nat

/-- `*ptr++`. -/
def OptScan.next (s : OptScan) : OptScan :=
  { s with ptr := s.ptr + 1, reads := s.reads ++ [s.ptr] }

/-- The `default` case, at the byte after the kind. -/
def OptScan.sized (header : Memory) (s : OptScan) (opcode : UInt8) : OptScan :=
  let opsize := (header s.ptr).toNat
  let s := s.next
  if opsize < 2 then s
  else if s.len < opsize then s
  else
    let s :=
      if opcode = tcpoptTimestamp then s
      else if opcode = tcpoptWindow then
        { s with
          reads := s.reads ++ [s.ptr]
          winScale := if header s.ptr < 15 then 1 <<< (header s.ptr).toNat else s.winScale }
      else { s with type := 2 }
    { s with ptr := s.ptr + (opsize - 2), len := s.len - opsize }

/-- One pass of the loop. -/
def OptScan.pass (header : Memory) (s : OptScan) : OptScan :=
  let opcode := header s.ptr
  let s := s.next
  -- leaves the switch only
  if opcode = tcpoptEol then s
  else if opcode = tcpoptNop then { s with len := s.len - 1 }
  else s.sized header opcode

/-- The loop over the options. -/
def optLoop (header : Memory) : Loop OptScan where
  goes s := decide (0 < s.len ∧ s.type ≠ 0)
  pass := OptScan.pass header

/-- `doff * 4`. -/
def headerLen (header : Memory) : Nat := (header 12).toNat / 16 * 4

/-- `aml_get_tcp_ack_info` up to its loop. -/
def optStart (header : Memory) (tcpTotLen : Int) : OptScan :=
  if headerLen header < tcpTotLen then ⟨20, 0, 0, 0, []⟩
  else ⟨20, headerLen header - 20, 1, 0, []⟩

/-- `aml_get_tcp_ack_info`, with its type and window scale, if its loop ends within some passes. -/
def amlGetTcpAckInfo (header : Memory) (tcpTotLen : Int) (fuel : Nat) : Option (Nat × Nat) :=
  let s := (optLoop header).after fuel (optStart header tcpTotLen)
  if (optLoop header).goes s then none else some (s.type, s.winScale)

/-! ## Options by their format -/

/-- The walk should stop here: at an end of options, an option without a length, one whose length
is less than two or one longer than what remains. -/
def StopsAt (header : Memory) (p : Nat) (len : Int) : Prop :=
  header p = tcpoptEol ∨
    header p ≠ tcpoptNop ∧
      (len < 2 ∨ (header (p + 1)).toNat < 2 ∨ len < (header (p + 1)).toNat)

/-- Complete options and padding fill `n` bytes from `p` on; a window scale of length two, without
its value, is not the last of them. -/
inductive Complete (header : Memory) : Nat → Nat → Prop
  | done (p : Nat) : Complete header p 0
  | nop {p n : Nat} (kind : header p = tcpoptNop) (rest : Complete header (p + 1) n) :
      Complete header p (n + 1)
  | option {p n : Nat} (kind : header p ≠ tcpoptEol) (other : header p ≠ tcpoptNop)
      (long : 2 ≤ (header (p + 1)).toNat) (fits : (header (p + 1)).toNat ≤ n)
      (valued : header p = tcpoptWindow → (header (p + 1)).toNat = 2 → n ≠ 2)
      (rest : Complete header (p + (header (p + 1)).toNat) (n - (header (p + 1)).toNat)) :
      Complete header p n

/-- The walk ends, reads only options of the header, and stops where it should. -/
structure Confined (header : Memory) (tcpTotLen : Int) : Prop where
  ends : ∃ fuel, (amlGetTcpAckInfo header tcpTotLen fuel).isSome = true
  inside : ∀ n, ∀ p ∈ ((optLoop header).after n (optStart header tcpTotLen)).reads,
    20 ≤ p ∧ p < headerLen header
  stops : ∀ n s, s = (optLoop header).after n (optStart header tcpTotLen) →
    (optLoop header).goes s = true → StopsAt header s.ptr s.len →
      (optLoop header).goes ((optLoop header).pass s) = false

/-! ## One pass -/

variable {header : Memory} {s : OptScan}

theorem goes_iff : (optLoop header).goes s = true ↔ 0 < s.len ∧ s.type ≠ 0 := by
  rw [optLoop, decide_eq_true_iff]

/-- The length byte is out of range: only `ptr` has moved. -/
theorem sized_malformed {opcode : UInt8}
    (malformed : (header s.ptr).toNat < 2 ∨ s.len < (header s.ptr).toNat) :
    s.sized header opcode = s.next := by
  simp only [OptScan.sized]
  by_cases short : (header s.ptr).toNat < 2
  · rw [if_pos short]
  · have tooLong : s.next.len < (header s.ptr).toNat := malformed.resolve_left short
    rw [if_neg short, if_pos tooLong]

/-- Where the walk should stop, the pass leaves the remaining length and the type. -/
theorem pass_stopsAt (stopper : StopsAt header s.ptr s.len) :
    (s.pass header).len = s.len ∧ (s.pass header).type = s.type := by
  rcases stopper with kind | ⟨other, malformed⟩
  · simp only [OptScan.pass, if_pos kind]
    exact ⟨rfl, rfl⟩
  · by_cases kind : header s.ptr = tcpoptEol
    · simp only [OptScan.pass, if_pos kind]
      exact ⟨rfl, rfl⟩
    · simp only [OptScan.pass, if_neg kind, if_neg other]
      rw [sized_malformed (show (header s.next.ptr).toNat < 2 ∨
        s.next.len < (header s.next.ptr).toNat from ?_)]
      · exact ⟨rfl, rfl⟩
      · change (header (s.ptr + 1)).toNat < 2 ∨ s.len < (header (s.ptr + 1)).toNat
        omega

theorem pass_nop (kind : header s.ptr = tcpoptNop) :
    s.pass header = { s.next with len := s.len - 1 } := by
  have other : header s.ptr ≠ tcpoptEol := by
    rw [kind]
    decide
  simp only [OptScan.pass, if_neg other, if_pos kind]
  rfl

/-- What the pass makes of a complete option. -/
structure Skipped (header : Memory) (s s' : OptScan) : Prop where
  ptr : s'.ptr = s.ptr + (header (s.ptr + 1)).toNat
  len : s'.len = s.len - (header (s.ptr + 1)).toNat
  type : s.type ≠ 0 → s'.type ≠ 0
  reads : s'.reads = s.reads ++ [s.ptr, s.ptr + 1] ++
    if header s.ptr = tcpoptWindow then [s.ptr + 2] else []

theorem pass_option (kind : header s.ptr ≠ tcpoptEol) (other : header s.ptr ≠ tcpoptNop)
    (long : 2 ≤ (header (s.ptr + 1)).toNat) (fits : (header (s.ptr + 1)).toNat ≤ s.len) :
    Skipped header s (s.pass header) := by
  have notShort : ¬(header s.next.ptr).toNat < 2 := Nat.not_lt.mpr long
  have notLong : ¬s.next.next.len < (header s.next.ptr).toNat := Int.not_lt.mpr fits
  have next : s.next.next.ptr + ((header s.next.ptr).toNat - 2) =
      s.ptr + (header (s.ptr + 1)).toNat := by
    change s.ptr + 1 + 1 + ((header (s.ptr + 1)).toNat - 2) = _
    omega
  have reads : s.next.next.reads = s.reads ++ [s.ptr, s.ptr + 1] := by
    simp [OptScan.next]
  simp only [OptScan.pass, if_neg kind, if_neg other, OptScan.sized, if_neg notShort,
    if_neg notLong]
  by_cases timestamp : header s.ptr = tcpoptTimestamp
  · have notWindow : header s.ptr ≠ tcpoptWindow := by
      rw [timestamp]
      decide
    simp only [if_pos timestamp]
    refine ⟨next, rfl, fun typed => typed, ?_⟩
    rw [if_neg notWindow, List.append_nil]
    exact reads
  · simp only [if_neg timestamp]
    by_cases window : header s.ptr = tcpoptWindow
    · simp only [if_pos window]
      refine ⟨next, rfl, fun typed => typed, ?_⟩
      rw [if_pos window]
      exact congrArg (· ++ [s.ptr + 2]) reads
    · simp only [if_neg window]
      refine ⟨next, rfl, fun _ => Nat.succ_ne_zero 1, ?_⟩
      rw [if_neg window, List.append_nil]
      exact reads

/-! ## Complete options -/

/-- The walk stands before complete options that fill the rest of the header. -/
structure Ahead (header : Memory) (s : OptScan) : Prop where
  complete : ∃ n : Nat, s.len = n ∧ s.ptr + n = headerLen header ∧ Complete header s.ptr n
  start : 20 ≤ s.ptr
  inside : ∀ p ∈ s.reads, 20 ≤ p ∧ p < headerLen header

theorem Ahead.pass (ahead : Ahead header s) (goes : 0 < s.len) :
    Ahead header (s.pass header) ∧ (s.pass header).len.toNat < s.len.toNat := by
  obtain ⟨⟨n, len, ends, complete⟩, start, inside⟩ := ahead
  have read : ∀ {more : List Nat}, (∀ p ∈ more, 20 ≤ p ∧ p < headerLen header) →
      ∀ p ∈ s.reads ++ more, 20 ≤ p ∧ p < headerLen header := by
    intro more within p member
    rcases List.mem_append.mp member with before | now
    · exact inside p before
    · exact within p now
  cases complete with
  | done => omega
  | @nop _ n kind rest =>
      rw [pass_nop kind]
      refine ⟨⟨⟨n, ?_, ?_, rest⟩, ?_, read ?_⟩, ?_⟩
      · change s.len - 1 = n
        omega
      · change s.ptr + 1 + n = _
        omega
      · change 20 ≤ s.ptr + 1
        omega
      · intro p member
        obtain rfl := List.mem_singleton.mp member
        omega
      · change (s.len - 1).toNat < _
        omega
  | option kind other long fits valued rest =>
      have skipped := pass_option kind other long (by omega)
      refine ⟨⟨⟨n - (header (s.ptr + 1)).toNat, ?_, ?_, ?_⟩, ?_, ?_⟩, ?_⟩
      · rw [skipped.len]
        omega
      · rw [skipped.ptr]
        omega
      · rw [skipped.ptr]
        exact rest
      · rw [skipped.ptr]
        omega
      · rw [skipped.reads, List.append_assoc]
        apply read
        intro p member
        rcases List.mem_append.mp member with both | value
        · simp only [List.mem_cons, List.not_mem_nil, or_false] at both
          omega
        · split at value
          · rename_i window
            have := valued window
            obtain rfl := List.mem_singleton.mp value
            omega
          · cases value
      · rw [skipped.len]
        omega

/-- Before complete options there is no place to stop. -/
theorem Ahead.not_stopsAt (ahead : Ahead header s) (goes : 0 < s.len) :
    ¬StopsAt header s.ptr s.len := by
  obtain ⟨⟨n, len, ends, complete⟩, _, _⟩ := ahead
  rintro (eol | ⟨notNop, malformed⟩)
  · cases complete with
    | done => omega
    | nop kind =>
        rw [kind] at eol
        cases eol
    | option kind => exact kind eol
  · cases complete with
    | done => omega
    | nop kind => exact notNop kind
    | option kind other long fits => omega

/-! ## The headers whose walk is confined -/

theorem optStart_of_lt {tcpTotLen : Int} (more : headerLen header < tcpTotLen) :
    optStart header tcpTotLen = ⟨20, 0, 0, 0, []⟩ := if_pos more

theorem optStart_of_le {tcpTotLen : Int} (le : tcpTotLen ≤ headerLen header) :
    optStart header tcpTotLen = ⟨20, headerLen header - 20, 1, 0, []⟩ := if_neg (Int.not_lt.mpr le)

/-- A walk that does not begin is confined. -/
theorem confined_of_idle {tcpTotLen : Int}
    (idle : (optLoop header).goes (optStart header tcpTotLen) = false)
    (unread : (optStart header tcpTotLen).reads = []) : Confined header tcpTotLen where
  ends := by
    refine ⟨0, ?_⟩
    change (if (optLoop header).goes (optStart header tcpTotLen) = true then none
      else some _ : Option (Nat × Nat)).isSome = true
    rw [idle]
    rfl
  inside := by
    intro n p read
    rw [Loop.after_stopped idle, unread] at read
    cases read
  stops := by
    intro n s reached goes
    rw [reached, Loop.after_stopped idle, idle] at goes
    cases goes

theorem confined_of_complete {tcpTotLen : Int}
    (complete : tcpTotLen ≤ headerLen header → Complete header 20 (headerLen header - 20)) :
    Confined header tcpTotLen := by
  rcases Int.lt_or_le (headerLen header) tcpTotLen with more | le
  · have start := optStart_of_lt more
    exact confined_of_idle (by rw [start]; rfl) (by rw [start])
  have start := optStart_of_le le
  by_cases bare : headerLen header < 20
  · refine confined_of_idle ?_ (by rw [start])
    rw [← Bool.not_eq_true, goes_iff, start]
    change ¬((headerLen header : Int) - 20 > 0 ∧ _)
    omega
  have ahead : Ahead header (optStart header tcpTotLen) := by
    rw [start]
    refine ⟨⟨headerLen header - 20, ?_, ?_, complete le⟩, Nat.le_refl 20, nofun⟩
    · change (headerLen header : Int) - 20 = _
      omega
    · change 20 + (headerLen header - 20) = _
      omega
  have passed : ∀ s, Ahead header s → (optLoop header).goes s = true →
      Ahead header ((optLoop header).pass s) ∧
        ((optLoop header).pass s).len.toNat < s.len.toNat :=
    fun s ahead goes => ahead.pass (goes_iff.mp goes).1
  have always := Loop.after_invariant (fun s ahead goes => (passed s ahead goes).1) ahead
  obtain ⟨fuel, ended⟩ := Loop.ends_of_measure (fun s => s.len.toNat) passed ahead
  exact {
    ends := by
      refine ⟨fuel, ?_⟩
      simp only [amlGetTcpAckInfo, ended]
      rfl
    inside := fun n => (always n).inside
    stops := by
      rintro n s rfl goes stopper
      exact absurd stopper ((always n).not_stopsAt (goes_iff.mp goes).1) }

/-- From a place that the walk reaches, its options are complete. -/
theorem Confined.complete_from {tcpTotLen : Int} (confined : Confined header tcpTotLen) {n m : Nat}
    (reached : s = (optLoop header).after m (optStart header tcpTotLen)) (type : s.type ≠ 0)
    (len : s.len = n) (ends : s.ptr + n = headerLen header) : Complete header s.ptr n := by
  induction n using Nat.strongRecOn generalizing s m with
  | ind n induction =>
      cases n with
      | zero => exact .done s.ptr
      | succ n =>
          have goes : (optLoop header).goes s = true := goes_iff.mpr ⟨by omega, type⟩
          have next : (optLoop header).pass s =
              (optLoop header).after (m + 1) (optStart header tcpTotLen) := by
            rw [reached] at goes ⊢
            exact (Loop.after_succ_goes goes).symm
          have regular : ¬StopsAt header s.ptr s.len := by
            intro stopper
            have stopped := confined.stops m s reached goes stopper
            obtain ⟨same_len, same_type⟩ := pass_stopsAt stopper
            have still : (optLoop header).goes (s.pass header) = true :=
              goes_iff.mpr ⟨by omega, same_type ▸ type⟩
            exact absurd (still.symm.trans stopped) Bool.noConfusion
          by_cases nop : header s.ptr = tcpoptNop
          · have passed : (optLoop header).pass s = { s.next with len := s.len - 1 } :=
              pass_nop nop
            rw [passed] at next
            refine .nop nop (induction n (Nat.lt_succ_self n) next type ?_ ?_)
            · change s.len - 1 = n
              omega
            · change s.ptr + 1 + n = _
              omega
          · have kind : header s.ptr ≠ tcpoptEol := fun eol => regular (Or.inl eol)
            have formed : ¬(s.len < 2 ∨ (header (s.ptr + 1)).toNat < 2 ∨
                s.len < (header (s.ptr + 1)).toNat) :=
              fun malformed => regular (Or.inr ⟨nop, malformed⟩)
            have skipped : Skipped header s ((optLoop header).pass s) :=
              pass_option kind nop (by omega) (by omega)
            refine .option kind nop (by omega) (by omega) ?_ ?_
            · intro window _ last
              have within := confined.inside (m + 1) (s.ptr + 2)
              rw [← next, skipped.reads, if_pos window] at within
              have inside := within (by simp)
              omega
            · have rest := induction (n + 1 - (header (s.ptr + 1)).toNat) (by omega) next
                (skipped.type type) (by rw [skipped.len]; omega) (by rw [skipped.ptr]; omega)
              rwa [skipped.ptr] at rest

/-- The walk is confined exactly when there is none, or complete options and padding fill the
header. -/
theorem confined_iff_complete (header : Memory) (tcpTotLen : Int) :
    Confined header tcpTotLen ↔
      (tcpTotLen ≤ headerLen header → Complete header 20 (headerLen header - 20)) := by
  refine ⟨fun confined le => ?_, confined_of_complete⟩
  by_cases bare : headerLen header ≤ 20
  · rw [Nat.sub_eq_zero_of_le bare]
    exact .done 20
  have start := optStart_of_le le
  have walked := confined.complete_from (m := 0) rfl (show (optStart header tcpTotLen).type ≠ 0 by
    rw [start]; exact Nat.succ_ne_zero 0) (n := headerLen header - 20)
  rw [start] at walked
  apply walked
  · change (headerLen header : Int) - 20 = _
    omega
  · change 20 + (headerLen header - 20) = _
    omega

/-- A header of 24 bytes whose options are an end of options and its padding. -/
def padded : Memory := fun i => if i = 12 then 0x60 else 0

/-- The end of options does not stop the walk, which reads on past the header. -/
theorem padded_not_confined :
    24 ∈ ((optLoop padded).after 5 (optStart padded 24)).reads ∧ ¬Confined padded 24 := by
  have read : 24 ∈ ((optLoop padded).after 5 (optStart padded 24)).reads := by decide
  refine ⟨read, fun confined => ?_⟩
  exact absurd (confined.inside 5 24 read).2 (by decide)

end AmlW2.TcpAck
