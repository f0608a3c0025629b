import AmlW2.Kernel
import AmlW2.Lib.Run
import AmlW2.Rx.Frags
import Mathlib.Logic.Function.Basic
import Mathlib.Data.List.Range

/-!
# Defragmentation

`aml_defrag_handle` keeps one buffer for each traffic identifier of a station and appends to it the
fragments of one MSDU in order.  As long as no first fragment reaches a buffer that still holds
unexpired data of its own sequence number, every MSDU returned is made of one first fragment and the
payloads of the fragments that follow it, each once; and every call returns if the fragments after
the first have their headers.
-/

namespace AmlW2.Rx

/-! ## The driver -/

/-- Ways in which a call does not return. -/
inductive Fault
  /-- A copy of negative length runs over memory. -/
  | overrun
deriving DecidableEq, Repr

/-- `DEFRAG_MAX_WAIT`, in microseconds. -/
def defragMaxWait : Nat := 100000

/-- `DEFRAG_MAX_PAYLOAD_SIZE`. -/
def defragMaxPayloadSize : Nat := 1600

/-- A buffer with its `aml_skb_rxcb_frag`. -/
structure FragSkb where
  data : List UInt8
  deadline : Jiffies
  /-- Expected sequence number. -/
  sn : Fin 4096
  /-- Expected fragment number. -/
  fn : Fin 16

/-- A received fragment, with the time of its arrival and what the call finds in memory: whether a
buffer is allocated, and the bytes in the room added to it. -/
structure Fragment where
  now : Jiffies
  /-- The entry of `sta->frags`. -/
  tid : Fin 9
  sn : Fin 4096
  fn : Fin 16
  morefrag : Bool
  frags : Frags
  alloc : Bool
  room : List UInt8

/-- `skb_trim` to length 0. -/
def FragSkb.trim (skb : FragSkb) : FragSkb := { skb with data := [] }

/-- `aml_frag_skb_append`: the new data, or `none` when it returns `-1`. -/
def amlFragSkbAppend (data : List UInt8) (frags : Frags) (room : List UInt8) :
    Except Fault (Option (List UInt8)) :=
  -- skip the ethernet header if not the first fragment
  let offset := if data = [] then 0 else 14
  if frags.len < offset then
    -- the length is negative, and the sum compared with the limit is unsigned
    if data.length + frags.len < offset then .ok none else .error .overrun
  else
    let len := frags.len - offset
    if defragMaxPayloadSize < data.length + len then .ok none
    else .ok (some (data ++ (amlFragsCopy frags offset len).getD room))

/-- `aml_defrag_handle` from the append on: the entry left, and the buffer returned. -/
def defragAppend (skb : FragSkb) (rhdExt : Fragment) :
    Except Fault (Option FragSkb × Option (List UInt8)) :=
  match amlFragSkbAppend skb.data rhdExt.frags rhdExt.room with
  | .error fault => .error fault
  | .ok none => .ok (some skb.trim, none)
  | .ok (some data) =>
      if rhdExt.morefrag then .ok (some { skb with data, fn := skb.fn + 1 }, none)
      else .ok (none, some data)

/-- Whether the data of a buffer is dropped when the fragment arrives. -/
def defragStale (skb : FragSkb) (rhdExt : Fragment) : Bool :=
  decide (skb.data ≠ []) &&
    (decide (skb.sn ≠ rhdExt.sn) || timeAfter rhdExt.now skb.deadline)

/-- `aml_defrag_handle`: the entry left, and the buffer returned. -/
def amlDefragHandle (kernel : Kernel) (pfrag : Option FragSkb) (rhdExt : Fragment) :
    Except Fault (Option FragSkb × Option (List UInt8)) :=
  -- the buffer is not freed but reused for a future fragment
  let skb := pfrag.map fun skb => if defragStale skb rhdExt then skb.trim else skb
  if rhdExt.fn = 0 then
    let deadline := rhdExt.now + kernel.usecsToJiffies defragMaxWait
    match skb with
    | some skb => defragAppend { skb with sn := rhdExt.sn, fn := 0, deadline } rhdExt
    | none =>
        if rhdExt.alloc then defragAppend ⟨[], deadline, rhdExt.sn, 0⟩ rhdExt else .ok (none, none)
  else
    match skb with
    | some skb =>
        if skb.data ≠ [] ∧ skb.fn = rhdExt.fn then defragAppend skb rhdExt
        else .ok (some skb, none)
    | none => .ok (none, none)

/-- `sta->frags` of a station, and the buffers returned so far. -/
structure Defrag where
  frags : Fin 9 → Option FragSkb
  returned : List (List UInt8)

/-- A station without fragments. -/
def Defrag.init : Defrag := ⟨fun _ => none, []⟩

/-- A fragment is received. -/
def Defrag.step (kernel : Kernel) (s : Defrag) (rhdExt : Fragment) : Except Fault Defrag :=
  (amlDefragHandle kernel (s.frags rhdExt.tid) rhdExt).map fun (entry, msdu) =>
    { frags := Function.update s.frags rhdExt.tid entry, returned := s.returned ++ msdu.toList }

/-! ## Reassembly -/

/-- The bytes of a first fragment and of the payloads of the fragments after it. -/
def assemble (first : Fragment) (parts : List Fragment) : List UInt8 :=
  first.frags.bytes ++ parts.flatMap fun part => part.frags.bytes.drop 14

/-- A first fragment and the fragments numbered 1, 2, and so on that follow it: they are of its
sequence number and arrive in time, and no other first fragment is received after it. -/
structure Gathered (kernel : Kernel) (received : List Fragment) (first : Fragment)
    (parts : List Fragment) : Prop where
  first_fn : first.fn = 0
  numbered : parts.map (fun part => part.fn.val) = List.range' 1 parts.length
  same_sn : ∀ part ∈ parts, part.sn = first.sn
  in_time : ∀ part ∈ parts,
    timeAfter part.now (first.now + kernel.usecsToJiffies defragMaxWait) = false
  split : ∃ before since, received = before ++ first :: since ∧ parts.Sublist since ∧
    ∀ other ∈ since, other.fn ≠ 0

/-- The data is that of an MSDU received in full: the last fragment, and only it, has the
more-fragments bit clear. -/
def Reassembled (kernel : Kernel) (received : List Fragment) (data : List UInt8) : Prop :=
  ∃ first parts, Gathered kernel received first parts ∧ data = assemble first parts ∧
    data.length ≤ defragMaxPayloadSize ∧
    ∃ front last, first :: parts = front ++ [last] ∧ last.morefrag = false ∧
      ∀ part ∈ front, part.morefrag = true

/-- The fragments received for one entry. -/
def receivedFor (tid : Fin 9) (received : List Fragment) : List Fragment :=
  received.filter fun fragment => decide (fragment.tid = tid)

/-! ## One fragment -/

/-- What a successful append adds. -/
theorem amlFragSkbAppend_some {data added room : List UInt8} {frags : Frags}
    (appended : amlFragSkbAppend data frags room = .ok (some added)) :
    added = data ++ (if data = [] then frags.bytes else frags.bytes.drop 14) ∧
      added.length ≤ defragMaxPayloadSize := by
  simp only [amlFragSkbAppend] at appended
  generalize offset_eq : (if data = [] then 0 else 14) = offset at appended
  split at appended
  · split at appended <;> cases appended
  · rename_i held
    split at appended
    · cases appended
    · rename_i fits
      have copied : (amlFragsCopy frags offset (frags.len - offset)).getD room =
          frags.bytes.drop offset := by
        rw [amlFragsCopy_of_le (by omega), Option.getD_some, List.take_of_length_le]
        rw [List.length_drop, frags.bytes_length]
      rw [copied] at appended
      cases appended
      constructor
      · rw [← offset_eq]
        split <;> rfl
      · rw [List.length_append, List.length_drop, frags.bytes_length]
        omega

variable {kernel : Kernel} {received : List Fragment} {rhdExt first : Fragment}
  {parts : List Fragment}

theorem Gathered.length_le (gathered : Gathered kernel received first parts) :
    parts.length ≤ 15 := by
  by_contra long
  have member : 16 ∈ List.range' 1 parts.length := List.mem_range'_1.mpr (by omega)
  rw [← gathered.numbered] at member
  obtain ⟨part, _, sixteen⟩ := List.mem_map.mp member
  have := part.fn.isLt
  omega

/-- Receiving a fragment that is not a first one leaves the gathered ones gathered. -/
theorem Gathered.receive (gathered : Gathered kernel received first parts)
    (later : rhdExt.fn ≠ 0) : Gathered kernel (received ++ [rhdExt]) first parts where
  first_fn := gathered.first_fn
  numbered := gathered.numbered
  same_sn := gathered.same_sn
  in_time := gathered.in_time
  split := by
    obtain ⟨before, since, received_eq, sublist, others⟩ := gathered.split
    refine ⟨before, since ++ [rhdExt], by rw [received_eq, List.append_assoc, List.cons_append],
      sublist.trans (List.sublist_append_left since _), ?_⟩
    intro other member
    rcases List.mem_append.mp member with early | last
    · exact others other early
    · rw [List.mem_singleton.mp last]
      exact later

/-- The next fragment is gathered. -/
theorem Gathered.concat (gathered : Gathered kernel received first parts)
    (fn : rhdExt.fn.val = parts.length + 1) (sn : rhdExt.sn = first.sn)
    (in_time : timeAfter rhdExt.now (first.now + kernel.usecsToJiffies defragMaxWait) = false) :
    Gathered kernel (received ++ [rhdExt]) first (parts ++ [rhdExt]) where
  first_fn := gathered.first_fn
  numbered := by
    rw [List.map_append, gathered.numbered, List.map_singleton, fn, List.length_append,
      List.length_singleton, List.range'_1_concat, Nat.add_comm]
  same_sn := by
    intro part member
    rcases List.mem_append.mp member with early | last
    · exact gathered.same_sn part early
    · rw [List.mem_singleton.mp last, sn]
  in_time := by
    intro part member
    rcases List.mem_append.mp member with early | last
    · exact gathered.in_time part early
    · rw [List.mem_singleton.mp last, in_time]
  split := by
    obtain ⟨before, since, received_eq, sublist, others⟩ := gathered.split
    refine ⟨before, since ++ [rhdExt], by rw [received_eq, List.append_assoc, List.cons_append],
      sublist.append (List.Sublist.refl _), ?_⟩
    intro other member
    rcases List.mem_append.mp member with early | last
    · exact others other early
    · rw [List.mem_singleton.mp last]
      intro zero
      rw [zero] at fn
      simp at fn

/-- The data of a buffer is that of the fragments gathered so far, all with more to come. -/
structure Pending (kernel : Kernel) (received : List Fragment) (skb : FragSkb) (first : Fragment)
    (parts : List Fragment) : Prop extends Gathered kernel received first parts where
  sn : skb.sn = first.sn
  fn : skb.fn.val = (parts.length + 1) % 16
  deadline : skb.deadline = first.now + kernel.usecsToJiffies defragMaxWait
  data : skb.data = assemble first parts
  more : ∀ part ∈ first :: parts, part.morefrag = true

/-- What an entry holds, if it holds data. -/
def Holds (kernel : Kernel) (received : List Fragment) (entry : Option FragSkb) : Prop :=
  ∀ skb, entry = some skb → skb.data ≠ [] → ∃ first parts, Pending kernel received skb first parts

/-- A buffer to which the fragment just received is the right one to append. -/
structure Ready (kernel : Kernel) (received : List Fragment) (skb : FragSkb)
    (rhdExt first : Fragment)
    (parts : List Fragment) : Prop extends Gathered kernel received first parts where
  sn : skb.sn = first.sn
  fn : (skb.fn + 1).val = (parts.length + 1) % 16
  deadline : skb.deadline = first.now + kernel.usecsToJiffies defragMaxWait
  data : assemble first parts =
    skb.data ++ (if skb.data = [] then rhdExt.frags.bytes else rhdExt.frags.bytes.drop 14)
  more : ∃ front, first :: parts = front ++ [rhdExt] ∧ ∀ part ∈ front, part.morefrag = true

/-- Appending the right fragment keeps what the entry holds or completes the MSDU. -/
theorem Ready.append {skb : FragSkb} {entry : Option FragSkb} {msdu : Option (List UInt8)}
    (ready : Ready kernel received skb rhdExt first parts)
    (ran : defragAppend skb rhdExt = .ok (entry, msdu)) :
    Holds kernel received entry ∧ ∀ data, msdu = some data → Reassembled kernel received data := by
  obtain ⟨front, fragments, more⟩ := ready.more
  rw [defragAppend] at ran
  split at ran
  · cases ran
  · cases ran
    constructor
    · intro trimmed same held
      cases same
      exact absurd rfl held
    · intro data none_eq
      cases none_eq
  · rename_i data appended
    obtain ⟨data_eq, fits⟩ := amlFragSkbAppend_some appended
    rw [← ready.data] at data_eq
    split at ran
    · rename_i morefrag
      cases ran
      constructor
      · intro skb' same _
        cases same
        refine ⟨first, parts, ready.toGathered, ready.sn, ready.fn, ready.deadline, data_eq, ?_⟩
        intro part member
        rw [fragments] at member
        rcases List.mem_append.mp member with early | last
        · exact more part early
        · rw [List.mem_singleton.mp last, morefrag]
      · intro data none_eq
        cases none_eq
    · rename_i finished
      cases ran
      constructor
      · intro skb' none_eq
        cases none_eq
      · intro data' same
        cases same
        exact ⟨first, parts, ready.toGathered, data_eq, fits, front, rhdExt, fragments,
          by simpa using finished, more⟩

/-- A first fragment is the right one for an empty buffer. -/
theorem ready_first (fn : rhdExt.fn = 0) :
    Ready kernel (received ++ [rhdExt])
      ⟨[], rhdExt.now + kernel.usecsToJiffies defragMaxWait, rhdExt.sn, 0⟩ rhdExt rhdExt [] where
  first_fn := fn
  numbered := rfl
  same_sn := by simp
  in_time := by simp
  split := ⟨received, [], rfl, List.Sublist.refl [], by simp⟩
  sn := rfl
  fn := rfl
  deadline := rfl
  data := by simp [assemble]
  more := ⟨[], rfl, by simp⟩

/-- The fragment expected is the right one for the data it continues. -/
theorem Pending.ready {skb : FragSkb} (pending : Pending kernel received skb first parts)
    (held : skb.data ≠ []) (fresh : defragStale skb rhdExt = false) (fn : skb.fn = rhdExt.fn)
    (later : rhdExt.fn ≠ 0) :
    Ready kernel (received ++ [rhdExt]) skb rhdExt first (parts ++ [rhdExt]) := by
  have length_le := pending.length_le
  have fn_eq : rhdExt.fn.val = parts.length + 1 := by
    have fn_mod := pending.fn
    rw [fn] at fn_mod
    have nonzero : rhdExt.fn.val ≠ 0 := fun zero => later (Fin.ext zero)
    omega
  simp only [defragStale, held, ne_eq, not_false_eq_true, decide_true, Bool.true_and,
    Bool.or_eq_false_iff, decide_eq_false_iff_not, not_not] at fresh
  obtain ⟨sn, in_time⟩ := fresh
  refine { pending.toGathered.concat fn_eq (sn ▸ pending.sn) (pending.deadline ▸ in_time) with
    sn := pending.sn, fn := ?fn, deadline := pending.deadline, data := ?data, more := ?more }
  case fn =>
    rw [fn, Fin.val_add, fn_eq, List.length_append, List.length_singleton]
    rfl
  case data =>
    rw [if_neg held, pending.data, assemble, assemble, List.flatMap_append, List.append_assoc,
      List.flatMap_singleton]
  case more => exact ⟨first :: parts, rfl, pending.more⟩

/-- The fragment is not a first one that reaches a buffer which still holds data of its number. -/
def NoRestart (entry : Option FragSkb) (rhdExt : Fragment) : Prop :=
  rhdExt.fn = 0 → ∀ skb, entry = some skb → skb.data ≠ [] → defragStale skb rhdExt = true

/-- A fragment keeps what its entry holds, and the MSDU returned, if any, is reassembled. -/
theorem amlDefragHandle_holds {entry entry' : Option FragSkb} {msdu : Option (List UInt8)}
    (holds : Holds kernel received entry) (clear : NoRestart entry rhdExt)
    (ran : amlDefragHandle kernel entry rhdExt = .ok (entry', msdu)) :
    Holds kernel (received ++ [rhdExt]) entry' ∧
      ∀ data, msdu = some data → Reassembled kernel (received ++ [rhdExt]) data := by
  have idle : ∀ entry, Holds kernel (received ++ [rhdExt]) entry →
      Holds kernel (received ++ [rhdExt]) entry ∧
        ∀ data, none = some data → Reassembled kernel (received ++ [rhdExt]) data :=
    fun entry holds => ⟨holds, fun data none_eq => by cases none_eq⟩
  have vacant : Holds kernel (received ++ [rhdExt]) none := fun skb none_eq => by cases none_eq
  simp only [amlDefragHandle] at ran
  cases entry with
  | none =>
      simp only [Option.map_none] at ran
      split at ran
      · rename_i fn
        split at ran
        · exact (ready_first fn).append ran
        · cases ran
          exact idle none vacant
      · cases ran
        exact idle none vacant
  | some skb =>
      simp only [Option.map_some] at ran
      split at ran
      · rename_i fn
        have empty : (if defragStale skb rhdExt then skb.trim else skb).data = [] := by
          by_cases held : skb.data = []
          · split
            · rfl
            · exact held
          · rw [clear fn skb rfl held]
            rfl
        rw [empty] at ran
        exact (ready_first fn).append ran
      · rename_i later
        cases stale : defragStale skb rhdExt with
        | true =>
            -- the buffer is emptied and the fragment dropped
            simp only [stale, if_true, FragSkb.trim, ne_eq, not_true_eq_false, false_and,
              if_false] at ran
            cases ran
            apply idle
            intro skb' same held
            cases same
            exact absurd rfl held
        | false =>
            simp only [stale, Bool.false_eq_true, if_false] at ran
            split at ran
            · rename_i expected
              obtain ⟨first, parts, pending⟩ := holds skb rfl expected.1
              exact (pending.ready expected.1 stale expected.2 later).append ran
            · cases ran
              apply idle
              intro skb' same held
              cases same
              obtain ⟨first, parts, pending⟩ := holds skb rfl held
              exact ⟨first, parts, { pending with toGathered := pending.toGathered.receive later }⟩

/-! ## Calls that return -/

theorem amlFragSkbAppend_returns {data : List UInt8} {frags : Frags} (room : List UInt8)
    (held : data ≠ [] → 14 ≤ frags.len) :
    ∃ added, amlFragSkbAppend data frags room = .ok added := by
  rw [amlFragSkbAppend]
  dsimp only
  have enough : ¬frags.len < if data = [] then 0 else 14 := by
    split
    · exact Nat.not_lt_zero _
    · rename_i continued
      exact Nat.not_lt.mpr (held continued)
  rw [if_neg enough]
  generalize (if data = [] then 0 else 14) = offset
  split
  · exact ⟨_, rfl⟩
  · exact ⟨_, rfl⟩

theorem defragAppend_returns {skb : FragSkb} (held : skb.data ≠ [] → 14 ≤ rhdExt.frags.len) :
    ∃ result, defragAppend skb rhdExt = .ok result := by
  obtain ⟨added, appended⟩ := amlFragSkbAppend_returns rhdExt.room held
  rw [defragAppend, appended]
  cases added with
  | none => exact ⟨_, rfl⟩
  | some data =>
      dsimp only
      split
      · exact ⟨_, rfl⟩
      · exact ⟨_, rfl⟩

/-- A first fragment that restarts nothing meets no data, and the others have a header to skip. -/
theorem amlDefragHandle_returns {entry : Option FragSkb} (clear : NoRestart entry rhdExt)
    (headed : rhdExt.fn ≠ 0 → 14 ≤ rhdExt.frags.len) :
    ∃ result, amlDefragHandle kernel entry rhdExt = .ok result := by
  rw [amlDefragHandle]
  dsimp only
  split
  · rename_i first
    cases entry with
    | none =>
        dsimp only [Option.map_none]
        split
        · exact defragAppend_returns fun held => absurd rfl held
        · exact ⟨_, rfl⟩
    | some skb =>
        apply defragAppend_returns
        dsimp only
        intro held
        by_cases stale : defragStale skb rhdExt = true
        · rw [if_pos stale] at held
          exact absurd rfl held
        · rw [if_neg stale] at held
          exact absurd (clear first skb rfl held) stale
  · rename_i later
    split
    · split
      · exact defragAppend_returns fun _ => headed later
      · exact ⟨_, rfl⟩
    · exact ⟨_, rfl⟩

/-! ## Runs -/

/-- Every entry holds what its own fragments make up, and every MSDU returned was reassembled from
the fragments received for some entry by then. -/
structure Defrag.Sound (kernel : Kernel) (s : Defrag) (received : List Fragment) : Prop where
  holds : ∀ tid, Holds kernel (receivedFor tid received) (s.frags tid)
  returned : ∀ data ∈ s.returned, ∃ front tid, front <+: received ∧
    Reassembled kernel (receivedFor tid front) data

/-- No fragment of the run is a first one that reaches a buffer holding data of its number. -/
def Defrag.NoRestart (s : Defrag) (rhdExt : Fragment) : Prop :=
  Rx.NoRestart (s.frags rhdExt.tid) rhdExt

theorem receivedFor_concat_self (received : List Fragment) (rhdExt : Fragment) :
    receivedFor rhdExt.tid (received ++ [rhdExt]) =
      receivedFor rhdExt.tid received ++ [rhdExt] := by
  simp [receivedFor]

theorem receivedFor_concat_of_ne {tid : Fin 9} {rhdExt : Fragment} (other : tid ≠ rhdExt.tid)
    (received : List Fragment) :
    receivedFor tid (received ++ [rhdExt]) = receivedFor tid received := by
  simp [receivedFor, other.symm]

/-- A fragment that restarts nothing keeps the station sound. -/
theorem Defrag.Sound.step {s next : Defrag} (sound : s.Sound kernel received)
    (clear : s.NoRestart rhdExt) (stepped : s.step kernel rhdExt = .ok next) :
    next.Sound kernel (received ++ [rhdExt]) := by
  cases ran : amlDefragHandle kernel (s.frags rhdExt.tid) rhdExt with
  | error fault => simp [Defrag.step, ran, Except.map] at stepped
  | ok result =>
      obtain ⟨entry, msdu⟩ := result
      simp only [Defrag.step, ran, Except.map] at stepped
      cases stepped
      obtain ⟨holds, reassembled⟩ := amlDefragHandle_holds (sound.holds rhdExt.tid) clear ran
      rw [← receivedFor_concat_self] at holds reassembled
      constructor
      · intro tid
        by_cases here : tid = rhdExt.tid
        · subst here
          simpa only [Function.update_self] using holds
        · simpa only [Function.update_of_ne here, receivedFor_concat_of_ne here] using
            sound.holds tid
      · intro data member
        rcases List.mem_append.mp member with early | last
        · obtain ⟨front, tid, before, earlier⟩ := sound.returned data early
          exact ⟨front, tid, before.trans (List.prefix_append received _), earlier⟩
        · exact ⟨_, rhdExt.tid, List.prefix_refl _, reassembled data (Option.mem_toList.mp last)⟩

/-- The other fragments have the header that is skipped. -/
def Fragment.Headed (rhdExt : Fragment) : Prop := rhdExt.fn ≠ 0 → 14 ≤ rhdExt.frags.len

theorem Defrag.step_returns {s : Defrag} (clear : s.NoRestart rhdExt) (headed : rhdExt.Headed) :
    ∃ next, s.step kernel rhdExt = .ok next := by
  obtain ⟨result, ran⟩ := amlDefragHandle_returns clear headed
  rw [Defrag.step, ran]
  exact ⟨_, rfl⟩

theorem Defrag.run_returns {events : List Fragment} {s : Defrag}
    (guarded : Run.Guarded (Defrag.step kernel) Defrag.NoRestart events s)
    (headed : ∀ rhdExt ∈ events, rhdExt.Headed) :
    ∃ final, Run.run (Defrag.step kernel) events s = .ok final := by
  have returning : Run.Guarded (Defrag.step kernel) (fun _ rhdExt => rhdExt.Headed) events s := by
    apply Run.guarded_of_forall_split
    rintro front rhdExt back middle split -
    exact headed rhdExt (split ▸ List.mem_append_right _ List.mem_cons_self)
  have preserved : ∀ (s : Defrag) rhdExt, True → s.NoRestart rhdExt ∧ rhdExt.Headed →
      ∃ next, s.step kernel rhdExt = .ok next ∧ True := by
    rintro s rhdExt - ⟨clear, headed⟩
    obtain ⟨next, stepped⟩ := Defrag.step_returns clear headed
    exact ⟨next, stepped, trivial⟩
  obtain ⟨final, ran, -⟩ := Run.run_of_invariant preserved (guarded.and returning) trivial
  exact ⟨final, ran⟩

/-- In every run in which no first fragment reaches a buffer that still holds unexpired data of its
sequence number, every buffer returned is one first fragment and the payloads of the fragments 1, 2,
and so on after it, each once, up to the last one; and if these have their headers every call
returns. -/
theorem returned_reassembled (kernel : Kernel) {events : List Fragment}
    (guarded : Run.Guarded (Defrag.step kernel) Defrag.NoRestart events Defrag.init) :
    (∀ front back s, events = front ++ back → Run.run (Defrag.step kernel) front .init = .ok s →
      ∀ data ∈ s.returned, ∃ received tid, received <+: front ∧
        Reassembled kernel (receivedFor tid received) data) ∧
    ((∀ rhdExt ∈ events, rhdExt.Headed) →
      ∃ s, Run.run (Defrag.step kernel) events .init = .ok s) := by
  refine ⟨?_, Defrag.run_returns guarded⟩
  intro front back s split ran
  subst split
  have initial : Defrag.init.Sound kernel [] :=
    ⟨fun tid skb none_eq => (by cases none_eq), fun data member => (by cases member)⟩
  have preserved : ∀ past (s : Defrag) rhdExt next, s.Sound kernel past → s.NoRestart rhdExt →
      s.step kernel rhdExt = .ok next → next.Sound kernel (past ++ [rhdExt]) :=
    fun _ _ _ _ sound clear stepped => sound.step clear stepped
  exact (Run.history_of_run preserved guarded.of_append ran initial).returned

/-- A kernel with a tick every microsecond. -/
def mhz : Kernel := ⟨64, by omega, by omega, fun us => BitVec.ofNat 64 us⟩

/-- A fragment with one byte after its header. -/
def fragmentOf (fn : Fin 16) (morefrag : Bool) (payload : UInt8) : Fragment where
  now := 0
  tid := 0
  sn := 7
  fn
  morefrag
  frags := ⟨List.replicate 14 0 ++ [payload], none⟩
  alloc := true
  room := []

/-- Two fragments in order are returned as one buffer. -/
theorem returned_reassembled_pair :
    (∃ received tid, received <+: [fragmentOf 0 true 1, fragmentOf 1 false 2] ∧
      Reassembled mhz (receivedFor tid received) (List.replicate 14 0 ++ [1, 2])) ∧
    ∃ s, Run.run (Defrag.step mhz) [fragmentOf 0 true 1, fragmentOf 1 false 2] .init = .ok s := by
  have guarded : Run.Guarded (Defrag.step mhz) Defrag.NoRestart
      [fragmentOf 0 true 1, fragmentOf 1 false 2] .init :=
    ⟨fun _ skb none_eq => (by cases none_eq),
      fun next _ => ⟨fun first => absurd first (by decide), fun _ _ => trivial⟩⟩
  obtain ⟨reassembled, returns⟩ := returned_reassembled mhz guarded
  constructor
  · exact reassembled _ [] _ (List.append_nil _).symm rfl _ (List.mem_singleton.mpr rfl)
  · apply returns
    simp [Fragment.Headed, fragmentOf, Frags.len]

/-- A first fragment received twice contributes its payload twice. -/
theorem restart_repeats_payload :
    ∃ s, Run.run (Defrag.step mhz) [fragmentOf 0 true 1, fragmentOf 0 true 1, fragmentOf 1 false 2]
        .init = .ok s ∧
      ∃ data ∈ s.returned, data = List.replicate 14 0 ++ [1, 1, 2] ∧
        ¬∃ received tid,
          received <+: [fragmentOf 0 true 1, fragmentOf 0 true 1, fragmentOf 1 false 2] ∧
          Reassembled mhz (receivedFor tid received) data := by
  refine ⟨_, rfl, List.replicate 14 0 ++ [1, 1, 2], List.mem_singleton.mpr rfl, rfl, ?_⟩
  rintro ⟨received, tid, before, first, parts, gathered, data_eq, _, _⟩
  have known : ∀ fragment ∈ first :: parts, fragment.frags.bytes.length = 15 ∧
      fragment.fn.val ≤ 1 := by
    intro fragment member
    have arrived : fragment ∈ received := by
      obtain ⟨_, since, received_eq, sublist, _⟩ := gathered.split
      have found : fragment ∈ receivedFor tid received := by
        rw [received_eq]
        apply List.mem_append_right
        rcases List.mem_cons.mp member with rfl | part
        · exact List.mem_cons_self
        · exact List.mem_cons_of_mem _ (sublist.subset part)
      exact List.mem_of_mem_filter found
    have listed := before.subset arrived
    simp only [List.mem_cons, List.not_mem_nil, or_false] at listed
    rcases listed with rfl | rfl | rfl <;> exact ⟨rfl, by decide⟩
  have lengths := congrArg List.length data_eq
  have first_length := (known first List.mem_cons_self).1
  rw [assemble, List.length_append, List.length_append, first_length] at lengths
  match parts, gathered, known, lengths with
  | [], _, _, lengths => exact absurd lengths (by decide)
  | [part], _, known, lengths =>
      rw [List.flatMap_singleton, List.length_drop, (known part (by simp)).1] at lengths
      exact absurd lengths (by decide)
  | _ :: part :: _, gathered, known, _ =>
      have second : part.fn.val = 2 := (List.cons.inj (List.cons.inj gathered.numbered).2).1
      have := (known part (by simp)).2
      omega

end AmlW2.Rx
