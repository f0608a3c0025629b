import AmlW2.Lib.Elements
import AmlW2.Scan.Results
import Mathlib.Data.List.Chain

/-!
# Reporting the scan results

At the end of a scan `aml_sdio_rx_scanu_result_ind` reports the pending entries to cfg80211, one
after the other, and moves them to the available ones.  The reference that cfg80211 gives for an
entry is released at once; the variable that holds it outlives the turn.
-/

namespace AmlW2.Scan

variable {Channel Bss : Type}

/-! ## What the kernel provides -/

inductive Band
  | ghz2
  | ghz5
deriving DecidableEq, Repr

/-- The channels that are registered. -/
structure Wiphy (Channel : Type) where
  /-- `ieee80211_channel_to_frequency`. -/
  channelToFrequency : Nat → Band → Nat
  /-- `ieee80211_get_channel`. -/
  getChannel : Nat → Option Channel

/-- What the kernel answers in the turn of an entry. -/
structure Answer (Bss : Type) where
  /-- The microseconds since boot. -/
  timestamp : UInt64
  /-- What `cfg80211_inform_bss_frame` returns if it is called. -/
  bss : Option Bss

/-- The bytes of a memory from a position on. -/
def window (m : Memory) (pos len : Nat) : List UInt8 := (List.range len).map fun i => m (pos + i)

/-- `cfg80211_find_ie`: where the first element with the tag begins. -/
def cfg80211FindIe (m : Memory) (tag : UInt8) (ies len : Nat) : Option Nat :=
  (Element.search tag (window m ies len)).found.map (ies + ·)

/-! ## State -/

/-- An entry of `scan_res_list`, with the fields of `struct sdio_scanu_result_ind` that are read. -/
structure Entry where
  /-- Which of the entries it is. -/
  node : Nat
  /-- The address of its frame, zero for none. -/
  payload : Nat
  length : UInt16
  centerFreq : UInt16
  rssi : Int8
deriving DecidableEq

/-- A call that the turn of an entry makes. -/
inductive Call (Channel Bss : Type)
  /-- A search for a tag. -/
  | findIe (entry : Entry) (tag : UInt8) (ies len : Nat)
  /-- The SSID is printed. -/
  | print (entry : Entry) (ssid len : Nat)
  /-- `cfg80211_inform_bss_frame`, with what it returns. -/
  | inform (entry : Entry) (chan : Channel) (mgmt len : Nat) (signal : Int) (bss : Option Bss)
  /-- `cfg80211_put_bss`. -/
  | put (bss : Bss)

structure Flush (Channel Bss : Type) where
  mem : Memory
  scanResList : List Entry
  scanResAvailableList : List Entry
  /-- The variable `bss`. -/
  bss : Option Bss
  calls : List (Call Channel Bss)

/-! ## Operations -/

/-- The channel of the DS parameters. -/
def dsChannel (m : Memory) (ie len : Nat) : Option UInt8 :=
  (cfg80211FindIe m 3 ie len).bind fun tmp => if m (tmp + 1) = 1 then some (m (tmp + 2)) else none

/-- The primary channel of the HT operation. -/
def htChannel (m : Memory) (ie len : Nat) : Option UInt8 :=
  (cfg80211FindIe m 61 ie len).bind fun tmp =>
    if 22 ≤ (m (tmp + 1)).toNat then some (m (tmp + 2)) else none

/-- The end of `aml_get_freq_from_ie`, for the channel number that was found. -/
def Wiphy.channelFreq (w : Wiphy Channel) : Option UInt8 → Nat
  | none => 0
  | some number =>
      if number.toNat ≤ 14 then w.channelToFrequency number.toNat .ghz2
      else if number.toNat ≤ 177 then w.channelToFrequency number.toNat .ghz5
      else 0

/-- `aml_get_freq_from_ie`. -/
def Wiphy.getFreqFromIe (w : Wiphy Channel) (m : Memory) (ie len : Nat) : Nat :=
  w.channelFreq ((dsChannel m ie len).or (htChannel m ie len))

/-- The tags that `aml_get_freq_from_ie` searches for. -/
def tagsSearched (m : Memory) (ie len : Nat) : List UInt8 :=
  if (dsChannel m ie len).isSome then [3] else [3, 61]

/-- The frequency of an entry, or that of its descriptor if there is none. -/
def Entry.freqOr (e : Entry) (freq : Nat) : Nat := if freq = 0 then e.centerFreq.toNat else freq

/-- The payload lies in `scanres_payload_buf`, as far as it is tested. -/
def InRange (buf : Nat) (e : Entry) : Prop :=
  buf ≤ e.payload ∧ e.payload ≤ buf + payloadBufSize - 21

instance (buf : Nat) (e : Entry) : Decidable (InRange buf e) :=
  inferInstanceAs (Decidable (_ ∧ _))

/-- `u.probe_resp.variable`. -/
def Entry.ie (e : Entry) : Nat := e.payload + 36

/-- `ielen`, which is a `size_t`. -/
def Entry.ielen (e : Entry) : Nat := (e.length.toUInt64 - 36).toNat

/-- The timestamp of a frame is replaced. -/
def Entry.stamp (e : Entry) (timestamp : UInt64) (m : Memory) : Memory :=
  m.put (e.payload + 24) 8 fun i => UInt8.ofNat (timestamp.toNat / 256 ^ i)

/-- `chan`. -/
def Wiphy.chan (w : Wiphy Channel) (m : Memory) (e : Entry) : Option Channel :=
  w.getChannel (e.freqOr (w.getFreqFromIe m e.ie e.ielen))

/-- The SSID that is printed. -/
def Entry.printed (e : Entry) (m : Memory) : List (Call Channel Bss) :=
  if m e.ie = 0 ∧ e.ie + 2 + (m (e.ie + 1)).toNat < e.payload + e.length.toNat then
    [.print e (e.ie + 2) (m (e.ie + 1)).toNat]
  else []

/-- The entry is reported if its channel is known. -/
def Entry.informed (e : Entry) (chan : Option Channel) (bss : Option Bss) :
    List (Call Channel Bss) :=
  chan.toList.map fun chan => .inform e chan e.payload e.length.toNat (e.rssi.toInt * 100) bss

/-- The variable `bss` behind the report. -/
def bssAfter (chan : Option Channel) (answer bss : Option Bss) : Option Bss :=
  if chan.isSome then answer else bss

/-- The calls of a turn. -/
def Wiphy.turnCalls (w : Wiphy Channel) (m : Memory) (e : Entry) (answer bss : Option Bss) :
    List (Call Channel Bss) :=
  (tagsSearched m e.ie e.ielen).map (fun tag => .findIe e tag e.ie e.ielen) ++
    (e.printed m ++ (e.informed (w.chan m e) answer ++
      (bssAfter (w.chan m e) answer bss).toList.map .put))

/-- A turn of `aml_sdio_rx_scanu_result_ind`. -/
def Flush.turn (w : Wiphy Channel) (buf : Nat) (s : Flush Channel Bss) (e : Entry)
    (answer : Answer Bss) : Flush Channel Bss :=
  if InRange buf e then
    let mem := e.stamp answer.timestamp s.mem
    { mem
      scanResList := s.scanResList.erase e
      scanResAvailableList := s.scanResAvailableList ++ [{ e with payload := 0 }]
      bss := bssAfter (w.chan mem e) answer.bss s.bss
      calls := s.calls ++ w.turnCalls mem e answer.bss s.bss }
  else
    { s with
      scanResList := s.scanResList.erase e
      scanResAvailableList := s.scanResAvailableList ++ [e] }

/-- The turns of the entries, with what the kernel answers in each of them. -/
def flushFrom (w : Wiphy Channel) (buf : Nat) :
    List Entry → (Nat → Answer Bss) → Flush Channel Bss → Flush Channel Bss
  | [], _, s => s
  | e :: next, answers, s =>
      flushFrom w buf next (fun i => answers (i + 1)) (s.turn w buf e (answers 0))

/-- `aml_sdio_rx_scanu_result_ind`. -/
def sdioRxScanuResultInd (w : Wiphy Channel) (buf : Nat) (mem : Memory)
    (pending available : List Entry) (answers : Nat → Answer Bss) : Flush Channel Bss :=
  flushFrom w buf pending answers
    { mem, scanResList := pending, scanResAvailableList := available, bss := none, calls := [] }

/-! ## What a frame says of its channel -/

/-- The channel number that the elements of a frame give. -/
def ownNumber (ies : List UInt8) : Option UInt8 :=
  let ds := (Element.bodyOf 3 ies).bind fun body => if body.length = 1 then body.head? else none
  let ht := (Element.bodyOf 61 ies).bind fun body => if 22 ≤ body.length then body.head? else none
  ds.or ht

/-- The elements of the frame of an entry. -/
def Entry.ies (e : Entry) (m : Memory) : List UInt8 := window m e.ie (e.length.toNat - 36)

/-- The channel of an entry, by the elements of its frame or else by its descriptor. -/
def Wiphy.ownChan (w : Wiphy Channel) (e : Entry) (ies : List UInt8) : Option Channel :=
  w.getChannel (e.freqOr (w.channelFreq (ownNumber ies)))

theorem length_window (m : Memory) (pos len : Nat) : (window m pos len).length = len := by
  simp [window]

theorem getElem_window (m : Memory) (pos : Nat) {len i : Nat} (inside : i < len) :
    (window m pos len)[i]? = some (m (pos + i)) := by
  simp [window, inside]

/-- What is found in a memory begins with the length of its body, which follows. -/
theorem bodyOf_window {m : Memory} {tag : UInt8} {ie len tmp : Nat}
    (found : cfg80211FindIe m tag ie len = some tmp) :
    ∃ body, Element.bodyOf tag (window m ie len) = some body ∧
      body.length = (m (tmp + 1)).toNat ∧ (body ≠ [] → body.head? = some (m (tmp + 2))) := by
  obtain ⟨p, search, rfl⟩ := Option.map_eq_some_iff.mp found
  obtain ⟨before, l, body, after, split, rfl, fits, own⟩ := Element.bodyOf_of_found search
  have length : before.length + (2 + (body.length + after.length)) = len := by
    rw [← length_window m ie len, split]
    simp
    omega
  have len_at : m (ie + before.length + 1) = l := by
    have read := getElem_window m ie (show before.length + 1 < len by omega)
    rw [split, List.getElem?_append_right (Nat.le_add_right _ 1), Nat.add_sub_cancel_left,
      List.getElem?_cons_succ, List.getElem?_cons_zero, Option.some.injEq] at read
    exact read.symm
  refine ⟨body, own, by rw [len_at, fits], fun filled => ?_⟩
  obtain ⟨first, rest, rfl⟩ := List.exists_cons_of_ne_nil filled
  simp only [List.length_cons] at length
  have read := getElem_window m ie (show before.length + 2 < len by omega)
  rw [split, List.getElem?_append_right (Nat.le_add_right _ 2), Nat.add_sub_cancel_left,
    List.cons_append, List.getElem?_cons_succ, List.getElem?_cons_succ, List.getElem?_cons_zero]
    at read
  exact read

theorem bodyOf_window_none {m : Memory} {tag : UInt8} {ie len : Nat}
    (absent : cfg80211FindIe m tag ie len = none) :
    Element.bodyOf tag (window m ie len) = none := by
  rw [cfg80211FindIe, Option.map_eq_none_iff] at absent
  rw [Element.bodyOf, absent, Option.map_none]

/-- What is read from an element that is long enough is the beginning of its body. -/
theorem read_eq {m : Memory} {tag : UInt8} {ie len : Nat} (long : Nat → Prop) [DecidablePred long]
    (positive : ¬long 0) :
    ((cfg80211FindIe m tag ie len).bind fun tmp =>
        if long (m (tmp + 1)).toNat then some (m (tmp + 2)) else none) =
      (Element.bodyOf tag (window m ie len)).bind fun body =>
        if long body.length then body.head? else none := by
  cases found : cfg80211FindIe m tag ie len with
  | none => rw [bodyOf_window_none found, Option.bind_none, Option.bind_none]
  | some tmp =>
      obtain ⟨body, own, length, head⟩ := bodyOf_window found
      rw [own, Option.bind_some, Option.bind_some, ← length]
      split_ifs with enough
      · refine (head ?_).symm
        rintro rfl
        exact positive enough
      · rfl

/-- The channel number that is found is that of the elements. -/
theorem number_eq (m : Memory) (ie len : Nat) :
    (dsChannel m ie len).or (htChannel m ie len) = ownNumber (window m ie len) := by
  have one : ∀ b : UInt8, b = 1 ↔ b.toNat = 1 := fun b => UInt8.toNat_inj.symm
  simp only [dsChannel, htChannel, ownNumber, one]
  rw [read_eq (fun n => n = 1) (by omega), read_eq (fun n => 22 ≤ n) (by omega)]

theorem ielen_of_long {e : Entry} (long : 36 ≤ e.length.toNat) :
    e.ielen = e.length.toNat - 36 := by
  have bound := e.length.toNat_lt
  rw [Entry.ielen, UInt64.toNat_sub]
  simp
  omega

theorem ielen_of_short {e : Entry} (short : e.length.toNat < 36) : 2 ^ 63 < e.ielen := by
  rw [Entry.ielen, UInt64.toNat_sub]
  simp
  omega

/-- The channel of an entry whose frame is whole is its own. -/
theorem chan_eq (w : Wiphy Channel) {e : Entry} (long : 36 ≤ e.length.toNat) (m : Memory)
    (timestamp : UInt64) : w.chan (e.stamp timestamp m) e = w.ownChan e (e.ies m) := by
  have same : e.ies (e.stamp timestamp m) = e.ies m := by
    refine List.map_congr_left fun i _ => ?_
    exact Memory.put_of_le (by rw [Entry.ie]; omega)
  rw [Wiphy.chan, Wiphy.getFreqFromIe, number_eq, ielen_of_long long, ← Entry.ies, same,
    Wiphy.ownChan]

/-! ## What a flush should do -/

/-- An entry in range, with the elements of its frame in its turn and the answer for it. -/
structure View (Bss : Type) where
  entry : Entry
  ies : List UInt8
  answer : Option Bss

/-- The entries in range, each as it is seen in its turn. -/
def views (buf : Nat) : List Entry → (Nat → Answer Bss) → Memory → List (View Bss)
  | [], _, _ => []
  | e :: next, answers, m =>
      if InRange buf e then
        ⟨e, e.ies m, (answers 0).bss⟩ ::
          views buf next (fun i => answers (i + 1)) (e.stamp (answers 0).timestamp m)
      else views buf next (fun i => answers (i + 1)) m

def View.chan (w : Wiphy Channel) (v : View Bss) : Option Channel := w.ownChan v.entry v.ies

/-- The reference that is obtained for an entry. -/
def View.obtained (w : Wiphy Channel) (v : View Bss) : Option Bss :=
  if (v.chan w).isSome then v.answer else none

/-- The entry that is reported, and on which channel. -/
def Call.report : Call Channel Bss → Option (Entry × Option Channel)
  | .inform entry chan _ _ _ _ => some (entry, some chan)
  | _ => none

def Call.obtained : Call Channel Bss → Option Bss
  | .inform _ _ _ _ _ bss => bss
  | _ => none

def Call.released : Call Channel Bss → Option Bss
  | .put bss => some bss
  | _ => none

/-- A search stays inside the frame of the entry. -/
def Call.Inside : Call Channel Bss → Prop
  | .findIe entry _ ies len => entry.payload ≤ ies ∧ ies + len ≤ entry.payload + entry.length.toNat
  | _ => True

/-- Every entry is moved to the available ones, those in range are reported at most once and on
their own channels, what cfg80211 gives is released once, and no search leaves its frame. -/
structure Flushed (w : Wiphy Channel) (seen : List (View Bss)) (pending available : List Entry)
    (s : Flush Channel Bss) : Prop where
  emptied : s.scanResList = []
  moved : s.scanResAvailableList.map Entry.node = available.map Entry.node ++ pending.map Entry.node
  reported : (s.calls.filterMap Call.report).Sublist (seen.map fun v => (v.entry, v.chan w))
  released : (s.calls.filterMap Call.obtained).Perm (s.calls.filterMap Call.released)
  searched : ∀ c ∈ s.calls, c.Inside

/-! ## A turn -/

variable {w : Wiphy Channel} {buf : Nat}

theorem turn_lists (w : Wiphy Channel) (buf : Nat) (s : Flush Channel Bss) (e : Entry)
    (a : Answer Bss) :
    (s.turn w buf e a).scanResList = s.scanResList.erase e ∧
      (s.turn w buf e a).scanResAvailableList.map Entry.node =
        s.scanResAvailableList.map Entry.node ++ [e.node] := by
  unfold Flush.turn
  split <;> simp

/-- What is printed of an entry lies inside its frame. -/
theorem printed_inside {e : Entry} {m : Memory} {entry : Entry} {ssid len : Nat}
    (printed : Call.print entry ssid len ∈ (e.printed m : List (Call Channel Bss))) :
    entry = e ∧ e.payload ≤ ssid ∧ ssid + len < e.payload + e.length.toNat := by
  unfold Entry.printed at printed
  split at printed
  · rename_i shown
    simp only [List.mem_singleton, Call.print.injEq] at printed
    obtain ⟨rfl, rfl, rfl⟩ := printed
    obtain ⟨-, inside⟩ := shown
    refine ⟨rfl, ?_, inside⟩
    rw [Entry.ie]
    omega
  · simp at printed

/-- Of the calls of a turn, those that are no searches or prints. -/
theorem turnCalls_filterMap {β : Type} {f : Call Channel Bss → Option β}
    (search : ∀ e tag ies len, f (.findIe e tag ies len) = none)
    (print : ∀ e ssid len, f (.print e ssid len) = none) (m : Memory) (e : Entry)
    (answer bss : Option Bss) :
    (w.turnCalls m e answer bss).filterMap f =
      (w.chan m e).toList.filterMap
          (fun chan => f (.inform e chan e.payload e.length.toNat (e.rssi.toInt * 100) answer)) ++
        (bssAfter (w.chan m e) answer bss).toList.filterMap fun b => f (.put b) := by
  have searches : ((tagsSearched m e.ie e.ielen).map
      fun tag => .findIe e tag e.ie e.ielen).filterMap f = [] := by simp [search]
  have printed : (e.printed m).filterMap f = [] := by
    unfold Entry.printed
    split <;> simp [print]
  simp only [Wiphy.turnCalls, Entry.informed, List.filterMap_append, searches, printed,
    List.nil_append, List.filterMap_map, Function.comp_def]

theorem turnCalls_report (m : Memory) (e : Entry) (answer bss : Option Bss) :
    (w.turnCalls m e answer bss).filterMap Call.report =
      ((w.chan m e).map fun chan => (e, some chan)).toList := by
  rw [turnCalls_filterMap (fun _ _ _ _ => rfl) fun _ _ _ => rfl]
  cases w.chan m e <;> simp [Call.report]

theorem turnCalls_obtained (m : Memory) (e : Entry) (answer bss : Option Bss) :
    (w.turnCalls m e answer bss).filterMap Call.obtained =
      (if (w.chan m e).isSome then answer else none).toList := by
  rw [turnCalls_filterMap (fun _ _ _ _ => rfl) fun _ _ _ => rfl]
  cases w.chan m e <;> cases answer <;> simp [Call.obtained]

theorem turnCalls_released (m : Memory) (e : Entry) (answer bss : Option Bss) :
    (w.turnCalls m e answer bss).filterMap Call.released =
      (bssAfter (w.chan m e) answer bss).toList := by
  rw [turnCalls_filterMap (fun _ _ _ _ => rfl) fun _ _ _ => rfl]
  cases w.chan m e <;> simp [Call.released]

/-- The searches of a turn stay inside the frame exactly when it has the fixed fields. -/
theorem turnCalls_inside (m : Memory) (e : Entry) (answer bss : Option Bss) :
    (∀ c ∈ w.turnCalls m e answer bss, c.Inside) ↔ 36 ≤ e.length.toNat := by
  constructor
  · intro inside
    have searched : .findIe e 3 e.ie e.ielen ∈ w.turnCalls m e answer bss := by
      refine List.mem_append_left _ (List.mem_map_of_mem ?_)
      unfold tagsSearched
      split <;> simp
    have fits := (inside _ searched).2
    rw [Entry.ie] at fits
    by_contra short
    have huge := ielen_of_short (Nat.lt_of_not_le short)
    have bound := e.length.toNat_lt
    omega
  · intro long c member
    cases c with
    | findIe entry tag ies len =>
        rcases List.mem_append.mp member with searched | other
        · obtain ⟨tag', -, same⟩ := List.mem_map.mp searched
          cases same
          simp only [Call.Inside, ielen_of_long long, Entry.ie]
          omega
        · simp [Entry.informed, Entry.printed] at other
    | print => trivial
    | inform => trivial
    | put => trivial

/-! ## The whole flush -/

variable {rest : List Entry} {answers : Nat → Answer Bss} {s : Flush Channel Bss}

/-- Every entry that is pending is moved, whether it is reported or not. -/
theorem flushFrom_moved (w : Wiphy Channel) (buf : Nat) (answers : Nat → Answer Bss)
    (same : s.scanResList = rest) :
    (flushFrom w buf rest answers s).scanResList = [] ∧
      (flushFrom w buf rest answers s).scanResAvailableList.map Entry.node =
        s.scanResAvailableList.map Entry.node ++ rest.map Entry.node := by
  induction rest generalizing s answers with
  | nil => simp [flushFrom, same]
  | cons e next induction =>
      obtain ⟨left, moved⟩ := turn_lists w buf s e (answers 0)
      rw [same, List.erase_cons_head] at left
      obtain ⟨emptied, all⟩ := induction (fun i => answers (i + 1)) left
      refine ⟨emptied, ?_⟩
      rw [flushFrom, all, moved, List.map_cons, List.append_assoc, List.singleton_append]

/-- The searches stay inside the frames exactly when every frame in range has its fixed fields. -/
theorem flushFrom_inside :
    (∀ c ∈ (flushFrom w buf rest answers s).calls, c.Inside) ↔
      (∀ c ∈ s.calls, c.Inside) ∧ ∀ e ∈ rest, InRange buf e → 36 ≤ e.length.toNat := by
  induction rest generalizing s answers with
  | nil => simp [flushFrom]
  | cons e next induction =>
      rw [flushFrom, induction, List.forall_mem_cons, ← and_assoc]
      refine and_congr_left fun _ => ?_
      unfold Flush.turn
      split
      · rename_i inRange
        simp only [List.forall_mem_append, turnCalls_inside, inRange, true_imp_iff]
      · rename_i outside
        simp only [outside, false_imp_iff, and_true]

/-- Of the calls, those that a turn makes for its own entry, when the frames have their fixed
fields. -/
theorem flushFrom_filterMap {β : Type} {f : Call Channel Bss → Option β} {g : View Bss → Option β}
    (turned : ∀ (v : View Bss) (m : Memory) (bss : Option Bss), w.chan m v.entry = v.chan w →
      (w.turnCalls m v.entry v.answer bss).filterMap f = (g v).toList)
    (long : ∀ e ∈ rest, InRange buf e → 36 ≤ e.length.toNat) :
    (flushFrom w buf rest answers s).calls.filterMap f =
      s.calls.filterMap f ++ (views buf rest answers s.mem).filterMap g := by
  induction rest generalizing s answers with
  | nil => simp [flushFrom, views]
  | cons e next induction =>
      obtain ⟨first, later⟩ := List.forall_mem_cons.mp long
      rw [flushFrom, induction later, views]
      unfold Flush.turn
      split
      · rename_i inRange
        have chan := chan_eq w (first inRange) s.mem (answers 0).timestamp
        have own := turned ⟨e, e.ies s.mem, (answers 0).bss⟩ _ s.bss chan
        rw [List.filterMap_append, own, List.append_assoc, List.filterMap_cons]
        cases g ⟨e, e.ies s.mem, (answers 0).bss⟩ <;> rfl
      · rfl

/-- What is reported. -/
theorem flushFrom_report (long : ∀ e ∈ rest, InRange buf e → 36 ≤ e.length.toNat) :
    (flushFrom w buf rest answers s).calls.filterMap Call.report =
      s.calls.filterMap Call.report ++ (views buf rest answers s.mem).filterMap
        fun v => (v.chan w).map fun chan => (v.entry, some chan) := by
  refine flushFrom_filterMap (fun v m bss chan => ?_) long
  rw [turnCalls_report, chan]

/-- The references obtained. -/
theorem flushFrom_obtained (long : ∀ e ∈ rest, InRange buf e → 36 ≤ e.length.toNat) :
    (flushFrom w buf rest answers s).calls.filterMap Call.obtained =
      s.calls.filterMap Call.obtained ++
        (views buf rest answers s.mem).filterMap (View.obtained w) := by
  refine flushFrom_filterMap (fun v m bss chan => ?_) long
  rw [turnCalls_obtained, chan, View.obtained]

/-- The references released: in every turn what the variable then holds. -/
def releases (w : Wiphy Channel) : Option Bss → List (View Bss) → List Bss
  | _, [] => []
  | bss, v :: vs =>
      (bssAfter (v.chan w) v.answer bss).toList ++
        releases w (bssAfter (v.chan w) v.answer bss) vs

theorem flushFrom_released (long : ∀ e ∈ rest, InRange buf e → 36 ≤ e.length.toNat) :
    (flushFrom w buf rest answers s).calls.filterMap Call.released =
      s.calls.filterMap Call.released ++ releases w s.bss (views buf rest answers s.mem) := by
  induction rest generalizing s answers with
  | nil => simp [flushFrom, views, releases]
  | cons e next induction =>
      obtain ⟨first, later⟩ := List.forall_mem_cons.mp long
      rw [flushFrom, induction later, views]
      unfold Flush.turn
      split
      · rename_i inRange
        have chan := chan_eq w (first inRange) s.mem (answers 0).timestamp
        simp only [List.filterMap_append, turnCalls_released, chan, List.append_assoc, releases,
          View.chan]
      · rfl

/-- An entry on an unknown channel does not come next after one that gave a reference. -/
def Follows (w : Wiphy Channel) (v v' : View Bss) : Prop :=
  (v.obtained w).isSome → (v'.chan w).isSome

/-- Everything obtained is released at least once. -/
theorem obtained_sublist (bss : Option Bss) (vs : List (View Bss)) :
    (vs.filterMap (View.obtained w)).Sublist (releases w bss vs) := by
  induction vs generalizing bss with
  | nil => simp [releases]
  | cons v vs induction =>
      have later := induction (bssAfter (v.chan w) v.answer bss)
      rw [List.filterMap_cons, releases]
      unfold View.obtained bssAfter at *
      cases known : (v.chan w).isSome <;> rw [known] at later
      · simpa using later.trans (List.sublist_append_right _ _)
      · cases answer : v.answer with
        | none => simpa [answer] using later
        | some b => simpa [answer] using later.cons_cons b

/-- Each reference is released once exactly when no entry on an unknown channel finds one in the
variable. -/
theorem releases_eq_iff (bss : Option Bss) (vs : List (View Bss)) :
    vs.filterMap (View.obtained w) = releases w bss vs ↔
      (bss.isSome → ∀ v ∈ vs.head?, (v.chan w).isSome) ∧ vs.IsChain (Follows w) := by
  induction vs generalizing bss with
  | nil => simp [releases]
  | cons v vs induction =>
      rw [List.filterMap_cons, releases, List.isChain_cons]
      simp only [List.head?_cons, Option.mem_some_iff, forall_eq']
      cases known : (v.chan w).isSome with
      | false =>
          have none_obtained : v.obtained w = none := by simp [View.obtained, known]
          have kept : bssAfter (v.chan w) v.answer bss = bss := by simp [bssAfter, known]
          have free : ∀ v' ∈ vs.head?, Follows w v v' := by simp [Follows, none_obtained]
          rw [none_obtained, kept]
          cases bss with
          | none =>
              have next := induction none
              simp only [Option.isSome_none, Bool.false_eq_true, false_imp_iff, true_and] at next ⊢
              rw [Option.toList_none, List.nil_append, next]
              exact (and_iff_right free).symm
          | some b =>
              -- the reference that is left over is released once more
              have longer := (obtained_sublist (w := w) (some b) vs).length_le
              refine iff_of_false (fun same => ?_) (by simp)
              have lengths := congrArg List.length same
              simp only [Option.toList_some, List.length_append, List.length_singleton] at lengths
              omega
      | true =>
          have given : v.obtained w = v.answer := by simp [View.obtained, known]
          have taken : bssAfter (v.chan w) v.answer bss = v.answer := by simp [bssAfter, known]
          rw [given, taken]
          have next := induction v.answer
          cases answer : v.answer with
          | none =>
              rw [answer] at next
              simp [next, Follows, given, answer]
          | some b =>
              rw [answer] at next
              simp [next, Follows, given, answer]

/-- Which entries are reported, at most once each. -/
theorem filterMap_sublist_map (vs : List (View Bss)) :
    (vs.filterMap fun v => (v.chan w).map fun chan => (v.entry, some chan)).Sublist
      (vs.map fun v => (v.entry, v.chan w)) := by
  induction vs with
  | nil => simp
  | cons v vs induction =>
      rw [List.filterMap_cons, List.map_cons]
      cases known : v.chan w with
      | none => simpa [known] using induction.cons (v.entry, none)
      | some chan => simpa [known] using induction.cons_cons (v.entry, some chan)

/-- A flush does what it should exactly when every frame in range has its fixed fields, and no entry
on an unknown channel comes next after one that gave a reference. -/
theorem sdioRxScanuResultInd_flushed_iff (w : Wiphy Channel) (buf : Nat) (mem : Memory)
    (pending available : List Entry) (answers : Nat → Answer Bss) :
    Flushed w (views buf pending answers mem) pending available
        (sdioRxScanuResultInd w buf mem pending available answers) ↔
      (∀ e ∈ pending, InRange buf e → 36 ≤ e.length.toNat) ∧
        (views buf pending answers mem).IsChain (Follows w) := by
  constructor
  · intro flushed
    have long := (flushFrom_inside.mp flushed.searched).2
    refine ⟨long, ?_⟩
    have released := flushed.released
    rw [sdioRxScanuResultInd, flushFrom_obtained long, flushFrom_released long] at released
    have same := (obtained_sublist none _).eq_of_length released.length_eq
    exact ((releases_eq_iff none _).mp same).2
  · rintro ⟨long, chain⟩
    obtain ⟨emptied, moved⟩ := flushFrom_moved w buf answers
      (s := ⟨mem, pending, available, none, []⟩) rfl
    refine ⟨emptied, moved, ?_, ?_, flushFrom_inside.mpr ⟨by simp, long⟩⟩
    · rw [sdioRxScanuResultInd, flushFrom_report long]
      exact filterMap_sublist_map _
    · rw [sdioRxScanuResultInd, flushFrom_obtained long, flushFrom_released long]
      exact .of_eq ((releases_eq_iff none _).mpr ⟨by simp, chain⟩)

/-! ## The entries as a scan leaves them -/

/-- The entries and their payloads are those of a scan, whose buffer begins at an address. -/
structure Shows (buf : Nat) (s : Flush Channel Bss) (sys : Sys) : Prop where
  mem : ∀ i, s.mem (buf + i) = sys.buf i
  pending : s.scanResList.map (fun e => (e.payload, e.length.toNat)) =
    sys.pending.map fun res => (buf + res.payload, res.length)
  available : s.scanResAvailableList.length = sys.available

/-- A turn does to the entries and the buffer what the report of the first entry does. -/
theorem Shows.turn {sys sys' : Sys} {e : Entry} {a : Answer Bss} (shown : Shows buf s sys)
    (first : s.scanResList = e :: rest)
    (reported : reportFirst sys (fun i => UInt8.ofNat (a.timestamp.toNat / 256 ^ i)) = .ok sys') :
    Shows buf (s.turn w buf e a) sys' := by
  obtain ⟨mem, pending, available⟩ := shown
  cases entries : sys.pending with
  | nil =>
      rw [first, entries] at pending
      cases pending
  | cons res left =>
      rw [first, entries, List.map_cons, List.map_cons, List.cons.injEq, Prod.mk.injEq] at pending
      obtain ⟨⟨place, -⟩, left_shown⟩ := pending
      have inRange : InRange buf e ↔ ¬payloadBufSize - 21 < res.payload := by
        have size : 21 ≤ payloadBufSize := by decide
        rw [InRange, place]
        omega
      rw [reportFirst, entries] at reported
      simp only at reported
      unfold Flush.turn
      split_ifs at reported with far outside
      · cases reported
        rw [if_neg fun here => inRange.mp here far]
        exact ⟨mem, by rw [first, List.erase_cons_head, left_shown], by simp [available]⟩
      · cases reported
        rw [if_pos (inRange.mpr far)]
        refine ⟨fun i => ?_, by rw [first, List.erase_cons_head, left_shown], by simp [available]⟩
        have shifted : buf + i - (buf + res.payload + 24) = i - (res.payload + 24) := by omega
        have inside : (buf + res.payload + 24 ≤ buf + i ∧ buf + i < buf + res.payload + 24 + 8) ↔
            (res.payload + 24 ≤ i ∧ i < res.payload + 24 + 8) := by omega
        simp only [Entry.stamp, Memory.put, place, mem, inside, shifted]

/-! ## An entry on an unknown channel -/

/-- One channel is registered. -/
def oneChannel : Wiphy Nat where
  channelToFrequency number _ := 2407 + 5 * number
  getChannel freq := if freq = 2412 then some 1 else none

/-- An entry on the channel, and behind it one on another. -/
def strangeLast : List Entry :=
  [⟨0, 4096, 40, 2412, -40⟩, ⟨1, 4136, 40, 4920, -40⟩]

/-- The reference obtained for the first entry is released again in the turn of the second. -/
theorem strangeLast_not_flushed :
    ¬∀ (w : Wiphy Nat) buf mem pending available (answers : Nat → Answer Nat),
      Flushed w (views buf pending answers mem) pending available
        (sdioRxScanuResultInd w buf mem pending available answers) := by
  intro all
  have flushed := all oneChannel 4096 (fun _ => 0) strangeLast [] fun _ => ⟨0, some 7⟩
  have released := flushed.released.length_eq
  revert released
  decide +kernel

end AmlW2.Scan
