import AmlW2.Lib.Bump
import AmlW2.Lib.Memory
import AmlW2.Lib.Run
import Mathlib.Data.List.Pairwise

/-!
# Scan results

On SDIO and USB the beacons and probe responses of a scan are copied into one buffer, each behind
the one before, until they are reported.  When the end of the buffer is reached the next frame goes
to its beginning, whatever is still pending there.
-/

namespace AmlW2.Scan

/-! ## Frames -/

/-- A beacon or probe response: `skb->data`, with whatever lies behind it, and its length. -/
structure Frame where
  data : Memory
  /-- `hwvect.len`. -/
  len : UInt16

/-- `bssid` of a `struct ieee80211_mgmt`. -/
def bssidAt (m : Memory) (p : Nat) : List UInt8 := (List.range 6).map fun i => m (p + 16 + i)

def Frame.bssid (frame : Frame) : List UInt8 := bssidAt frame.data 0

theorem bssidAt_eq {m m' : Memory} {p p' n : Nat} (same : Memory.Same m p m' p' n)
    (inside : 22 ≤ n) : bssidAt m p = bssidAt m' p' := by
  refine List.map_congr_left fun i member => ?_
  have small := List.mem_range.mp member
  rw [Nat.add_assoc, Nat.add_assoc]
  exact same (16 + i) (by omega)

/-! ## State -/

/-- `SCAN_RESULTS_MAX_CNT`. -/
def scanResultsMaxCnt : Nat := 50

/-- The size of `scanres_payload_buf`. -/
def payloadBufSize : Nat := scanResultsMaxCnt * 500

/-- An entry of `scan_res_list`, with the frame it was made from. -/
structure ScanResults where
  /-- Where in the buffer its payload begins. -/
  payload : Nat
  length : Nat
  frame : Frame

structure Sys where
  /-- `scanres_payload_buf`. -/
  buf : Memory
  /-- `scanres_payload_buf_offset`. -/
  offset : Nat
  /-- `scan_res_list`. -/
  pending : List ScanResults
  /-- The length of `scan_res_available_list`. -/
  available : Nat

inductive Fault
  /-- A write behind the buffer. -/
  | overrun
deriving DecidableEq, Repr

/-! ## Operations -/

/-- `aml_scan_find_already_saved`. -/
def Sys.findAlreadySaved (s : Sys) (frame : Frame) : Bool :=
  s.pending.any fun res => bssidAt s.buf res.payload == frame.bssid

/-- Where the payload of a frame goes. -/
def Sys.place (s : Sys) (frame : Frame) : Nat :=
  if s.offset + frame.len.toNat > payloadBufSize then 0 else s.offset

/-- The payload of a frame is copied, and an entry made of it. -/
def Sys.save (s : Sys) (frame : Frame) : Sys :=
  { buf := s.buf.put (s.place frame) frame.len.toNat frame.data
    offset := s.place frame + frame.len.toNat
    pending := s.pending ++ [⟨s.place frame, frame.len.toNat, frame⟩]
    available := s.available - 1 }

/-- `aml_scan_rx` during a scan. -/
def scanRx (s : Sys) (frame : Frame) : Except Fault Sys :=
  if s.findAlreadySaved frame then .ok s
  else if s.available = 0 then .ok s
  else if s.place frame + frame.len.toNat > payloadBufSize then .error .overrun
  else .ok (s.save frame)

/-- A turn of `aml_sdio_rx_scanu_result_ind`: the first entry is reported, with the time of its
arrival in its payload. -/
def reportFirst (s : Sys) (timestamp : Memory) : Except Fault Sys :=
  match s.pending with
  | [] => .ok s
  | res :: pending =>
      let s := { s with pending, available := s.available + 1 }
      if payloadBufSize - 21 < res.payload then .ok s
      else if res.payload + 32 > payloadBufSize then .error .overrun
      else .ok { s with buf := s.buf.put (res.payload + 24) 8 timestamp }

/-- `aml_scan_clear_scan_res`. -/
def clearScanRes (s : Sys) : Sys :=
  { s with pending := [], available := s.available + s.pending.length }

inductive Event
  | rx (frame : Frame)
  | report (timestamp : Memory)
  | clear

def Sys.step (s : Sys) : Event → Except Fault Sys
  | .rx frame => scanRx s frame
  | .report timestamp => reportFirst s timestamp
  | .clear => .ok (clearScanRes s)

/-- `aml_scan_results_list_init`. -/
def Sys.init (buf : Memory) : Sys where
  buf
  offset := 0
  pending := []
  available := scanResultsMaxCnt

/-! ## Payloads -/

/-- Where the payload of an entry lies. -/
def ScanResults.extent (res : ScanResults) : Bump.Extent := ⟨res.payload, res.length⟩

/-- Two payloads lie in different places. -/
def ScanResults.Apart (res res' : ScanResults) : Prop :=
  res.payload + res.length ≤ res'.payload ∨ res'.payload + res'.length ≤ res.payload

/-- Every pending payload is that of its frame, no two of them overlap, and a frame is found exactly
when one with its BSSID is pending. -/
structure Intact (s : Sys) : Prop where
  payload : ∀ res ∈ s.pending,
    res.length = res.frame.len.toNat ∧
      Memory.Same s.buf res.payload res.frame.data 0 res.length
  apart : s.pending.Pairwise ScanResults.Apart
  found : ∀ frame, s.findAlreadySaved frame = true ↔
    ∃ res ∈ s.pending, res.frame.bssid = frame.bssid

/-- A frame that is saved holds a BSSID, and there is room for it up to the oldest pending payload.
An entry without the timestamp is reported only where the timestamp fits the buffer, and not when
the next one lies right behind it. -/
def Roomy (s : Sys) : Event → Prop
  | .rx frame =>
      s.findAlreadySaved frame = false → s.available ≠ 0 →
        22 ≤ frame.len.toNat ∧
          Bump.Room payloadBufSize s.offset frame.len.toNat (s.pending.map ScanResults.extent)
  | .report _ =>
      ∀ first ∈ s.pending.head?, 32 ≤ first.length ∨ payloadBufSize - 21 < first.payload ∨
        first.payload + 32 ≤ payloadBufSize ∧
          ∀ next ∈ s.pending.tail.head?, next.payload < first.payload
  | .clear => True

/-- A frame with all the fields up to the timestamp. -/
def Event.Whole : Event → Prop
  | .rx frame => 32 ≤ frame.len.toNat
  | _ => True

/-- The pending payloads are those of their frames, and they lie as they were handed out. -/
structure Stored (s : Sys) : Prop where
  payload : ∀ res ∈ s.pending,
    res.length = res.frame.len.toNat ∧
      Memory.Same s.buf res.payload res.frame.data 0 res.length
  holds : ∀ res ∈ s.pending, 22 ≤ res.length
  laid : Bump.Laid payloadBufSize s.offset (s.pending.map ScanResults.extent)

theorem extent_mem {s : Sys} {res : ScanResults} (member : res ∈ s.pending) :
    res.extent ∈ s.pending.map ScanResults.extent :=
  List.mem_map_of_mem member

theorem pairwise_extent {pending : List ScanResults} :
    (pending.map ScanResults.extent).Pairwise Bump.Extent.Apart ↔
      pending.Pairwise ScanResults.Apart :=
  List.pairwise_map

theorem Stored.apart {s : Sys} (stored : Stored s) : s.pending.Pairwise ScanResults.Apart :=
  pairwise_extent.mp stored.laid.pairwise

/-- What is read as the BSSID of an entry is that of its frame. -/
theorem Stored.found {s : Sys} (stored : Stored s) (frame : Frame) :
    s.findAlreadySaved frame = true ↔ ∃ res ∈ s.pending, res.frame.bssid = frame.bssid := by
  have own : ∀ res ∈ s.pending, bssidAt s.buf res.payload = res.frame.bssid := fun res member =>
    bssidAt_eq (stored.payload res member).2 (stored.holds res member)
  simp only [Sys.findAlreadySaved, List.any_eq_true, beq_iff_eq]
  constructor
  · rintro ⟨res, member, same⟩
    exact ⟨res, member, (own res member).symm.trans same⟩
  · rintro ⟨res, member, same⟩
    exact ⟨res, member, (own res member).trans same⟩

theorem Stored.intact {s : Sys} (stored : Stored s) : Intact s :=
  ⟨stored.payload, stored.apart, stored.found⟩

theorem Stored.positive {s : Sys} (stored : Stored s) :
    ∀ x ∈ s.pending.map ScanResults.extent, 0 < x.length := by
  intro x member
  obtain ⟨res, pending, rfl⟩ := List.mem_map.mp member
  have long := stored.holds res pending
  exact (Nat.zero_lt_succ 21).trans_le long

/-- What is written elsewhere leaves a payload alone. -/
theorem same_put {m : Memory} {res : ScanResults} {p n : Nat} {data : Memory}
    (same : Memory.Same m res.payload res.frame.data 0 res.length)
    (elsewhere : res.payload + res.length ≤ p ∨ p + n ≤ res.payload) :
    Memory.Same (m.put p n data) res.payload res.frame.data 0 res.length := by
  rcases elsewhere with before | after
  · exact (Memory.same_put_of_le before).trans same
  · exact (Memory.same_put_of_ge after).trans same

theorem save_extents (s : Sys) (frame : Frame) :
    (s.save frame).pending.map ScanResults.extent =
      s.pending.map ScanResults.extent ++ [⟨s.place frame, frame.len.toNat⟩] := by
  rw [Sys.save, List.map_append, List.map_singleton, ScanResults.extent]

/-- A frame that there is room for is saved apart from the pending payloads. -/
theorem Stored.save {s : Sys} {frame : Frame} (stored : Stored s) (long : 22 ≤ frame.len.toNat)
    (room : Bump.Room payloadBufSize s.offset frame.len.toNat
      (s.pending.map ScanResults.extent)) : Stored (s.save frame) := by
  have either : ∀ res, res ∈ (s.save frame).pending →
      res ∈ s.pending ∨ res = ⟨s.place frame, frame.len.toNat, frame⟩ := fun res member =>
    (List.mem_append.mp member).imp_right List.mem_singleton.mp
  have laid : Bump.Laid payloadBufSize (s.save frame).offset
      ((s.save frame).pending.map ScanResults.extent) := by
    rw [save_extents]
    exact stored.laid.push stored.positive room
  have apart := pairwise_extent.mp laid.pairwise
  refine ⟨fun res member => ?_, fun res member => ?_, laid⟩
  · rcases either res member with before | rfl
    · obtain ⟨length, same⟩ := stored.payload res before
      have free := (List.pairwise_append.mp apart).2.2 res before _ List.mem_cons_self
      exact ⟨length, same_put same free⟩
    · refine ⟨rfl, fun i small => ?_⟩
      rw [Nat.zero_add]
      exact Memory.put_inside small
  · rcases either res member with before | rfl
    · exact stored.holds res before
    · exact long

/-- A frame that there is room for is not written behind the buffer. -/
theorem Stored.fits {s : Sys} {frame : Frame} (stored : Stored s)
    (room : Bump.Room payloadBufSize s.offset frame.len.toNat
      (s.pending.map ScanResults.extent)) : s.place frame + frame.len.toNat ≤ payloadBufSize :=
  (stored.laid.push stored.positive room).inside (List.mem_append_right _ List.mem_cons_self)

theorem Stored.rx {s : Sys} {frame : Frame} (stored : Stored s) (roomy : Roomy s (.rx frame)) :
    ∃ s', scanRx s frame = .ok s' ∧ Stored s' := by
  rw [scanRx]
  split_ifs with found none outside
  · exact ⟨s, rfl, stored⟩
  · exact ⟨s, rfl, stored⟩
  · have room := (roomy (Bool.eq_false_iff.mpr found) none).2
    exact absurd (stored.fits room) (Nat.not_le.mpr outside)
  · obtain ⟨long, room⟩ := roomy (Bool.eq_false_iff.mpr found) none
    exact ⟨_, rfl, stored.save long room⟩

/-- Once the first entry is gone the others are still stored, whatever is written where none of
them lies. -/
theorem Stored.rest {s : Sys} {res : ScanResults} {rest : List ScanResults} (stored : Stored s)
    (pending : s.pending = res :: rest) {buf : Memory}
    (kept : ∀ res' ∈ rest, Memory.Same buf res'.payload s.buf res'.payload res'.length) :
    Stored { s with buf, pending := rest, available := s.available + 1 } := by
  have later : ∀ res' ∈ rest, res' ∈ s.pending := fun res' member =>
    pending ▸ List.mem_cons_of_mem res member
  refine ⟨fun res' member => ?_, fun res' member => stored.holds res' (later res' member), ?_⟩
  · obtain ⟨length, same⟩ := stored.payload res' (later res' member)
    exact ⟨length, (kept res' member).trans same⟩
  · have laid := stored.laid
    rw [pending] at laid
    exact laid.tail

/-- The time of its arrival is written over no payload but that of the first entry. -/
theorem Stored.report {s : Sys} (stored : Stored s) (timestamp : Memory)
    (roomy : Roomy s (.report timestamp)) :
    ∃ s', reportFirst s timestamp = .ok s' ∧ Stored s' := by
  rw [reportFirst]
  cases pending : s.pending with
  | nil => exact ⟨s, rfl, stored⟩
  | cons res rest =>
      have first := roomy res (by rw [pending]; rfl)
      have inside := stored.laid.inside (extent_mem (pending ▸ List.mem_cons_self))
      have ordered := List.pairwise_cons.mp (pending ▸ stored.apart)
      simp only [ScanResults.extent, Bump.Extent.stop] at inside
      simp only
      split_ifs with last outside
      · exact ⟨_, rfl, stored.rest pending fun res' _ => Memory.Same.refl _ _ _⟩
      · omega
      · refine ⟨_, rfl, stored.rest pending fun res' member => ?_⟩
        rcases first with whole | behind | ⟨-, anew⟩
        · rcases ordered.1 res' member with before | after
          · exact Memory.same_put_of_ge (by omega)
          · exact Memory.same_put_of_le (by omega)
        · omega
        · cases rest with
          | nil => cases member
          | cons next rest =>
              have laid := stored.laid
              rw [pending] at laid anew
              have before := laid.before (anew next rfl) res'.extent (List.mem_map_of_mem member)
              simp only [ScanResults.extent, Bump.Extent.stop] at before
              exact Memory.same_put_of_le (by omega)

theorem stored_nil {s : Sys} (empty : s.pending = []) (inside : s.offset ≤ payloadBufSize) :
    Stored s := by
  have none : ∀ res, res ∉ s.pending := fun res member => by rw [empty] at member; cases member
  refine ⟨fun res member => (none res member).elim, fun res member => (none res member).elim, ?_⟩
  rw [empty]
  exact Bump.laid_nil inside

theorem Stored.step {s : Sys} (stored : Stored s) (e : Event) (roomy : Roomy s e) :
    ∃ s', s.step e = .ok s' ∧ Stored s' := by
  cases e with
  | rx frame => exact stored.rx roomy
  | report timestamp => exact stored.report timestamp roomy
  | clear => exact ⟨_, rfl, stored_nil rfl stored.laid.offset_le⟩

theorem init_stored (buf : Memory) : Stored (Sys.init buf) := stored_nil rfl (Nat.zero_le _)

/-! ## Saved over a pending one -/

/-- Every pending entry has room for the timestamp. -/
def Timed (s : Sys) : Prop := ∀ res ∈ s.pending, 32 ≤ res.length

theorem Timed.step {s s' : Sys} {e : Event} (timed : Timed s) (whole : e.Whole)
    (stepped : s.step e = .ok s') : Timed s' := by
  cases e with
  | rx frame =>
      rw [Sys.step, scanRx] at stepped
      split_ifs at stepped
      · cases stepped
        exact timed
      · cases stepped
        exact timed
      · cases stepped
        intro res member
        rcases List.mem_append.mp member with before | new
        · exact timed res before
        · rw [List.mem_singleton.mp new]
          exact whole
  | report timestamp =>
      rw [Sys.step, reportFirst] at stepped
      cases pending : s.pending with
      | nil =>
          rw [pending] at stepped
          cases stepped
          exact timed
      | cons res rest =>
          have later : ∀ res' ∈ rest, 32 ≤ res'.length := fun res' member =>
            timed res' (pending ▸ List.mem_cons_of_mem res member)
          rw [pending] at stepped
          simp only at stepped
          split_ifs at stepped
          · cases stepped
            exact later
          · cases stepped
            exact later
  | clear =>
      cases stepped
      exact fun res member => by cases member

/-- A whole frame that there is no room for is written behind the buffer or over a pending
payload. -/
theorem Stored.sharp {s s' : Sys} {e : Event} (stored : Stored s) (timed : Timed s)
    (whole : e.Whole) (cramped : ¬Roomy s e) (stepped : s.step e = .ok s') : ¬Intact s' := by
  intro intact
  cases e with
  | rx frame =>
      simp only [Roomy, not_forall] at cramped
      obtain ⟨new, some, cramped⟩ := cramped
      rw [Sys.step, scanRx, new, if_neg Bool.false_ne_true, if_neg some] at stepped
      split_ifs at stepped with outside
      cases stepped
      have long : 32 ≤ frame.len.toNat := whole
      refine cramped ⟨by omega, ?_⟩
      apply stored.laid.room stored.positive (by omega) (Nat.not_lt.mp outside)
      intro x member
      obtain ⟨res, pending, rfl⟩ := List.mem_map.mp member
      exact (List.pairwise_append.mp intact.apart).2.2 res pending _ List.mem_cons_self
  | report timestamp =>
      exact cramped fun first member => Or.inl (timed first (List.mem_of_mem_head? member))
  | clear => exact cramped trivial

/-- The pending payloads are intact as long as there is room for every frame that is saved.  When
all frames have the fields up to the timestamp, they are intact only then. -/
theorem intact_iff_roomy (buf : Memory) (events : List Event) :
    (Run.Guarded Sys.step Roomy events (Sys.init buf) →
      Run.Safe Sys.step Intact events (Sys.init buf)) ∧
    ((∀ e ∈ events, e.Whole) →
      (Run.Safe Sys.step Intact events (Sys.init buf) ↔
        Run.Guarded Sys.step Roomy events (Sys.init buf))) := by
  constructor
  · intro guarded
    exact guarded.safe (fun s e stored => stored.step e) (fun s stored => stored.intact)
      (init_stored buf)
  · intro whole
    have within : Run.Guarded Sys.step (fun _ e => e.Whole) events (Sys.init buf) := by
      refine Run.guarded_of_forall_split fun front e back _ split _ => whole e ?_
      rw [split]
      exact List.mem_append_right front List.mem_cons_self
    have preserved : ∀ s (e : Event), Stored s ∧ Timed s → e.Whole → Roomy s e →
        ∃ s', s.step e = .ok s' ∧ (Stored s' ∧ Timed s') := by
      intro s e held whole roomy
      obtain ⟨s', stepped, stored⟩ := held.1.step e roomy
      exact ⟨s', stepped, stored, held.2.step whole stepped⟩
    exact Run.safe_iff_guarded_within preserved (fun s held => held.1.intact)
      (fun s e s' held => held.1.sharp held.2) within
      ⟨init_stored buf, fun res member => by cases member⟩

/-! ## A short and a long scan -/

/-- The beacon of an access point, told apart by its BSSID. -/
def beacon (ap : UInt8) (len : UInt16) : Frame where
  data := fun i => if i = 16 then ap else 0
  len

/-- `Roomy`, as a test. -/
def roomy (s : Sys) : Event → Bool
  | .rx frame =>
      s.findAlreadySaved frame || decide (22 ≤ frame.len.toNat ∧
        Bump.Room payloadBufSize s.offset frame.len.toNat (s.pending.map ScanResults.extent))
  | .report _ =>
      decide (∀ first ∈ s.pending.head?, 32 ≤ first.length ∨ payloadBufSize - 21 < first.payload ∨
        first.payload + 32 ≤ payloadBufSize ∧
          ∀ next ∈ s.pending.tail.head?, next.payload < first.payload)
  | .clear => true

theorem roomy_sound (s : Sys) (e : Event) (passed : roomy s e = true) : Roomy s e := by
  cases e with
  | rx frame =>
      intro new _
      rw [roomy, new, Bool.false_or] at passed
      exact of_decide_eq_true passed
  | report timestamp =>
      rw [roomy] at passed
      rw [Roomy]
      exact of_decide_eq_true passed
  | clear => trivial

/-- Ten access points with long beacons are heard, one of them twice.  When the first is reported,
an eleventh takes its place, and a short frame goes behind it. -/
def shortScan : List Event :=
  (List.range 10).map (fun ap => .rx (beacon (UInt8.ofNat ap) 2300)) ++
    [.rx (beacon 3 2300), .report fun _ => 7, .rx (beacon 10 2300), .report fun _ => 7,
      .rx (beacon 11 24), .clear]

theorem shortScan_intact : Run.Safe Sys.step Intact shortScan (Sys.init fun _ => 0) :=
  (intact_iff_roomy (fun _ => 0) shortScan).1 (Run.guarded_of_check roomy_sound (by decide +kernel))

/-- Eleven access points with long beacons are heard before any of them is reported. -/
def longScan : List Event := (List.range 11).map fun ap => .rx (beacon (UInt8.ofNat ap) 2300)

/-- The last of them is saved over the first. -/
theorem last_saved_over_first :
    ¬∀ buf events, Run.Safe Sys.step Intact events (Sys.init buf) := by
  intro all
  obtain ⟨s, ran, intact⟩ := all (fun _ => 0) longScan longScan [] (List.append_nil _).symm
  have ends : (Run.run Sys.step longScan (Sys.init fun _ => 0)).toOption.map
      (fun s => s.pending.map fun res => (res.payload, res.length)) =
        some ((List.range 10).map (fun k => (2300 * k, 2300)) ++ [(0, 2300)]) := by
    decide +kernel
  rw [ran] at ends
  simp only [Except.toOption, Option.map_some, Option.some.injEq] at ends
  have apart : (s.pending.map fun res => (res.payload, res.length)).Pairwise
      fun place place' => place.1 + place.2 ≤ place'.1 ∨ place'.1 + place'.2 ≤ place.1 :=
    List.pairwise_map.mpr intact.apart
  rw [ends] at apart
  revert apart
  decide

end AmlW2.Scan
