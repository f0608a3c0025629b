import AmlW2.Lib.Loop
import AmlW2.Scc.Beacon
import Mathlib.Data.List.Forall2
import Mathlib.Data.List.TakeWhile

/-!
# The saved beacon and a probe response

After the channel has changed, the elements of the saved beacon are refreshed from a probe response
that the host sends.  `aml_scc_change_beacon` looks for each element by its id in the first 500
bytes of a buffer that may hold more than the probe response, and copies what it finds when the
lengths agree.  This file gives the beacons and probe responses for which it stays inside both and
takes each element from its own.
-/

namespace AmlW2.Scc

/-! ## The refresh -/

/-- `probe_rsp_save`. -/
structure ProbeRspSave where
  bytes : List UInt8
  bytes_length : bytes.length = sccFrmbufMaxlen

theorem length_save {old frame : List UInt8} (length : old.length = sccFrmbufMaxlen) :
    (frame.take sccFrmbufMaxlen ++ old.drop frame.length).length = sccFrmbufMaxlen := by
  rw [List.length_append, List.length_take, List.length_drop, length]
  omega

/-- `aml_scc_save_probe_rsp`, when a probe response is waited for: what it does not overwrite is
left. -/
def saveProbeRsp (save : ProbeRspSave) (frame : List UInt8) : ProbeRspSave :=
  ⟨frame.take sccFrmbufMaxlen ++ save.bytes.drop frame.length, length_save save.bytes_length⟩

/-- A piece of a buffer. -/
structure Span where
  pos : Nat
  len : Nat

def Span.Inside (size : Nat) (s : Span) : Prop := s.pos + s.len ≤ size

instance (size : Nat) (s : Span) : Decidable (s.Inside size) := inferInstanceAs (Decidable (_ ≤ _))

/-- The id and the length of an element. -/
def header (p : Nat) : Span := ⟨varOffset + p, 2⟩

/-- The locals of the loop, with the pieces of the beacon and of the probe response that were read
and written. -/
structure Refresh where
  offset : Nat
  /-- `scc_bcn_buf`. -/
  buf : List UInt8
  bcn : List Span
  probe : List Span

/-- The length of `probe_rsp_save` that is searched. -/
abbrev probeLen : Nat := 500

/-- `memcpy` into a buffer. -/
def copyTo (buf : List UInt8) (pos : Nat) (data : List UInt8) : List UInt8 :=
  buf.take pos ++ data ++ buf.drop (pos + data.length)

/-- The part of a pass for an element other than the TIM and the SSID. -/
def Refresh.copyIe (save : List UInt8) (s : Refresh) (eId eLen : UInt8) : Refresh :=
  let found := getIeAddr save probeLen eId
  let s := { s with probe := s.probe ++ found.visits.map header }
  match found.found with
  | none => s
  | some p =>
      let src := varOffset + p
      if save.getD (src + 1) 0 = eLen then
        { s with
          buf := copyTo s.buf s.offset ((save.drop src).take (eLen.toNat + 2))
          bcn := s.bcn ++ [⟨s.offset, eLen.toNat + 2⟩]
          probe := s.probe ++ [⟨src, eLen.toNat + 2⟩] }
      else s

/-- One pass of the loop. -/
def Refresh.pass (save : List UInt8) (s : Refresh) : Refresh :=
  let eId := s.buf.getD s.offset 0
  let eLen := s.buf.getD (s.offset + 1) 0
  let s := { s with bcn := s.bcn ++ [(⟨s.offset, 2⟩ : Span)] }
  let s := if eId ≠ wlanEidTim ∧ eId ≠ wlanEidSsid then s.copyIe save eId eLen else s
  { s with offset := s.offset + (eLen.toNat + 2) }

/-- The loop over the elements. -/
def refreshLoop (save : List UInt8) (bcnLen : Nat) : Loop Refresh where
  goes s := decide (s.offset < bcnLen)
  pass := Refresh.pass save

/-- The loop begins at the SSID, and the byte before it is cleared. -/
def refreshStart (bcnSave : List UInt8) (found : Element.Search) (p : Nat) : Refresh where
  offset := varOffset + p
  buf := bcnSave.set (varOffset + p - 1) 0
  bcn := found.visits.map header ++ [⟨varOffset + p - 1, 1⟩]
  probe := []

/-- `aml_scc_change_beacon`, with the bytes of the saved beacon: what is left by as many passes of
the loop as the beacon has bytes, unless the function returns before the loop. -/
def changeBeacon (ap allocated : Bool) (bcnSave : List UInt8) (save : ProbeRspSave) :
    Option Refresh :=
  if ap = true ∧ allocated = true then
    let found := getIeAddr bcnSave bcnSave.length wlanEidSsid
    found.found.map fun p =>
      (refreshLoop save.bytes bcnSave.length).after bcnSave.length (refreshStart bcnSave found p)
  else none

/-! ## What a refresh is -/

/-- What tells apart elements of one id: the OUI and the type, or the id of an extension. -/
def kind (e : Element) : List UInt8 :=
  if e.tag = wlanEidVendorSpecific then e.body.take 4
  else if e.tag = wlanEidExtension then e.body.take 1
  else []

/-- An id occurs several times in the beacon or in the probe response. -/
def Repeated (es ps : List Element) (tag : UInt8) : Prop :=
  2 ≤ es.countP (·.tag = tag) ∨ 2 ≤ ps.countP (·.tag = tag)

/-- An element of the probe response is the one of an element of the beacon. -/
def Corresponds (es ps : List Element) (e p : Element) : Prop :=
  p ∈ ps ∧ p.tag = e.tag ∧ (Repeated es ps e.tag → kind p = kind e)

/-- An element of the beacon keeps its content or takes that of its own in the probe response; the
TIM and the SSID are kept. -/
def Sourced (es ps : List Element) (e : Element) (body : List UInt8) : Prop :=
  body = e.body ∨
    e.tag ≠ wlanEidTim ∧ e.tag ≠ wlanEidSsid ∧ ∃ p, Corresponds es ps e p ∧ body = p.body

/-- An element keeps its id and its length. -/
def RefreshedAs (es ps : List Element) (e e' : Element) : Prop :=
  e'.tag = e.tag ∧ e'.body.length = e.body.length ∧ Sourced es ps e e'.body

/-- The elements keep their order. -/
def Refreshes (es ps es' : List Element) : Prop := List.Forall₂ (RefreshedAs es ps) es es'

/-- The loop has ended, all that it read and wrote is inside the beacon and the probe response, and
the beacon is as it was, but for a capability byte and the elements that are refreshed. -/
structure Beacon.Refreshed (b : Beacon) (f : Frame) (save : List UInt8) (r : Refresh) : Prop where
  ended : (refreshLoop save b.bytes.length).goes r = false
  bcn : ∀ s ∈ r.bcn, s.Inside b.bytes.length
  probe : ∀ s ∈ r.probe, s.Inside f.bytes.length
  bytes : ∃ fixed es, r.buf = fixed ++ Element.wire es ∧ fixed.length = varOffset ∧
    fixed.set (varOffset - 1) 0 = b.fixed.set (varOffset - 1) 0 ∧ Refreshes b.ies f.ies es

/-! ## What a pass does -/

/-- What is found is a complete element. -/
theorem found_drop {buf : List UInt8} {len : Nat} {eid : UInt8} {p : Nat}
    (found : (getIeAddr buf len eid).found = some p) :
    ∃ l body after, buf.drop (varOffset + p) = eid :: l :: (body ++ after) ∧
      body.length = l.toNat := by
  obtain ⟨before, l, body, after, split, rfl, fits⟩ := Element.found_spec found
  refine ⟨l, body, after ++ (buf.drop varOffset).drop (len - varOffset), ?_, fits⟩
  have whole := List.take_append_drop (len - varOffset) (buf.drop varOffset)
  rw [← List.drop_drop]
  generalize buf.drop varOffset = ies at split whole ⊢
  rw [split, List.append_assoc] at whole
  calc
    ies.drop before.length =
        (before ++ (eid :: l :: (body ++ after) ++ ies.drop (len - varOffset))).drop
          before.length := by rw [whole]
    _ = eid :: l :: (body ++ (after ++ ies.drop (len - varOffset))) := by simp

/-- What is copied onto the body of an element. -/
def copied (save : List UInt8) (e : Element) : Option (List UInt8) :=
  (getIeAddr save probeLen e.tag).found.bind fun p =>
    if save.getD (varOffset + p + 1) 0 = UInt8.ofNat e.body.length then
      some ((save.drop (varOffset + p + 2)).take e.body.length)
    else none

theorem getD_of_drop {buf rest : List UInt8} {p : Nat} {t l : UInt8}
    (split : buf.drop p = t :: l :: rest) : buf.getD (p + 1) 0 = l := by
  rw [List.getD_eq_getElem?_getD, ← List.getElem?_drop, split]
  rfl

theorem length_copied {save body : List UInt8} {e : Element} (copy : copied save e = some body) :
    body.length = e.body.length := by
  obtain ⟨p, found, copy⟩ := Option.bind_eq_some_iff.mp copy
  obtain ⟨l, body', after, split, fits⟩ := found_drop found
  rw [getD_of_drop split] at copy
  split at copy
  · rename_i same
    cases copy
    have lengths : body'.length = e.body.length := by
      rw [fits, same, Element.toNat_length]
    rw [← List.drop_drop, split]
    simp [lengths]
  · cases copy

/-- An element is looked for in the probe response. -/
def Sought (e : Element) : Prop := e.tag ≠ wlanEidTim ∧ e.tag ≠ wlanEidSsid

instance (e : Element) : Decidable (Sought e) := inferInstanceAs (Decidable (_ ∧ _))

/-- The body of an element after its pass. -/
def passBody (save : List UInt8) (e : Element) : List UInt8 :=
  if Sought e then (copied save e).getD e.body else e.body

theorem length_passBody (save : List UInt8) (e : Element) :
    (passBody save e).length = e.body.length := by
  rw [passBody]
  split
  · cases copy : copied save e with
    | none => rfl
    | some body => exact length_copied copy
  · rfl

theorem passBody_fits (save : List UInt8) (e : Element) : (passBody save e).length < 256 :=
  Element.length_lt_of_eq (length_passBody save e) e.fits

/-- An element after its pass. -/
def passElement (save : List UInt8) (e : Element) : Element :=
  ⟨e.tag, passBody save e, passBody_fits save e⟩

theorem bytes_passElement (save : List UInt8) (e : Element) :
    (passElement save e).bytes = e.tag :: UInt8.ofNat e.body.length :: passBody save e := by
  simp [Element.bytes, passElement, length_passBody]

theorem passElement_of_body {save : List UInt8} {e : Element} (same : passBody save e = e.body) :
    passElement save e = e :=
  Element.ext rfl same

theorem size_passElement (save : List UInt8) (e : Element) :
    (passElement save e).size = e.size := by
  rw [Element.size, passElement, length_passBody, Element.size]

/-- What is read of the probe response for an element. -/
def passReads (save : List UInt8) (e : Element) : List Span :=
  if Sought e then
    (getIeAddr save probeLen e.tag).visits.map header ++
      (getIeAddr save probeLen e.tag).found.toList.flatMap fun p =>
        if (copied save e).isSome then [⟨varOffset + p, e.size⟩] else []
  else []

theorem copyTo_append {done old rest data : List UInt8} (length : data.length = old.length) :
    copyTo (done ++ (old ++ rest)) done.length data = done ++ (data ++ rest) := by
  simp [copyTo, length]

/-- What `copyIe` does at an element that is looked for. -/
theorem copyIe_spec (save done rest : List UInt8) {e : Element} (sought : Sought e)
    (bcn probe : List Span) :
    ∃ more : List Span, (∀ s ∈ more, s.Inside (done.length + e.size)) ∧
      Refresh.copyIe save ⟨done.length, done ++ (e.bytes ++ rest), bcn, probe⟩ e.tag
          (UInt8.ofNat e.body.length) =
        ⟨done.length, done ++ ((passElement save e).bytes ++ rest), bcn ++ more,
          probe ++ passReads save e⟩ := by
  have unchanged (none : copied save e = none) : passElement save e = e := by
    apply passElement_of_body
    rw [passBody, if_pos sought, none, Option.getD_none]
  rw [Refresh.copyIe, passReads, if_pos sought]
  cases found : (getIeAddr save probeLen e.tag).found with
  | none =>
      have none : copied save e = none := by rw [copied, found, Option.bind_none]
      refine ⟨[], by simp, ?_⟩
      simp [unchanged none]
  | some p =>
      by_cases same : save.getD (varOffset + p + 1) 0 = UInt8.ofNat e.body.length
      · have some : copied save e =
            some ((save.drop (varOffset + p + 2)).take e.body.length) := by
          rw [copied, found, Option.bind_some, if_pos same]
        obtain ⟨l, body, after, split, fits⟩ := found_drop found
        have data : (save.drop (varOffset + p)).take (e.body.length + 2) =
            (passElement save e).bytes := by
          have lengths : l = UInt8.ofNat e.body.length := (getD_of_drop split).symm.trans same
          have behind : save.drop (varOffset + p + 2) = body ++ after := by
            rw [← List.drop_drop, split]
            rfl
          rw [bytes_passElement, passBody, if_pos sought, some, Option.getD_some, behind, split,
            lengths]
          rfl
        have sizes : (passElement save e).bytes.length = e.bytes.length := size_passElement save e
        refine ⟨[⟨done.length, e.size⟩], by simp [Span.Inside], ?_⟩
        simp only [same, if_true, Element.toNat_length, data, copyTo_append sizes, some]
        simp [Element.size]
      · have none : copied save e = none := by rw [copied, found, Option.bind_some, if_neg same]
        refine ⟨[], by simp, ?_⟩
        simp only [same, if_false, none, unchanged none]
        simp

/-- A pass at an element. -/
theorem pass_spec (save done rest : List UInt8) (e : Element) (bcn probe : List Span) :
    ∃ more : List Span, (∀ s ∈ more, s.Inside (done.length + e.size)) ∧
      Refresh.pass save ⟨done.length, done ++ (e.bytes ++ rest), bcn, probe⟩ =
        ⟨done.length + e.size, done ++ ((passElement save e).bytes ++ rest), bcn ++ more,
          probe ++ passReads save e⟩ := by
  have eId : (done ++ (e.bytes ++ rest)).getD done.length 0 = e.tag := by
    simp [Element.bytes, List.getD_eq_getElem?_getD]
  have eLen : (done ++ (e.bytes ++ rest)).getD (done.length + 1) 0 =
      UInt8.ofNat e.body.length := by
    simp [Element.bytes, List.getD_eq_getElem?_getD]
  have front : Span.Inside (done.length + e.size) ⟨done.length, 2⟩ :=
    Nat.add_le_add_left (Nat.le_add_left 2 _) _
  simp only [Refresh.pass, eId, eLen, Element.toNat_length]
  by_cases sought : Sought e
  · obtain ⟨more, inside, copy⟩ :=
      copyIe_spec save done rest sought (bcn ++ [⟨done.length, 2⟩]) probe
    refine ⟨⟨done.length, 2⟩ :: more, List.forall_mem_cons.mpr ⟨front, inside⟩, ?_⟩
    rw [if_pos (show e.tag ≠ wlanEidTim ∧ e.tag ≠ wlanEidSsid from sought), copy]
    simp [Element.size]
  · have unchanged : passElement save e = e := passElement_of_body (if_neg sought)
    refine ⟨[⟨done.length, 2⟩], List.forall_mem_singleton.mpr front, ?_⟩
    rw [if_neg (show ¬(e.tag ≠ wlanEidTim ∧ e.tag ≠ wlanEidSsid) from sought), unchanged, passReads,
      if_neg sought, List.append_nil]
    rfl

/-- The loop, from an element on. -/
theorem refreshLoop_after (save : List UInt8) (rest : List Element) (done : List UInt8)
    (bcn probe : List Span) {bcnLen n : Nat} (enough : rest.length ≤ n)
    (total : done.length + (Element.wire rest).length = bcnLen) :
    ∃ more : List Span, (∀ s ∈ more, s.Inside bcnLen) ∧
      (refreshLoop save bcnLen).after n ⟨done.length, done ++ Element.wire rest, bcn, probe⟩ =
        ⟨bcnLen, done ++ Element.wire (rest.map (passElement save)), bcn ++ more,
          probe ++ rest.flatMap (passReads save)⟩ := by
  induction rest generalizing done bcn probe n with
  | nil =>
      obtain rfl : done.length = bcnLen := total
      have stopped (buf : List UInt8) :
          (refreshLoop save done.length).goes ⟨done.length, buf, bcn, probe⟩ = false :=
        decide_eq_false (Nat.lt_irrefl _)
      refine ⟨[], by simp, ?_⟩
      rw [Loop.after_stopped (stopped _)]
      simp
  | cons e rest induction =>
      cases n with
      | zero => cases enough
      | succ n =>
          rw [Element.wire_cons, List.length_append, Element.length_bytes] at total
          have two : 2 ≤ e.size := Nat.le_add_left 2 _
          have going (buf : List UInt8) :
              (refreshLoop save bcnLen).goes ⟨done.length, buf, bcn, probe⟩ = true :=
            decide_eq_true (show done.length < bcnLen by omega)
          obtain ⟨first, inside, pass⟩ := pass_spec save done (Element.wire rest) e bcn probe
          have longer : (done ++ (passElement save e).bytes).length = done.length + e.size := by
            rw [List.length_append, Element.length_bytes, size_passElement]
          obtain ⟨more, all, run⟩ := induction (done ++ (passElement save e).bytes) (bcn ++ first)
            (probe ++ passReads save e) (Nat.le_of_succ_le_succ enough) (by omega)
          refine ⟨first ++ more, List.forall_mem_append.mpr ⟨fun s member => ?_, all⟩, ?_⟩
          · exact (inside s member).trans (by omega)
          · rw [Loop.after_goes (going _), Element.wire_cons]
            rw [longer, List.append_assoc] at run
            exact (congrArg _ pass).trans (by simpa using run)

/-! ## Where the loop begins -/

/-- The elements before the SSID. -/
def beforeSsid (es : List Element) : List Element := es.takeWhile (·.tag ≠ wlanEidSsid)

/-- The SSID and the elements behind it. -/
def fromSsid (es : List Element) : List Element := es.dropWhile (·.tag ≠ wlanEidSsid)

theorem length_clearLast (body : List UInt8) :
    (body.set (body.length - 1) 0).length = body.length := List.length_set

/-- The last byte of an element is cleared. -/
def clearLast (e : Element) : Element :=
  e.mapBody (fun body => body.set (body.length - 1) 0) length_clearLast

/-- The byte before the SSID is cleared, in the last element before it. -/
def clearedBefore : List Element → List Element
  | [] => []
  | [e] => [clearLast e]
  | e :: e' :: es => e :: clearedBefore (e' :: es)

/-- The fixed part, when no element is before the SSID. -/
def clearedFixed (fixed : List UInt8) (before : List Element) : List UInt8 :=
  if before = [] then fixed.set (varOffset - 1) 0 else fixed

theorem beforeSsid_append (es : List Element) : beforeSsid es ++ fromSsid es = es :=
  List.takeWhile_append_dropWhile

theorem beforeSsid_absent (es : List Element) : ∀ e ∈ beforeSsid es, e.tag ≠ wlanEidSsid := by
  intro e member
  simpa using List.all_eq_true.mp List.all_takeWhile e member

/-- The byte is the last one of an element. -/
theorem set_clearLast (done rest : List UInt8) (e : Element) :
    (done ++ (e.bytes ++ rest)).set (done.length + e.size - 1) 0 =
      done ++ ((clearLast e).bytes ++ rest) := by
  rw [clearLast, Element.mapBody_bytes, Element.bytes, Element.size]
  cases empty : e.body with
  | nil => simp
  | cons v body =>
      have inside : body.length < (v :: body).length := Nat.lt_succ_self _
      simpa using
        Element.set_body_append done rest e.tag (UInt8.ofNat (v :: body).length) inside 0

theorem set_clearedBefore (done rest : List UInt8) (e : Element) (es : List Element) :
    (done ++ (Element.wire (e :: es) ++ rest)).set
        (done.length + (Element.wire (e :: es)).length - 1) 0 =
      done ++ (Element.wire (clearedBefore (e :: es)) ++ rest) := by
  induction es generalizing done e with
  | nil => simpa [clearedBefore] using set_clearLast done rest e
  | cons e' es induction =>
      have later := induction (done ++ e.bytes) e'
      rw [clearedBefore, Element.wire_cons e, Element.wire_cons e]
      simpa [Nat.add_assoc] using later

theorem length_clearedBefore (es : List Element) :
    (Element.wire (clearedBefore es)).length = (Element.wire es).length := by
  apply Element.length_wire_congr
  induction es using clearedBefore.induct with
  | case1 => rfl
  | case2 e => simp [clearedBefore, clearLast, Element.mapBody_size]
  | case3 e e' es induction => simp [clearedBefore, induction]

theorem getIeAddr_frame (f : Frame) (eid : UInt8) :
    getIeAddr f.bytes f.bytes.length eid =
      Element.search eid ((Element.wire f.ies ++ []).take (Element.wire f.ies).length) := by
  rw [getIeAddr, f.length_bytes, Nat.add_sub_cancel_left, Frame.bytes, ← f.fixed_length,
    List.drop_left, List.append_nil]

theorem ssid_missing {f : Frame} (missing : fromSsid f.ies = []) :
    (getIeAddr f.bytes f.bytes.length wlanEidSsid).found = none := by
  have absent : ∀ e ∈ f.ies, e.tag ≠ wlanEidSsid := by
    have all := beforeSsid_append f.ies
    rw [missing, List.append_nil] at all
    exact all ▸ beforeSsid_absent f.ies
  rw [getIeAddr_frame, Element.found_take_wire_append _ _ absent (Nat.le_refl _)]
  simp

theorem ssid_found {f : Frame} {ssid : Element} {after : List Element}
    (split : fromSsid f.ies = ssid :: after) :
    (getIeAddr f.bytes f.bytes.length wlanEidSsid).found =
      some (Element.wire (beforeSsid f.ies)).length := by
  have tag : ssid.tag = wlanEidSsid := by
    have first := List.head?_dropWhile_not (fun e : Element => decide (e.tag ≠ wlanEidSsid)) f.ies
    rw [fromSsid] at split
    rw [split] at first
    simpa using first
  have all := beforeSsid_append f.ies
  rw [split] at all
  rw [getIeAddr_frame, List.append_nil, List.take_length, ← all, Element.wire_append,
    Element.wire_cons, Element.found_wire_append _ _ _ (beforeSsid_absent f.ies) tag, all]

/-- What is before the SSID when the loop begins. -/
def Frame.begun (f : Frame) : List UInt8 :=
  clearedFixed f.fixed (beforeSsid f.ies) ++ Element.wire (clearedBefore (beforeSsid f.ies))

theorem start_bytes (f : Frame) :
    f.bytes.set (varOffset + (Element.wire (beforeSsid f.ies)).length - 1) 0 =
      f.begun ++ Element.wire (fromSsid f.ies) := by
  have all := congrArg Element.wire (beforeSsid_append f.ies)
  rw [Element.wire_append] at all
  rw [Frame.bytes, Frame.begun, ← all, clearedFixed, ← f.fixed_length]
  cases beforeSsid f.ies with
  | nil =>
      have room : f.fixed.length - 1 < f.fixed.length := by
        rw [f.fixed_length]
        decide
      simp [clearedBefore, List.set_append_left _ _ room]
  | cons e before =>
      rw [set_clearedBefore, if_neg (List.cons_ne_nil e before), List.append_assoc]

theorem length_clearedFixed (f : Frame) (before : List Element) :
    (clearedFixed f.fixed before).length = varOffset := by
  rw [clearedFixed]
  split
  · rw [List.length_set, f.fixed_length]
  · exact f.fixed_length

theorem length_begun (f : Frame) :
    f.begun.length = varOffset + (Element.wire (beforeSsid f.ies)).length := by
  rw [Frame.begun, List.length_append, length_clearedFixed, length_clearedBefore]

theorem length_begun_add (f : Frame) :
    f.begun.length + (Element.wire (fromSsid f.ies)).length = f.bytes.length := by
  have all := congrArg (List.length ∘ Element.wire) (beforeSsid_append f.ies)
  simp only [Function.comp_apply, Element.wire_append, List.length_append] at all
  rw [length_begun, f.length_bytes, Nat.add_assoc, all]

/-- The search for the SSID and the byte that is cleared are inside the beacon. -/
theorem start_inside (f : Frame) :
    ∀ s ∈ (getIeAddr f.bytes f.bytes.length wlanEidSsid).visits.map header ++
      [⟨varOffset + (Element.wire (beforeSsid f.ies)).length - 1, 1⟩],
      s.Inside f.bytes.length := by
  have size := f.length_bytes
  have all := length_begun_add f
  rw [length_begun] at all
  refine List.forall_mem_append.mpr ⟨fun s member => ?_, List.forall_mem_singleton.mpr ?_⟩
  · obtain ⟨p, visit, rfl⟩ := List.mem_map.mp member
    rw [getIeAddr_frame] at visit
    have inside := (Element.visits_take_wire_append f.ies [] (by simp)).mpr
      (Or.inr (Nat.lt_add_of_pos_right Nat.two_pos)) p visit
    show varOffset + p + 2 ≤ _
    omega
  · have fixed : 0 < varOffset := by decide
    show varOffset + (Element.wire (beforeSsid f.ies)).length - 1 + 1 ≤ _
    omega

theorem length_le_wire (es : List Element) : es.length ≤ (Element.wire es).length := by
  induction es with
  | nil => exact Nat.le_refl 0
  | cons e es induction =>
      rw [List.length_cons, Element.wire_cons, List.length_append, Element.length_bytes,
        Element.size]
      omega

/-- The elements when the loop has ended. -/
def refreshedIes (save : List UInt8) (es : List Element) : List Element :=
  clearedBefore (beforeSsid es) ++ (fromSsid es).map (passElement save)

/-- What is left by `aml_scc_change_beacon`. -/
theorem changeBeacon_spec {f : Frame} (save : ProbeRspSave) {ssid : Element}
    {after : List Element} (split : fromSsid f.ies = ssid :: after) :
    ∃ bcn : List Span, (∀ s ∈ bcn, s.Inside f.bytes.length) ∧
      changeBeacon true true f.bytes save =
        some ⟨f.bytes.length,
          clearedFixed f.fixed (beforeSsid f.ies) ++ Element.wire (refreshedIes save.bytes f.ies),
          bcn, (fromSsid f.ies).flatMap (passReads save.bytes)⟩ := by
  have enough : (fromSsid f.ies).length ≤ f.bytes.length := by
    have all := length_begun_add f
    have elements := length_le_wire (fromSsid f.ies)
    omega
  obtain ⟨more, inside, run⟩ := refreshLoop_after save.bytes (fromSsid f.ies) f.begun
    ((getIeAddr f.bytes f.bytes.length wlanEidSsid).visits.map header ++
      [⟨varOffset + (Element.wire (beforeSsid f.ies)).length - 1, 1⟩]) [] enough
    (length_begun_add f)
  refine ⟨_, List.forall_mem_append.mpr ⟨start_inside f, inside⟩, ?_⟩
  rw [changeBeacon, if_pos ⟨rfl, rfl⟩]
  simp only [ssid_found split, Option.map_some]
  rw [length_begun] at run
  rw [refreshStart, start_bytes, run, Frame.begun, refreshedIes, Element.wire_append,
    List.append_assoc, List.nil_append]

/-! ## What is read of the probe response -/

/-- The window is the elements of the probe response, and what was saved before. -/
theorem window_saveProbeRsp (save : ProbeRspSave) (f : Frame) :
    ∃ tail : List UInt8, probeLen - varOffset ≤ (Element.wire f.ies).length + tail.length ∧
      ((saveProbeRsp save f.bytes).bytes.drop varOffset).take (probeLen - varOffset) =
        (Element.wire f.ies ++ tail).take (probeLen - varOffset) := by
  refine ⟨save.bytes.drop f.bytes.length, ?_, ?_⟩
  · have room : probeLen ≤ sccFrmbufMaxlen := by decide
    rw [List.length_drop, save.bytes_length, f.length_bytes]
    omega
  · have front : varOffset ≤ (f.bytes.take sccFrmbufMaxlen).length := by
      have small : varOffset ≤ sccFrmbufMaxlen := by decide
      rw [List.length_take, f.length_bytes]
      omega
    have elements : (f.bytes.take sccFrmbufMaxlen).drop varOffset =
        (Element.wire f.ies).take (sccFrmbufMaxlen - varOffset) := by
      rw [List.drop_take, Frame.bytes, ← f.fixed_length, List.drop_left]
    have room : probeLen - varOffset ≤ sccFrmbufMaxlen - varOffset := by decide
    rw [saveProbeRsp, List.drop_append_of_le_length front, elements, List.take_append,
      List.take_append, List.take_take, List.length_take, Nat.min_eq_left room]
    congr 2
    omega

/-- The room for elements in the part of `probe_rsp_save` that is searched. -/
abbrev window : Nat := probeLen - varOffset

/-- The search looks at the probe response alone. -/
def InReach (ps : List Element) (tag : UInt8) : Prop :=
  (∃ p ∈ ps, p.tag = tag) ∨ window < (Element.wire ps).length + 2

theorem visits_inside_iff (save : ProbeRspSave) (f : Frame) (tag : UInt8) :
    (∀ s ∈ (getIeAddr (saveProbeRsp save f.bytes).bytes probeLen tag).visits.map header,
      s.Inside f.bytes.length) ↔ InReach f.ies tag := by
  obtain ⟨tail, enough, seen⟩ := window_saveProbeRsp save f
  rw [InReach, ← Element.visits_take_wire_append f.ies tail enough, getIeAddr, seen,
    List.forall_mem_map]
  simp only [Span.Inside, header, f.length_bytes, Nat.add_assoc, Nat.add_le_add_iff_left]

/-- What the search finds is the first element of the probe response with the id, if that ends in
the window. -/
theorem source_spec (save : ProbeRspSave) (f : Frame) {tag : UInt8} (reach : InReach f.ies tag) :
    (Element.firstWithin tag window f.ies = none ∧
        (getIeAddr (saveProbeRsp save f.bytes).bytes probeLen tag).found = none) ∨
      ∃ p s rest, Element.firstWithin tag window f.ies = some s ∧
        (getIeAddr (saveProbeRsp save f.bytes).bytes probeLen tag).found = some p ∧
        (saveProbeRsp save f.bytes).bytes.drop (varOffset + p) = s.bytes ++ rest ∧
        varOffset + p + s.size ≤ f.bytes.length := by
  obtain ⟨tail, -, seen⟩ := window_saveProbeRsp save f
  rw [getIeAddr, seen]
  obtain missed | ⟨before, s, after, split, first, -, found, within⟩ :=
    Element.found_firstWithin f.ies tail reach
  · exact Or.inl missed
  · right
    have there : ((saveProbeRsp save f.bytes).bytes.drop
        (varOffset + (Element.wire before).length)).take s.size = s.bytes := by
      have cut := congrArg (fun bytes => (bytes.drop (Element.wire before).length).take s.size) seen
      simp only [List.drop_take, List.take_take, List.drop_drop] at cut
      have short : min s.size (probeLen - varOffset - (Element.wire before).length) = s.size :=
        Nat.min_eq_left (Nat.le_sub_of_add_le' within)
      rw [short] at cut
      rw [cut, split, Element.wire_append, Element.wire_cons, List.append_assoc, List.drop_left,
        List.append_assoc, ← Element.length_bytes, List.take_left]
    refine ⟨(Element.wire before).length, s, ((saveProbeRsp save f.bytes).bytes.drop
      (varOffset + (Element.wire before).length)).drop s.size, first, found, ?_, ?_⟩
    · rw [← there, List.take_append_drop]
    · rw [f.length_bytes, split, Element.wire_append, Element.wire_cons, List.length_append,
        List.length_append, Element.length_bytes]
      omega

/-- An element is copied from the first one with its id in the window. -/
theorem copied_saveProbeRsp (save : ProbeRspSave) (f : Frame) {e : Element}
    (reach : InReach f.ies e.tag) :
    copied (saveProbeRsp save f.bytes).bytes e =
      (Element.firstWithin e.tag window f.ies).bind fun p =>
        if p.body.length = e.body.length then some p.body else none := by
  obtain ⟨none, missed⟩ | ⟨p, s, rest, first, found, there, -⟩ := source_spec save f reach
  · rw [copied, none, missed]
    rfl
  · have len : (saveProbeRsp save f.bytes).bytes.getD (varOffset + p + 1) 0 =
        UInt8.ofNat s.body.length := getD_of_drop there
    have lengths : UInt8.ofNat s.body.length = UInt8.ofNat e.body.length ↔
        s.body.length = e.body.length := by
      rw [← UInt8.toNat_inj, Element.toNat_length, Element.toNat_length]
    rw [copied, first, found, Option.bind_some, Option.bind_some, len]
    simp only [lengths]
    split
    · rename_i same
      rw [← List.drop_drop, there, ← same]
      simp [Element.bytes]
    · rfl

/-- Then what is read for the element is inside the probe response. -/
theorem passReads_inside_iff (save : ProbeRspSave) (f : Frame) {e : Element} (sought : Sought e) :
    (∀ s ∈ passReads (saveProbeRsp save f.bytes).bytes e, s.Inside f.bytes.length) ↔
      InReach f.ies e.tag := by
  rw [passReads, if_pos sought, List.forall_mem_append, visits_inside_iff]
  constructor
  · exact And.left
  · intro reach
    refine ⟨reach, ?_⟩
    have copy := copied_saveProbeRsp save f reach
    obtain ⟨none, missed⟩ | ⟨p, s, rest, first, found, -, inside⟩ := source_spec save f reach
    · rw [missed]
      simp
    · rw [first, Option.bind_some] at copy
      rw [found, copy]
      by_cases same : s.body.length = e.body.length
      · rw [Element.size] at inside
        simpa [same, Span.Inside, Element.size] using same ▸ inside
      · simp [same]

/-! ## Which beacons are refreshed -/

/-- An element of the beacon that is looked for, and the first one with its id in the window. -/
def Own (es ps : List Element) (e : Element) : Prop :=
  ∀ p ∈ Element.firstWithin e.tag window ps, p.body.length = e.body.length →
    p.body = e.body ∨ (Repeated es ps e.tag → kind p = kind e)

/-- The beacons and probe responses for which the function does what it is for. -/
structure Refreshable (es ps : List Element) : Prop where
  ssid : ∃ e ∈ es, e.tag = wlanEidSsid
  cleared : ∀ e ∈ (beforeSsid es).getLast?, Sourced es ps e (clearLast e).body
  reach : ∀ e ∈ fromSsid es, Sought e → InReach ps e.tag
  own : ∀ e ∈ fromSsid es, Sought e → Own es ps e

theorem firstWithin_spec {tag : UInt8} {w : Nat} {ps : List Element} {p : Element}
    (first : Element.firstWithin tag w ps = some p) : p ∈ ps ∧ p.tag = tag := by
  induction ps generalizing w with
  | nil => cases first
  | cons s ps induction =>
      rw [Element.firstWithin] at first
      split at first
      · cases first
      · split at first
        · rename_i same
          cases first
          exact ⟨List.mem_cons_self, same⟩
        · exact (induction first).imp_left (List.mem_cons_of_mem s)

/-- The content of a captured element with the id is that of an element's own, or not. -/
theorem sourced_iff {es ps : List Element} {e p : Element} (sought : Sought e) (member : p ∈ ps)
    (tag : p.tag = e.tag) :
    Sourced es ps e p.body ↔ p.body = e.body ∨ (Repeated es ps e.tag → kind p = kind e) := by
  constructor
  · rintro (kept | ⟨-, -, q, ⟨-, tag', own⟩, body⟩)
    · exact Or.inl kept
    · obtain rfl : p = q := Element.ext (tag.trans tag'.symm) body
      exact Or.inr own
  · rintro (kept | own)
    · exact Or.inl kept
    · exact Or.inr ⟨sought.1, sought.2, p, ⟨member, tag, own⟩, rfl⟩

/-- What a pass leaves is the element's own content. -/
theorem sourced_passBody_iff {es : List Element} {e : Element} (save : ProbeRspSave) (f : Frame)
    (reach : Sought e → InReach f.ies e.tag) :
    Sourced es f.ies e (passBody (saveProbeRsp save f.bytes).bytes e) ↔
      (Sought e → Own es f.ies e) := by
  by_cases sought : Sought e
  · rw [passBody, if_pos sought, copied_saveProbeRsp save f (reach sought), Own]
    cases first : Element.firstWithin e.tag window f.ies with
    | none => simp [Sourced]
    | some p =>
        obtain ⟨member, tag⟩ := firstWithin_spec first
        by_cases same : p.body.length = e.body.length
        · simp [same, sought, sourced_iff sought member tag]
        · simp [same, Sourced]
  · rw [passBody, if_neg sought]
    exact iff_of_true (Or.inl rfl) fun looked => absurd looked sought

theorem forall₂_clearedBefore {R : Element → Element → Prop} (refl : ∀ e, R e e)
    (before es es' : List Element) :
    List.Forall₂ R (before ++ es) (clearedBefore before ++ es') ↔
      (∀ e ∈ before.getLast?, R e (clearLast e)) ∧ List.Forall₂ R es es' := by
  induction before using clearedBefore.induct with
  | case1 => simp [clearedBefore]
  | case2 e => simp [clearedBefore]
  | case3 e e' before induction =>
      have rest : List.Forall₂ R (e :: (e' :: before ++ es))
          (e :: (clearedBefore (e' :: before) ++ es')) ↔ _ :=
        List.forall₂_cons.trans (and_iff_right (refl e))
      rw [List.getLast?_cons_cons, ← induction, ← rest]
      rfl

theorem refreshedAs_refl (es ps : List Element) (e : Element) : RefreshedAs es ps e e :=
  ⟨rfl, rfl, Or.inl rfl⟩

/-- The elements when the loop has ended are those of a refresh. -/
theorem refreshes_refreshedIes_iff {es ps : List Element} {save : List UInt8} :
    Refreshes es ps (refreshedIes save es) ↔
      (∀ e ∈ (beforeSsid es).getLast?, Sourced es ps e (clearLast e).body) ∧
        ∀ e ∈ fromSsid es, Sourced es ps e (passBody save e) := by
  have cleared (e : Element) :
      RefreshedAs es ps e (clearLast e) ↔ Sourced es ps e (clearLast e).body :=
    ⟨fun as => as.2.2, fun sourced => ⟨rfl, length_clearLast e.body, sourced⟩⟩
  have passed (e : Element) :
      RefreshedAs es ps e (passElement save e) ↔ Sourced es ps e (passBody save e) :=
    ⟨fun as => as.2.2, fun sourced => ⟨rfl, length_passBody save e, sourced⟩⟩
  calc
    Refreshes es ps (refreshedIes save es) ↔
        List.Forall₂ (RefreshedAs es ps) (beforeSsid es ++ fromSsid es) (refreshedIes save es) := by
          rw [beforeSsid_append, Refreshes]
    _ ↔ (∀ e ∈ (beforeSsid es).getLast?, RefreshedAs es ps e (clearLast e)) ∧
        List.Forall₂ (RefreshedAs es ps) (fromSsid es) ((fromSsid es).map (passElement save)) :=
          forall₂_clearedBefore (refreshedAs_refl es ps) _ _ _
    _ ↔ _ := by simp only [List.forall₂_map_right_iff, List.forall₂_same, cleared, passed]

theorem fromSsid_eq_nil_iff (es : List Element) :
    fromSsid es = [] ↔ ¬∃ e ∈ es, e.tag = wlanEidSsid := by
  simp [fromSsid, List.dropWhile_eq_nil_iff]

theorem changeBeacon_none {f : Frame} (missing : fromSsid f.ies = []) (ap allocated : Bool)
    (save : ProbeRspSave) : changeBeacon ap allocated f.bytes save = none := by
  rw [changeBeacon]
  split
  · simp only [ssid_missing missing, Option.map_none]
  · rfl

theorem changeBeacon_guard {ap allocated : Bool} {bytes : List UInt8} {save : ProbeRspSave}
    {r : Refresh} (done : changeBeacon ap allocated bytes save = some r) :
    ap = true ∧ allocated = true := by
  rw [changeBeacon] at done
  split at done
  · assumption
  · cases done

theorem clearedFixed_set (fixed : List UInt8) (before : List Element) :
    (clearedFixed fixed before).set (varOffset - 1) 0 = fixed.set (varOffset - 1) 0 := by
  rw [clearedFixed]
  split
  · rw [List.set_set]
  · rfl

/-- A beacon that is left is a refresh exactly when the loop stays inside the probe response and
takes each element from its own. -/
theorem refreshed_spec_iff {b : Beacon} {f : Frame} (save : ProbeRspSave) {bcn : List Span}
    (inside : ∀ s ∈ bcn, s.Inside b.bytes.length) :
    b.Refreshed f (saveProbeRsp save f.bytes).bytes
        ⟨b.bytes.length, clearedFixed b.fixed (beforeSsid b.ies) ++
          Element.wire (refreshedIes (saveProbeRsp save f.bytes).bytes b.ies), bcn,
          (fromSsid b.ies).flatMap (passReads (saveProbeRsp save f.bytes).bytes)⟩ ↔
      (∀ e ∈ fromSsid b.ies, Sought e → InReach f.ies e.tag) ∧
        Refreshes b.ies f.ies (refreshedIes (saveProbeRsp save f.bytes).bytes b.ies) := by
  have reads : (∀ s ∈ (fromSsid b.ies).flatMap (passReads (saveProbeRsp save f.bytes).bytes),
      s.Inside f.bytes.length) ↔ ∀ e ∈ fromSsid b.ies, Sought e → InReach f.ies e.tag := by
    rw [List.forall_mem_flatMap]
    refine forall₂_congr fun e _ => ?_
    by_cases sought : Sought e
    · rw [passReads_inside_iff save f sought]
      exact ⟨fun reach _ => reach, fun reach => reach sought⟩
    · rw [passReads, if_neg sought]
      exact iff_of_true (List.forall_mem_nil _) fun looked => absurd looked sought
  constructor
  · rintro ⟨-, -, probe, fixed, es, bytes, length, -, refreshes⟩
    obtain ⟨-, wires⟩ := List.append_inj bytes ((length_clearedFixed b.toFrame _).trans length.symm)
    exact ⟨reads.mp probe, Element.wire_inj wires ▸ refreshes⟩
  · rintro ⟨reach, refreshes⟩
    exact ⟨decide_eq_false (Nat.lt_irrefl _), inside, reads.mpr reach, _, _, rfl,
      length_clearedFixed b.toFrame _, clearedFixed_set b.fixed _, refreshes⟩

/-- A probe response is saved, and the beacon of an access point is refreshed from it. -/
theorem changeBeacon_ap_iff (b : Beacon) (f : Frame) (save : ProbeRspSave) :
    (∃ r, changeBeacon true true b.bytes (saveProbeRsp save f.bytes) = some r ∧
      b.Refreshed f (saveProbeRsp save f.bytes).bytes r) ↔ Refreshable b.ies f.ies := by
  cases split : fromSsid b.ies with
  | nil =>
      rw [changeBeacon_none split]
      refine iff_of_false (by simp) fun good => ?_
      exact (fromSsid_eq_nil_iff b.ies).mp split good.ssid
  | cons ssid after =>
      obtain ⟨bcn, inside, spec⟩ := changeBeacon_spec (saveProbeRsp save f.bytes) split
      have own (reach : ∀ e ∈ fromSsid b.ies, Sought e → InReach f.ies e.tag) :
          (∀ e ∈ fromSsid b.ies,
            Sourced b.ies f.ies e (passBody (saveProbeRsp save f.bytes).bytes e)) ↔
            ∀ e ∈ fromSsid b.ies, Sought e → Own b.ies f.ies e :=
        forall₂_congr fun e member => sourced_passBody_iff save f (reach e member)
      constructor
      · rintro ⟨r, done, refreshed⟩
        obtain rfl := Option.some.inj (spec.symm.trans done)
        obtain ⟨reach, refreshes⟩ := (refreshed_spec_iff save inside).mp refreshed
        obtain ⟨cleared, sourced⟩ := refreshes_refreshedIes_iff.mp refreshes
        have ssid : ∃ e ∈ b.ies, e.tag = wlanEidSsid := by
          by_contra missing
          rw [(fromSsid_eq_nil_iff b.ies).mpr missing] at split
          cases split
        exact ⟨ssid, cleared, reach, (own reach).mp sourced⟩
      · rintro ⟨-, cleared, reach, each⟩
        exact ⟨_, spec, (refreshed_spec_iff save inside).mpr
          ⟨reach, refreshes_refreshedIes_iff.mpr ⟨cleared, (own reach).mpr each⟩⟩⟩

/-- What `aml_scc_change_beacon` leaves is a refresh of the beacon exactly for these beacons and
probe responses. -/
theorem changeBeacon_refreshed_iff (b : Beacon) (f : Frame) (save : ProbeRspSave)
    (ap allocated : Bool) :
    (∃ r, changeBeacon ap allocated b.bytes (saveProbeRsp save f.bytes) = some r ∧
      b.Refreshed f (saveProbeRsp save f.bytes).bytes r) ↔
      ap = true ∧ allocated = true ∧ Refreshable b.ies f.ies := by
  constructor
  · rintro ⟨r, done, refreshed⟩
    obtain ⟨rfl, rfl⟩ := changeBeacon_guard done
    exact ⟨rfl, rfl, (changeBeacon_ap_iff b f save).mp ⟨r, done, refreshed⟩⟩
  · rintro ⟨rfl, rfl, refreshable⟩
    exact (changeBeacon_ap_iff b f save).mpr refreshable

/-! ## Two vendor elements of one length -/

/-- An OUI, a type and one byte. -/
def vendorBody (type : UInt8) : List UInt8 := [0x50, 0x6f, 0x9a, type, 0]

theorem vendorBody_fits (type : UInt8) : (vendorBody type).length < 256 :=
  show 5 < 256 by decide

def vendorIe (type : UInt8) : Element :=
  ⟨wlanEidVendorSpecific, vendorBody type, vendorBody_fits type⟩

theorem ssid_fits : ([] : List UInt8).length < 256 := by decide

def twoVendors : Frame where
  fixed := List.replicate varOffset 0
  ies := [⟨wlanEidSsid, [], ssid_fits⟩, vendorIe 9, vendorIe 16]
  fixed_length := List.length_replicate

theorem twoVendors_length : twoVendors.bytes.length ≤ sccFrmbufMaxlen := by decide

def noProbeRsp : ProbeRspSave := ⟨List.replicate sccFrmbufMaxlen 0, List.length_replicate⟩

/-- The second element takes the content of the first, though the probe response holds both. -/
theorem twoVendors_corrupted :
    (changeBeacon true true twoVendors.bytes (saveProbeRsp noProbeRsp twoVendors.bytes)).map
        (fun r => r.buf.drop (varOffset + 2)) =
      some ((vendorIe 9).bytes ++ (vendorIe 9).bytes) ∧
    ¬∃ r, changeBeacon true true (Beacon.mk twoVendors twoVendors_length).bytes
        (saveProbeRsp noProbeRsp twoVendors.bytes) = some r ∧
      (Beacon.mk twoVendors twoVendors_length).Refreshed twoVendors
        (saveProbeRsp noProbeRsp twoVendors.bytes).bytes r := by
  refine ⟨by decide +kernel, fun refreshed => ?_⟩
  have good := (changeBeacon_ap_iff _ twoVendors noProbeRsp).mp refreshed
  have member : vendorIe 16 ∈ fromSsid twoVendors.ies := List.mem_of_getElem? (i := 2) rfl
  have own := good.own (vendorIe 16) member (by decide) (vendorIe 9) rfl rfl
  obtain same | own := own
  · exact absurd same (by decide)
  · exact absurd (own (Or.inl (by decide))) (by decide)

end AmlW2.Scc
