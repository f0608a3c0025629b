import AmlW2.Lib.Elements
import AmlW2.Lib.Layout
import AmlW2.Lib.Memory

/-!
# The channels a peer is offered

A P2P action frame lists the channels of the device, by operating class.  While the station is
connected, `aml_change_p2p_chanlist` of `aml_p2p.c` leaves only the channel of the station in the
frames that are sent: it writes a shorter list over the old one and moves what follows to the front.
-/

namespace AmlW2.P2p

open Layout

/-- `enum nl80211_band`, as far as there are channels. -/
inductive Band where
  | ghz2
  | ghz5
  deriving DecidableEq, Repr

/-- The position of the length of the list, which is at the front of an attribute. -/
def attrLen (buf : Memory) (offset : Nat) : Nat := buf.u16 (offset + 1)

/-- The loop of `aml_get_p2p_ie_offset`, a round for each byte of the frame at most. -/
def p2pIeFrom (buf : Memory) (frameLen : Nat) : Nat → Nat → Nat
  | 0, _ => 0
  | rounds + 1, offset =>
      if offset < frameLen then
        if buf offset = 221 ∧ buf (offset + 2) = 0x50 ∧ buf (offset + 3) = 0x6f ∧
            buf (offset + 4) = 0x9a ∧ buf (offset + 5) = 0x09 then offset
        else p2pIeFrom buf frameLen rounds (offset + ((buf (offset + 1)).toNat + 2))
      else 0

/-- `aml_get_p2p_ie_offset` -/
def amlGetP2pIeOffset (buf : Memory) (frameLen elementOffset : Nat) : Nat :=
  p2pIeFrom buf frameLen frameLen elementOffset

/-- The loop of `aml_change_p2p_chanlist` that looks for `P2P_ATTR_CHANNEL_LIST`. -/
def chanListFrom (buf : Memory) (frameLen : Nat) : Nat → Nat → Option Nat
  | 0, _ => none
  | rounds + 1, offset =>
      if offset < frameLen then
        if buf offset = 11 then some offset
        else chanListFrom buf frameLen rounds (offset + (attrLen buf offset + 3))
      else none

/-- What the rewriting of a list depends on: the channel to leave, its band, whether the peer has
channels of 5 GHz, and `ieee80211_operating_class_to_band`. -/
structure Target where
  chanNo : UInt8
  band : Band
  peer5gSupport : Bool
  operatingClassToBand : UInt8 → Option Band

/-- The classes that are left as they are: those of 2.4 GHz for a peer that has no other. -/
def Target.leaves (target : Target) (operClass : UInt8) : Bool :=
  decide (target.band = .ghz5) && !target.peer5gSupport &&
    decide (target.operatingClassToBand operClass = some .ghz2)

/-- The loop of `aml_scc_p2p_rewrite_chan_list`, over the attribute at `offset` whose length is
`len`, with what is in `chan_list_buf`; nothing comes of a list that it refuses.  The search for the
channel in a class, which the source has three times, is one here. -/
def rewriteFrom (target : Target) (buf : Memory) (offset len : Nat) :
    Nat → Nat → List UInt8 → Option (List UInt8)
  | 0, _, kept => some kept
  | rounds + 1, idx, kept =>
      if idx < len then
        let operClass := buf (offset + idx)
        let operClassLen := (buf (offset + idx + 1)).toNat
        if len + 3 < idx + 2 + operClassLen then none
        else if target.leaves operClass then
          if 200 < kept.length + operClassLen + 2 then none
          else rewriteFrom target buf offset len rounds (idx + (operClassLen + 2))
            (kept ++ load buf (offset + idx) (operClassLen + 2))
        else if target.chanNo ∈ load buf (offset + idx + 2) operClassLen then
          if 200 < kept.length + 3 then none
          else rewriteFrom target buf offset len rounds (idx + (operClassLen + 2))
            (kept ++ [operClass, 1, target.chanNo])
        else rewriteFrom target buf offset len rounds (idx + (operClassLen + 2)) kept
      else some kept

/-- `aml_scc_p2p_rewrite_chan_list`: the new list that it writes behind the country, none if it
returns 0. -/
def amlSccP2pRewriteChanList (target : Target) (buf : Memory) (offset : Nat) : List UInt8 :=
  let len := attrLen buf offset
  if len < 6 ∨ 200 < len then [] else (rewriteFrom target buf offset len len 6 []).getD []

/-- `aml_change_p2p_chanlist`: the buffer and `*frame_len_offset` after the call. -/
def amlChangeP2pChanlist (target : Target) (buf : Memory) (frameLen frameLenOffset : Nat) :
    Memory × Nat :=
  let element := amlGetP2pIeOffset buf frameLen 32
  if element = 0 then (buf, frameLenOffset)
  else
    match chanListFrom buf frameLen frameLen (element + 6) with
    | none => (buf, frameLenOffset)
    | some offset =>
        let kept := amlSccP2pRewriteChanList target buf offset
        if kept = [] then (buf, frameLenOffset)
        else
          let ieLen := attrLen buf offset
          let after := kept.length + 3
          let lenDiff := ieLen - after
          let buf := store buf (offset + 6) kept
          let buf := store buf (offset + 1) [UInt8.ofNat after, UInt8.ofNat (after / 256)]
          let buf := store buf (element + 1) [buf (element + 1) - UInt8.ofNat lenDiff]
          let rest := load buf (offset + ieLen + 3) (frameLen - offset - ieLen - 3)
          (store buf (offset + 3 + after) rest, lenDiff)

/-! ## Frames -/

/-- The channels of an operating class. -/
structure Entry where
  operClass : UInt8
  chans : List UInt8
  deriving DecidableEq, Repr

def Entry.bytes (e : Entry) : List UInt8 := e.operClass :: UInt8.ofNat e.chans.length :: e.chans

/-- A class with channels, no more than its length can tell. -/
def Entry.Formed (e : Entry) : Prop := e.chans ≠ [] ∧ e.chans.length < 256

def entriesBytes (es : List Entry) : List UInt8 := es.flatMap Entry.bytes

/-- An attribute of the P2P element. -/
structure Attr where
  id : UInt8
  body : List UInt8
  deriving DecidableEq, Repr

def Attr.bytes (a : Attr) : List UInt8 :=
  a.id :: UInt8.ofNat a.body.length :: UInt8.ofNat (a.body.length / 256) :: a.body

def attrsBytes (as : List Attr) : List UInt8 := as.flatMap Attr.bytes

/-- A P2P public action frame, around the entries of its channel list. -/
structure Frame where
  header : List UInt8
  before : List Element
  first : List Attr
  country : List UInt8
  entries : List Entry
  others : List Attr
  after : List Element

/-- The channel list attribute. -/
def Frame.chanList (f : Frame) : Attr := ⟨11, f.country ++ entriesBytes f.entries⟩

/-- The attributes of the P2P element, one after the other. -/
def Frame.attrs (f : Frame) : List UInt8 :=
  attrsBytes f.first ++ (f.chanList.bytes ++ attrsBytes f.others)

def Frame.bytes (f : Frame) : List UInt8 :=
  f.header ++ (Element.wire f.before ++
    ([221, UInt8.ofNat (4 + f.attrs.length), 0x50, 0x6f, 0x9a, 0x09] ++
      (f.attrs ++ Element.wire f.after)))

/-- The element is no P2P element: it has another tag, or it names another vendor or type. -/
def NotP2p (e : Element) : Prop :=
  e.tag ≠ 221 ∨ 4 ≤ e.body.length ∧ e.body.take 4 ≠ [0x50, 0x6f, 0x9a, 0x09]

/-- The headers and every list have their sizes, and the P2P element and its channel list are the
first of their kind. -/
structure Frame.Formed (f : Frame) : Prop where
  header : f.header.length = 32
  before : ∀ e ∈ f.before, NotP2p e
  first : ∀ a ∈ f.first, a.id ≠ 11
  country : f.country.length = 3
  entries : ∀ e ∈ f.entries, e.Formed
  fits : 4 + f.attrs.length < 256

/-- What the frame should say of a class. -/
def Target.reduce (target : Target) (e : Entry) : Option Entry :=
  if target.leaves e.operClass then some e
  else if target.chanNo ∈ e.chans then some ⟨e.operClass, [target.chanNo]⟩
  else none

/-- The frame with the list reduced. -/
def Frame.reduced (f : Frame) (target : Target) : Frame :=
  { f with entries := f.entries.filterMap target.reduce }

/-- The call leaves, at the front of the buffer and as long as it reports, the frame with the list
reduced. -/
def Reduces (target : Target) (f : Frame) (buf : Memory) : Prop :=
  let result := amlChangeP2pChanlist target buf f.bytes.length 0
  load result.1 0 (f.bytes.length - result.2) = (f.reduced target).bytes ∧
    (f.reduced target).Formed

/-! ## Finding the list -/

/-- The test for the P2P element fails on every other element. -/
theorem notP2p_test {buf : Memory} {pos : Nat} {e : Element} (other : NotP2p e)
    (held : Holds buf pos e.bytes) :
    ¬(buf pos = 221 ∧ buf (pos + 2) = 0x50 ∧ buf (pos + 3) = 0x6f ∧ buf (pos + 4) = 0x9a ∧
      buf (pos + 5) = 0x09) := by
  rintro ⟨tag, vendor, vendor', vendor'', type⟩
  rw [Element.bytes, holds_cons, holds_cons] at held
  obtain ⟨same, -, body⟩ := held
  rcases other with other | ⟨long, other⟩
  · exact other (same.symm.trans tag)
  · apply other
    obtain ⟨a, b, c, d, tail, split⟩ : ∃ a b c d tail, e.body = a :: b :: c :: d :: tail := by
      revert long
      rcases e.body with _ | ⟨a, _ | ⟨b, _ | ⟨c, _ | ⟨d, tail⟩⟩⟩⟩
      all_goals simp
    rw [split, holds_cons, holds_cons, holds_cons, holds_cons] at body
    obtain ⟨first, second, third, fourth, -⟩ := body
    rw [split, ← first, ← second, ← third, ← fourth]
    simp only [Nat.add_assoc, Nat.reduceAdd, vendor, vendor', vendor'', type, List.take_succ_cons,
      List.take_zero]

/-- The other elements are passed, and the P2P element is found. -/
theorem p2pIeFrom_elements {buf : Memory} {frameLen rounds pos : Nat} {len : UInt8}
    {es : List Element} (others : ∀ e ∈ es, NotP2p e)
    (held : Holds buf pos (Element.wire es ++ [221, len, 0x50, 0x6f, 0x9a, 0x09]))
    (inside : pos + (Element.wire es).length < frameLen) (enough : es.length < rounds) :
    p2pIeFrom buf frameLen rounds pos = pos + (Element.wire es).length := by
  induction es generalizing pos rounds with
  | nil =>
      obtain ⟨rounds, rfl⟩ := Nat.exists_eq_add_of_lt enough
      simp only [Element.wire_nil, List.nil_append, holds_cons, Nat.add_assoc, Nat.reduceAdd]
        at held
      obtain ⟨tag, -, vendor, vendor', vendor'', type, -⟩ := held
      rw [p2pIeFrom, if_pos (by simpa using inside), if_pos ⟨tag, vendor, vendor', vendor'', type⟩]
      simp
  | cons e es induction =>
      obtain ⟨rounds, rfl⟩ := Nat.exists_eq_add_of_lt enough
      rw [Element.wire_cons, List.append_assoc, holds_append] at held
      obtain ⟨here, rest⟩ := held
      have passed := notP2p_test (others e List.mem_cons_self) here
      have len : (buf (pos + 1)).toNat = e.body.length := by
        rw [Element.bytes, holds_cons, holds_cons] at here
        rw [here.2.1, Element.toNat_length]
      have size : e.bytes.length = e.body.length + 2 := rfl
      rw [Element.wire_cons, List.length_append, size] at inside ⊢
      rw [size] at rest
      rw [p2pIeFrom, if_pos (by omega), if_neg passed, len,
        induction (fun e member => others e (List.mem_cons_of_mem _ member)) rest (by omega)
          (by rw [List.length_cons]; omega)]
      omega

/-- An attribute has its length behind its identity. -/
theorem attrLen_eq {buf : Memory} {pos : Nat} {a : Attr} (held : Holds buf pos a.bytes)
    (fits : a.body.length < 65536) : attrLen buf pos = a.body.length := by
  rw [Attr.bytes, holds_cons, holds_cons, holds_cons] at held
  obtain ⟨-, low, high, -⟩ := held
  rw [attrLen, Memory.u16, low, high, UInt8.toNat_ofNat', UInt8.toNat_ofNat']
  omega

/-- The attributes before the channel list are passed, and it is found. -/
theorem chanListFrom_attrs {buf : Memory} {frameLen rounds pos : Nat} {as : List Attr}
    (others : ∀ a ∈ as, a.id ≠ 11) (fits : (attrsBytes as).length < 65536) {list : Attr}
    (same : list.id = 11) (held : Holds buf pos (attrsBytes as ++ list.bytes))
    (inside : pos + (attrsBytes as).length < frameLen) (enough : as.length < rounds) :
    chanListFrom buf frameLen rounds pos = some (pos + (attrsBytes as).length) := by
  induction as generalizing pos rounds with
  | nil =>
      obtain ⟨rounds, rfl⟩ := Nat.exists_eq_add_of_lt enough
      rw [attrsBytes, List.flatMap_nil, List.nil_append, Attr.bytes, holds_cons] at held
      rw [chanListFrom, if_pos (by simpa [attrsBytes] using inside), if_pos (held.1.trans same)]
      simp [attrsBytes]
  | cons a as induction =>
      obtain ⟨rounds, rfl⟩ := Nat.exists_eq_add_of_lt enough
      have split : attrsBytes (a :: as) = a.bytes ++ attrsBytes as := List.flatMap_cons
      have size : a.bytes.length = a.body.length + 3 := rfl
      rw [split, List.append_assoc, holds_append] at held
      rw [split, List.length_append, size] at inside fits ⊢
      obtain ⟨here, rest⟩ := held
      have len := attrLen_eq here (by omega)
      have passed : buf pos ≠ 11 := by
        rw [Attr.bytes, holds_cons] at here
        rw [here.1]
        exact others a List.mem_cons_self
      rw [size] at rest
      rw [chanListFrom, if_pos (by omega), if_neg passed, len,
        induction (fun a member => others a (List.mem_cons_of_mem _ member)) (by omega) rest
          (by omega) (by rw [List.length_cons]; omega)]
      congr 1
      omega

/-! ## Rewriting the list -/

theorem Entry.toNat_length {e : Entry} (formed : e.Formed) :
    (UInt8.ofNat e.chans.length).toNat = e.chans.length := by
  rw [UInt8.toNat_ofNat']
  exact Nat.mod_eq_of_lt formed.2

@[simp] theorem Entry.length_bytes (e : Entry) : e.bytes.length = e.chans.length + 2 := rfl

@[simp] theorem entriesBytes_nil : entriesBytes [] = [] := rfl

@[simp] theorem entriesBytes_cons (e : Entry) (es : List Entry) :
    entriesBytes (e :: es) = e.bytes ++ entriesBytes es := List.flatMap_cons

theorem entriesBytes_append (es es' : List Entry) :
    entriesBytes (es ++ es') = entriesBytes es ++ entriesBytes es' := List.flatMap_append

/-- Each class takes three bytes at least. -/
theorem length_entriesBytes_ge {es : List Entry} (formed : ∀ e ∈ es, e.Formed) :
    3 * es.length ≤ (entriesBytes es).length := by
  induction es with
  | nil => simp
  | cons e es induction =>
      have some_chan := List.length_pos_iff.mpr (formed e List.mem_cons_self).1
      have rest := induction fun e member => formed e (List.mem_cons_of_mem _ member)
      simp only [entriesBytes_cons, List.length_append, Entry.length_bytes, List.length_cons]
      omega

/-- A class that is kept takes no more room, and is well formed. -/
theorem Target.reduce_spec {target : Target} {e kept : Entry} (formed : e.Formed)
    (keeps : target.reduce e = some kept) :
    kept.Formed ∧ kept.chans.length ≤ e.chans.length := by
  unfold Target.reduce at keeps
  split_ifs at keeps
  · obtain rfl := Option.some.inj keeps
    exact ⟨formed, Nat.le_refl _⟩
  · obtain rfl := Option.some.inj keeps
    have some_chan := List.length_pos_iff.mpr formed.1
    exact ⟨⟨by simp, by simp⟩, some_chan⟩

theorem length_reduced_le (target : Target) {es : List Entry} (formed : ∀ e ∈ es, e.Formed) :
    (entriesBytes (es.filterMap target.reduce)).length ≤ (entriesBytes es).length := by
  induction es with
  | nil => simp
  | cons e es induction =>
      have rest := induction fun e member => formed e (List.mem_cons_of_mem _ member)
      cases keeps : target.reduce e with
      | none =>
          rw [List.filterMap_cons_none keeps]
          simp only [entriesBytes_cons, List.length_append]
          omega
      | some kept =>
          have smaller := (target.reduce_spec (formed e List.mem_cons_self) keeps).2
          rw [List.filterMap_cons_some keeps]
          simp only [entriesBytes_cons, List.length_append, Entry.length_bytes]
          omega

/-- The classes that the loop comes to: it compares a position behind the head of the attribute with
a length that does not count the head, and so leaves out a last class with one channel. -/
def processed : List Entry → List Entry
  | [] => []
  | e :: es => if es = [] ∧ e.chans.length = 1 then [] else e :: processed es

/-- One round keeps of a class what should be kept. -/
theorem rewriteFrom_entry {target : Target} {buf : Memory} {offset len rounds idx : Nat}
    {kept : List UInt8} {e : Entry} (formed : e.Formed) (held : Holds buf (offset + idx) e.bytes)
    (goes : idx < len) (fits : idx + (e.chans.length + 2) ≤ len + 3)
    (room : kept.length + (e.chans.length + 2) ≤ 200) :
    rewriteFrom target buf offset len (rounds + 1) idx kept =
      rewriteFrom target buf offset len rounds (idx + (e.chans.length + 2))
        (kept ++ entriesBytes (target.reduce e).toList) := by
  have whole : load buf (offset + idx) (e.chans.length + 2) = e.bytes := held.load_eq
  have some_chan := List.length_pos_iff.mpr formed.1
  rw [Entry.bytes, holds_cons, holds_cons] at held
  obtain ⟨operClass, length, chans⟩ := held
  have operClassLen : (buf (offset + idx + 1)).toNat = e.chans.length := by
    rw [length, Entry.toNat_length formed]
  have listed : load buf (offset + idx + 2) e.chans.length = e.chans := chans.load_eq
  simp only [rewriteFrom]
  rw [if_pos goes, operClassLen, operClass, if_neg (by omega), whole, listed]
  unfold Target.reduce
  split_ifs
  · omega
  · simp
  · omega
  · simp [Entry.bytes]
  · simp

/-- The loop keeps of the classes it comes to what should be kept. -/
theorem rewriteFrom_entries {target : Target} {buf : Memory} {offset len rounds idx : Nat}
    {kept : List UInt8} {es : List Entry} (formed : ∀ e ∈ es, e.Formed)
    (held : Holds buf (offset + idx) (entriesBytes es))
    (ends : idx + (entriesBytes es).length = len + 3)
    (room : kept.length + (entriesBytes es).length ≤ 200) (enough : es.length < rounds) :
    rewriteFrom target buf offset len rounds idx kept =
      some (kept ++ entriesBytes ((processed es).filterMap target.reduce)) := by
  induction es generalizing rounds idx kept with
  | nil =>
      obtain ⟨rounds, rfl⟩ := Nat.exists_eq_add_of_lt enough
      have stops : ¬idx < len := by
        rw [entriesBytes_nil, List.length_nil] at ends
        omega
      simp only [rewriteFrom, if_neg stops, processed, List.filterMap_nil, entriesBytes_nil,
        List.append_nil]
  | cons e es induction =>
      obtain ⟨rounds, rfl⟩ := Nat.exists_eq_add_of_lt enough
      have formed_here := formed e List.mem_cons_self
      have formed_rest : ∀ e ∈ es, e.Formed :=
        fun e member => formed e (List.mem_cons_of_mem _ member)
      have some_chan := List.length_pos_iff.mpr formed_here.1
      have least := length_entriesBytes_ge formed_rest
      simp only [entriesBytes_cons, List.length_append, Entry.length_bytes] at ends room
      rw [entriesBytes_cons, holds_append, Entry.length_bytes] at held
      rw [processed]
      split
      · next last =>
          obtain ⟨rfl, single⟩ := last
          have stops : ¬idx < len := by
            rw [entriesBytes_nil, List.length_nil] at ends
            omega
          simp only [rewriteFrom, if_neg stops, List.filterMap_nil, entriesBytes_nil,
            List.append_nil]
      · next more =>
          have goes : idx < len := by
            by_cases last : es = []
            · have several : e.chans.length ≠ 1 := fun single => more ⟨last, single⟩
              omega
            · have := List.length_pos_iff.mpr last
              omega
          have smaller : (entriesBytes (target.reduce e).toList).length ≤ e.chans.length + 2 := by
            cases keeps : target.reduce e with
            | none => simp
            | some kept => simpa using (target.reduce_spec formed_here keeps).2
          rw [rewriteFrom_entry formed_here held.1 goes (by omega) (by omega),
            induction formed_rest (by rw [Nat.add_assoc] at held; exact held.2) (by omega)
              (by rw [List.length_append]; omega) (by rw [List.length_cons]; omega)]
          have split : (e :: processed es).filterMap target.reduce =
              (target.reduce e).toList ++ (processed es).filterMap target.reduce := by
            cases keeps : target.reduce e with
            | none => rw [List.filterMap_cons_none keeps]; rfl
            | some kept => rw [List.filterMap_cons_some keeps]; rfl
          rw [split, entriesBytes_append, List.append_assoc]

/-! ## The whole frame -/

/-- The frame up to the length of the P2P element. -/
def Frame.front (f : Frame) : List UInt8 := f.header ++ (Element.wire f.before ++ [221])

/-- The frame from there up to the length of the channel list. -/
def Frame.middle (f : Frame) : List UInt8 :=
  [0x50, 0x6f, 0x9a, 0x09] ++ (attrsBytes f.first ++ [11])

/-- The frame behind the channel list. -/
def Frame.rest (f : Frame) : List UInt8 := attrsBytes f.others ++ Element.wire f.after

/-- The length of the channel list. -/
def Frame.listLen (f : Frame) : Nat := f.country.length + (entriesBytes f.entries).length

/-- The frame, cut at what a new list changes. -/
theorem Frame.bytes_split (f : Frame) :
    f.bytes = f.front ++ (UInt8.ofNat (4 + f.attrs.length) :: (f.middle ++
      (UInt8.ofNat f.listLen :: UInt8.ofNat (f.listLen / 256) :: (f.country ++
        (entriesBytes f.entries ++ f.rest))))) := by
  simp [Frame.bytes, Frame.front, Frame.middle, Frame.rest, Frame.listLen, Frame.attrs,
    Frame.chanList, Attr.bytes, List.append_assoc]

theorem Frame.length_attrs (f : Frame) :
    f.attrs.length = (attrsBytes f.first).length +
        (3 + f.listLen + (attrsBytes f.others).length) := by
  simp [Frame.attrs, Frame.chanList, Attr.bytes, Frame.listLen]
  omega

/-- Where the P2P element is. -/
def Frame.element (f : Frame) : Nat := f.header.length + (Element.wire f.before).length

/-- Where its channel list is. -/
def Frame.list (f : Frame) : Nat := f.element + 6 + (attrsBytes f.first).length

theorem Frame.length_front (f : Frame) : f.front.length = f.element + 1 := by
  simp [Frame.front, Frame.element]
  omega

theorem Frame.length_middle (f : Frame) : f.middle.length = (attrsBytes f.first).length + 5 := by
  simp [Frame.middle]

theorem Frame.length_bytes (f : Frame) :
    f.bytes.length = f.list + 3 + f.listLen + f.rest.length := by
  rw [f.bytes_split]
  simp only [List.length_append, List.length_cons, f.length_front, f.length_middle, Frame.list,
    Frame.listLen]
  omega

theorem length_wire_ge (es : List Element) : 2 * es.length ≤ (Element.wire es).length := by
  induction es with
  | nil => simp
  | cons e es induction =>
      have two : 2 ≤ e.size := Nat.le_add_left 2 _
      simp only [Element.wire_cons, List.length_append, Element.length_bytes, List.length_cons]
      omega

theorem length_attrsBytes_ge (as : List Attr) : 3 * as.length ≤ (attrsBytes as).length := by
  induction as with
  | nil => simp
  | cons a as induction =>
      have split : attrsBytes (a :: as) = a.bytes ++ attrsBytes as := List.flatMap_cons
      have size : a.bytes.length = a.body.length + 3 := rfl
      rw [split, List.length_append, size, List.length_cons]
      omega

variable {f : Frame} {buf : Memory} {target : Target}

/-- The P2P element is found. -/
theorem Frame.Formed.element_found (formed : f.Formed) (held : Holds buf 0 f.bytes) :
    amlGetP2pIeOffset buf f.bytes.length 32 = f.element := by
  have length := f.length_bytes
  have few := length_wire_ge f.before
  rw [Frame.list, Frame.element, formed.header] at length
  rw [Frame.bytes, holds_append, formed.header, Nat.zero_add] at held
  rw [amlGetP2pIeOffset, Frame.element, formed.header]
  have here := held.2
  rw [← List.append_assoc] at here
  exact p2pIeFrom_elements formed.before (holds_append.mp here).1 (by omega) (by omega)

/-- Its channel list is found. -/
theorem Frame.Formed.list_found (formed : f.Formed) (held : Holds buf 0 f.bytes) :
    chanListFrom buf f.bytes.length f.bytes.length (f.element + 6) = some f.list ∧
      Holds buf f.list f.chanList.bytes := by
  have length := f.length_bytes
  have few := length_attrsBytes_ge f.first
  have attrs := f.length_attrs
  have fits := formed.fits
  have here : Holds buf (f.element + 6) (attrsBytes f.first ++ f.chanList.bytes) := by
    rw [Frame.bytes, holds_append, holds_append, holds_append, holds_append, Frame.attrs,
      ← List.append_assoc, holds_append] at held
    have inner := held.2.2.2.1.1
    simp only [Nat.zero_add, List.length_cons, List.length_nil] at inner
    exact inner
  rw [Frame.list] at length
  refine ⟨chanListFrom_attrs formed.first (by omega) rfl here (by omega) (by omega), ?_⟩
  exact (holds_append.mp here).2

theorem Frame.chanList_length (f : Frame) : f.chanList.body.length = f.listLen := by
  simp [Frame.chanList, Frame.listLen]

/-- What is kept of the list. -/
theorem Frame.Formed.kept_eq (formed : f.Formed) (held : Holds buf 0 f.bytes) (target : Target) :
    amlSccP2pRewriteChanList target buf f.list =
      if 200 < f.listLen then []
      else entriesBytes ((processed f.entries).filterMap target.reduce) := by
  have attrs := f.length_attrs
  have fits := formed.fits
  have country := formed.country
  have here := (formed.list_found held).2
  have len := attrLen_eq here (by rw [f.chanList_length]; omega)
  rw [f.chanList_length] at len
  have least := length_entriesBytes_ge formed.entries
  have total : f.listLen = 3 + (entriesBytes f.entries).length := by
    rw [Frame.listLen, country]
  simp only [amlSccP2pRewriteChanList, len]
  by_cases long : 200 < f.listLen
  · rw [if_pos (.inr long), if_pos long]
  · rw [if_neg long]
    split
    · next short =>
        have no_entry : f.entries = [] := List.length_eq_zero_iff.mp (by omega)
        simp [no_entry, processed]
    · next whole =>
        have entries : Holds buf (f.list + 6) (entriesBytes f.entries) := by
          rw [Frame.chanList, Attr.bytes, holds_cons, holds_cons, holds_cons, holds_append,
            country] at here
          exact here.2.2.2.2
        rw [rewriteFrom_entries formed.entries entries (by omega)
          (by rw [List.length_nil]; omega) (by omega), Option.getD_some, List.nil_append]

/-- With something kept, the call leaves the frame with what is kept for its list, and reports how
much shorter that is. -/
theorem Frame.Formed.written (formed : f.Formed) (held : Holds buf 0 f.bytes) {es : List Entry}
    (kept : amlSccP2pRewriteChanList target buf f.list = entriesBytes es)
    (some_kept : entriesBytes es ≠ [])
    (smaller : (entriesBytes es).length ≤ (entriesBytes f.entries).length) :
    Holds (amlChangeP2pChanlist target buf f.bytes.length 0).1 0
        ({ f with entries := es } : Frame).bytes ∧
      (amlChangeP2pChanlist target buf f.bytes.length 0).2 =
        (entriesBytes f.entries).length - (entriesBytes es).length := by
  let shorter : Frame := { f with entries := es }
  have length := f.length_bytes
  have attrs := f.length_attrs
  have attrs' : shorter.attrs.length = (attrsBytes f.first).length +
      (3 + shorter.listLen + (attrsBytes f.others).length) := shorter.length_attrs
  have fits := formed.fits
  have country := formed.country
  have total : f.listLen = 3 + (entriesBytes f.entries).length := by
    rw [Frame.listLen, country]
  have total' : shorter.listLen = 3 + (entriesBytes es).length := by
    show f.country.length + _ = _
    rw [country]
  have front_length := f.length_front
  have middle_length := f.length_middle
  have at_list : f.list = f.element + 6 + (attrsBytes f.first).length := rfl
  obtain ⟨found, here⟩ := formed.list_found held
  have len := attrLen_eq here (by rw [f.chanList_length]; omega)
  rw [f.chanList_length] at len
  have somewhere : f.element ≠ 0 := by
    rw [Frame.element, formed.header]
    omega
  have rest_length : f.bytes.length - f.list - f.listLen - 3 = f.rest.length := by omega
  have after : (entriesBytes es).length + 3 = shorter.listLen := by omega
  simp only [amlChangeP2pChanlist, formed.element_found held, if_neg somewhere, found, kept,
    if_neg some_kept, len, rest_length, after]
  refine ⟨?_, by omega⟩
  -- the new list is written over the front of the old one
  let old := (entriesBytes f.entries).take (entriesBytes es).length
  let gap := (entriesBytes f.entries).drop (entriesBytes es).length
  have old_length : (entriesBytes es).length = old.length :=
    (List.length_take_of_le smaller).symm
  have gap_length : gap.length = (entriesBytes f.entries).length - (entriesBytes es).length :=
    List.length_drop
  have list : Holds buf 0 ((f.front ++ (UInt8.ofNat (4 + f.attrs.length) :: (f.middle ++
      (UInt8.ofNat f.listLen :: UInt8.ofNat (f.listLen / 256) :: f.country)))) ++
        (old ++ (gap ++ f.rest))) := by
    have split : old ++ gap = entriesBytes f.entries := List.take_append_drop _ _
    rw [← List.append_assoc old gap, split]
    rw [f.bytes_split] at held
    simpa only [List.append_assoc, List.cons_append] using held
  have listed := list.overwrite old_length (q := f.list + 6) (by
    simp only [List.length_append, List.length_cons]
    omega)
  -- then the two lengths over the old ones
  have measured : Holds (store buf (f.list + 6) (entriesBytes es)) 0
      ((f.front ++ (UInt8.ofNat (4 + f.attrs.length) :: f.middle)) ++
        ([UInt8.ofNat f.listLen, UInt8.ofNat (f.listLen / 256)] ++
          (f.country ++ (entriesBytes es ++ (gap ++ f.rest))))) := by
    simpa only [List.append_assoc, List.cons_append, List.nil_append] using listed
  have measured := measured.overwrite (q := f.list + 1)
    (show [UInt8.ofNat shorter.listLen, UInt8.ofNat (shorter.listLen / 256)].length = _ from rfl)
    (by
      simp only [List.length_append, List.length_cons]
      omega)
  have counted : Holds (store (store buf (f.list + 6) (entriesBytes es)) (f.list + 1)
      [UInt8.ofNat shorter.listLen, UInt8.ofNat (shorter.listLen / 256)]) 0
      (f.front ++ ([UInt8.ofNat (4 + f.attrs.length)] ++ (f.middle ++
        ([UInt8.ofNat shorter.listLen, UInt8.ofNat (shorter.listLen / 256)] ++
          (f.country ++ (entriesBytes es ++ (gap ++ f.rest))))))) := by
    simpa only [List.append_assoc, List.cons_append, List.nil_append] using measured
  have element : store (store buf (f.list + 6) (entriesBytes es)) (f.list + 1)
      [UInt8.ofNat shorter.listLen, UInt8.ofNat (shorter.listLen / 256)] (f.element + 1) -
        UInt8.ofNat (f.listLen - shorter.listLen) = UInt8.ofNat (4 + shorter.attrs.length) := by
    have read := (holds_cons.mp (holds_append.mp counted).2).1
    rw [Nat.zero_add, front_length] at read
    rw [read, ← UInt8.ofNat_sub (by omega)]
    congr 1
    omega
  rw [element]
  have counted := counted.overwrite (q := f.element + 1)
    (show [UInt8.ofNat (4 + shorter.attrs.length)].length = _ from rfl) (by
      rw [front_length, Nat.zero_add])
  -- and what is behind the list is moved to it
  have open_gap : Holds (store (store (store buf (f.list + 6) (entriesBytes es)) (f.list + 1)
      [UInt8.ofNat shorter.listLen, UInt8.ofNat (shorter.listLen / 256)]) (f.element + 1)
        [UInt8.ofNat (4 + shorter.attrs.length)]) 0
      ((f.front ++ (UInt8.ofNat (4 + shorter.attrs.length) :: (f.middle ++
        (UInt8.ofNat shorter.listLen :: UInt8.ofNat (shorter.listLen / 256) ::
          (f.country ++ entriesBytes es))))) ++ (gap ++ f.rest)) := by
    simpa only [List.append_assoc, List.cons_append, List.nil_append] using counted
  have closed := open_gap.close (q := f.list + 3 + shorter.listLen)
    (r := f.list + f.listLen + 3) (by
      simp only [List.length_append, List.length_cons]
      omega) (by omega) rfl
  have shape : shorter.bytes = f.front ++ (UInt8.ofNat (4 + shorter.attrs.length) :: (f.middle ++
      (UInt8.ofNat shorter.listLen :: UInt8.ofNat (shorter.listLen / 256) :: (f.country ++
        (entriesBytes es ++ f.rest))))) := shorter.bytes_split
  rw [shape]
  simpa only [List.append_assoc, List.cons_append, List.nil_append] using closed

/-! ## What becomes of a frame -/

/-- The class that the loop does not come to is the last one with a single channel. -/
theorem processed_spec (es : List Entry) :
    (processed es = es ∧ ∀ e, es.getLast? = some e → e.chans.length ≠ 1) ∨
      ∃ e, es = processed es ++ [e] ∧ e.chans.length = 1 := by
  induction es with
  | nil => exact .inl ⟨rfl, by simp⟩
  | cons e es induction =>
      rw [processed]
      split
      · next last => exact .inr ⟨e, by simp [last.1], last.2⟩
      · next more =>
          rcases induction with ⟨all, several⟩ | ⟨last, split, single⟩
          · refine .inl ⟨by rw [all], fun last ends => ?_⟩
            cases es with
            | nil =>
                obtain rfl : e = last := by simpa using ends
                exact fun single => more ⟨rfl, single⟩
            | cons next es => exact several last (by simpa using ends)
          · exact .inr ⟨last, by rw [List.cons_append, ← split], single⟩

/-- A list that is reduced to one as long was reduced to itself. -/
theorem reduced_eq_of_length {es : List Entry} (formed : ∀ e ∈ es, e.Formed)
    (same : (entriesBytes (es.filterMap target.reduce)).length = (entriesBytes es).length) :
    es.filterMap target.reduce = es := by
  induction es with
  | nil => rfl
  | cons e es induction =>
      have formed_rest : ∀ e ∈ es, e.Formed :=
        fun e member => formed e (List.mem_cons_of_mem _ member)
      have smaller := length_reduced_le target formed_rest
      cases keeps : target.reduce e with
      | none =>
          rw [List.filterMap_cons_none keeps] at same
          simp only [entriesBytes_cons, List.length_append, Entry.length_bytes] at same
          omega
      | some kept =>
          have size := (target.reduce_spec (formed e List.mem_cons_self) keeps).2
          rw [List.filterMap_cons_some keeps] at same ⊢
          simp only [entriesBytes_cons, List.length_append, Entry.length_bytes] at same
          have whole : kept = e := by
            have sizes : kept.chans.length = e.chans.length := by omega
            unfold Target.reduce at keeps
            split_ifs at keeps with leaves found
            · exact (Option.some.inj keeps).symm
            · obtain rfl := Option.some.inj keeps
              obtain ⟨chan, single⟩ := List.length_eq_one_iff.mp sizes.symm
              obtain ⟨operClass, chans⟩ := e
              dsimp only at single found ⊢
              rw [single, List.mem_singleton] at found
              rw [single, found]
          rw [induction formed_rest (by omega), whole]

/-- The last class has one channel and should be kept. -/
def Skipped (target : Target) (f : Frame) : Prop :=
  ∃ e, f.entries.getLast? = some e ∧ e.chans.length = 1 ∧ (target.reduce e).isSome = true

/-- The list is one that the rewriting handles: not longer than its buffer and not skipped at its
end, unless nothing is to be changed in it. -/
def Rewritable (target : Target) (f : Frame) : Prop :=
  if 200 < f.listLen then f.entries.filterMap target.reduce = f.entries
  else Skipped target f → f.entries.length = 1

theorem Frame.Formed.reduced (formed : f.Formed) (target : Target) : (f.reduced target).Formed where
  header := formed.header
  before := formed.before
  first := formed.first
  country := formed.country
  entries := by
    intro kept member
    obtain ⟨e, listed, keeps⟩ := List.mem_filterMap.mp member
    exact (target.reduce_spec (formed.entries e listed) keeps).1
  fits := by
    have fits := formed.fits
    have smaller := length_reduced_le target formed.entries
    rw [Frame.length_attrs, Frame.listLen] at fits ⊢
    simp only [Frame.reduced] at smaller ⊢
    omega

theorem Frame.length_reduced (f : Frame) (target : Target) :
    (f.reduced target).bytes.length + (entriesBytes f.entries).length =
      f.bytes.length + (entriesBytes (f.entries.filterMap target.reduce)).length := by
  rw [Frame.length_bytes, Frame.length_bytes]
  simp only [Frame.reduced, Frame.list, Frame.element, Frame.listLen, Frame.rest]
  omega

/-- A frame that is left alone was right exactly when there was nothing to change. -/
theorem Frame.Formed.unchanged_iff (formed : f.Formed) (held : Holds buf 0 f.bytes)
    (kept : amlSccP2pRewriteChanList target buf f.list = []) :
    Reduces target f buf ↔ f.entries.filterMap target.reduce = f.entries := by
  have somewhere : f.element ≠ 0 := by
    rw [Frame.element, formed.header]
    omega
  have result : amlChangeP2pChanlist target buf f.bytes.length 0 = (buf, 0) := by
    simp only [amlChangeP2pChanlist, formed.element_found held, if_neg somewhere,
      (formed.list_found held).1, kept, if_true]
  simp only [Reduces, result, Nat.sub_zero, held.load_eq]
  constructor
  · rintro ⟨same, -⟩
    have lengths := f.length_reduced target
    rw [← same] at lengths
    exact reduced_eq_of_length formed.entries (by omega)
  · intro same
    refine ⟨?_, formed.reduced target⟩
    rw [Frame.reduced, same]

/-- A frame is reduced as it should be when the loop keeps all that should be kept. -/
theorem Frame.Formed.reduces_of_kept (formed : f.Formed) (held : Holds buf 0 f.bytes)
    (occurs : ∃ e ∈ f.entries, target.chanNo ∈ e.chans)
    (kept : amlSccP2pRewriteChanList target buf f.list =
      entriesBytes (f.entries.filterMap target.reduce)) : Reduces target f buf := by
  obtain ⟨shown, listed, chan⟩ := occurs
  have some_reduced : ∃ k, target.reduce shown = some k := by
    unfold Target.reduce
    split_ifs
    · exact ⟨_, rfl⟩
    · exact ⟨_, rfl⟩
  obtain ⟨shown', keeps⟩ := some_reduced
  have shown_kept : shown' ∈ f.entries.filterMap target.reduce :=
    List.mem_filterMap.mpr ⟨shown, listed, keeps⟩
  have some_kept : entriesBytes (f.entries.filterMap target.reduce) ≠ [] := by
    intro empty
    have least := length_entriesBytes_ge (formed.reduced target).entries
    simp only [Frame.reduced, empty, List.length_nil] at least
    have none_kept := List.length_eq_zero_iff.mp (Nat.eq_zero_of_le_zero (by omega :
      (f.entries.filterMap target.reduce).length ≤ 0))
    rw [none_kept] at shown_kept
    cases shown_kept
  have smaller := length_reduced_le target formed.entries
  obtain ⟨written, reported⟩ := formed.written held kept some_kept smaller
  have lengths := f.length_reduced target
  have whole := f.length_bytes
  have within : (entriesBytes f.entries).length ≤ f.bytes.length := by
    rw [whole, Frame.listLen]
    omega
  refine ⟨?_, formed.reduced target⟩
  rw [reported, show f.bytes.length - ((entriesBytes f.entries).length -
    (entriesBytes (f.entries.filterMap target.reduce)).length) =
      (f.reduced target).bytes.length by omega]
  exact written.load_eq

/-- When the loop does not come to a last class that should be kept, only a list of that class alone
is reduced as it should be. -/
theorem Frame.Formed.reduces_iff_of_skipped (formed : f.Formed) (held : Holds buf 0 f.bytes)
    {last k : Entry} (split : f.entries = processed f.entries ++ [last])
    (single : last.chans.length = 1) (last_keeps : target.reduce last = some k)
    (kept : amlSccP2pRewriteChanList target buf f.list =
      entriesBytes ((processed f.entries).filterMap target.reduce)) :
    Reduces target f buf ↔ f.entries.length = 1 := by
  have smaller := length_reduced_le target formed.entries
  have due : f.entries.filterMap target.reduce =
      (processed f.entries).filterMap target.reduce ++ [k] := by
    conv_lhs => rw [split]
    simp [List.filterMap_append, last_keeps]
  have alone : f.entries.length = 1 → processed f.entries = [] := by
    intro one
    rw [split, List.length_append, List.length_singleton] at one
    exact List.length_eq_zero_iff.mp (by omega)
  have last_size : k.chans.length = 1 := by
    have member : last ∈ f.entries := by
      rw [split]
      exact List.mem_append_right _ List.mem_cons_self
    obtain ⟨k_formed, size⟩ := target.reduce_spec (formed.entries last member) last_keeps
    have some_chan := List.length_pos_iff.mpr k_formed.1
    omega
  by_cases nothing : (processed f.entries).filterMap target.reduce = []
  · rw [nothing, entriesBytes_nil] at kept
    rw [formed.unchanged_iff held kept]
    rw [nothing, List.nil_append] at due
    constructor
    · intro same
      rw [← same, due]
      rfl
    · intro one
      apply reduced_eq_of_length formed.entries
      rw [due, split, alone one]
      simp [single, last_size]
  · refine iff_of_false ?_ fun one => nothing (by rw [alone one, List.filterMap_nil])
    rintro ⟨same, -⟩
    have lengths := f.length_reduced target
    have whole := f.length_bytes
    rw [Frame.listLen] at whole
    rw [due, entriesBytes_append, List.length_append] at lengths smaller
    have some_kept : entriesBytes ((processed f.entries).filterMap target.reduce) ≠ [] := by
      obtain ⟨first, others, shape⟩ := List.exists_cons_of_ne_nil nothing
      simp [shape, Entry.bytes]
    obtain ⟨-, reported⟩ := formed.written held kept some_kept (by omega)
    have sizes := congrArg List.length same
    rw [reported, length_load] at sizes
    simp only [entriesBytes_cons, entriesBytes_nil, List.append_nil, Entry.length_bytes] at lengths
    omega

/-- A frame in which the channel occurs is reduced as it should be exactly when its list is one that
the rewriting handles. -/
theorem changeP2pChanlist_reduces_iff (formed : f.Formed) (held : Holds buf 0 f.bytes)
    (occurs : ∃ e ∈ f.entries, target.chanNo ∈ e.chans) :
    Reduces target f buf ↔ Rewritable target f := by
  have kept := formed.kept_eq held target
  unfold Rewritable
  by_cases long : 200 < f.listLen
  · rw [if_pos long] at kept ⊢
    exact formed.unchanged_iff held kept
  rw [if_neg long] at kept ⊢
  have all_kept (same : (processed f.entries).filterMap target.reduce =
      f.entries.filterMap target.reduce) : Reduces target f buf :=
    formed.reduces_of_kept held occurs (kept.trans (congrArg entriesBytes same))
  rcases processed_spec f.entries with ⟨all, several⟩ | ⟨last, split, single⟩
  · refine iff_of_true (all_kept (by rw [all])) ?_
    rintro ⟨e, ends, single, -⟩
    exact absurd single (several e ends)
  · have ends : f.entries.getLast? = some last := by
      rw [split, List.getLast?_concat]
    cases last_keeps : target.reduce last with
    | none =>
        refine iff_of_true (all_kept ?_) ?_
        · conv_rhs => rw [split]
          simp [List.filterMap_append, last_keeps]
        · rintro ⟨e, ends', -, keeps⟩
          obtain rfl := Option.some.inj (ends.symm.trans ends')
          rw [last_keeps] at keeps
          cases keeps
    | some k =>
        have skipped : Skipped target f := ⟨last, ends, single, by rw [last_keeps]; rfl⟩
        simp only [skipped, true_imp_iff]
        exact formed.reduces_iff_of_skipped held split single last_keeps kept

/-- Channels of the lower band and channel 36, for a device that has both bands. -/
def dualBand (chanNo : UInt8) : Target where
  chanNo := chanNo
  band := .ghz5
  peer5gSupport := true
  operatingClassToBand operClass :=
    if operClass = 81 then some .ghz2 else if operClass = 115 then some .ghz5 else none

/-- A request that lists some classes and no other attribute. -/
def request (entries : List Entry) : Frame where
  header := List.replicate 32 0
  before := []
  first := []
  country := [0x58, 0x58, 4]
  entries := entries
  others := []
  after := []

theorem request_formed {entries : List Entry} (formed : ∀ e ∈ entries, e.Formed)
    (fits : (entriesBytes entries).length ≤ 240) : (request entries).Formed where
  header := rfl
  before := by simp [request]
  first := by simp [request]
  country := rfl
  entries := formed
  fits := by
    rw [Frame.length_attrs, Frame.listLen]
    simp only [request, attrsBytes, List.flatMap_nil, List.length_nil, List.length_cons]
    omega

def requestBuf (entries : List Entry) : Memory := fun i => (request entries).bytes.getD i 0

theorem requestBuf_holds (entries : List Entry) :
    Holds (requestBuf entries) 0 (request entries).bytes := holds_getD

/-- Of two classes the one with the channel is left. -/
theorem request_reduces :
    Reduces (dualBand 36) (request [⟨81, [1, 6, 11]⟩, ⟨115, [36, 40]⟩])
      (requestBuf [⟨81, [1, 6, 11]⟩, ⟨115, [36, 40]⟩]) := by
  apply (changeP2pChanlist_reduces_iff (request_formed ?_ (by decide)) (requestBuf_holds _)
    ⟨⟨115, [36, 40]⟩, by simp [request], by decide⟩).mpr
  · rw [Rewritable, if_neg (by decide)]
    rintro ⟨e, ends, single, -⟩
    obtain rfl := Option.some.inj ends
    cases single
  · simp [Entry.Formed]

/-- The class with the channel is the last, and it has no other channel. -/
def lastSingle : List Entry := [⟨81, [1, 6, 11]⟩, ⟨115, [36]⟩]

/-- The frame is left as it is, and should have one class. -/
theorem lastSingle_not_reduced :
    (request lastSingle).Formed ∧ Holds (requestBuf lastSingle) 0 (request lastSingle).bytes ∧
      (∃ e ∈ lastSingle, (dualBand 36).chanNo ∈ e.chans) ∧
      ¬Reduces (dualBand 36) (request lastSingle) (requestBuf lastSingle) := by
  have formed : (request lastSingle).Formed :=
    request_formed (by simp [lastSingle, Entry.Formed]) (by decide)
  have kept : amlSccP2pRewriteChanList (dualBand 36) (requestBuf lastSingle)
      (request lastSingle).list = [] := by
    rw [formed.kept_eq (requestBuf_holds _)]
    decide
  refine ⟨formed, requestBuf_holds _, ⟨⟨115, [36]⟩, by simp [lastSingle], by decide⟩, ?_⟩
  rw [formed.unchanged_iff (requestBuf_holds _) kept]
  decide

end AmlW2.P2p
