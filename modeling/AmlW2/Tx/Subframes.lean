import AmlW2.Tx.Aggregate

/-!
# What a queue is made of

Every buffer in a queue is made of the frames that were added to it, in order: the first as
`aml_start_xmit` prepares it, and each of the others as a subframe that can be undone.
-/

namespace AmlW2.Tx

/-- The length of a subframe with the padding before it. -/
def AmsduTxhdr.packetLen (sub : AmsduTxhdr) : Nat := sub.msduLen + 14 + sub.pad

namespace Aggregate

open Rx (EthHdr)

/-- The length of the subframe of a frame, without padding. -/
def Offer.length (o : Offer) : Nat := amlAmsduSubframeLength o.eth o.skb.data.length

/-- The length of subframes. -/
def totalLen : List AmsduTxhdr → Nat
  | [] => 0
  | sub :: subs => sub.packetLen + totalLen subs

theorem totalLen_append (front back : List AmsduTxhdr) :
    totalLen (front ++ back) = totalLen front + totalLen back := by
  induction front with
  | nil => exact (Nat.zero_add _).symm
  | cons sub front induction =>
      rw [List.cons_append, totalLen, totalLen, induction, Nat.add_assoc]

theorem amsduPadding_le (n : Nat) : amsduPadding n ≤ 3 := by
  rw [amsduPadding]
  omega

theorem llcRoom_le (eth : EthHdr) : llcRoom eth ≤ 8 := by
  rw [llcRoom]
  split_ifs
  · exact Nat.le_refl 8
  · exact Nat.zero_le 8

/-! ## One subframe -/

/-- A subframe that carries a frame, and gives it back. -/
structure Carries (c : Conf) (o : Offer) (sub : AmsduTxhdr) : Prop where
  msduLen : sub.msduLen + 14 = o.length
  data : (delSubframeHeader c.size sub).data = o.skb.data
  room : (delSubframeHeader c.size sub).headroom.length = (c.expand o.skb).headroom.length
  place : sub.skb.headroom.length + (c.size + sub.pad + 14 + llcRoom o.eth) =
    (c.expand o.skb).headroom.length

/-- A header with one more subframe. -/
def SwTxhdr.grown (hdr : SwTxhdr) (o : Offer) (sub : AmsduTxhdr) : SwTxhdr :=
  { hdr with
    amsdu :=
      { hdrs := hdr.amsdu.hdrs ++ [sub]
        len := hdr.amsdu.len + (o.length + hdr.amsdu.pad)
        nb := hdr.amsdu.nb + 1
        pad := amsduPadding o.length
        packetLen := hdr.amsdu.packetLen ++ [o.length + hdr.amsdu.pad] }
    desc := { hdr.desc with packetCnt := hdr.desc.packetCnt + 1 } }

namespace Conf

variable {c : Conf} {o : Offer}

theorem expand_data (c : Conf) (skb : Skb) : (c.expand skb).data = skb.data := by
  rw [expand]
  split_ifs
  · rfl
  · rfl

theorem expand_room (c : Conf) (skb : Skb) :
    txMaxHeadroom c.bus c.size ≤ (c.expand skb).headroom.length := by
  rw [expand]
  split_ifs with short
  · exact Nat.le_of_eq List.length_replicate.symm
  · exact Nat.not_lt.mp short

/-- A subframe is added, but for a buffer that cannot be mapped, which is given back as it was. -/
theorem addHeader_cases (c : Conf) (hdr : SwTxhdr) (mapped : Bool) (o : Offer)
    (pad : hdr.amsdu.pad ≤ 3) :
    (mapped = false ∧ c.bus = .pcie ∧
      ∃ back, c.addHeader hdr mapped (c.expand o.skb) = .error back ∧
        back.data = o.skb.data ∧ back.headroom.length = (c.expand o.skb).headroom.length) ∨
    ((mapped = true ∨ c.bus ≠ .pcie) ∧
      ∃ sub, Carries c o sub ∧ sub.pad = hdr.amsdu.pad ∧
        c.addHeader hdr mapped (c.expand o.skb) = .ok (hdr.grown o sub)) := by
  have data := c.expand_data o.skb
  have room := c.expand_room o.skb
  have header : 14 ≤ (c.expand o.skb).data.length := data ▸ o.header_le
  have llc := llcRoom_le (EthHdr.read (c.expand o.skb).data)
  have enough : c.size + hdr.amsdu.pad + 14 + llcRoom (EthHdr.read (c.expand o.skb).data) ≤
      (c.expand o.skb).headroom.length := by
    have most : amsduHeadroom c.size ≤ txMaxHeadroom c.bus c.size := Nat.le_max_right _ _
    rw [amsduHeadroom] at most
    omega
  obtain ⟨fails, adds⟩ := amlAmsduAddSubframeHeader_eq
    (mapped || decide (c.bus ≠ .pcie)) header enough
  rw [data] at fails adds
  by_cases works : (mapped || decide (c.bus ≠ .pcie)) = true
  · obtain ⟨sub, made, added⟩ := adds works
    refine .inr ⟨by simpa using works, sub, ⟨?_, made.restored.trans data, made.room, ?_⟩,
      made.pad, ?_⟩
    · rw [made.msduLen, data]
      rfl
    · rw [← made.headroom, made.pad, data]
      rfl
    · rw [addHeader, added]
      rfl
  · have off := Bool.eq_false_iff.mpr works
    obtain ⟨back, failed, same, length⟩ := fails off
    rw [Bool.or_eq_false_iff] at off
    refine .inl ⟨off.1, by simpa using off.2, back, ?_, same, length⟩
    rw [addHeader, failed]

end Conf

/-! ## One buffer -/

/-- A buffer that was made of a first frame and those added to it. -/
structure MadeOf (c : Conf) (buf : Buffer) (o : Offer) (os : List Offer) : Prop where
  data : buf.data = o.skb.data
  frameLen : buf.hdr.frameLen = o.skb.data.length - 14
  packetLen : buf.hdr.desc.packetLen = o.skb.data.length - 14
  packetAddr : buf.hdr.desc.packetAddr = (c.alone o).hdr.desc.packetAddr
  mpduLen : buf.mpduLen = (c.alone o).mpduLen
  tid : buf.hdr.desc.tid = c.tid
  staid : buf.hdr.desc.staid = c.sta
  addrs : ∀ p ∈ o :: os, State.SameAddr buf.hdr.desc p
  subs : List.Forall₂ (Carries c) os buf.hdr.amsdu.hdrs
  flag : .amsdu ∈ buf.hdr.desc.flags ↔ os ≠ []
  packetCnt : buf.hdr.desc.packetCnt = os.length + 1
  pad : buf.hdr.amsdu.pad ≤ 3
  packetLens : buf.hdr.amsdu.packetLen = buf.hdr.amsdu.hdrs.map AmsduTxhdr.packetLen
  nb : os ≠ [] → buf.hdr.amsdu.nb = os.length + 1
  len : os ≠ [] → buf.hdr.amsdu.len = o.length + totalLen buf.hdr.amsdu.hdrs

section

variable {c : Conf} {buf : Buffer} {o p : Offer} {os : List Offer}

theorem amsdu_notMem_flagsOf (c : Conf) (o : Offer) : .amsdu ∉ c.flagsOf o := by
  rw [Conf.flagsOf]
  split_ifs <;> decide

/-- What `aml_start_xmit` queues is made of the frame alone. -/
theorem madeOf_prepare (o : Offer) {skb : Skb} (data : skb.data = o.skb.data)
    (room : skb.headroom.length = (c.expand o.skb).headroom.length) :
    MadeOf c (c.prepare o skb) o [] := by
  have same := c.expand_data o.skb
  refine ⟨data, congrArg (·.length - 14) data, congrArg (·.length - 14) data, ?_, ?_, rfl, rfl, ?_,
    .nil, ?_, rfl, Nat.zero_le 3, rfl, fun none => absurd rfl none, fun none => absurd rfl none⟩
  · simp only [Conf.prepare, Conf.alone, room]
  · simp only [Conf.prepare, Conf.alone, data, same]
  · refine List.forall_mem_singleton.mpr ⟨?_, ?_⟩
    · exact congrArg (fun l => (EthHdr.read l).hDest) data.symm
    · exact congrArg (fun l => (EthHdr.read l).hSource) data.symm
  · exact iff_of_false (amsdu_notMem_flagsOf c o) fun some => some rfl

namespace MadeOf

theorem firstLength (made : MadeOf c buf o os) : State.firstLength buf = o.length := by
  have header := o.header_le
  rw [State.firstLength, made.data, made.frameLen, Nat.sub_add_cancel header]
  rfl

theorem length_pos (o : Offer) : 0 < o.length := by
  have header := o.header_le
  rw [Offer.length, amlAmsduSubframeLength]
  omega

theorem nil_of_len (made : MadeOf c buf o os) (none : buf.hdr.amsdu.len = 0) : os = [] := by
  by_contra some
  have len := made.len some
  have pos := length_pos o
  omega

/-- A buffer that is made the first of an A-MSDU is made of the same frame. -/
theorem first (made : MadeOf c buf o []) : MadeOf c { buf with hdr := State.first buf } o [] :=
  { made with
    subs := .nil
    pad := amsduPadding_le _
    packetLens := rfl
    nb := fun none => absurd rfl none
    len := fun none => absurd rfl none }

/-- A frame for the same addresses is added as a subframe. -/
theorem grown (made : MadeOf c buf o os) {sub : AmsduTxhdr} (carries : Carries c p sub)
    (padded : sub.pad = buf.hdr.amsdu.pad) (same : State.SameAddr buf.hdr.desc p)
    (nb : buf.hdr.amsdu.nb = os.length + 1)
    (len : buf.hdr.amsdu.len = o.length + totalLen buf.hdr.amsdu.hdrs)
    {hdr : SwTxhdr} (grows : hdr = { buf.hdr.grown p sub with
      desc := { (buf.hdr.grown p sub).desc with flags := insert .amsdu buf.hdr.desc.flags } }) :
    MadeOf c { buf with hdr } o (os ++ [p]) := by
  subst grows
  have length : p.length + buf.hdr.amsdu.pad = sub.packetLen := by
    rw [AmsduTxhdr.packetLen, carries.msduLen, padded]
  have some : os ++ [p] ≠ [] := List.append_ne_nil_of_right_ne_nil os (List.cons_ne_nil p [])
  refine ⟨made.data, made.frameLen, made.packetLen, made.packetAddr, made.mpduLen, made.tid,
    made.staid, ?_, ?_, iff_of_true (Finset.mem_insert_self _ _) some, ?_, amsduPadding_le _, ?_,
    fun _ => ?_, fun _ => ?_⟩
  · intro q member
    rw [← List.cons_append] at member
    rcases List.mem_append.mp member with old | new
    · exact made.addrs q old
    · exact List.mem_singleton.mp new ▸ same
  · exact List.rel_append (R := Carries c) made.subs (.cons carries .nil)
  · change buf.hdr.desc.packetCnt + 1 = _
    rw [made.packetCnt, List.length_append]
    rfl
  · change buf.hdr.amsdu.packetLen ++ [p.length + buf.hdr.amsdu.pad] = _
    rw [made.packetLens, length, SwTxhdr.grown, List.map_append]
    rfl
  · change buf.hdr.amsdu.nb + 1 = _
    rw [nb, List.length_append]
    rfl
  · change buf.hdr.amsdu.len + (p.length + buf.hdr.amsdu.pad) = o.length +
      totalLen (buf.hdr.amsdu.hdrs ++ [sub])
    rw [len, length, totalLen_append, totalLen, totalLen, Nat.add_zero,
      Nat.add_assoc]

/-- The first frame of a dismantled A-MSDU is there alone. -/
theorem reduced (made : MadeOf c buf o os) : MadeOf c { buf with hdr := buf.hdr.reduced } o [] :=
  { made with
    addrs := fun q member => made.addrs q (List.mem_cons.mpr (.inl (List.mem_singleton.mp member)))
    subs := .nil
    flag := iff_of_false (Finset.notMem_erase _ _) fun none => absurd rfl none
    packetCnt := rfl
    packetLens := rfl
    nb := fun none => absurd rfl none
    len := fun none => absurd rfl none }

/-- A further subframe of a dismantled A-MSDU is its frame again, unless it gets no header. -/
theorem part (made : MadeOf c buf o os) (member : p ∈ os) {sub : AmsduTxhdr}
    (carries : Carries c p sub) (alloc : Bool) :
    c.part buf.hdr.reduced alloc sub = none ∧ alloc = false ∨
      alloc = true ∧ ∃ part, c.part buf.hdr.reduced alloc sub = some part ∧ MadeOf c part p [] ∧
        part.hdr.vif = buf.hdr.vif ∧ part.hdr.jiffies = buf.hdr.jiffies ∧
        part.hdr.desc.ethertype = buf.hdr.desc.ethertype ∧
        part.hdr.desc.vifIdx = buf.hdr.desc.vifIdx ∧
        part.hdr.desc.flags = buf.hdr.desc.flags.erase .amsdu ∧
        part.hdr.amsdu.len = 0 ∧ part.hdr.amsdu.nb = 0 := by
  have header := p.header_le
  have room : txHeadroom c.bus ≤ (c.expand p.skb).headroom.length :=
    Nat.le_trans (Nat.le_max_left _ _) (c.expand_room p.skb)
  have covers : p.skb.data.length - 14 ≤ sub.msduLen + 14 + sub.pad := by
    have len := carries.msduLen
    rw [Offer.length, amlAmsduSubframeLength] at len
    omega
  cases alloc with
  | false =>
      refine .inl ⟨?_, rfl⟩
      rw [Conf.part]
      exact if_pos (.inr (.inl rfl))
  | true =>
      refine .inr ⟨rfl, ?_⟩
      have fine : ¬((delSubframeHeader c.size sub).headroom.length < txHeadroom c.bus ∨
          true = false ∨ (c.bus = .pcie ∧
            sub.msduLen + 14 + sub.pad < (delSubframeHeader c.size sub).data.length - 14)) := by
        rw [carries.room, carries.data]
        rintro (short | wrong | ⟨_, short⟩)
        · omega
        · exact Bool.noConfusion wrong
        · omega
      rw [Conf.part]
      simp only [if_neg fine]
      refine ⟨_, rfl, ⟨carries.data, congrArg (·.length - 14) carries.data,
        congrArg (·.length - 14) carries.data, ?_, ?_, made.tid, made.staid, ?_, .nil, ?_, rfl,
        made.pad, rfl, fun none => absurd rfl none, fun none => absurd rfl none⟩, rfl, rfl,
          rfl, rfl,
        rfl, rfl, rfl⟩
      · have first : buf.hdr.reduced.desc.packetAddr = (c.alone o).hdr.desc.packetAddr :=
          made.packetAddr
        have place := carries.place
        have len := carries.msduLen
        rw [Offer.length, amlAmsduSubframeLength] at len
        simp only [carries.data, first, Conf.alone, Conf.prepare]
        split_ifs
        · omega
        · rfl
      · simp only [carries.data, Conf.alone, Conf.prepare, c.expand_data]
      · exact List.forall_mem_singleton.mpr (made.addrs p (List.mem_cons_of_mem o member))
      · exact iff_of_false (Finset.notMem_erase _ _) fun none => absurd rfl none

end MadeOf

end

/-! ## A whole queue -/

/-- An entry is made of the frames it was made of. -/
def Entry.Sound (c : Conf) (e : Entry) : Prop :=
  ∃ o os, e.offers = o :: os ∧ MadeOf c e.buf o os

/-- What is queued in the place of an A-MSDU. -/
theorem Entry.Sound.dismantle {c : Conf} {e : Entry} (sound : e.Sound c) (alloc : Nat → Bool) :
    ∀ part ∈ e.dismantle c alloc, part.Sound c ∧ .amsdu ∉ part.buf.hdr.desc.flags := by
  obtain ⟨o, os, offers, made⟩ := sound
  have further : ∀ (alloc : Nat → Bool) (ps : List Offer) (subs : List AmsduTxhdr), ps ⊆ os →
      List.Forall₂ (Carries c) ps subs →
      ∀ part ∈ ((subs.mapIdx fun j sub => c.part e.buf.hdr.reduced (alloc j) sub).zip ps).filterMap
        (ofPart e.maxnb), part.Sound c ∧ .amsdu ∉ part.buf.hdr.desc.flags := by
    intro alloc ps subs within all
    induction all generalizing alloc with
    | nil => exact nofun
    | @cons p sub ps subs carries all induction =>
        obtain ⟨member, within⟩ := List.cons_subset.mp within
        intro part inside
        rw [List.mapIdx_cons, List.zip_cons_cons] at inside
        rcases made.part member carries (alloc 0) with ⟨none, _⟩ | ⟨_, buf, some, single, _⟩
        · rw [none, List.filterMap_cons_none (by rfl)] at inside
          exact induction _ within part inside
        · rw [some, List.filterMap_cons_some (by rfl)] at inside
          rcases List.mem_cons.mp inside with rfl | later
          · exact ⟨⟨p, [], rfl, single⟩, fun flag => single.flag.mp flag rfl⟩
          · exact induction _ within part later
  intro part inside
  rw [Entry.dismantle, Conf.parts, offers, List.zip_cons_cons,
    List.filterMap_cons_some (by rfl)] at inside
  rcases List.mem_cons.mp inside with rfl | later
  · exact ⟨⟨o, [], rfl, made.reduced⟩, fun flag => made.reduced.flag.mp flag rfl⟩
  · exact further alloc os _ (List.Subset.refl os) made.subs part later

namespace State

/-- What holds of a queue: its buffers are sound and A-MSDUs within the length, and there is an
A-MSDU in construction where one is said to be. -/
structure Sound (s : State) : Prop where
  entries : ∀ e ∈ s.skList, e.Sound s.conf
  within : ∀ e ∈ s.skList, .amsdu ∈ e.buf.hdr.desc.flags → e.buf.hdr.amsdu.len ≤ s.amsduLen
  current : ∀ i, s.amsdu = some i → ∃ e, s.skList[i]? = some e ∧ .amsdu ∈ e.buf.hdr.desc.flags
  usb : s.conf.bus = .usb → s.amsduLen ≤ usbAmsduBufLen

theorem sound_init (conf : Conf) (maxnb : Int) : (init conf maxnb).Sound :=
  ⟨nofun, nofun, nofun, fun _ => Nat.zero_le _⟩

/-- The frame is added to the buffer at a place of the queue. -/
inductive Hosts (s : State) (o : Offer) : Nat → Entry → Prop
  | joins {i : Nat} {e : Entry} (current : s.amsdu = some i) (found : s.skList[i]? = some e)
      (fits : s.adjust.Joins e.buf.hdr o) : Hosts s o i e
  | pairs {e : Entry} (idle : s.amsdu = none) (last : s.skList.getLast? = some e)
      (fits : s.adjust.Pairs e.buf o) : Hosts s o (s.skList.length - 1) e

/-- A-MSDUs are allowed, and the buffer can be mapped where that is needed. -/
def Allowed (s : State) (mapped : Bool) : Prop :=
  s.amsduLen ≠ 0 ∧ 2 ≤ s.adjust.maxnb ∧ (mapped = true ∨ s.conf.bus ≠ .pcie)

/-- The padding before the next subframe of a buffer. -/
def padFor (buf : Buffer) : Nat :=
  if buf.hdr.amsdu.hdrs = [] then amsduPadding (firstLength buf) else buf.hdr.amsdu.pad

/-- A frame was added to the buffer at a place. -/
structure Grows (s : State) (i : Nat) (e : Entry) (o : Offer) (s' : State) : Prop where
  conf : s'.conf = s.conf
  amsduLen : s'.amsduLen = s.amsduLen
  amsdu : s'.amsdu = none ∨ s'.amsdu = some i
  grown : ∃ hdr sub first os,
    s'.skList = s.skList.modify i (fun e =>
      ⟨{ e.buf with hdr }, e.offers ++ [o], s.adjust.maxnb⟩) ∧
    e.offers = first :: os ∧ MadeOf s.conf { e.buf with hdr } first (os ++ [o]) ∧
    hdr.amsdu.hdrs = e.buf.hdr.amsdu.hdrs ++ [sub] ∧ sub.packetLen = o.length + padFor e.buf ∧
    hdr.amsdu.len ≤ s.amsduLen

variable {s : State} {o : Offer} {mapped : Bool} {i : Nat} {e : Entry}

theorem getElem?_of_hosts (hosts : s.Hosts o i e) : s.skList[i]? = some e := by
  cases hosts with
  | joins _ found => exact found
  | pairs _ last => rwa [List.getLast?_eq_getElem?] at last

theorem grows_joinOpen (sound : s.Sound) (current : s.amsdu = some i)
    (found : s.skList[i]? = some e) (fits : s.adjust.Joins e.buf.hdr o)
    (maps : mapped = true ∨ s.conf.bus ≠ .pcie) :
    (s.adjust.joinOpen i e o mapped).2 = none ∧
      s.Grows i e o (s.adjust.joinOpen i e o mapped).1 := by
  obtain ⟨first, os, offers, made⟩ := sound.entries e (List.mem_of_getElem? found)
  obtain ⟨e', found', open'⟩ := sound.current i current
  obtain rfl : e = e' := Option.some.inj (found.symm.trans found')
  have some := made.flag.mp open'
  have subs : e.buf.hdr.amsdu.hdrs ≠ [] := by
    intro none
    have all := made.subs
    rw [none] at all
    exact some (List.forall₂_nil_right_iff.mp all)
  rw [joinOpen, if_pos fits]
  rcases s.conf.addHeader_cases e.buf.hdr mapped o made.pad with ⟨unmapped, bus, _⟩ |
      ⟨_, sub, carries, padded, added⟩
  · rcases maps with maps | maps
    · exact absurd (unmapped.symm.trans maps) Bool.false_ne_true
    · exact absurd bus maps
  · have added' : s.adjust.conf.addHeader e.buf.hdr mapped (s.adjust.conf.expand o.skb) =
        .ok (e.buf.hdr.grown o sub) := added
    simp only [added']
    refine ⟨trivial, rfl, rfl, ?_, e.buf.hdr.grown o sub, sub, first, os, rfl, offers, ?_, rfl,
      ?_, ?_⟩
    · split_ifs
      · exact Or.inl rfl
      · exact Or.inr rfl
    · refine made.grown carries padded fits.1 (made.nb some) (made.len some) ?_
      rw [Finset.insert_eq_of_mem open']
      rfl
    · rw [AmsduTxhdr.packetLen, carries.msduLen, padded, padFor, if_neg subs]
    · have within := fits.2.2.2
      change e.buf.hdr.amsdu.len + (o.length + e.buf.hdr.amsdu.pad) ≤ s.amsduLen
      change e.buf.hdr.amsdu.len + e.buf.hdr.amsdu.pad + o.length ≤ s.amsduLen at within
      omega

theorem grows_pairLast (sound : s.Sound) (found : s.skList[i]? = some e)
    (fits : s.adjust.Pairs e.buf o) (maps : mapped = true ∨ s.conf.bus ≠ .pcie) :
    (s.adjust.pairLast i e o mapped).2 = none ∧
      s.Grows i e o (s.adjust.pairLast i e o mapped).1 := by
  obtain ⟨one, os, offers, made⟩ := sound.entries e (List.mem_of_getElem? found)
  obtain rfl : os = [] := made.nil_of_len fits.1
  have subs : e.buf.hdr.amsdu.hdrs = [] := List.forall₂_nil_left_iff.mp made.subs
  rw [pairLast, if_pos fits]
  rcases s.conf.addHeader_cases (first e.buf) mapped o (amsduPadding_le _) with
    ⟨unmapped, bus, _⟩ | ⟨_, sub, carries, padded, added⟩
  · rcases maps with maps | maps
    · exact absurd (unmapped.symm.trans maps) Bool.false_ne_true
    · exact absurd bus maps
  · have added' : s.adjust.conf.addHeader (first e.buf) mapped (s.adjust.conf.expand o.skb) =
        .ok ((first e.buf).grown o sub) := added
    simp only [added']
    refine ⟨trivial, rfl, rfl, ?_, _, sub, one, [], rfl, offers,
      made.first.grown carries padded fits.2.2.2.1 rfl made.firstLength rfl, ?_, ?_, ?_⟩
    · split_ifs
      · exact Or.inr rfl
      · exact Or.inl rfl
    · rw [subs]
      rfl
    · rw [AmsduTxhdr.packetLen, carries.msduLen, padded, padFor, if_pos subs]
      rfl
    · have within := fits.2.2.2.2
      change firstLength e.buf + (o.length + amsduPadding (firstLength e.buf)) ≤ s.amsduLen
      change firstLength e.buf + amsduPadding (firstLength e.buf) + o.length ≤ s.amsduLen at within
      omega

/-- Where A-MSDUs are allowed, a frame is offered to the buffer that is open. -/
theorem addSubframe_joins (fine : ¬(s.adjust.amsduLen = 0 ∨ s.adjust.maxnb < 2))
    (current : s.amsdu = some i) (found : s.skList[i]? = some e) :
    s.addSubframe o mapped = s.adjust.joinOpen i e o mapped := by
  have current' : s.adjust.amsdu = some i := current
  have found' : s.adjust.skList[i]? = some e := found
  rw [addSubframe]
  simp only [if_neg fine, current', found']

/-- Where none is open, it is offered to the last buffer. -/
theorem addSubframe_pairs (fine : ¬(s.adjust.amsduLen = 0 ∨ s.adjust.maxnb < 2))
    (idle : s.amsdu = none) (last : s.skList.getLast? = some e) :
    s.addSubframe o mapped = s.adjust.pairLast (s.skList.length - 1) e o mapped := by
  have idle' : s.adjust.amsdu = none := idle
  have last' : s.adjust.skList.getLast? = some e := last
  rw [addSubframe]
  simp only [if_neg fine, idle', last']
  rfl

/-- A frame that has a host is added to it. -/
theorem grows_of_hosts (sound : s.Sound) (allowed : s.Allowed mapped) (hosts : s.Hosts o i e) :
    (s.addSubframe o mapped).2 = none ∧ s.Grows i e o (s.addSubframe o mapped).1 := by
  obtain ⟨len, maxnb, maps⟩ := allowed
  have fine : ¬(s.adjust.amsduLen = 0 ∨ s.adjust.maxnb < 2) :=
    not_or.mpr ⟨len, Int.not_lt.mpr maxnb⟩
  have found := getElem?_of_hosts hosts
  cases hosts with
  | joins current _ fits =>
      rw [addSubframe_joins fine current found]
      exact grows_joinOpen sound current found fits maps
  | pairs idle last fits =>
      rw [addSubframe_pairs fine idle last]
      exact grows_pairLast sound found fits maps

/-- No frame was added to a buffer; the last one may be left the first of
an A-MSDU without others. -/
structure Stays (s s' : State) : Prop where
  conf : s'.conf = s.conf
  amsduLen : s'.amsduLen = s.amsduLen
  amsdu : s'.amsdu = none ∨ s'.amsdu = s.amsdu
  skList : s'.skList = s.skList ∨ s.amsdu = none ∧ ∃ i e, s.skList[i]? = some e ∧
    e.buf.hdr.amsdu.len = 0 ∧ firstLength e.buf ≤ s.amsduLen ∧
    s'.skList = s.skList.modify i fun f => { f with buf := { f.buf with hdr := first e.buf } }

theorem stays_adjust (s : State) : Stays s s.adjust := ⟨rfl, rfl, .inr rfl, .inl rfl⟩

/-- A frame that is not added is given back as it was. -/
def GivesBack (s : State) (o : Offer) (result : State × Option Skb) : Prop :=
  ∃ skb, result.2 = some skb ∧ skb.data = o.skb.data ∧
    skb.headroom.length = (s.conf.expand o.skb).headroom.length ∧ Stays s result.1

theorem givesBack_joinOpen (sound : s.Sound) (found : s.skList[i]? = some e)
    (alone : ¬(s.adjust.Joins e.buf.hdr o ∧ (mapped = true ∨ s.conf.bus ≠ .pcie))) :
    s.GivesBack o (s.adjust.joinOpen i e o mapped) := by
  obtain ⟨_, _, _, made⟩ := sound.entries e (List.mem_of_getElem? found)
  have stays : Stays s { s.adjust with amsdu := none } := ⟨rfl, rfl, .inl rfl, .inl rfl⟩
  rw [joinOpen]
  split_ifs with fits
  · rcases s.conf.addHeader_cases e.buf.hdr mapped o made.pad with
      ⟨_, _, back, failed, data, room⟩ | ⟨maps, _⟩
    · have failed' : s.adjust.conf.addHeader e.buf.hdr mapped (s.adjust.conf.expand o.skb) =
          .error back := failed
      simp only [failed']
      exact ⟨back, rfl, data, room, stays⟩
    · exact absurd ⟨fits, maps⟩ alone
  · exact ⟨_, rfl, s.conf.expand_data o.skb, rfl, stays⟩

theorem givesBack_pairLast (idle : s.amsdu = none) (found : s.skList[i]? = some e)
    (alone : ¬(s.adjust.Pairs e.buf o ∧ (mapped = true ∨ s.conf.bus ≠ .pcie))) :
    s.GivesBack o (s.adjust.pairLast i e o mapped) := by
  rw [pairLast]
  split_ifs with fits
  · rcases s.conf.addHeader_cases (first e.buf) mapped o (amsduPadding_le _) with
      ⟨_, _, back, failed, data, room⟩ | ⟨maps, _⟩
    · have failed' : s.adjust.conf.addHeader (first e.buf) mapped (s.adjust.conf.expand o.skb) =
          .error back := failed
      have within := fits.2.2.2.2
      change firstLength e.buf + amsduPadding (firstLength e.buf) + o.length ≤ s.amsduLen at within
      simp only [failed']
      exact ⟨back, rfl, data, room, rfl, rfl, .inr rfl,
        .inr ⟨idle, i, e, found, fits.1, by omega, rfl⟩⟩
    · exact absurd ⟨fits, maps⟩ alone
  · exact ⟨_, rfl, s.conf.expand_data o.skb, rfl, s.stays_adjust⟩

/-- A frame that has no host is not added. -/
theorem givesBack_of_not_hosts (sound : s.Sound)
    (alone : s.Allowed mapped → ∀ i e, ¬s.Hosts o i e) :
        s.GivesBack o (s.addSubframe o mapped) := by
  have kept : s.GivesBack o (s.adjust, some (s.conf.expand o.skb)) :=
    ⟨_, rfl, s.conf.expand_data o.skb, rfl, s.stays_adjust⟩
  by_cases off : s.adjust.amsduLen = 0 ∨ s.adjust.maxnb < 2
  · rw [addSubframe]
    simp only [if_pos off]
    exact kept
  · have allowed : (mapped = true ∨ s.conf.bus ≠ .pcie) → s.Allowed mapped :=
      fun maps => ⟨fun none => off (.inl none), Int.not_lt.mp fun less => off (.inr less), maps⟩
    cases current : s.amsdu with
    | some i =>
        cases found : s.skList[i]? with
        | none =>
            have current' : s.adjust.amsdu = some i := current
            have found' : s.adjust.skList[i]? = none := found
            rw [addSubframe]
            simp only [if_neg off, current', found']
            exact kept
        | some e =>
            rw [addSubframe_joins off current found]
            exact givesBack_joinOpen sound found fun ⟨fits, maps⟩ =>
              alone (allowed maps) i e (.joins current found fits)
    | none =>
        cases last : s.skList.getLast? with
        | none =>
            have current' : s.adjust.amsdu = none := current
            have last' : s.adjust.skList.getLast? = none := last
            rw [addSubframe]
            simp only [if_neg off, current', last']
            exact kept
        | some e =>
            have found : s.skList[s.skList.length - 1]? = some e := by
              rwa [List.getLast?_eq_getElem?] at last
            rw [addSubframe_pairs off current last]
            exact givesBack_pairLast current found fun ⟨fits, maps⟩ =>
              alone (allowed maps) _ e (.pairs current last fits)

/-! ## Runs -/

theorem forall_mem_modify {α : Type} {P : α → Prop} {list : List α} {i : Nat} {f : α → α}
    (all : ∀ a ∈ list, P a) (changed : ∀ a, list[i]? = some a → P (f a)) :
    ∀ a ∈ list.modify i f, P a := by
  intro a member
  obtain ⟨j, found⟩ := List.getElem?_of_mem member
  rw [List.getElem?_modify, Option.map_eq_map] at found
  obtain ⟨b, source, rfl⟩ := Option.map_eq_some_iff.mp found
  split_ifs with same
  · exact changed b (same ▸ source)
  · exact all b (List.mem_of_getElem? source)

theorem getElem?_modify_self {α : Type} {list : List α} {i : Nat} {f : α → α} {a : α}
    (found : list[i]? = some a) : (list.modify i f)[i]? = some (f a) := by
  rw [List.getElem?_modify, found, Option.map_eq_map, Option.map_some, if_pos rfl]

theorem Sound.of_grows {s' : State} (sound : s.Sound) (hosts : s.Hosts o i e)
    (grows : s.Grows i e o s') : s'.Sound := by
  obtain ⟨hdr, sub, one, os, skList, offers, made, _, _, within⟩ := grows.grown
  have found := getElem?_of_hosts hosts
  have some : os ++ [o] ≠ [] := List.append_ne_nil_of_right_ne_nil os (List.cons_ne_nil o [])
  refine ⟨?_, ?_, ?_, fun usb => ?_⟩
  · rw [skList, grows.conf]
    refine forall_mem_modify sound.entries fun f found' => ?_
    obtain rfl : e = f := Option.some.inj (found.symm.trans found')
    exact ⟨one, os ++ [o], by rw [offers]; rfl, made⟩
  · rw [skList, grows.amsduLen]
    exact forall_mem_modify sound.within fun _ _ _ => within
  · intro j current
    rcases grows.amsdu with none | open'
    · exact nomatch none.symm.trans current
    · obtain rfl : i = j := Option.some.inj (open'.symm.trans current)
      exact ⟨_, by rw [skList, getElem?_modify_self found], made.flag.mpr some⟩
  · rw [grows.amsduLen]
    exact sound.usb (grows.conf ▸ usb)

theorem Sound.of_stays {s' : State} (sound : s.Sound) (stays : Stays s s') : s'.Sound := by
  have usb : s'.conf.bus = .usb → s'.amsduLen ≤ usbAmsduBufLen := by
    rw [stays.conf, stays.amsduLen]
    exact sound.usb
  rcases stays.skList with same | ⟨idle, i, e, found, none, within, marked⟩
  · refine ⟨?_, ?_, fun j current => ?_, usb⟩
    · rw [same, stays.conf]
      exact sound.entries
    · rw [same, stays.amsduLen]
      exact sound.within
    · rw [same]
      rcases stays.amsdu with closed | kept
      · exact nomatch closed.symm.trans current
      · exact sound.current j (kept.symm.trans current)
  · refine ⟨?_, ?_, fun j current => ?_, usb⟩
    · rw [marked, stays.conf]
      refine forall_mem_modify sound.entries fun f found' => ?_
      obtain rfl : e = f := Option.some.inj (found.symm.trans found')
      obtain ⟨one, os, offers, made⟩ := sound.entries e (List.mem_of_getElem? found)
      obtain rfl := made.nil_of_len none
      exact ⟨one, [], offers, made.first⟩
    · rw [marked, stays.amsduLen]
      exact forall_mem_modify sound.within fun _ _ _ => within
    · rcases stays.amsdu with closed | kept
      · exact nomatch closed.symm.trans current
      · exact nomatch idle.symm.trans (kept.symm.trans current)

theorem startXmit_of_none {s : State} {o : Offer} {mapped : Bool}
    (added : (s.addSubframe o mapped).2 = none) (alloc : Bool) :
    s.startXmit o mapped alloc = (s.addSubframe o mapped).1 := by
  rw [startXmit, ← Prod.eta (s.addSubframe o mapped), added]

/-- A frame that is not added is queued behind the others, or dropped. -/
theorem startXmit_of_some {s : State} {o : Offer} {mapped : Bool} {skb : Skb}
    (back : (s.addSubframe o mapped).2 = some skb) (alloc : Bool) :
    s.startXmit o mapped alloc =
      if alloc then { (s.addSubframe o mapped).1 with
        skList := (s.addSubframe o mapped).1.skList ++
          [⟨(s.addSubframe o mapped).1.conf.prepare o skb, [o], (s.addSubframe o mapped).1.maxnb⟩] }
      else (s.addSubframe o mapped).1 := by
  rw [startXmit, ← Prod.eta (s.addSubframe o mapped), back]

theorem Sound.startXmit (sound : s.Sound) (o : Offer) (mapped alloc : Bool) :
    (s.startXmit o mapped alloc).Sound := by
  by_cases hosted : s.Allowed mapped ∧ ∃ i e, s.Hosts o i e
  · obtain ⟨allowed, i, e, hosts⟩ := hosted
    obtain ⟨added, grows⟩ := grows_of_hosts sound allowed hosts
    rw [startXmit_of_none added]
    exact sound.of_grows hosts grows
  · obtain ⟨skb, back, data, room, stays⟩ := givesBack_of_not_hosts sound fun allowed i e hosts =>
      hosted ⟨allowed, i, e, hosts⟩
    have kept := sound.of_stays stays
    rw [startXmit_of_some back]
    split_ifs
    · have made : MadeOf (s.addSubframe o mapped).1.conf
          ((s.addSubframe o mapped).1.conf.prepare o skb) o [] :=
        madeOf_prepare o data (stays.conf.symm ▸ room)
      refine ⟨?_, ?_, fun i current => ?_, kept.usb⟩
      · refine List.forall_mem_append.mpr ⟨kept.entries, List.forall_mem_singleton.mpr ?_⟩
        exact ⟨o, [], rfl, made⟩
      · refine List.forall_mem_append.mpr ⟨kept.within, List.forall_mem_singleton.mpr fun _ => ?_⟩
        exact Nat.zero_le _
      · obtain ⟨e, found, flag⟩ := kept.current i current
        exact ⟨e, List.getElem?_append_left (List.getElem?_eq_some_iff.mp found).1 ▸ found, flag⟩
    · exact kept

theorem amsduLenOn_le (bus : Bus) (amsduLen : Nat) :
    amsduLenOn bus amsduLen ≤ amsduLen ∧
        (bus = .usb → amsduLenOn bus amsduLen ≤ usbAmsduBufLen) := by
  rw [amsduLenOn]
  split_ifs with usb
  · exact ⟨Nat.min_le_left _ _, fun _ => Nat.min_le_right _ _⟩
  · exact ⟨Nat.le_refl _, fun is => absurd is usb⟩

theorem Sound.updateLen (sound : s.Sound) (amsduLen : Nat) (alloc : Nat → Nat → Bool) :
    (s.updateLen amsduLen alloc).Sound := by
  have usb := (amsduLenOn_le s.conf.bus amsduLen).2
  rw [State.updateLen]
  split_ifs with more
  · refine ⟨sound.entries, fun e member flag => ?_, sound.current, usb⟩
    have within := sound.within e member flag
    change e.buf.hdr.amsdu.len ≤ amsduLenOn s.conf.bus amsduLen
    rw [amsduLenOn]
    split_ifs with is
    · have most := sound.usb is
      omega
    · omega
  · have parts : ∀ e ∈ (s.skList.mapIdx fun i e =>
        if .amsdu ∈ e.buf.hdr.desc.flags ∧ amsduLen < e.buf.hdr.amsdu.len then
          e.dismantle s.conf (alloc i) else [e]).flatten,
        e.Sound s.conf ∧ (.amsdu ∈ e.buf.hdr.desc.flags →
          e.buf.hdr.amsdu.len ≤ amsduLenOn s.conf.bus amsduLen) := by
      intro part member
      obtain ⟨list, inside, member⟩ := List.mem_flatten.mp member
      obtain ⟨i, less, rfl⟩ := List.mem_mapIdx.mp inside
      have source := List.getElem_mem less
      split_ifs at member with large
      · obtain ⟨kept, none⟩ := (sound.entries _ source).dismantle (alloc i) part member
        exact ⟨kept, fun flag => absurd flag none⟩
      · obtain rfl := List.mem_singleton.mp member
        refine ⟨sound.entries _ source, fun flag => ?_⟩
        have within := sound.within _ source flag
        have small := Nat.not_lt.mp fun larger => large ⟨flag, larger⟩
        rw [amsduLenOn]
        split_ifs with is
        · have most := sound.usb is
          omega
        · exact small
    exact ⟨fun e member => (parts e member).1, fun e member => (parts e member).2, nofun, usb⟩

theorem Sound.push (sound : s.Sound) (count : Nat) : (s.push count).Sound := by
  refine ⟨fun e member => sound.entries e (List.mem_of_mem_drop member),
    fun e member => sound.within e (List.mem_of_mem_drop member), fun i current => ?_, sound.usb⟩
  obtain ⟨j, open', moved⟩ := Option.bind_eq_some_iff.mp current
  split_ifs at moved with gone
  obtain rfl := Option.some.inj moved
  obtain ⟨e, found, flag⟩ := sound.current j open'
  refine ⟨e, ?_, flag⟩
  change (s.skList.drop count)[j - count]? = some e
  rw [List.getElem?_drop, Nat.add_sub_cancel' (Nat.not_lt.mp gone)]
  exact found

theorem Sound.step (sound : s.Sound) (event : Event) : (s.step event).Sound := by
  cases event with
  | startXmit o mapped alloc => exact sound.startXmit o mapped alloc
  | setMaxnb maxnb => exact ⟨sound.entries, sound.within, sound.current, sound.usb⟩
  | updateLen amsduLen alloc => exact sound.updateLen amsduLen alloc
  | push count => exact sound.push count

/-- In every queue that is reached, buffers are made of the frames that were added to them. -/
theorem Sound.after (sound : s.Sound) (events : List Event) : (s.after events).Sound := by
  induction events generalizing s with
  | nil => exact sound
  | cons event events induction => exact induction (sound.step event)

end State

end Aggregate

end AmlW2.Tx
