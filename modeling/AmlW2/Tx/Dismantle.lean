import AmlW2.Tx.Subframes

/-!
# Taking an A-MSDU apart

When the length of A-MSDUs is reduced, those that are too long are taken apart again, and their
frames are queued in their place.  Each frame gets a copy of the header of the first one, so that it
is sent as it would have been alone only if it has the first one's type, time, interface and flags.
-/

namespace AmlW2.Tx

namespace Aggregate

open Rx (EthHdr)

/-- What a buffer says of its frame; `amsdu.pad` is read in an A-MSDU only. -/
def Buffer.view (buf : Buffer) : Buffer :=
  { buf with hdr := { buf.hdr with amsdu := { buf.hdr.amsdu with pad := 0 } } }

/-- The header of an A-MSDU goes for a frame alone in what is copied to it. -/
structure Shares (c : Conf) (hdr : SwTxhdr) (o : Offer) : Prop where
  vif : hdr.vif = o.vif.index
  jiffies : hdr.jiffies = o.jiffies
  ethertype : hdr.desc.ethertype = o.eth.hProto
  vifIdx : hdr.desc.vifIdx = o.vif.master.getD o.vif.index
  flags : hdr.desc.flags.erase .amsdu = c.flagsOf o

instance (c : Conf) (hdr : SwTxhdr) (o : Offer) : Decidable (Shares c hdr o) :=
  decidable_of_iff (hdr.vif = o.vif.index ∧ hdr.jiffies = o.jiffies ∧
      hdr.desc.ethertype = o.eth.hProto ∧ hdr.desc.vifIdx = o.vif.master.getD o.vif.index ∧
      hdr.desc.flags.erase .amsdu = c.flagsOf o)
    ⟨fun ⟨vif, jiffies, ethertype, vifIdx, flags⟩ => ⟨vif, jiffies, ethertype, vifIdx, flags⟩,
      fun shares => ⟨shares.vif, shares.jiffies, shares.ethertype, shares.vifIdx, shares.flags⟩⟩

/-- `aml_amsdu_dismantle`, of the A-MSDU at a place of the queue. -/
def State.dismantleAt (s : State) (i : Nat) (alloc : Nat → Bool) : State :=
  { s with
    skList := s.skList.take i ++
      ((s.skList[i]?).elim [] (Entry.dismantle s.conf alloc) ++ s.skList.drop (i + 1)) }

/-- The frames of an A-MSDU are back in its place, each as `aml_start_xmit` would have queued it
alone, and the others where they were. -/
def State.Restores (s : State) (i : Nat) (e : Entry) (after : State) : Prop :=
  after.skList.map (fun e => e.buf.view) =
    (s.skList.take i).map (fun e => e.buf.view) ++
      (e.offers.map (fun o => (s.conf.alone o).view) ++
        (s.skList.drop (i + 1)).map fun e => e.buf.view)

variable {c : Conf} {buf : Buffer} {o p : Offer} {os : List Offer}

/-- For which frames a header goes does not depend on its A-MSDU flag. -/
theorem shares_congr {hdr hdr' : SwTxhdr} (vif : hdr'.vif = hdr.vif)
    (jiffies : hdr'.jiffies = hdr.jiffies) (ethertype : hdr'.desc.ethertype = hdr.desc.ethertype)
    (vifIdx : hdr'.desc.vifIdx = hdr.desc.vifIdx)
    (flags : hdr'.desc.flags = hdr.desc.flags.erase .amsdu) :
    Shares c hdr' o ↔ Shares c hdr o := by
  have erased := congrArg (Finset.erase · .amsdu) flags
  rw [Finset.erase_idem] at erased
  constructor
  · intro goes
    exact ⟨vif ▸ goes.vif, jiffies ▸ goes.jiffies, ethertype ▸ goes.ethertype,
      vifIdx ▸ goes.vifIdx, erased ▸ goes.flags⟩
  · intro goes
    exact ⟨vif.trans goes.vif, jiffies.trans goes.jiffies, ethertype.trans goes.ethertype,
      vifIdx.trans goes.vifIdx, erased.trans goes.flags⟩

/-- A frame alone is queued as `aml_start_xmit` would have queued it exactly when its header goes
for it. -/
theorem view_alone_iff (made : MadeOf c buf p []) (len : buf.hdr.amsdu.len = 0)
    (nb : buf.hdr.amsdu.nb = 0) : buf.view = (c.alone p).view ↔ Shares c buf.hdr p := by
  have data := c.expand_data p.skb
  have erased : buf.hdr.desc.flags.erase .amsdu = buf.hdr.desc.flags :=
    Finset.erase_eq_of_notMem fun flag => made.flag.mp flag rfl
  obtain ⟨dest, source⟩ := made.addrs p List.mem_cons_self
  have eth : (EthHdr.read (c.expand p.skb).data) = p.eth := by
    rw [data]
    rfl
  constructor
  · intro same
    have hdr := congrArg Buffer.hdr same
    refine ⟨congrArg SwTxhdr.vif hdr, congrArg SwTxhdr.jiffies hdr,
      (congrArg (fun h => h.desc.ethertype) hdr).trans (congrArg EthHdr.hProto eth),
      congrArg (fun h => h.desc.vifIdx) hdr, erased.trans (congrArg (fun h => h.desc.flags) hdr)⟩
  · intro shares
    have subs : buf.hdr.amsdu.hdrs = [] := List.forall₂_nil_left_iff.mp made.subs
    have lens : buf.hdr.amsdu.packetLen = [] := by
      rw [made.packetLens, subs, List.map_nil]
    have addr := made.packetAddr
    have mpdu := made.mpduLen
    have desc : buf.hdr.desc = (c.alone p).hdr.desc := by
      apply HostDesc.ext
      · exact addr
      · exact made.packetLen.trans (by rw [← data]; rfl)
      · exact made.packetCnt
      · exact (congrArg EthHdr.hDest eth ▸ dest).symm
      · exact (congrArg EthHdr.hSource eth ▸ source).symm
      · exact shares.ethertype.trans (congrArg EthHdr.hProto eth).symm
      · exact erased.symm.trans shares.flags
      · exact made.tid
      · exact shares.vifIdx
      · exact made.staid
    have frameLen : buf.hdr.frameLen = (c.alone p).hdr.frameLen :=
      made.frameLen.trans (by rw [← data]; rfl)
    have frame : buf.data = (c.alone p).data := made.data.trans data.symm
    simp only [Buffer.view, desc, frameLen, frame, mpdu, subs, len, nb, lens, shares.vif,
      shares.jiffies]
    rfl

/-- The further subframes are queued as they would have been alone exactly when they all get a
header, and the first one's goes for them. -/
theorem parts_alone_iff (made : MadeOf c buf o os) (alloc : Nat → Bool) (maxnb : Int)
    {ps : List Offer} {subs : List AmsduTxhdr} (within : ps ⊆ os)
    (carry : List.Forall₂ (Carries c) ps subs) :
    (((subs.mapIdx fun j sub => c.part buf.hdr.reduced (alloc j) sub).zip ps).filterMap
        (ofPart maxnb)).map (fun e => e.buf.view) = ps.map (fun p => (c.alone p).view) ↔
    (∀ j < subs.length, alloc j = true) ∧ ∀ p ∈ ps, Shares c buf.hdr p := by
  induction carry generalizing alloc with
  | nil => exact iff_of_true rfl ⟨nofun, nofun⟩
  | @cons p sub ps subs carries carry induction =>
      obtain ⟨member, within⟩ := List.cons_subset.mp within
      have next := induction (fun j => alloc (j + 1)) within
      have split : (∀ j < (sub :: subs).length, alloc j = true) ↔
          alloc 0 = true ∧ ∀ j < subs.length, alloc (j + 1) = true := by
        refine ⟨fun all =>
          ⟨all 0 (Nat.zero_lt_succ _), fun j less => all (j + 1) (Nat.succ_lt_succ less)⟩,
          fun all j less => ?_⟩
        cases j with
        | zero => exact all.1
        | succ j => exact all.2 j (Nat.lt_of_succ_lt_succ less)
      rw [List.mapIdx_cons, List.zip_cons_cons, split, List.forall_mem_cons, List.map_cons]
      rcases made.part member carries (alloc 0) with ⟨none, off⟩ | ⟨on, part, some, single, facts⟩
      · rw [none, List.filterMap_cons_none (by rfl)]
        -- a frame that is dropped leaves too few
        refine iff_of_false (fun same => ?_) fun all => Bool.false_ne_true (off.symm.trans all.1.1)
        have length := congrArg List.length same
        rw [List.length_map, List.length_cons, List.length_map] at length
        have most := Nat.le_trans (Nat.le_of_eq length.symm) (List.length_filterMap_le _ _)
        rw [List.length_zip] at most
        omega
      · rw [some, List.filterMap_cons_some (by rfl), List.map_cons]
        have shares : part.view = (c.alone p).view ↔ Shares c buf.hdr p := by
          obtain ⟨vif, jiffies, ethertype, vifIdx, flags, len, nb⟩ := facts
          exact (view_alone_iff single len nb).trans
            (shares_congr vif jiffies ethertype vifIdx flags)
        refine (List.cons_eq_cons.trans (and_congr shares next)).trans ⟨?_, ?_⟩
        · rintro ⟨one, all, others⟩
          exact ⟨⟨on, all⟩, one, others⟩
        · rintro ⟨⟨_, all⟩, one, others⟩
          exact ⟨one, all, others⟩

/-- What is queued in the place of an A-MSDU is what `aml_start_xmit` would have queued for its
frames exactly when every further one gets a header, and that of the A-MSDU goes for all of them. -/
theorem dismantle_alone_iff {e : Entry} (sound : e.Sound c) (alloc : Nat → Bool) :
    (e.dismantle c alloc).map (fun part => part.buf.view) =
      e.offers.map (fun o => (c.alone o).view) ↔
    (∀ j < e.buf.hdr.amsdu.hdrs.length, alloc j = true) ∧
      ∀ o ∈ e.offers, Shares c e.buf.hdr o := by
  obtain ⟨o, os, offers, made⟩ := sound
  have first : ({ e.buf with hdr := e.buf.hdr.reduced } : Buffer).view = (c.alone o).view ↔
      Shares c e.buf.hdr o :=
    (view_alone_iff made.reduced rfl rfl).trans (shares_congr rfl rfl rfl rfl rfl)
  have others := parts_alone_iff made alloc e.maxnb (List.Subset.refl os) made.subs
  rw [Entry.dismantle, Conf.parts, offers, List.zip_cons_cons, List.filterMap_cons_some (by rfl),
    List.map_cons, List.map_cons, List.forall_mem_cons]
  refine (List.cons_eq_cons.trans (and_congr first others)).trans ⟨?_, ?_⟩
  · rintro ⟨one, all, others⟩
    exact ⟨all, one, others⟩
  · rintro ⟨all, one, others⟩
    exact ⟨one, all, others⟩

/-- An A-MSDU of a sound queue is restored exactly when its frames share its header. -/
theorem State.Sound.restores_iff {s : State} (sound : s.Sound) {i : Nat} {e : Entry}
    (found : s.skList[i]? = some e) (alloc : Nat → Bool) :
    s.Restores i e (s.dismantleAt i alloc) ↔
      (∀ j < e.buf.hdr.amsdu.hdrs.length, alloc j = true) ∧
        ∀ o ∈ e.offers, Shares s.conf e.buf.hdr o := by
  rw [← dismantle_alone_iff (sound.entries e (List.mem_of_getElem? found)) alloc, State.Restores,
    State.dismantleAt, found, Option.elim_some, List.map_append, List.map_append,
    List.append_cancel_left_eq, List.append_cancel_right_eq]

/-- In every queue that is reached, an A-MSDU that is taken apart is restored exactly when each of
its further frames gets a header, and that of the A-MSDU goes for all of them. -/
theorem restores_iff_shares (conf : Conf) (maxnb : Int) (events : List State.Event) (i : Nat)
    (e : Entry) (alloc : Nat → Bool)
    (found : ((State.init conf maxnb).after events).skList[i]? = some e) :
    ((State.init conf maxnb).after events).Restores i e
        (((State.init conf maxnb).after events).dismantleAt i alloc) ↔
      (∀ j < e.buf.hdr.amsdu.hdrs.length, alloc j = true) ∧
        ∀ o ∈ e.offers, Shares ((State.init conf maxnb).after events).conf e.buf.hdr o :=
  ((State.sound_init conf maxnb).after events).restores_iff found alloc

/-- A station on an interface without features. -/
def plainVif : Vif := ⟨0, none, false, none, false⟩

theorem etherFrame_header (proto : List UInt8) (length : proto.length = 2) :
    14 ≤ ([2, 0, 0, 0, 0, 1, 2, 0, 0, 0, 0, 2] ++ proto ++ [7]).length := by
  simp [length]

theorem etherFrame_length (proto : List UInt8) (length : proto.length = 2) :
    ([2, 0, 0, 0, 0, 1, 2, 0, 0, 0, 0, 2] ++ proto ++ [7]).length < 65536 := by
  simp [length]

/-- A frame of a type with one byte of payload. -/
def oneByte (proto : List UInt8) (length : proto.length = 2) : Offer where
  skb := ⟨[], [2, 0, 0, 0, 0, 1, 2, 0, 0, 0, 0, 2] ++ proto ++ [7]⟩
  vif := plainVif
  spFrame := false
  jiffies := 5
  header_le := etherFrame_header proto length
  length_lt := etherFrame_length proto length

/-- The type of an IPv4 frame. -/
def ipv4 : List UInt8 := [8, 0]

theorem ipv4_length : ipv4.length = 2 := rfl

theorem ipv6_length : ([0x86, 0xDD] : List UInt8).length = 2 := rfl

/-- An IPv4 frame and another frame for the same station. -/
def twoFrames (proto : List UInt8) (length : proto.length = 2) : List State.Event :=
  [.updateLen 4000 fun _ _ => true, .startXmit (oneByte ipv4 ipv4_length) true true,
    .startXmit (oneByte proto length) true true]

/-- A queue on SDIO. -/
def sdioQueue : State := .init ⟨.sdio, 56, 3, 0⟩ 6

theorem sameType_restores :
    ∃ e, (sdioQueue.after (twoFrames ipv4 ipv4_length)).skList[0]? = some e ∧ e.offers.length = 2 ∧
      (sdioQueue.after (twoFrames ipv4 ipv4_length)).Restores 0 e
        ((sdioQueue.after (twoFrames ipv4 ipv4_length)).dismantleAt 0 fun _ => true) := by
  have outcome : (sdioQueue.after (twoFrames ipv4 ipv4_length)).skList[0]?.map (fun e =>
      (e.offers.length, decide (∀ o ∈ e.offers,
        Shares (sdioQueue.after (twoFrames ipv4 ipv4_length)).conf e.buf.hdr o))) =
            some (2, true) := by
    decide +kernel
  obtain ⟨e, found, facts⟩ := Option.map_eq_some_iff.mp outcome
  simp only [Prod.mk.injEq, decide_eq_true_eq] at facts
  exact ⟨e, found, facts.1, (restores_iff_shares _ 6 _ 0 e _ found).mpr ⟨fun _ _ => rfl, facts.2⟩⟩

/-- After an IPv4 frame, an IPv6 frame is queued as an IPv4 frame. -/
theorem otherType_not_restored :
    ∃ e, (sdioQueue.after (twoFrames [0x86, 0xDD] ipv6_length)).skList[0]? = some e ∧
      e.offers.map (fun o => o.eth.hProto) = [[8, 0], [0x86, 0xDD]] ∧
      ((sdioQueue.after (twoFrames [0x86, 0xDD] ipv6_length)).dismantleAt 0 fun _ =>
        true).skList.map
        (fun e => e.buf.hdr.desc.ethertype) = [[8, 0], [8, 0]] ∧
      ¬(sdioQueue.after (twoFrames [0x86, 0xDD] ipv6_length)).Restores 0 e
        ((sdioQueue.after (twoFrames [0x86, 0xDD] ipv6_length)).dismantleAt 0 fun _ => true) := by
  have outcome : (sdioQueue.after (twoFrames [0x86, 0xDD] ipv6_length)).skList[0]?.map (fun e =>
      (e.offers.map (fun o => o.eth.hProto), decide (∀ o ∈ e.offers,
        Shares (sdioQueue.after (twoFrames [0x86, 0xDD] ipv6_length)).conf e.buf.hdr o))) =
        some ([[8, 0], [0x86, 0xDD]], false) := by
    decide +kernel
  obtain ⟨e, found, facts⟩ := Option.map_eq_some_iff.mp outcome
  simp only [Prod.mk.injEq, decide_eq_false_iff_not] at facts
  refine ⟨e, found, facts.1, by decide +kernel, fun restored => facts.2 ?_⟩
  have sound := (State.sound_init ⟨.sdio, 56, 3, 0⟩ 6).after (twoFrames [0x86, 0xDD] ipv6_length)
  exact ((sound.restores_iff found _).mp restored).2

end Aggregate

end AmlW2.Tx
