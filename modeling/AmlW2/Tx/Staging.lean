import AmlW2.Tx.Subframes
import AmlW2.Lib.Run

/-!
# Staging an A-MSDU

`aml_tx_task` copies an A-MSDU into one buffer before it goes to the bus.  Its length is bounded as
it is built, with headers that differ from those of the copy, and the number of its frames is looked
at after a frame was added.  This file gives the runs in which A-MSDUs have no more frames than they
may and fit in the buffer.
-/

namespace AmlW2.Tx

namespace Aggregate

/-! ## The copy -/

/-- `ALIGN`. -/
def align (n unit : Nat) : Nat := (n + unit - 1) / unit * unit

/-- `sizeof(struct txdesc_host)`. -/
def txdescLen : Nat := 72

/-- `SDIO_TXHEADER_LEN`. -/
def sdioTxheaderLen : Nat := 4 + 72

/-- `AMSDU_BUF_MAX`. -/
def amsduBufMax : Nat := 9600

/-- `SDIO_BLKSIZE`. -/
def sdioBlksize : Nat := 512

/-- `frame_tot_len`. -/
def frameTotLen (hdr : SwTxhdr) : Nat :=
  ((hdr.desc.packetLen :: hdr.amsdu.packetLen).take hdr.desc.packetCnt).foldr (· + ·) 0

/-- What `aml_tx_task` stages of an A-MSDU. -/
structure Staged where
  /-- The bytes copied. -/
  copied : Nat
  /-- The bytes that the scatter list tells of. -/
  scattered : Nat
  /-- The bytes of the buffer. -/
  capacity : Nat
deriving DecidableEq

/-- `aml_tx_task`, which does not run on PCIe. -/
def stage (bus : Bus) (hdr : SwTxhdr) : Option Staged :=
  match bus with
  | .pcie => none
  | .sdio =>
      let packetLen := frameTotLen hdr + sdioTxheaderLen
      some {
        copied := hdr.frameLen + sdioTxheaderLen + totalLen hdr.amsdu.hdrs
        scattered := align packetLen sdioBlksize
        capacity := if 4096 ≤ packetLen then amsduBufMax else align packetLen sdioBlksize }
  | .usb =>
      let amsduLen := hdr.frameLen + txdescLen + totalLen hdr.amsdu.hdrs
      some { copied := amsduLen, scattered := align amsduLen 4, capacity := usbAmsduBufLen }

/-- What is staged fits in its buffer. -/
def Staged.Fits (staged : Staged) : Prop :=
  staged.copied ≤ staged.capacity ∧ staged.scattered ≤ staged.capacity

instance (staged : Staged) : Decidable staged.Fits := inferInstanceAs (Decidable (_ ∧ _))

/-- Subframes of a length can be staged. -/
def StagesWithin (bus : Bus) (length : Nat) : Prop :=
  match bus with
  | .pcie => True
  | .sdio =>
      length + sdioTxheaderLen < 4096 ∨ align (length + sdioTxheaderLen) sdioBlksize ≤ amsduBufMax
  | .usb => length + txdescLen ≤ usbAmsduBufLen

theorem le_align (n : Nat) {unit : Nat} (pos : 0 < unit) : n ≤ align n unit := by
  have rest := Nat.mod_lt (n + unit - 1) pos
  have split := Nat.div_add_mod (n + unit - 1) unit
  rw [Nat.mul_comm] at split
  rw [align]
  omega

theorem forall_mem_some {α : Type} {a : α} {P : α → Prop} : (∀ b ∈ some a, P b) ↔ P a :=
  ⟨fun all => all a rfl, fun holds _ member => Option.some.inj member ▸ holds⟩

variable {c : Conf} {buf : Buffer} {o : Offer} {os : List Offer}

/-- The lengths told to the firmware are those of the subframes. -/
theorem MadeOf.frameTotLen_eq (made : MadeOf c buf o os) :
    frameTotLen buf.hdr = buf.hdr.frameLen + totalLen buf.hdr.amsdu.hdrs := by
  have length : os.length = buf.hdr.amsdu.hdrs.length := made.subs.length_eq
  have sum : ∀ subs : List AmsduTxhdr,
      (subs.map AmsduTxhdr.packetLen).foldr (· + ·) 0 = totalLen subs := by
    intro subs
    induction subs with
    | nil => rfl
    | cons sub subs induction => rw [List.map_cons, List.foldr_cons, induction, totalLen]
  rw [frameTotLen, made.packetLens, made.packetLen, made.packetCnt, length, List.take_succ_cons,
    List.take_of_length_le (by rw [List.length_map]), List.foldr_cons, sum, made.frameLen]

/-- An A-MSDU is staged within its buffer exactly when its length is. -/
theorem MadeOf.stage_fits_iff (made : MadeOf c buf o os) (bus : Bus) :
    (∀ staged ∈ stage bus buf.hdr, staged.Fits) ↔
      StagesWithin bus (buf.hdr.frameLen + totalLen buf.hdr.amsdu.hdrs) := by
  cases bus with
  | pcie => exact iff_of_true nofun trivial
  | sdio =>
      have total := made.frameTotLen_eq
      have positive : 0 < sdioBlksize := by decide
      have le := le_align (frameTotLen buf.hdr + sdioTxheaderLen) positive
      have copied : buf.hdr.frameLen + sdioTxheaderLen + totalLen buf.hdr.amsdu.hdrs =
          frameTotLen buf.hdr + sdioTxheaderLen := by omega
      change (∀ staged ∈ some _, _) ↔ _ < 4096 ∨ _
      rw [← total, copied, forall_mem_some, Staged.Fits]
      simp only
      split_ifs with large
      · constructor
        · exact fun fits => .inr fits.2
        · rintro (small | fits)
          · omega
          · exact ⟨Nat.le_trans le fits, fits⟩
      · exact iff_of_true ⟨le, Nat.le_refl _⟩ (.inl (Nat.not_le.mp large))
  | usb =>
      change (∀ staged ∈ some _, _) ↔ _ + txdescLen ≤ usbAmsduBufLen
      rw [forall_mem_some, Staged.Fits, align, txdescLen, usbAmsduBufLen]
      simp only
      omega

/-! ## Runs -/

/-- An A-MSDU has no more frames than it might when the last was added, the firmware is told how
many they are, and they can be staged. -/
structure Entry.Bounded (c : Conf) (amsduLen : Nat) (e : Entry) : Prop where
  len : e.buf.hdr.amsdu.len ≤ amsduLen
  nb : (e.buf.hdr.amsdu.nb : Int) ≤ e.maxnb
  packetCnt : e.buf.hdr.amsdu.nb = e.buf.hdr.desc.packetCnt
  staged : ∀ staged ∈ stage c.bus e.buf.hdr, staged.Fits

namespace State

/-- All A-MSDUs are bounded. -/
def Bounded (s : State) : Prop :=
  ∀ e ∈ s.skList, .amsdu ∈ e.buf.hdr.desc.flags → e.Bounded s.conf s.amsduLen

/-- A frame that is added to a buffer makes one frame more, of those that there may be, and the
subframes can still be staged. -/
def Room (s : State) : Event → Prop
  | .startXmit o mapped _ => s.Allowed mapped → ∀ i e, s.Hosts o i e →
      (e.buf.hdr.desc.packetCnt : Int) + 1 ≤ s.adjust.maxnb ∧
        StagesWithin s.conf.bus
          (e.buf.hdr.frameLen + totalLen e.buf.hdr.amsdu.hdrs + (o.length + padFor e.buf))
  | _ => True

/-- `step`, which does not fail. -/
def proceed (s : State) (event : Event) : Except Empty State := .ok (s.step event)

variable {s s' : State} {o : Offer} {i : Nat} {e : Entry}

/-- The buffer that a frame was added to is bounded exactly when there was room. -/
theorem bounded_of_grows_iff (sound : s.Sound) (hosts : s.Hosts o i e) (grows : s.Grows i e o s') :
    ∃ e', s'.skList[i]? = some e' ∧ .amsdu ∈ e'.buf.hdr.desc.flags ∧
      (e'.Bounded s'.conf s'.amsduLen ↔
        (e.buf.hdr.desc.packetCnt : Int) + 1 ≤ s.adjust.maxnb ∧
          StagesWithin s.conf.bus
            (e.buf.hdr.frameLen + totalLen e.buf.hdr.amsdu.hdrs + (o.length + padFor e.buf))) := by
  obtain ⟨hdr, sub, one, os, skList, offers, made, subs, length, within⟩ := grows.grown
  have found := getElem?_of_hosts hosts
  obtain ⟨one', os', offers', old⟩ := sound.entries e (List.mem_of_getElem? found)
  obtain ⟨rfl, rfl⟩ := List.cons.inj (offers.symm.trans offers')
  have some : os ++ [o] ≠ [] := List.append_ne_nil_of_right_ne_nil os (List.cons_ne_nil o [])
  have nb : hdr.amsdu.nb = e.buf.hdr.desc.packetCnt + 1 := by
    have count := made.nb some
    rw [List.length_append] at count
    rw [old.packetCnt]
    exact count
  have cnt : hdr.desc.packetCnt = e.buf.hdr.desc.packetCnt + 1 := by
    have count := made.packetCnt
    rw [List.length_append] at count
    rw [old.packetCnt]
    exact count
  have total : hdr.frameLen + totalLen hdr.amsdu.hdrs =
      e.buf.hdr.frameLen + totalLen e.buf.hdr.amsdu.hdrs + (o.length + padFor e.buf) := by
    have frameLen : hdr.frameLen = e.buf.hdr.frameLen := made.frameLen.trans old.frameLen.symm
    rw [subs, totalLen_append, totalLen, totalLen, Nat.add_zero, length, frameLen, Nat.add_assoc]
  have staged := made.stage_fits_iff s.conf.bus
  simp only [total] at staged
  refine ⟨_, by rw [skList, getElem?_modify_self found], made.flag.mpr some, ?_⟩
  rw [grows.conf, grows.amsduLen]
  constructor
  · intro bounded
    have most := bounded.nb
    simp only [nb] at most
    exact ⟨by exact_mod_cast most, staged.mp bounded.staged⟩
  · rintro ⟨most, fits⟩
    refine ⟨within, ?_, nb.trans cnt.symm, staged.mpr fits⟩
    simp only [nb]
    exact_mod_cast most

theorem Bounded.of_grows (sound : s.Sound) (bounded : s.Bounded) (hosts : s.Hosts o i e)
    (grows : s.Grows i e o s')
    (room : (e.buf.hdr.desc.packetCnt : Int) + 1 ≤ s.adjust.maxnb ∧
      StagesWithin s.conf.bus
        (e.buf.hdr.frameLen + totalLen e.buf.hdr.amsdu.hdrs + (o.length + padFor e.buf))) :
    s'.Bounded := by
  obtain ⟨e', found', _, iff⟩ := bounded_of_grows_iff sound hosts grows
  obtain ⟨hdr, _, _, _, skList, _⟩ := grows.grown
  have found := getElem?_of_hosts hosts
  intro f member flag
  rw [skList] at member found'
  obtain rfl := Option.some.inj ((getElem?_modify_self found).symm.trans found')
  revert f
  refine forall_mem_modify (fun f member flag => ?_) fun f source _ => ?_
  · rw [grows.conf, grows.amsduLen]
    exact bounded f member flag
  · obtain rfl : e = f := Option.some.inj (found.symm.trans source)
    exact iff.mpr room

theorem Bounded.of_stays (bounded : s.Bounded) (sound : s.Sound) (stays : Stays s s') :
    s'.Bounded := by
  rw [Bounded, stays.conf, stays.amsduLen]
  rcases stays.skList with same | ⟨_, i, e, found, none, _, marked⟩
  · rw [same]
    exact bounded
  · rw [marked]
    refine forall_mem_modify bounded fun f source flag => ?_
    obtain rfl : e = f := Option.some.inj (found.symm.trans source)
    obtain ⟨_, os, _, made⟩ := sound.entries e (List.mem_of_getElem? found)
    exact absurd (made.nil_of_len none) (made.flag.mp flag)

theorem Bounded.step (sound : s.Sound) (bounded : s.Bounded) {event : Event} (room : s.Room event) :
    (s.step event).Bounded := by
  cases event with
  | startXmit o mapped alloc =>
      change (s.startXmit o mapped alloc).Bounded
      by_cases hosted : s.Allowed mapped ∧ ∃ i e, s.Hosts o i e
      · obtain ⟨allowed, i, e, hosts⟩ := hosted
        obtain ⟨added, grows⟩ := grows_of_hosts sound allowed hosts
        rw [startXmit_of_none added]
        exact Bounded.of_grows sound bounded hosts grows (room allowed i e hosts)
      · obtain ⟨skb, back, _, _, stays⟩ := givesBack_of_not_hosts sound fun allowed i e hosts =>
          hosted ⟨allowed, i, e, hosts⟩
        have kept := bounded.of_stays sound stays
        rw [startXmit_of_some back]
        split_ifs
        · refine List.forall_mem_append.mpr ⟨kept, List.forall_mem_singleton.mpr fun flag => ?_⟩
          exact absurd flag (amsdu_notMem_flagsOf _ o)
        · exact kept
  | setMaxnb maxnb => exact bounded
  | updateLen amsduLen alloc =>
      have within := (sound.updateLen amsduLen alloc).within
      intro e member flag
      have source : e ∈ s.skList := by
        change e ∈ (s.updateLen amsduLen alloc).skList at member
        rw [updateLen] at member
        split_ifs at member
        · exact member
        · obtain ⟨list, inside, member⟩ := List.mem_flatten.mp member
          obtain ⟨j, less, rfl⟩ := List.mem_mapIdx.mp inside
          split_ifs at member
          · have alone := (sound.entries _ (List.getElem_mem less)).dismantle (alloc j) e member
            exact absurd flag alone.2
          · exact List.mem_singleton.mp member ▸ List.getElem_mem less
      have conf : (s.updateLen amsduLen alloc).conf = s.conf := by
        rw [updateLen]
        split_ifs
        · rfl
        · rfl
      have old := bounded e source flag
      exact ⟨within e member flag, old.nb, old.packetCnt, conf.symm ▸ old.staged⟩
  | push count => exact fun e member flag => bounded e (List.mem_of_mem_drop member) flag

/-- In every run, A-MSDUs are bounded throughout exactly when there is room for each frame that is
added to one. -/
theorem bounded_iff_room (conf : Conf) (maxnb : Int) (events : List Event) :
    Run.Throughout proceed Bounded events (init conf maxnb) ↔
      Run.Guarded proceed Room events (init conf maxnb) := by
  have preserved : ∀ s event next, State.Sound s ∧ s.Bounded → True → s.Room event →
      s.proceed event = .ok next → next.Sound ∧ next.Bounded := by
    intro s event next both _ room stepped
    cases stepped
    exact ⟨both.1.step event, Bounded.step both.1 both.2 room⟩
  have sharp : ∀ s event, State.Sound s ∧ s.Bounded → True → ¬s.Room event →
      ∃ next, s.proceed event = .ok next ∧ ¬next.Bounded := by
    intro s event both _ full
    refine ⟨_, rfl, fun bounded => full ?_⟩
    cases event with
    | startXmit o mapped alloc =>
        intro allowed i e hosts
        obtain ⟨added, grows⟩ := grows_of_hosts both.1 allowed hosts
        change (s.startXmit o mapped alloc).Bounded at bounded
        rw [startXmit_of_none added] at bounded
        obtain ⟨e', found, flag, iff⟩ := bounded_of_grows_iff both.1 hosts grows
        exact iff.mp (bounded e' (List.mem_of_getElem? found) flag)
    | setMaxnb maxnb => exact trivial
    | updateLen amsduLen alloc => exact trivial
    | push count => exact trivial
  exact Run.throughout_iff_guarded preserved (fun s both => both.2) sharp (fun _ _ => trivial)
    ⟨sound_init conf maxnb, nofun⟩

/-- A frame of IPv4 with a payload. -/
def payloadFrame (count : Nat) (small : count < 60000) : Offer where
  skb := ⟨[], [2, 0, 0, 0, 0, 1, 2, 0, 0, 0, 0, 2, 8, 0] ++ List.replicate count 0⟩
  vif := ⟨0, none, false, none, false⟩
  spFrame := false
  jiffies := 5
  header_le := by simp
  length_lt := by simp; omega

/-- Three frames with a VLAN tag for a queue on USB. -/
def threeTagged : List Event :=
  [.updateLen 4624 fun _ _ => true, .startXmit (payloadFrame 1504 (by decide)) true true,
    .startXmit (payloadFrame 1504 (by decide)) true true,
    .startXmit (payloadFrame 1504 (by decide)) true true]

/-- Three frames for a queue on SDIO, and another one when no more than two are allowed. -/
def lowered : List Event :=
  [.updateLen 4000 fun _ _ => true, .startXmit (payloadFrame 1 (by decide)) true true,
    .startXmit (payloadFrame 1 (by decide)) true true,
    .startXmit (payloadFrame 1 (by decide)) true true, .setMaxnb 2,
    .startXmit (payloadFrame 1 (by decide)) true true]

/-- A run goes through the state it ends in. -/
theorem throughout_after {events : List Event} {s : State} {good : State → Prop}
    (throughout : Run.Throughout proceed good events s) : good (s.after events) := by
  have ends : ∀ (events : List Event) (s : State),
      Run.run proceed events s = .ok (s.after events) := by
    intro events
    induction events with
    | nil => exact fun s => rfl
    | cons event events induction => exact fun s => induction (s.step event)
  exact throughout events [] _ (List.append_nil events).symm (ends events s)

/-- The tagged frames overrun the buffer they are staged in, and the other A-MSDU gets a fourth
frame. -/
theorem overfull :
    ((init ⟨.usb, 56, 3, 0⟩ 6).after threeTagged).skList.map
        (fun e => (decide (.amsdu ∈ e.buf.hdr.desc.flags), stage .usb e.buf.hdr)) =
          [(true, some ⟨4632, 4632, 4624⟩)] ∧
      ¬Run.Throughout proceed Bounded threeTagged (init ⟨.usb, 56, 3, 0⟩ 6) ∧
      ((init ⟨.sdio, 56, 3, 0⟩ 6).after lowered).skList.map
        (fun e => (decide (.amsdu ∈ e.buf.hdr.desc.flags), e.buf.hdr.amsdu.nb, e.maxnb)) =
          [(true, 4, 2)] ∧
      ¬Run.Throughout proceed Bounded lowered (init ⟨.sdio, 56, 3, 0⟩ 6) := by
  have staged : ((init ⟨.usb, 56, 3, 0⟩ 6).after threeTagged).skList.map
      (fun e => (decide (.amsdu ∈ e.buf.hdr.desc.flags), stage .usb e.buf.hdr)) =
        [(true, some ⟨4632, 4632, 4624⟩)] := by
    decide +kernel
  have bus : ((init ⟨.usb, 56, 3, 0⟩ 6).after threeTagged).conf.bus = .usb := by
    decide +kernel
  have counted : ((init ⟨.sdio, 56, 3, 0⟩ 6).after lowered).skList.map
      (fun e => (decide (.amsdu ∈ e.buf.hdr.desc.flags), e.buf.hdr.amsdu.nb, e.maxnb)) =
        [(true, 4, 2)] := by
    decide +kernel
  refine ⟨staged, fun bounded => ?_, counted, fun bounded => ?_⟩
  · obtain ⟨e, member, view⟩ := List.mem_map.mp (staged ▸ List.mem_singleton_self _)
    obtain ⟨flag, stages⟩ := Prod.mk.inj view
    have fits := (throughout_after bounded e member (of_decide_eq_true flag)).staged
    rw [bus] at fits
    exact absurd (fits _ stages) (by decide)
  · obtain ⟨e, member, view⟩ := List.mem_map.mp (counted ▸ List.mem_singleton_self _)
    simp only [Prod.mk.injEq, decide_eq_true_eq] at view
    have most := (throughout_after bounded e member view.1).nb
    rw [view.2.1, view.2.2] at most
    exact absurd most (by decide)

end State

end Aggregate

end AmlW2.Tx
