import AmlW2.Monitor.Radiotap

/-!
# What a radiotap parser finds

A parser goes through the bitmaps and finds each field at the next offset that its alignment allows.
The header is in order where these are the places at which the fields were written, inside the
length that was computed before.
-/

namespace AmlW2.Monitor

open Presence (Field Shape Laid alignUp)

/-! ## The standard parser -/

/-- The bits of a bitmap that stand for fields. -/
def fieldBits : Nat := 29

/-- The alignment and the size of a field. -/
def shape (bit : Nat) : Shape :=
  match bit with
  | 0 => ⟨8, 8⟩
  | 3 => ⟨2, 4⟩
  | 4 | 7 | 8 | 9 | 14 | 15 => ⟨2, 2⟩
  | 19 => ⟨1, 3⟩
  | 20 => ⟨4, 8⟩
  | 21 | 23 | 24 => ⟨2, 12⟩
  | 22 => ⟨8, 12⟩
  | 27 => ⟨2, 4⟩
  | _ => ⟨1, 1⟩

/-- The fields of the bitmaps, as far as they belong to radiotap. -/
def parseWords : List Nat → Nat → List Field
  | [], _ => []
  | word :: words, off =>
      let placed := Presence.place shape word off fieldBits
      placed.1 ++ if word.testBit 31 && word.testBit 29 then parseWords words placed.2 else []

/-- The fields of a header. -/
def Rtap.parsed (s : Rtap) : List Field := parseWords (s.itPresent :: s.following) s.start

/-- A header is written inside its length, and a parser finds its fields where they are. -/
structure Agrees (len : Nat) (s : Rtap) : Prop where
  bitmaps : s.start ≤ len
  stores : ∀ store ∈ s.stores, store.1 < len
  fields : s.fields = s.parsed

theorem size_of_parsed {words : List Nat} {off : Nat} {f : Field}
    (member : f ∈ parseWords words off) : f.size = (shape f.bit).size := by
  induction words generalizing off with
  | nil => cases member
  | cons word words induction =>
      rw [parseWords] at member
      split at member
      · rcases List.mem_append.mp member with first | later
        · exact Presence.size_of_mem first
        · exact induction later
      · rw [List.append_nil] at member
        exact Presence.size_of_mem member

/-! ## When they agree -/

/-- The antennas above the fourth, for which room is reckoned and nothing is written, make up for an
HE field. -/
def Spare (rx : RxVector) (hw : Option HwVect) : Prop :=
  2 ≤ rx.antNum ∧
    if hw.isSome then
      8 + 8 * ((rx.chains.length + 1) / 2) + 2 * rx.chains.length ≤
        8 * ((rx.antNum + 1) / 2) + 2 * rx.antNum
    else 10 + 6 * rx.chains.length ≤ 6 * rx.antNum

instance (rx : RxVector) (hw : Option HwVect) : Decidable (Spare rx hw) :=
  inferInstanceAs (Decidable (_ ∧ _))

/-- No frame with HT, no VHT frame of 40 MHz, and an HE frame that is not for a single user only
with room to spare. -/
def Regular (kernel : Kernel) (rx : RxVector) (phy : PhyInfo) (hw : Option HwVect) : Prop :=
  kernel.numBands ≤ phy.phyBand ∨ rx.formatMod ≤ 1 ∨ (rx.formatMod = 4 ∧ rx.chBw ≠ 1) ∨
    rx.formatMod = 5 ∨ (5 < rx.formatMod ∧ Spare rx hw)

/-! ## Writing -/

variable {kernel : Kernel} {rx : RxVector} {phy : PhyInfo} {hw : Option HwVect} {s : Rtap}
  {bit bit' stop : Nat} {cells : List (Option UInt8)}

theorem storesOf_lt {pos : Nat} {store : Nat × UInt8} (member : store ∈ storesOf pos cells) :
    store.1 < pos + cells.length := by
  induction cells generalizing pos with
  | nil => cases member
  | cons cell cells induction =>
      cases cell with
      | none =>
          have := induction member
          rw [List.length_cons]
          omega
      | some byte =>
          rw [List.length_cons]
          rcases List.mem_cons.mp member with rfl | later
          · omega
          · have := induction later
            omega

/-- The last byte that is passed is written if its cell is. -/
theorem mem_storesOf_last (byte : UInt8) (pos : Nat) :
    (pos + cells.length, byte) ∈ storesOf pos (cells ++ [some byte]) := by
  induction cells generalizing pos with
  | nil => simp [storesOf]
  | cons cell cells induction =>
      have later := induction (pos + 1)
      rw [show pos + 1 + cells.length = pos + (cells.length + 1) by omega] at later
      cases cell with
      | none => exact later
      | some first => exact List.mem_cons_of_mem _ later

theorem stores_put (before : ∀ store ∈ s.stores, store.1 < s.pos) :
    ∀ store ∈ (s.put cells).stores, store.1 < (s.put cells).pos := by
  intro store member
  rcases List.mem_append.mp member with old | new
  · exact (before store old).trans_le (Nat.le_add_right _ _)
  · exact storesOf_lt new

@[simp] theorem put_pos : (s.put cells).pos = s.pos + cells.length := rfl

@[simp] theorem data_pos : (s.data bit cells).pos = s.pos + cells.length := rfl

@[simp] theorem field_pos : (s.field bit cells).pos = s.pos + cells.length := rfl

theorem padTo_pos (s : Rtap) (align : Nat) (positive : 0 < align) :
    (s.padTo align).pos = alignUp s.pos align := by
  have := Presence.le_alignUp s.pos align positive
  simp [Rtap.padTo]
  omega

theorem skipTo_pos (s : Rtap) (align : Nat) (positive : 0 < align) :
    (s.skipTo align).pos = alignUp s.pos align := by
  have := Presence.le_alignUp s.pos align positive
  simp [Rtap.skipTo]
  omega

/-! ## The first bitmap -/

/-- The fields so far are where a parser finds them in the first bitmap, which began as a word and
ends at some offset, and nothing is written behind the position. -/
structure Parses (first : Nat) (more : List Nat) (s : Rtap) (bit stop : Nat) : Prop where
  laid : Laid shape fieldBits s.itPresent s.start bit s.fields stop
  high : ∀ i, fieldBits ≤ i → s.itPresent.testBit i = first.testBit i
  more_eq : s.following = more
  stores : ∀ store ∈ s.stores, store.1 < s.pos

variable {first : Nat} {more : List Nat}

theorem Parses.put (parses : Parses first more s bit stop) (cells : List (Option UInt8)) :
    Parses first more (s.put cells) bit stop :=
  ⟨parses.laid, parses.high, parses.more_eq, stores_put parses.stores⟩

theorem Parses.later (parses : Parses first more s bit stop) (le : bit ≤ bit')
    (within : bit' ≤ fieldBits) : Parses first more s bit' stop :=
  { parses with laid := parses.laid.later le within }

/-- A field is found if it begins at the next offset and has its size. -/
theorem Parses.field (parses : Parses first more s bit stop) (bit' : Nat)
    (cells : List (Option UInt8)) (le : bit ≤ bit') (lt : bit' < fieldBits)
      (aligned : s.pos = alignUp stop (shape bit').align)
    (sized : cells.length = (shape bit').size) :
    Parses first more (s.field bit' cells) (bit' + 1) (s.field bit' cells).pos := by
  have laid := parses.laid.add bit' le lt aligned
  rw [← sized] at laid
  refine ⟨laid, fun i high => ?_, parses.more_eq, stores_put parses.stores⟩
  have other : bit' ≠ i := by omega
  simp [Rtap.field, Rtap.data, Rtap.put, Nat.testBit_or, Nat.testBit_two_pow_of_ne other,
    parses.high i high]

/-- The parser is at the position, which is even. -/
structure Ready (first : Nat) (more : List Nat) (s : Rtap) (bit : Nat) : Prop where
  parses : Parses first more s bit s.pos
  even : s.pos % 2 = 0

theorem alignUp_two {off : Nat} (even : off % 2 = 0) : alignUp off 2 = off := by
  rw [alignUp]
  omega

theorem Ready.tsft (ready : Ready first more s 0) (hw : Option HwVect) :
    Ready first more (s.tsft hw) 1 := by
  unfold Rtap.tsft
  cases hw with
  | none => exact ⟨ready.parses.later (Nat.zero_le 1) (by decide), ready.even⟩
  | some hw =>
      have found := (ready.parses.put (List.replicate (alignUp s.pos 8 - s.pos) (some 0))).field
        0 (le32 hw.tsfLo ++ le32 hw.tsfHi) (Nat.le_refl 0) (by decide)
        (padTo_pos s 8 (by decide)) rfl
      refine ⟨found, ?_⟩
      rw [field_pos, padTo_pos s 8 (by decide), alignUp]
      simp [le32]
      omega

/-- The flags and the rate: a field, or a byte that is passed. -/
theorem Ready.rate (ready : Ready first more s 1) {s' : Rtap}
    (rated : (s.flags rx hw).rate kernel rx phy = some s') :
    ∃ stop, Parses first more s' 3 stop ∧ s'.pos = s.pos + 2 ∧ s'.pos = alignUp stop 2 := by
  have flags := ready.parses.field 1 [orCell (flag (hw.any fun hw => !hw.frmSuccessfulRx)
    0x40 ||| flag (!rx.preType && rx.formatMod ≤ 1) 0x02)] (Nat.le_refl 1) (by decide)
    (Presence.alignUp_one _).symm rfl
  have even := ready.even
  unfold Rtap.rate at rated
  split at rated
  · obtain ⟨rate, -, rfl⟩ := Option.map_eq_some_iff.mp rated
    refine ⟨_, flags.field 2 [some rate] (Nat.le_refl 2) (by decide)
      (Presence.alignUp_one _).symm rfl, rfl, (alignUp_two ?_).symm⟩
    simp only [Rtap.flags, field_pos, List.length_singleton]
    omega
  · cases rated
    refine ⟨_, (flags.put [some 0]).later (by decide) (by decide), rfl, ?_⟩
    simp only [put_pos, field_pos, List.length_singleton, alignUp, Rtap.flags]
    omega

theorem Parses.channel (parses : Parses first more s 3 stop) (rx : RxVector) (phy : PhyInfo)
    (aligned : s.pos = alignUp stop 2) (even : s.pos % 2 = 0) :
    Ready first more (s.channel rx phy) 4 := by
  refine ⟨parses.field 3 _ (Nat.le_refl 3) (by decide) aligned rfl, ?_⟩
  simp only [Rtap.channel, field_pos, le16, List.length_append, List.length_cons, List.length_nil]
  omega

theorem Ready.antenna (ready : Ready first more s 4) (rx : RxVector) :
    Ready first more (s.antenna rx) 12 := by
  unfold Rtap.antenna
  split
  · have signal := ready.parses.field 5 [some rx.rssi1] (by decide) (by decide)
      (Presence.alignUp_one _).symm rfl
    have antenna := signal.field 11 [some rx.antennaSet] (by decide) (by decide)
      (Presence.alignUp_one _).symm rfl
    refine ⟨antenna, ?_⟩
    have even := ready.even
    simp only [field_pos, List.length_singleton]
    omega
  · exact ⟨ready.parses.later (by decide) (by decide), ready.even⟩

theorem Ready.rxFlags (ready : Ready first more s 12) : Ready first more s.rxFlags 15 := by
  have even := ready.even
  have padded := padTo_pos s 2 (by decide)
  rw [alignUp_two even] at padded
  have found := (ready.parses.put (List.replicate (alignUp s.pos 2 - s.pos) (some 0))).field
    14 (le16 0) (by decide) (by decide) (padTo_pos s 2 (by decide)) rfl
  refine ⟨found, ?_⟩
  simp only [Rtap.rxFlags, field_pos, padded, le16, List.length_cons, List.length_nil]
  omega

theorem Ready.ampdu (ready : Ready first more s 15) : Ready first more (s.ampdu rx hw) 21 := by
  unfold Rtap.ampdu
  have none_added : Ready first more s 21 :=
    ⟨ready.parses.later (by decide) (by decide), ready.even⟩
  cases hw with
  | none => exact none_added
  | some hw =>
      dsimp only
      split
      · have found := (ready.parses.put (List.replicate (alignUp s.pos 4 - s.pos) none)).field
          20 (le32 hw.ampduCnt ++ le32 0) (by decide) (by decide) (skipTo_pos s 4 (by decide)) rfl
        refine ⟨found, ?_⟩
        rw [field_pos, skipTo_pos s 4 (by decide), alignUp]
        simp [le32]
        omega
      · exact none_added

/-- The cells of a VHT frame that is not of 40 MHz. -/
theorem Ready.vht (ready : Ready first more s 21) (wide : rx.formatMod = 4 → rx.chBw ≠ 1) :
    Ready first more (s.vht rx phy) 22 := by
  unfold Rtap.vht
  have even := ready.even
  split
  · rename_i vht
    refine ⟨ready.parses.field 21 _ (Nat.le_refl 21) (by decide) (alignUp_two even).symm ?_, ?_⟩
    · simp [le16, vhtBandwidth, wide vht, shape]
    · simp [le16, vhtBandwidth, wide vht]
      omega
  · exact ⟨ready.parses.later (by decide) (by decide), even⟩

theorem Ready.he (ready : Ready first more s 22) : Ready first more (s.he rx) 29 := by
  unfold Rtap.he
  have even := ready.even
  split
  · have found := (ready.parses.put (List.replicate (alignUp s.pos 2 - s.pos) none)).field
      23 (heData rx) (by decide) (by decide) (skipTo_pos s 2 (by decide)) rfl
    refine ⟨found.later (by decide) (Nat.le_refl _), ?_⟩
    rw [field_pos, skipTo_pos s 2 (by decide), alignUp_two even]
    simp [heData, le16]
    omega
  · exact ⟨ready.parses.later (by decide) (Nat.le_refl _), even⟩

/-- Without HT, and for VHT not of 40 MHz, the parser is at the position behind the last field. -/
theorem Parses.rest (parses : Parses first more s 3 stop) (phy : PhyInfo) (hw : Option HwVect)
    (aligned : s.pos = alignUp stop 2) (even : s.pos % 2 = 0)
    (noHt : rx.formatMod ≠ 2 ∧ rx.formatMod ≠ 3)
    (wide : rx.formatMod = 4 → rx.chBw ≠ 1) : Ready first more (s.rest rx phy hw) 29 := by
  have flags := ((parses.channel rx phy aligned even).antenna rx).rxFlags
  have passed : (((s.channel rx phy).antenna rx).rxFlags).mcs rx =
      ((s.channel rx phy).antenna rx).rxFlags := by
    rw [Rtap.mcs, if_neg]
    omega
  rw [Rtap.rest, passed]
  exact (flags.ampdu.vht wide).he

/-! ## The chains -/

/-- The signals and numbers of some chains. -/
def chainFields : Nat → Nat → List Field
  | 0, _ => []
  | n + 1, pos => ⟨5, pos, 1⟩ :: ⟨11, pos + 1, 1⟩ :: chainFields n (pos + 2)

/-- One after the other, the chains are written. -/
theorem foldl_chains (rssi : UInt8) (chains : List Nat) (s : Rtap) :
    let s' := chains.foldl
      (fun s chain => (s.data 5 [some rssi]).data 11 [some (UInt8.ofNat chain)]) s
    s'.pos = s.pos + 2 * chains.length ∧ s'.itPresent = s.itPresent ∧
      s'.following = s.following ∧ s'.fields = s.fields ++ chainFields chains.length s.pos ∧
      ((∀ store ∈ s.stores, store.1 < s.pos) → ∀ store ∈ s'.stores, store.1 < s'.pos) ∧
      ((∃ store ∈ s.stores, store.1 + 1 = s.pos) → ∃ store ∈ s'.stores, store.1 + 1 = s'.pos) := by
  induction chains generalizing s with
  | nil => simp [chainFields]
  | cons chain chains induction =>
      obtain ⟨pos, present, following, fields, stores, last⟩ :=
        induction ((s.data 5 [some rssi]).data 11 [some (UInt8.ofNat chain)])
      refine ⟨?_, present, following, ?_, fun before => stores ?_, fun _ => last ?_⟩
      · simp only [List.foldl_cons, pos, data_pos, List.length_cons, List.length_nil]
        omega
      · simp only [List.foldl_cons, fields, data_pos, List.length_cons, chainFields]
        simp [Rtap.data, Rtap.put, Nat.add_assoc]
      · exact stores_put (stores_put before)
      · exact ⟨(s.pos + 1, UInt8.ofNat chain), by simp [Rtap.data, Rtap.put, storesOf], rfl⟩

/-- What a parser finds under the bitmap of a chain. -/
theorem place_signal (high : Nat) (clear : ∀ i < fieldBits, high.testBit i = false) (off : Nat) :
    Presence.place shape (antennaSignal ||| high) off fieldBits =
      ([⟨5, off, 1⟩, ⟨11, off + 1, 1⟩], off + 2) := by
  have word : antennaSignal ||| high = high ||| 2 ^ 5 ||| 2 ^ 11 := by
    rw [Nat.or_assoc, Nat.or_comm high, antennaSignal, Nat.or_comm (2 ^ 5)]
  have empty : Laid shape fieldBits high off 0 [] off := .nil clear
  have signal := empty.add 5 (by decide) (by decide) (Presence.alignUp_one _).symm
  have antenna := signal.add 11 (by decide) (by decide) (Presence.alignUp_one _).symm
  rw [word, antenna.place_eq (by decide)]
  rfl

/-- A parser finds the chains under their bitmaps. -/
theorem parseWords_bitmaps (vendor : Bool) (chains : List Nat) (off : Nat) :
    parseWords (bitmaps vendor chains antennaSignal) off = chainFields (chains.length + 1) off := by
  induction chains generalizing off with
  | nil =>
      cases vendor with
      | false =>
          have placed := place_signal 0 (by simp) off
          have ends : (antennaSignal.testBit 31 && antennaSignal.testBit 29) = false := by decide
          rw [Nat.or_zero] at placed
          simp [bitmaps, parseWords, placed, ends, chainFields]
      | true =>
          have placed := place_signal nextVendor (by decide) off
          have ends : ((antennaSignal ||| nextVendor).testBit 31 &&
            (antennaSignal ||| nextVendor).testBit 29) = false := by decide
          simp only [bitmaps, if_true, parseWords, placed, ends, Bool.false_eq_true, if_false,
            List.append_nil, List.length_nil, chainFields]
  | cons chain chains induction =>
      have placed := place_signal nextRadiotap (by decide) off
      have goes_on : ((antennaSignal ||| nextRadiotap).testBit 31 &&
        (antennaSignal ||| nextRadiotap).testBit 29) = true := by decide
      simp only [bitmaps, parseWords, placed, goes_on, if_true, induction, List.length_cons,
        chainFields, List.cons_append, List.nil_append]

/-! ## The whole header -/

/-- The header as it is before the first field. -/
def Rtap.begin (rx : RxVector) (hw : Option HwVect) : Rtap where
  itPresent := (bitmaps hw.isNone rx.chains 0).headD 0
  following := (bitmaps hw.isNone rx.chains 0).tail
  pos := 4 + 4 * (bitmaps hw.isNone rx.chains 0).length
  stores := []
  fields := []

/-- The first bitmap, with the bits that lead to the next one. -/
def firstBitmap (vendor : Bool) (chains : List Nat) : Nat :=
  if chains = [] then if vendor then nextVendor else 0 else nextRadiotap

/-- The bitmaps behind it. -/
def moreBitmaps (vendor : Bool) : List Nat → List Nat
  | [] => if vendor then [1] else []
  | _ :: chains => bitmaps vendor chains antennaSignal

theorem bitmaps_eq (vendor : Bool) (chains : List Nat) :
    bitmaps vendor chains 0 = firstBitmap vendor chains :: moreBitmaps vendor chains := by
  cases chains with
  | nil => cases vendor <;> simp [bitmaps, firstBitmap, moreBitmaps]
  | cons chain chains => simp [bitmaps, firstBitmap, moreBitmaps]

theorem length_bitmaps (vendor : Bool) (chains : List Nat) (val : Nat) :
    (bitmaps vendor chains val).length = chains.length + if vendor then 2 else 1 := by
  induction chains generalizing val with
  | nil => cases vendor <;> simp [bitmaps]
  | cons chain chains induction =>
      rw [bitmaps, List.length_cons, induction, List.length_cons]
      omega

theorem firstBitmap_clear (vendor : Bool) (chains : List Nat) :
    ∀ i < fieldBits, (firstBitmap vendor chains).testBit i = false := by
  unfold firstBitmap
  split
  · cases vendor <;> decide
  · decide

theorem begin_ready (rx : RxVector) (hw : Option HwVect) :
    Ready (firstBitmap hw.isNone rx.chains) (moreBitmaps hw.isNone rx.chains) (Rtap.begin rx hw)
      0 := by
  have split := bitmaps_eq hw.isNone rx.chains
  have clear := firstBitmap_clear hw.isNone rx.chains
  refine ⟨⟨?_, fun i _ => ?_, ?_, fun store member => by cases member⟩, ?_⟩
  · have start : (Rtap.begin rx hw).pos = (Rtap.begin rx hw).start := by
      simp [Rtap.begin, Rtap.start, split]
    rw [start]
    simp only [Rtap.begin, split, List.headD_cons]
    exact .nil clear
  · simp [Rtap.begin, split]
  · simp [Rtap.begin, split]
  · simp only [Rtap.begin]
    omega

/-- Behind the last field of the first bitmap, the parser finds the chains as they are written. -/
theorem Ready.rxChains
    (ready : Ready (firstBitmap hw.isNone rx.chains) (moreBitmaps hw.isNone rx.chains) s 29) :
    (s.rxChains rx).fields = (s.rxChains rx).parsed := by
  obtain ⟨-, present, following, fields, -, -⟩ := foldl_chains rx.rssi1 rx.chains s
  have placed := ready.parses.laid.place_eq (Nat.le_refl _)
  have high := ready.parses.high
  have start : (s.rxChains rx).start = s.start := by
    rw [Rtap.start, Rtap.rxChains, following, Rtap.start]
  rw [Rtap.parsed, start, Rtap.rxChains, fields, present, following, ready.parses.more_eq,
    parseWords, placed, high 31 (by decide), high 29 (by decide)]
  cases told : rx.chains with
  | nil =>
      have ends : ((firstBitmap hw.isNone []).testBit 31 &&
          (firstBitmap hw.isNone []).testBit 29) = false := by
        cases hw.isNone <;> decide
      rw [ends]
      rfl
  | cons chain chains =>
      have goes_on : ((firstBitmap hw.isNone (chain :: chains)).testBit 31 &&
          (firstBitmap hw.isNone (chain :: chains)).testBit 29) = true := by
        rw [firstBitmap, if_neg (List.cons_ne_nil _ _)]
        decide
      rw [goes_on]
      simp only [if_true, moreBitmaps, parseWords_bitmaps, List.length_cons]

/-! ## Where it ends -/

theorem tsft_pos (hw : Option HwVect) (s : Rtap) :
    (s.tsft hw).pos = if hw.isSome then alignUp s.pos 8 + 8 else s.pos := by
  cases hw with
  | none => rfl
  | some hw =>
      rw [Rtap.tsft, field_pos, padTo_pos s 8 (by decide)]
      rfl

theorem ampdu_pos (rx : RxVector) (hw : Option HwVect) (s : Rtap) :
    (s.ampdu rx hw).pos =
      if hw.isSome ∧ rx.aggregation then alignUp s.pos 4 + 8 else s.pos := by
  cases hw with
  | none => rfl
  | some hw =>
      rw [Rtap.ampdu]
      split
      · rename_i aggregated
        rw [field_pos, skipTo_pos s 4 (by decide), if_pos ⟨rfl, aggregated⟩]
        rfl
      · rename_i alone
        rw [if_neg fun both => alone both.2]

/-- Where the fields of the first bitmap end that follow the rate. -/
theorem rest_pos (noHt : rx.formatMod ≠ 2 ∧ rx.formatMod ≠ 3)
    (wide : rx.formatMod = 4 → rx.chBw ≠ 1) (even : s.pos % 2 = 0) :
    (s.rest rx phy hw).pos =
      (let p := s.pos + 6 + if rx.antNum = 1 then 2 else 0
       let p := if hw.isSome ∧ rx.aggregation then alignUp p 4 + 8 else p
       if 4 ≤ rx.formatMod then p + 12 else p) := by
  have channel : (s.channel rx phy).pos = s.pos + 4 := rfl
  have antenna : ((s.channel rx phy).antenna rx).pos =
      s.pos + 4 + if rx.antNum = 1 then 2 else 0 := by
    unfold Rtap.antenna
    split <;> simp [channel]
  have flags : ((s.channel rx phy).antenna rx).rxFlags.pos =
      s.pos + 6 + if rx.antNum = 1 then 2 else 0 := by
    rw [Rtap.rxFlags, field_pos, padTo_pos _ 2 (by decide), antenna,
      alignUp_two (by split <;> omega)]
    simp [le16]
    omega
  have passed : (((s.channel rx phy).antenna rx).rxFlags).mcs rx =
      ((s.channel rx phy).antenna rx).rxFlags := by
    rw [Rtap.mcs, if_neg]
    omega
  rw [Rtap.rest, passed]
  have counted := ampdu_pos rx hw ((s.channel rx phy).antenna rx).rxFlags
  rw [flags] at counted
  have aligned : ((((s.channel rx phy).antenna rx).rxFlags).ampdu rx hw).pos % 2 = 0 := by
    rw [counted, alignUp]
    split <;> split <;> omega
  simp only
  rw [← counted]
  generalize (((s.channel rx phy).antenna rx).rxFlags).ampdu rx hw = t at aligned ⊢
  unfold Rtap.he Rtap.vht
  by_cases vht : rx.formatMod = 4
  · rw [if_neg (fun he => by omega), if_pos vht, if_pos (Nat.le_of_eq vht.symm)]
    simp [le16, vhtBandwidth, wide vht]
  · rw [if_neg vht]
    by_cases he : 5 ≤ rx.formatMod
    · rw [if_pos he, if_pos (Nat.le_of_succ_le he), field_pos, skipTo_pos _ 2 (by decide),
        alignUp_two aligned]
      simp [heData, le16]
    · rw [if_neg he, if_neg (by omega)]

/-- Where the header ends. -/
def endPos (rx : RxVector) (hw : Option HwVect) : Nat :=
  let p := 8 + 4 * rx.chains.length + if hw.isNone then 4 else 0
  let p := (if hw.isSome then alignUp p 8 + 8 else p) + 8 + if rx.antNum = 1 then 2 else 0
  let p := if hw.isSome ∧ rx.aggregation then alignUp p 4 + 8 else p
  (if 4 ≤ rx.formatMod then p + 12 else p) + 2 * rx.chains.length

theorem chains_le (rx : RxVector) : rx.chains.length ≤ rx.antNum := by
  have more : (setBits rx.antennaSet 4).length ≤ (setBits rx.antennaSet 8).length :=
    ((List.range_sublist.mpr (by decide)).filter _).length_le
  unfold RxVector.chains
  split
  · exact more
  · exact Nat.zero_le _

/-- The length for a frame with its `hwvect`. -/
theorem amlRxRtapHdrlen_hw (noHt : rx.formatMod ≠ 2 ∧ rx.formatMod ≠ 3) :
    amlRxRtapHdrlen rx false =
      (if 1 < rx.antNum then 26 + 8 * ((rx.antNum + 1) / 2) + 2 * rx.antNum else 26) +
        (if 4 ≤ rx.formatMod then 10 else 0) +
          if rx.formatMod = 4 ∨ rx.formatMod = 5 then 12 else 0 := by
  unfold amlRxRtapHdrlen
  extract_lets first more stamped signal single even ht ampdu vht he chains
  have more_eq : more = if 1 < rx.antNum then 16 + 4 * rx.antNum else 16 := rfl
  have stamped_eq : stamped = (more + 7) / 8 * 8 + 8 := rfl
  have single_eq : single = if rx.antNum = 1 then stamped + 1 + 1 else stamped + 1 := rfl
  have even_eq : even = (single + 1) / 2 * 2 := rfl
  have ht_eq : ht = even := if_neg (by omega)
  have ampdu_eq : ampdu = if 4 ≤ rx.formatMod then (ht + 3) / 4 * 4 + 8 else ht := by
    refine if_congr ⟨fun counted => ?_, fun wide => ⟨Bool.false_ne_true, .inl wide⟩⟩ rfl rfl
    rcases counted.2 with wide | ⟨some_ht, -⟩
    · exact wide
    · omega
  have vht_eq : vht = if rx.formatMod = 4 then (ampdu + 1) / 2 * 2 + 12 else ampdu := rfl
  have he_eq : he = if rx.formatMod = 5 then (vht + 1) / 2 * 2 + 12 else vht := rfl
  have chains_eq : chains = if 1 < rx.antNum then he + 2 * rx.antNum else he := rfl
  rw [if_neg Bool.false_ne_true]
  clear_value more stamped single even ht ampdu vht he chains
  split_ifs at more_eq single_eq ampdu_eq vht_eq he_eq chains_eq ⊢ <;> omega

/-- The length for a frame with the vendor's data. -/
theorem amlRxRtapHdrlen_vendor (noHt : rx.formatMod ≠ 2 ∧ rx.formatMod ≠ 3) :
    amlRxRtapHdrlen rx true =
      (if 1 < rx.antNum then 22 + 6 * rx.antNum else 22) +
        if rx.formatMod = 4 ∨ rx.formatMod = 5 then 12 else 0 := by
  unfold amlRxRtapHdrlen
  extract_lets first more stamped signal single even ht ampdu vht he chains
  have more_eq : more = if 1 < rx.antNum then 16 + 4 * rx.antNum else 16 := rfl
  have stamped_eq : stamped = more := rfl
  have single_eq : single = if rx.antNum = 1 then stamped + 1 + 1 else stamped + 1 := rfl
  have even_eq : even = (single + 1) / 2 * 2 := rfl
  have ht_eq : ht = even := if_neg (by omega)
  have ampdu_eq : ampdu = ht := by simp only [ampdu, not_true, false_and, if_false]
  have vht_eq : vht = if rx.formatMod = 4 then (ampdu + 1) / 2 * 2 + 12 else ampdu := rfl
  have he_eq : he = if rx.formatMod = 5 then (vht + 1) / 2 * 2 + 12 else vht := rfl
  have chains_eq : chains = if 1 < rx.antNum then he + 2 * rx.antNum else he := rfl
  rw [if_pos rfl, alignUp]
  clear_value more stamped single even ht ampdu vht he chains
  split_ifs at more_eq single_eq vht_eq he_eq chains_eq ⊢ <;> omega

theorem aggregation_iff (noHt : rx.formatMod ≠ 2 ∧ rx.formatMod ≠ 3) :
    rx.aggregation = true ↔ 4 ≤ rx.formatMod := by
  unfold RxVector.aggregation
  split_ifs with wide ht
  · exact iff_of_true rfl wide
  · omega
  · exact iff_of_false id wide

/-- The header ends inside its length, unless it has an HE field that is not counted. -/
theorem endPos_le_iff (hw : Option HwVect) (noHt : rx.formatMod ≠ 2 ∧ rx.formatMod ≠ 3) :
    endPos rx hw ≤ amlRxRtapHdrlen rx hw.isNone ↔ rx.formatMod ≤ 5 ∨ Spare rx hw := by
  have le := chains_le rx
  have alone : rx.antNum ≤ 1 → rx.chains.length = 0 := by
    intro few
    rw [RxVector.chains, if_neg (by omega), List.length_nil]
  have aggregated := aggregation_iff noHt
  unfold Spare endPos
  extract_lets first stamped ampdu
  cases hw with
  | none =>
      have ampdu_eq : ampdu = 8 + 4 * rx.chains.length + 4 + 8 + if rx.antNum = 1 then 2 else 0 :=
        rfl
      have length := amlRxRtapHdrlen_vendor noHt
      have never : (none : Option HwVect).isSome = true ↔ False := by simp
      rw [Option.isNone_none, length]
      simp only [never, if_false]
      clear_value ampdu
      split_ifs at * <;> omega
  | some hw =>
      have stamped_eq : stamped = (8 + 4 * rx.chains.length + 0 + 7) / 8 * 8 + 8 + 8 +
        if rx.antNum = 1 then 2 else 0 := rfl
      have ampdu_eq : ampdu = if 4 ≤ rx.formatMod then (stamped + 3) / 4 * 4 + 8 else stamped := by
        simp only [ampdu, Option.isSome_some, true_and, aggregated]
        rfl
      have length := amlRxRtapHdrlen_hw noHt
      rw [Option.isNone_some, length]
      simp only [Option.isSome_some, if_true]
      clear_value stamped ampdu
      split_ifs at * <;> omega

/-- The length has room for what every header has. -/
theorem sixteen_le_hdrlen (rx : RxVector) (vendor : Bool) : 16 ≤ amlRxRtapHdrlen rx vendor := by
  unfold amlRxRtapHdrlen
  extract_lets first more stamped signal single even ht ampdu vht he chains
  have up := Presence.le_alignUp
  have more_le : 16 ≤ more := by
    simp only [more, first]
    split <;> omega
  have stamped_le : more ≤ stamped := by
    simp only [stamped]
    split
    · exact Nat.le_refl _
    · exact (up more 8 (by decide)).trans (Nat.le_add_right _ _)
  have single_le : stamped ≤ single := by
    simp only [single, signal]
    split <;> omega
  have even_le : single ≤ even := up single 2 (by decide)
  have ht_le : even ≤ ht := by
    simp only [ht]
    split <;> omega
  have ampdu_le : ht ≤ ampdu := by
    simp only [ampdu]
    split
    · exact (up ht 4 (by decide)).trans (Nat.le_add_right _ _)
    · exact Nat.le_refl _
  have vht_le : ampdu ≤ vht := by
    simp only [vht]
    split
    · exact (up ampdu 2 (by decide)).trans (Nat.le_add_right _ _)
    · exact Nat.le_refl _
  have he_le : vht ≤ he := by
    simp only [he]
    split
    · exact (up vht 2 (by decide)).trans (Nat.le_add_right _ _)
    · exact Nat.le_refl _
  have chains_le : he ≤ chains := by
    simp only [chains]
    split <;> omega
  split
  · have := up (chains + 4) 2 (by decide)
    omega
  · omega

/-- Without HT, and for VHT not of 40 MHz, the parser finds the fields of the header where they are,
and all of it is written before its end. -/
theorem fields_eq_parsed (noHt : rx.formatMod ≠ 2 ∧ rx.formatMod ≠ 3)
    (wide : rx.formatMod = 4 → rx.chBw ≠ 1)
    (rated : (((Rtap.begin rx hw).tsft hw).flags rx hw).rate kernel rx phy = some s) :
    ((s.rest rx phy hw).rxChains rx).fields = ((s.rest rx phy hw).rxChains rx).parsed ∧
      ((s.rest rx phy hw).rxChains rx).pos = endPos rx hw ∧
      (∀ store ∈ ((s.rest rx phy hw).rxChains rx).stores, store.1 < endPos rx hw) ∧
      ((s.rest rx phy hw).rxChains rx).start ≤ endPos rx hw := by
  have stamped := (begin_ready rx hw).tsft hw
  obtain ⟨stop, parses, pos, aligned⟩ := stamped.rate rated
  have even : s.pos % 2 = 0 := by
    have := stamped.even
    omega
  have ready := parses.rest phy hw aligned even noHt wide
  obtain ⟨end_pos, -, following, -, stores, -⟩ :=
    foldl_chains rx.rssi1 rx.chains (s.rest rx phy hw)
  have begins : (Rtap.begin rx hw).pos =
      8 + 4 * rx.chains.length + if hw.isNone then 4 else 0 := by
    simp only [Rtap.begin, length_bitmaps]
    split <;> omega
  have ends : ((s.rest rx phy hw).rxChains rx).pos = endPos rx hw := by
    rw [Rtap.rxChains, end_pos, rest_pos noHt wide even, pos, tsft_pos, begins, endPos]
  have starts : ((s.rest rx phy hw).rxChains rx).start = (Rtap.begin rx hw).pos := by
    have begun := begin_ready rx hw
    rw [Rtap.start, Rtap.rxChains, following, ready.parses.more_eq, ← begun.parses.more_eq]
    simp [Rtap.begin, bitmaps_eq]
  refine ⟨ready.rxChains, ends, ends ▸ stores ready.parses.stores, ?_⟩
  have later : (Rtap.begin rx hw).pos ≤ s.pos := by
    have up := Presence.le_alignUp (Rtap.begin rx hw).pos 8 (by decide)
    rw [pos, tsft_pos]
    split <;> omega
  have last : s.pos ≤ (s.rest rx phy hw).pos := by
    have up := Presence.le_alignUp (s.pos + 6 + if rx.antNum = 1 then 2 else 0) 4 (by decide)
    rw [rest_pos noHt wide even]
    simp only
    split <;> split <;> omega
  rw [starts, ← ends, Rtap.rxChains, end_pos]
  omega

/-- The last byte of a header with an HE field is written. -/
theorem last_stored (phy : PhyInfo) (hw : Option HwVect) (he : 5 ≤ rx.formatMod) (s : Rtap) :
    ∃ store ∈ ((s.rest rx phy hw).rxChains rx).stores,
      store.1 + 1 = ((s.rest rx phy hw).rxChains rx).pos := by
  obtain ⟨-, -, -, -, -, last⟩ := foldl_chains rx.rssi1 rx.chains (s.rest rx phy hw)
  refine last ?_
  obtain ⟨front, byte, cells⟩ : ∃ front byte, heData rx = front ++ [some byte] := by
    unfold heData
    extract_lets _ _ _ data1 data2 data3 data4 data5 data6
    exact ⟨le16 data1 ++ le16 data2 ++ le16 data3 ++ le16 data4 ++ le16 data5 ++
      [some data6.toUInt8], (data6 >>> 8).toUInt8, by simp [le16]⟩
  unfold Rtap.rest
  generalize (((((s.channel rx phy).antenna rx).rxFlags).mcs rx).ampdu rx hw).vht rx phy = t
  unfold Rtap.he
  rw [if_pos he, cells]
  refine ⟨_, List.mem_append_right _ (mem_storesOf_last byte _), ?_⟩
  rw [field_pos, List.length_append, List.length_singleton]
  rfl

/-- What is written once stays a field. -/
theorem mem_fields_he {f : Field} (member : f ∈ s.fields) :
    f ∈ ((s.he rx).rxChains rx).fields := by
  obtain ⟨-, -, -, fields, -, -⟩ := foldl_chains rx.rssi1 rx.chains (s.he rx)
  rw [Rtap.rxChains, fields]
  refine List.mem_append_left _ ?_
  unfold Rtap.he
  split
  · exact List.mem_append_left _ member
  · exact member

/-- With HT the field of the MCS has a byte too many, and with VHT of 40 MHz that of VHT. -/
theorem mem_fields_rest (phy : PhyInfo) (hw : Option HwVect) (s : Rtap)
    (odd : (rx.formatMod = 2 ∨ rx.formatMod = 3) ∨ (rx.formatMod = 4 ∧ rx.chBw = 1)) :
    ∃ f ∈ ((s.rest rx phy hw).rxChains rx).fields, f.size ≠ (shape f.bit).size := by
  have mcs_size : (4 : Nat) ≠ 3 := by decide
  have vht_size : (13 : Nat) ≠ 12 := by decide
  unfold Rtap.rest
  generalize ((s.channel rx phy).antenna rx).rxFlags = t
  rcases odd with ht | ⟨vht, narrow⟩
  · refine ⟨⟨19, t.pos, 4⟩, mem_fields_he ?_, mcs_size⟩
    unfold Rtap.vht Rtap.ampdu Rtap.mcs
    rw [if_neg (by omega), if_pos ht]
    cases hw with
    | none => exact List.mem_append_right _ (List.mem_singleton_self _)
    | some hw =>
        dsimp only
        split
        · exact List.mem_append_left _ (List.mem_append_right _ (List.mem_singleton_self _))
        · exact List.mem_append_right _ (List.mem_singleton_self _)
  · refine ⟨⟨21, ((t.mcs rx).ampdu rx hw).pos, 13⟩, mem_fields_he ?_, vht_size⟩
    unfold Rtap.vht
    rw [if_pos vht]
    refine List.mem_append_right _ (List.mem_singleton.mpr ?_)
    simp [le16, vhtBandwidth, narrow]

theorem rest_not_agrees {len : Nat} (s : Rtap)
    (odd : (rx.formatMod = 2 ∨ rx.formatMod = 3) ∨ (rx.formatMod = 4 ∧ rx.chBw = 1)) :
    ¬Agrees len ((s.rest rx phy hw).rxChains rx) := by
  intro agrees
  obtain ⟨f, member, size⟩ := mem_fields_rest phy hw s odd
  rw [agrees.fields] at member
  exact size (size_of_parsed member)

/-- A header agrees with its length and its bitmaps exactly for the regular receive vectors. -/
theorem amlRxAddRtapHdr_agrees_iff (kernel : Kernel) (rx : RxVector) (phy : PhyInfo)
    (hw : Option HwVect) :
    (∀ s ∈ amlRxAddRtapHdr kernel rx phy hw, Agrees (amlRxRtapHdrlen rx hw.isNone) s) ↔
      Regular kernel rx phy hw := by
  have room := sixteen_le_hdrlen rx hw.isNone
  by_cases band : kernel.numBands ≤ phy.phyBand
  · refine iff_of_true (fun s sent => ?_) (.inl band)
    rw [amlRxAddRtapHdr, if_pos band] at sent
    cases sent
    refine ⟨?_, fun store member => (by cases member), by decide⟩
    simp only [Rtap.start, List.length_nil]
    omega
  have sent_eq : amlRxAddRtapHdr kernel rx phy hw =
      ((((Rtap.begin rx hw).tsft hw).flags rx hw).rate kernel rx phy).map
        fun s => (s.rest rx phy hw).rxChains rx := if_neg band
  rw [sent_eq]
  constructor
  · intro agrees
    by_contra irregular
    simp only [Regular, band, false_or, not_or] at irregular
    obtain ⟨ht, narrow, single, spare⟩ := irregular
    have rated : (((Rtap.begin rx hw).tsft hw).flags rx hw).rate kernel rx phy =
        some ((((Rtap.begin rx hw).tsft hw).flags rx hw).put [some 0]) := if_neg ht
    have ends := agrees _ (Option.mem_map.mpr ⟨_, rated, rfl⟩)
    by_cases odd : (rx.formatMod = 2 ∨ rx.formatMod = 3) ∨ (rx.formatMod = 4 ∧ rx.chBw = 1)
    · exact rest_not_agrees _ odd ends
    · have noHt : rx.formatMod ≠ 2 ∧ rx.formatMod ≠ 3 := by omega
      have he : 5 < rx.formatMod := by omega
      obtain ⟨-, pos, -⟩ := fields_eq_parsed noHt (by omega) rated
      obtain ⟨store, member, last⟩ := last_stored phy hw he.le _
      have inside := ends.stores store member
      have fits := (endPos_le_iff hw noHt).mp (by omega)
      rcases fits with short | enough
      · omega
      · exact spare ⟨he, enough⟩
  · intro regular s sent
    obtain ⟨s', rated, rfl⟩ := Option.map_eq_some_iff.mp sent
    have regular := regular.resolve_left band
    have noHt : rx.formatMod ≠ 2 ∧ rx.formatMod ≠ 3 := by omega
    obtain ⟨fields, -, stores, start⟩ := fields_eq_parsed noHt (by omega) rated
    have fits : endPos rx hw ≤ amlRxRtapHdrlen rx hw.isNone := by
      refine (endPos_le_iff hw noHt).mpr ?_
      rcases regular with legacy | vht | single | ⟨-, spare⟩
      · exact .inl (by omega)
      · exact .inl (by omega)
      · exact .inl (by omega)
      · exact .inr spare
    exact ⟨start.trans fits, fun store member => (stores store member).trans_le fits, fields⟩

/-! ## A frame with HT -/

/-- A frame with HT that one antenna received. -/
def htFrame : RxVector where
  formatMod := 2
  chBw := 0
  preType := false
  antennaSet := 1
  legRate := 0
  rssi1 := 0xc0
  ht := ⟨7, false, false, false, false⟩
  vht := ⟨0, 0, false, false, false⟩
  he := ⟨0, 0, 0, false, 0, 0, 0, 0, 0, 0, 0, 0, 0, 0, 0⟩

/-- Its MCS has four bytes, where the bitmap says three. -/
theorem htFrame_not_agrees :
    ¬∀ (kernel : Kernel) (rx : RxVector) (phy : PhyInfo) (hw : Option HwVect),
      ∀ s ∈ amlRxAddRtapHdr kernel rx phy hw, Agrees (amlRxRtapHdrlen rx hw.isNone) s := by
  intro all
  have agrees := all ⟨4, fun _ _ => 0⟩ htFrame ⟨0, 2412, 0⟩ (some ⟨0, 0, 0, true⟩) _ rfl
  exact rest_not_agrees _ (.inl (.inl rfl)) agrees

end AmlW2.Monitor
