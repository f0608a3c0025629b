import AmlW2.Lib.Presence

/-!
# The radiotap header

A frame for the monitor interface gets a radiotap header in front.  `aml_rx_rtap_hdrlen` says how
long it is, and `aml_rx_add_rtap_hdr` writes it field by field.
-/

namespace AmlW2.Monitor

open Presence (Field Shape)

/-! ## Receive vectors -/

/-- `struct rx_ht_vect`. -/
structure RxHt where
  mcs : UInt8
  fec : Bool
  stbc : Bool
  shortGi : Bool
  aggregation : Bool

/-- `struct rx_vht_vect`. -/
structure RxVht where
  mcs : UInt8
  nss : UInt8
  fec : Bool
  stbc : Bool
  shortGi : Bool

/-- `struct rx_he_vect`. -/
structure RxHe where
  mcs : UInt16
  nss : UInt16
  fec : UInt16
  stbc : Bool
  beamformed : UInt16
  giType : UInt16
  heLtfType : UInt16
  uplinkFlag : UInt16
  beamChange : UInt16
  dcm : UInt16
  doppler : UInt16
  bssColor : UInt16
  txopDuration : UInt16
  spatialReuse : UInt16
  ruSize : UInt16

/-- `struct rx_vector_1`; what the union holds is read according to the format. -/
structure RxVector where
  /-- `format_mod`: 0 and 1 are without HT, 2 and 3 with HT, 4 VHT, from 5 on HE. -/
  formatMod : Nat
  /-- `ch_bw`: 20, 40, 80 and 160 MHz from 0 on. -/
  chBw : Nat
  preType : Bool
  antennaSet : UInt8
  legRate : Nat
  rssi1 : UInt8
  ht : RxHt
  vht : RxVht
  he : RxHe

/-- `struct phy_channel_info_desc`. -/
structure PhyInfo where
  phyBand : Nat
  phyPrim20Freq : UInt16
  phyCenter2Freq : UInt16

/-- `struct hw_vect`. -/
structure HwVect where
  tsfLo : UInt32
  tsfHi : UInt32
  ampduCnt : UInt32
  frmSuccessfulRx : Bool

/-- What the kernel has registered. -/
structure Kernel where
  /-- `NUM_NL80211_BANDS`. -/
  numBands : Nat
  /-- The bit rates of a band. -/
  bitrate : Nat → UInt8 → Nat

/-! ## Antennas -/

def setBits (set : UInt8) (n : Nat) : List Nat := (List.range n).filter set.toNat.testBit

/-- `hweight8` of the antenna set. -/
def RxVector.antNum (rx : RxVector) : Nat := (setBits rx.antennaSet 8).length

/-- The chains that are told one by one, of which there are `IEEE80211_MAX_CHAINS`. -/
def RxVector.chains (rx : RxVector) : List Nat :=
  if 1 < rx.antNum then setBits rx.antennaSet 4 else []

/-! ## The length -/

/-- `aml_rx_rtap_hdrlen`. -/
def amlRxRtapHdrlen (rx : RxVector) (hasVendRtap : Bool) : Nat :=
  let len := 8 + 8
  let len := if 1 < rx.antNum then len + 4 * rx.antNum else len
  let len := if hasVendRtap then len else Presence.alignUp len 8 + 8
  let len := len + 1
  let len := if rx.antNum = 1 then len + 1 else len
  let len := Presence.alignUp len 2
  let len := if rx.formatMod = 2 ∨ rx.formatMod = 3 then len + 3 else len
  let len :=
    if ¬hasVendRtap ∧ (4 ≤ rx.formatMod ∨ (1 < rx.formatMod ∧ rx.ht.aggregation)) then
      Presence.alignUp len 4 + 8
    else len
  let len := if rx.formatMod = 4 then Presence.alignUp len 2 + 12 else len
  let len := if rx.formatMod = 5 then Presence.alignUp len 2 + 12 else len
  let len := if 1 < rx.antNum then len + 2 * rx.antNum else len
  if hasVendRtap then Presence.alignUp (len + 4) 2 else len

/-! ## The header -/

/-- A header in the making, behind the four bytes of its version and length. -/
structure Rtap where
  /-- `it_present`, the first of the bitmaps. -/
  itPresent : Nat
  /-- The bitmaps behind it. -/
  following : List Nat
  pos : Nat
  /-- The bytes that are written behind the bitmaps; the others stay zero. -/
  stores : List (Nat × UInt8)
  /-- The fields, with the places they are given. -/
  fields : List Field

/-- Where the fields begin. -/
def Rtap.start (s : Rtap) : Nat := 4 + 4 * (s.following.length + 1)

/-- What is written of some bytes, from a position on. -/
def storesOf : Nat → List (Option UInt8) → List (Nat × UInt8)
  | _, [] => []
  | pos, none :: cells => storesOf (pos + 1) cells
  | pos, some byte :: cells => (pos, byte) :: storesOf (pos + 1) cells

/-- The position goes on over some bytes, of which not all need be written. -/
def Rtap.put (cells : List (Option UInt8)) (s : Rtap) : Rtap :=
  { s with pos := s.pos + cells.length, stores := s.stores ++ storesOf s.pos cells }

/-- The bytes of a field whose bit is set already. -/
def Rtap.data (bit : Nat) (cells : List (Option UInt8)) (s : Rtap) : Rtap :=
  { s.put cells with fields := s.fields ++ [⟨bit, s.pos, cells.length⟩] }

/-- The bit of a field is set, and its bytes follow. -/
def Rtap.field (bit : Nat) (cells : List (Option UInt8)) (s : Rtap) : Rtap :=
  { s.data bit cells with itPresent := s.itPresent ||| 2 ^ bit }

/-- Zeros up to an alignment. -/
def Rtap.padTo (align : Nat) (s : Rtap) : Rtap :=
  s.put (List.replicate (Presence.alignUp s.pos align - s.pos) (some 0))

/-- Bytes that are passed up to an alignment. -/
def Rtap.skipTo (align : Nat) (s : Rtap) : Rtap :=
  s.put (List.replicate (Presence.alignUp s.pos align - s.pos) none)

def le16 (v : UInt16) : List (Option UInt8) := [some v.toUInt8, some (v >>> 8).toUInt8]

def le32 (v : UInt32) : List (Option UInt8) :=
  [some v.toUInt8, some (v >>> 8).toUInt8, some (v >>> 16).toUInt8, some (v >>> 24).toUInt8]

/-- `*pos |= flags`, where nothing is written without a flag. -/
def orCell (flags : UInt8) : Option UInt8 := if flags = 0 then none else some flags

def flag (set : Bool) (value : UInt8) : UInt8 := if set then value else 0

/-- `EXT` and `RADIOTAP_NAMESPACE`. -/
def nextRadiotap : Nat := 2 ^ 31 ||| 2 ^ 29

/-- `VENDOR_NAMESPACE` and `EXT`. -/
def nextVendor : Nat := 2 ^ 30 ||| 2 ^ 31

/-- `ANTENNA` and `DBM_ANTSIGNAL`. -/
def antennaSignal : Nat := 2 ^ 11 ||| 2 ^ 5

/-- The bitmaps: one for each chain but the last, that of the last or the only one, and the
vendor's. -/
def bitmaps (vendor : Bool) : List Nat → Nat → List Nat
  | [], val => if vendor then [val ||| nextVendor, 1] else [val]
  | _ :: chains, val => (val ||| nextRadiotap) :: bitmaps vendor chains antennaSignal

def Rtap.tsft (hw : Option HwVect) (s : Rtap) : Rtap :=
  match hw with
  | none => s
  | some hw => (s.padTo 8).field 0 (le32 hw.tsfLo ++ le32 hw.tsfHi)

def Rtap.flags (rx : RxVector) (hw : Option HwVect) (s : Rtap) : Rtap :=
  s.field 1 [orCell (flag (hw.any fun hw => !hw.frmSuccessfulRx) 0x40 |||
    flag (!rx.preType && rx.formatMod ≤ 1) 0x02)]

/-- `legrates_lut`. -/
def legratesLut : List (Option UInt8) :=
  [some 0, some 1, some 2, some 3, none, none, none, none, some 10, some 8, some 6, some 4, some 11,
    some 9, some 7, some 5]

/-- The rate of a frame without HT, if `BUG_ON` lets it pass. -/
def Kernel.legacyRate (kernel : Kernel) (rx : RxVector) (phy : PhyInfo) : Option UInt8 :=
  (legratesLut.getD (rx.legRate % 16) none).map fun idx =>
    UInt8.ofNat ((kernel.bitrate phy.phyBand (if phy.phyBand = 1 then idx - 4 else idx) + 4) / 5)

/-- The rate is a field of frames without HT, and a zero in the others. -/
def Rtap.rate (kernel : Kernel) (rx : RxVector) (phy : PhyInfo) (s : Rtap) : Option Rtap :=
  if rx.formatMod ≤ 1 then (kernel.legacyRate rx phy).map fun rate => s.field 2 [some rate]
  else some (s.put [some 0])

/-- The flags of the channel. -/
def channelFlags (rx : RxVector) (phy : PhyInfo) : UInt16 :=
  if phy.phyBand = 1 then 0x0040 ||| 0x0100
  else if 1 < rx.formatMod then 0x0400 ||| 0x0080
  else 0x0020 ||| 0x0080

def Rtap.channel (rx : RxVector) (phy : PhyInfo) (s : Rtap) : Rtap :=
  s.field 3 (le16 phy.phyPrim20Freq ++ le16 (channelFlags rx phy))

/-- The signal and the antenna, if there is one. -/
def Rtap.antenna (rx : RxVector) (s : Rtap) : Rtap :=
  if rx.antNum = 1 then (s.field 5 [some rx.rssi1]).field 11 [some rx.antennaSet] else s

def Rtap.rxFlags (s : Rtap) : Rtap := (s.padTo 2).field 14 (le16 0)

/-- The position goes on once more behind what is known of the MCS. -/
def Rtap.mcs (rx : RxVector) (s : Rtap) : Rtap :=
  if rx.formatMod = 2 ∨ rx.formatMod = 3 then
    s.field 19 [some 0x3f, none,
      some (flag rx.ht.shortGi 0x04 ||| flag (rx.chBw = 1) 0x01 ||| flag (rx.formatMod = 3) 0x08 |||
        flag rx.ht.fec 0x10 ||| flag rx.ht.stbc 0x20), some rx.ht.mcs]
  else s

/-- `aggregation`. -/
def RxVector.aggregation (rx : RxVector) : Bool :=
  if 4 ≤ rx.formatMod then true else if 1 < rx.formatMod then rx.ht.aggregation else false

def Rtap.ampdu (rx : RxVector) (hw : Option HwVect) (s : Rtap) : Rtap :=
  match hw with
  | none => s
  | some hw =>
      if rx.aggregation then (s.skipTo 4).field 20 (le32 hw.ampduCnt ++ le32 0) else s

/-- The bandwidth of a VHT frame; 40 MHz is followed by that of 20 MHz. -/
def vhtBandwidth (rx : RxVector) (phy : PhyInfo) : List (Option UInt8) :=
  (if rx.chBw = 1 then [some 1] else []) ++
    [some (if rx.chBw = 2 then 4
      else if rx.chBw = 3 ∧ phy.phyCenter2Freq ≠ 0 then 0
      else if rx.chBw = 3 then 11
      else 0)]

def Rtap.vht (rx : RxVector) (phy : PhyInfo) (s : Rtap) : Rtap :=
  if rx.formatMod = 4 then
    let details : UInt16 :=
      if rx.chBw = 3 ∧ phy.phyCenter2Freq ≠ 0 then 0x0004 else 0x0004 ||| 0x0040
    s.field 21 (le16 details ++
      (orCell (flag rx.vht.shortGi 0x04 ||| flag rx.vht.stbc 0x01) :: vhtBandwidth rx phy ++
        [some ((rx.vht.mcs <<< 4) ||| (rx.vht.nss + 1)), some 0, some 0, some 0,
          orCell (flag rx.vht.fec 0x01), none, none, none]))
  else s

/-- `HE_PREP`: a value in the bits of a mask. -/
def hePrep (mask val : UInt16) : UInt16 :=
  let lowest := mask &&& (0 - mask)
  (val &&& (mask / lowest)) * lowest

/-- `struct ieee80211_radiotap_he`. -/
def heData (rx : RxVector) : List (Option UInt8) :=
  let he := rx.he
  let single := rx.formatMod ≠ 8
  let multiUser := rx.formatMod = 6
  let data1 : UInt16 := 0x0004 ||| 0x0008 ||| 0x0010 ||| 0x0200 ||| 0x8000 ||| 0x0040 |||
    (if single then
      0x0020 ||| 0x0080 ||| 0x0400 ||| 0x4000 |||
        (if multiUser then 2 else if rx.formatMod = 5 then 0 else 1)
    else 3)
  let data2 : UInt16 := 0x0002 ||| 0x0010 ||| 0x0040
  let data3 : UInt16 := hePrep 0x003f he.bssColor ||| hePrep 0x0040 he.beamChange |||
    hePrep 0x0080 he.uplinkFlag ||| hePrep 0x1000 he.dcm |||
    (if single then
      (if he.stbc then hePrep 0x8000 1 else 0) ||| hePrep 0x0f00 he.mcs ||| hePrep 0x2000 he.fec
    else 0)
  let data4 : UInt16 := if single then hePrep 0x000f he.spatialReuse else 0
  let data5 : UInt16 := hePrep 0x0030 he.giType ||| hePrep 0x4000 he.beamformed |||
    hePrep 0x00c0 (he.heLtfType + 1) |||
    (if single then
      if multiUser then hePrep 0x000f (he.ruSize + 4)
      else if rx.chBw ≤ 3 then hePrep 0x000f (UInt16.ofNat rx.chBw)
      else 0
    else 0)
  let data6 : UInt16 := hePrep 0x0010 he.doppler ||| hePrep 0x7f00 he.txopDuration |||
    (if single then if he.stbc then hePrep 0x000f 2 else hePrep 0x000f he.nss else 0)
  le16 data1 ++ le16 data2 ++ le16 data3 ++ le16 data4 ++ le16 data5 ++ le16 data6

def Rtap.he (rx : RxVector) (s : Rtap) : Rtap :=
  if 5 ≤ rx.formatMod then (s.skipTo 2).field 23 (heData rx) else s

/-- The signal and the number of every chain. -/
def Rtap.rxChains (rx : RxVector) (s : Rtap) : Rtap :=
  rx.chains.foldl (fun s chain => (s.data 5 [some rx.rssi1]).data 11 [some (UInt8.ofNat chain)]) s

/-- The fields behind the rate. -/
def Rtap.rest (rx : RxVector) (phy : PhyInfo) (hw : Option HwVect) (s : Rtap) : Rtap :=
  let s := ((s.channel rx phy).antenna rx).rxFlags
  (((s.mcs rx).ampdu rx hw).vht rx phy).he rx

/-- `aml_rx_add_rtap_hdr`, for a frame with its `hwvect` or with the vendor's data.  It ends without
a header where `BUG_ON` does. -/
def amlRxAddRtapHdr (kernel : Kernel) (rx : RxVector) (phy : PhyInfo) (hw : Option HwVect) :
    Option Rtap :=
  if kernel.numBands ≤ phy.phyBand then
    some { itPresent := 0, following := [], pos := 8, stores := [], fields := [] }
  else
    let words := bitmaps hw.isNone rx.chains 0
    let s : Rtap :=
      { itPresent := words.headD 0
        following := words.tail
        pos := 4 + 4 * words.length
        stores := []
        fields := [] }
    (((s.tsft hw).flags rx hw).rate kernel rx phy).map fun s =>
      (s.rest rx phy hw).rxChains rx

end AmlW2.Monitor
