import AmlW2.Lib.Elements
import Mathlib.Data.List.Infix

/-!
# Building TDLS elements

The functions of `aml_tdls.c` that add an element to a frame.  Each of them takes bytes from the
room of a socket buffer and writes them; a byte that is taken and not written holds whatever was
there before.
-/

namespace AmlW2.Tdls

/-! ## Socket buffers -/

/-- A `struct sk_buff` in the making: the room it was allocated with, and its bytes, of which some
may not have been written. -/
structure Skb where
  size : Nat
  data : List (Option UInt8)

/-- `skb_put`, with what is then written to the bytes. -/
def Skb.put (skb : Skb) (cells : List (Option UInt8)) : Skb :=
  { skb with data := skb.data ++ cells }

/-- `skb_put` of bytes that are all written. -/
def Skb.putBytes (skb : Skb) (bytes : List UInt8) : Skb := skb.put (bytes.map some)

def Skb.tailroom (skb : Skb) : Nat := skb.size - skb.data.length

/-! ## What the elements tell -/

inductive Band
  | ghz2
  | ghz5
deriving DecidableEq, Repr

/-- `enum nl80211_chan_width`. -/
inductive ChanWidth
  | w20NoHt
  | w20
  | w40
  | w80
  | w80p80
  | w160
  | narrow
deriving DecidableEq, Repr

/-- `struct ieee80211_sta_ht_cap`. -/
structure HtCap where
  htSupported : Bool
  cap : UInt16
  ampduFactor : UInt8
  ampduDensity : UInt8
  /-- The 16 bytes of the MCS set. -/
  mcs : Nat → UInt8

/-- `struct ieee80211_sta_vht_cap`. -/
structure VhtCap where
  vhtSupported : Bool
  cap : UInt32
  /-- The 8 bytes of the MCS set. -/
  vhtMcs : Nat → UInt8

/-- `struct ieee80211_supported_band`, with the centre frequencies of its channels. -/
structure SupportedBand where
  channels : List Nat
  htCap : HtCap
  vhtCap : VhtCap

/-- `struct aml_sta`. -/
structure Sta where
  macAddr : Nat → UInt8
  aid : UInt16
  band : Band
  width : ChanWidth
  centerFreq : Nat
  centerFreq1 : Nat
  centerFreq2 : Nat
  qos : Bool
  acm : UInt8
  acParam : Nat → UInt32
  ht : Bool
  vht : Bool

/-- What the elements are built from, and the functions of the kernel that are called. -/
structure Hw where
  bands : Band → SupportedBand
  permAddr : Nat → UInt8
  /-- `NL80211_FEATURE_TDLS_CHANNEL_SWITCH`. -/
  tdlsChannelSwitch : Bool
  /-- `mod_params->mcs_map`. -/
  mcsMap : UInt16
  /-- `aml_get_sta`. -/
  getSta : (Nat → UInt8) → Option Sta
  /-- `ieee80211_frequency_to_channel`, as it is stored in a byte. -/
  frequencyToChannel : Nat → UInt8
  /-- `ieee80211_chandef_to_operating_class`, for the channel of a station. -/
  chandefToOperatingClass : Sta → Option UInt8
  /-- The kernel is 4.12 or later. -/
  since412 : Bool

/-- The first bytes of an array. -/
def bytesOf (m : Nat → UInt8) (n : Nat) : List UInt8 := (List.range n).map m

@[simp] theorem length_bytesOf (m : Nat → UInt8) (n : Nat) : (bytesOf m n).length = n := by
  simp [bytesOf]

def le16 (v : UInt16) : List UInt8 := [v.toUInt8, (v >>> 8).toUInt8]

def le32 (v : UInt32) : List UInt8 :=
  [v.toUInt8, (v >>> 8).toUInt8, (v >>> 16).toUInt8, (v >>> 24).toUInt8]

/-! ## The builders -/

/-- The bit rates of `aml_ratetable`. -/
def amlRatetable : List Nat := [10, 20, 55, 110, 60, 90, 120, 180, 240, 360, 480, 540]

/-- `DIV_ROUND_UP` of a bit rate by 5. -/
def rateByte (bitrate : Nat) : UInt8 := UInt8.ofNat ((bitrate + 4) / 5)

def amlAddStatesIe (skb : Skb) : Skb :=
  if skb.tailroom < 8 + 2 then skb
  else skb.putBytes (1 :: 8 :: (amlRatetable.take 8).map rateByte)

def amlAddExtStatesIe (skb : Skb) : Skb :=
  if skb.tailroom < amlRatetable.length - 8 + 2 then skb
  else skb.putBytes
    (50 :: UInt8.ofNat (amlRatetable.length - 8) :: (amlRatetable.drop 8).map rateByte)

/-- The first channel of a band and the number of its channels. -/
def Hw.subband (hw : Hw) (band : Band) : List (Option UInt8) :=
  match (hw.bands band).channels with
  | [] => [none, none]
  | freq :: freqs => [some (hw.frequencyToChannel freq), some (UInt8.ofNat (freqs.length + 1))]

/-- How many of the bands have channels. -/
def Hw.subbandCnt (hw : Hw) : Nat :=
  (if (hw.bands .ghz2).channels = [] then 0 else 1) +
    if (hw.bands .ghz5).channels = [] then 0 else 1

def Hw.amlTdlsAddSuppChannels (hw : Hw) (skb : Skb) : Skb :=
  ((skb.putBytes [36, UInt8.ofNat (2 * hw.subbandCnt)]).put (hw.subband .ghz2)).put
    (hw.subband .ghz5)

def Hw.amlTdlsAddExtCapab (hw : Hw) (skb : Skb) : Skb :=
  skb.putBytes
    [127, 5, 0, 0, 0, 0x10 ||| (if hw.tdlsChannelSwitch then 0x40 else 0), 0x20]

def amlAddWmmInfoIe (skb : Skb) (qosinfo : UInt8) : Skb :=
  skb.putBytes [221, 7, 0x00, 0x50, 0xf2, 2, 0, 1, qosinfo]

/-- `aml_ac_from_wmm`. -/
def amlAcFromWmm (ac : Nat) : Nat :=
  if ac = 1 then 0 else if ac = 2 then 2 else if ac = 3 then 3 else 1

/-- The parameters of an access category. -/
def wmmAc (acmBits : UInt8) (acParams : Nat → UInt32) (i : Nat) : List UInt8 :=
  let j := amlAcFromWmm i
  let param := acParams j
  let acm : UInt8 := if acmBits &&& UInt8.ofNat (1 <<< j) = 0 then 0 else 1
  let cwMin := ((param &&& 0xF0) >>> 4).toUInt8
  let cwMax := ((param &&& 0xF00) >>> 8).toUInt8
  [(UInt8.ofNat i <<< 5) ||| (acm <<< 4) ||| (param &&& 0xF).toUInt8, (cwMax <<< 4) ||| cwMin] ++
    le16 ((param &&& 0x0FFFF000) >>> 12).toUInt16

def amlAddWmmParamIe (skb : Skb) (acmBits : UInt8) (acParams : Nat → UInt32) : Skb :=
  skb.putBytes (221 :: 24 :: ([0x00, 0x50, 0xf2, 2, 1, 1, 0, 0] ++ (wmmAc acmBits acParams 0 ++
    wmmAc acmBits acParams 1 ++ wmmAc acmBits acParams 2 ++ wmmAc acmBits acParams 3)))

def Hw.amlTdlsAddOperClasses (hw : Hw) (ap : Sta) (skb : Skb) : Skb :=
  match hw.chandefToOperatingClass ap with
  | none => skb
  | some opClass => skb.putBytes [59, 2, opClass, opClass]

def amlIeBuildHtCap (skb : Skb) (htCap : HtCap) : Skb :=
  skb.putBytes (45 :: 26 :: (le16 htCap.cap ++
    (htCap.ampduFactor ||| (htCap.ampduDensity <<< 2)) :: bytesOf htCap.mcs 16 ++
      List.replicate 7 0))

def amlIeBuildVhtCap (skb : Skb) (vhtCap : VhtCap) : Skb :=
  skb.putBytes (191 :: 12 :: (le32 vhtCap.cap ++ bytesOf vhtCap.vhtMcs 8))

def amlTdlsAddBssCoexIe (skb : Skb) : Skb := skb.putBytes [72, 1, 1]

def Hw.amlTdlsAddLinkIe (hw : Hw) (ap : Sta) (skb : Skb) (peer : Nat → UInt8) (initiator : Bool) :
    Skb :=
  let initAddr := if initiator then hw.permAddr else peer
  let rspAddr := if initiator then peer else hw.permAddr
  skb.putBytes (101 :: 18 :: (bytesOf ap.macAddr 6 ++ bytesOf initAddr 6 ++ bytesOf rspAddr 6))

/-- Four bytes are taken and three of them written. -/
def amlTdlsAddAidIe (ap : Sta) (skb : Skb) : Skb :=
  skb.put [some 197, some 2, some ap.aid.toUInt8, none]

/-- `ht_param` of the HT operation. -/
def htParam (ap : Sta) (htCap : HtCap) : UInt8 :=
  let secondary : UInt8 :=
    match ap.width with
    | .w160 | .w80p80 | .w80 | .w40 => if ap.centerFreq < ap.centerFreq1 then 1 else 3
    | _ => 0
  if htCap.cap &&& 2 ≠ 0 ∧ ap.width ≠ .w20NoHt ∧ ap.width ≠ .w20 then secondary ||| 4
  else secondary

def Hw.amlIeBuildHtOper (hw : Hw) (ap : Sta) (skb : Skb) (htCap : HtCap) (protMode : UInt16) :
    Skb :=
  skb.putBytes (61 :: 22 :: hw.frequencyToChannel ap.centerFreq :: htParam ap htCap ::
    (le16 protMode ++ 0 :: 0 :: bytesOf htCap.mcs 10 ++ List.replicate 6 0))

/-- The channel width of the VHT operation, and what is written through `CCFS0` and `CCFS1`. -/
def Hw.vhtSegments (hw : Hw) (ap : Sta) : UInt8 × UInt8 × UInt8 :=
  match ap.width with
  | .w80 => (1, hw.frequencyToChannel ap.centerFreq, 0)
  | .w160 => (2, hw.frequencyToChannel ap.centerFreq, 0)
  | .w80p80 => (3, hw.frequencyToChannel ap.centerFreq1, hw.frequencyToChannel ap.centerFreq2)
  | _ => (0, 0, 0)

/-- From 4.12 on `CCFS0` and `CCFS1` are both the second of the two fields. -/
def Hw.amlIeBuildVhtOper (hw : Hw) (ap : Sta) (skb : Skb) : Skb :=
  let segments := hw.vhtSegments ap
  let first := if hw.since412 then none else some segments.2.1
  skb.put (some 192 :: some 5 :: some segments.1 :: first :: some segments.2.2 ::
    (le16 hw.mcsMap).map some)

/-! ## What a buffer holds -/

/-- A buffer that holds a head and elements of at most so many bytes, all of them written. -/
def Built (head : List UInt8) (size len : Nat) (skb : Skb) : Prop :=
  skb.size = size ∧ ∃ es, skb.data = (head ++ Element.wire es).map some ∧
    (Element.wire es).length ≤ len

/-- A buffer that is further on. -/
def Extends (skb skb' : Skb) : Prop := skb'.size = skb.size ∧ skb.data <+: skb'.data

variable {head : List UInt8} {size len : Nat} {skb skb' skb'' : Skb} {hw : Hw} {ap : Sta}

theorem Extends.refl (skb : Skb) : Extends skb skb := ⟨rfl, List.prefix_rfl⟩

theorem Extends.trans (first : Extends skb skb') (second : Extends skb' skb'') :
    Extends skb skb'' :=
  ⟨second.1.trans first.1, first.2.trans second.2⟩

theorem Extends.put (done : Extends skb skb') (cells : List (Option UInt8)) :
    Extends skb (skb'.put cells) := done.trans ⟨rfl, List.prefix_append _ _⟩

theorem Extends.putBytes (done : Extends skb skb') (bytes : List UInt8) :
    Extends skb (skb'.putBytes bytes) := done.put _

theorem Extends.ite (done : Extends skb skb') (done' : Extends skb skb'') {p : Prop} [Decidable p] :
    Extends skb (if p then skb' else skb'') := by
  split
  · exact done
  · exact done'

theorem Built.mono {len' : Nat} (built : Built head size len skb) (more : len ≤ len') :
    Built head size len' skb := by
  obtain ⟨same, es, held, short⟩ := built
  exact ⟨same, es, held, short.trans more⟩

/-- An element that declares its length is added. -/
theorem Built.element (built : Built head size len skb) {tag declared : UInt8} {body : List UInt8}
    (own : declared.toNat = body.length) :
    Built head size (len + (2 + body.length)) (skb.putBytes (tag :: declared :: body)) := by
  obtain ⟨same, es, held, short⟩ := built
  let e : Element := ⟨tag, body, own ▸ declared.toNat_lt⟩
  have bytes : e.bytes = tag :: declared :: body := by
    simp [Element.bytes, e, ← own]
  refine ⟨same, es ++ [e], ?_, ?_⟩
  · simp [Skb.putBytes, Skb.put, held, Element.wire_append, ← bytes]
  · rw [Element.wire_append, List.length_append, Element.wire_cons, Element.wire_nil,
      List.append_nil, bytes, List.length_cons, List.length_cons]
    omega

theorem Built.ite (built : Built head size len skb) (built' : Built head size len skb') {p : Prop}
    [Decidable p] : Built head size len (if p then skb else skb') := by
  split
  · exact built
  · exact built'

theorem Built.amlAddStatesIe (built : Built head size len skb) :
    Built head size (len + 10) (amlAddStatesIe skb) :=
  (built.mono (Nat.le_add_right _ _)).ite (built.element rfl)

theorem Built.amlAddExtStatesIe (built : Built head size len skb) :
    Built head size (len + 6) (amlAddExtStatesIe skb) :=
  (built.mono (Nat.le_add_right _ _)).ite (built.element rfl)

theorem Built.amlTdlsAddExtCapab (built : Built head size len skb) (hw : Hw) :
    Built head size (len + 7) (hw.amlTdlsAddExtCapab skb) := built.element rfl

theorem Built.amlAddWmmInfoIe (built : Built head size len skb) (qosinfo : UInt8) :
    Built head size (len + 9) (amlAddWmmInfoIe skb qosinfo) := built.element rfl

theorem Built.amlAddWmmParamIe (built : Built head size len skb) (acmBits : UInt8)
    (acParams : Nat → UInt32) : Built head size (len + 26)
      (amlAddWmmParamIe skb acmBits acParams) :=
  built.element rfl

theorem Built.amlTdlsAddOperClasses (built : Built head size len skb) (hw : Hw) (ap : Sta) :
    Built head size (len + 4) (hw.amlTdlsAddOperClasses ap skb) := by
  unfold Hw.amlTdlsAddOperClasses
  cases hw.chandefToOperatingClass ap with
  | none => exact built.mono (Nat.le_add_right _ _)
  | some opClass => exact built.element rfl

theorem Built.amlIeBuildHtCap (built : Built head size len skb) (htCap : HtCap) :
    Built head size (len + 28) (amlIeBuildHtCap skb htCap) := built.element rfl

theorem Built.amlTdlsAddBssCoexIe (built : Built head size len skb) :
    Built head size (len + 3) (amlTdlsAddBssCoexIe skb) := built.element rfl

theorem Built.amlTdlsAddLinkIe (built : Built head size len skb) (hw : Hw) (ap : Sta)
    (peer : Nat → UInt8) (initiator : Bool) :
    Built head size (len + 20) (hw.amlTdlsAddLinkIe ap skb peer initiator) :=
  built.element rfl

theorem Built.amlIeBuildHtOper (built : Built head size len skb) (hw : Hw) (ap : Sta)
    (htCap : HtCap) (protMode : UInt16) :
    Built head size (len + 24) (hw.amlIeBuildHtOper ap skb htCap protMode) :=
  built.element rfl

/-- The supported channels are an element if both bands have channels. -/
theorem Built.amlTdlsAddSuppChannels (built : Built head size len skb)
    (full : ∀ band, (hw.bands band).channels ≠ []) :
    Built head size (len + 6) (hw.amlTdlsAddSuppChannels skb) := by
  obtain ⟨freq, freqs, ghz2⟩ := List.exists_cons_of_ne_nil (full .ghz2)
  obtain ⟨freq', freqs', ghz5⟩ := List.exists_cons_of_ne_nil (full .ghz5)
  have both : hw.subbandCnt = 2 := by simp [Hw.subbandCnt, full]
  have same : hw.amlTdlsAddSuppChannels skb =
      skb.putBytes [36, 4, hw.frequencyToChannel freq, UInt8.ofNat (freqs.length + 1),
        hw.frequencyToChannel freq', UInt8.ofNat (freqs'.length + 1)] := by
    simp [Hw.amlTdlsAddSuppChannels, Skb.putBytes, Skb.put, Hw.subband, ghz2, ghz5, both]
  rw [same]
  exact built.element rfl

/-- The VHT operation is an element before 4.12. -/
theorem Built.amlIeBuildVhtOper (built : Built head size len skb) (ap : Sta)
    (before : hw.since412 = false) :
    Built head size (len + 7) (hw.amlIeBuildVhtOper ap skb) := by
  have same : hw.amlIeBuildVhtOper ap skb =
      skb.putBytes (192 :: 5 :: (hw.vhtSegments ap).1 :: (hw.vhtSegments ap).2.1 ::
        (hw.vhtSegments ap).2.2 :: le16 hw.mcsMap) := by
    simp [Hw.amlIeBuildVhtOper, before, Skb.putBytes]
  rw [same]
  exact built.element rfl

/-! ## Growing -/

theorem Extends.amlTdlsAddExtCapab (done : Extends skb skb') (hw : Hw) :
    Extends skb (hw.amlTdlsAddExtCapab skb') := done.putBytes _

theorem Extends.amlAddWmmInfoIe (done : Extends skb skb') (qosinfo : UInt8) :
    Extends skb (amlAddWmmInfoIe skb' qosinfo) := done.putBytes _

theorem Extends.amlTdlsAddOperClasses (done : Extends skb skb') (hw : Hw) (ap : Sta) :
    Extends skb (hw.amlTdlsAddOperClasses ap skb') := by
  unfold Hw.amlTdlsAddOperClasses
  cases hw.chandefToOperatingClass ap with
  | none => exact done
  | some opClass => exact done.putBytes _

theorem Extends.amlIeBuildHtCap (done : Extends skb skb') (htCap : HtCap) :
    Extends skb (amlIeBuildHtCap skb' htCap) := done.putBytes _

theorem Extends.amlIeBuildVhtCap (done : Extends skb skb') (vhtCap : VhtCap) :
    Extends skb (amlIeBuildVhtCap skb' vhtCap) := done.putBytes _

theorem Extends.amlTdlsAddBssCoexIe (done : Extends skb skb') :
    Extends skb (amlTdlsAddBssCoexIe skb') := done.putBytes _

theorem Extends.amlTdlsAddLinkIe (done : Extends skb skb') (hw : Hw) (ap : Sta)
    (peer : Nat → UInt8) (initiator : Bool) :
    Extends skb (hw.amlTdlsAddLinkIe ap skb' peer initiator) := done.putBytes _

theorem Extends.amlTdlsAddAidIe (done : Extends skb skb') (ap : Sta) :
    Extends skb (amlTdlsAddAidIe ap skb') := done.put _

/-! ## What is not written -/

theorem none_mem_suppChannels {band : Band} (empty : (hw.bands band).channels = []) :
    none ∈ (hw.amlTdlsAddSuppChannels skb).data := by
  cases band <;> simp [Hw.amlTdlsAddSuppChannels, Skb.putBytes, Skb.put, Hw.subband, empty]

theorem none_mem_aidIe (ap : Sta) (skb : Skb) : none ∈ (amlTdlsAddAidIe ap skb).data := by
  simp [amlTdlsAddAidIe, Skb.put]

theorem none_mem_vhtOper (since : hw.since412 = true) :
    none ∈ (hw.amlIeBuildVhtOper ap skb).data := by
  simp [Hw.amlIeBuildVhtOper, Skb.put, since]

end AmlW2.Tdls
