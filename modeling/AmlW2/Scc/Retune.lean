import AmlW2.Scc.Beacon

/-!
# The channel in the saved beacon

When the access point follows the station to another channel, `aml_scc_change_beacon_ht_ie` writes
the channel into three elements of the saved beacon.  It holds the length of the elements in a `u8`,
takes the side of the secondary channel from the centre of the whole channel, and leaves the second
segment of the VHT operation as it was.  This file gives the beacons and channels for which the
elements tell the channel afterwards.
-/

namespace AmlW2.Scc

/-! ## Channels -/

inductive Band
  | ghz2
  | ghz5
deriving DecidableEq, Repr

/-- The widths of `enum nl80211_chan_width` that the driver has, in their order. -/
inductive ChanWidth
  | w20Noht
  | w20
  | w40
  | w80
  | w80p80
  | w160
deriving DecidableEq, Repr

/-- The value of the enumeration. -/
def ChanWidth.val : ChanWidth → Nat
  | .w20Noht => 0
  | .w20 => 1
  | .w40 => 2
  | .w80 => 3
  | .w80p80 => 4
  | .w160 => 5

/-- The width of the segment with the primary channel, in MHz. -/
def ChanWidth.mhz : ChanWidth → Nat
  | .w20Noht => 20
  | .w20 => 20
  | .w40 => 40
  | .w80 => 80
  | .w80p80 => 80
  | .w160 => 160

/-- A `struct cfg80211_chan_def` of the driver's bands that `cfg80211_chandef_valid` accepts. -/
structure ChanDef where
  band : Band
  /-- `chan->center_freq`. -/
  centerFreq : Nat
  width : ChanWidth
  centerFreq1 : Nat
  centerFreq2 : Nat
  /-- From the tables `aml_2ghz_channels` and `aml_5ghz_channels`. -/
  listed : band = .ghz2 ∧ 2390 ≤ centerFreq ∧ centerFreq ≤ 2512 ∧ width.mhz ≤ 40 ∨
    band = .ghz5 ∧ 5180 ≤ centerFreq ∧ centerFreq ≤ 5970
  /-- The primary channel is one of those of 20 MHz in the segment. -/
  centered : ∃ k, 20 * (k + 1) ≤ width.mhz ∧
    centerFreq + width.mhz / 2 = centerFreq1 + 20 * k + 10
  second : centerFreq2 ≠ 0 ↔ width = .w80p80

/-- `aml_ieee80211_freq_to_chan`, on an `u32`. -/
def ieee80211FreqToChan (freq : Nat) (band : Band) : UInt8 :=
  match band with
  | .ghz5 =>
      if 4910 ≤ freq ∧ freq ≤ 4980 then UInt8.ofNat ((freq - 4000) / 5)
      else UInt8.ofNat ((freq + (4294967296 - 5000)) % 4294967296 / 5)
  | .ghz2 =>
      if freq = 2484 then 14
      else if freq < 2484 then UInt8.ofNat ((freq + (4294967296 - 2407)) % 4294967296 / 5)
      else 0

/-- `IEEE80211_HT_PARAM_CHA_SEC_ABOVE`. -/
def htParamChaSecAbove : UInt8 := 1

/-- `IEEE80211_HT_PARAM_CHA_SEC_BELOW`. -/
def htParamChaSecBelow : UInt8 := 3

/-- `IEEE80211_HT_PARAM_CHAN_WIDTH_ANY`. -/
def htParamChanWidthAny : UInt8 := 4

/-- `sizeof(struct ieee80211_ht_operation)`. -/
abbrev sizeofHtOperation : Nat := 22

/-- `sizeof(struct ieee80211_vht_operation)`. -/
abbrev sizeofVhtOperation : Nat := 5

namespace ChanDef

/-- The number of the channel with a frequency. -/
def chan (c : ChanDef) (freq : Nat) : UInt8 := ieee80211FreqToChan freq c.band

/-- `chan_no`. -/
def chanNo (c : ChanDef) : UInt8 := c.chan c.centerFreq

/-! ## The rewrite -/

/-- What becomes of `ht_param`. -/
def htParam (c : ChanDef) (old : UInt8) : UInt8 :=
  let cleared := old &&& 0xF8
  if ChanWidth.w40.val ≤ c.width.val then
    let any := cleared ||| htParamChanWidthAny
    if c.centerFreq1 < c.centerFreq then any ||| htParamChaSecBelow
    else if c.centerFreq < c.centerFreq1 then any ||| htParamChaSecAbove
    else any
  else cleared

/-- What is done at the DS parameters. -/
def setDs (c : ChanDef) (buf : List UInt8) (p : Nat) : List UInt8 :=
  if buf.getD (p + 1) 0 = 1 then buf.set (p + 2) c.chanNo else buf

/-- What is done at the HT operation. -/
def setHt (c : ChanDef) (buf : List UInt8) (p : Nat) : List UInt8 :=
  if sizeofHtOperation ≤ (buf.getD (p + 1) 0).toNat then
    (buf.set (p + 2) c.chanNo).set (p + 3) (c.htParam (buf.getD (p + 3) 0))
  else buf

/-- What is done at the VHT operation. -/
def setVht (c : ChanDef) (buf : List UInt8) (p : Nat) : List UInt8 :=
  if sizeofVhtOperation ≤ (buf.getD (p + 1) 0).toNat then
    match c.width with
    | .w20 | .w40 => ((buf.set (p + 2) 0).set (p + 3) 0).set (p + 4) 0
    | .w80 | .w160 | .w80p80 =>
        let buf := buf.set (p + 2) 1
        let buf := if c.centerFreq1 ≠ 0 then buf.set (p + 3) (c.chan c.centerFreq1) else buf
        if c.centerFreq2 ≠ 0 then buf.set (p + 4) (c.chan c.centerFreq2) else buf
    | .w20Noht => buf
  else buf

end ChanDef

/-- The saved beacon, and the copy for the firmware if there is one. -/
structure Rewrite where
  saved : List UInt8
  sent : Option (List UInt8)

/-- `aml_scc_change_beacon_ht_ie`, with the bytes of the saved beacon; nothing is done when the
buffer is not allocated. -/
def changeBeaconHtIe (c : ChanDef) (allocated : Bool) (bcnSave : List UInt8) : Rewrite :=
  if allocated then
    -- `len` is a `u8`
    let len := (bcnSave.length - varOffset) % 256
    let buf := Element.patchAt wlanEidDsParams varOffset len c.setDs bcnSave
    let buf := Element.patchAt wlanEidHtOperation varOffset len c.setHt buf
    let buf := Element.patchAt wlanEidVhtOperation varOffset len c.setVht buf
    ⟨buf, some buf⟩
  else ⟨bcnSave, none⟩

/-! ## What the elements tell -/

/-- The channel fields of a `struct ieee80211_vht_operation`. -/
structure VhtOper where
  chanWidth : UInt8
  seg0 : UInt8
  seg1 : UInt8
deriving DecidableEq

/-- The channel fields at the head of a body. -/
def vhtFields (body : List UInt8) : VhtOper := ⟨body.getD 0 0, body.getD 1 0, body.getD 2 0⟩

def withVht (body : List UInt8) (v : VhtOper) : List UInt8 :=
  ((body.set 0 v.chanWidth).set 1 v.seg0).set 2 v.seg1

theorem length_withVht (body : List UInt8) (v : VhtOper) :
    (withVht body v).length = body.length := by
  simp [withVht]

theorem vhtFields_withVht {body : List UInt8} (long : 3 ≤ body.length) (v : VhtOper) :
    vhtFields (withVht body v) = v := by
  match body with
  | [] | [_] | [_, _] => simp at long
  | _ :: _ :: _ :: _ => simp [vhtFields, withVht]

theorem withVht_vhtFields {body : List UInt8} (long : 3 ≤ body.length) :
    withVht body (vhtFields body) = body := by
  match body with
  | [] | [_] | [_, _] => simp at long
  | _ :: _ :: _ :: _ => simp [vhtFields, withVht]

namespace ChanDef

/-- The place of the primary channel among those of 20 MHz in its segment. -/
def place (c : ChanDef) : Nat := (c.centerFreq + c.width.mhz / 2 - 10 - c.centerFreq1) / 20

/-- The secondary channel is the other one of the 40 MHz with the primary channel. -/
def SecAbove (c : ChanDef) : Prop := c.place % 2 = 0

instance (c : ChanDef) : Decidable c.SecAbove := inferInstanceAs (Decidable (_ = 0))

/-- The channel bits of `ht_param` that tell the channel. -/
def htBits (c : ChanDef) : UInt8 :=
  if 40 ≤ c.width.mhz then
    htParamChanWidthAny ||| (if c.SecAbove then htParamChaSecAbove else htParamChaSecBelow)
  else 0

/-- The centre of the 80 MHz with the primary channel, in 160 MHz. -/
def center80 (c : ChanDef) : Nat :=
  if c.place < 4 then c.centerFreq1 - 40 else c.centerFreq1 + 40

/-- The VHT operation tells the channel, in its present or its former coding. -/
def VhtTells (c : ChanDef) (v : VhtOper) : Prop :=
  match c.width with
  | .w20Noht | .w20 | .w40 => v.chanWidth = 0
  | .w80 => v = ⟨1, c.chan c.centerFreq1, 0⟩
  | .w80p80 =>
      v = ⟨1, c.chan c.centerFreq1, c.chan c.centerFreq2⟩ ∨
        v = ⟨3, c.chan c.centerFreq1, c.chan c.centerFreq2⟩
  | .w160 =>
      v = ⟨1, c.chan c.center80, c.chan c.centerFreq1⟩ ∨ v = ⟨2, c.chan c.centerFreq1, 0⟩

/-- An element is as it was, but for the channel in it. -/
def Tuned (c : ChanDef) (tag : UInt8) (old new : List UInt8) : Prop :=
  if tag = wlanEidDsParams ∧ 1 ≤ old.length then new = old.set 0 c.chanNo
  else if tag = wlanEidHtOperation ∧ sizeofHtOperation ≤ old.length then
    new = (old.set 0 c.chanNo).set 1 (old.getD 1 0 &&& 0xF8 ||| c.htBits)
  else if tag = wlanEidVhtOperation ∧ sizeofVhtOperation ≤ old.length then
    ∃ v, c.VhtTells v ∧ new = withVht old v
  else new = old

/-! ## What is done to an element -/

def dsBody (c : ChanDef) (body : List UInt8) : List UInt8 :=
  if body.length = 1 then body.set 0 c.chanNo else body

def htBody (c : ChanDef) (body : List UInt8) : List UInt8 :=
  if sizeofHtOperation ≤ body.length then
    (body.set 0 c.chanNo).set 1 (c.htParam (body.getD 1 0))
  else body

/-- What becomes of the channel fields. -/
def vhtAfter (c : ChanDef) (v : VhtOper) : VhtOper :=
  match c.width with
  | .w20Noht => v
  | .w20 | .w40 => ⟨0, 0, 0⟩
  | .w80 | .w160 => ⟨1, c.chan c.centerFreq1, v.seg1⟩
  | .w80p80 => ⟨1, c.chan c.centerFreq1, c.chan c.centerFreq2⟩

def vhtBody (c : ChanDef) (body : List UInt8) : List UInt8 :=
  if sizeofVhtOperation ≤ body.length then withVht body (c.vhtAfter (vhtFields body)) else body

theorem length_dsBody (c : ChanDef) (body : List UInt8) : (c.dsBody body).length = body.length := by
  rw [dsBody]
  split <;> simp

theorem length_htBody (c : ChanDef) (body : List UInt8) : (c.htBody body).length = body.length := by
  rw [htBody]
  split <;> simp

theorem length_vhtBody (c : ChanDef) (body : List UInt8) :
    (c.vhtBody body).length = body.length := by
  rw [vhtBody]
  split <;> simp [length_withVht]

theorem centerFreq1_ne_zero (c : ChanDef) : c.centerFreq1 ≠ 0 := by
  obtain ⟨k, inside, centre⟩ := c.centered
  obtain ⟨-, least, -⟩ | ⟨-, least, -⟩ := c.listed
  · have width : c.width.mhz ≤ 160 := by
      cases c.width <;> decide
    omega
  · have width : c.width.mhz ≤ 160 := by
      cases c.width <;> decide
    omega

end ChanDef

/-! ## From the bytes to the elements -/

section

open Element

variable (c : ChanDef) (before : List UInt8) (e : Element) (after : List UInt8)

theorem setDs_append :
    c.setDs (before ++ (e.bytes ++ after)) before.length =
      before ++ ((mapBody c.dsBody c.length_dsBody e).bytes ++ after) := by
  rw [mapBody_bytes, bytes]
  simp only [List.cons_append]
  rw [ChanDef.setDs, getD_length_append, ChanDef.dsBody]
  have length : UInt8.ofNat e.body.length = 1 ↔ e.body.length = 1 := by
    rw [← UInt8.toNat_inj, toNat_length]
    rfl
  simp only [length]
  split
  · rename_i one
    exact set_body_append before after e.tag _ (k := 0) (by omega) _
  · rfl

theorem setHt_append :
    c.setHt (before ++ (e.bytes ++ after)) before.length =
      before ++ ((mapBody c.htBody c.length_htBody e).bytes ++ after) := by
  rw [mapBody_bytes, bytes]
  simp only [List.cons_append]
  rw [ChanDef.setHt, getD_length_append, toNat_length, ChanDef.htBody]
  split
  · rename_i long
    have inside : 1 < e.body.length := Nat.lt_of_lt_of_le (by decide) long
    have param := getD_body_append before after e.tag (UInt8.ofNat e.body.length) inside 0
    have chan := set_body_append before after e.tag (UInt8.ofNat e.body.length) (k := 0)
      (Nat.zero_lt_of_lt inside) c.chanNo
    rw [Nat.zero_add] at chan
    rw [param, chan]
    exact set_body_append before after e.tag _ (k := 1) (by simpa using inside) _
  · rfl

theorem set_two_append {t l a b : UInt8} {body : List UInt8} (long : 3 ≤ body.length) :
    ((before ++ t :: l :: (body ++ after)).set (before.length + 2) a).set (before.length + 3) b =
      before ++ t :: l :: (withVht body ⟨a, b, (vhtFields body).seg1⟩ ++ after) := by
  have some : 0 < body.length := by omega
  have more : 1 < (body.set 0 a).length := by
    rw [List.length_set]
    omega
  have first := set_body_append before after t l some a
  rw [Nat.zero_add] at first
  rw [first]
  refine (set_body_append before after t l more b).trans ?_
  match body with
  | [] | [_] | [_, _] => simp at long
  | _ :: _ :: _ :: _ => simp [vhtFields, withVht]

theorem set_three_append {t l a b d : UInt8} {body : List UInt8} (long : 3 ≤ body.length) :
    (((before ++ t :: l :: (body ++ after)).set (before.length + 2) a).set
        (before.length + 3) b).set (before.length + 4) d =
      before ++ t :: l :: (withVht body ⟨a, b, d⟩ ++ after) := by
  rw [set_two_append before after long]
  refine (set_body_append before after t l (k := 2) (by rw [length_withVht]; omega) d).trans ?_
  match body with
  | [] | [_] | [_, _] => simp at long
  | _ :: _ :: _ :: _ => simp [withVht]

theorem setVht_append :
    c.setVht (before ++ (e.bytes ++ after)) before.length =
      before ++ ((mapBody c.vhtBody c.length_vhtBody e).bytes ++ after) := by
  rw [mapBody_bytes, bytes]
  simp only [List.cons_append]
  rw [ChanDef.setVht, getD_length_append, toNat_length, ChanDef.vhtBody]
  split
  · rename_i long
    have three : 3 ≤ e.body.length := Nat.le_trans (by decide) long
    have one := c.centerFreq1_ne_zero
    have two := c.second
    rw [ChanDef.vhtAfter]
    cases width : c.width with
    | w20Noht => simp only [withVht_vhtFields three]
    | w20 => exact set_three_append before after three
    | w40 => exact set_three_append before after three
    | w80 =>
        have none : c.centerFreq2 = 0 := by simpa [width] using two
        simp only [one, none, ne_eq, not_true_eq_false, not_false_eq_true, if_true, if_false]
        exact set_two_append before after three
    | w160 =>
        have none : c.centerFreq2 = 0 := by simpa [width] using two
        simp only [one, none, ne_eq, not_true_eq_false, not_false_eq_true, if_true, if_false]
        exact set_two_append before after three
    | w80p80 =>
        have some : c.centerFreq2 ≠ 0 := two.mpr width
        simp only [one, some, ne_eq, not_false_eq_true, if_true]
        exact set_three_append before after three
  · rfl

end

/-- The elements after the three changes. -/
def ChanDef.retune (c : ChanDef) (len : Nat) (es : List Element) : List Element :=
  Element.editFirst wlanEidVhtOperation (Element.mapBody c.vhtBody c.length_vhtBody) len
    (Element.editFirst wlanEidHtOperation (Element.mapBody c.htBody c.length_htBody) len
      (Element.editFirst wlanEidDsParams (Element.mapBody c.dsBody c.length_dsBody) len es))

/-- What an element becomes when it is the first with its tag, and complete within `len`. -/
def ChanDef.retuneElement (c : ChanDef) (e : Element) : Element :=
  if e.tag = wlanEidDsParams then Element.mapBody c.dsBody c.length_dsBody e
  else if e.tag = wlanEidHtOperation then Element.mapBody c.htBody c.length_htBody e
  else if e.tag = wlanEidVhtOperation then Element.mapBody c.vhtBody c.length_vhtBody e
  else e

/-- The bytes rewritten are those of the elements rewritten. -/
theorem changeBeaconHtIe_bytes (c : ChanDef) (f : Frame) :
    changeBeaconHtIe c true f.bytes =
      ⟨f.fixed ++ Element.wire (c.retune ((Element.wire f.ies).length % 256) f.ies),
        some (f.fixed ++ Element.wire (c.retune ((Element.wire f.ies).length % 256) f.ies))⟩ := by
  have len : f.bytes.length - varOffset = (Element.wire f.ies).length := by
    rw [f.length_bytes, Nat.add_sub_cancel_left]
  rw [changeBeaconHtIe, if_pos rfl, len]
  simp only [Frame.bytes, ← f.fixed_length]
  rw [Element.patchAt_wire fun before e after _ => setDs_append c before e after,
    Element.patchAt_wire fun before e after _ => setHt_append c before e after,
    Element.patchAt_wire fun before e after _ => setVht_append c before e after]
  rfl

theorem map_retune (c : ChanDef) (len : Nat) (es : List Element) :
    (c.retune len es).map Element.tag = es.map Element.tag := by
  rw [ChanDef.retune, Element.map_editFirst Element.mapBody_tag,
    Element.map_editFirst Element.mapBody_tag, Element.map_editFirst Element.mapBody_tag]

theorem ChanDef.retuneElement_tag (c : ChanDef) (e : Element) :
    (c.retuneElement e).tag = e.tag := by
  rw [ChanDef.retuneElement]
  split_ifs <;> rfl

open Element in
/-- Each element is changed by itself. -/
theorem getElem?_retune (c : ChanDef) (len : Nat) (es : List Element) (i : Nat) :
    (c.retune len es)[i]? = es[i]?.map fun e =>
      if e.tag ∉ (es.take i).map Element.tag ∧ (wire (es.take (i + 1))).length ≤ len then
        c.retuneElement e
      else e := by
  have tags : ∀ (t : UInt8) f keeps (es : List Element),
      ((editFirst t (mapBody f keeps) len es).take i).map Element.tag =
        (es.take i).map Element.tag :=
    fun _ _ _ es => map_take_editFirst mapBody_tag len es i
  have sizes : ∀ (t : UInt8) f keeps (es : List Element),
      (wire ((editFirst t (mapBody f keeps) len es).take (i + 1))).length =
        (wire (es.take (i + 1))).length :=
    fun _ _ _ es => length_wire_congr (map_take_editFirst mapBody_size len es (i + 1))
  rw [ChanDef.retune, getElem?_editFirst, getElem?_editFirst, getElem?_editFirst, Option.map_map,
    Option.map_map]
  simp only [tags, sizes]
  congr 1
  funext e
  simp only [Function.comp_apply, ChanDef.retuneElement]
  have dsHt : wlanEidDsParams ≠ wlanEidHtOperation := by decide
  have dsVht : wlanEidDsParams ≠ wlanEidVhtOperation := by decide
  have htVht : wlanEidHtOperation ≠ wlanEidVhtOperation := by decide
  by_cases ds : e.tag = wlanEidDsParams
  · split_ifs <;> simp_all [mapBody]
  · by_cases ht : e.tag = wlanEidHtOperation
    · split_ifs <;> simp_all [mapBody]
    · split_ifs <;> simp_all [mapBody]

/-! ## What the elements tell afterwards -/

namespace ChanDef

/-- The VHT operation tells the channel once it is rewritten. -/
def VhtServed (c : ChanDef) (v : VhtOper) : Prop :=
  match c.width with
  | .w20Noht => v.chanWidth = 0
  | .w20 | .w40 | .w80p80 => True
  | .w80 => v.seg1 = 0
  | .w160 => False

/-- An element within reach tells the channel once it is rewritten. -/
def Served (c : ChanDef) (tag : UInt8) (body : List UInt8) : Prop :=
  if tag = wlanEidDsParams ∧ 1 ≤ body.length then body.length = 1 ∨ body.getD 0 0 = c.chanNo
  else if tag = wlanEidHtOperation ∧ sizeofHtOperation ≤ body.length then
    40 ≤ c.width.mhz → (c.SecAbove ↔ c.centerFreq < c.centerFreq1)
  else if tag = wlanEidVhtOperation ∧ sizeofVhtOperation ≤ body.length then
    c.VhtServed (vhtFields body)
  else True

theorem chan_center80_ne (c : ChanDef) (width : c.width = .w160) :
    c.chan c.center80 ≠ c.chan c.centerFreq1 := by
  obtain ⟨k, inside, centre⟩ := c.centered
  have mhz : c.width.mhz = 160 := by rw [width]; rfl
  obtain ⟨-, -, -, narrow⟩ | ⟨band, least, most⟩ := c.listed
  · omega
  · have chan : ∀ freq, 5000 ≤ freq → freq < 6200 → (c.chan freq).toNat = (freq - 5000) / 5 := by
      intro freq low high
      rw [ChanDef.chan, band, ieee80211FreqToChan, if_neg (by omega), UInt8.toNat_ofNat']
      omega
    intro same
    have numbers := congrArg UInt8.toNat same
    rw [center80] at numbers
    split at numbers
    · rw [chan _ (by omega) (by omega), chan _ (by omega) (by omega)] at numbers
      omega
    · rw [chan _ (by omega) (by omega), chan _ (by omega) (by omega)] at numbers
      omega

theorem vhtTells_vhtAfter (c : ChanDef) (v : VhtOper) :
    c.VhtTells (c.vhtAfter v) ↔ c.VhtServed v := by
  have apart := c.chan_center80_ne
  rw [VhtTells, vhtAfter, VhtServed]
  cases width : c.width with
  | w20Noht => exact Iff.rfl
  | w20 => simp
  | w40 => simp
  | w80 => simp
  | w80p80 => simp
  | w160 =>
      simp only [VhtOper.mk.injEq, iff_false, not_or, not_and]
      exact ⟨fun _ same => absurd same.symm (apart width), fun one => absurd one (by decide)⟩

theorem centerFreq_ne_centerFreq1 (c : ChanDef) (wide : 40 ≤ c.width.mhz) :
    c.centerFreq ≠ c.centerFreq1 := by
  obtain ⟨k, inside, centre⟩ := c.centered
  have width : c.width.mhz = 40 ∨ c.width.mhz = 80 ∨ c.width.mhz = 160 := by
    cases same : c.width <;> rw [same] at wide <;> simp_all [ChanWidth.mhz]
  omega

/-- The bits of the two sides differ. -/
theorem above_ne_below (old : UInt8) :
    old &&& 0xF8 ||| (htParamChanWidthAny ||| htParamChaSecAbove) ≠
      old &&& 0xF8 ||| (htParamChanWidthAny ||| htParamChaSecBelow) := by
  have all : ∀ n : Fin 256,
      (UInt8.ofNat n &&& 0xF8 ||| (htParamChanWidthAny ||| htParamChaSecAbove)) ≠
        (UInt8.ofNat n &&& 0xF8 ||| (htParamChanWidthAny ||| htParamChaSecBelow)) := by
    decide +kernel
  simpa using all ⟨old.toNat, old.toNat_lt⟩

theorem htParam_eq_iff (c : ChanDef) (old : UInt8) :
    c.htParam old = old &&& 0xF8 ||| c.htBits ↔
      (40 ≤ c.width.mhz → (c.SecAbove ↔ c.centerFreq < c.centerFreq1)) := by
  have wider : ChanWidth.w40.val ≤ c.width.val ↔ 40 ≤ c.width.mhz := by
    cases c.width <;> decide
  rw [htParam, htBits]
  by_cases wide : 40 ≤ c.width.mhz
  · have apart := c.centerFreq_ne_centerFreq1 wide
    simp only [wider, wide, if_true, forall_const, UInt8.or_assoc]
    rcases Nat.lt_or_gt_of_ne apart with below | above
    · rw [if_neg (Nat.lt_asymm below), if_pos below]
      by_cases sec : c.SecAbove
      · simp [sec, below]
      · simp [sec, below, above_ne_below]
    · rw [if_pos above]
      by_cases sec : c.SecAbove
      · simp [sec, Nat.lt_asymm above, (above_ne_below old).symm]
      · simp [sec, Nat.lt_asymm above]
  · simp [wider, wide]

theorem set_right_inj {l : List UInt8} {k : Nat} {a b : UInt8} (inside : k < l.length) :
    l.set k a = l.set k b ↔ a = b := by
  refine ⟨fun same => ?_, fun same => by rw [same]⟩
  simpa [List.getElem?_set_self inside] using congrArg (fun l => l[k]?) same

/-- An element that is rewritten tells the channel exactly when it is served. -/
theorem tuned_retuneElement_iff (c : ChanDef) (e : Element) :
    c.Tuned e.tag e.body (c.retuneElement e).body ↔ c.Served e.tag e.body := by
  have dsHt : wlanEidDsParams ≠ wlanEidHtOperation := by decide
  have dsVht : wlanEidDsParams ≠ wlanEidVhtOperation := by decide
  have htVht : wlanEidHtOperation ≠ wlanEidVhtOperation := by decide
  rw [Tuned, Served, retuneElement]
  by_cases ds : e.tag = wlanEidDsParams
  · simp only [ds, true_and, if_true, dsHt, dsVht, false_and, if_false, Element.mapBody, dsBody]
    by_cases one : e.body.length = 1
    · simp [one]
    · by_cases long : 1 ≤ e.body.length
      · simp only [one, long, if_true, if_false, false_or]
        cases body : e.body with
        | nil => simp [body] at long
        | cons b rest => simp
      · simp [one, long]
  · by_cases ht : e.tag = wlanEidHtOperation
    · simp only [ht, true_and, if_true, dsHt.symm, htVht, false_and, if_false, Element.mapBody,
        htBody]
      split
      · rename_i long
        have inside : 1 < (e.body.set 0 c.chanNo).length := by
          rw [List.length_set]
          exact Nat.lt_of_lt_of_le (by decide) long
        rw [set_right_inj inside, htParam_eq_iff]
      · simp
    · by_cases vht : e.tag = wlanEidVhtOperation
      · simp only [vht, true_and, if_true, dsVht.symm, htVht.symm, false_and, if_false,
          Element.mapBody, vhtBody]
        split
        · rename_i long
          have three : 3 ≤ e.body.length := Nat.le_trans (by decide) long
          rw [← vhtTells_vhtAfter]
          constructor
          · rintro ⟨v, tells, same⟩
            have fields := congrArg vhtFields same
            rw [vhtFields_withVht three, vhtFields_withVht three] at fields
            rw [fields]
            exact tells
          · exact fun tells => ⟨_, tells, rfl⟩
        · simp
      · simp [ds, ht, vht]

end ChanDef

open Element in
/-- The elements are as they were, but for the channel in the first with each tag. -/
structure Retuned (c : ChanDef) (es es' : List Element) : Prop where
  length : es'.length = es.length
  each : ∀ (i : Nat) (e : Element), es[i]? = some e → ∃ e', es'[i]? = some e' ∧ e'.tag = e.tag ∧
    if e.tag ∈ (es.take i).map Element.tag then e'.body = e.body
    else c.Tuned e.tag e.body e'.body

namespace Beacon

open Element

/-- Both copies of the beacon are as it was, but for the channel. -/
def Follows (b : Beacon) (c : ChanDef) (r : Rewrite) : Prop :=
  ∃ es, Retuned c b.ies es ∧ r.saved = b.fixed ++ wire es ∧ r.sent = some r.saved

/-- Of each tag, the first element is served when it ends within the `u8` length, and otherwise
tells the channel already. -/
def Reached (b : Beacon) (c : ChanDef) : Prop :=
  ∀ (i : Nat) (e : Element), b.ies[i]? = some e → e.tag ∉ (b.ies.take i).map Element.tag →
    if (wire (b.ies.take (i + 1))).length ≤ (wire b.ies).length % 256 then c.Served e.tag e.body
    else c.Tuned e.tag e.body e.body

/-- The beacon follows the station to the channel exactly when the buffer is allocated and the
elements are reached. -/
theorem follows_iff_reached (b : Beacon) (c : ChanDef) (allocated : Bool) :
    b.Follows c (changeBeaconHtIe c allocated b.bytes) ↔ allocated = true ∧ b.Reached c := by
  cases allocated with
  | false =>
      refine ⟨fun ⟨_, _, _, sent⟩ => ?_, fun both => absurd both.1 Bool.false_ne_true⟩
      cases sent
  | true =>
      rw [changeBeaconHtIe_bytes]
      have retuned : b.Follows c
          ⟨b.fixed ++ wire (c.retune ((wire b.ies).length % 256) b.ies),
            some (b.fixed ++ wire (c.retune ((wire b.ies).length % 256) b.ies))⟩ ↔
          Retuned c b.ies (c.retune ((wire b.ies).length % 256) b.ies) := by
        constructor
        · rintro ⟨es, retuned, saved, -⟩
          rw [wire_inj (List.append_cancel_left saved)]
          exact retuned
        · exact fun retuned => ⟨_, retuned, rfl, rfl⟩
      rw [retuned]
      constructor
      · refine fun retuned => ⟨rfl, fun i e here first => ?_⟩
        obtain ⟨e', here', -, tuned⟩ := retuned.each i e here
        rw [getElem?_retune, here, Option.map_some] at here'
        rw [if_neg first] at tuned
        cases Option.some.inj here'
        split
        · rename_i within
          rw [if_pos ⟨first, within⟩] at tuned
          exact (c.tuned_retuneElement_iff e).mp tuned
        · rename_i outside
          rw [if_neg fun both => outside both.2] at tuned
          exact tuned
      · rintro ⟨-, reached⟩
        refine ⟨?_, fun i e here => ?_⟩
        · have bodies := congrArg List.length (map_retune c ((wire b.ies).length % 256) b.ies)
          simpa using bodies
        · refine ⟨_, by rw [getElem?_retune, here, Option.map_some], ?_, ?_⟩
          · split
            · exact c.retuneElement_tag e
            · rfl
          · split
            · rename_i later
              rw [if_neg fun both => both.1 later]
            · rename_i first
              have served := reached i e here first
              split
              · rename_i both
                rw [if_pos both.2] at served
                exact (c.tuned_retuneElement_iff e).mpr served
              · rename_i out
                rw [if_neg fun within => out ⟨first, within⟩] at served
                exact served

end Beacon

/-! ## A long beacon -/

theorem channel6_listed : Band.ghz2 = .ghz2 ∧ 2390 ≤ 2437 ∧ 2437 ≤ 2512 ∧ ChanWidth.w20.mhz ≤ 40 ∨
    Band.ghz2 = .ghz5 ∧ 5180 ≤ 2437 ∧ 2437 ≤ 5970 := by
  decide

theorem channel6_centered : ∃ k, 20 * (k + 1) ≤ ChanWidth.w20.mhz ∧
    2437 + ChanWidth.w20.mhz / 2 = 2437 + 20 * k + 10 :=
  ⟨0, by decide⟩

theorem channel6_second : 0 ≠ 0 ↔ ChanWidth.w20 = .w80p80 := by decide

/-- Channel 6 of the 2.4 GHz band. -/
def channel6 : ChanDef :=
  ⟨.ghz2, 2437, .w20, 2437, 0, channel6_listed, channel6_centered, channel6_second⟩

theorem vendor_fits {n : Nat} (fits : n < 256) : (List.replicate n (0 : UInt8)).length < 256 := by
  rw [List.length_replicate]
  exact fits

theorem channel_fits : ([1] : List UInt8).length < 256 := by decide

theorem zeros_length : (List.replicate varOffset (0 : UInt8)).length = varOffset :=
  List.length_replicate

/-- A beacon on channel 1, which comes behind an element of a vendor. -/
def vendorFrame (n : Nat) (fits : n < 256) : Frame where
  fixed := List.replicate varOffset 0
  ies := [⟨wlanEidVendorSpecific, List.replicate n 0, vendor_fits fits⟩,
    ⟨wlanEidDsParams, [1], channel_fits⟩]
  fixed_length := zeros_length

theorem vendorFrame_length (n : Nat) (fits : n < 256) :
    (vendorFrame n fits).bytes.length ≤ sccFrmbufMaxlen := by
  rw [Frame.length_bytes]
  change 36 + (Element.wire [_, _]).length ≤ 1000
  simp [Element.size]
  omega

theorem fits_250 : 250 < 256 := by decide

theorem fits_251 : 251 < 256 := by decide

def vendorBeacon (n : Nat) (fits : n < 256) : Beacon :=
  ⟨vendorFrame n fits, vendorFrame_length n fits⟩

/-- With 255 bytes of elements, the channel is found. -/
example : (changeBeaconHtIe channel6 true (vendorBeacon 250 fits_250).bytes).saved.getLast? =
    some 6 := by
  decide +kernel

/-- With 256 bytes of elements, the beacon tells channel 1 still. -/
theorem vendorBeacon_not_follows :
    (vendorBeacon 251 fits_251).bytes.length = 292 ∧
      (changeBeaconHtIe channel6 true (vendorBeacon 251 fits_251).bytes).sent =
        some (vendorBeacon 251 fits_251).bytes ∧
      ¬(vendorBeacon 251 fits_251).Follows channel6
        (changeBeaconHtIe channel6 true (vendorBeacon 251 fits_251).bytes) := by
  have sent : (changeBeaconHtIe channel6 true (vendorBeacon 251 fits_251).bytes).sent =
      some (vendorBeacon 251 fits_251).bytes := by
    decide +kernel
  refine ⟨by decide +kernel, sent, ?_⟩
  rintro ⟨es, retuned, saved, same⟩
  rw [sent, Option.some.injEq] at same
  obtain rfl : (vendorBeacon 251 fits_251).ies = es :=
    Element.wire_inj (List.append_cancel_left (same.trans saved))
  obtain ⟨e, here, -, tuned⟩ := retuned.each 1 ⟨wlanEidDsParams, [1], channel_fits⟩ rfl
  cases here
  rw [if_neg (by decide), ChanDef.Tuned, if_pos (by decide)] at tuned
  exact absurd tuned (by decide)

end AmlW2.Scc
