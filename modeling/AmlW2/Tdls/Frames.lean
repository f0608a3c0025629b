import AmlW2.Tdls.Builders

/-!
# TDLS management frames

`aml_tdls_send_mgmt_packet_data` allocates a socket buffer by an estimate of what will be added,
writes the fixed fields of the action and adds the elements that go with it.
-/

namespace AmlW2.Tdls

/-! ## The request -/

/-- The action codes that are handled. -/
inductive Action
  | setupRequest
  | setupResponse
  | setupConfirm
  | teardown
  | discoveryRequest
  | discoverRes
deriving DecidableEq, Repr

def Action.code : Action → UInt8
  | setupRequest => 0
  | setupResponse => 1
  | setupConfirm => 2
  | teardown => 3
  | discoveryRequest => 10
  | discoverRes => 14

/-- The action of a code. -/
def actionOf (code : UInt8) : Option Action :=
  if code = 0 then some .setupRequest
  else if code = 1 then some .setupResponse
  else if code = 2 then some .setupConfirm
  else if code = 3 then some .teardown
  else if code = 10 then some .discoveryRequest
  else if code = 14 then some .discoverRes
  else none

theorem code_of_actionOf {code : UInt8} {action : Action} (found : actionOf code = some action) :
    code = action.code := by
  unfold actionOf at found
  split_ifs at found with same same same same same same <;> cases found <;> exact same

/-- The arguments of `aml_tdls_send_mgmt_packet_data`. -/
structure Request where
  peer : Nat → UInt8
  actionCode : UInt8
  dialogToken : UInt8
  statusCode : UInt16
  initiator : Bool
  extraIes : List UInt8

/-! ## Fixed fields -/

/-- `aml_get_tdls_sta_capab`. -/
def amlGetTdlsStaCapab (ap : Sta) (statusCode : UInt16) : UInt16 :=
  if statusCode ≠ 0 then 0
  else if ap.band ≠ .ghz2 then 0
  else 0x0400 ||| 0x0020

/-- The fields of an action behind its code. -/
def Request.actionFields (r : Request) (ap : Sta) : Action → List UInt8
  | .setupRequest | .discoverRes =>
      r.dialogToken :: le16 (amlGetTdlsStaCapab ap r.statusCode)
  | .setupResponse =>
      le16 r.statusCode ++ r.dialogToken :: le16 (amlGetTdlsStaCapab ap r.statusCode)
  | .setupConfirm => le16 r.statusCode ++ [r.dialogToken]
  | .teardown => le16 r.statusCode
  | .discoveryRequest => [r.dialogToken]

/-- What `aml_tdls_prepare_encap_data` writes, and for
a discovery response `aml_prep_tdls_direct`. -/
def Request.fixedFields (r : Request) (hw : Hw) (ap : Sta) (action : Action) : List UInt8 :=
  match action with
  | .discoverRes =>
      [0xd0, 0, 0, 0] ++ bytesOf r.peer 6 ++ bytesOf hw.permAddr 6 ++ bytesOf ap.macAddr 6 ++
        [0, 0, 4, r.actionCode] ++ r.actionFields ap action
  | _ =>
      bytesOf r.peer 6 ++ bytesOf hw.permAddr 6 ++ [0x89, 0x0d, 2, 12, r.actionCode] ++
        r.actionFields ap action

/-! ## Elements -/

/-- `aml_tdls_add_setup_start_ies`. -/
def Hw.amlTdlsAddSetupStartIes (hw : Hw) (ap : Sta) (r : Request) (action : Action) (skb : Skb) :
    Skb :=
  let skb := amlAddExtStatesIe (amlAddStatesIe skb)
  let skb := hw.amlTdlsAddExtCapab (hw.amlTdlsAddSuppChannels skb)
  let skb := if action ≠ .discoverRes then amlAddWmmInfoIe skb 0 else skb
  let skb := hw.amlTdlsAddOperClasses ap skb
  let sband := hw.bands ap.band
  let skb :=
    if (action = .setupRequest ∨ action = .setupResponse ∨ action = .discoverRes) ∧
        sband.htCap.htSupported then
      amlIeBuildHtCap skb sband.htCap
    else skb
  let skb :=
    if sband.htCap.htSupported ∧ sband.htCap.cap &&& 2 ≠ 0 then amlTdlsAddBssCoexIe skb else skb
  let skb := hw.amlTdlsAddLinkIe ap skb r.peer r.initiator
  let skb :=
    if sband.vhtCap.vhtSupported then amlIeBuildVhtCap (amlTdlsAddAidIe ap skb)
      sband.vhtCap else skb
  skb.putBytes r.extraIes

/-- `aml_tdls_add_setup_cfm_ies`. -/
def Hw.amlTdlsAddSetupCfmIes (hw : Hw) (ap : Sta) (r : Request) (skb : Skb) : Skb :=
  match hw.getSta r.peer with
  | none => skb
  | some sta =>
      let sband := hw.bands ap.band
      let skb := if sta.qos then amlAddWmmParamIe skb ap.acm ap.acParam else skb
      let skb :=
        if sband.htCap.htSupported ∧ !ap.ht ∧ sta.ht then
          hw.amlIeBuildHtOper ap skb sband.htCap 0
        else skb
      let skb := hw.amlTdlsAddLinkIe ap skb r.peer r.initiator
      let skb :=
        if sband.vhtCap.vhtSupported ∧ !ap.vht ∧ sta.vht then hw.amlIeBuildVhtOper ap skb else skb
      skb.putBytes r.extraIes

/-- `aml_tdls_add_ies`. -/
def Hw.amlTdlsAddIes (hw : Hw) (ap : Sta) (r : Request) (action : Action) (skb : Skb) : Skb :=
  match action with
  | .setupRequest | .setupResponse | .discoverRes =>
      if r.statusCode = 0 then hw.amlTdlsAddSetupStartIes ap r action skb else skb
  | .setupConfirm => if r.statusCode = 0 then hw.amlTdlsAddSetupCfmIes ap r skb else skb
  | .teardown =>
      hw.amlTdlsAddLinkIe ap (skb.putBytes r.extraIes) r.peer r.initiator
  | .discoveryRequest =>
      let skb := skb.putBytes r.extraIes
      if r.statusCode = 0 then hw.amlTdlsAddLinkIe ap skb r.peer r.initiator else skb

/-- The room that is asked for: the sizes of the headers and the elements, term by term. -/
def Hw.skbSize (hw : Hw) (r : Request) : Nat :=
  22 + 10 + 6 + (2 + (hw.bands .ghz2).channels.length + (hw.bands .ghz5).channels.length) + 10 +
    26 + 4 + 28 + 3 + 20 + (2 + 12) + 4 + (2 + 22) + r.extraIes.length

/-- `aml_tdls_send_mgmt_packet_data`: the frame that is sent, if the buffer is allocated. -/
def Hw.amlTdlsSendMgmtPacketData (hw : Hw) (ap : Sta) (r : Request) : Option Skb :=
  (actionOf r.actionCode).map fun action =>
    hw.amlTdlsAddIes ap r action
      (Skb.putBytes { size := hw.skbSize r, data := [] } (r.fixedFields hw ap action))

/-! ## What a frame should be -/

/-- The bytes form a list of elements. -/
def WellFormed (ies : List UInt8) : Prop := ∃ es, ies = Element.wire es

/-- A frame of a setup, or a discovery response, that says what the station supports. -/
def Request.Starts (r : Request) : Prop :=
  r.statusCode = 0 ∧ (r.actionCode = 0 ∨ r.actionCode = 1 ∨ r.actionCode = 14)

/-- A frame that confirms a setup. -/
def Request.Confirms (r : Request) : Prop := r.statusCode = 0 ∧ r.actionCode = 2

/-- A frame fits in its buffer, each of its bytes is written, what follows its fixed fields is a
list of elements if the elements it was given are, and the AID it carries is the whole one. -/
structure Proper (hw : Hw) (ap : Sta) (r : Request) (skb : Skb) : Prop where
  fits : skb.data.length ≤ skb.size
  written : ∃ action ∈ actionOf r.actionCode, ∃ ies : List UInt8,
    skb.data = (r.fixedFields hw ap action ++ ies).map some ∧
      (WellFormed r.extraIes → WellFormed ies) ∧
      (r.Starts → (hw.bands ap.band).vhtCap.vhtSupported → 197 :: 2 :: le16 ap.aid <:+: ies)

/-- No byte is left out: a frame that starts a setup has channels in both bands to tell and no AID,
and one that confirms it has no VHT operation from 4.12 on. -/
structure Complete (hw : Hw) (ap : Sta) (r : Request) : Prop where
  channels : r.Starts → ∀ band, (hw.bands band).channels ≠ []
  aid : r.Starts → (hw.bands ap.band).vhtCap.vhtSupported = false
  vhtOper : r.Confirms → ∀ sta ∈ hw.getSta r.peer,
    hw.since412 = true → (hw.bands ap.band).vhtCap.vhtSupported = true → sta.vht = true →
      ap.vht = true

/-! ## The room -/

variable {hw : Hw} {ap : Sta} {r : Request} {action : Action} {head : List UInt8}
  {size len : Nat} {skb : Skb}

theorem length_fixedFields (hw : Hw) (ap : Sta) (r : Request) (action : Action) :
    (r.fixedFields hw ap action).length ≤ 29 := by
  cases action <;> simp [Request.fixedFields, Request.actionFields, le16]

theorem built_nil (head : List UInt8) (size : Nat) :
    Built head size 0 (Skb.putBytes { size, data := [] } head) :=
  ⟨rfl, [], by simp [Skb.putBytes, Skb.put], by simp⟩

/-- What is behind the head of a buffer, in which every byte is written. -/
structure Carries (head extra : List UInt8) (size : Nat) (skb : Skb) (ies : List UInt8) : Prop where
  size_eq : skb.size = size
  data_eq : skb.data = (head ++ ies).map some
  wellFormed : WellFormed extra → WellFormed ies

/-- The elements that are given go behind the others. -/
theorem Built.extra (built : Built head size len skb) (extra : List UInt8) :
    ∃ ies, Carries head extra size (skb.putBytes extra) ies ∧ ies.length ≤ len + extra.length := by
  obtain ⟨same, es, held, short⟩ := built
  refine ⟨Element.wire es ++ extra, ⟨same, ?_, ?_⟩, ?_⟩
  · simp [Skb.putBytes, Skb.put, held]
  · rintro ⟨es', rfl⟩
    exact ⟨es ++ es', (Element.wire_append es es').symm⟩
  · rw [List.length_append]
    omega

theorem Built.carries (built : Built head size len skb) (extra : List UInt8) :
    ∃ ies, Carries head extra size skb ies ∧ ies.length ≤ len + extra.length := by
  obtain ⟨same, es, held, short⟩ := built
  exact ⟨Element.wire es, ⟨same, held, fun _ => ⟨es, rfl⟩⟩, short.trans (Nat.le_add_right _ _)⟩

theorem Carries.element {extra ies : List UInt8} (carried : Carries head extra size skb ies)
    {tag declared : UInt8} {body : List UInt8} (own : declared.toNat = body.length) :
    Carries head extra size (skb.putBytes (tag :: declared :: body))
      (ies ++ tag :: declared :: body) := by
  obtain ⟨same, held, formed⟩ := carried
  refine ⟨same, ?_, fun given => ?_⟩
  · simp [Skb.putBytes, Skb.put, held]
  · obtain ⟨es, rfl⟩ := formed given
    refine ⟨es ++ [⟨tag, body, own ▸ declared.toNat_lt⟩], ?_⟩
    simp [Element.wire_append, Element.bytes, ← own]

/-- Where nothing is left out, the elements that start a setup are all written. -/
theorem Complete.start (complete : Complete hw ap r) (starts : r.Starts)
    (built : Built head size 0 skb) :
    ∃ ies, Carries head r.extraIes size (hw.amlTdlsAddSetupStartIes ap r action skb) ies ∧
      ies.length ≤ 93 + r.extraIes.length := by
  unfold Hw.amlTdlsAddSetupStartIes
  have noVht := complete.aid starts
  simp only [noVht, Bool.false_eq_true, if_false]
  refine Built.extra ?_ _
  have told := (built.amlAddStatesIe.amlAddExtStatesIe.amlTdlsAddSuppChannels
    (complete.channels starts)).amlTdlsAddExtCapab hw
  have qos := (told.amlAddWmmInfoIe 0).ite (p := action ≠ .discoverRes) (told.mono (by omega))
  have classes := qos.amlTdlsAddOperClasses hw ap
  have ht := (classes.amlIeBuildHtCap (hw.bands ap.band).htCap).ite
    (p := (action = .setupRequest ∨ action = .setupResponse ∨ action = .discoverRes) ∧
      (hw.bands ap.band).htCap.htSupported) (classes.mono (by omega))
  have coex := ht.amlTdlsAddBssCoexIe.ite
    (p := (hw.bands ap.band).htCap.htSupported ∧ (hw.bands ap.band).htCap.cap &&& 2 ≠ 0)
    (ht.mono (by omega))
  exact coex.amlTdlsAddLinkIe hw ap r.peer r.initiator

/-- Where nothing is left out, the elements that confirm a setup are all written. -/
theorem Complete.confirm (complete : Complete hw ap r) (confirms : r.Confirms)
    (built : Built head size 0 skb) :
    ∃ ies, Carries head r.extraIes size (hw.amlTdlsAddSetupCfmIes ap r skb) ies ∧
      ies.length ≤ 93 + r.extraIes.length := by
  unfold Hw.amlTdlsAddSetupCfmIes
  cases known : hw.getSta r.peer with
  | none => exact (built.mono (Nat.zero_le 93)).carries _
  | some sta =>
      refine Built.extra ?_ _
      have qos := (built.amlAddWmmParamIe ap.acm ap.acParam).ite (p := sta.qos = true)
        (built.mono (by omega))
      have ht := (qos.amlIeBuildHtOper hw ap (hw.bands ap.band).htCap 0).ite
        (p := (hw.bands ap.band).htCap.htSupported ∧ !ap.ht ∧ sta.ht) (qos.mono (by omega))
      have link := ht.amlTdlsAddLinkIe hw ap r.peer r.initiator
      have before := complete.vhtOper confirms sta known
      by_cases vht : (hw.bands ap.band).vhtCap.vhtSupported ∧ !ap.vht ∧ sta.vht
      · have old : hw.since412 = false := by
          cases since : hw.since412 with
          | false => rfl
          | true =>
              have whole := before since vht.1 vht.2.2
              simp [whole] at vht
        rw [if_pos vht]
        exact (link.amlIeBuildVhtOper ap old).mono (by omega)
      · rw [if_neg vht]
        exact link.mono (by omega)

/-- The elements that are added for an action, where nothing is left out. -/
theorem Complete.ies (complete : Complete hw ap r) (found : actionOf r.actionCode = some action)
    (built : Built head size 0 skb) :
    ∃ ies, Carries head r.extraIes size (hw.amlTdlsAddIes ap r action skb) ies ∧
      ies.length ≤ 93 + r.extraIes.length := by
  have code := code_of_actionOf found
  have bare : ∃ ies, Carries head r.extraIes size skb ies ∧
      ies.length ≤ 93 + r.extraIes.length := (built.mono (Nat.zero_le 93)).carries _
  have started (status : r.statusCode = 0)
      (code : r.actionCode = 0 ∨ r.actionCode = 1 ∨ r.actionCode = 14) :
      ∃ ies, Carries head r.extraIes size (hw.amlTdlsAddSetupStartIes ap r action skb) ies ∧
        ies.length ≤ 93 + r.extraIes.length := complete.start ⟨status, code⟩ built
  obtain ⟨given, carried, short⟩ := built.extra r.extraIes
  have linked : ∃ ies, Carries head r.extraIes size
      (hw.amlTdlsAddLinkIe ap (skb.putBytes r.extraIes) r.peer r.initiator) ies ∧
        ies.length ≤ 93 + r.extraIes.length := by
    refine ⟨_, carried.element rfl, ?_⟩
    simp only [List.length_append, List.length_cons, length_bytesOf]
    omega
  unfold Hw.amlTdlsAddIes
  cases action with
  | setupRequest =>
      dsimp only
      split_ifs with status
      · exact started status (.inl code)
      · exact bare
  | setupResponse =>
      dsimp only
      split_ifs with status
      · exact started status (.inr (.inl code))
      · exact bare
  | setupConfirm =>
      dsimp only
      split_ifs with status
      · exact complete.confirm ⟨status, code⟩ built
      · exact bare
  | teardown => exact linked
  | discoveryRequest =>
      dsimp only
      split_ifs with status
      · exact linked
      · exact ⟨given, carried, by omega⟩
  | discoverRes =>
      dsimp only
      split_ifs with status
      · exact started status (.inr (.inr code))
      · exact bare

/-! ## What is left out -/

theorem Proper.none_not_mem (proper : Proper hw ap r skb) : none ∉ skb.data := by
  obtain ⟨action, _, ies, held, -⟩ := proper.written
  simp [held]

theorem Extends.none_mem {skb' : Skb} (done : Extends skb skb') (left_out : none ∈ skb.data) :
    none ∈ skb'.data := done.2.subset left_out

/-- Behind the supported channels, a frame that starts a setup only grows. -/
theorem extends_suppChannels (hw : Hw) (ap : Sta) (r : Request) (action : Action) (skb : Skb) :
    Extends (hw.amlTdlsAddSuppChannels (amlAddExtStatesIe (amlAddStatesIe skb)))
      (hw.amlTdlsAddSetupStartIes ap r action skb) := by
  unfold Hw.amlTdlsAddSetupStartIes
  have capab := (Extends.refl (hw.amlTdlsAddSuppChannels
    (amlAddExtStatesIe (amlAddStatesIe skb)))).amlTdlsAddExtCapab hw
  have qos := (capab.amlAddWmmInfoIe 0).ite (p := action ≠ .discoverRes) capab
  have classes := qos.amlTdlsAddOperClasses hw ap
  have ht := (classes.amlIeBuildHtCap (hw.bands ap.band).htCap).ite
    (p := (action = .setupRequest ∨ action = .setupResponse ∨ action = .discoverRes) ∧
      (hw.bands ap.band).htCap.htSupported) classes
  have coex := ht.amlTdlsAddBssCoexIe.ite
    (p := (hw.bands ap.band).htCap.htSupported ∧ (hw.bands ap.band).htCap.cap &&& 2 ≠ 0) ht
  have link := coex.amlTdlsAddLinkIe hw ap r.peer r.initiator
  have vht := ((link.amlTdlsAddAidIe ap).amlIeBuildVhtCap (hw.bands ap.band).vhtCap).ite
    (p := (hw.bands ap.band).vhtCap.vhtSupported) link
  exact vht.putBytes r.extraIes

/-- With VHT the AID, which is not whole, is in the frame. -/
theorem none_mem_setupStart (vht : (hw.bands ap.band).vhtCap.vhtSupported = true) :
    none ∈ (hw.amlTdlsAddSetupStartIes ap r action skb).data := by
  unfold Hw.amlTdlsAddSetupStartIes
  simp only [vht, if_true]
  exact Extends.none_mem (((Extends.refl _).amlIeBuildVhtCap _).putBytes _) (none_mem_aidIe ap _)

/-- With the VHT operation a byte is left out from 4.12 on. -/
theorem none_mem_setupCfm {sta : Sta} (known : hw.getSta r.peer = some sta)
    (since : hw.since412 = true)
    (vht : (hw.bands ap.band).vhtCap.vhtSupported ∧ !ap.vht ∧ sta.vht) :
    none ∈ (hw.amlTdlsAddSetupCfmIes ap r skb).data := by
  unfold Hw.amlTdlsAddSetupCfmIes
  rw [known]
  simp only [if_pos vht]
  exact ((Extends.refl _).putBytes _).none_mem (none_mem_vhtOper since)

/-- The frames that are sent for a request are as they should be exactly when no byte of them is
left out. -/
theorem amlTdlsSendMgmtPacketData_proper_iff (hw : Hw) (ap : Sta) (r : Request) :
    (∀ skb ∈ hw.amlTdlsSendMgmtPacketData ap r, Proper hw ap r skb) ↔ Complete hw ap r := by
  constructor
  · intro proper
    have whole : ∀ action, actionOf r.actionCode = some action →
        none ∉ (hw.amlTdlsAddIes ap r action
          (Skb.putBytes ⟨hw.skbSize r, []⟩ (r.fixedFields hw ap action))).data := by
      intro action found
      refine (proper _ ?_).none_not_mem
      rw [Hw.amlTdlsSendMgmtPacketData, found]
      rfl
    have started : r.Starts → ∃ skb action,
        none ∉ (hw.amlTdlsAddSetupStartIes ap r action skb).data := by
      rintro ⟨status, code⟩
      rcases code with code | code | code
      · have sent := whole .setupRequest (by rw [code]; rfl)
        simp only [Hw.amlTdlsAddIes, status, if_true] at sent
        exact ⟨_, _, sent⟩
      · have sent := whole .setupResponse (by rw [code]; rfl)
        simp only [Hw.amlTdlsAddIes, status, if_true] at sent
        exact ⟨_, _, sent⟩
      · have sent := whole .discoverRes (by rw [code]; rfl)
        simp only [Hw.amlTdlsAddIes, status, if_true] at sent
        exact ⟨_, _, sent⟩
    refine ⟨fun starts band empty => ?_, fun starts => ?_, fun confirms sta known since vht peer =>
      ?_⟩
    · obtain ⟨skb, action, sent⟩ := started starts
      exact sent ((extends_suppChannels hw ap r action skb).none_mem (none_mem_suppChannels empty))
    · obtain ⟨skb, action, sent⟩ := started starts
      exact Bool.eq_false_iff.mpr fun vht => sent (none_mem_setupStart vht)
    · obtain ⟨status, code⟩ := confirms
      have sent := whole .setupConfirm (by rw [code]; rfl)
      simp only [Hw.amlTdlsAddIes, status, if_true] at sent
      by_contra ap_vht
      refine sent (none_mem_setupCfm known since ⟨vht, ?_, peer⟩)
      simpa using ap_vht
  · intro complete skb sent
    obtain ⟨action, found, rfl⟩ := Option.map_eq_some_iff.mp sent
    obtain ⟨ies, ⟨same, held, formed⟩, short⟩ :=
      complete.ies found (built_nil (r.fixedFields hw ap action) (hw.skbSize r))
    have head := length_fixedFields hw ap r action
    refine ⟨?_, action, found, ies, held, formed, fun starts vht => ?_⟩
    · rw [same, held, List.length_map, List.length_append, Hw.skbSize]
      omega
    · rw [complete.aid starts] at vht
      cases vht

/-! ## A frame with an AID -/

/-- A station on a network with VHT. -/
def vhtHw : Hw where
  bands _ :=
    { channels := [2412]
      htCap := ⟨false, 0, 0, 0, fun _ => 0⟩
      vhtCap := ⟨true, 0, fun _ => 0⟩ }
  permAddr _ := 2
  tdlsChannelSwitch := false
  mcsMap := 0
  getSta _ := none
  frequencyToChannel _ := 1
  chandefToOperatingClass _ := some 81
  since412 := true

def farAp : Sta where
  macAddr _ := 4
  aid := 0x0123
  band := .ghz5
  width := .w80
  centerFreq := 5180
  centerFreq1 := 5210
  centerFreq2 := 0
  qos := true
  acm := 0
  acParam _ := 0
  ht := true
  vht := true

/-- The second byte of the AID is not written. -/
theorem vhtRequest_not_proper : ¬∀ (hw : Hw) (ap : Sta) (r : Request),
    ∀ skb ∈ hw.amlTdlsSendMgmtPacketData ap r, Proper hw ap r skb := by
  intro all
  have proper := all vhtHw farAp ⟨fun _ => 6, 0, 1, 0, true, []⟩ _ rfl
  exact proper.none_not_mem (none_mem_setupStart rfl)

end AmlW2.Tdls
