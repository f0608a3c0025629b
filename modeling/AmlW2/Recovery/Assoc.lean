import AmlW2.Lib.Block
import AmlW2.Lib.Run
import Mathlib.Algebra.Ring.Nat

/-!
# The connection recovery replays

`aml_recy_save_assoc_info` records the parameters of each connection field by field, and
`aml_recy_sta_connect` builds the connect request of a recovery from the record.  The SSID and the
IEs lie one after the other in a buffer that is kept while it is long enough.
-/

namespace AmlW2.Recovery

/-- A MAC address, `ETH_ALEN` bytes. -/
abbrev Mac := BitVec 48

/-- `bcst_bssid`. -/
def bcstBssid : Mac := BitVec.allOnes 48

/-- What the driver reads of `struct ieee80211_channel`. -/
structure Ieee80211Channel where
  band : Nat
  centerFreq : Nat
  flags : Nat
  deriving DecidableEq

/-- `struct cfg80211_crypto_settings`: the fields that decide on a shared key, and the others. -/
structure CryptoSettings where
  wpaVersions : BitVec 32
  nCiphersPairwise : BitVec 32
  rest : List UInt8
  deriving DecidableEq

/-- `enum nl80211_auth_type`. -/
inductive AuthType where
  | openSystem
  | sharedKey
  | ft
  | networkEap
  | sae
  | filsSk
  | filsSkPfs
  | filsPk
  | automatic
  deriving DecidableEq

/-- `enum nl80211_mfp`. -/
inductive Mfp where
  | no
  | required
  | optional
  deriving DecidableEq

/-- `struct cfg80211_connect_params`.  A pointer with its length is a list, absent for `NULL`. -/
structure ConnectParams where
  channel : Option Ieee80211Channel
  bssid : Option Mac
  prevBssid : Option Mac
  ssid : Option (List UInt8)
  ie : Option (List UInt8)
  authType : AuthType
  mfp : Mfp
  crypto : CryptoSettings
  keyIdx : UInt8
  key : Option (List UInt8)
  deriving DecidableEq

/-- `MAC_SSID_LEN`. -/
def macSsidLen : Nat := 32

/-- `WLAN_EID_SSID`. -/
def wlanEidSsid : UInt8 := 0

/-- The auth type of a request: a shared key for a network without WPA selects shared-key
authentication where the type is left to the driver. -/
def resolveAuth (crypto : CryptoSettings) (authType : AuthType) (keyed : Bool) : AuthType :=
  -- `NL80211_WPA_VERSION_1` to `_3`; `WLAN_CIPHER_SUITE_WEP40` and `_WEP104`
  if crypto.wpaVersions &&& 7 = 0 ∧ keyed ∧ (authType = .sharedKey ∨ authType = .automatic ∨
      crypto.nCiphersPairwise &&& (0x000FAC01 ||| 0x000FAC05) ≠ 0) then
    if authType = .automatic then .sharedKey else authType
  else authType

/-- The difference of two lengths in `size_t`. -/
def sizeSub (m n : Nat) : Nat := if n ≤ m then m - n else m + 2 ^ 64 - n

/-- A length stored in an `int` and passed as `size_t`. -/
def sizeOfInt (n : Nat) : Nat :=
  if n % 2 ^ 32 < 2 ^ 31 then n % 2 ^ 32 else 2 ^ 64 - 2 ^ 32 + n % 2 ^ 32

theorem sizeOfInt_eq {n : Nat} (short : n < 2 ^ 31) : sizeOfInt n = n := by
  have whole : n % 2 ^ 32 = n := Nat.mod_eq_of_lt (by omega)
  rw [sizeOfInt, whole, if_pos short]

namespace ConnectParams

/-- The parameters are saved at all: they have IEs and an SSID. -/
def given (p : ConnectParams) : Bool := p.ie.getD [] ≠ [] ∧ p.ssid.getD [] ≠ []

/-- `key_len`. -/
def keyLen (p : ConnectParams) : Nat := (p.key.getD []).length

/-- The SSID, truncated to `MAC_SSID_LEN`. -/
def shortSsid (p : ConnectParams) : List UInt8 := (p.ssid.getD []).take macSsidLen

/-- What is written to the IE buffer. -/
def elements (p : ConnectParams) : List UInt8 :=
  [wlanEidSsid, UInt8.ofNat p.shortSsid.length] ++ (p.shortSsid ++ p.ie.getD [])

/-- The length computed for the IE buffer. -/
def iesLen (p : ConnectParams) : Nat :=
  sizeOfInt ((p.ie.getD []).length + p.shortSsid.length + 2)

/-- The auth type the driver takes for these parameters is the one they name. -/
def Resolved (p : ConnectParams) : Prop :=
    resolveAuth p.crypto p.authType (0 < p.keyLen) = p.authType

instance : DecidablePred Resolved := fun p =>
  decEq (resolveAuth p.crypto p.authType (0 < p.keyLen)) p.authType

theorem length_shortSsid (p : ConnectParams) : p.shortSsid.length ≤ macSsidLen :=
  List.length_take_le _ _

theorem length_elements (p : ConnectParams) :
    p.elements.length = (p.ie.getD []).length + p.shortSsid.length + 2 := by
  simp only [elements, List.length_append, List.length_cons, List.length_nil]
  omega

theorem iesLen_eq {p : ConnectParams} (short : p.elements.length < 2 ^ 31) :
    p.iesLen = p.elements.length := by
  rw [iesLen, ← length_elements]
  exact sizeOfInt_eq short

end ConnectParams

/-- The connect request of a recovery. -/
structure Request where
  ssid : List UInt8
  ie : List UInt8
  bssid : Mac
  prevBssid : Option Mac
  channel : Option Ieee80211Channel
  crypto : CryptoSettings
  authType : AuthType
  mfp : Mfp
  keyIdx : UInt8
  keyLen : Nat
  key : List UInt8
  deriving DecidableEq

/-- The request that connects with the parameters given. -/
def ConnectParams.request (p : ConnectParams) : Request where
  ssid := p.shortSsid
  ie := p.ie.getD []
  bssid := p.bssid.getD bcstBssid
  prevBssid := p.prevBssid
  channel := p.channel
  crypto := p.crypto
  authType := p.authType
  mfp := p.mfp
  keyIdx := p.keyIdx
  keyLen := p.keyLen
  key := p.key.getD []

/-- `struct aml_recy_assoc_info`, the flag `AML_RECY_ASSOC_INFO_SAVED`, and the parameters of the
last connection saved. -/
structure Recy where
  bssid : Mac := 0
  prevBssid : Mac := 0
  chan : Option Ieee80211Channel := none
  crypto : CryptoSettings := ⟨0, 0, []⟩
  authType : AuthType := .openSystem
  mfp : Mfp := .no
  keyIdx : UInt8 := 0
  keyLen : Nat := 0
  keyBuf : Option (List UInt8) := none
  iesLen : Nat := 0
  iesBuf : Option (Block UInt8) := none
  vifIdx : Nat := 0
  assocInfoSaved : Bool := false
  last : Option ConnectParams := none

/-- Which allocations of a call succeed, if they are made. -/
structure Grants where
  chan : Bool
  key : Bool
  ies : Bool

inductive Fault where
  /-- An access outside the IE buffer, or to a part of it never written. -/
  | outside

/-- `kmalloc` of a buffer: nothing above `KMALLOC_MAX_SIZE` is granted. -/
def kmalloc (kmallocMaxSize : Nat) (granted : Bool) (size : Nat) : Option (Block UInt8) :=
  if granted ∧ size ≤ kmallocMaxSize then some (Block.fresh size) else none

/-- The allocation of `aml_recy_memcpy` is made and fails. -/
def memcpyFails {α : Type*} (src : Option α) (len : Nat) (granted : Bool) : Bool :=
  src.isSome && 0 < len && !granted

/-- `aml_recy_memcpy`: what `dst` points to afterwards. -/
def amlRecyMemcpy {α : Type*} (dst src : Option α) (len : Nat) (granted : Bool) : Option α :=
  if src.isSome ∧ 0 < len then (if granted then src else none) else dst

/-- `sizeof(struct ieee80211_channel)`, as far as it is modelled; only that it is not 0 matters. -/
def sizeofChannel : Nat := 12

inductive Event where
  /-- A connection is saved, for the vif with the index. -/
  | save (p : ConnectParams) (vifIndex : Nat) (g : Grants)
  /-- A recovery reconnects; the first vif is there and a station, or not. -/
  | staConnect (usable : Bool)
  /-- `AML_RECY_ASSOC_INFO_SAVED` is cleared. -/
  | flagsClr

namespace Recy

/-- The fields copied before any allocation. -/
def copyFields (s : Recy) (p : ConnectParams) : Recy :=
  { s with
    bssid := p.bssid.getD bcstBssid
    prevBssid := p.prevBssid.getD s.prevBssid
    crypto := p.crypto
    authType := p.authType
    mfp := p.mfp
    keyIdx := p.keyIdx
    keyLen := p.keyLen }

def copyChan (s : Recy) (p : ConnectParams) (granted : Bool) : Recy :=
  { s with chan := amlRecyMemcpy s.chan p.channel sizeofChannel granted }

def copyKey (s : Recy) (p : ConnectParams) (granted : Bool) : Recy :=
  { s with keyBuf := amlRecyMemcpy s.keyBuf p.key p.keyLen granted }

/-- The buffer for the IEs: the one there is unless it is recorded as shorter. -/
def iesBufFor (kmallocMaxSize : Nat) (s : Recy) (p : ConnectParams) (granted : Bool) :
    Option (Block UInt8) :=
  match s.iesBuf with
  | none => kmalloc kmallocMaxSize granted p.iesLen
  | some b => if s.iesLen < p.iesLen then kmalloc kmallocMaxSize granted p.iesLen else some b

/-- The end of a save: the IEs are in the buffer. -/
def saved (s : Recy) (p : ConnectParams) (vifIndex : Nat) (b : Block UInt8) : Recy :=
  { s with
    iesBuf := some b
    iesLen := p.iesLen
    vifIdx := vifIndex
    assocInfoSaved := true
    last := some p }

/-- Save the IEs in their buffer. -/
def saveIes (kmallocMaxSize : Nat) (s : Recy) (p : ConnectParams) (vifIndex : Nat)
    (granted : Bool) :
    Except Fault Recy :=
  match s.iesBufFor kmallocMaxSize p granted with
  | none => .ok { s with iesBuf := none }
  | some b =>
      match b.store 0 p.elements with
      | none => .error .outside
      | some b' => .ok (s.saved p vifIndex b')

/-- `aml_recy_save_assoc_info`. -/
def amlRecySaveAssocInfo (kmallocMaxSize : Nat) (s : Recy) (p : ConnectParams) (vifIndex : Nat)
    (g : Grants) : Except Fault Recy :=
  if !p.given then .ok s
  else if memcpyFails p.channel sizeofChannel g.chan then .ok ((s.copyFields p).copyChan p g.chan)
  else if memcpyFails p.key p.keyLen g.key then
    .ok (((s.copyFields p).copyChan p g.chan).copyKey p g.key)
  else
    (((s.copyFields p).copyChan p g.chan).copyKey p g.key).saveIes kmallocMaxSize p vifIndex g.ies

/-- The request built from the record with the IE buffer given. -/
def buildRequest (s : Recy) (b : Block UInt8) : Option Request := do
  let ssidLen ← b.load 1 1
  let ssid ← b.load 2 (ssidLen.headD 0).toNat
  let ie ← b.load (2 + ssid.length) (sizeSub s.iesLen (2 + ssid.length))
  pure
    { ssid := ssid
      ie := ie
      bssid := s.bssid
      prevBssid := some s.prevBssid
      channel := s.chan
      crypto := s.crypto
      authType := resolveAuth s.crypto s.authType (s.keyBuf.isSome ∧ 0 < s.keyLen)
      mfp := s.mfp
      keyIdx := s.keyIdx
      keyLen := s.keyLen
      key := (s.keyBuf.getD []).take s.keyLen }

/-- `aml_recy_sta_connect`: the request it issues, if it does. -/
def amlRecyStaConnect (s : Recy) (usable : Bool) : Except Fault (Option Request) :=
  if !usable ∨ !s.assocInfoSaved ∨ s.chan = none then .ok none
  else
    match s.iesBuf with
    | none => .ok none
    | some b =>
        match s.buildRequest b with
        | none => .error .outside
        | some request => .ok (some request)

def step (kmallocMaxSize : Nat) (s : Recy) : Event → Except Fault Recy
  | .save p vifIndex g => s.amlRecySaveAssocInfo kmallocMaxSize p vifIndex g
  | .staConnect usable => (s.amlRecyStaConnect usable).map fun _ => s
  | .flagsClr => .ok { s with assocInfoSaved := false }

/-- Every request that can be issued is the one of the last connection saved. -/
def Faithful (s : Recy) : Prop :=
  ∀ usable, ∃ issued, s.amlRecyStaConnect usable = .ok issued ∧
    ∀ request ∈ issued, ∃ p, s.last = some p ∧ request = p.request

/-- A save with these parameters leaves a channel recorded. -/
def Tuned (s : Recy) (p : ConnectParams) : Prop := p.channel.isSome ∨ s.chan.isSome

/-- No connection that could be replayed after the save is held. -/
def Unheld (s : Recy) (p : ConnectParams) : Prop :=
  ¬(s.assocInfoSaved ∧ s.iesBuf.isSome ∧ s.Tuned p)

/-- The parameters have a length that fits an `int` and, where a channel is recorded after the save,
a previous BSSID, a channel and an auth type that is not left to the driver for a shared key. -/
def Complete (s : Recy) (p : ConnectParams) : Prop :=
  p.elements.length < 2 ^ 31 ∧ (s.Tuned p → p.prevBssid.isSome ∧ p.channel.isSome ∧ p.Resolved)

/-- A save that reaches its end is given complete parameters, and the key is not refused to one that
could leave a connection behind. -/
def Whole (kmallocMaxSize : Nat) (s : Recy) : Event → Prop
  | .save p _ g =>
      p.given → memcpyFails p.channel sizeofChannel g.chan = false →
        if memcpyFails p.key p.keyLen g.key then s.Unheld p
        else (s.iesBufFor kmallocMaxSize p g.ies).isSome → s.Complete p
  | _ => True

/-! ## What a save leaves behind -/

/-- The IE buffer is at least as long as recorded, and `kmalloc` has granted it. -/
def Roomy (kmallocMaxSize : Nat) (s : Recy) : Prop :=
  ∀ b, s.iesBuf = some b → s.iesLen ≤ b.length ∧ b.length ≤ kmallocMaxSize

/-- The record after the copies that allocate for themselves. -/
def copied (s : Recy) (p : ConnectParams) (g : Grants) : Recy :=
  ((s.copyFields p).copyChan p g.chan).copyKey p g.key

variable {kmallocMaxSize : Nat} {s : Recy} {p : ConnectParams} {g : Grants} {vifIndex : Nat}
  {b b' : Block UInt8}

theorem kmalloc_size {granted : Bool} {size : Nat}
    (held : kmalloc kmallocMaxSize granted size = some b) :
    b.length = size ∧ size ≤ kmallocMaxSize := by
  rw [kmalloc] at held
  split_ifs at held with may
  cases held
  exact ⟨Block.length_fresh, may.2⟩

/-- The buffer chosen has room for the length computed. -/
theorem Roomy.iesBufFor {granted : Bool} (roomy : s.Roomy kmallocMaxSize)
    (held : s.iesBufFor kmallocMaxSize p granted = some b) :
    p.iesLen ≤ b.length ∧ b.length ≤ kmallocMaxSize := by
  have granted_size : ∀ {b : Block UInt8}, kmalloc kmallocMaxSize granted p.iesLen = some b →
      p.iesLen ≤ b.length ∧ b.length ≤ kmallocMaxSize := by
    intro b held
    obtain ⟨size, small⟩ := kmalloc_size held
    exact ⟨size.ge, size.trans_le small⟩
  rw [Recy.iesBufFor] at held
  split at held
  · exact granted_size held
  · rename_i old there
    split_ifs at held with longer
    · exact granted_size held
    · cases held
      obtain ⟨room, small⟩ := roomy _ there
      exact ⟨(Nat.le_of_not_lt longer).trans room, small⟩

theorem chan_copied (granted : memcpyFails p.channel sizeofChannel g.chan = false) :
    (s.copied p g).chan = if p.channel.isSome then p.channel else s.chan := by
  cases channel : p.channel with
  | none => simp [copied, copyKey, copyChan, copyFields, amlRecyMemcpy, channel]
  | some c =>
      have allowed : g.chan = true := by simpa [memcpyFails, channel, sizeofChannel] using granted
      simp [copied, copyKey, copyChan, copyFields, amlRecyMemcpy, channel, sizeofChannel, allowed]

theorem chan_copied_isSome (granted : memcpyFails p.channel sizeofChannel g.chan = false) :
    (s.copied p g).chan.isSome ↔ s.Tuned p := by
  rw [chan_copied granted, Tuned]
  cases p.channel
  · simp
  · simp

/-- The key recorded is the one given: without one, the length recorded is 0. -/
theorem key_copied (granted : memcpyFails p.key p.keyLen g.key = false) :
    ((s.copied p g).keyBuf.getD []).take p.keyLen = p.key.getD [] := by
  rcases Nat.eq_zero_or_pos p.keyLen with empty | pos
  · rw [empty, List.take_zero]
    exact (List.eq_nil_of_length_eq_zero empty).symm
  · cases key : p.key with
    | none => simp [ConnectParams.keyLen, key] at pos
    | some k =>
        have allowed : g.key = true := by simpa [memcpyFails, key, pos] using granted
        have long : p.keyLen = k.length := by simp [ConnectParams.keyLen, key]
        simp [copied, copyKey, copyChan, amlRecyMemcpy, key, allowed, long, long ▸ pos]

theorem keyed_copied (granted : memcpyFails p.key p.keyLen g.key = false) :
    ((s.copied p g).keyBuf.isSome ∧ 0 < p.keyLen) ↔ 0 < p.keyLen := by
  refine and_iff_right_of_imp fun pos => ?_
  cases key : p.key with
  | none => simp [ConnectParams.keyLen, key] at pos
  | some k =>
      have allowed : g.key = true := by simpa [memcpyFails, key, pos] using granted
      simp [copied, copyKey, copyChan, amlRecyMemcpy, key, allowed, pos]

/-! ## What the record replays -/

/-- The request of the parameters given, with what the record has for the fields it may not take
from them. -/
def replay (s : Recy) (p : ConnectParams) (g : Grants) : Request :=
  { p.request with
    prevBssid := some (p.prevBssid.getD s.prevBssid)
    channel := (s.copied p g).chan
    authType := resolveAuth p.crypto p.authType (0 < p.keyLen) }

theorem saveIes_eq (s : Recy) (p : ConnectParams) (g : Grants) (granted : Bool) :
    (s.copied p g).saveIes kmallocMaxSize p vifIndex granted =
      match s.iesBufFor kmallocMaxSize p granted with
      | none => .ok { s.copied p g with iesBuf := none }
      | some b =>
          match b.store 0 p.elements with
          | none => .error .outside
          | some b' => .ok ((s.copied p g).saved p vifIndex b') := rfl

theorem load_elements (stored : b.store 0 p.elements = some b') {off n : Nat}
    (inside : off + n ≤ p.elements.length) :
    b'.load off n = some ((p.elements.drop off).take n) := by
  have loaded := Block.load_store stored inside
  rwa [Nat.zero_add] at loaded

/-- The record of a save that reaches its end gives the request of what was saved. -/
theorem buildRequest_saved (granted : memcpyFails p.key p.keyLen g.key = false)
    (short : p.elements.length < 2 ^ 31) (stored : b.store 0 p.elements = some b') :
    ((s.copied p g).saved p vifIndex b').buildRequest b' = some (s.replay p g) := by
  have length := p.length_elements
  have bound := p.length_shortSsid
  have ssidLen : b'.load 1 1 = some [UInt8.ofNat p.shortSsid.length] :=
    load_elements stored (by omega)
  have ssid : b'.load 2 p.shortSsid.length = some p.shortSsid := by
    rw [load_elements stored (by omega)]
    exact congrArg some (List.take_left' rfl)
  have ie : b'.load (2 + p.shortSsid.length) (p.ie.getD []).length = some (p.ie.getD []) := by
    rw [load_elements stored (by omega), ← List.drop_drop]
    exact congrArg some ((congrArg (List.take _) (List.drop_left' rfl)).trans List.take_length)
  have byte : (UInt8.ofNat p.shortSsid.length).toNat = p.shortSsid.length := by
    rw [UInt8.toNat_ofNat']
    exact Nat.mod_eq_of_lt (bound.trans_lt (by decide))
  have rest : sizeSub p.iesLen (2 + p.shortSsid.length) = (p.ie.getD []).length := by
    rw [ConnectParams.iesLen_eq short, sizeSub, if_pos (by omega)]
    omega
  have keyed : decide ((s.copied p g).keyBuf.isSome ∧ 0 < p.keyLen) = decide (0 < p.keyLen) :=
    decide_eq_decide.mpr (keyed_copied granted)
  have stored_len : ((s.copied p g).saved p vifIndex b').iesLen = p.iesLen := rfl
  simp only [buildRequest, ssidLen, Option.bind_eq_bind, Option.bind_some, List.headD_cons, byte,
    ssid, stored_len, rest, ie]
  exact congrArg some <| congrArg₂
    (fun authType key => { s.replay p g with authType := authType, key := key })
    (congrArg (resolveAuth p.crypto p.authType) keyed) (key_copied granted)

theorem replay_eq_request (granted : memcpyFails p.channel sizeofChannel g.chan = false)
    (given : p.prevBssid.isSome ∧ p.channel.isSome ∧ p.Resolved) : s.replay p g = p.request := by
  obtain ⟨prev, channel, resolved⟩ := given
  obtain ⟨prevBssid, prev⟩ := Option.isSome_iff_exists.mp prev
  rw [replay, chan_copied granted, if_pos channel, resolved, prev]
  rw [ConnectParams.request, prev]
  rfl

theorem eq_request_of_replay (granted : memcpyFails p.channel sizeofChannel g.chan = false)
    (tuned : s.Tuned p) (same : s.replay p g = p.request) :
    p.prevBssid.isSome ∧ p.channel.isSome ∧ p.Resolved := by
  have prev : some (p.prevBssid.getD s.prevBssid) = p.prevBssid := congrArg Request.prevBssid same
  have channel : (s.copied p g).chan = p.channel := congrArg Request.channel same
  refine ⟨?_, ?_, congrArg Request.authType same⟩
  · rw [← prev]
    rfl
  · rw [← channel]
    exact (chan_copied_isSome granted).mpr tuned

theorem amlRecyStaConnect_idle (idle : ¬(s.assocInfoSaved ∧ s.iesBuf.isSome ∧ s.chan.isSome))
    (usable : Bool) : s.amlRecyStaConnect usable = .ok none := by
  rw [amlRecyStaConnect]
  split_ifs with skips
  · rfl
  · cases buffer : s.iesBuf with
    | none => rfl
    | some b =>
        refine absurd ⟨?_, ?_, ?_⟩ idle
        · simp_all
        · rw [buffer]
          rfl
        · exact Option.isSome_iff_ne_none.mpr fun chan => skips (.inr (.inr chan))

theorem amlRecyStaConnect_held (buffer : s.iesBuf = some b) (saved : s.assocInfoSaved = true)
    (chan : s.chan.isSome) :
    s.amlRecyStaConnect true =
      match s.buildRequest b with
      | none => .error .outside
      | some request => .ok (some request) := by
  have goes : ¬((!true) = true ∨ (!s.assocInfoSaved) = true ∨ s.chan = none) := by
    simp [saved, Option.isSome_iff_ne_none.mp chan]
  rw [amlRecyStaConnect, if_neg goes, buffer]

theorem faithful_of_idle (idle : ¬(s.assocInfoSaved ∧ s.iesBuf.isSome ∧ s.chan.isSome)) :
    s.Faithful := fun usable =>
  ⟨none, amlRecyStaConnect_idle idle usable, fun _ member => absurd member (Option.not_mem_none _)⟩

/-! ## Runs -/

theorem save_ungiven (ungiven : p.given = false) :
    s.amlRecySaveAssocInfo kmallocMaxSize p vifIndex g = .ok s := by
  rw [amlRecySaveAssocInfo, ungiven]
  rfl

theorem save_chanFails (given : p.given = true)
    (chan : memcpyFails p.channel sizeofChannel g.chan = true) :
    s.amlRecySaveAssocInfo kmallocMaxSize p vifIndex g =
      .ok ((s.copyFields p).copyChan p g.chan) := by
  rw [amlRecySaveAssocInfo, if_neg (by simp [given]), if_pos chan]

theorem save_keyFails (given : p.given = true)
    (chan : memcpyFails p.channel sizeofChannel g.chan = false)
    (key : memcpyFails p.key p.keyLen g.key = true) :
    s.amlRecySaveAssocInfo kmallocMaxSize p vifIndex g = .ok (s.copied p g) := by
  rw [amlRecySaveAssocInfo, if_neg (by simp [given]), if_neg (by simp [chan]), if_pos key]
  rfl

theorem save_copied (given : p.given = true)
    (chan : memcpyFails p.channel sizeofChannel g.chan = false)
    (key : memcpyFails p.key p.keyLen g.key = false) :
    s.amlRecySaveAssocInfo kmallocMaxSize p vifIndex g =
      (s.copied p g).saveIes kmallocMaxSize p vifIndex g.ies := by
  rw [amlRecySaveAssocInfo, if_neg (by simp [given]), if_neg (by simp [chan]),
    if_neg (by simp [key])]
  rfl

/-- A failed allocation of the channel leaves none. -/
theorem chan_of_fails (fails : memcpyFails p.channel sizeofChannel g.chan = true) :
    ((s.copyFields p).copyChan p g.chan).chan = none := by
  rw [memcpyFails, Bool.and_eq_true, Bool.and_eq_true, Bool.not_eq_true',
    decide_eq_true_eq] at fails
  obtain ⟨⟨there, pos⟩, refused⟩ := fails
  rw [copyChan, amlRecyMemcpy, if_pos ⟨there, pos⟩, refused]
  rfl

/-- A failed allocation of the key leaves none. -/
theorem keyBuf_of_fails (fails : memcpyFails p.key p.keyLen g.key = true) :
    (s.copied p g).keyBuf = none ∧ 0 < p.keyLen := by
  rw [memcpyFails, Bool.and_eq_true, Bool.and_eq_true, Bool.not_eq_true',
    decide_eq_true_eq] at fails
  obtain ⟨⟨there, pos⟩, refused⟩ := fails
  rw [copied, copyKey, amlRecyMemcpy, if_pos ⟨there, pos⟩, refused]
  exact ⟨rfl, pos⟩

/-- The key of a request is what the record has of it. -/
theorem fields_of_buildRequest {request : Request} (built : s.buildRequest b = some request) :
    request.keyLen = s.keyLen ∧ request.key = (s.keyBuf.getD []).take s.keyLen := by
  rw [buildRequest, Option.bind_eq_bind, Option.bind_eq_some_iff] at built
  obtain ⟨ssidLen, -, built⟩ := built
  obtain ⟨ssid, -, built⟩ := Option.bind_eq_some_iff.mp built
  obtain ⟨ie, -, built⟩ := Option.bind_eq_some_iff.mp built
  cases built
  exact ⟨rfl, rfl⟩

/-- The state a run keeps: the buffer has room, and the record gives the last connection saved. -/
structure Sound (kmallocMaxSize : Nat) (s : Recy) : Prop where
  roomy : s.Roomy kmallocMaxSize
  faithful : s.Faithful

theorem faithful_saved (chan : memcpyFails p.channel sizeofChannel g.chan = false)
    (key : memcpyFails p.key p.keyLen g.key = false) (short : p.elements.length < 2 ^ 31)
    (stored : b.store 0 p.elements = some b') :
    ((s.copied p g).saved p vifIndex b').Faithful ↔
      (s.Tuned p → p.prevBssid.isSome ∧ p.channel.isSome ∧ p.Resolved) := by
  have held : (s.copied p g).chan.isSome → ((s.copied p g).saved p vifIndex b').amlRecyStaConnect
      true = .ok (some (s.replay p g)) := fun tuned => by
    have there := amlRecyStaConnect_held (s := (s.copied p g).saved p vifIndex b') rfl rfl tuned
    rw [there, buildRequest_saved key short stored]
  constructor
  · intro faithful tuned
    obtain ⟨issued, ran, all⟩ := faithful true
    rw [held ((chan_copied_isSome chan).mpr tuned)] at ran
    cases ran
    obtain ⟨p', last, same⟩ := all _ rfl
    cases last
    exact eq_request_of_replay chan tuned same
  · intro given
    by_cases tuned : s.Tuned p
    · intro usable
      cases usable with
      | false => exact ⟨none, rfl, fun _ member => absurd member (Option.not_mem_none _)⟩
      | true =>
          refine ⟨_, held ((chan_copied_isSome chan).mpr tuned), fun request member => ?_⟩
          cases member
          exact ⟨p, rfl, replay_eq_request chan (given tuned)⟩
    · refine faithful_of_idle fun ⟨_, _, there⟩ => tuned ?_
      exact (chan_copied_isSome chan).mp there

theorem Sound.step (sound : s.Sound kmallocMaxSize) {event : Event}
    (whole : s.Whole kmallocMaxSize event) :
    ∃ next, s.step kmallocMaxSize event = .ok next ∧ next.Sound kmallocMaxSize := by
  cases event with
  | save p vifIndex g =>
      rw [Recy.step]
      cases given : p.given with
      | false => exact ⟨s, save_ungiven given, sound⟩
      | true =>
      cases chan : memcpyFails p.channel sizeofChannel g.chan with
      | true =>
          refine ⟨_, save_chanFails given chan, sound.roomy, faithful_of_idle ?_⟩
          rw [chan_of_fails chan]
          exact fun ⟨_, _, there⟩ => Bool.false_ne_true there
      | false =>
      have needs := whole given chan
      cases key : memcpyFails p.key p.keyLen g.key with
      | true =>
          rw [if_pos key] at needs
          refine ⟨_, save_keyFails given chan key, sound.roomy, faithful_of_idle ?_⟩
          rw [chan_copied_isSome chan]
          exact needs
      | false =>
      rw [if_neg (by rw [key]; exact Bool.false_ne_true)] at needs
      rw [save_copied given chan key, saveIes_eq]
      cases buffer : s.iesBufFor kmallocMaxSize p g.ies with
      | none =>
          refine ⟨_, rfl, fun b there => (Option.some_ne_none b there.symm).elim, ?_⟩
          exact faithful_of_idle fun ⟨_, there, _⟩ => Bool.false_ne_true there
      | some b =>
          obtain ⟨short, given⟩ := needs (by rw [buffer]; rfl)
          obtain ⟨room, small⟩ := sound.roomy.iesBufFor buffer
          rw [ConnectParams.iesLen_eq short, ← Nat.zero_add p.elements.length] at room
          obtain ⟨b', stored⟩ := Block.store_of_le room
          dsimp only
          rw [stored]
          refine ⟨_, rfl, ?_, (faithful_saved chan key short stored).mpr given⟩
          intro b'' there
          cases there
          rw [Block.length_store stored]
          rw [Nat.zero_add] at room
          exact ⟨(ConnectParams.iesLen_eq short).trans_le room, small⟩
  | staConnect usable =>
      obtain ⟨issued, ran, -⟩ := sound.faithful usable
      exact ⟨s, by rw [Recy.step, ran]; rfl, sound⟩
  | flagsClr =>
      refine ⟨_, rfl, sound.roomy, faithful_of_idle ?_⟩
      exact fun ⟨saved, _⟩ => Bool.false_ne_true saved

/-- After a save outside the condition a wrong request can be issued, if the save stays in the
buffer. -/
theorem Sound.unfaithful (sound : s.Sound kmallocMaxSize) (limit : kmallocMaxSize < 2 ^ 31)
    {event : Event} {next : Recy} (part : ¬s.Whole kmallocMaxSize event)
    (stepped : s.step kmallocMaxSize event = .ok next) : ¬next.Faithful := by
  intro faithful
  refine part ?_
  cases event with
  | staConnect usable => trivial
  | flagsClr => trivial
  | save p vifIndex g =>
      intro given chan
      rw [Recy.step] at stepped
      split_ifs with key
      · rintro ⟨saved, buffer, tuned⟩
        rw [save_keyFails given chan key] at stepped
        cases stepped
        obtain ⟨b, buffer⟩ := Option.isSome_iff_exists.mp buffer
        obtain ⟨issued, ran, all⟩ := faithful true
        have held := amlRecyStaConnect_held (s := s.copied p g) buffer saved
          ((chan_copied_isSome chan).mpr tuned)
        cases built : (s.copied p g).buildRequest b with
        | none =>
            rw [held, built] at ran
            cases ran
        | some request =>
            rw [held, built] at ran
            cases ran
            obtain ⟨p', -, same⟩ := all request rfl
            obtain ⟨noKey, long⟩ := keyBuf_of_fails (s := s) key
            obtain ⟨keyLen, none⟩ := fields_of_buildRequest built
            rw [noKey] at none
            -- The length of the new key and an empty key are not of one connection.
            have lengths : request.keyLen = request.key.length := by
              rw [same]
              rfl
            rw [keyLen, none, Option.getD_none, List.take_nil] at lengths
            exact long.ne' lengths
      · intro held
        obtain ⟨b, buffer⟩ := Option.isSome_iff_exists.mp held
        rw [Bool.not_eq_true] at key
        rw [save_copied given chan key, saveIes_eq, buffer] at stepped
        dsimp only at stepped
        cases stored : b.store 0 p.elements with
        | none =>
            rw [stored] at stepped
            cases stepped
        | some b' =>
            rw [stored] at stepped
            cases stepped
            have short : p.elements.length < 2 ^ 31 := by
              have fits := Block.le_of_store stored
              have small := (sound.roomy.iesBufFor buffer).2
              omega
            exact ⟨short, (faithful_saved chan key short stored).mp faithful⟩

theorem sound_init : ({} : Recy).Sound kmallocMaxSize where
  roomy := fun _ there => (Option.some_ne_none _ there.symm).elim
  faithful := faithful_of_idle fun ⟨saved, _⟩ => Bool.false_ne_true saved

/-- Every request of a recovery is that of the last connection saved, and the IE buffer is accessed
inside its size, exactly in the runs whose saves are whole. -/
theorem faithful_iff_whole (kmallocMaxSize : Nat) (limit : kmallocMaxSize < 2 ^ 31)
    (events : List Event) :
    Run.Safe (Recy.step kmallocMaxSize) Faithful events {} ↔
      Run.Guarded (Recy.step kmallocMaxSize) (Whole kmallocMaxSize) events {} :=
  Run.safe_iff_guarded (fun _ _ sound whole => sound.step whole) (fun _ sound => sound.faithful)
    (fun _ _ _ sound part stepped => sound.unfaithful limit part stepped) sound_init

instance : Decidable (s.Tuned p) := inferInstanceAs (Decidable (_ ∨ _))

instance : Decidable (s.Unheld p) := inferInstanceAs (Decidable ¬_)

instance : Decidable (s.Complete p) := inferInstanceAs (Decidable (_ ∧ (_ → _)))

instance : (event : Event) → Decidable (s.Whole kmallocMaxSize event)
  | .save p _ g => inferInstanceAs (Decidable (p.given →
      memcpyFails p.channel sizeofChannel g.chan = false →
        if memcpyFails p.key p.keyLen g.key then s.Unheld p
        else (s.iesBufFor kmallocMaxSize p g.ies).isSome → s.Complete p))
  | .staConnect _ => .isTrue trivial
  | .flagsClr => .isTrue trivial

/-- A connection to an access point with WPA2, the station being associated before or not. -/
def office (prevBssid : Option Mac) : ConnectParams where
  channel := some ⟨0, 2412, 0⟩
  bssid := some 0x02AABBCCDDEE
  prevBssid := prevBssid
  ssid := some [111, 102, 102]
  ie := some [48, 0]
  authType := .openSystem
  mfp := .no
  crypto := ⟨2, 1, []⟩
  keyIdx := 0
  key := none

/-- A run in which the channel of a second connection cannot be allocated, and then the third is
saved. -/
theorem faithful_iff_whole_refused :
    Run.Safe (Recy.step 4194304) Faithful
      [.save (office (some 1)) 0 ⟨true, true, true⟩, .staConnect true,
        .save (office (some 2)) 0 ⟨false, true, true⟩, .staConnect true,
        .save (office (some 3)) 0 ⟨true, true, true⟩, .staConnect true] {} :=
  (faithful_iff_whole 4194304 (by decide) _).mpr
    (Run.guarded_of_check (fun _ _ => of_decide_eq_true) (by decide +kernel))

/-- The first connection of a station has no previous BSSID, but the request that recovers it does:
six zero bytes. -/
theorem first_unfaithful :
    ¬Run.Safe (Recy.step 4194304) Faithful [.save (office none) 0 ⟨true, true, true⟩] {} := by
  intro safe
  obtain ⟨next, ran, faithful⟩ := safe _ [] (List.append_nil _).symm
  obtain ⟨issued, connected, all⟩ := faithful true
  obtain ⟨next', ran', read⟩ := Run.ends_of_toOption
    (f := fun s : Recy => ((s.amlRecyStaConnect true).toOption.map (Option.map Request.prevBssid),
      s.last.map ConnectParams.prevBssid))
    (b := (some (some (some 0)), some none))
    (x := Run.run (Recy.step 4194304) [.save (office none) 0 ⟨true, true, true⟩] {})
    (by decide +kernel)
  rw [ran] at ran'
  cases ran'
  obtain ⟨request, previous⟩ := Prod.mk.inj read
  rw [connected] at request
  obtain ⟨q, here, zero⟩ := Option.map_eq_some_iff.mp (Option.some.inj request)
  obtain ⟨p, last, same⟩ := all q here
  rw [last] at previous
  rw [same] at zero
  exact absurd (zero.symm.trans (Option.some.inj previous)) (Option.some_ne_none 0)

end Recy

end AmlW2.Recovery
