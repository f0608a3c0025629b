import AmlW2.Lib.Elements

/-!
# The saved beacon

The beacon of the access point is saved when it is built, and the code that follows the channel of
the station changes a copy of it.  A beacon is the part of `struct ieee80211_mgmt` up to the
variable elements, and the elements.
-/

namespace AmlW2.Scc

/-- `offsetof(struct ieee80211_mgmt, u.beacon.variable)`, and that of `u.probe_resp.variable`. -/
abbrev varOffset : Nat := 36

/-- `AML_SCC_FRMBUF_MAXLEN`. -/
abbrev sccFrmbufMaxlen : Nat := 1000

/-- `WLAN_EID_SSID`. -/
def wlanEidSsid : UInt8 := 0

/-- `WLAN_EID_DS_PARAMS`. -/
def wlanEidDsParams : UInt8 := 3

/-- `WLAN_EID_TIM`. -/
def wlanEidTim : UInt8 := 5

/-- `WLAN_EID_HT_OPERATION`. -/
def wlanEidHtOperation : UInt8 := 61

/-- `WLAN_EID_VHT_OPERATION`. -/
def wlanEidVhtOperation : UInt8 := 192

/-- `WLAN_EID_VENDOR_SPECIFIC`. -/
def wlanEidVendorSpecific : UInt8 := 221

/-- `WLAN_EID_EXTENSION`. -/
def wlanEidExtension : UInt8 := 255

/-- `aml_get_beacon_ie_addr`, and `aml_get_probe_rsp_ie_addr`, which is the same; positions are
counted from the elements. -/
def getIeAddr (buf : List UInt8) (frameLen : Nat) (eid : UInt8) : Element.Search :=
  Element.search eid ((buf.drop varOffset).take (frameLen - varOffset))

/-- A management frame with well-formed elements. -/
structure Frame where
  fixed : List UInt8
  ies : List Element
  fixed_length : fixed.length = varOffset

def Frame.bytes (f : Frame) : List UInt8 := f.fixed ++ Element.wire f.ies

theorem Frame.length_bytes (f : Frame) :
    f.bytes.length = varOffset + (Element.wire f.ies).length := by
  rw [bytes, List.length_append, f.fixed_length]

/-- A beacon that fits the buffer `bcn_save`. -/
structure Beacon extends Frame where
  bytes_length : toFrame.bytes.length ≤ sccFrmbufMaxlen

end AmlW2.Scc
