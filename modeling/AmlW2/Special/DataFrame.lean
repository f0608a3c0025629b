import AmlW2.Special.DnsName
import Mathlib.Algebra.Ring.Int.Defs

/-!
# Special data frames

`aml_filter_sp_data_frame` of `aml_tx.c` tells which frames need care on their way.  It finds the
headers of a frame, and for names to resolve and addresses to lease it hands what is behind them to
a parser, with a length.
-/

namespace AmlW2.Special

/-- `AML_SP_STATUS_E` -/
inductive SpStatus where
  | txStart
  | rx
  | txSuc
  | txFail
  deriving DecidableEq, Repr

/-- `enum aml_pkt_type`, as far as the filter sets its bits; `pkt_types` is a list of them. -/
inductive PktType where
  | ieee80211
  | eapol
  | arp
  | arpReq
  | arpReply
  | ip
  | ipv6
  | icmp
  | tcp
  | udp
  | dhcp
  | dhcpV6
  deriving DecidableEq, Repr

/-- What the filter reads of the interface. -/
structure Vif where
  vifIndex : Nat
  wfdPresent : Bool
  deriving DecidableEq, Repr

/-- `vif_dummy` -/
def vifDummy : Vif := ⟨0x1f, false⟩

/-- `ntohs` of the field at `p`. -/
def ntohs (frame : Memory) (p : Nat) : Nat := 256 * (frame p).toNat + (frame (p + 1)).toNat

/-- `iphdr->ihl << 2`, for the header at `p`. -/
def ipHdrLen (frame : Memory) (p : Nat) : Nat := (frame p).toNat % 16 * 4

/-- `rtsp_str` -/
def rtspStr : List UInt8 := [0x52, 0x54, 0x53, 0x50, 0x2f, 0x31, 0x2e, 0x30]

/-- `aml_filter_rtsp_frame`, with `AML_P2P_VIF_IDX` 1, `MAX_RTSP_LEN` 300 and `CHECK_LEN` 40. -/
def amlFilterRtspFrame (vif : Vif) (len : Nat) (data : Memory) (spStatus : SpStatus) : Bool :=
  if spStatus ≠ .txStart ∨ vif.vifIndex ≠ 1 ∨ 300 < len ∨ vif.wfdPresent = false then false
  else if (data 14).toNat / 16 ≠ 4 ∨ (data 23).toNat ≠ 6 then false
  else
    let tcphdr := 14 + ipHdrLen data 14
    let tcpHdrLen := (data (tcphdr + 12)).toNat / 16 * 4
    let payloadLen : Int := ntohs data 16 - ipHdrLen data 14 - tcpHdrLen
    if payloadLen < rtspStr.length then false
    else
      (List.range (min (payloadLen.toNat - rtspStr.length) 40 + 1)).any fun i =>
        (List.range rtspStr.length).map (fun j => data (tcphdr + tcpHdrLen + i + j)) == rtspStr

/-! ## The parsers of what is behind the headers -/

/-- A parser's turn: where its bytes start in the frame, the length it is given, the positions of
the frame it reads, and for a scan of options where that ends. -/
structure SubCall where
  pos : Nat
  given : Int
  reads : List Nat
  scanEnd : Option Int := none
  deriving DecidableEq, Repr

/-- The turn of `aml_filter_sp_dns`, given its length as a `uint32_t`; the name is looked for behind
`struct mdns_pattern`.  The parser ends with this fuel on every input. -/
def dnsCall (frame : Memory) (pos : Nat) (given : Int) : SubCall where
  pos := pos
  given := given
  reads :=
    match amlFilterSpDns (fun i => frame (pos + i)) (given % 2 ^ 32).toNat 12 (fun _ => 0)
        nameFuel with
    | some result => result.reads.map (pos + ·)
    | none => []

/-- `sizeof(struct dhcp_packet)`, where `options` starts. -/
def dhcpPacketSize : Nat := 240

/-- The loop of `get_dhcp_option`, a round for each byte left at most: the option found, with its
length, and what was read. -/
def scanOptions (packet : Memory) (optionCode : UInt8) (stop : Int) :
    Nat → Nat → Option (Nat × Nat) × List Nat
  | 0, _ => (none, [])
  | rounds + 1, options =>
      if (options : Int) < stop then
        if packet options = 0xff then (none, [options])
        else if packet options = 0 then
          let rest := scanOptions packet optionCode stop rounds (options + 1)
          (rest.1, options :: rest.2)
        else
          let optLen := (packet (options + 1)).toNat
          if packet options = optionCode then
            (some (options + 2, optLen), [options, options + 1])
          else
            let rest := scanOptions packet optionCode stop rounds (options + 2 + optLen)
            (rest.1, options :: (options + 1) :: rest.2)
      else (none, [])

/-- Where `get_dhcp_option` ends: `sizeof(packet->options)` is zero. -/
def dhcpOptionEnd (len : Int) : Int := dhcpPacketSize + (len - 0)

/-- `get_dhcp_option` -/
def getDhcpOption (packet : Memory) (len : Int) (optionCode : UInt8) :
    Option (Nat × Nat) × List Nat :=
  scanOptions packet optionCode (dhcpOptionEnd len) (dhcpOptionEnd len).toNat dhcpPacketSize

/-- The turn of `aml_filter_sp_data_dhcp_frame`, which compares its length as a `size_t`: of an IPv4
lease it reads the transaction, the opcode, the message type and the address. -/
def dhcpCall (frame : Memory) (pos : Nat) (given : Int) (ipv4 : Bool) : SubCall :=
  if (given % 2 ^ 64).toNat < dhcpPacketSize then { pos, given, reads := [] }
  else if ipv4 then
    let option := getDhcpOption (fun i => frame (pos + i)) given 0x35
    let messageType :=
      match option.1 with
      | some (at_option, 1) => at_option :: List.range' 16 4
      | _ => []
    { pos, given
      reads := (List.range' 4 4 ++ 0 :: option.2 ++ messageType).map (pos + ·)
      scanEnd := some (pos + dhcpOptionEnd given) }
  else { pos, given, reads := [] }

/-! ## The filter -/

/-- What the filter returns, and the parsers it called. -/
structure Filtered where
  pktTypes : List PktType
  calls : List SubCall := []
  deriving DecidableEq, Repr

/-- The types told by the ports that lease addresses. -/
def dhcpTypes (version : PktType) (sport : Nat) : List PktType :=
  if version = .ip ∧ (sport = 0x43 ∨ sport = 0x44) then [.dhcp]
  else if version = .ipv6 ∧ (sport = 0x223 ∨ sport = 0x222) then [.dhcpV6]
  else []

/-- The filter behind the Ethernet header: the protocol of a network header of `version`, the
transport header at `nethdr`, and the offset counted for the network header. -/
def filterProtocol (frame : Memory) (len : Nat) (version : PktType) (netProt nethdr offset : Nat) :
    Filtered :=
  if netProt = 1 then { pktTypes := [version, .icmp] }
  else if netProt = 6 then { pktTypes := [version, .tcp] }
  else if netProt = 17 then
    let sport := ntohs frame nethdr
    let dport := ntohs frame (nethdr + 2)
    let offset := offset + 8
    let leases := dhcpTypes version sport
    let dns :=
      if sport = 53 ∨ dport = 53 then [dnsCall frame (nethdr + 8) ((len : Int) - offset)] else []
    let dhcp :=
      if leases = [] then []
      else [dhcpCall frame (nethdr + 8) ((len : Int) - offset) (decide (version = .ip))]
    { pktTypes := version :: .udp :: leases, calls := dns ++ dhcp }
  else { pktTypes := [version] }

/-- `aml_filter_sp_data_frame`, for a frame that there is. -/
def amlFilterSpDataFrame (frame : Memory) (len : Nat) (amlVif : Option Vif) (spStatus : SpStatus) :
    Filtered :=
  let hProto := ntohs frame 12
  if hProto = 0x888e then { pktTypes := [.eapol] }
  else if hProto = 0x0806 then
    let op := ntohs frame 20
    if op = 1 then { pktTypes := [.arp, .arpReq] }
    else if op = 2 then { pktTypes := [.arp, .arpReply] }
    else { pktTypes := [.arp] }
  else if amlFilterRtspFrame (amlVif.getD vifDummy) len frame spStatus then
    -- the caller is given `true` for a set of types
    { pktTypes := [.ieee80211] }
  else if hProto = 0x86dd then filterProtocol frame len .ipv6 (frame 20).toNat 54 40
  else if hProto = 0x0800 then
    filterProtocol frame len .ip (frame 23).toNat (14 + ipHdrLen frame 14) 20
  else { pktTypes := [] }

/-! ## What the parsers are given -/

/-- The parser has what is left of the frame behind the headers, reads nothing else, and ends its
scan where its bytes end. -/
structure SubCall.Fits (call : SubCall) (len : Nat) : Prop where
  given : call.given = (len : Int) - call.pos
  reads : ∀ pos ∈ call.reads, pos < len
  scan : ∀ stop, call.scanEnd = some stop → stop = call.pos + call.given

/-- Every parser called stays in the frame. -/
def Filtered.Fits (filtered : Filtered) (len : Nat) : Prop :=
  ∀ call ∈ filtered.calls, call.Fits len

/-- The transport header at `nethdr` has a port of names, or of leases for its version. -/
def Parsed (frame : Memory) (version : PktType) (nethdr : Nat) : Prop :=
  ntohs frame nethdr = 53 ∨ ntohs frame (nethdr + 2) = 53 ∨
    dhcpTypes version (ntohs frame nethdr) ≠ []

/-- The frame is for a parser: a datagram over IP with such a port that is not taken for a session
of a display. -/
def ForParser (frame : Memory) (len : Nat) (amlVif : Option Vif) (spStatus : SpStatus) : Prop :=
  amlFilterRtspFrame (amlVif.getD vifDummy) len frame spStatus = false ∧
    (ntohs frame 12 = 0x86dd ∧ (frame 20).toNat = 17 ∧ Parsed frame .ipv6 54 ∨
      ntohs frame 12 = 0x0800 ∧ (frame 23).toNat = 17 ∧
        Parsed frame .ip (14 + ipHdrLen frame 14))

theorem dhcpCall_given (frame : Memory) (pos : Nat) (given : Int) (ipv4 : Bool) :
    (dhcpCall frame pos given ipv4).pos = pos ∧ (dhcpCall frame pos given ipv4).given = given := by
  unfold dhcpCall
  split_ifs <;> exact ⟨rfl, rfl⟩

/-- Every parser is called with the bytes behind the transport header, and the length left by an
offset that counts neither the Ethernet header nor options of the network header. -/
theorem filterProtocol_given {frame : Memory} {len : Nat} {version : PktType}
    {netProt nethdr offset : Nat} :
    ∀ call ∈ (filterProtocol frame len version netProt nethdr offset).calls,
      call.pos = nethdr + 8 ∧ call.given = (len : Int) - (offset + 8 : Nat) := by
  intro call member
  unfold filterProtocol at member
  split_ifs at member with icmp tcp udp
  · cases member
  · cases member
  · rcases List.mem_append.mp member with dns | dhcp
    · split_ifs at dns
      · rw [List.mem_singleton.mp dns]
        exact ⟨rfl, rfl⟩
      · cases dns
    · split_ifs at dhcp
      · cases dhcp
      · rw [List.mem_singleton.mp dhcp]
        exact dhcpCall_given _ _ _ _
  · cases member

/-- Some parser is called for a datagram with one of the ports. -/
theorem filterProtocol_calls (frame : Memory) (len : Nat) (version : PktType)
    (netProt nethdr offset : Nat) :
    (filterProtocol frame len version netProt nethdr offset).calls = [] ↔
      ¬(netProt = 17 ∧ Parsed frame version nethdr) := by
  unfold filterProtocol Parsed
  split_ifs with icmp tcp udp
  · simp [icmp]
  · simp [tcp]
  · simp only [udp, true_and, List.append_eq_nil_iff]
    split_ifs <;> simp_all
  · simp [udp]

/-- A transport header that is not where the offset says leaves no parser its due. -/
theorem filterProtocol_fits_iff {frame : Memory} {len : Nat} {version : PktType}
    {netProt nethdr offset : Nat} (elsewhere : nethdr ≠ offset) :
    (filterProtocol frame len version netProt nethdr offset).Fits len ↔
      ¬(netProt = 17 ∧ Parsed frame version nethdr) := by
  rw [← filterProtocol_calls frame len version netProt nethdr offset]
  constructor
  · intro fits
    apply List.eq_nil_iff_forall_not_mem.mpr
    intro call member
    have due := (fits call member).given
    obtain ⟨pos, given⟩ := filterProtocol_given call member
    rw [pos, given] at due
    omega
  · intro no_call call member
    rw [no_call] at member
    cases member

theorem Filtered.fits_of_no_call {filtered : Filtered} {len : Nat} (no_call : filtered.calls = []) :
    filtered.Fits len := by
  intro call member
  rw [no_call] at member
  cases member

/-- The parsers stay in the frame exactly when none is called. -/
theorem amlFilterSpDataFrame_fits_iff (frame : Memory) (len : Nat) (amlVif : Option Vif)
    (spStatus : SpStatus) :
    (amlFilterSpDataFrame frame len amlVif spStatus).Fits len ↔
      ¬ForParser frame len amlVif spStatus := by
  simp only [amlFilterSpDataFrame, ForParser]
  split_ifs with eapol arp request reply rtsp ipv6 ip
  · exact iff_of_true (Filtered.fits_of_no_call rfl) (by simp [eapol])
  · exact iff_of_true (Filtered.fits_of_no_call rfl) (by simp [arp])
  · exact iff_of_true (Filtered.fits_of_no_call rfl) (by simp [arp])
  · exact iff_of_true (Filtered.fits_of_no_call rfl) (by simp [arp])
  · exact iff_of_true (Filtered.fits_of_no_call rfl) (by simp [rtsp])
  · rw [filterProtocol_fits_iff (by decide)]
    simp [rtsp, ipv6]
  · rw [filterProtocol_fits_iff (by unfold ipHdrLen; omega)]
    simp [rtsp, ip]
  · exact iff_of_true (Filtered.fits_of_no_call rfl) (by simp [ipv6, ip])

/-- A question for a name cut off in its first label, in 56 bytes. -/
def cutQuestion : Memory := fun i =>
  if i = 12 then 0x08
  else if i = 14 then 0x45
  else if i = 23 then 17
  else if i = 37 then 53
  else if i = 54 then 5
  else if 54 < i then 0x61
  else 0

/-- The parser of names is given 28 bytes of which there are 14, and reads on behind the frame. -/
theorem cutQuestion_call :
    (amlFilterSpDataFrame cutQuestion 56 none .txStart).calls.map
      (fun call => (call.pos, call.given, call.reads.take 7)) =
      [(42, 28, [54, 54, 55, 56, 57, 58, 59])] := by
  decide +kernel

theorem cutQuestion_not_fits :
    ¬(amlFilterSpDataFrame cutQuestion 56 none .txStart).Fits 56 ∧
      ∃ call ∈ (amlFilterSpDataFrame cutQuestion 56 none .txStart).calls,
        call.given ≠ (56 : Nat) - (call.pos : Int) ∧ ∃ pos ∈ call.reads, 56 ≤ pos := by
  obtain ⟨call, calls, shape⟩ : ∃ call,
      (amlFilterSpDataFrame cutQuestion 56 none .txStart).calls = [call] ∧
        (call.pos, call.given, call.reads.take 7) = (42, 28, [54, 54, 55, 56, 57, 58, 59]) := by
    have found := cutQuestion_call
    obtain ⟨call, calls⟩ := List.length_eq_one_iff.mp (by
      simpa using congrArg List.length found)
    rw [calls] at found
    exact ⟨call, calls, List.singleton_inj.mp found⟩
  simp only [Prod.mk.injEq] at shape
  obtain ⟨pos, given, reads⟩ := shape
  have behind : 56 ∈ call.reads := List.mem_of_mem_take (reads ▸ by simp : 56 ∈ call.reads.take 7)
  have member : call ∈ (amlFilterSpDataFrame cutQuestion 56 none .txStart).calls := by simp [calls]
  refine ⟨fun fits => ?_, call, member, ?_, 56, behind, Nat.le_refl 56⟩
  · exact absurd ((fits call member).reads 56 behind) (Nat.lt_irrefl 56)
  · rw [given, pos]
    decide

end AmlW2.Special
