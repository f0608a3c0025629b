import AmlW2.Lib.Memory

/-!
# P2P action frames

The driver rewrites the channels that a P2P action frame offers when a station interface is
connected, so that the P2P group comes up on the channel in use.  Frames are memories, with the
length they were submitted with.
-/

namespace AmlW2.Tx

/-- `enum nl80211_band` -/
inductive Band where
  | ghz2
  | ghz5
  | ghz60
  | ghz6
  deriving DecidableEq

/-- `struct cfg80211_chan_def`, of the channel a station interface is connected on. -/
structure ChanDef where
  band : Band
  /-- `aml_ieee80211_freq_to_chan` of its centre frequency. -/
  chanNo : UInt8
  /-- `IEEE80211_CHAN_RADAR` -/
  radar : Bool
  /-- `ieee80211_chandef_to_operating_class`, when there is a class. -/
  operClass : Option UInt8

/-- The first offset below `frameLen` that passes the test, each offset moving on by its length. -/
def findElement (frameLen : Nat) (found : Nat → Bool) (len : Nat → Nat) : Nat → Nat → Option Nat
  | 0, _ => none
  | fuel + 1, offset =>
      if offset < frameLen then
        if found offset then some offset
        else findElement frameLen found len fuel (offset + len offset)
      else none

/-- As many turns as there are bytes left are enough, whatever the lengths. -/
theorem findElement_fuel {frameLen : Nat} {found : Nat → Bool} {len : Nat → Nat}
    (moves : ∀ offset, 0 < len offset) {fuel offset : Nat} (enough : frameLen ≤ offset + fuel)
    (more : Nat) :
    findElement frameLen found len (fuel + more) offset =
      findElement frameLen found len fuel offset := by
  induction fuel generalizing offset with
  | zero =>
      cases more with
      | zero => rfl
      | succ more => exact if_neg (by omega)
  | succ fuel induction =>
      have moved := moves offset
      rw [Nat.add_right_comm]
      simp only [findElement]
      rw [induction (by omega)]

/-- `aml_get_p2p_ie_offset`: zero when there is no P2P element. -/
def amlGetP2pIeOffset (buf : Memory) (frameLen elementOffset : Nat) : Nat :=
  let p2p (offset : Nat) : Bool :=
    buf offset = 221 && buf (offset + 2) = 0x50 && buf (offset + 3) = 0x6f &&
      buf (offset + 4) = 0x9a && buf (offset + 5) = 0x09
  let len (offset : Nat) : Nat := (buf (offset + 1)).toNat + 2
  (findElement frameLen p2p len frameLen elementOffset).getD 0

/-- The attribute of a P2P element at `offset` with the given identifier. -/
def findAttribute (buf : Memory) (frameLen offset : Nat) (id : UInt8) : Option Nat :=
  findElement frameLen (fun offset => buf offset = id) (fun offset => buf.u16 (offset + 1) + 3)
    frameLen (offset + 6)

/-- `P2P_ATTR_CHANNEL_LIST` -/
def p2pAttrChannelList : UInt8 := 11

/-- `P2P_ATTR_OPERATING_CHANNEL` -/
def p2pAttrOperatingChannel : UInt8 := 17

/-- The address of the frame body of a P2P action frame: `MAC_SHORT_MAC_HDR_LEN` and
`P2P_ACTION_HDR_LEN`. -/
def p2pActionBody : Nat := 24 + 8

section Rewriting

-- `ieee80211_operating_class_to_band`, the kernel's.
variable (toBand : UInt8 → Option Band)

/-- What the loop of `aml_scc_p2p_rewrite_chan_list` adds for the class at `p`, or nothing where the
list would be too long. -/
def rewriteClass (peer5g : Bool) (buf : Memory) (p : Nat) (target : UInt8) (band : Band)
    (list : List UInt8) : Option (List UInt8) :=
  let operClassLen := (buf (p + 1)).toNat
  if band = .ghz5 ∧ peer5g = false ∧ toBand (buf p) = some .ghz2 then
    if list.length + operClassLen + 2 > 200 then none
    else some (list ++ (List.range (operClassLen + 2)).map fun i => buf (p + i))
  else if (List.range operClassLen).any fun i => buf (p + 2 + i) = target then
    if list.length + 3 > 200 then none else some (list ++ [buf p, 1, target])
  else some list

/-- The loop of `aml_scc_p2p_rewrite_chan_list`: the new list, or nothing on its error paths. -/
def rewriteFrom (peer5g : Bool) (buf : Memory) (offset chanListLen : Nat) (target : UInt8)
    (band : Band) : Nat → Nat → List UInt8 → Option (List UInt8)
  | 0, _, list => some list
  | fuel + 1, idx, list =>
      let operClassLen := (buf (offset + idx + 1)).toNat
      if chanListLen ≤ idx then some list
      else if idx + 2 + operClassLen > chanListLen + 3 then none
      else
        match rewriteClass toBand peer5g buf (offset + idx) target band list with
        | none => none
        | some list =>
            rewriteFrom peer5g buf offset chanListLen target band fuel (idx + operClassLen + 2) list

/-- `aml_scc_p2p_rewrite_chan_list`: the buffer, and the length of the list written to it. -/
def amlSccP2pRewriteChanList (peer5g : Bool) (buf : Memory) (offset : Nat) (target : UInt8)
    (band : Band) : Memory × Nat :=
  let chanListLen := buf.u16 (offset + 1)
  if chanListLen < 6 ∨ 200 < chanListLen then (buf, 0)
  else
    match rewriteFrom toBand peer5g buf offset chanListLen target band chanListLen 6 [] with
    | none => (buf, 0)
    | some list => (buf.put (offset + 6) list.length fun i => list.getD i 0, list.length)

/-- `aml_change_p2p_chanlist`: the buffer, and by how much the frame is shorter. -/
def amlChangeP2pChanlist (peer5g : Bool) (buf : Memory) (frameLen : Nat) (chan : ChanDef) :
    Memory × Nat :=
  let ie := amlGetP2pIeOffset buf frameLen p2pActionBody
  if ie = 0 then (buf, 0)
  else
    match findAttribute buf frameLen ie p2pAttrChannelList with
    | none => (buf, 0)
    | some offset =>
        let ieLen := buf.u16 (offset + 1)
        let rewritten := amlSccP2pRewriteChanList toBand peer5g buf offset chan.chanNo chan.band
        if rewritten.2 = 0 then (rewritten.1, 0)
        else
          let after := rewritten.2 + 3
          let lenDiff := (ieLen + 2 ^ 16 - after) % 2 ^ 16
          let buf := rewritten.1.put (offset + 1) 2 fun i => UInt8.ofNat (after / 256 ^ i)
          let buf := buf.put (ie + 1) 1 fun _ => buf (ie + 1) - UInt8.ofNat lenDiff
          -- The length of the rest is a 32-bit difference, which wraps in a frame cut short.
          let rest := (frameLen + 2 ^ 32 - (offset + ieLen + 3)) % 2 ^ 32
          (buf.put (offset + 3 + after) rest fun i => buf (offset + ieLen + 3 + i), lenDiff)

/-- `aml_scc_compare_oper_class`: whether the operating class is to be replaced. -/
def amlSccCompareOperClass (org new : UInt8) : Bool :=
  let both (low high : UInt8) : Bool := low ≤ new && new ≤ high && low ≤ org && org ≤ high
  !(org = new || both 81 83 || both 115 117 || both 118 120 || both 121 123 || both 124 127)

/-- `aml_change_p2p_operchan` -/
def amlChangeP2pOperchan (buf : Memory) (frameLen : Nat) (chan : ChanDef) : Memory :=
  let ie := amlGetP2pIeOffset buf frameLen p2pActionBody
  if ie = 0 then buf
  else
    match findAttribute buf frameLen ie p2pAttrOperatingChannel with
    | none => buf
    | some offset =>
        match toBand (buf (offset + 6)), chan.operClass with
        | some bandOrg, some operClassNew =>
            if bandOrg = chan.band ∨ chan.band = .ghz2 then
              let org := buf (offset + 6)
              let new := if amlSccCompareOperClass org operClassNew then operClassNew else org
              buf.put (offset + 6) 2 fun i => if i = 0 then new else chan.chanNo
            else buf
        | _, _ => buf

end Rewriting

end AmlW2.Tx
