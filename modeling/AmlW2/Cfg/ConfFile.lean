import AmlW2.Lib.Numerals
import Mathlib.Algebra.Ring.Nat

/-!
# The configuration file

`aml_cfg_to_file` writes the chip id and the addresses of the three interfaces to `wifi_conf.txt`,
one tag on a line, and `aml_cfg_from_file` searches the text for the tags and scans their values.
-/

namespace AmlW2.Cfg

open Numerals

/-! ## Addresses -/

structure Mac where
  b0 : UInt8
  b1 : UInt8
  b2 : UInt8
  b3 : UInt8
  b4 : UInt8
  b5 : UInt8
  deriving DecidableEq

namespace Mac

def zero : Mac := ⟨0, 0, 0, 0, 0, 0⟩

/-- `is_valid_ether_addr`: neither a group address nor zero. -/
def isValidEtherAddr (m : Mac) : Bool := m.b0 &&& 1 = 0 ∧ m ≠ zero

/-- The bit of `b0` that makes an address a locally administered one. -/
def isLocal (m : Mac) : Bool := m.b0 &&& 2 ≠ 0

/-- `eth_random_addr` of the bytes drawn. -/
def ethRandomAddr (drawn : Mac) : Mac := { drawn with b0 := drawn.b0 &&& 0xfe ||| 2 }

/-- `aml_cfg_check_macaddr`. -/
def amlCfgCheckMacaddr (m : Mac) (useAmlOui : Bool) : Mac :=
  let m := if useAmlOui then { m with b0 := 0x1c, b1 := 0xa4, b2 := 0x10 } else m
  { m with b0 := m.b0 &&& 0xfc }

end Mac

/-- `struct aml_cfg`. -/
structure AmlCfg where
  chipidL : UInt32
  chipidH : UInt32
  vif0Mac : Mac
  vif1Mac : Mac
  vif2Mac : Mac
  deriving DecidableEq

/-- The other two addresses follow from the first. -/
def AmlCfg.setMacs (cfg : AmlCfg) (vif0Mac : Mac) : AmlCfg :=
  let vif1Mac := { vif0Mac with b0 := vif0Mac.b0 ||| 2 }
  { cfg with
    vif0Mac := vif0Mac
    vif1Mac := vif1Mac
    vif2Mac := { vif1Mac with b5 := vif1Mac.b5 ^^^ 1 } }

/-- What a call finds outside the driver: the words of the efuse, the random bytes it draws, and
what `wifi_get_mac` and `wifi_get_mac_random` return in a build that has them. -/
structure Platform where
  efuse : Nat → UInt32
  drawn : Mac
  wifiGetMac : Option Mac
  wifiGetMacRandom : Option Mac

namespace Platform

/-- `aml_cfg_get_macaddr`. -/
def amlCfgGetMacaddr (p : Platform) : Option Mac :=
  let (l, h) :=
    if p.efuse 0x7 >>> 0x11 &&& 1 = 1 then (p.efuse 0x11, p.efuse 0x12)
    else (p.efuse 0x1, p.efuse 0x2)
  if l = 0 ∨ h = 0 then none
  else some
    { b0 := ((h &&& 0xff00) >>> 8).toUInt8
      b1 := (h &&& 0xff).toUInt8
      b2 := ((l &&& 0xff000000) >>> 24).toUInt8
      b3 := ((l &&& 0x00ff0000) >>> 16).toUInt8
      b4 := ((l &&& 0xff00) >>> 8).toUInt8
      b5 := (l &&& 0xff).toUInt8 }

/-- The address from the efuse, if it is valid. -/
def efuseMac (p : Platform) : Option Mac :=
  (p.amlCfgGetMacaddr.filter Mac.isValidEtherAddr).map fun m => m.amlCfgCheckMacaddr false

/-- A local address, drawn at random. -/
def localMac (p : Platform) : Mac := p.drawn.ethRandomAddr.amlCfgCheckMacaddr true

/-- An address of the platform, if there is one and it is valid. -/
def platformMac (mac : Option Mac) : Option Mac :=
  (mac.filter Mac.isValidEtherAddr).map fun m => m.amlCfgCheckMacaddr false

end Platform

/-! ## The file -/

/-- `AML_CFG_LBUF_MAXLEN`. -/
def lbufMaxlen : Nat := 64

/-- `AML_CFG_FBUF_MAXLEN`. -/
def fbufMaxlen : Nat := lbufMaxlen * 16

/-- `AML_EFUSE_CHIPID_LEN`. -/
def chipidLen : Nat := 12

/-- A file and its position, `f_pos`, which is not behind its end. -/
structure File where
  content : List Char
  pos : Nat
  inside : pos ≤ content.length

namespace File

/-- A file just created. -/
def created : File := ⟨[], 0, Nat.le_refl 0⟩

def rewind (fp : File) : File := ⟨fp.content, 0, Nat.zero_le _⟩

/-- `aml_cfg_read`: the bytes read. -/
def amlCfgRead (fp : File) (len : Nat) : List Char × File :=
  ((fp.content.drop fp.pos).take len,
    ⟨fp.content, min (fp.pos + len) fp.content.length, Nat.min_le_right _ _⟩)

/-- `aml_cfg_write`. -/
def amlCfgWrite (fp : File) (text : List Char) : File where
  content := fp.content.take fp.pos ++ text ++ fp.content.drop (fp.pos + text.length)
  pos := fp.pos + text.length
  inside := by
    rw [List.length_append, List.length_append, List.length_take, Nat.min_eq_left fp.inside]
    exact Nat.le_add_right _ _

/-- A buffer as a string: what stands before the first zero byte. -/
def cString (buf : List Char) : List Char := buf.takeWhile fun c => c.toNat ≠ 0

/-- `aml_cfg_store_tag`. -/
def amlCfgStoreTag (fp : File) (tagName tagValue : List Char) : File :=
  if lbufMaxlen < tagName.length + tagValue.length then fp
  else
    let lbuf := (tagName ++ '=' :: tagValue ++ ['\n']).take (lbufMaxlen - 1)
    let (fbuf, fp) := fp.amlCfgRead fbufMaxlen
    if fbufMaxlen < (cString fbuf).length + lbuf.length then fp
    else fp.amlCfgWrite (lbuf.take (fbufMaxlen - 1))

end File

/-- The loop of `aml_cfg_find_tag`, a line a pass: what follows the tag. -/
def findTagLoop (tagName : List Char) (tagLen : Nat) : (passes : Nat) → List Char →
    Option (List Char)
  | 0, _ => none
  | passes + 1, text =>
      if text = [] then none
      else
        let line := text.takeWhile fun c => c ≠ '\n'
        if line.length = tagName.length + tagLen ∧ text.take tagName.length = tagName then
          some (text.drop tagName.length)
        else findTagLoop tagName tagLen passes (text.drop (line.length + 1))

/-- `aml_cfg_find_tag`.  Each pass takes at least a character. -/
def amlCfgFindTag (text tagName : List Char) (tagLen : Nat) : Option (List Char) :=
  findTagLoop tagName tagLen text.length text

/-! ## Writing -/

/-- The tag `CHIP_ID`. -/
def chipIdTag : List Char := ['C', 'H', 'I', 'P', '_', 'I', 'D']

/-- The tags `VIF0_MACADDR`, `VIF1_MACADDR` and `VIF2_MACADDR`. -/
def macTag (vif : Char) : List Char :=
  ['V', 'I', 'F', vif, '_', 'M', 'A', 'C', 'A', 'D', 'D', 'R']

/-- The text of the chip id. -/
def chipidStr (cfg : AmlCfg) : List Char :=
  padded 16 4 '0' (cfg.chipidH &&& 0xffff).toNat ++ padded 16 8 '0' cfg.chipidL.toNat

/-- `MACFMT`. -/
def macStr (m : Mac) : List Char :=
  padded 16 2 '0' m.b0.toNat ++ ':' :: (padded 16 2 '0' m.b1.toNat ++ ':' ::
    (padded 16 2 '0' m.b2.toNat ++ ':' :: (padded 16 2 '0' m.b3.toNat ++ ':' ::
      (padded 16 2 '0' m.b4.toNat ++ ':' :: padded 16 2 '0' m.b5.toNat))))

/-- `aml_cfg_store_chipid`. -/
def amlCfgStoreChipid (fp : File) (cfg : AmlCfg) : File :=
  fp.amlCfgStoreTag chipIdTag (chipidStr cfg)

/-- `aml_cfg_store_macaddr`. -/
def amlCfgStoreMacaddr (fp : File) (cfg : AmlCfg) : File :=
  let fp := fp.amlCfgStoreTag (macTag '0') (macStr cfg.vif0Mac)
  let fp := fp.amlCfgStoreTag (macTag '1') (macStr cfg.vif1Mac)
  fp.amlCfgStoreTag (macTag '2') (macStr cfg.vif2Mac)

/-- The first address `aml_cfg_to_file` chooses.  The platform's addresses are for a driver without
a file. -/
def Platform.vif0Mac (p : Platform) (withFile : Bool) : Mac :=
  match platformMac (if withFile then none else p.wifiGetMac) with
  | some m => m
  | none =>
    match p.efuseMac with
    | some m => m
    | none => (platformMac (if withFile then none else p.wifiGetMacRandom)).getD p.localMac

/-- `aml_cfg_to_file`. -/
def amlCfgToFile (p : Platform) (cfg : AmlCfg) (fp : Option File) : AmlCfg × Option File :=
  -- `aml_cfg_get_chipid`
  let cfg := { cfg with chipidL := p.efuse 0x8, chipidH := p.efuse 0x9 }
  let cfg := cfg.setMacs (p.vif0Mac fp.isSome)
  (cfg, fp.map fun fp => amlCfgStoreMacaddr (amlCfgStoreChipid fp cfg) cfg)

/-! ## Reading -/

/-- `simple_strtoul` passes over `0x`. -/
def skipPrefix (text : List Char) : List Char :=
  if text.take 2 = ['0', 'x'] ∨ text.take 2 = ['0', 'X'] then text.drop 2 else text

/-- `simple_strtoul` in base 16, with the text behind the number. -/
def simpleStrtoul (text : List Char) : Nat × List Char :=
  let (value, rest) := scanHex 0 (skipPrefix text)
  (value % 2 ^ 64, rest)

/-- `isspace`. -/
def isSpace (c : Char) : Bool := c.toNat = 32 ∨ 9 ≤ c.toNat ∧ c.toNat ≤ 13 ∨ c.toNat = 160

/-- The conversion `%hhx` of `sscanf`. -/
def scanByte (text : List Char) : Option (UInt8 × List Char) :=
  let text := text.dropWhile isSpace
  if text.head?.bind hexVal = none then none
  else
    let (value, rest) := simpleStrtoul text
    some (UInt8.ofNat value, rest)

/-- The bytes `sscanf` converts, with colons between them, until a conversion fails. -/
def scanBytes : (count : Nat) → List Char → List UInt8
  | 0, _ => []
  | count + 1, text =>
      match scanByte text with
      | none => []
      | some (b, rest) => b :: (if rest.head? = some ':' then scanBytes count rest.tail else [])

/-- The bytes converted are stored, the others stay. -/
def Mac.stored (m : Mac) (bytes : List UInt8) : Mac where
  b0 := bytes.getD 0 m.b0
  b1 := bytes.getD 1 m.b1
  b2 := bytes.getD 2 m.b2
  b3 := bytes.getD 3 m.b3
  b4 := bytes.getD 4 m.b4
  b5 := bytes.getD 5 m.b5

/-- An address from the file: it stays if the tag is missing, and a malformed one is an error. -/
def macFromFile (text tagName : List Char) (m : Mac) : Mac × Bool :=
  match amlCfgFindTag text (tagName ++ ['=']) 17 with
  | none => (m, false)
  | some tagPtr =>
      let bytes := scanBytes 6 tagPtr
      (m.stored bytes, bytes.length ≠ 6)

/-- The chip id from the file. -/
def AmlCfg.chipidFromFile (cfg : AmlCfg) (text : List Char) : AmlCfg :=
  match amlCfgFindTag text (chipIdTag ++ ['=']) chipidLen with
  | none => cfg
  | some tagPtr =>
      { cfg with
        chipidL := UInt32.ofNat (simpleStrtoul (tagPtr.drop 4)).1
        chipidH := UInt32.ofNat (simpleStrtoul (tagPtr.take 4)).1 }

/-- The addresses from the file.  After an error the rest is not read, and all are replaced. -/
def AmlCfg.macsFromFile (cfg : AmlCfg) (p : Platform) (text : List Char) : AmlCfg :=
  let (vif0Mac, err0) := macFromFile text (macTag '0') cfg.vif0Mac
  let (vif1Mac, err1) := macFromFile text (macTag '1') cfg.vif1Mac
  let (vif2Mac, err2) := macFromFile text (macTag '2') cfg.vif2Mac
  if err0 ∨ err1 ∨ err2 ∨ !vif0Mac.isValidEtherAddr ∨ !vif1Mac.isValidEtherAddr ∨
      !vif2Mac.isValidEtherAddr then
    cfg.setMacs (p.efuseMac.getD p.localMac)
  else { cfg with vif0Mac := vif0Mac, vif1Mac := vif1Mac, vif2Mac := vif2Mac }

/-- `aml_cfg_from_file`, with its result. -/
def amlCfgFromFile (p : Platform) (cfg : AmlCfg) (fp : File) : AmlCfg × Int :=
  let (fbuf, _) := fp.amlCfgRead fbufMaxlen
  if fbuf = [] then (cfg, -1)
  else
    let text := File.cString fbuf
    let cfg := cfg.chipidFromFile text
    match Platform.platformMac p.wifiGetMac with
    | some m => (cfg.setMacs m, 0)
    | none => (cfg.macsFromFile p text, 0)

end AmlW2.Cfg
