import AmlW2.Cfg.ConfFile

/-!
# What is written is read back

The file written has four lines of known lengths, so that each tag is found on its own line, and the
scanners read the numbers the formatter wrote.
-/

namespace AmlW2.Cfg

open Numerals

variable {text line rest tagName tagValue other value : List Char} {tagLen passes n width : Nat}
  {m : Mac} {b : UInt8}

/-! ## The lines written -/

namespace File

/-- A file that is written at its end. -/
def atEnd (text : List Char) : File := ⟨text, text.length, Nat.le_refl _⟩

/-- A tag that fits the buffers is a line at the end of the file. -/
theorem amlCfgStoreTag_atEnd (short : tagName.length + tagValue.length ≤ 61) :
    (atEnd text).amlCfgStoreTag tagName tagValue =
      atEnd (text ++ (tagName ++ '=' :: tagValue ++ ['\n'])) := by
  have length : (tagName ++ '=' :: tagValue ++ ['\n']).length ≤ 63 := by
    simp only [List.length_append, List.length_cons, List.length_nil]
    omega
  have whole : (tagName ++ '=' :: tagValue ++ ['\n']).take 63 =
      tagName ++ '=' :: tagValue ++ ['\n'] := List.take_of_length_le length
  have whole' : (tagName ++ '=' :: tagValue ++ ['\n']).take 1023 =
      tagName ++ '=' :: tagValue ++ ['\n'] :=
    List.take_of_length_le (Nat.le_trans length (by decide))
  have empty : text.drop text.length = [] := List.drop_length
  simp only [amlCfgStoreTag, lbufMaxlen, fbufMaxlen, amlCfgRead, atEnd, whole, whole', empty,
    amlCfgWrite]
  rw [if_neg (by omega), if_neg]
  · simp
  · simp only [cString, List.take_nil, List.takeWhile_nil, List.length_nil]
    omega

end File

/-! ## The search for a tag -/

theorem takeWhile_line (no_newline : '\n' ∉ line) (rest : List Char) :
    (line ++ '\n' :: rest).takeWhile (fun c => c ≠ '\n') = line := by
  induction line with
  | nil => rfl
  | cons c line induction =>
      rw [List.mem_cons, not_or] at no_newline
      have first : decide (c ≠ '\n') = true := decide_eq_true (Ne.symm no_newline.1)
      rw [List.cons_append, List.takeWhile_cons, if_pos first, induction no_newline.2]

/-- A line with the tag and a value of the length asked for. -/
theorem findTagLoop_here (no_newline : '\n' ∉ tagName ++ value) (rest : List Char) :
    findTagLoop tagName value.length (passes + 1) (tagName ++ value ++ '\n' :: rest) =
      some (value ++ '\n' :: rest) := by
  have some_text : tagName ++ value ++ '\n' :: rest ≠ [] := by simp
  rw [findTagLoop, if_neg some_text]
  dsimp only
  rw [takeWhile_line no_newline, if_pos]
  · rw [List.append_assoc, List.drop_left]
  · rw [List.append_assoc, List.take_left, List.length_append]
    exact ⟨rfl, rfl⟩

/-- A line that is not the one looked for is passed over. -/
theorem findTagLoop_next (no_newline : '\n' ∉ line)
    (differs : ¬(line.length = tagName.length + tagLen ∧
      (line ++ '\n' :: rest).take tagName.length = tagName)) :
    findTagLoop tagName tagLen (passes + 1) (line ++ '\n' :: rest) =
      findTagLoop tagName tagLen passes rest := by
  have some_text : line ++ '\n' :: rest ≠ [] := by simp
  rw [findTagLoop, if_neg some_text]
  dsimp only
  rw [takeWhile_line no_newline, if_neg differs, ← List.drop_drop, List.drop_left]
  rfl

/-- A line with another tag of the same length. -/
theorem findTagLoop_other (no_newline : '\n' ∉ other ++ value)
    (same_length : other.length = tagName.length) (differs : other ≠ tagName) (rest : List Char) :
    findTagLoop tagName tagLen (passes + 1) (other ++ value ++ '\n' :: rest) =
      findTagLoop tagName tagLen passes rest := by
  refine findTagLoop_next no_newline fun found => differs ?_
  rw [← found.2, ← same_length, List.append_assoc, List.take_left]

/-! ## The numbers read back -/

theorem length_byteStr (b : UInt8) : (padded 16 2 '0' b.toNat).length = 2 :=
  length_padded (by decide) (by decide) b.toNat_lt

/-- Digits are not taken for `0x`. -/
theorem skipPrefix_padded (wide : 2 ≤ width) (fits : n < 16 ^ width) (rest : List Char) :
    skipPrefix (padded 16 width '0' n ++ rest) = padded 16 width '0' n ++ rest := by
  have length : (padded 16 width '0' n).length = width :=
    length_padded (by decide) (by omega) fits
  have digits : ∀ c ∈ (padded 16 width '0' n ++ rest).take 2, hexVal c ≠ none := by
    intro c member
    rw [List.take_append_of_le_length (by omega)] at member
    exact hexVal_of_mem_padded (List.mem_of_mem_take member)
  refine if_neg ?_
  rintro (lower | upper)
  · rw [lower] at digits
    exact digits 'x' (by decide) (by decide)
  · rw [upper] at digits
    exact digits 'X' (by decide) (by decide)

theorem simpleStrtoul_padded (wide : 2 ≤ width) (fits : n < 16 ^ width) (small : n < 2 ^ 64)
    (stop : rest.head?.bind hexVal = none) :
    simpleStrtoul (padded 16 width '0' n ++ rest) = (n, rest) := by
  rw [simpleStrtoul, skipPrefix_padded wide fits, scanHex_padded, scanHex_stop stop]
  dsimp only
  rw [Nat.mod_eq_of_lt small]

/-- A digit is not white space. -/
theorem isSpace_of_digit {c : Char} (digit : hexVal c ≠ none) : isSpace c = false := by
  refine decide_eq_false fun space => digit ?_
  rw [hexVal, if_neg (by omega), if_neg (by omega), if_neg (by omega)]

theorem scanByte_byteStr (b : UInt8) (stop : rest.head?.bind hexVal = none) :
    scanByte (padded 16 2 '0' b.toNat ++ rest) = some (b, rest) := by
  have read : simpleStrtoul (padded 16 2 '0' b.toNat ++ rest) = (b.toNat, rest) :=
    simpleStrtoul_padded (Nat.le_refl 2) b.toNat_lt (Nat.lt_trans b.toNat_lt (by decide)) stop
  have length := length_byteStr b
  cases digits : padded 16 2 '0' b.toNat with
  | nil =>
      rw [digits] at length
      cases length
  | cons c d =>
      have digit : hexVal c ≠ none :=
        hexVal_of_mem_padded (by rw [digits]; exact List.mem_cons_self)
      have space : ¬isSpace c = true := by
        rw [isSpace_of_digit digit]
        exact Bool.false_ne_true
      rw [digits, List.cons_append] at read
      rw [scanByte, List.cons_append, List.dropWhile_cons, if_neg space]
      dsimp only
      rw [read, if_neg]
      · dsimp only
        rw [UInt8.ofNat_toNat]
      · exact digit

/-- The two digits of a byte, and a colon behind them. -/
theorem scanBytes_colon (b : UInt8) (count : Nat) (text : List Char) :
    scanBytes (count + 1) (padded 16 2 '0' b.toNat ++ ':' :: text) = b :: scanBytes count text := by
  rw [scanBytes, scanByte_byteStr b (by rfl)]
  rfl

theorem scanBytes_last (b : UInt8) (stop : rest.head?.bind hexVal = none)
    (no_colon : rest.head? ≠ some ':') :
    scanBytes (n + 1) (padded 16 2 '0' b.toNat ++ rest) = [b] := by
  rw [scanBytes, scanByte_byteStr b stop]
  dsimp only
  rw [if_neg no_colon]

theorem scanBytes_macStr (m : Mac) (rest : List Char) :
    scanBytes 6 (macStr m ++ '\n' :: rest) = [m.b0, m.b1, m.b2, m.b3, m.b4, m.b5] := by
  simp only [macStr, List.append_assoc, List.cons_append]
  rw [scanBytes_colon, scanBytes_colon, scanBytes_colon, scanBytes_colon, scanBytes_colon,
    scanBytes_last m.b5 rfl (by simp)]

theorem length_macStr (m : Mac) : (macStr m).length = 17 := by
  simp only [macStr, List.length_append, List.length_cons, length_byteStr]

theorem high_lt (h : UInt32) : (h &&& 0xffff).toNat < 2 ^ 16 := by
  rw [UInt32.toNat_and]
  exact Nat.and_lt_two_pow _ (by decide)

theorem length_chipidStr (cfg : AmlCfg) : (chipidStr cfg).length = chipidLen := by
  have high : (padded 16 4 '0' (cfg.chipidH &&& 0xffff).toNat).length = 4 :=
    length_padded (by decide) (by decide) (high_lt cfg.chipidH)
  have low : (padded 16 8 '0' cfg.chipidL.toNat).length = 8 :=
    length_padded (by decide) (by decide) cfg.chipidL.toNat_lt
  rw [chipidStr, List.length_append, high, low]
  rfl

/-- A text without white space and control characters. -/
def Printable (text : List Char) : Prop := ∀ c ∈ text, 32 < c.toNat

@[simp] theorem printable_cons {c : Char} :
    Printable (c :: text) ↔ 32 < c.toNat ∧ Printable text := List.forall_mem_cons

@[simp] theorem printable_append : Printable (text ++ rest) ↔ Printable text ∧ Printable rest :=
  List.forall_mem_append

theorem Printable.no_newline (printable : Printable text) : '\n' ∉ text :=
  fun member => absurd (printable '\n' member) (by decide)

@[simp] theorem printable_padded : Printable (padded 16 width '0' n) := by
  intro c member
  refine Nat.lt_of_not_le fun low => hexVal_of_mem_padded member ?_
  rw [hexVal, if_neg (by omega), if_neg (by omega), if_neg (by omega)]

@[simp] theorem printable_macStr (m : Mac) : Printable (macStr m) := by
  simp [macStr]

@[simp] theorem printable_chipidStr (cfg : AmlCfg) : Printable (chipidStr cfg) := by
  simp [chipidStr]

theorem printable_chipidLine (cfg : AmlCfg) : Printable (chipIdTag ++ ['='] ++ chipidStr cfg) := by
  simp [chipIdTag]

theorem printable_macLine {vif : Char} (printable : 32 < vif.toNat) (m : Mac) :
    Printable (macTag vif ++ ['='] ++ macStr m) := by
  simp [macTag, printable]

/-! ## The text of the file -/

/-- The tags of the file, as they are searched for. -/
def tagNames : List (List Char) :=
  [(chipIdTag ++ ['=']), (macTag '0' ++ ['=']), (macTag '1' ++ ['=']), (macTag '2' ++ ['='])]

/-- The text of the file written. -/
def fileText (cfg : AmlCfg) : List Char :=
  (chipIdTag ++ ['=']) ++ chipidStr cfg ++ '\n' ::
    ((macTag '0' ++ ['=']) ++ macStr cfg.vif0Mac ++ '\n' ::
      ((macTag '1' ++ ['=']) ++ macStr cfg.vif1Mac ++ '\n' ::
        ((macTag '2' ++ ['=']) ++ macStr cfg.vif2Mac ++ '\n' :: [])))

theorem length_fileText (cfg : AmlCfg) : (fileText cfg).length = 114 := by
  simp only [fileText, List.length_append, List.length_cons, length_chipidStr, length_macStr]
  rfl

/-- The four calls of `aml_cfg_store_tag` write this text. -/
theorem stored_eq (cfg : AmlCfg) :
    amlCfgStoreMacaddr (amlCfgStoreChipid File.created cfg) cfg = File.atEnd (fileText cfg) := by
  have chip := length_chipidStr cfg
  have mac := length_macStr
  have created : File.created = File.atEnd [] := rfl
  rw [chipidLen] at chip
  rw [amlCfgStoreMacaddr, amlCfgStoreChipid, created,
    File.amlCfgStoreTag_atEnd (by rw [chip]; decide),
    File.amlCfgStoreTag_atEnd (by rw [mac]; decide),
    File.amlCfgStoreTag_atEnd (by rw [mac]; decide),
    File.amlCfgStoreTag_atEnd (by rw [mac]; decide)]
  simp [fileText]

/-- Each tag stands on one line. -/
theorem count_tag (cfg : AmlCfg) {tag : List Char} (member : tag ∈ tagNames) :
    ((fileText cfg).splitOn '\n').countP tag.isPrefixOf = 1 := by
  rw [fileText, List.splitOn_append_cons_self_of_not_mem (printable_chipidLine cfg).no_newline,
    List.splitOn_append_cons_self_of_not_mem (printable_macLine (by decide) _).no_newline,
    List.splitOn_append_cons_self_of_not_mem (printable_macLine (by decide) _).no_newline,
    List.splitOn_append_cons_self_of_not_mem (printable_macLine (by decide) _).no_newline,
    List.splitOn_nil]
  simp only [tagNames, List.mem_cons, List.not_mem_nil, or_false] at member
  rcases member with rfl | rfl | rfl | rfl
  · rfl
  · rfl
  · rfl
  · rfl

theorem findTag_chipid (cfg : AmlCfg) :
    ∃ rest, amlCfgFindTag (fileText cfg) (chipIdTag ++ ['=']) chipidLen =
      some (chipidStr cfg ++ '\n' :: rest) := by
  rw [amlCfgFindTag, length_fileText, ← length_chipidStr cfg]
  exact ⟨_, findTagLoop_here (printable_chipidLine cfg).no_newline _⟩

/-- The line of the chip id is too short to be that of an address. -/
theorem findTagLoop_chipid (cfg : AmlCfg) (length : tagName.length = 13) (rest : List Char) :
    findTagLoop tagName 17 (passes + 1) ((chipIdTag ++ ['=']) ++ chipidStr cfg ++ '\n' :: rest) =
      findTagLoop tagName 17 passes rest := by
  refine findTagLoop_next (printable_chipidLine cfg).no_newline fun found => ?_
  have short := found.1
  rw [List.length_append, length_chipidStr, length] at short
  exact absurd short (by decide)

theorem findTagLoop_macHere {vif : Char} (printable : 32 < vif.toNat) (m : Mac) (rest : List Char) :
    findTagLoop (macTag vif ++ ['=']) 17 (passes + 1)
      (macTag vif ++ ['='] ++ macStr m ++ '\n' :: rest) = some (macStr m ++ '\n' :: rest) := by
  rw [← length_macStr m]
  exact findTagLoop_here (printable_macLine printable m).no_newline rest

theorem findTagLoop_macNext {vif vif' : Char} (printable : 32 < vif'.toNat) (differs : vif' ≠ vif)
    (m : Mac) (rest : List Char) :
    findTagLoop (macTag vif ++ ['=']) tagLen (passes + 1)
      (macTag vif' ++ ['='] ++ macStr m ++ '\n' :: rest) =
        findTagLoop (macTag vif ++ ['=']) tagLen passes rest := by
  have same_length : (macTag vif' ++ ['=']).length = (macTag vif ++ ['=']).length := rfl
  have tags_differ : macTag vif' ++ ['='] ≠ macTag vif ++ ['='] := by simp [macTag, differs]
  exact findTagLoop_other (printable_macLine printable m).no_newline same_length tags_differ rest

theorem findTag_vif0 (cfg : AmlCfg) :
    ∃ rest, amlCfgFindTag (fileText cfg) (macTag '0' ++ ['=']) 17 =
      some (macStr cfg.vif0Mac ++ '\n' :: rest) := by
  rw [amlCfgFindTag, length_fileText, fileText, findTagLoop_chipid cfg rfl,
    findTagLoop_macHere (by decide)]
  exact ⟨_, rfl⟩

theorem findTag_vif1 (cfg : AmlCfg) :
    ∃ rest, amlCfgFindTag (fileText cfg) (macTag '1' ++ ['=']) 17 =
      some (macStr cfg.vif1Mac ++ '\n' :: rest) := by
  rw [amlCfgFindTag, length_fileText, fileText, findTagLoop_chipid cfg rfl,
    findTagLoop_macNext (by decide) (by decide), findTagLoop_macHere (by decide)]
  exact ⟨_, rfl⟩

theorem findTag_vif2 (cfg : AmlCfg) :
    ∃ rest, amlCfgFindTag (fileText cfg) (macTag '2' ++ ['=']) 17 =
      some (macStr cfg.vif2Mac ++ '\n' :: rest) := by
  rw [amlCfgFindTag, length_fileText, fileText, findTagLoop_chipid cfg rfl,
    findTagLoop_macNext (by decide) (by decide), findTagLoop_macNext (by decide) (by decide),
    findTagLoop_macHere (by decide)]
  exact ⟨_, rfl⟩

theorem macFromFile_of_found {tag : List Char}
    (found : ∃ rest, amlCfgFindTag text (tag ++ ['=']) 17 = some (macStr m ++ '\n' :: rest))
    (m' : Mac) : macFromFile text tag m' = (m, false) := by
  obtain ⟨rest, found⟩ := found
  rw [macFromFile, found]
  dsimp only
  rw [scanBytes_macStr]
  rfl

/-- The chip id is read back. -/
theorem chipidFromFile_fileText (cfg cfg' : AmlCfg) :
    cfg'.chipidFromFile (fileText cfg) =
      { cfg' with chipidL := cfg.chipidL, chipidH := cfg.chipidH &&& 0xffff } := by
  obtain ⟨rest, found⟩ := findTag_chipid cfg
  have four : (padded 16 4 '0' (cfg.chipidH &&& 0xffff).toNat).length = 4 :=
    length_padded (by decide) (by decide) (high_lt cfg.chipidH)
  have low : simpleStrtoul (padded 16 8 '0' cfg.chipidL.toNat ++ '\n' :: rest) =
      (cfg.chipidL.toNat, '\n' :: rest) :=
    simpleStrtoul_padded (by decide) cfg.chipidL.toNat_lt
      (Nat.lt_trans cfg.chipidL.toNat_lt (by decide)) rfl
  have high : simpleStrtoul (padded 16 4 '0' (cfg.chipidH &&& 0xffff).toNat ++ []) =
      ((cfg.chipidH &&& 0xffff).toNat, []) :=
    simpleStrtoul_padded (by decide) (high_lt cfg.chipidH)
      (Nat.lt_trans (high_lt cfg.chipidH) (by decide)) rfl
  rw [List.append_nil] at high
  rw [AmlCfg.chipidFromFile, found]
  dsimp only
  rw [chipidStr, List.append_assoc, List.take_left' four, List.drop_left' four, low, high]
  dsimp only
  rw [UInt32.ofNat_toNat, UInt32.ofNat_toNat]

/-! ## The addresses -/

/-- The three addresses are valid, differ from each other, and only the first is a globally
administered one. -/
structure AmlCfg.Proper (cfg : AmlCfg) : Prop where
  valid : cfg.vif0Mac.isValidEtherAddr ∧ cfg.vif1Mac.isValidEtherAddr ∧
    cfg.vif2Mac.isValidEtherAddr
  differ : [cfg.vif0Mac, cfg.vif1Mac, cfg.vif2Mac].Nodup
  global : cfg.vif0Mac.isLocal = false ∧ cfg.vif1Mac.isLocal ∧ cfg.vif2Mac.isLocal

/-- The group bit and the local bit are cleared. -/
theorem checked_bits : ∀ b : UInt8, b &&& 0xfc &&& 1 = 0 ∧ b &&& 0xfc &&& 2 = 0 :=
  forall_byte (by decide)

/-- What setting the local bit does. -/
theorem local_bits : ∀ b : UInt8, (b &&& 1 = 0 → (b ||| 2) &&& 1 = 0) ∧ (b ||| 2) &&& 2 ≠ 0 :=
  forall_byte (by decide)

theorem flipped_ne : ∀ b : UInt8, b ^^^ 1 ≠ b := forall_byte (by decide)

/-- An address with the local bit is not zero. -/
theorem valid_of_local (unicast : m.b0 &&& 1 = 0) (set : m.b0 &&& 2 ≠ 0) :
    m.isValidEtherAddr = true := by
  refine decide_eq_true ⟨unicast, fun zero => set ?_⟩
  rw [zero]
  rfl

theorem proper_setMacs (cfg : AmlCfg) (valid : m.isValidEtherAddr = true)
    (global : m.isLocal = false) : (cfg.setMacs m).Proper := by
  have unicast : m.b0 &&& 1 = 0 := (of_decide_eq_true valid).1
  have cleared : m.b0 &&& 2 = 0 := by simpa [Mac.isLocal] using global
  obtain ⟨unicast', set⟩ := local_bits m.b0
  have moved : m.b0 ||| 2 ≠ m.b0 := by
    intro same
    rw [same] at set
    exact set cleared
  have flipped := flipped_ne m.b5
  constructor
  · exact ⟨valid, valid_of_local (unicast' unicast) set, valid_of_local (unicast' unicast) set⟩
  · simp only [List.nodup_cons, List.mem_cons, List.not_mem_nil, or_false, not_or,
      List.nodup_nil, not_false_eq_true, and_true]
    refine ⟨⟨fun same => ?_, fun same => ?_⟩, fun same => ?_⟩
    · exact moved (congrArg Mac.b0 same).symm
    · exact moved (congrArg Mac.b0 same).symm
    · exact flipped (congrArg Mac.b5 same).symm
  · exact ⟨global, decide_eq_true set, decide_eq_true set⟩

/-- A byte of a word, taken with a mask. -/
theorem toNat_byteOf (n k : Nat) : (n &&& 255 <<< k) >>> k % 256 = n / 2 ^ k % 256 := by
  rw [Nat.shiftRight_and_distrib, Nat.shiftLeft_shiftRight, Nat.shiftRight_eq_div_pow,
    show 255 = 2 ^ 8 - 1 from rfl, Nat.and_two_pow_sub_one_eq_mod, Nat.mod_mod]

/-- The low four bytes of an address from the efuse hold its low word. -/
theorem low_ne_zero {l : UInt32} (some_bit : l ≠ 0) :
    ((l &&& 0xff000000) >>> 24).toUInt8 ≠ 0 ∨ ((l &&& 0x00ff0000) >>> 16).toUInt8 ≠ 0 ∨
      ((l &&& 0xff00) >>> 8).toUInt8 ≠ 0 ∨ (l &&& 0xff).toUInt8 ≠ 0 := by
  have bound := l.toNat_lt
  have some_bit : l.toNat ≠ 0 := fun none => some_bit (UInt32.toNat_inj.mp none)
  have b2 := toNat_byteOf l.toNat 24
  have b3 := toNat_byteOf l.toNat 16
  have b4 := toNat_byteOf l.toNat 8
  have b5 := toNat_byteOf l.toNat 0
  simp only [Nat.reduceShiftLeft, Nat.reducePow] at b2 b3 b4 b5
  simp only [ne_eq, ← UInt8.toNat_inj, UInt32.toNat_toUInt8, UInt32.toNat_shiftRight,
    UInt32.toNat_and, UInt32.reduceToNat, UInt8.reduceToNat, Nat.reduceMod, Nat.reducePow, b2, b3,
    b4]
  rw [Nat.shiftRight_zero] at b5
  rw [b5]
  omega

/-- A valid address stays valid when its two low bits are cleared, if one of its low bytes is not
zero. -/
theorem check_valid (low : m.b2 ≠ 0 ∨ m.b3 ≠ 0 ∨ m.b4 ≠ 0 ∨ m.b5 ≠ 0) :
    (m.amlCfgCheckMacaddr false).isValidEtherAddr = true ∧
      (m.amlCfgCheckMacaddr false).isLocal = false := by
  obtain ⟨unicast, global⟩ := checked_bits m.b0
  constructor
  · refine decide_eq_true ⟨unicast, fun zero => ?_⟩
    rcases low with b2 | b3 | b4 | b5
    · exact b2 (congrArg Mac.b2 zero)
    · exact b3 (congrArg Mac.b3 zero)
    · exact b4 (congrArg Mac.b4 zero)
    · exact b5 (congrArg Mac.b5 zero)
  · exact decide_eq_false (not_not_intro global)

theorem low_of_efuse {p : Platform} (found : p.amlCfgGetMacaddr = some m) :
    m.b2 ≠ 0 ∨ m.b3 ≠ 0 ∨ m.b4 ≠ 0 ∨ m.b5 ≠ 0 := by
  rw [Platform.amlCfgGetMacaddr] at found
  split at found
  split_ifs at found with none
  cases found
  rw [not_or] at none
  exact low_ne_zero none.1

theorem efuseMac_valid {p : Platform} (found : p.efuseMac = some m) :
    m.isValidEtherAddr = true ∧ m.isLocal = false := by
  rw [Platform.efuseMac, Option.map_eq_some_iff] at found
  obtain ⟨read, found, rfl⟩ := found
  exact check_valid (low_of_efuse (Option.filter_eq_some_iff.mp found).1)

theorem localMac_valid (p : Platform) :
    p.localMac.isValidEtherAddr = true ∧ p.localMac.isLocal = false := by
  have first : p.localMac.b0 = 0x1c &&& 0xfc := rfl
  constructor
  · refine decide_eq_true ⟨?_, fun zero => ?_⟩
    · rw [first]
      decide
    · rw [zero] at first
      exact absurd first (by decide)
  · refine decide_eq_false ?_
    rw [first]
    decide

theorem vif0Mac_valid (p : Platform) :
    (p.vif0Mac true).isValidEtherAddr = true ∧ (p.vif0Mac true).isLocal = false := by
  rw [Platform.vif0Mac]
  cases found : p.efuseMac with
  | some m => exact efuseMac_valid found
  | none => exact localMac_valid p

/-! ## The round trip -/

/-- A line is no end of a string. -/
theorem cString_line (printable : Printable line) (rest : List Char) :
    File.cString (line ++ '\n' :: rest) = line ++ '\n' :: File.cString rest := by
  have no_end : ∀ c ∈ line, decide (c.toNat ≠ 0) = true := by
    intro c member
    have above := printable c member
    exact decide_eq_true (by omega)
  rw [File.cString, List.takeWhile_append_of_pos no_end, List.takeWhile_cons, if_pos (by decide)]
  rfl

/-- The text of the file is read as a string. -/
theorem cString_fileText (cfg : AmlCfg) : File.cString (fileText cfg) = fileText cfg := by
  rw [fileText, cString_line (printable_chipidLine cfg),
    cString_line (printable_macLine (by decide) _), cString_line (printable_macLine (by decide) _),
    cString_line (printable_macLine (by decide) _)]
  rfl

theorem rewind_read (text : List Char) (short : text.length ≤ fbufMaxlen) :
    ((File.atEnd text).rewind.amlCfgRead fbufMaxlen).1 = text :=
  List.take_of_length_le short

/-- The addresses are read back. -/
theorem macsFromFile_fileText {cfg : AmlCfg} (proper : cfg.Proper) (p : Platform) (cfg' : AmlCfg) :
    cfg'.macsFromFile p (fileText cfg) =
      { cfg' with vif0Mac := cfg.vif0Mac, vif1Mac := cfg.vif1Mac, vif2Mac := cfg.vif2Mac } := by
  obtain ⟨valid0, valid1, valid2⟩ := proper.valid
  rw [AmlCfg.macsFromFile, macFromFile_of_found (findTag_vif0 cfg),
    macFromFile_of_found (findTag_vif1 cfg), macFromFile_of_found (findTag_vif2 cfg)]
  dsimp only
  rw [valid0, valid1, valid2]
  rfl

/-- The file keeps the chip id and the addresses: it stays within its limit, has each tag once, and
is read back to them, unless the platform hands out an address of its own at the time. -/
theorem fromFile_toFile (p p' : Platform) (cfg cfg' : AmlCfg) :
    ∃ written fp read, amlCfgToFile p cfg (some File.created) = (written, some fp) ∧
      amlCfgFromFile p' cfg' fp.rewind = (read, 0) ∧
      fp.content.length ≤ fbufMaxlen ∧
      (∀ tag ∈ tagNames, (fp.content.splitOn '\n').countP tag.isPrefixOf = 1) ∧
      read.chipidL = written.chipidL ∧ read.chipidH = written.chipidH &&& 0xffff ∧
      ((Platform.platformMac p'.wifiGetMac).isSome ∨
        read.vif0Mac = written.vif0Mac ∧ read.vif1Mac = written.vif1Mac ∧
          read.vif2Mac = written.vif2Mac) ∧
      written.Proper := by
  have written_eq : amlCfgToFile p cfg (some File.created) =
      (AmlCfg.setMacs { cfg with chipidL := p.efuse 0x8, chipidH := p.efuse 0x9 } (p.vif0Mac true),
        some (File.atEnd (fileText (AmlCfg.setMacs
          { cfg with chipidL := p.efuse 0x8, chipidH := p.efuse 0x9 } (p.vif0Mac true))))) := by
    rw [amlCfgToFile]
    simp only [Option.isSome_some, Option.map_some, stored_eq]
  obtain ⟨valid, global⟩ := vif0Mac_valid p
  have proper := proper_setMacs { cfg with chipidL := p.efuse 0x8, chipidH := p.efuse 0x9 } valid
    global
  generalize AmlCfg.setMacs { cfg with chipidL := p.efuse 0x8, chipidH := p.efuse 0x9 }
    (p.vif0Mac true) = written at written_eq proper
  have length := length_fileText written
  have short : (fileText written).length ≤ fbufMaxlen := by
    rw [length]
    decide
  have some_text : fileText written ≠ [] := by
    intro none
    rw [none] at length
    cases length
  refine ⟨written, _, (amlCfgFromFile p' cfg' (File.atEnd (fileText written)).rewind).1, written_eq,
    ?_, short, fun tag => count_tag written, ?_⟩
  · rw [amlCfgFromFile]
    dsimp only
    rw [rewind_read _ short, if_neg some_text]
    cases handed_out : Platform.platformMac p'.wifiGetMac with
    | some m => rfl
    | none => rfl
  · rw [amlCfgFromFile]
    dsimp only
    rw [rewind_read _ short, if_neg some_text, cString_fileText, chipidFromFile_fileText]
    cases handed_out : Platform.platformMac p'.wifiGetMac with
    | some m => exact ⟨rfl, rfl, .inl rfl, proper⟩
    | none =>
        dsimp only
        rw [macsFromFile_fileText proper]
        exact ⟨rfl, rfl, .inr ⟨rfl, rfl, rfl⟩, proper⟩

/-- A board whose efuse and whose platform have different addresses. -/
def twoAddresses : Platform where
  efuse := fun word => if word = 0x1 then 0x10112233 else if word = 0x2 then 0x1ca4 else 0
  drawn := Mac.zero
  wifiGetMac := some ⟨0x00, 0x1a, 0x11, 0x22, 0x33, 0x44⟩
  wifiGetMacRandom := none

/-- The address of the platform is taken in place of the one in the file. -/
theorem platform_replaces_file : ∃ written fp,
    amlCfgToFile twoAddresses ⟨0, 0, Mac.zero, Mac.zero, Mac.zero⟩ (some File.created) =
      (written, some fp) ∧
    (amlCfgFromFile twoAddresses written fp.rewind).1.vif0Mac ≠ written.vif0Mac := by
  refine ⟨_, _, rfl, ?_⟩
  decide +kernel

end AmlW2.Cfg
