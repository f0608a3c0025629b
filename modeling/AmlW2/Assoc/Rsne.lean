import Mathlib.Order.Basic
import AmlW2.Lib.Memory

/-!
# The element that tells how a network is secured

`aml_rsne_to_connect_params` of `aml_main.c` takes from an RSN element what a connection request
needs.  The element is a group cipher, a list of pairwise ciphers, a list of key managements, the
capabilities, a list of keys and a cipher for the management frames of the group; each list has its
count in front, and the element may end behind any field.
-/

namespace AmlW2.Assoc

/-- `enum nl80211_mfp` -/
inductive Mfp where
  | no
  | required
  | optional
  deriving DecidableEq, Repr

/-- What the parser sets of `struct cfg80211_connect_params`. -/
structure ConnectParams where
  controlPortNoEncrypt : Bool
  controlPort : Bool
  controlPortEthertype : Nat
  cipherGroup : Nat
  nCiphersPairwise : Nat
  /-- `ciphers_pairwise[0]` -/
  cipherPairwise : Nat
  mfp : Mfp
  deriving DecidableEq, Repr

/-- The parameters as the caller clears them. -/
def ConnectParams.cleared : ConnectParams where
  controlPortNoEncrypt := false
  controlPort := false
  controlPortEthertype := 0
  cipherGroup := 0
  nCiphersPairwise := 0
  cipherPairwise := 0
  mfp := .no

/-- `ntohl` of the word at `p`: the number of a suite. -/
def ntohl (m : Memory) (p : Nat) : Nat :=
  256 * (256 * (256 * (m p).toNat + (m (p + 1)).toNat) + (m (p + 2)).toNat) + (m (p + 3)).toNat

/-- What the parser returns, sets and reads: each read with its position and its size. -/
structure RsneResult where
  ret : Nat
  sme : ConnectParams
  reads : List (Nat × Nat)
  deriving DecidableEq, Repr

/-- `aml_rsne_to_connect_params` -/
def amlRsneToConnectParams (data : Memory) (datalen : Nat) (sme : ConnectParams) : RsneResult :=
  if datalen < 8 then ⟨1, sme, []⟩
  else
    let sme := { sme with
      controlPortNoEncrypt := false
      controlPort := true
      controlPortEthertype := 0x888e
      cipherGroup := ntohl data 2 }
    let clen := data.u16 6 * 4
    let len := datalen - 8
    let reads := [(2, 4), (6, 2)]
    if len < clen + 2 then ⟨1, sme, reads⟩
    else
      let sme := { sme with nCiphersPairwise := 1, cipherPairwise := ntohl data 8 }
      let reads := reads ++ [(8, 4)]
      let pos := 8 + clen
      let len := len - clen
      let clen := data.u16 pos * 4
      let reads := reads ++ [(pos, 2)]
      let pos := pos + 2
      let len := len - 2
      if len < clen then ⟨1, sme, reads⟩
      else
        let pos := pos + clen
        let len := len - clen
        if len < 4 then ⟨0, sme, reads⟩
        else
          let pos := pos + 2
          let clen := data.u16 pos * 16
          let reads := reads ++ [(pos, 2)]
          let len := len - 4
          if clen < len then ⟨0, { sme with mfp := .required }, reads⟩ else ⟨0, sme, reads⟩

/-! ## The fields of the element -/

/-- Where the count of the key managements is. -/
def akmAt (data : Memory) : Nat := 8 + 4 * data.u16 6

/-- Where the two lists of suites end. -/
def suitesEnd (data : Memory) : Nat := akmAt data + 2 + 4 * data.u16 (akmAt data)

/-- Where the list of keys ends, behind the capabilities and its own count. -/
def pmkidEnd (data : Memory) : Nat := suitesEnd data + 4 + 16 * data.u16 (suitesEnd data + 2)

/-- The first pairwise cipher, of an element that has one. -/
def firstPairwise (data : Memory) : Option Nat :=
  if data.u16 6 = 0 then none else some (ntohl data 8)

/-- What the parser tells is what the element says. -/
structure RsneResult.Faithful (r : RsneResult) (data : Memory) (datalen : Nat) : Prop where
  reads : ∀ read ∈ r.reads, read.1 + read.2 ≤ datalen
  suites : r.ret = 0 → suitesEnd data ≤ datalen
  group : r.ret = 0 → r.sme.cipherGroup = ntohl data 2
  pairwise : r.ret = 0 → r.sme.nCiphersPairwise = 1 ∧
    firstPairwise data = some r.sme.cipherPairwise
  mfp : r.ret = 0 → (r.sme.mfp = .required ↔ pmkidEnd data + 4 ≤ datalen)

/-- An element that has a pairwise cipher, or else is refused with the bytes of one still in it, and
that ends behind the list of keys with a whole cipher or with nothing. -/
def Regular (data : Memory) (datalen : Nat) : Prop :=
  (data.u16 6 = 0 → 10 ≤ datalen → 12 ≤ datalen ∧ datalen < suitesEnd data) ∧
    (suitesEnd data ≤ datalen → datalen ≤ pmkidEnd data ∨ pmkidEnd data + 4 ≤ datalen)

theorem suitesEnd_eq (data : Memory) :
    suitesEnd data = 10 + 4 * data.u16 6 + 4 * data.u16 (8 + data.u16 6 * 4) := by
  unfold suitesEnd akmAt
  rw [Nat.mul_comm 4 (data.u16 6)]
  omega

theorem pmkidEnd_eq (data : Memory) :
    pmkidEnd data = suitesEnd data + 4 + 16 * data.u16 (suitesEnd data + 2) := rfl

theorem firstPairwise_of_pos {data : Memory} (some_cipher : data.u16 6 ≠ 0) :
    firstPairwise data = some (ntohl data 8) := if_neg some_cipher

/-- An element that is refused need only have been read inside. -/
theorem faithful_of_refused {sme : ConnectParams} {reads : List (Nat × Nat)} {data : Memory}
    {datalen : Nat} (inside : ∀ read ∈ reads, read.1 + read.2 ≤ datalen) :
    RsneResult.Faithful ⟨1, sme, reads⟩ data datalen where
  reads := inside
  suites refused := by cases refused
  group refused := by cases refused
  pairwise refused := by cases refused
  mfp refused := by cases refused

/-- An element that is taken has a pairwise cipher and tells of one for management frames. -/
theorem faithful_iff_of_taken {sme : ConnectParams} {reads : List (Nat × Nat)} {data : Memory}
    {datalen : Nat} (suites : suitesEnd data ≤ datalen)
    (inside : data.u16 6 ≠ 0 → ∀ read ∈ reads, read.1 + read.2 ≤ datalen)
    (group : sme.cipherGroup = ntohl data 2)
    (pairwise : sme.nCiphersPairwise = 1 ∧ sme.cipherPairwise = ntohl data 8) :
    RsneResult.Faithful ⟨0, sme, reads⟩ data datalen ↔
      data.u16 6 ≠ 0 ∧ (sme.mfp = .required ↔ pmkidEnd data + 4 ≤ datalen) := by
  constructor
  · intro faithful
    refine ⟨fun no_cipher => ?_, faithful.mfp rfl⟩
    have first := (faithful.pairwise rfl).2
    rw [firstPairwise, if_pos no_cipher] at first
    cases first
  · rintro ⟨some_cipher, mfp⟩
    refine ⟨inside some_cipher, fun _ => suites, fun _ => group, fun _ => ⟨pairwise.1, ?_⟩,
      fun _ => mfp⟩
    rw [firstPairwise_of_pos some_cipher, ← pairwise.2]

/-- The parser is faithful to exactly the regular elements. -/
theorem amlRsneToConnectParams_faithful_iff (data : Memory) (datalen : Nat) :
    (amlRsneToConnectParams data datalen .cleared).Faithful data datalen ↔
      Regular data datalen := by
  have suites := suitesEnd_eq data
  have keys := pmkidEnd_eq data
  unfold Regular
  simp only [amlRsneToConnectParams]
  split_ifs with short cut_pairwise cut_akm no_keys more
  · exact iff_of_true (faithful_of_refused (by simp)) ⟨by omega, by omega⟩
  · refine iff_of_true (faithful_of_refused ?_) ⟨by omega, by omega⟩
    simp
    omega
  · constructor
    · intro faithful
      have first := faithful.reads (8, 4) (by simp)
      exact ⟨by omega, by omega⟩
    · intro regular
      apply faithful_of_refused
      simp
      omega
  · rw [faithful_iff_of_taken (by omega) (by simp; omega) rfl ⟨rfl, rfl⟩]
    have cleared : ConnectParams.cleared.mfp ≠ .required := by decide
    simp only [cleared, false_iff]
    omega
  · have at_keys : 8 + data.u16 6 * 4 + 2 + data.u16 (8 + data.u16 6 * 4) * 4 + 2 =
        suitesEnd data + 2 := by omega
    rw [at_keys] at more
    rw [faithful_iff_of_taken (by omega) (by simp; omega) rfl ⟨rfl, rfl⟩]
    simp only [true_iff]
    omega
  · have at_keys : 8 + data.u16 6 * 4 + 2 + data.u16 (8 + data.u16 6 * 4) * 4 + 2 =
        suitesEnd data + 2 := by omega
    rw [at_keys] at more
    rw [faithful_iff_of_taken (by omega) (by simp; omega) rfl ⟨rfl, rfl⟩]
    have cleared : ConnectParams.cleared.mfp ≠ .required := by decide
    simp only [cleared, false_iff]
    omega

/-- An element of ten bytes with a group cipher and two empty lists. -/
def emptyLists : Memory := fun i => [1, 0, 0x00, 0x0f, 0xac, 0x04, 0, 0, 0, 0].getD i 0

/-- The element is taken, with a pairwise cipher of two bytes that it has and two behind it. -/
theorem emptyLists_not_faithful :
    (amlRsneToConnectParams emptyLists 10 .cleared).ret = 0 ∧
      (8, 4) ∈ (amlRsneToConnectParams emptyLists 10 .cleared).reads ∧
      ¬(amlRsneToConnectParams emptyLists 10 .cleared).Faithful emptyLists 10 := by
  have taken : (amlRsneToConnectParams emptyLists 10 .cleared).ret = 0 ∧
      (8, 4) ∈ (amlRsneToConnectParams emptyLists 10 .cleared).reads := by decide
  exact ⟨taken.1, taken.2, fun faithful => absurd (faithful.reads (8, 4) taken.2) (by decide)⟩

end AmlW2.Assoc
