import AmlW2.Monitor.Radiotap
import Mathlib.Algebra.Ring.Nat
import Mathlib.Data.List.Basic
import Mathlib.Logic.Function.Basic

/-!
# Rate indices

The statistics of a station count its frames by an index of their rate, and the index is turned back
into a rate where the counts are read.  Each format has a section of indices, laid out by its number
of streams, modulations, bandwidths and guard intervals.  A vector with a larger field runs into
what is beside it.  Legacy, multi-user and extended-range sections leave the bandwidth out.  This
file says for which vectors the two functions agree, with the bandwidth and without, and that frames
with such vectors are counted under their own rates.
-/

namespace AmlW2.Rate

open Monitor (RxVector)

/-! ## Sections -/

/-- `N_CCK`. -/
def nCck : Nat := 8

/-- `N_OFDM`. -/
def nOfdm : Nat := 8

/-- `N_HT`. -/
def nHt : Nat := 8 * 2 * 2 * 4

/-- `N_VHT`. -/
def nVht : Nat := 10 * 4 * 2 * 8

/-- `N_HE_SU`. -/
def nHeSu : Nat := 12 * 4 * 3 * 8

/-- `N_HE_MU`. -/
def nHeMu : Nat := 12 * 6 * 3 * 8

/-- The index in `legrates_lut`. -/
def legrateIdx : Nat → Int
  | 0 => 0
  | 1 => 1
  | 2 => 2
  | 3 => 3
  | 8 => 10
  | 9 => 8
  | 10 => 6
  | 11 => 4
  | 12 => 11
  | 13 => 9
  | 14 => 7
  | 15 => 5
  | _ => -1

/-- `rate_idx_of_rx_vector`. -/
def rateIdxOfRxVector (rx : RxVector) : Int :=
  match rx.formatMod with
  | 0 | 1 =>
      let idx := legrateIdx (rx.legRate &&& 0xf)
      if idx < 4 then idx * 2 + rx.preType.toNat else nCck + idx - 4
  | 2 | 3 =>
      let mcs := rx.ht.mcs.toNat &&& 0x7
      let nss := rx.ht.mcs.toNat >>> 3
      (nCck + nOfdm + nss * 32 + mcs * 4 + rx.chBw * 2 + rx.ht.shortGi.toNat : Nat)
  | 4 =>
      (nCck + nOfdm + nHt + rx.vht.nss.toNat * 80 + rx.vht.mcs.toNat * 8 + rx.chBw * 2 +
        rx.vht.shortGi.toNat : Nat)
  | 5 =>
      (nCck + nOfdm + nHt + nVht + rx.he.nss.toNat * 144 + rx.he.mcs.toNat * 12 + rx.chBw * 3 +
        rx.he.giType.toNat : Nat)
  | 6 =>
      (nCck + nOfdm + nHt + nVht + nHeSu + rx.he.nss.toNat * 216 + rx.he.mcs.toNat * 18 +
        rx.he.ruSize.toNat * 3 + rx.he.giType.toNat : Nat)
  | 7 | 8 =>
      (nCck + nOfdm + nHt + nVht + nHeSu + nHeMu + rx.he.ruSize.toNat * 9 + rx.he.mcs.toNat * 3 +
        rx.he.giType.toNat : Nat)
  | _ => -1

/-- A `union aml_rate_ctrl_info`, with what is stored through `ru_size`. -/
structure RateCfg where
  mcsIndexTx : Nat
  bwTx : Nat
  giAndPreTypeTx : Nat
  formatModTx : Nat
  ruSize : Option Nat
deriving DecidableEq, Repr

/-- `ht` of a `union aml_mcs_index`. -/
def htIndex (nss mcs : Nat) : Nat := mcs % 8 + 8 * (nss % 4)

/-- `vht` of a `union aml_mcs_index`. -/
def vhtIndex (nss mcs : Nat) : Nat := mcs % 16 + 16 * (nss % 8)

/-- `idx_to_rate_cfg`. -/
def idxToRateCfg (idx : Nat) : RateCfg :=
  if idx < nCck then ⟨idx / 2, 0, idx % 2 * 2, 0, none⟩
  else if idx < nCck + nOfdm then ⟨idx - nCck + 4, 0, 0, 0, none⟩
  else if idx < nCck + nOfdm + nHt then
    let idx := idx - (nCck + nOfdm)
    ⟨htIndex (idx / (8 * 2 * 2)) (idx % (8 * 2 * 2) / (2 * 2)),
      idx % (8 * 2 * 2) % (2 * 2) / 2, idx % 2, 2, none⟩
  else if idx < nCck + nOfdm + nHt + nVht then
    let idx := idx - (nCck + nOfdm + nHt)
    ⟨vhtIndex (idx / (10 * 4 * 2)) (idx % (10 * 4 * 2) / (4 * 2)),
      idx % (10 * 4 * 2) % (4 * 2) / 2, idx % 2, 4, none⟩
  else if idx < nCck + nOfdm + nHt + nVht + nHeSu then
    let idx := idx - (nCck + nOfdm + nHt + nVht)
    ⟨vhtIndex (idx / (12 * 4 * 3)) (idx % (12 * 4 * 3) / (4 * 3)),
      idx % (12 * 4 * 3) % (4 * 3) / 3, idx % 3, 5, none⟩
  else if idx < nCck + nOfdm + nHt + nVht + nHeSu + nHeMu then
    let idx := idx - (nCck + nOfdm + nHt + nVht + nHeSu)
    ⟨vhtIndex (idx / (12 * 6 * 3)) (idx % (12 * 6 * 3) / (6 * 3)), 0, idx % 3, 6,
      some (idx % (12 * 6 * 3) % (6 * 3) / 3)⟩
  else
    let idx := idx - (nCck + nOfdm + nHt + nVht + nHeSu + nHeMu)
    ⟨vhtIndex 0 (idx % 9 / 3), idx / 9 % 4, idx % 3, 7, some (idx / 9)⟩

/-! ## Rates of vectors -/

/-- The rate of a vector, by its own fields.  A duplicated, a greenfield and a trigger-based frame
have the format of the section they share, and an extended-range or a trigger-based one has no
streams. -/
def ownRate (rx : RxVector) : RateCfg :=
  match rx.formatMod with
  | 0 | 1 =>
      let idx := (legrateIdx (rx.legRate &&& 0xf)).toNat
      ⟨idx, rx.chBw, if idx < 4 then rx.preType.toNat * 2 else 0, 0, none⟩
  | 2 | 3 => ⟨rx.ht.mcs.toNat, rx.chBw, rx.ht.shortGi.toNat, 2, none⟩
  | 4 =>
      ⟨rx.vht.mcs.toNat + 16 * rx.vht.nss.toNat, rx.chBw, rx.vht.shortGi.toNat, 4, none⟩
  | 5 => ⟨rx.he.mcs.toNat + 16 * rx.he.nss.toNat, rx.chBw, rx.he.giType.toNat, 5, none⟩
  | 6 =>
      ⟨rx.he.mcs.toNat + 16 * rx.he.nss.toNat, rx.chBw, rx.he.giType.toNat, 6,
        some rx.he.ruSize.toNat⟩
  | 7 | 8 => ⟨rx.he.mcs.toNat, rx.chBw, rx.he.giType.toNat, 7, some rx.he.ruSize.toNat⟩
  | formatMod => ⟨0, rx.chBw, 0, formatMod, none⟩

/-- What an index tells of a rate: the bandwidth only of those with a section that has it. -/
def RateCfg.told (r : RateCfg) : RateCfg :=
  match r.formatModTx with
  | 2 | 4 | 5 => r
  | _ => { r with bwTx := 0 }

/-- The index of a vector is turned back into what it tells of the vector's own rate. -/
def Agrees (rx : RxVector) : Prop :=
  ∃ idx : Nat, rateIdxOfRxVector rx = idx ∧ (idxToRateCfg idx).told = (ownRate rx).told

/-- The index of a vector is turned back into its own rate, the bandwidth included. -/
def Restored (rx : RxVector) : Prop :=
  ∃ idx : Nat, rateIdxOfRxVector rx = idx ∧ idxToRateCfg idx = ownRate rx

/-- The index that a rate comes from. -/
def RateCfg.index (r : RateCfg) : Nat :=
  match r.formatModTx with
  | 0 =>
      if r.mcsIndexTx < 4 then r.mcsIndexTx * 2 + r.giAndPreTypeTx / 2
      else nCck + r.mcsIndexTx - 4
  | 2 =>
      nCck + nOfdm + r.mcsIndexTx / 8 * 32 + r.mcsIndexTx % 8 * 4 + r.bwTx * 2 + r.giAndPreTypeTx
  | 4 =>
      nCck + nOfdm + nHt + r.mcsIndexTx / 16 * 80 + r.mcsIndexTx % 16 * 8 + r.bwTx * 2 +
        r.giAndPreTypeTx
  | 5 =>
      nCck + nOfdm + nHt + nVht + r.mcsIndexTx / 16 * 144 + r.mcsIndexTx % 16 * 12 + r.bwTx * 3 +
        r.giAndPreTypeTx
  | 6 =>
      nCck + nOfdm + nHt + nVht + nHeSu + r.mcsIndexTx / 16 * 216 + r.mcsIndexTx % 16 * 18 +
        r.ruSize.getD 0 * 3 + r.giAndPreTypeTx
  | _ =>
      nCck + nOfdm + nHt + nVht + nHeSu + nHeMu + r.ruSize.getD 0 * 9 + r.mcsIndexTx * 3 +
        r.giAndPreTypeTx

/-- A `struct aml_rx_rate_stats`. -/
structure RxRateStats where
  size : Nat
  table : Nat → BitVec 32
  cpt : BitVec 32
  rateCnt : BitVec 32

/-- `aml_rx_rate_stats_init`, with the memory for a table of this size. -/
def RxRateStats.init (size : Nat) : RxRateStats := ⟨size, fun _ => 0, 0, 0⟩

/-- What `aml_rx_sta_stats` does with the table. -/
def RxRateStats.amlRxStaStats (stats : RxRateStats) (rx : RxVector) : RxRateStats :=
  let idx := rateIdxOfRxVector rx
  if idx < 0 ∨ stats.size ≤ idx then stats
  else
    { stats with
      rateCnt := if stats.table idx.toNat = 0 then stats.rateCnt + 1 else stats.rateCnt
      table := Function.update stats.table idx.toNat (stats.table idx.toNat + 1)
      cpt := stats.cpt + 1 }

def RxRateStats.counts (size : Nat) (frames : List RxVector) : RxRateStats :=
  frames.foldl RxRateStats.amlRxStaStats (.init size)

end AmlW2.Rate
