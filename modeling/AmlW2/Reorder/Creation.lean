import AmlW2.Reorder.Safety
import Mathlib.Algebra.Ring.Nat
import Mathlib.Data.Nat.Log

/-!
# Creation of a session

`aml_reo_session_create` rounds the announced size up to a power of two, asserts the result, and
only then clamps the size.  This file gives the requests it serves as if the clamp came first: the
sizes from 1 to 4096 that either need no clamp or build no session.  Size 0 and the sizes above 4096
stop at an assertion, and the loop never exits above 32768, where its variable wraps to zero.
-/

namespace AmlW2.Reorder

variable {α : Type*}

/-! ## The window size -/

/-- From a power of two not above the least one that fits, the search ends at that one. -/
theorem findWinSize_eq_clog {sz fuel j : Nat} (le : j ≤ Nat.clog 2 sz)
    (small : Nat.clog 2 sz ≤ 15) (enough : Nat.clog 2 sz - j < fuel) :
    findWinSize sz fuel (2 ^ j) = some (2 ^ Nat.clog 2 sz) := by
  induction fuel generalizing j with
  | zero => omega
  | succ fuel induction =>
      rw [findWinSize]
      rcases Nat.lt_or_eq_of_le le with below | rfl
      · have shifted : 2 ^ j <<< 1 % 65536 = 2 ^ (j + 1) := by
          have bound : 2 ^ (j + 1) ≤ 2 ^ 15 := Nat.pow_le_pow_right (by omega) (by omega)
          rw [Nat.shiftLeft_eq, Nat.pow_one, ← Nat.pow_succ]
          exact Nat.mod_eq_of_lt (by omega)
        rw [if_pos (Nat.pow_lt_of_lt_clog below), shifted]
        exact induction (by omega) (by omega)
      · rw [if_neg (Nat.not_lt.mpr (Nat.le_pow_clog (by omega) sz))]

/-- Above 32768 the search passes zero and never ends. -/
theorem findWinSize_eq_none {sz : Nat} (large : 32768 < sz) (fuel : Nat) {win : Nat}
    (power : win = 0 ∨ ∃ j ≤ 15, win = 2 ^ j) : findWinSize sz fuel win = none := by
  induction fuel generalizing win with
  | zero => rfl
  | succ fuel induction =>
      have below : win < sz := by
        rcases power with rfl | ⟨j, j_le, rfl⟩
        · omega
        · have bound : 2 ^ j ≤ 2 ^ 15 := Nat.pow_le_pow_right (by omega) j_le
          omega
      rw [findWinSize, if_pos below]
      apply induction
      rcases power with rfl | ⟨j, j_le, rfl⟩
      · exact Or.inl rfl
      · rw [Nat.shiftLeft_eq, Nat.pow_one, ← Nat.pow_succ]
        rcases Nat.lt_or_eq_of_le j_le with lt | rfl
        · have bound : 2 ^ (j + 1) ≤ 2 ^ 15 := Nat.pow_le_pow_right (by omega) lt
          exact Or.inr ⟨j + 1, lt, Nat.mod_eq_of_lt (by omega)⟩
        · exact Or.inl rfl

/-- Half of the least power of two that fits does not fit, unless the size is zero. -/
theorem half_clog_lt {sz : Nat} (pos : 0 < sz) : 2 ^ Nat.clog 2 sz >>> 1 < sz := by
  rw [Nat.shiftRight_eq_div_pow, Nat.pow_one]
  rcases Nat.lt_or_eq_of_le (show 1 ≤ sz from pos) with two | rfl
  · have clog_pos := Nat.clog_pos (show 1 < 2 by omega) two
    have half : 2 ^ Nat.clog 2 sz = 2 ^ (Nat.clog 2 sz).pred * 2 := by
      rw [← Nat.pow_succ, Nat.succ_pred_eq_of_pos clog_pos]
    have below := Nat.pow_pred_clog_lt_self (show 1 < 2 by omega) two
    omega
  · rw [Nat.clog_one_right]
    omega

theorem clog_le_twelve {sz : Nat} (le : sz ≤ 4096) : Nat.clog 2 sz ≤ 12 :=
  Nat.clog_le_of_le_pow (by omega)

/-- The window size found for a size up to 4096. -/
theorem findWinSize_of_le {sz : Nat} (le : sz ≤ 4096) :
    findWinSize sz 17 1 = some (2 ^ Nat.clog 2 sz) := by
  have small := clog_le_twelve le
  exact findWinSize_eq_clog (Nat.zero_le _) (by omega) (by omega)

/-! ## The sizes of a session in place -/

/-- The two sizes of a session. -/
def Session.sizes (reo : Session α) : Nat × Nat := (reo.bufSize, reo.winSize)

@[simp] theorem Session.putSkb_sizes (reo : Session α) (index : Nat) (skb : Option (Mpdu α)) :
    (reo.putSkb index skb).sizes = reo.sizes := rfl

@[simp] theorem amlReoEntrySkbSet_sizes (now : Jiffies) (reo : Session α) (index : Nat)
    (skb : Mpdu α) : (amlReoEntrySkbSet now reo index skb).sizes = reo.sizes := rfl

@[simp] theorem giveUp_sizes (c : Ctx α) (index : Nat) :
    (giveUp c index).reo.sizes = c.reo.sizes := rfl

@[simp] theorem amlReoResetSsn_sizes (reo : Session α) (ssn : Nat) :
    (amlReoResetSsn reo ssn).sizes = reo.sizes := rfl

@[simp] theorem shiftFinish_sizes (c : Ctx α) (sn : Nat) :
    (shiftFinish c sn).reo.sizes = c.reo.sizes := rfl

@[simp] theorem amlReoDequeue_sizes (c : Ctx α) (skb : Mpdu α) (index : Nat) :
    (amlReoDequeue c skb index).1.reo.sizes = c.reo.sizes := by
  have dequeued := amlReoDequeue_dequeued c skb index
  exact Prod.ext dequeued.bufSize dequeued.winSize

@[simp] theorem popSlot_sizes (c : Ctx α) (index : Nat) :
    (popSlot c index).1.reo.sizes = c.reo.sizes := by
  rw [popSlot]
  split
  · exact amlReoDequeue_sizes _ _ _
  · rfl

theorem shiftPass_sizes (ssn : Nat) (c : Ctx α) (sn : Nat) :
    (shiftPass ssn c sn).1.reo.sizes = c.reo.sizes := by
  have popped := popSlot_sizes c (amlReoEntryIndex c.reo sn)
  rw [shiftPass]
  split
  · rename_i d taken
    rwa [taken] at popped
  · rename_i d missing
    rw [missing] at popped
    split
    · exact popped
    · exact popped

theorem shiftLoop_sizes (ssn fuel : Nat) (c : Ctx α) (sn : Nat) :
    (shiftLoop ssn fuel c sn).1.reo.sizes = c.reo.sizes := by
  induction fuel generalizing c sn with
  | zero => rfl
  | succ fuel induction =>
      have passed := shiftPass_sizes ssn c sn
      rw [shiftLoop]
      split
      · rename_i d goes
        rw [goes] at passed
        rw [induction, passed]
      · rename_i d stops
        rwa [stops] at passed

@[simp] theorem amlReoShiftTo_sizes (c : Ctx α) (ssn : Nat) :
    (amlReoShiftTo c ssn).reo.sizes = c.reo.sizes := by
  simp only [amlReoShiftTo, shiftFinish_sizes]
  exact shiftLoop_sizes ssn _ c _

@[simp] theorem amlReoForwardTo_sizes (c : Ctx α) (ssn : Nat) :
    (amlReoForwardTo c ssn).reo.sizes = c.reo.sizes := by
  rw [amlReoForwardTo]
  split
  · rfl
  split
  · rfl
  split
  · exact amlReoShiftTo_sizes c ssn
  · exact amlReoShiftTo_sizes c _

theorem makeRoom_sizes (c : Ctx α) (sn : Nat) : (makeRoom c sn).reo.sizes = c.reo.sizes := by
  rw [makeRoom]
  split
  · exact amlReoShiftTo_sizes _ _
  · rfl

theorem placeInWindow_sizes (now : Jiffies) (c : Ctx α) (skb : Mpdu α) :
    (placeInWindow now c skb).reo.sizes = c.reo.sizes := by
  have dequeued := amlReoDequeue_sizes c skb (amlReoEntryIndex c.reo skb.sn)
  simp only [placeInWindow]
  split
  · split <;> rfl
  split
  · split
    · rename_i d handed
      rw [handed] at dequeued
      exact (amlReoShiftTo_sizes _ _).trans dequeued
    · rename_i d failed
      rwa [failed] at dequeued
  · split <;> rfl

theorem enqueueInWindow_sizes (now : Jiffies) (c : Ctx α) (skb : Mpdu α) :
    (enqueueInWindow now c skb).reo.sizes = c.reo.sizes := by
  rw [enqueueInWindow]
  split
  · rfl
  · exact (placeInWindow_sizes now _ skb).trans (makeRoom_sizes c _)

theorem amlReoEnqueue_sizes {now : Jiffies} {c d : Ctx α} {skb : Mpdu α}
    (ran : amlReoEnqueue now c skb = .ok d) : d.reo.sizes = c.reo.sizes := by
  simp only [amlReoEnqueue] at ran
  split at ran
  · split at ran
    · cases ran
    · cases ran
      exact enqueueInWindow_sizes now _ skb
  · cases ran
    exact enqueueInWindow_sizes now _ skb

theorem amlReoAging_sizes {now : Jiffies} {c d : Ctx α} (ran : amlReoAging now c = .ok d) :
    d.reo.sizes = c.reo.sizes := by
  rw [amlReoAging] at ran
  split at ran
  · rw [amlReoEntryAging] at ran
    split at ran
    · cases ran
    split at ran
    · cases ran
      rfl
    split at ran
    · cases ran
      rfl
    split at ran
    · cases ran
    · cases ran
      exact amlReoShiftTo_sizes _ _
  · cases ran
    rfl

/-! ## Sound sizes over runs -/

/-- The window size is a power of two that the buffer size fits in. -/
structure SoundSizes (sizes : Nat × Nat) : Prop where
  win : ∃ k ≤ 12, sizes.2 = 2 ^ k
  buf_pos : 1 ≤ sizes.1
  buf_le_win : sizes.1 ≤ sizes.2

/-- The session in the place, if any, has sound sizes. -/
def Endpoint.Sized (e : Endpoint α) : Prop := ∀ reo, e.reo = some reo → SoundSizes reo.sizes

theorem Endpoint.sized_vacant : (Endpoint.vacant : Endpoint α).Sized := nofun

theorem Endpoint.sized_vacate (e : Endpoint α) (c : Ctx α) : (e.vacate c).Sized := nofun

theorem Endpoint.Sized.live {e : Endpoint α} (sized : e.Sized) {reo : Session α}
    (present : e.reo = some reo) {e' : Endpoint α} {c : Ctx α} (same : c.reo.sizes = reo.sizes) :
    (e'.live c).Sized := by
  intro reo' placed
  obtain rfl : c.reo = reo' := Option.some.inj placed
  rw [same]
  exact sized reo present

theorem Endpoint.Sized.step {e e' : Endpoint α} (sized : e.Sized) (event : Event α)
    (stepped : e.step event = .ok e') : e'.Sized := by
  rw [Endpoint.step] at stepped
  split at stepped
  · cases stepped
    exact sized
  rename_i reo present
  cases event with
  | enqueue now skb =>
      obtain ⟨d, ran, rfl⟩ := Run.map_eq_ok stepped
      exact sized.live present (amlReoEnqueue_sizes ran)
  | bar ssn =>
      cases stepped
      exact sized.live present (amlReoForwardTo_sizes _ _)
  | aging now =>
      obtain ⟨d, ran, rfl⟩ := Run.map_eq_ok stepped
      exact sized.live present (amlReoAging_sizes ran)
  | resetAll =>
      cases stepped
      exact sized.live present (amlReoForwardTo_sizes _ _)
  | addkey =>
      cases stepped
      exact sized.live present rfl
  | release =>
      cases stepped
      exact Endpoint.sized_vacate e _

/-! ## What the announced size leads to -/

/-- The largest buffer size of a station, `max_buf_sz`. -/
def maxBufSz (kernel : Kernel) (sta : Sta) : Nat :=
  if sta.he then kernel.maxAmpduBuf else maxAmpduBufHt

theorem clampBufSize_lt (kernel : Kernel) (he : Bool) (sz : Nat) :
    clampBufSize kernel he sz < 65536 := by
  have bounds := clampBufSize_bounds kernel he sz
  omega

/-- The request for the size after the clamps. -/
def CreateReq.clamped (kernel : Kernel) (sta : Sta) (req : CreateReq) : CreateReq :=
  { req with sz := ⟨clampBufSize kernel sta.he req.sz, clampBufSize_lt kernel sta.he req.sz⟩ }

theorem CreateReq.clamped_sz (kernel : Kernel) (sta : Sta) (req : CreateReq) :
    (req.clamped kernel sta).sz.val = clampBufSize kernel sta.he req.sz := rfl

/-- The clamps change no size in the range of the station. -/
theorem clampBufSize_of_le {kernel : Kernel} {sta : Sta} {sz : Nat} (pos : 1 ≤ sz)
    (le : sz ≤ maxBufSz kernel sta) : clampBufSize kernel sta.he sz = sz := by
  rw [maxBufSz] at le
  simp only [clampBufSize]
  rw [if_neg (by omega), if_neg (by omega)]

theorem clampBufSize_of_lt {kernel : Kernel} {sta : Sta} {sz : Nat}
    (lt : maxBufSz kernel sta < sz) : clampBufSize kernel sta.he sz = maxBufSz kernel sta := by
  rw [maxBufSz] at lt ⊢
  simp only [clampBufSize]
  rw [if_neg (by omega), if_pos lt]

theorem maxBufSz_pos (kernel : Kernel) (sta : Sta) : 1 ≤ maxBufSz kernel sta := by
  have pos := kernel.maxAmpduBuf_pos
  simp only [maxBufSz, maxAmpduBufHt]
  split <;> omega

theorem clampBufSize_idem (kernel : Kernel) (sta : Sta) (sz : Nat) :
    clampBufSize kernel sta.he (clampBufSize kernel sta.he sz) =
      clampBufSize kernel sta.he sz := by
  have pos := maxBufSz_pos kernel sta
  apply clampBufSize_of_le (clampBufSize_bounds kernel sta.he sz).1
  change (if sz < 1 then 1 else if maxBufSz kernel sta < sz then maxBufSz kernel sta else sz) ≤ _
  split_ifs <;> omega

/-- The part of `aml_reo_session_create` after the search, on the window size found. -/
def createWith (kernel : Kernel) (now : Jiffies) (req : CreateReq) (winSize : Nat)
    (e : Endpoint α) : Endpoint α × Bool :=
  match req.sta with
  | none => (e, false)
  | some sta =>
      if 8 ≤ req.tid.val ∨ maxSn < req.ssn then
        (e, false)
      else
        let sz := clampBufSize kernel sta.he req.sz
        let fresh := freshSession kernel now sz winSize req.ssn
        let build (e : Endpoint α) :=
          if req.allocated then ({ e with reo := some fresh }, true) else (e, false)
        match e.reo with
        | some reo =>
            if reo.bufSize = sz then
              (e.live (amlReoForwardTo (e.ctx reo) req.ssn), true)
            else
              build (e.vacate (amlReoSessionRelease (e.ctx reo)))
        | none => build e

theorem amlReoSessionCreate_eq_createWith {kernel : Kernel} {now : Jiffies} {req : CreateReq}
    (pos : 1 ≤ req.sz.val) (le : req.sz.val ≤ 4096) (e : Endpoint α) :
    amlReoSessionCreate kernel now req e =
      .ok (createWith kernel now req (2 ^ Nat.clog 2 req.sz) e) := by
  have half := half_clog_lt pos
  have small : 2 ^ Nat.clog 2 req.sz ≤ 2 ^ 12 :=
    Nat.pow_le_pow_right (by omega) (clog_le_twelve le)
  simp only [amlReoSessionCreate, findWinSize_of_le le, createWith]
  rw [if_neg (by omega), if_neg (by simp only [snModulo]; omega)]
  cases station : req.sta with
  | none => rfl
  | some sta =>
      by_cases tid : 8 ≤ req.tid.val
      · simp only [tid, true_or, if_true]
      by_cases ssn : maxSn < req.ssn.val
      · simp only [tid, ssn, or_true, if_true, if_false]
      simp only [tid, ssn, or_self, if_false]
      cases e.reo with
      | none => rfl
      | some reo =>
          simp only
          split <;> rfl

/-- Size zero and the sizes above 4096 do not return. -/
theorem amlReoSessionCreate_error {kernel : Kernel} {now : Jiffies} {req : CreateReq}
    (outside : ¬(1 ≤ req.sz.val ∧ req.sz.val ≤ 4096)) (e : Endpoint α) :
    ∃ fault, amlReoSessionCreate kernel now req e = .error fault := by
  rcases Nat.eq_zero_or_pos req.sz.val with zero | pos
  · refine ⟨.bug, ?_⟩
    simp [amlReoSessionCreate, zero, findWinSize]
  have large : 4096 < req.sz.val := by omega
  by_cases wraps : 32768 < req.sz.val
  · have endless : findWinSize req.sz 17 1 = none :=
      findWinSize_eq_none wraps 17 (Or.inr ⟨0, by omega, rfl⟩)
    refine ⟨.spin, ?_⟩
    simp only [amlReoSessionCreate, endless]
  · have small : Nat.clog 2 req.sz.val ≤ 15 := Nat.clog_le_of_le_pow (by omega)
    have found : findWinSize req.sz 17 1 = some (2 ^ Nat.clog 2 req.sz.val) :=
      findWinSize_eq_clog (Nat.zero_le _) small (by omega)
    have fits := Nat.le_pow_clog (show 1 < 2 by omega) req.sz.val
    have half := half_clog_lt pos
    refine ⟨.bug, ?_⟩
    simp only [amlReoSessionCreate, found]
    rw [if_neg (by omega), if_pos (by simp only [snModulo]; omega)]

/-- Clamping the size first changes what the rest of the function makes of one window size in no
way. -/
theorem createWith_clamped {kernel : Kernel} {now : Jiffies} {req : CreateReq} {sta : Sta}
    (station : req.sta = some sta) (winSize : Nat) (e : Endpoint α) :
    createWith kernel now (req.clamped kernel sta) winSize e =
      createWith kernel now req winSize e := by
  have same : (req.clamped kernel sta).sta = req.sta := rfl
  simp only [createWith, same, station, CreateReq.clamped_sz, clampBufSize_idem]
  rfl

/-- A session is built for the request if memory allows. -/
def CreateReq.Builds (kernel : Kernel) (req : CreateReq) (sta : Sta) (e : Endpoint α) : Prop :=
  req.tid.val < 8 ∧ req.allocated = true ∧
    ∀ reo, e.reo = some reo → reo.bufSize ≠ clampBufSize kernel sta.he req.sz

/-- The window size counts only where a session is built. -/
theorem createWith_winSize {kernel : Kernel} {now : Jiffies} {req : CreateReq} {sta : Sta}
    {e : Endpoint α} (station : req.sta = some sta) (kept : ¬req.Builds kernel sta e)
    (winSize winSize' : Nat) :
    createWith kernel now req winSize e = createWith kernel now req winSize' e := by
  simp only [createWith, station]
  by_cases refused : 8 ≤ req.tid.val ∨ maxSn < req.ssn.val
  · rw [if_pos refused, if_pos refused]
  rw [if_neg refused, if_neg refused]
  cases allocated : req.allocated with
  | false => simp
  | true =>
      have inPlace : ∃ reo, e.reo = some reo ∧
          reo.bufSize = clampBufSize kernel sta.he req.sz := by
        by_contra none_same
        exact kept ⟨by omega, allocated, fun reo present same => none_same ⟨reo, present, same⟩⟩
      obtain ⟨reo, present, same⟩ := inPlace
      simp only [present, same, if_true]

/-- Where a session is built, it has the clamped buffer size and the window size. -/
theorem createWith_built {kernel : Kernel} (now : Jiffies) {req : CreateReq} {sta : Sta}
    {e : Endpoint α} (station : req.sta = some sta) (ssn_le : req.ssn.val ≤ maxSn)
    (builds : req.Builds kernel sta e) (winSize : Nat) :
    (createWith kernel now req winSize e).2 = true ∧
      (createWith kernel now req winSize e).1.reo =
        some (freshSession kernel now (clampBufSize kernel sta.he req.sz) winSize req.ssn) := by
  obtain ⟨tid, allocated, other⟩ := builds
  simp only [createWith, station]
  rw [if_neg (by omega)]
  cases present : e.reo with
  | none =>
      simp only [allocated, if_true]
      exact ⟨trivial, trivial⟩
  | some reo =>
      simp only [if_neg (other reo present), allocated, if_true]
      exact ⟨trivial, trivial⟩

/-- The rest of the function leaves sound sizes in place, and where it succeeds a session of the
clamped size. -/
theorem createWith_sized {kernel : Kernel} {now : Jiffies} {req : CreateReq} {e : Endpoint α}
    (sized : e.Sized) {k : Nat} (k_le : k ≤ 12) (pos : 1 ≤ req.sz.val)
    (fits : req.sz.val ≤ 2 ^ k) : (createWith kernel now req (2 ^ k) e).1.Sized := by
  simp only [createWith]
  split
  · exact sized
  rename_i sta station
  split
  · exact sized
  have bounds := clampBufSize_bounds kernel sta.he req.sz
  have fresh : SoundSizes (freshSession kernel now (clampBufSize kernel sta.he req.sz) (2 ^ k)
      req.ssn : Session α).sizes :=
    ⟨⟨k, k_le, rfl⟩, bounds.1, show clampBufSize kernel sta.he req.sz ≤ 2 ^ k by omega⟩
  have placed : ∀ e' : Endpoint α, e'.reo = some (freshSession kernel now
      (clampBufSize kernel sta.he req.sz) (2 ^ k) req.ssn) → e'.Sized := by
    intro e' present reo same
    obtain rfl := Option.some.inj (present.symm.trans same)
    exact fresh
  split
  · rename_i reo present
    split
    · exact sized.live present (amlReoForwardTo_sizes _ _)
    split
    · exact placed _ rfl
    · exact Endpoint.sized_vacate e _
  · split
    · exact placed _ rfl
    · exact sized

/-- A station's request in range succeeds unless memory runs out. -/
theorem createWith_snd {kernel : Kernel} {now : Jiffies} {req : CreateReq} {sta : Sta}
    {e : Endpoint α} (station : req.sta = some sta) (ssn_le : req.ssn.val ≤ maxSn)
    (tid : req.tid.val < 8) (allocated : req.allocated = true) (winSize : Nat) :
    (createWith kernel now req winSize e).2 = true := by
  simp only [createWith, station]
  rw [if_neg (by omega)]
  cases e.reo with
  | none => simp only [allocated, if_true]
  | some reo =>
      by_cases same : reo.bufSize = clampBufSize kernel sta.he req.sz
      · simp only [if_pos same]
      · simp only [if_neg same, allocated, if_true]

/-- Success leaves a session of the clamped size. -/
theorem createWith_bufSize {kernel : Kernel} {now : Jiffies} {req : CreateReq} {sta : Sta}
    {e : Endpoint α} (station : req.sta = some sta) {winSize : Nat}
    (succeeded : (createWith kernel now req winSize e).2 = true) :
    ∃ reo, (createWith kernel now req winSize e).1.reo = some reo ∧
      reo.bufSize = clampBufSize kernel sta.he req.sz := by
  simp only [createWith, station] at succeeded ⊢
  by_cases refused : 8 ≤ req.tid.val ∨ maxSn < req.ssn.val
  · simp [refused] at succeeded
  rw [if_neg refused] at succeeded ⊢
  cases present : e.reo with
  | none =>
      cases allocated : req.allocated with
      | false => simp [present, allocated] at succeeded
      | true => exact ⟨_, rfl, rfl⟩
  | some reo =>
      simp only [present] at succeeded
      by_cases same : reo.bufSize = clampBufSize kernel sta.he req.sz
      · simp only [if_pos same]
        have sizes := amlReoForwardTo_sizes (e.ctx reo) req.ssn
        exact ⟨_, rfl, (congrArg Prod.fst sizes).trans same⟩
      · cases allocated : req.allocated with
        | false => simp [same, allocated] at succeeded
        | true =>
            simp only [if_neg same, if_true]
            exact ⟨_, rfl, rfl⟩

/-! ## Requests in a run -/

/-- What happens to the place of a station and traffic identifier. -/
inductive Op (α : Type*)
  | create (now : Jiffies) (req : CreateReq)
  | event (event : Event α)

/-- One operation on the place. -/
def Endpoint.serve (kernel : Kernel) (e : Endpoint α) : Op α → Except Fault (Endpoint α)
  | .create now req => (amlReoSessionCreate kernel now req e).map Prod.fst
  | .event event => e.step event

/-- What the creation of a session owes a request.  It returns, and what is in the place then has
sound sizes.  A station's request for one of its traffic identifiers succeeds unless memory runs
out, a success leaves a session of the clamped size, and clamping the size before the call makes no
difference. -/
def CreatesWell (kernel : Kernel) (now : Jiffies) (req : CreateReq) (e : Endpoint α) : Prop :=
  ∃ e' ok, amlReoSessionCreate kernel now req e = .ok (e', ok) ∧ e'.Sized ∧
    ∀ sta, req.sta = some sta →
      (req.tid.val < 8 → req.allocated = true → ok = true) ∧
      (ok = true → ∃ reo, e'.reo = some reo ∧
        reo.bufSize = clampBufSize kernel sta.he req.sz) ∧
      amlReoSessionCreate kernel now (req.clamped kernel sta) e = .ok (e', ok)

/-- The sizes served: 1 to 4096, and where a session is built none above the station's largest. -/
def SizeServed (kernel : Kernel) (req : CreateReq) (e : Endpoint α) : Prop :=
  (1 ≤ req.sz.val ∧ req.sz.val ≤ 4096) ∧
    ∀ sta, req.sta = some sta → req.tid.val < 8 → req.allocated = true →
      (∀ reo, e.reo = some reo → reo.bufSize ≠ maxBufSz kernel sta) →
      req.sz.val ≤ maxBufSz kernel sta

theorem amlReoSessionCreate_sized {kernel : Kernel} {now : Jiffies} {req : CreateReq}
    {e e' : Endpoint α} {ok : Bool} (sized : e.Sized)
    (ran : amlReoSessionCreate kernel now req e = .ok (e', ok)) : e'.Sized := by
  by_cases inside : 1 ≤ req.sz.val ∧ req.sz.val ≤ 4096
  · rw [amlReoSessionCreate_eq_createWith inside.1 inside.2] at ran
    have placed : (createWith kernel now req (2 ^ Nat.clog 2 req.sz) e).1.Sized :=
      createWith_sized sized (clog_le_twelve inside.2) inside.1
        (Nat.le_pow_clog (by omega) req.sz.val)
    rwa [Except.ok.inj ran] at placed
  · have stopped : ∃ fault, amlReoSessionCreate kernel now req e = .error fault :=
      amlReoSessionCreate_error inside e
    obtain ⟨fault, stopped⟩ := stopped
    rw [stopped] at ran
    cases ran

theorem Endpoint.Sized.serve {kernel : Kernel} {e e' : Endpoint α} (sized : e.Sized) (op : Op α)
    (served : e.serve kernel op = .ok e') : e'.Sized := by
  cases op with
  | create now req =>
      obtain ⟨⟨e'', ok⟩, ran, rfl⟩ := Run.map_eq_ok served
      exact amlReoSessionCreate_sized sized ran
  | event event => exact sized.step event served

/-- Sizes that round up to one power of two, one of them a power of two, are ordered. -/
theorem le_of_clog_eq {sz k : Nat} (same : 2 ^ Nat.clog 2 sz = 2 ^ Nat.clog 2 (2 ^ k)) :
    sz ≤ 2 ^ k := by
  rw [Nat.clog_pow 2 k (by omega)] at same
  rw [← same]
  exact Nat.le_pow_clog (by omega) sz

theorem maxBufSz_power {kernel : Kernel} (round : ∃ k, kernel.maxAmpduBuf = 2 ^ k) (sta : Sta) :
    ∃ k, maxBufSz kernel sta = 2 ^ k := by
  rw [maxBufSz]
  split
  · exact round
  · exact ⟨6, rfl⟩

/-- A request of a size in range is served the same with the size clamped first, exactly when no
session is built or no clamp was needed. -/
theorem create_clamped_iff {kernel : Kernel} (round : ∃ k, kernel.maxAmpduBuf = 2 ^ k)
    {now : Jiffies} {req : CreateReq} {sta : Sta} {e : Endpoint α}
    (station : req.sta = some sta) (ssn_le : req.ssn.val ≤ maxSn) (pos : 1 ≤ req.sz.val)
    (le : req.sz.val ≤ 4096) :
    amlReoSessionCreate kernel now (req.clamped kernel sta) e =
        amlReoSessionCreate kernel now req e ↔
      (req.Builds kernel sta e → req.sz.val ≤ maxBufSz kernel sta) := by
  have bounds := clampBufSize_bounds kernel sta.he req.sz
  have clamped := CreateReq.clamped_sz kernel sta req
  rw [amlReoSessionCreate_eq_createWith pos le,
    amlReoSessionCreate_eq_createWith (by omega) (by omega), createWith_clamped station, clamped,
    Except.ok.injEq]
  constructor
  · intro same builds
    by_contra above
    have largest := clampBufSize_of_lt (Nat.lt_of_not_le above)
    have first := (createWith_built now station ssn_le builds
      (2 ^ Nat.clog 2 (clampBufSize kernel sta.he req.sz))).2
    have second := (createWith_built now station ssn_le builds
      (2 ^ Nat.clog 2 req.sz.val)).2
    rw [same, second] at first
    have wins := congrArg Session.winSize (Option.some.inj first)
    obtain ⟨k, power⟩ := maxBufSz_power round sta
    rw [largest, power] at wins
    exact above (power ▸ le_of_clog_eq wins)
  · intro fits
    by_cases builds : req.Builds kernel sta e
    · rw [clampBufSize_of_le pos (fits builds)]
    · exact createWith_winSize station builds _ _

/-- After every run of creations and events, creation does what it owes to exactly the requests of
the sizes served. -/
theorem createsWell_iff_sizeServed {kernel : Kernel} (round : ∃ k, kernel.maxAmpduBuf = 2 ^ k)
    {ops : List (Op α)} {e : Endpoint α}
    (ran : Run.run (Endpoint.serve kernel) ops Endpoint.vacant = .ok e) (now : Jiffies)
    {req : CreateReq} (ssn_le : req.ssn.val ≤ maxSn) :
    CreatesWell kernel now req e ↔ SizeServed kernel req e := by
  have sized : e.Sized :=
    Run.invariant_of_run (fun _ op _ sized served => Endpoint.Sized.serve sized op served) ran
      Endpoint.sized_vacant
  constructor
  · rintro ⟨e', ok, created, _, same⟩
    have inside : 1 ≤ req.sz.val ∧ req.sz.val ≤ 4096 := by
      by_contra outside
      obtain ⟨fault, stopped⟩ := amlReoSessionCreate_error outside e
      rw [stopped] at created
      cases created
    refine ⟨inside, fun sta station tid allocated other => ?_⟩
    have agrees := (same sta station).2.2.trans created.symm
    by_contra above
    have largest := clampBufSize_of_lt (Nat.lt_of_not_le above)
    exact above ((create_clamped_iff round station ssn_le inside.1 inside.2).mp agrees
      ⟨tid, allocated, fun reo present => largest ▸ other reo present⟩)
  · rintro ⟨inside, fits⟩
    have created : amlReoSessionCreate kernel now req e =
        .ok (createWith kernel now req (2 ^ Nat.clog 2 req.sz) e) :=
      amlReoSessionCreate_eq_createWith inside.1 inside.2 e
    refine ⟨_, _, created, amlReoSessionCreate_sized sized created, fun sta station => ?_⟩
    refine ⟨fun tid allocated => createWith_snd station ssn_le tid allocated _,
      fun succeeded => createWith_bufSize station succeeded, ?_⟩
    refine Eq.trans ?_ created
    refine (create_clamped_iff round station ssn_le inside.1 inside.2).mpr ?_
    rintro ⟨tid, allocated, other⟩
    by_contra above
    have largest := clampBufSize_of_lt (Nat.lt_of_not_le above)
    exact above (fits sta station tid allocated fun reo present => largest ▸ other reo present)

/-- A session of the largest size replaces the one in place. -/
theorem createsWell_iff_sizeServed_addba :
    CreatesWell hz250 0 (addba 64) (opened 1 : Endpoint Unit) ↔
      SizeServed hz250 (addba 64) (opened 1 : Endpoint Unit) := by
  have ran : Run.run (Endpoint.serve hz250) [Op.create 0 (addba 1)] Endpoint.vacant =
      .ok (opened 1 : Endpoint Unit) := rfl
  exact createsWell_iff_sizeServed ⟨8, rfl⟩ ran 0 (Nat.zero_le _)

/-- A request announcing size zero stops at the first assertion although the
clamp for it follows. -/
theorem zero_size_stops :
    amlReoSessionCreate hz250 0 (addba 0) (Endpoint.vacant : Endpoint Unit) = .error .bug ∧
      ¬CreatesWell hz250 0 (addba 0) (Endpoint.vacant : Endpoint Unit) := by
  have stopped : amlReoSessionCreate hz250 0 (addba 0) (Endpoint.vacant : Endpoint Unit) =
      .error .bug := rfl
  refine ⟨stopped, ?_⟩
  rintro ⟨e', ok, created, _⟩
  rw [stopped] at created
  cases created

end AmlW2.Reorder
