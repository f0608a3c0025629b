import AmlW2.Reorder.Steps

/-!
# The window invariant over runs

A session made by `aml_reo_session_create` keeps the window invariant in every state of a run, and
no assertion fails, exactly when no MPDU half the number space ahead reaches a window of one slot.
-/

namespace AmlW2.Reorder

variable {α : Type*}

/-! ## The invariant as the driver relies on it -/

/-- Each occupied slot holds a frame of its own index strictly after the window start, not after
the last number and less than the buffer size ahead; the session ages exactly while it buffers. -/
structure WindowInvariant (reo : Session α) : Prop where
  slots : ∀ i < reo.winSize, ∀ skb, (reo.buf i).skb = some skb →
    amlReoEntryIndex reo skb.sn = i ∧ snLess reo.ssn skb.sn = true ∧
      snLess reo.lsn skb.sn = false ∧ snSub skb.sn reo.ssn < reo.bufSize
  start : (reo.buf (amlReoEntryIndex reo reo.ssn)).skb = none
  buffered : reo.lsn ≠ reo.ssn ↔ ∃ i < reo.winSize, (reo.buf i).skb ≠ none
  aging : reo.lsn ≠ reo.ssn ↔ reo.onAgingList = true

theorem Coherent.windowInvariant {reo : Session α} (coherent : Coherent reo) :
    WindowInvariant reo := by
  have span := coherent.span
  have buf_le := coherent.buf_le
  have ssn_lt := coherent.ssn_lt
  refine ⟨?slots, ?start, ?buffered, ?aging⟩
  case slots =>
    intro i i_lt skb occupied
    obtain ⟨o, o_lt, slot, held⟩ := held_of_slot coherent.toShape i_lt occupied
    obtain ⟨sn, o_pos, o_le⟩ := coherent.placed o skb held
    have last := coherent.lsn_eq
    refine ⟨?_, ?_, ?_, ?_⟩
    · rw [sn, coherent.index_snAdd, ← slot, coherent.index_eq, Nat.mod_add_mod]
    · rw [snLess_iff, sn]
      simp only [snSub, snAdd]
      omega
    · rw [← Bool.not_eq_true, snLess_iff, sn, last]
      simp only [snSub, snAdd] at span o_le ⊢
      omega
    · rw [sn, snSub_snAdd (by omega)]
      omega
  case start =>
    have zero := coherent.skb_eq_held 0
    rwa [snAdd, Nat.add_zero, Nat.mod_eq_of_lt ssn_lt, Nat.zero_mod, coherent.held_zero] at zero
  case buffered =>
    constructor
    · intro different
      obtain ⟨skb, held⟩ := coherent.last different
      have inside := Session.lt_winSize_of_held held
      rw [Session.held, if_pos inside] at held
      exact ⟨_, coherent.index_lt _, by rw [held]; exact Option.some_ne_none skb⟩
    · rintro ⟨i, i_lt, occupied⟩ same
      obtain ⟨skb, content⟩ := Option.ne_none_iff_exists'.mp occupied
      obtain ⟨o, _, _, held⟩ := held_of_slot coherent.toShape i_lt content
      rw [coherent.held_eq_none same] at held
      cases held
  case aging => rw [coherent.aging, amlReoHasBuffer_iff]

/-- Every session satisfies the window invariant. -/
def Endpoint.WindowInvariant (e : Endpoint α) : Prop :=
  ∀ reo, e.reo = some reo → Reorder.WindowInvariant reo

/-! ## The blind spot -/

/-- A shift towards a number half the number space ahead does not move an empty window. -/
theorem makeRoom_blindSpot {c : Ctx α} (coherent : Coherent c.reo) (size : c.reo.bufSize = 1)
    {sn : Nat} (sn_lt : sn < 4096) (distance : snSub sn c.reo.ssn = 2048) :
    SameWindow c (makeRoom c sn) := by
  have target : snSub sn (c.reo.bufSize - 1) = sn := by
    rw [size, snSub]
    omega
  have outside : snLess sn (c.reo.ssn + c.reo.bufSize) = false := by
    rw [← Bool.not_eq_true, snLess_iff, size]
    simp only [snSub] at distance ⊢
    omega
  have behind : snLess c.reo.ssn sn = false := by
    rw [← Bool.not_eq_true, snLess_iff]
    simp only [snSub] at distance ⊢
    omega
  rw [makeRoom, outside, Bool.not_false, if_pos rfl, target, amlReoShiftTo_stay]
  · exact ⟨⟨rfl, rfl, rfl, rfl, rfl, rfl, rfl, rfl⟩, rfl, rfl, rfl⟩
  · exact coherent.of_held rfl rfl rfl rfl rfl rfl rfl
  · exact behind

/-- A frame half the number space ahead of an empty window is buffered without moving the last
number. -/
theorem placeInWindow_blindSpot (now : Jiffies) {c : Ctx α} (coherent : Coherent c.reo)
    (empty : c.reo.lsn = c.reo.ssn) {skb : Mpdu α} (distance : snSub skb.sn c.reo.ssn = 2048) :
    (placeInWindow now c skb).reo.onAgingList = true ∧
      (placeInWindow now c skb).reo.lsn = (placeInWindow now c skb).reo.ssn := by
  have sn_lt := skb.sn.isLt
  have ssn_lt := coherent.ssn_lt
  have vacant : (c.reo.buf (amlReoEntryIndex c.reo skb.sn)).skb = none := by
    have held := coherent.skb_eq_held (snSub skb.sn c.reo.ssn)
    rwa [coherent.held_eq_none empty, snAdd_snSub sn_lt] at held
  have first : c.reo.stats.inBuffer + 1 = 1 := by
    rw [(coherent.flushed empty).inBuffer]
    rfl
  have other : skb.sn.val ≠ c.reo.ssn := by
    intro same
    rw [same, snSub] at distance
    omega
  have still : snLess c.reo.lsn skb.sn = false := by
    rw [← Bool.not_eq_true, snLess_iff, empty]
    simp only [snSub] at distance ⊢
    omega
  simp only [placeInWindow, vacant, if_neg other, amlReoEntrySkbSet, first, if_true, still,
    Bool.false_eq_true, if_false, amlReoSessionAddToAgingList]
  exact ⟨trivial, empty⟩

/-- An MPDU at the blind spot leaves a session that ages although its last number is the window
start. -/
theorem amlReoEnqueue_blindSpot (now : Jiffies) {c : Ctx α} (settled : Reorder.Settled c.reo)
    {skb : Mpdu α} (blind : BlindSpot c.reo skb.sn) :
    ∃ d, amlReoEnqueue now c skb = .ok d ∧ d.reo.onAgingList = true ∧ d.reo.lsn = d.reo.ssn := by
  obtain ⟨running, size, distance⟩ := blind
  have empty : c.reo.lsn = c.reo.ssn := by
    have span := settled.span
    have ssn_lt := settled.ssn_lt
    rw [size] at span
    rw [settled.lsn_eq, snAdd]
    omega
  have ahead : snLess skb.sn c.reo.ssn = false := by
    rw [← Bool.not_eq_true, snLess_iff]
    omega
  have coherent : Coherent { c.reo with stats.rx := c.reo.stats.rx + 1 } :=
    settled.toCoherent.of_held rfl rfl rfl rfl rfl rfl rfl
  have same := makeRoom_blindSpot (c := { c with
    reo := { c.reo with stats.rx := c.reo.stats.rx + 1 } }) coherent size skb.sn.isLt distance
  have still : snSub skb.sn (makeRoom { c with
      reo := { c.reo with stats.rx := c.reo.stats.rx + 1 } } skb.sn).reo.ssn = 2048 := by
    rw [same.ssn]
    exact distance
  refine ⟨_, ?_, placeInWindow_blindSpot now (same.coherent coherent) ?_ still⟩
  · simp only [amlReoEnqueue, running, Bool.false_eq_true, if_false, enqueueInWindow, ahead]
  · rw [same.lsn, same.ssn]
    exact empty

/-- A step at the blind spot breaks the window invariant. -/
theorem Endpoint.not_windowInvariant_of_blindSpot {e next : Endpoint α} {event : Event α}
    (settled : e.Settled) (blind : ¬OffBlindSpot e event) (stepped : e.step event = .ok next) :
    ¬next.WindowInvariant := by
  cases event with
  | enqueue now skb =>
      simp only [OffBlindSpot, not_forall, not_not] at blind
      obtain ⟨reo, present, blind⟩ := blind
      obtain ⟨d, ran, listed, stuck⟩ := amlReoEnqueue_blindSpot now (c := e.ctx reo)
        (settled reo present) blind
      rw [Endpoint.step, present] at stepped
      simp only [Endpoint.stepSession, ran, Except.map] at stepped
      cases stepped
      intro invariant
      exact (invariant d.reo rfl).aging.mpr listed stuck
  | bar | aging | resetAll | addkey | release => exact absurd trivial blind

/-! ## Creation -/

/-- The window size found fits the size, and is a power of two unless the variable overflowed. -/
theorem findWinSize_some {sz fuel win winSize : Nat}
    (found : findWinSize sz fuel win = some winSize)
    (power : win = 0 ∨ ∃ j < 16, win = 2 ^ j) :
    sz ≤ winSize ∧ (winSize = 0 ∨ ∃ j < 16, winSize = 2 ^ j) := by
  induction fuel generalizing win with
  | zero => cases found
  | succ fuel induction =>
      simp only [findWinSize] at found
      split at found
      · apply induction found
        rcases power with rfl | ⟨j, j_lt, rfl⟩
        · exact Or.inl rfl
        · rw [Nat.shiftLeft_eq, Nat.pow_one, ← Nat.pow_succ]
          rcases Nat.lt_or_eq_of_le (Nat.succ_le_of_lt j_lt) with lt | last
          · right
            refine ⟨j + 1, lt, Nat.mod_eq_of_lt ?_⟩
            exact Nat.pow_lt_pow_right (by omega) (show j + 1 < 16 from lt)
          · left
            rw [last]
      · cases found
        exact ⟨by omega, power⟩

theorem clampBufSize_bounds (kernel : Kernel) (he : Bool) (sz : Nat) :
    0 < clampBufSize kernel he sz ∧ clampBufSize kernel he sz ≤ max 1 sz ∧
      clampBufSize kernel he sz ≤ 1024 := by
  have pos := kernel.maxAmpduBuf_pos
  have le := kernel.maxAmpduBuf_le
  cases he <;> simp only [clampBufSize, maxAmpduBufHt] <;> split_ifs <;> omega

/-- A new session buffers nothing. -/
theorem freshSession_flushed {kernel : Kernel} {now : Jiffies} {bufSize winSize ssn : Nat}
    (win : ∃ k ≤ 12, winSize = 2 ^ k) (buf_pos : 0 < bufSize) (buf_le_win : bufSize ≤ winSize)
    (buf_le : bufSize ≤ 1024) (ssn_lt : ssn < 4096) :
    Flushed (freshSession kernel now bufSize winSize ssn : Session α) where
  win := win
  buf_pos := buf_pos
  buf_le_win := buf_le_win
  buf_le := buf_le
  ssn_lt := ssn_lt
  lsn_lt := ssn_lt
  held := by
    intro o
    rw [Session.held]
    split <;> rfl
  lsn := rfl
  inBuffer := rfl
  aging := rfl

/-- The session made by `aml_reo_session_create`. -/
theorem Created.fresh {kernel : Kernel} {now : Jiffies} {req : CreateReq} {e : Endpoint α}
    (created : Created kernel now req e) :
    ∃ reo, e = { Endpoint.vacant with reo := some reo } ∧ Flushed reo ∧ reo.reset = false ∧
      reo.pnState = (false, 0) ∧ ∀ slot, reo.delivered slot = false := by
  simp only [Created, amlReoSessionCreate] at created
  cases found : findWinSize req.sz 17 1 with
  | none => simp [found] at created
  | some winSize =>
      obtain ⟨sz_le, power⟩ := findWinSize_some found (Or.inr ⟨0, by omega, rfl⟩)
      simp only [found] at created
      split at created
      · cases created
      rename_i fits
      split at created
      · cases created
      rename_i small
      split at created
      · cases created
      split at created
      · cases created
      split at created
      · cases created
      rename_i sta _ _ ssn_le
      simp only [Endpoint.vacant] at created
      split at created
      · cases created
        obtain ⟨pos, le_sz, le⟩ := clampBufSize_bounds kernel sta.he req.sz
        simp only [snModulo, maxSn] at small ssn_le
        refine ⟨_, rfl, freshSession_flushed ?_ pos ?_ le ?_, rfl, rfl, fun _ => rfl⟩
        · rcases power with zero | ⟨k, _, size⟩
          · omega
          · refine ⟨k, ?_, size⟩
            by_contra large
            have : 2 ^ 13 ≤ 2 ^ k := Nat.pow_le_pow_right (by omega) (by omega)
            omega
        · omega
        · omega
      · cases created

theorem Created.settled {kernel : Kernel} {now : Jiffies} {req : CreateReq} {e : Endpoint α}
    (created : Created kernel now req e) : e.Settled := by
  obtain ⟨reo, rfl, flushed, running, _⟩ := created.fresh
  intro reo' same
  cases same
  exact ⟨flushed.coherent rfl rfl rfl flushed.ssn_lt flushed.lsn rfl rfl, fun _ => flushed.lsn⟩

/-! ## Runs -/

/-- From creation on, no assertion fails and the window invariant holds after every event, exactly
when no event is at the blind spot. -/
theorem run_safe_iff_offBlindSpot {kernel : Kernel} {now : Jiffies} {req : CreateReq}
    {e : Endpoint α} (created : Created kernel now req e) (events : List (Event α)) :
    Run.Safe Endpoint.step Endpoint.WindowInvariant events e ↔
      Run.Guarded Endpoint.step OffBlindSpot events e :=
  Run.safe_iff_guarded Endpoint.step_settled
    (fun _ settled reo present => (settled reo present).toCoherent.windowInvariant)
    (fun _ _ _ => Endpoint.not_windowInvariant_of_blindSpot) created.settled

/-- A kernel with 250 ticks a second and the buffer size of high-efficiency stations. -/
def hz250 : Kernel where
  maxAmpduBuf := 256
  maxAmpduBuf_pos := by omega
  maxAmpduBuf_le := by omega
  usecsToJiffies us := BitVec.ofNat 64 ((us + 3999) / 4000)

/-- A request for a session of the given size. -/
def addba (sz : Fin 65536) : CreateReq := ⟨some ⟨false⟩, 0, sz, 0, true⟩

/-- The place after such a request, for a size that is a power of two. -/
def opened (sz : Nat) : Endpoint α :=
  { Endpoint.vacant with reo := some (freshSession hz250 0 sz sz 0) }

/-- MPDUs of the given numbers, without packet numbers. -/
def arrivals (now : Jiffies) (sns : List (Fin 4096)) : List (Event Unit) :=
  sns.map fun sn => .enqueue now ⟨sn, false, 0, ()⟩

theorem run_safe_iff_offBlindSpot_opened :
    Run.Safe Endpoint.step Endpoint.WindowInvariant
        [.enqueue 0 ⟨2, false, 0, ()⟩, .enqueue 0 ⟨2048, false, 0, ()⟩, .aging 60, .release]
        (opened 1) ↔
      Run.Guarded Endpoint.step OffBlindSpot
        [.enqueue 0 ⟨2, false, 0, ()⟩, .enqueue 0 ⟨2048, false, 0, ()⟩, .aging 60, .release]
        (opened 1) :=
  run_safe_iff_offBlindSpot (show Created hz250 0 (addba 1) (opened 1) from rfl) _

/-- With a buffer of one slot, an MPDU half the number space ahead breaks the window invariant and
the next aging scan stops at its assertion. -/
theorem blindSpot_reaches_bug :
    Created hz250 0 (addba 1) (opened 1 : Endpoint Unit) ∧
      ¬Run.Safe Endpoint.step Endpoint.WindowInvariant
        [.enqueue 0 ⟨2048, false, 0, ()⟩] (opened 1) ∧
      Endpoint.run [.enqueue 0 ⟨2048, false, 0, ()⟩, .aging 1] (opened 1) = .error .bug := by
  refine ⟨rfl, ?_, rfl⟩
  intro safe
  obtain ⟨next, ran, invariant⟩ := safe _ [] (List.append_nil _).symm
  cases ran
  exact (invariant _ rfl).aging.mpr rfl rfl

theorem opened_eight_wide : (opened 8 : Endpoint α).Wide := by
  refine ⟨(show Created hz250 0 (addba 8) (opened 8) from rfl).settled, ?_⟩
  intro reo same
  cases same
  exact show 2 ≤ 8 by omega

end AmlW2.Reorder
