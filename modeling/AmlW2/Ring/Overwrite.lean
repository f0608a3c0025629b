import AmlW2.Ring.Dataind
import AmlW2.Ring.Geometry

/-!
# Reads into the host's buffer

A fetch writes into the host's buffer what the bus reads, in whole blocks, and a short carried
fragment it moves.  As long as the third read of every descriptor in two parts leaves room before
the tail, no fetch of a run touches a byte that is not released.
-/

namespace AmlW2.Ring

/-! ## Bytes not released -/

/-- A byte of the buffer that is still needed: from the tail to the head, or of the carried
fragment, which is in two parts while a part at the end of the buffer is recorded. -/
def Held (rx : Rx) (i : Nat) : Prop :=
  (if rx.tail ≤ rx.head then rx.tail ≤ i ∧ i < rx.head
    else rx.tail ≤ i ∧ i < rx.bufSz ∨ i < rx.head) ∨
  (rx.head ≤ i ∧ i < rx.head + rx.fw.frag0) ∨
  (rx.tail ≤ rx.head ∧ rx.frag0 ≠ 0 ∧ i < rx.fw.frag0 - rx.frag0)

/-- Bytes inside the buffer, none of which is held. -/
def Free (rx : Rx) (p n : Nat) : Prop := ∀ i, p ≤ i → i < p + n → i < rx.bufSz ∧ ¬Held rx i

/-- A fetch of `len` bytes that goes on to read writes to free bytes only, counting the blocks of
the bus and the move of a short fragment. -/
def Untouched (rx : Rx) (len : Nat) : Prop :=
  ∀ pos rx' place, amlSdioUsbRxBufGet rx.head rx.tail rx.bufSz len rx.fw.frag0 = some pos →
    fetchPlace rx pos = .ok (rx', place) →
    Free rx place (busLen len) ∧
      (pos = 0 → rx.fw.frag0 < amlRxFrag0MiniSize → Free rx 0 rx.fw.frag0)

theorem Arranged.tail_lt {rx : Rx} {ps : List Nat} (arranged : Arranged rx ps) :
    rx.tail + rxDescSize ≤ rx.bufSz :=
  arranged.shape.fits arranged.linked.tail_mem rx.tail arranged.linked.tail_mem

/-- The tail is before the head, or the bytes in between are free. -/
theorem Arranged.order {rx : Rx} {ps : List Nat} (arranged : Arranged rx ps) :
    rx.tail ≤ rx.head ∨ rx.head + rx.fw.frag0 < rx.tail := by
  have member := arranged.linked.tail_mem
  cases arranged.shape with
  | straight spaced room =>
      have bound := spaced.bounds rx.tail member
      omega
  | wrapped upper lower room => exact Or.inr room

/-- What is before the tail is free, except for the second part of a carried fragment. -/
theorem Arranged.free_of_lt {rx : Rx} {ps : List Nat} (arranged : Arranged rx ps)
    (below : rx.tail ≤ rx.head + rx.fw.frag0) {p n : Nat} (before : p + n < rx.tail)
    (second : rx.frag0 ≠ 0 → rx.fw.frag0 - rx.frag0 ≤ p) : Free rx p n := by
  have tail_lt := arranged.tail_lt
  have order := arranged.order
  intro i le lt
  refine ⟨by omega, ?_⟩
  rintro (held | held | ⟨-, recorded, held⟩)
  · rw [if_pos (by omega)] at held
    omega
  · omega
  · have part := second recorded
    omega

theorem Arranged.untouched {rx : Rx} {ps : List Nat} {len : Nat} (arranged : Arranged rx ps)
    (fits : ThirdFits rx len) : Untouched rx len := by
  have tail_lt := arranged.tail_lt
  have order := arranged.order
  intro pos rx' place room placed
  refine ⟨?_, fun zero short => ?_⟩
  · cases placed_of_fetchPlace fits room placed with
    | append kept after =>
        intro i le lt
        refine ⟨by omega, ?_⟩
        rintro (held | held | ⟨-, -, held⟩)
        · split_ifs at held <;> omega
        · omega
        · omega
    | moved below short before =>
        refine arranged.free_of_lt below before fun recorded => ?_
        rcases arranged.split with none | long
        · exact absurd none recorded
        · omega
    | split below long le origin before =>
        refine arranged.free_of_lt below before fun recorded => ?_
        rcases origin with ⟨none, -⟩ | ⟨-, rfl⟩
        · exact absurd none recorded
        · exact Nat.le_refl _
  · rcases amlSdioUsbRxBufGet_some room with ⟨rfl, -⟩ | ⟨-, below, -, before⟩
    · intro i _ lt
      omega
    · rw [if_pos short] at before
      refine arranged.free_of_lt below (by omega) fun recorded => ?_
      rcases arranged.split with none | long
      · exact absurd none recorded
      · omega

/-- A third read that does not fit before the tail runs over bytes held. -/
theorem not_untouched_of_thirdRead {rx : Rx} {len : Nat} (third : ThirdRead rx len)
    (carried : rx.frag0 ≤ rx.fw.frag0) (second : rx.fw.frag0 - rx.frag0 ≤ rx.tail)
    (covers : rx.tail < rx.fw.frag0 - rx.frag0 + busLen len) (other : rx.tail ≠ rx.head)
    (inside : rx.tail < rx.bufSz) : ¬Untouched rx len := by
  obtain ⟨room, long, recorded⟩ := third
  intro untouched
  have place : fetchPlace rx 0 = .ok (rx, rx.fw.frag0 - rx.frag0) := by
    rw [fetchPlace, if_pos rfl, if_neg (Nat.not_lt.mpr long), if_neg recorded,
      if_neg (Nat.not_lt.mpr carried)]
  have free := (untouched 0 rx _ room place).1 rx.tail second covers
  refine free.2 (Or.inl ?_)
  split_ifs with straight
  · exact ⟨Nat.le_refl _, by omega⟩
  · exact Or.inl ⟨Nat.le_refl _, inside⟩

/-! ## The other functions of the receive path -/

/-- The ring and the bytes are left as they are, up to fragments that are dropped. -/
structure Adjusted (rx rx' : Rx) : Prop where
  layouts : rx'.layouts = rx.layouts
  buf : rx'.buf = rx.buf
  bufSz : rx'.bufSz = rx.bufSz
  head : rx'.head = rx.head
  tail : rx'.tail = rx.tail
  last : rx'.last = rx.last
  frag0 : rx'.frag0 = rx.frag0 ∨ rx'.frag0 = 0
  frag0_le : rx'.fw.frag0 ≤ rx.fw.frag0
  rxEnd : rx'.fw.rxEnd = rx.fw.rxEnd ∨ ∃ layout, rx'.fw.rxEnd = (rx.layouts layout).rxEnd

theorem Adjusted.refl (rx : Rx) : Adjusted rx rx :=
  ⟨rfl, rfl, rfl, rfl, rfl, rfl, Or.inl rfl, Nat.le_refl _, Or.inl rfl⟩

theorem Adjusted.trans {rx rx' rx'' : Rx} (first : Adjusted rx rx') (second : Adjusted rx' rx'') :
    Adjusted rx rx'' := by
  refine ⟨second.layouts.trans first.layouts, second.buf.trans first.buf,
    second.bufSz.trans first.bufSz, second.head.trans first.head, second.tail.trans first.tail,
    second.last.trans first.last, ?_, Nat.le_trans second.frag0_le first.frag0_le, ?_⟩
  · rcases second.frag0 with same | dropped
    · rw [same]
      exact first.frag0
    · exact Or.inr dropped
  · rcases second.rxEnd with same | ⟨layout, eq⟩
    · rw [same]
      exact first.rxEnd
    · exact Or.inr ⟨layout, by rw [eq, first.layouts]⟩

theorem Arranged.adjusted {rx rx' : Rx} {ps : List Nat} (arranged : Arranged rx ps)
    (adjusted : Adjusted rx rx') : Arranged rx' ps := by
  obtain ⟨layouts, buf, bufSz, head, tail, last, frag0, frag0_le, rxEnd⟩ := adjusted
  obtain ⟨⟨bufSz_le, end_lt, layout_lt⟩, linked, shape, split⟩ := arranged
  refine ⟨⟨bufSz ▸ bufSz_le, ?_, layouts ▸ layout_lt⟩, ?_, ?_, ?_⟩
  · rcases rxEnd with same | ⟨layout, eq⟩
    · rwa [same]
    · rw [eq]
      exact layout_lt layout
  · exact linked.of_same tail last bufSz fun p _ => buf ▸ Memory.Same.refl _ _ _
  · cases shape with
    | straight spaced room =>
        refine .straight ?_ ?_
        · rwa [tail, head]
        · rw [head, bufSz]
          omega
    | wrapped upper lower room =>
        refine .wrapped ?_ ?_ ?_
        · rwa [tail, bufSz]
        · rwa [head]
        · rw [head, tail]
          omega
  · rcases frag0 with same | dropped
    · rwa [same]
    · exact Or.inl dropped

theorem adjusted_fw (rx : Rx) (fw : Fw) (start reset : Bool) (txPage : Nat)
    (frag0_le : fw.frag0 ≤ rx.fw.frag0)
    (rxEnd : fw.rxEnd = rx.fw.rxEnd ∨ ∃ layout, fw.rxEnd = (rx.layouts layout).rxEnd) :
    Adjusted rx { rx with fw, start, reset, txPage } :=
  ⟨rfl, rfl, rfl, rfl, rfl, rfl, Or.inl rfl, frag0_le, rxEnd⟩

theorem adjusted_headInd (rx : Rx) (fwRxHead : Nat) :
    Adjusted rx (amlSdioUsbFwRxHeadInd rx fwRxHead) := by
  rw [amlSdioUsbFwRxHeadInd]
  split
  · exact .refl rx
  · exact adjusted_fw rx _ _ _ _ (Nat.le_refl _) (Or.inl rfl)

theorem adjusted_error (rx : Rx) : Adjusted rx (amlSdioUsbRxError rx) := by
  rw [amlSdioUsbRxError]
  split
  · exact .refl rx
  · exact adjusted_fw rx _ _ _ _ (Nat.le_refl _) (Or.inl rfl)

theorem adjusted_apply (rx : Rx) (layout : Layout) :
    Adjusted rx (amlSharedMemLayoutApply rx layout) :=
  adjusted_fw rx _ _ _ _ (Nat.le_refl _) (Or.inr ⟨layout, rfl⟩)

theorem adjusted_confirmSwitch (rx : Rx) : Adjusted rx (confirmSwitch rx).2 := by
  simp only [confirmSwitch]
  split_ifs <;> first
    | exact .refl rx
    | exact adjusted_apply rx _
    | exact adjusted_fw rx _ _ _ _ (Nat.le_refl _) (Or.inr ⟨.narrow, rfl⟩)

theorem adjusted_confirm (rx : Rx) : Adjusted rx (amlSdioUsbRxConfirm rx) :=
  (adjusted_confirmSwitch rx).trans (adjusted_fw _ _ _ _ _ (Nat.le_refl _) (Or.inl rfl))

theorem adjusted_leave (rx : Rx) (c : Call) : Adjusted rx (rxdataindLeave rx c) := by
  rw [rxdataindLeave]
  split_ifs
  · exact adjusted_confirm rx
  · exact .refl rx

theorem adjusted_restart {rx rx' : Rx} {rxTail rxTail' : Nat}
    (ran : amlSdioUsbFwTailRestart rx rxTail = .ok (rx', rxTail')) : Adjusted rx rx' := by
  rw [amlSdioUsbFwTailRestart] at ran
  by_cases same : rx.fw.tail = rx.fw.head
  · rw [if_pos same] at ran
    cases ran
  · rw [if_neg same] at ran
    split at ran <;> cases ran
    · refine adjusted_fw rx _ _ _ _ ?_ (Or.inl rfl)
      simp only
      split_ifs
      · exact Nat.le_refl _
      · exact Nat.zero_le _
    · exact .refl rx

theorem adjusted_turnSkip {rx rx' : Rx} {rxTail len rxTail' len' : Nat}
    (ran : turnSkip rx rxTail len = .ok (rx', rxTail', len')) : Adjusted rx rx' := by
  rw [turnSkip] at ran
  split_ifs at ran <;> cases ran
  · exact adjusted_fw rx _ _ _ _ (Nat.le_refl _) (Or.inl rfl)
  · exact .refl rx

theorem adjusted_turnArgs {rx rx' : Rx} {c : Call} {rxTail len : Nat}
    (ran : turnArgs rx c = .ok (rx', rxTail, len)) : Adjusted rx rx' := by
  rw [turnArgs] at ran
  split_ifs at ran
  · exact adjusted_turnSkip ran
  · exact adjusted_turnSkip ran

theorem adjusted_turnAdvance {rx rx' : Rx} {c c' : Call} {rxTail received : Nat}
    (ran : turnAdvance rx c rxTail received = .ok (rx', c')) : Adjusted rx rx' := by
  simp only [turnAdvance] at ran
  have moved : Adjusted rx { rx with fw := { rx.fw with tail := rx.fw.tail + received } } :=
    adjusted_fw rx _ _ _ _ (Nat.le_refl _) (Or.inl rfl)
  split_ifs at ran
  · cases ran
    exact moved
  · obtain ⟨⟨rx₁, rxTail₁⟩, restarted, eq⟩ := Run.map_eq_ok ran
    cases eq
    exact moved.trans (adjusted_restart restarted)

theorem adjusted_reset {rx rx' : Rx} {newTail : Nat} (ran : rxdataindReset rx newTail = some rx') :
    Adjusted rx rx' := by
  rw [rxdataindReset] at ran
  split_ifs at ran <;> cases ran
  · exact ⟨rfl, rfl, rfl, rfl, rfl, rfl, Or.inr rfl, Nat.zero_le _, Or.inl rfl⟩
  · exact .refl rx

theorem adjusted_enter {rx rx' : Rx} {busErr : Bool} {newTail : Nat} {call : Option Call}
    (ran : rxdataindEnter rx busErr newTail = .ok (rx', call)) : Adjusted rx rx' := by
  rw [rxdataindEnter] at ran
  split_ifs at ran
  · cases ran
    exact adjusted_error rx
  · cases ran
    exact .refl rx
  · split at ran
    · cases ran
      exact .refl rx
    · rename_i rx₁ reset
      have before := adjusted_reset reset
      split_ifs at ran
      · cases ran
        exact before.trans (adjusted_confirm rx₁)
      · cases ran
        exact before
      · obtain ⟨⟨rx₂, rxTail⟩, restarted, eq⟩ := Run.map_eq_ok ran
        cases eq
        exact before.trans (adjusted_restart restarted)

theorem adjusted_rxRestart (rx : Rx) : Adjusted rx (amlSdioUsbRxRestart rx) := by
  simp only [amlSdioUsbRxRestart]
  split_ifs
  · exact adjusted_fw rx _ _ _ _ (Nat.le_refl _) (Or.inl rfl)
  · exact adjusted_fw rx _ _ _ _ (Nat.le_refl _) (Or.inr ⟨.expand, rfl⟩)

/-! ## Runs -/

/-- The fetch the loop of a call is about to make: the state and the length asked for. -/
def Host.fetch (s : Host) : Option (Rx × Nat) :=
  match s.call with
  | none => none
  | some c =>
      if s.rx.fw.tail = s.rx.fw.head then none
      else
        match turnArgs s.rx c with
        | .error _ => none
        | .ok (rx, _, len) =>
            if len = 0 then none else some (rx, readLen len)

/-- If the event is a turn of the loop, its fetch has the property. -/
def Host.Fetches (good : Rx → Nat → Prop) (s : Host) : Event → Prop
  | .turn _ => ∀ rx len, s.fetch = some (rx, len) → good rx len
  | _ => True

/-- The descriptors not released are arranged in the buffer. -/
def Host.Arranged (s : Host) : Prop := ∃ ps, Ring.Arranged s.rx ps

/-- The state of a fetch is that of the call up to its tail. -/
theorem Host.Arranged.of_fetch {s : Host} (arranged : s.Arranged) {rx : Rx} {len : Nat}
    (fetch : s.fetch = some (rx, len)) : ∃ ps, Ring.Arranged rx ps := by
  obtain ⟨ps, arranged⟩ := arranged
  rw [Host.fetch] at fetch
  split at fetch
  · cases fetch
  · split_ifs at fetch
    split at fetch
    · cases fetch
    · rename_i args
      split_ifs at fetch
      cases fetch
      exact ⟨ps, arranged.adjusted (adjusted_turnArgs args)⟩

theorem Host.Arranged.adjusted {s s' : Host} (arranged : s.Arranged)
    (adjusted : Adjusted s.rx s'.rx) : s'.Arranged := by
  obtain ⟨ps, arranged⟩ := arranged
  exact ⟨ps, arranged.adjusted adjusted⟩

theorem Host.Arranged.rxdataindTurn {s : Host} {c c' : Call} {bus : Bus} {rx' : Rx} {more : Bool}
    (arranged : s.Arranged) (call : s.call = some c) (pending : s.rx.fw.tail ≠ s.rx.fw.head)
    (fits : s.Fetches ThirdFits (.turn bus))
    (ran : Ring.rxdataindTurn s.rx c bus = .ok (rx', c', more)) : ∃ ps, Ring.Arranged rx' ps := by
  obtain ⟨ps, arranged⟩ := arranged
  rw [Ring.rxdataindTurn] at ran
  split at ran
  · cases ran
  · rename_i rx₁ rxTail len args
    have before := arranged.adjusted (adjusted_turnArgs args)
    split_ifs at ran with empty
    · cases ran
      exact ⟨ps, before⟩
    · have fetch : s.fetch = some (rx₁, readLen len) := by
        rw [Host.fetch, call]
        simp only [if_neg pending, args, if_neg empty]
      split at ran
      · cases ran
      · rename_i rx₂ fetched
        cases ran
        obtain ⟨news, after⟩ := before.fetch (fits _ _ fetch) fetched
        exact ⟨_, after⟩
      · rename_i received rx₂ _ fetched
        obtain ⟨news, after⟩ := before.fetch (fits _ _ fetch) fetched
        obtain ⟨⟨rx₃, c₃⟩, advanced, eq⟩ := Run.map_eq_ok ran
        cases eq
        exact ⟨_, after.adjusted (adjusted_turnAdvance advanced)⟩

theorem Host.Arranged.turn {s s' : Host} {c : Call} {bus : Bus} (arranged : s.Arranged)
    (call : s.call = some c) (fits : s.Fetches ThirdFits (.turn bus))
    (ran : s.turn c bus = .ok s') : s'.Arranged := by
  rw [Host.turn] at ran
  split_ifs at ran with drained
  · cases ran
    exact arranged.adjusted (adjusted_leave s.rx c)
  · split at ran
    · cases ran
    · rename_i rx₁ c₁ turned
      cases ran
      exact arranged.rxdataindTurn call drained fits turned
    · rename_i rx₁ c₁ turned
      cases ran
      obtain ⟨ps, after⟩ := arranged.rxdataindTurn call drained fits turned
      exact ⟨ps, after.adjusted (adjusted_leave rx₁ c₁)⟩

theorem Host.Arranged.step {s s' : Host} {e : Event} (arranged : s.Arranged)
    (fits : s.Fetches ThirdFits e) (ran : s.step e = .ok s') : s'.Arranged := by
  cases e with
  | put =>
      obtain ⟨⟨taken, rx⟩, put, rfl⟩ := Run.map_eq_ok ran
      obtain ⟨ps, arranged⟩ := arranged
      exact arranged.put put
  | turn bus =>
      rw [Host.step] at ran
      split at ran
      · rename_i c call
        exact arranged.turn call fits ran
      · cases ran
        exact arranged
  | headInd fwRxHead =>
      rw [Host.step] at ran
      split_ifs at ran <;> cases ran
      · exact arranged
      · exact arranged.adjusted (adjusted_headInd s.rx fwRxHead)
  | dataind busErr newTail =>
      rw [Host.step] at ran
      split_ifs at ran
      · cases ran
        exact arranged
      · obtain ⟨⟨rx, call⟩, entered, rfl⟩ := Run.map_eq_ok ran
        exact arranged.adjusted (adjusted_enter entered)
  | stop =>
      rw [Host.step] at ran
      split_ifs at ran <;> cases ran
      · exact arranged
      · exact arranged.adjusted (adjusted_fw s.rx _ _ _ _ (Nat.le_refl _) (Or.inl rfl))
  | restart =>
      rw [Host.step] at ran
      split_ifs at ran <;> cases ran
      · exact arranged
      · exact arranged.adjusted (adjusted_rxRestart s.rx)

/-- The buffer is created with a dummy descriptor at its end, and empty. -/
theorem init_arranged (config : Config) : (Host.init config).Arranged := by
  have size : preallocBufTypeRxbufSize / 4 ≤ config.bufSz ∧
      config.bufSz ≤ preallocBufTypeRxbufSize := by
    have member := config.bufSz_mem
    simp only [List.mem_cons, List.not_mem_nil, or_false] at member
    simp only [preallocBufTypeRxbufSize] at member ⊢
    omega
  have ends : ∀ layout, (config.layouts layout).rxEnd < amlRxWrapFlag := fun layout =>
    Nat.lt_of_le_of_lt (config.end_le layout) (by decide)
  simp only [preallocBufTypeRxbufSize] at size
  refine ⟨[config.bufSz - rxDescSize], ⟨?sized, ?linked, ?shape, Or.inl rfl⟩⟩
  case sized =>
    refine ⟨?_, ends .expand, ends⟩
    simp only [Host.init, amlSdioUsbRxInit, amlSharedMemLayoutApply, rxbufStartAddr]
    omega
  case linked =>
    refine ⟨rfl, rfl, List.isChain_singleton _, ?_⟩
    have word : newRead (Host.init config).rx.buf (Host.init config).rx.last = rxbufStartAddr :=
      Memory.u32_set32 (by decide)
    rw [word]
    simp only [Host.init, amlSdioUsbRxInit, amlSharedMemLayoutApply, clearWrap, rxbufStartAddr,
      amlRxWrapFlag]
    omega
  case shape =>
    rw [← List.append_nil [config.bufSz - rxDescSize]]
    refine .wrapped ?_ (.nil _ _) ?_
    · refine .singleton (Nat.le_refl _) ?_
      simp only [Host.init, amlSdioUsbRxInit, amlSharedMemLayoutApply, rxDescSize]
      omega
    · simp only [Host.init, amlSdioUsbRxInit, amlSharedMemLayoutApply, rxDescSize]
      omega

/-- In every run whose third reads leave room before the tail, every fetch writes to free bytes of
the buffer only. -/
theorem unreleased_untouched (config : Config) (events : List Event)
    (fits : Run.Guarded Host.step (Host.Fetches ThirdFits) events (Host.init config)) :
    Run.Guarded Host.step (Host.Fetches Untouched) events (Host.init config) := by
  refine fits.imp (fun s e s' (arranged : s.Arranged) fits ran => arranged.step fits ran) ?_
    (init_arranged config)
  intro s e arranged fits
  cases e with
  | turn bus =>
      intro rx len fetch
      obtain ⟨ps, before⟩ := arranged.of_fetch fetch
      exact before.untouched (fits rx len fetch)
  | _ => trivial

/-! ## A third read over the tail -/

instance (rx : Rx) (len : Nat) : Decidable (ThirdRead rx len) :=
  inferInstanceAs (Decidable (_ ∧ _))

instance (rx : Rx) (len : Nat) : Decidable (ThirdFits rx len) := inferInstanceAs (Decidable (_ → _))

/-- The layouts of SDIO without a logic analyzer. -/
def sdioLayouts : Layout → SharedmemLayout
  | .narrow => ⟨255, 0x60040000⟩
  | .expand => ⟨90, 0x60069800⟩

/-- SDIO with the smallest buffer. -/
def sdioConfig : Config where
  layouts := sdioLayouts
  end_ge layout := by cases layout <;> decide
  end_le layout := by cases layout <;> decide
  bufSz := preallocBufTypeRxbufSize / 4
  bufSz_mem := by decide

/-- A byte of a descriptor of `n` bytes in all with its payload descriptor and frame. -/
def descByte (n next i : Nat) : UInt8 :=
  if 48 ≤ i ∧ i < 50 then .ofNat ((n - 164) / 256 ^ (i - 48))
  else if i = 53 then 1
  else if 76 ≤ i ∧ i < 80 then .ofNat (next / 256 ^ (i - 76))
  else 0

/-- The device's memory with descriptors of given sizes from an address on. -/
def descBytes : List Nat → Nat → Nat → UInt8
  | [], _, _ => 0
  | n :: sizes, a, x =>
      if x < a + n then descByte n (a + n) (x - a) else descBytes sizes (a + n) x

/-- A turn of the loop that reads the device's memory from an address on. -/
def readTurn (fwPos len : Nat) (memory : Nat → UInt8) : Event :=
  .turn ⟨fun i => memory (fwPos + i), len⟩

/-- The last turn of a loop. -/
def lastTurn : Event := .turn ⟨fun _ => 0, 0⟩

/-- Twelve descriptors are read and consumed before a suspend. -/
def beforeSuspend : List Event :=
  let s := rxbufStartAddr
  [.restart, .headInd (s + 94300), .dataind false s,
    readTurn s 94300 (descBytes ([3700, 600] ++ List.replicate 10 9000) s), lastTurn] ++
  List.replicate 12 .put ++ [.stop, .restart]

/-- Then the device starts over, with a descriptor over the end of its buffer, and the third read of
it is due while nothing more is consumed. -/
def afterResume (head : Nat) : List Event :=
  let s := rxbufStartAddr
  let memory : Nat → UInt8 := fun x =>
    if x < s + 315000 then descBytes (List.replicate 35 9000) s x
    else descByte 9000 (s + 3524) (x - (s + 315000))
  [.headInd (s + 189000), .dataind false s, readTurn s 131072 memory,
    readTurn (s + 131072) 57928 memory, lastTurn,
    .headInd (s + head + rxWrapTempFlag), .dataind false s,
    readTurn (s + 189000) 131072 memory, readTurn (s + 320072) 440 memory]

/-- What a state's next fetch depends on. -/
def Host.plan (s : Host) : List Nat :=
  match s.fetch with
  | some (rx, len) => [rx.head, rx.tail, rx.bufSz, rx.frag0, rx.fw.frag0, len]
  | none => []

/-- The next fetch of a state passes a test. -/
def Host.meets (test : Rx → Nat → Bool) (s : Host) : Bool :=
  match s.fetch with
  | some (rx, len) => test rx len
  | none => true

theorem Host.fetches_of_meets {s : Host} {e : Event}
    (passed : s.meets (fun rx len => decide (ThirdFits rx len)) = true) :
    s.Fetches ThirdFits e := by
  cases e with
  | turn bus =>
      intro rx len fetch
      rw [Host.meets, fetch] at passed
      exact of_decide_eq_true passed
  | _ => trivial

/-- With less data pending the third read fits, and the descriptor is fetched whole. -/
theorem unreleased_untouched_resumed :
    Run.Guarded Host.step (Host.Fetches Untouched)
      (beforeSuspend ++ afterResume 3524 ++ [readTurn (rxbufStartAddr + 36) 3488 fun _ => 0])
      (Host.init sdioConfig) := by
  apply unreleased_untouched
  let test (s : Host) (_ : Event) : Bool := s.meets fun rx len => decide (ThirdFits rx len)
  have sound : ∀ s e, test s e = true → s.Fetches ThirdFits e := fun s e =>
    Host.fetches_of_meets
  refine Run.guarded_of_check sound ?_
  decide +kernel

/-- A third read whose length only is compared with the tail, not its length after the second part,
overwrites the descriptor at the tail. -/
theorem third_read_overwrites : ¬∀ config events,
    Run.Guarded Host.step (Host.Fetches Untouched) events (Host.init config) := by
  intro untouched
  have plan : ((Run.run Host.step (beforeSuspend ++ afterResume 84964)
      (Host.init sdioConfig)).map Host.plan).toOption =
        some [409300, 85300, 414720, 5072, 5512, 84928] := by decide +kernel
  cases ran : Run.run Host.step (beforeSuspend ++ afterResume 84964) (Host.init sdioConfig) with
  | error bug =>
      rw [ran] at plan
      cases plan
  | ok s =>
      rw [ran] at plan
      have planned : s.plan = [409300, 85300, 414720, 5072, 5512, 84928] := Option.some.inj plan
      have turn := (untouched sdioConfig
        (beforeSuspend ++ afterResume 84964 ++ lastTurn :: [])).at_split ran
      rw [Host.plan] at planned
      split at planned
      · rename_i rx len fetch
        simp only [List.cons.injEq, and_true] at planned
        obtain ⟨head, tail, size, first, carried, length⟩ := planned
        refine not_untouched_of_thirdRead ?_ ?_ ?_ ?_ ?_ ?_ (turn rx len fetch)
        · rw [ThirdRead, head, tail, size, first, carried, length]
          decide
        · rw [first, carried]
          decide
        · rw [first, carried, tail]
          decide
        · rw [first, carried, tail, length]
          decide
        · rw [tail, head]
          decide
        · rw [tail, size]
          decide
      · cases planned

end AmlW2.Ring
