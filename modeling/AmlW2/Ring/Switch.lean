import AmlW2.Ring.Overwrite

/-!
# Changes of the layout

`aml_sdio_usb_rx_confirm` applies the layout the firmware asks for, and moves the device's head and
tail if they lie beyond its new end.  This loses nothing where the tail has reached the head, but
the loop also confirms after it stopped early.
-/

namespace AmlW2.Ring

/-! ## Confirmations -/

/-- A confirmation in this state applies a layout. -/
def Switches (fw : Fw) : Prop :=
  fw.state ||| fw.confirmFlags = fwBufferNarrow ∨ fw.state ||| fw.confirmFlags = fwBufferExpand

instance (fw : Fw) : Decidable (Switches fw) := inferInstanceAs (Decidable (_ ∨ _))

/-- The state in which a turn confirms: at the end of a call that received data. -/
def Host.turnConfirms (s : Host) (c : Call) (bus : Bus) : Option Rx :=
  if s.rx.fw.tail = s.rx.fw.head then if c.received ≠ 0 then some s.rx else none
  else
    match rxdataindTurn s.rx c bus with
    | .ok (rx, c, false) => if c.received ≠ 0 then some rx else none
    | _ => none

/-- The state in which an event confirms, if it does. -/
def Host.confirms (s : Host) : Event → Option Rx
  | .turn bus => s.call.bind fun c => s.turnConfirms c bus
  | .dataind busErr newTail =>
      if s.call.isSome ∨ busErr ∨ !s.rx.start then none
      else
        match rxdataindReset s.rx newTail with
        | none => none
        | some rx =>
            if rx.fw.tail = rx.fw.head ∧ (rx.fw.state ≠ 0 ∨ rx.fw.confirmFlags ≠ 0) then some rx
            else none
  | _ => none

/-- All that was received has been read. -/
def Drained (fw : Fw) : Prop := fw.tail = fw.head

/-- A layout is applied only where all has been read, and then nothing is left to read. -/
def Host.SwitchesDrained (s : Host) (e : Event) : Prop :=
  ∀ rx, s.confirms e = some rx → Switches rx.fw →
    Drained rx.fw ∧ Drained (amlSdioUsbRxConfirm rx).fw

/-! ## Turns that stop early -/

/-- The fetch of the turn finds room, and the bus delivers. -/
def TurnProceeds (rx : Rx) (c : Call) (bus : Bus) : Prop :=
  ∀ rx' rxTail len, turnArgs rx c = .ok (rx', rxTail, len) →
    len ≠ 0 ∧ bus.received ≠ 0 ∧
      amlSdioUsbRxBufGet rx'.head rx'.tail rx'.bufSz (readLen len) rx'.fw.frag0 ≠ none

/-- While a layout is to be applied, no turn stops a loop that has received data. -/
def Host.Proceeds (s : Host) : Event → Prop
  | .turn bus => ∀ c, s.call = some c → s.rx.fw.tail ≠ s.rx.fw.head → c.received ≠ 0 →
      Switches s.rx.fw → TurnProceeds s.rx c bus
  | _ => True

/-- A confirmation where all has been read leaves nothing to read. -/
theorem Drained.confirm {rx : Rx} (drained : Drained rx.fw) :
    Drained (amlSdioUsbRxConfirm rx).fw := by
  simp only [Drained, amlSdioUsbRxConfirm, confirmSwitch, amlSharedMemLayoutApply] at drained ⊢
  split_ifs <;> first
    | exact drained
    | rfl

/-- The pointers of the device and the flags. -/
structure SamePointers (fw fw' : Fw) : Prop where
  head : fw'.head = fw.head
  tail : fw'.tail = fw.tail
  state : fw'.state = fw.state
  confirmFlags : fw'.confirmFlags = fw.confirmFlags
  rxEnd : fw'.rxEnd = fw.rxEnd

theorem SamePointers.refl (fw : Fw) : SamePointers fw fw := ⟨rfl, rfl, rfl, rfl, rfl⟩

theorem samePointers_place {rx rx' : Rx} {pos place : Nat}
    (placed : fetchPlace rx pos = .ok (rx', place)) :
    rx'.fw = rx.fw ∧ rx'.layouts = rx.layouts := by
  rw [fetchPlace] at placed
  split_ifs at placed <;> cases placed <;> exact ⟨rfl, rfl⟩

/-- A fetch leaves the pointers alone; it receives something exactly if it finds room and the bus
delivers. -/
theorem fetch_pointers {rx rx' : Rx} {fwPos len received : Nat} {bus : Bus} (some : len ≠ 0)
    (ran : amlSdioUsbRxDescFetch rx fwPos len bus = .ok (received, rx')) :
    (SamePointers rx.fw rx'.fw ∧ rx'.layouts = rx.layouts) ∧ (received ≠ 0 ↔ bus.received ≠ 0 ∧
      amlSdioUsbRxBufGet rx.head rx.tail rx.bufSz len rx.fw.frag0 ≠ none) := by
  rw [amlSdioUsbRxDescFetch] at ran
  split at ran
  · rename_i full
    cases ran
    exact ⟨⟨.refl _, rfl⟩, by simp [full]⟩
  · rename_i pos room
    split_ifs at ran
    split at ran
    · cases ran
    · rename_i rx₁ place placed
      obtain ⟨fw, layouts⟩ := samePointers_place placed
      rw [fetchRead] at ran
      simp only at ran
      split_ifs at ran with failed
      · cases ran
        refine ⟨?_, by simp [room]; omega⟩
        rw [amlSdioUsbRxError]
        split_ifs <;> exact ⟨fw ▸ .refl _, layouts⟩
      · split at ran
        · cases ran
        · obtain ⟨rx₂, linked, eq⟩ := Run.map_eq_ok ran
          cases eq
          rw [(fetched_of_fetchLink linked).eq]
          exact ⟨⟨fw ▸ ⟨rfl, rfl, rfl, rfl, rfl⟩, layouts⟩, by simp [room]; omega⟩

/-- The skip at the device's start moves the tail, and not onto the head. -/
structure ArgsLaw (rx rx' : Rx) (rxTail : Nat) : Prop where
  state : rx'.fw.state = rx.fw.state
  confirmFlags : rx'.fw.confirmFlags = rx.fw.confirmFlags
  head : rx'.fw.head = rx.fw.head
  rxEnd : rx'.fw.rxEnd = rx.fw.rxEnd
  tail : rxTail = clearWrap rx'.fw.tail
  pending : rx'.fw.tail ≠ rx'.fw.head

/-- The variables of a call agree with the device's pointers. -/
structure Tracks (rx : Rx) (c : Call) : Prop where
  head : c.rxHead = clearWrap rx.fw.head
  tail : c.rxTail = clearWrap rx.fw.tail

theorem clearWrap_add {w n : Nat} (small : clearWrap w + n < amlRxWrapFlag) :
    clearWrap (w + n) = clearWrap w + n := by
  simp only [clearWrap, amlRxWrapFlag] at small ⊢
  omega

theorem Tracks.turnSkip {rx rx' : Rx} {c : Call} {len rxTail len' : Nat} (tracks : Tracks rx c)
    (pending : rx.fw.tail ≠ rx.fw.head) (end_lt : c.rxTail + len < amlRxWrapFlag)
    (fits : c.rxHead ≤ c.rxTail ∨ c.rxHead = c.rxTail + len)
    (ran : Ring.turnSkip rx c.rxTail len = .ok (rx', rxTail, len')) : ArgsLaw rx rx' rxTail := by
  rw [Ring.turnSkip] at ran
  split_ifs at ran with skip short <;> cases ran
  · have moved := clearWrap_add (w := rx.fw.tail) (n := rx.fw.skip)
      (by rw [← tracks.tail]; omega)
    refine ⟨rfl, rfl, rfl, rfl, by rw [moved, ← tracks.tail], ?_⟩
    intro same
    rw [show rx.fw.tail + rx.fw.skip = rx.fw.head from same, ← tracks.head, ← tracks.tail] at moved
    omega
  · exact ⟨rfl, rfl, rfl, rfl, tracks.tail, pending⟩

theorem Tracks.turnArgs {rx rx' : Rx} {c : Call} {rxTail len : Nat} (tracks : Tracks rx c)
    (pending : rx.fw.tail ≠ rx.fw.head) (end_lt : rx.fw.rxEnd < amlRxWrapFlag)
    (ran : Ring.turnArgs rx c = .ok (rx', rxTail, len)) : ArgsLaw rx rx' rxTail := by
  have head_lt : c.rxHead < amlRxWrapFlag := by
    rw [tracks.head]
    exact Nat.mod_lt _ (by decide)
  rw [Ring.turnArgs] at ran
  split_ifs at ran with ahead beyond
  · exact tracks.turnSkip pending (by omega) (Or.inr (by omega)) ran
  · exact tracks.turnSkip pending (by omega) (Or.inl (by omega)) ran

/-- The restart of the tail keeps it in step with the call. -/
theorem tailRestart_tracks {rx rx' : Rx} {rxTail rxTail' : Nat}
    (tail : rxTail = clearWrap rx.fw.tail)
    (ran : amlSdioUsbFwTailRestart rx rxTail = .ok (rx', rxTail')) :
    rx'.fw.head = rx.fw.head ∧ rxTail' = clearWrap rx'.fw.tail := by
  rw [amlSdioUsbFwTailRestart] at ran
  by_cases same : rx.fw.tail = rx.fw.head
  · rw [if_pos same] at ran
    cases ran
  · rw [if_neg same] at ran
    split at ran <;> cases ran
    · have flags : ∀ w, w = amlRxWrapFlag ∨ w = 0 →
          rxbufStartAddr = clearWrap (rxbufStartAddr + w) := by
        rintro w (rfl | rfl) <;> decide
      exact ⟨rfl, flags _ (ite_eq_or_eq _ _ _)⟩
    · exact ⟨rfl, tail⟩

/-- The end of a turn keeps the call in step with the device's pointers. -/
theorem Tracks.turnAdvance {rx rx₁ rx' : Rx} {c c' : Call} {rxTail received : Nat}
    (head : c.rxHead = clearWrap rx.fw.head) (head_eq : rx₁.fw.head = rx.fw.head)
    (tail : rxTail = clearWrap rx₁.fw.tail) (end_lt : rx₁.fw.rxEnd < amlRxWrapFlag)
    (ran : Ring.turnAdvance rx₁ c rxTail received = .ok (rx', c')) : Tracks rx' c' := by
  simp only [Ring.turnAdvance] at ran
  split_ifs at ran with outside drained
  · cases ran
    refine ⟨by rw [head, ← head_eq], ?_⟩
    have moved := clearWrap_add (w := rx₁.fw.tail) (n := received) (by rw [← tail]; omega)
    rw [tail, ← moved]
  · obtain ⟨⟨rx₂, rxTail₂⟩, restarted, eq⟩ := Run.map_eq_ok ran
    cases eq
    have moved := clearWrap_add (w := rx₁.fw.tail) (n := received) (by rw [← tail]; omega)
    obtain ⟨same, place⟩ := tailRestart_tracks (by rw [tail, ← moved]) restarted
    exact ⟨by rw [head, ← head_eq, same], place⟩

theorem readLen_ne_zero {len : Nat} (some : len ≠ 0) : readLen len ≠ 0 := by
  rw [readLen]
  split_ifs
  · exact some
  · decide

/-- A turn goes on exactly if its fetch proceeds; otherwise the loop stops short of the head. -/
theorem Tracks.rxdataindTurn {rx rx' : Rx} {c c' : Call} {bus : Bus} {more : Bool}
    (tracks : Tracks rx c) (pending : rx.fw.tail ≠ rx.fw.head)
    (end_lt : rx.fw.rxEnd < amlRxWrapFlag)
    (ran : Ring.rxdataindTurn rx c bus = .ok (rx', c', more)) :
    (more = true ↔ TurnProceeds rx c bus) ∧ (more = true → Tracks rx' c') ∧
      (more = false → c'.received = c.received ∧ ¬Drained rx'.fw ∧
        (Switches rx'.fw ↔ Switches rx.fw)) := by
  rw [Ring.rxdataindTurn] at ran
  split at ran
  · cases ran
  · rename_i rx₁ rxTail len args
    have law := tracks.turnArgs pending end_lt args
    have proceeds : TurnProceeds rx c bus ↔ len ≠ 0 ∧ bus.received ≠ 0 ∧
        amlSdioUsbRxBufGet rx₁.head rx₁.tail rx₁.bufSz (readLen len) rx₁.fw.frag0 ≠ none := by
      constructor
      · exact fun all => all rx₁ rxTail len args
      · intro holds rx₂ rxTail₂ len₂ args₂
        rw [args] at args₂
        cases args₂
        exact holds
    rw [proceeds]
    split_ifs at ran with empty
    · cases ran
      refine ⟨by simp [empty], by simp, fun _ => ⟨rfl, law.pending, ?_⟩⟩
      rw [Switches, Switches, law.state, law.confirmFlags]
    · split at ran
      · cases ran
      · rename_i rx₂ fetched
        cases ran
        obtain ⟨⟨same, -⟩, received⟩ := fetch_pointers (readLen_ne_zero empty) fetched
        refine ⟨by simpa using fun _ => received.not.mp (by simp), by simp,
          fun _ => ⟨rfl, ?_, ?_⟩⟩
        · rw [Drained, same.tail, same.head]
          exact law.pending
        · rw [Switches, Switches, same.state, same.confirmFlags, law.state, law.confirmFlags]
      · rename_i received rx₂ some fetched
        obtain ⟨⟨same, -⟩, iff⟩ := fetch_pointers (readLen_ne_zero empty) fetched
        obtain ⟨⟨rx₃, c₃⟩, advanced, eq⟩ := Run.map_eq_ok ran
        cases eq
        refine ⟨?_, fun _ => ?_, by simp⟩
        · have found := iff.mp some
          exact ⟨fun _ => ⟨empty, found⟩, fun _ => rfl⟩
        · exact Tracks.turnAdvance tracks.head (same.head.trans law.head)
            (law.tail.trans (by rw [same.tail])) (by rw [same.rxEnd, law.rxEnd]; exact end_lt)
            advanced

/-! ## Runs -/

/-- No end of the device's buffer collides with the flag. -/
structure Bounded (rx : Rx) : Prop where
  rxEnd : rx.fw.rxEnd < amlRxWrapFlag
  layouts : ∀ layout, (rx.layouts layout).rxEnd < amlRxWrapFlag

theorem Bounded.adjusted {rx rx' : Rx} (bounded : Bounded rx) (adjusted : Adjusted rx rx') :
    Bounded rx' := by
  refine ⟨?_, adjusted.layouts ▸ bounded.layouts⟩
  rcases adjusted.rxEnd with same | ⟨layout, eq⟩
  · rw [same]
    exact bounded.rxEnd
  · rw [eq]
    exact bounded.layouts layout

theorem Bounded.rxdataindTurn {rx rx' : Rx} {c c' : Call} {bus : Bus} {more : Bool}
    (bounded : Bounded rx) (ran : Ring.rxdataindTurn rx c bus = .ok (rx', c', more)) :
    Bounded rx' := by
  rw [Ring.rxdataindTurn] at ran
  split at ran
  · cases ran
  · rename_i rx₁ rxTail len args
    have before := bounded.adjusted (adjusted_turnArgs args)
    split_ifs at ran with empty
    · cases ran
      exact before
    · split at ran
      · cases ran
      · rename_i rx₂ fetched
        cases ran
        have same := fetch_pointers (readLen_ne_zero empty) fetched
        exact ⟨same.1.1.rxEnd ▸ before.rxEnd, same.1.2 ▸ before.layouts⟩
      · rename_i received rx₂ _ fetched
        have same := fetch_pointers (readLen_ne_zero empty) fetched
        obtain ⟨⟨rx₃, c₃⟩, advanced, eq⟩ := Run.map_eq_ok ran
        cases eq
        have after : Bounded rx₂ := ⟨same.1.1.rxEnd ▸ before.rxEnd, same.1.2 ▸ before.layouts⟩
        exact after.adjusted (adjusted_turnAdvance advanced)

/-- The call in progress is in step with the device's pointers. -/
structure Host.Tracks (s : Host) : Prop where
  call : ∀ c, s.call = some c → Ring.Tracks s.rx c
  bounded : Bounded s.rx

theorem Host.Tracks.idle {rx : Rx} (bounded : Bounded rx) : Host.Tracks ⟨rx, none⟩ :=
  ⟨fun _ none => (by cases none), bounded⟩

/-- A call starts in step with the device's pointers. -/
theorem Bounded.enter {rx rx' : Rx} {busErr : Bool} {newTail : Nat} {call : Option Call}
    (bounded : Bounded rx) (ran : rxdataindEnter rx busErr newTail = .ok (rx', call)) :
    Host.Tracks ⟨rx', call⟩ := by
  have after := bounded.adjusted (adjusted_enter ran)
  rw [rxdataindEnter] at ran
  split_ifs at ran
  · cases ran
    exact .idle after
  · cases ran
    exact .idle after
  · split at ran
    · cases ran
      exact .idle after
    · rename_i rx₁ reset
      split_ifs at ran
      · cases ran
        exact .idle after
      · cases ran
        exact .idle after
      · obtain ⟨⟨rx₂, rxTail⟩, restarted, eq⟩ := Run.map_eq_ok ran
        cases eq
        obtain ⟨head, tail⟩ := tailRestart_tracks rfl restarted
        refine ⟨fun c call => ?_, after⟩
        cases call
        exact ⟨by rw [head], tail⟩

theorem Host.Tracks.turn {s s' : Host} {c : Call} {bus : Bus} (tracks : s.Tracks)
    (call : s.call = some c) (ran : s.turn c bus = .ok s') : s'.Tracks := by
  rw [Host.turn] at ran
  split_ifs at ran with drained
  · cases ran
    exact .idle (tracks.bounded.adjusted (adjusted_leave s.rx c))
  · split at ran
    · cases ran
    · rename_i rx₁ c₁ turned
      cases ran
      have after := (tracks.call c call).rxdataindTurn drained tracks.bounded.rxEnd turned
      refine ⟨fun c' call' => ?_, tracks.bounded.rxdataindTurn turned⟩
      cases call'
      exact after.2.1 rfl
    · rename_i rx₁ c₁ turned
      cases ran
      exact .idle ((tracks.bounded.rxdataindTurn turned).adjusted (adjusted_leave rx₁ c₁))

theorem Host.Tracks.step {s s' : Host} {e : Event} (tracks : s.Tracks) (ran : s.step e = .ok s') :
    s'.Tracks := by
  obtain ⟨rx, call⟩ := s
  cases e with
  | put =>
      obtain ⟨⟨taken, rx'⟩, put, rfl⟩ := Run.map_eq_ok ran
      obtain ⟨calls, bounded⟩ := tracks
      rcases amlSdioUsbRxBufPut_ok put with ⟨-, rfl, -⟩ | ⟨p, -, -, ⟨-, -, rfl⟩ | ⟨-, -, rfl⟩⟩
      · exact ⟨calls, bounded⟩
      · exact ⟨fun c call => ⟨(calls c call).head, (calls c call).tail⟩,
          ⟨bounded.rxEnd, bounded.layouts⟩⟩
      · exact ⟨fun c call => ⟨(calls c call).head, (calls c call).tail⟩,
          ⟨bounded.rxEnd, bounded.layouts⟩⟩
  | turn bus =>
      rw [Host.step] at ran
      split at ran
      · rename_i c called
        exact tracks.turn called ran
      · cases ran
        exact tracks
  | headInd fwRxHead =>
      cases call with
      | none =>
          cases ran
          exact .idle (tracks.bounded.adjusted (adjusted_headInd rx fwRxHead))
      | some c =>
          cases ran
          exact tracks
  | dataind busErr newTail =>
      cases call with
      | none =>
          obtain ⟨⟨rx', call'⟩, entered, rfl⟩ := Run.map_eq_ok ran
          exact tracks.bounded.enter entered
      | some c =>
          cases ran
          exact tracks
  | stop =>
      cases call with
      | none =>
          cases ran
          exact .idle
            (tracks.bounded.adjusted (adjusted_fw rx _ _ _ _ (Nat.le_refl _) (Or.inl rfl)))
      | some c =>
          cases ran
          exact tracks
  | restart =>
      cases call with
      | none =>
          cases ran
          exact .idle (tracks.bounded.adjusted (adjusted_rxRestart rx))
      | some c =>
          cases ran
          exact tracks

theorem init_tracks (config : Config) : (Host.init config).Tracks := by
  have ends : ∀ layout, (config.layouts layout).rxEnd < amlRxWrapFlag := fun layout =>
    Nat.lt_of_le_of_lt (config.end_le layout) (by decide)
  exact .idle ⟨ends .expand, ends⟩

/-- A completed event applies layouts only where all has been read exactly if no turn stops early
while a layout is to be applied. -/
theorem Host.Tracks.switchesDrained_iff {s s' : Host} {e : Event} (tracks : s.Tracks)
    (ran : s.step e = .ok s') : s.SwitchesDrained e ↔ s.Proceeds e := by
  cases e with
  | turn bus =>
      cases call : s.call with
      | none => simp [SwitchesDrained, Proceeds, confirms, call]
      | some c =>
          rw [Host.step, call] at ran
          simp only [Host.turn] at ran
          by_cases pending : s.rx.fw.tail = s.rx.fw.head
          · refine ⟨fun _ c' _ other => absurd pending other, fun _ rx confirms _ => ?_⟩
            rw [Host.confirms, call, Option.bind_some, turnConfirms, if_pos pending] at confirms
            split_ifs at confirms
            cases confirms
            exact ⟨pending, Drained.confirm pending⟩
          · rw [if_neg pending] at ran
            cases turned : rxdataindTurn s.rx c bus with
            | error bug =>
                rw [turned] at ran
                cases ran
            | ok result =>
                obtain ⟨rx, c', more⟩ := result
                obtain ⟨goes, -, stops⟩ :=
                  (tracks.call c call).rxdataindTurn pending tracks.bounded.rxEnd turned
                have confirms : s.confirms (.turn bus) =
                    if more = false ∧ c'.received ≠ 0 then some rx else none := by
                  rw [Host.confirms, call, Option.bind_some, turnConfirms, if_neg pending, turned]
                  cases more <;> simp
                cases more with
                | true =>
                    refine ⟨fun _ c₁ called _ _ _ => ?_, fun _ rx₁ confirmed => ?_⟩
                    · obtain rfl : c = c₁ := Option.some.inj (call.symm.trans called)
                      exact goes.mp rfl
                    · rw [confirms] at confirmed
                      simp at confirmed
                | false =>
                    obtain ⟨received, short, switches⟩ := stops rfl
                    have stopped : ¬TurnProceeds s.rx c bus := fun all => by
                      have more := goes.mpr all
                      cases more
                    constructor
                    · intro drained c₁ called _ some asked
                      obtain rfl : c = c₁ := Option.some.inj (call.symm.trans called)
                      have at_stop := drained rx
                        (by rw [confirms, if_pos ⟨rfl, by rwa [received]⟩]) (switches.mpr asked)
                      exact absurd at_stop.1 short
                    · intro proceeds rx₁ confirmed asked
                      rw [confirms] at confirmed
                      split_ifs at confirmed with some
                      cases confirmed
                      exact absurd (proceeds c call pending (by rw [← received]; exact some.2)
                        (switches.mp asked)) stopped
  | dataind busErr newTail =>
      refine ⟨fun _ => trivial, fun _ rx confirms _ => ?_⟩
      rw [Host.confirms] at confirms
      split_ifs at confirms
      split at confirms
      · cases confirms
      · split_ifs at confirms with drained
        cases confirms
        exact ⟨drained.1, Drained.confirm drained.1⟩
  | headInd _ => exact ⟨fun _ => trivial, fun _ _ none => (by cases none)⟩
  | put => exact ⟨fun _ => trivial, fun _ _ none => (by cases none)⟩
  | stop => exact ⟨fun _ => trivial, fun _ _ none => (by cases none)⟩
  | restart => exact ⟨fun _ => trivial, fun _ _ none => (by cases none)⟩

/-- In a run, layouts are applied only where all has been read exactly if no loop that has received
data stops early while a layout is to be applied. -/
theorem switches_drained_iff_proceeds (config : Config) (events : List Event) {final : Host}
    (ran : Run.run Host.step events (Host.init config) = .ok final) :
    Run.Guarded Host.step Host.SwitchesDrained events (Host.init config) ↔
      Run.Guarded Host.step Host.Proceeds events (Host.init config) :=
  Run.guarded_congr (fun _ _ _ tracks => tracks.step)
    (fun _ _ _ tracks => tracks.switchesDrained_iff) ran (init_tracks config)

/-! ## A layout applied with data pending -/

/-- The turn of the event proceeds, if a call is in progress. -/
def Host.turnProceeds (s : Host) : Event → Bool
  | .turn bus =>
      match s.call with
      | none => true
      | some c =>
          if s.rx.fw.tail = s.rx.fw.head then true
          else
            match turnArgs s.rx c with
            | .error _ => true
            | .ok (rx, _, len) =>
                len != 0 && bus.received != 0 &&
                  (amlSdioUsbRxBufGet rx.head rx.tail rx.bufSz (readLen len) rx.fw.frag0).isSome
  | _ => true

theorem Host.proceeds_of_turnProceeds {s : Host} {e : Event} (passed : s.turnProceeds e = true) :
    s.Proceeds e := by
  cases e with
  | turn bus =>
      intro c call pending _ _ rx rxTail len args
      rw [turnProceeds, call] at passed
      simp only [if_neg pending, args, Bool.and_eq_true, bne_iff_ne] at passed
      exact ⟨passed.1.1, passed.1.2, Option.isSome_iff_ne_none.mp passed.2⟩
  | _ => trivial

/-- Eighteen descriptors are pending when the firmware asks for the narrow layout. -/
def narrowAsked : List Event :=
  let s := rxbufStartAddr
  let memory := descBytes (List.replicate 18 9000) s
  [.restart, .headInd (s + 162000 + fwBufferNarrow), .dataind false s, readTurn s 131072 memory,
    readTurn (s + 131072) 30928 memory, lastTurn]

/-- They are all read before the layout is applied. -/
theorem switches_drained_narrowAsked :
    ∃ final, Run.run Host.step narrowAsked (Host.init sdioConfig) = .ok final ∧
      final.rx.fw.rxEnd = 0x60040000 ∧
      Run.Guarded Host.step Host.SwitchesDrained narrowAsked (Host.init sdioConfig) := by
  have ends : ((Run.run Host.step narrowAsked (Host.init sdioConfig)).map
      fun s => s.rx.fw.rxEnd).toOption = some 0x60040000 := by decide +kernel
  have proceeds : Run.check Host.step Host.turnProceeds narrowAsked (Host.init sdioConfig) = true :=
    by decide +kernel
  cases ran : Run.run Host.step narrowAsked (Host.init sdioConfig) with
  | error bug =>
      rw [ran] at ends
      cases ends
  | ok final =>
      rw [ran] at ends
      exact ⟨final, rfl, Option.some.inj ends,
        (switches_drained_iff_proceeds sdioConfig narrowAsked ran).mpr
          (Run.guarded_of_check (fun _ _ => Host.proceeds_of_turnProceeds) proceeds)⟩

/-- The last descriptor read before the device wraps is still at the tail, and with it most of the
buffer is taken, when the firmware asks for the narrow layout. -/
def fullAtNarrow : List Event :=
  let s := rxbufStartAddr
  let first := descBytes (List.replicate 35 9000) s
  let memory : Nat → UInt8 := fun x =>
    if x < s + 315000 then first x else descByte 9000 (s + 3524) (x - (s + 315000))
  let second := descBytes (List.replicate 32 9000) (s + 3524)
  [.restart, .headInd (s + 297000), .dataind false s, readTurn s 131072 memory,
    readTurn (s + 131072) 131072 memory, readTurn (s + 262144) 34856 memory, lastTurn] ++
  List.replicate 33 .put ++
  [.headInd (s + 291524 + rxWrapTempFlag + fwBufferNarrow), .dataind false s,
    readTurn (s + 297000) 23512 memory, readTurn (s + 36) 131072 second,
    readTurn (s + 131108) 131072 second]

/-- The loop that stops for want of room applies the layout: the last 29344 bytes before the head
are skipped. -/
theorem stopped_loop_skips_data : ¬∀ config events,
    Run.Guarded Host.step Host.SwitchesDrained events (Host.init config) := by
  intro drained
  have pointers : ((Run.run Host.step fullAtNarrow (Host.init sdioConfig)).map fun s =>
      (s.confirms lastTurn).map fun rx =>
        [rx.fw.head - rx.fw.tail, rx.fw.state, rx.fw.confirmFlags]).toOption =
          some (some [29344, fwBufferNarrow, 0]) := by decide +kernel
  cases ran : Run.run Host.step fullAtNarrow (Host.init sdioConfig) with
  | error bug =>
      rw [ran] at pointers
      cases pointers
  | ok s =>
      rw [ran] at pointers
      have turn := (drained sdioConfig (fullAtNarrow ++ lastTurn :: [])).at_split ran
      obtain ⟨rx, confirms, values⟩ := Option.map_eq_some_iff.mp (Option.some.inj pointers)
      simp only [List.cons.injEq, and_true] at values
      obtain ⟨distance, state, flags⟩ := values
      have asked : Switches rx.fw := Or.inl (by rw [state, flags]; rfl)
      have same : rx.fw.tail = rx.fw.head := (turn rx confirms asked).1
      omega

end AmlW2.Ring
