import AmlW2.Ring.Switch

/-!
# Flags and positions between confirmations

Between two confirmations the receive path leaves the firmware's state and the confirmation flags
alone, and keeps its positions inside the device's memory, so that the word of a confirmation shows
the flags it was made of.
-/

namespace AmlW2.Ring

/-! ## Positions -/

/-- A position of the device's buffer, with or without the wrap flag. -/
def InBuffer (w : Nat) : Prop := rxbufStartAddr ≤ clearWrap w ∧ clearWrap w ≤ rxbufEndAddrLarge

/-- The positions of the device are in its buffer, whatever the layout. -/
structure Situated (rx : Rx) : Prop where
  tail : InBuffer rx.fw.tail
  head : InBuffer rx.fw.head
  rxEnd : rx.fw.rxEnd ≤ rxbufEndAddrLarge
  layouts : ∀ layout, (rx.layouts layout).rxEnd ≤ rxbufEndAddrLarge

/-- No flag is touched. -/
structure Quiet (rx rx' : Rx) : Prop where
  state : rx'.fw.state = rx.fw.state
  confirmFlags : rx'.fw.confirmFlags = rx.fw.confirmFlags
  situated : Situated rx'

variable {rx rx' rx'' : Rx}

theorem Situated.quiet (situated : Situated rx) : Quiet rx rx := ⟨rfl, rfl, situated⟩

theorem Quiet.trans (first : Quiet rx rx') (second : Quiet rx' rx'') : Quiet rx rx'' :=
  ⟨second.state.trans first.state, second.confirmFlags.trans first.confirmFlags, second.situated⟩

/-- The end of the largest layout is below the wrap flag. -/
theorem end_lt_wrap : rxbufEndAddrLarge < amlRxWrapFlag := by decide

theorem inBuffer_start : InBuffer rxbufStartAddr := by
  unfold InBuffer
  decide

theorem inBuffer_add {w n : Nat} (inside : InBuffer w)
    (end_le : clearWrap w + n ≤ rxbufEndAddrLarge) : InBuffer (w + n) := by
  have moved := clearWrap_add (Nat.lt_of_le_of_lt end_le end_lt_wrap)
  unfold InBuffer at inside ⊢
  omega

theorem Situated.of_pointers (situated : Situated rx) (same : SamePointers rx.fw rx'.fw)
    (layouts : rx'.layouts = rx.layouts) : Quiet rx rx' := by
  refine ⟨same.state, same.confirmFlags, ?_, ?_, ?_, ?_⟩
  · rw [same.tail]
    exact situated.tail
  · rw [same.head]
    exact situated.head
  · rw [same.rxEnd]
    exact situated.rxEnd
  · rw [layouts]
    exact situated.layouts

/-! ## A turn of the loop -/

theorem Situated.turnSkip {rxTail len rxTail' len' : Nat} (situated : Situated rx)
    (tail : rxTail = clearWrap rx.fw.tail) (end_le : rxTail + len ≤ rxbufEndAddrLarge)
    (ran : Ring.turnSkip rx rxTail len = .ok (rx', rxTail', len')) : Quiet rx rx' := by
  rw [Ring.turnSkip] at ran
  split_ifs at ran with skip short <;> cases ran
  · refine ⟨rfl, rfl, inBuffer_add situated.tail ?_, situated.head, situated.rxEnd,
      situated.layouts⟩
    omega
  · exact situated.quiet

theorem Situated.turnArgs {c : Call} {rxTail len : Nat} (situated : Situated rx)
    (tracks : Tracks rx c) (ran : Ring.turnArgs rx c = .ok (rx', rxTail, len)) : Quiet rx rx' := by
  have head_le : c.rxHead ≤ rxbufEndAddrLarge := tracks.head ▸ situated.head.2
  have rxEnd_le := situated.rxEnd
  rw [Ring.turnArgs] at ran
  split_ifs at ran with ahead beyond
  · exact situated.turnSkip tracks.tail (by omega) ran
  · exact situated.turnSkip tracks.tail (by omega) ran

theorem Situated.tailRestart {rxTail rxTail' : Nat} (situated : Situated rx)
    (ran : amlSdioUsbFwTailRestart rx rxTail = .ok (rx', rxTail')) : Quiet rx rx' := by
  have starts : ∀ w, w = amlRxWrapFlag ∨ w = 0 → InBuffer (rxbufStartAddr + w) := by
    unfold InBuffer
    rintro w (rfl | rfl) <;> decide
  rw [amlSdioUsbFwTailRestart] at ran
  by_cases drained : rx.fw.tail = rx.fw.head
  · rw [if_pos drained] at ran
    cases ran
  · rw [if_neg drained] at ran
    split at ran <;> cases ran
    · exact ⟨rfl, rfl, starts _ (ite_eq_or_eq _ _ _), situated.head, situated.rxEnd,
        situated.layouts⟩
    · exact situated.quiet

theorem Situated.turnAdvance {c c' : Call} {rxTail received : Nat} (situated : Situated rx)
    (tail : rxTail = clearWrap rx.fw.tail)
    (ran : Ring.turnAdvance rx c rxTail received = .ok (rx', c')) : Quiet rx rx' := by
  have rxEnd_le := situated.rxEnd
  simp only [Ring.turnAdvance] at ran
  split_ifs at ran with outside drained
  · cases ran
    exact ⟨rfl, rfl, inBuffer_add situated.tail (by omega), situated.head, situated.rxEnd,
      situated.layouts⟩
  · obtain ⟨⟨rx₂, rxTail₂⟩, restarted, eq⟩ := Run.map_eq_ok ran
    cases eq
    have moved : Situated { rx with fw := { rx.fw with tail := rx.fw.tail + received } } :=
      ⟨inBuffer_add situated.tail (by omega), situated.head, situated.rxEnd, situated.layouts⟩
    have after := moved.tailRestart restarted
    exact ⟨after.state, after.confirmFlags, after.situated⟩

theorem Situated.rxdataindTurn {c c' : Call} {bus : Bus} {more : Bool} (situated : Situated rx)
    (tracks : Tracks rx c) (pending : rx.fw.tail ≠ rx.fw.head)
    (ran : Ring.rxdataindTurn rx c bus = .ok (rx', c', more)) : Quiet rx rx' := by
  have end_lt : rx.fw.rxEnd < amlRxWrapFlag := Nat.lt_of_le_of_lt situated.rxEnd end_lt_wrap
  rw [Ring.rxdataindTurn] at ran
  split at ran
  · cases ran
  · rename_i rx₁ rxTail len args
    have law := tracks.turnArgs pending end_lt args
    have first := situated.turnArgs tracks args
    split_ifs at ran with empty
    · cases ran
      exact first
    · split at ran
      · cases ran
      · rename_i rx₂ fetched
        cases ran
        have same := (fetch_pointers (readLen_ne_zero empty) fetched).1
        exact first.trans (first.situated.of_pointers same.1 same.2)
      · rename_i received rx₂ _ fetched
        have same := (fetch_pointers (readLen_ne_zero empty) fetched).1
        have second := first.trans (first.situated.of_pointers same.1 same.2)
        obtain ⟨⟨rx₃, c₃⟩, advanced, eq⟩ := Run.map_eq_ok ran
        cases eq
        exact second.trans
          (second.situated.turnAdvance (law.tail.trans (by rw [same.1.tail])) advanced)

/-! ## Whole events -/

/-- What an event has the path confirm, or that it leaves the flags alone. -/
def Host.Reports (s s' : Host) (e : Event) : Prop :=
  match s.confirms e with
  | some rx => Quiet s.rx rx ∧ s'.rx = amlSdioUsbRxConfirm rx
  | none => Quiet s.rx s'.rx

theorem Situated.confirm (situated : Situated rx) : Situated (amlSdioUsbRxConfirm rx) := by
  obtain ⟨tail, head, rxEnd, layouts⟩ := situated
  simp only [amlSdioUsbRxConfirm, confirmSwitch, amlSharedMemLayoutApply]
  split_ifs <;> first
    | exact ⟨tail, head, rxEnd, layouts⟩
    | exact ⟨tail, head, layouts _, layouts⟩
    | exact ⟨inBuffer_start, inBuffer_start, layouts _, layouts⟩

theorem Situated.reset {newTail : Nat} (situated : Situated rx)
    (reset : rxdataindReset rx newTail = some rx') : Quiet rx rx' := by
  have rxEnd_le := situated.rxEnd
  rw [rxdataindReset] at reset
  split_ifs at reset with pending placed <;> cases reset
  · have inside : InBuffer newTail := by
      rw [amlSdioUsbRxPosInRange, Bool.and_eq_true, decide_eq_true_eq, decide_eq_true_eq] at placed
      exact ⟨placed.1, by omega⟩
    exact ⟨rfl, rfl, inside, situated.head, rxEnd_le, situated.layouts⟩
  · exact situated.quiet

theorem Situated.turn_reports {s s' : Host} {c : Call} {bus : Bus} (situated : Situated s.rx)
    (tracks : s.Tracks) (call : s.call = some c) (ran : s.turn c bus = .ok s') :
    s.Reports s' (.turn bus) := by
  rw [Host.Reports, Host.confirms, call, Option.bind_some, Host.turnConfirms]
  rw [Host.turn] at ran
  by_cases drained : s.rx.fw.tail = s.rx.fw.head
  · rw [if_pos drained] at ran ⊢
    cases ran
    by_cases some : c.received ≠ 0
    · rw [if_pos some, rxdataindLeave, if_pos some]
      exact ⟨situated.quiet, rfl⟩
    · rw [if_neg some, rxdataindLeave, if_neg some]
      exact situated.quiet
  · rw [if_neg drained] at ran ⊢
    cases turned : Ring.rxdataindTurn s.rx c bus with
    | error bug =>
        rw [turned] at ran
        cases ran
    | ok result =>
        obtain ⟨rx₁, c₁, more⟩ := result
        have quiet := situated.rxdataindTurn (tracks.call c call) drained turned
        rw [turned] at ran
        cases more with
        | true =>
            cases ran
            exact quiet
        | false =>
            cases ran
            dsimp only
            by_cases some : c₁.received ≠ 0
            · rw [if_pos some, rxdataindLeave, if_pos some]
              exact ⟨quiet, rfl⟩
            · rw [if_neg some, rxdataindLeave, if_neg some]
              exact quiet

theorem Situated.enter_reports {busErr : Bool} {newTail : Nat} {call : Option Call}
    (situated : Situated rx) (ran : rxdataindEnter rx busErr newTail = .ok (rx', call)) :
    Host.Reports ⟨rx, none⟩ ⟨rx', call⟩ (.dataind busErr newTail) := by
  have same : ∀ rx₁ : Rx, rx₁.fw = rx.fw → rx₁.layouts = rx.layouts → Quiet rx rx₁ := by
    intro rx₁ fw layouts
    refine situated.of_pointers ?_ layouts
    rw [fw]
    exact .refl _
  rw [Host.Reports, Host.confirms]
  rw [rxdataindEnter] at ran
  by_cases failed : busErr = true
  · rw [if_pos failed] at ran
    rw [if_pos (.inr (.inl failed))]
    cases ran
    refine same _ ?_ ?_ <;> rw [amlSdioUsbRxError] <;> split_ifs <;> rfl
  · rw [if_neg failed] at ran
    by_cases stopped : (!rx.start) = true
    · rw [if_pos stopped] at ran
      rw [if_pos (.inr (.inr stopped))]
      cases ran
      exact situated.quiet
    · rw [if_neg stopped] at ran
      rw [if_neg (by simp only [Option.isSome_none]; simp_all)]
      cases reset : rxdataindReset rx newTail with
      | none =>
          rw [reset] at ran
          cases ran
          exact situated.quiet
      | some rx₁ =>
          have first := situated.reset reset
          rw [reset] at ran
          simp only at ran ⊢
          by_cases drained : rx₁.fw.tail = rx₁.fw.head
          · rw [if_pos drained] at ran
            by_cases asked : rx₁.fw.state ≠ 0 ∨ rx₁.fw.confirmFlags ≠ 0
            · rw [if_pos asked] at ran
              rw [if_pos ⟨drained, asked⟩]
              cases ran
              exact ⟨first, rfl⟩
            · rw [if_neg asked] at ran
              rw [if_neg fun both => asked both.2]
              cases ran
              exact first
          · rw [if_neg drained] at ran
            rw [if_neg fun both => drained both.1]
            obtain ⟨⟨rx₂, rxTail⟩, restarted, eq⟩ := Run.map_eq_ok ran
            cases eq
            exact first.trans (first.situated.tailRestart restarted)

/-- The head is indicated by this event. -/
def Event.Indicates : Event → Prop
  | .headInd _ => True
  | _ => False

/-- But for the indication of the head, flags change in confirmations only. -/
theorem Situated.reports {s s' : Host} {e : Event} (situated : Situated s.rx) (tracks : s.Tracks)
    (other : ¬e.Indicates) (ran : s.step e = .ok s') : s.Reports s' e := by
  obtain ⟨rx, call⟩ := s
  cases e with
  | headInd word => exact absurd trivial other
  | put =>
      obtain ⟨⟨taken, rx₁⟩, put, rfl⟩ := Run.map_eq_ok ran
      rcases amlSdioUsbRxBufPut_ok put with ⟨-, rfl, -⟩ | ⟨p, -, -, ⟨-, -, rfl⟩ | ⟨-, -, rfl⟩⟩ <;>
        exact situated.of_pointers (.refl _) rfl
  | turn bus =>
      cases call with
      | none =>
          cases ran
          exact situated.quiet
      | some c => exact situated.turn_reports tracks rfl ran
  | dataind busErr newTail =>
      cases call with
      | none =>
          obtain ⟨⟨rx₁, call₁⟩, entered, rfl⟩ := Run.map_eq_ok ran
          exact situated.enter_reports entered
      | some c =>
          cases ran
          exact situated.quiet
  | stop =>
      cases call <;> cases ran <;> exact situated.of_pointers (.refl _) rfl
  | restart =>
      cases call with
      | none =>
          cases ran
          show Quiet rx (amlSdioUsbRxRestart rx)
          rw [amlSdioUsbRxRestart]
          split_ifs
          · exact situated.of_pointers (.refl _) rfl
          · exact ⟨rfl, rfl, situated.tail, situated.head, situated.layouts _, situated.layouts⟩
      | some c =>
          cases ran
          exact situated.quiet

/-- The firmware's word is taken, with its flags, or ignored. -/
theorem Situated.headInd (situated : Situated rx) (word : Nat) :
    Situated (amlSdioUsbFwRxHeadInd rx word) ∧
      (amlSdioUsbFwRxHeadInd rx word).fw.confirmFlags = rx.fw.confirmFlags ∧
      ((amlSdioUsbFwRxHeadInd rx word).fw.state = rx.fw.state ∨
        (amlSdioUsbFwRxHeadInd rx word).fw.state =
            word &&& (fwBufferNarrow ||| fwBufferExpand)) := by
  have rxEnd_le := situated.rxEnd
  by_cases ignored : word = 0 ∨ amlSdioUsbRxPosInRange rx.fw
      (sharedMemBaseAddr ||| clearFwFlags word) 0 = false
  · have same : amlSdioUsbFwRxHeadInd rx word = rx := if_pos ignored
    rw [same]
    exact ⟨situated, rfl, .inl rfl⟩
  · have taken : amlSdioUsbFwRxHeadInd rx word = { rx with fw := { rx.fw with
        head := if word &&& rxWrapTempFlag ≠ 0
          then (sharedMemBaseAddr ||| clearFwFlags word) + amlRxWrapFlag
          else sharedMemBaseAddr ||| clearFwFlags word
        state := word &&& (fwBufferNarrow ||| fwBufferExpand) } } := if_neg ignored
    rw [taken]
    have placed : amlSdioUsbRxPosInRange rx.fw (sharedMemBaseAddr ||| clearFwFlags word) 0 =
        true := by
      simpa using fun outside => ignored (.inr outside)
    rw [amlSdioUsbRxPosInRange, Bool.and_eq_true, decide_eq_true_eq, decide_eq_true_eq] at placed
    have small : sharedMemBaseAddr ||| clearFwFlags word < amlRxWrapFlag :=
      Nat.lt_of_le_of_lt (by omega) end_lt_wrap
    have inside : ∀ w, w = amlRxWrapFlag ∨ w = 0 →
        InBuffer ((sharedMemBaseAddr ||| clearFwFlags word) + w) := by
      intro w flag
      have same : clearWrap ((sharedMemBaseAddr ||| clearFwFlags word) + w) =
          sharedMemBaseAddr ||| clearFwFlags word := by
        rcases flag with rfl | rfl
        · rw [clearWrap, Nat.add_mod_right, Nat.mod_eq_of_lt small]
        · rw [clearWrap, Nat.add_zero, Nat.mod_eq_of_lt small]
      rw [InBuffer, same]
      exact ⟨placed.1, by omega⟩
    refine ⟨⟨situated.tail, ?_, rxEnd_le, situated.layouts⟩, rfl, .inr rfl⟩
    dsimp only
    split_ifs
    · exact inside _ (.inl rfl)
    · exact inside 0 (.inr rfl)

theorem init_situated (config : Config) : Situated (Host.init config).rx :=
  ⟨inBuffer_start, inBuffer_start, config.end_le .expand, config.end_le⟩

/-! ## The word of a confirmation -/

/-- `AML_RX_BUF_HOST_FLAGS` of a word: bits 25 to 28. -/
def hostFlags (word : Nat) : Nat := word >>> 25 % 2 ^ 4

/-- A position adds nothing to the flags of a word. -/
theorem hostFlags_or {flags tail : Nat} (inside : InBuffer tail) :
    hostFlags (flags ||| tail) = hostFlags flags := by
  obtain ⟨start_le, le_end⟩ := inside
  have clear : tail >>> 25 % 2 ^ 4 = 0 := by
    rw [Nat.shiftRight_eq_div_pow]
    unfold clearWrap amlRxWrapFlag at start_le le_end
    unfold rxbufStartAddr at start_le
    unfold rxbufEndAddrLarge at le_end
    omega
  rw [hostFlags, Nat.shiftRight_or_distrib, Nat.or_mod_two_pow, clear, Nat.or_zero]
  rfl

end AmlW2.Ring
