import AmlW2.Lib.Run

/-!
# The template of a beacon

`aml_build_bcn` of `aml_main.c` takes a new head, a new tail or both, keeps them for the next call,
and puts a beacon together: the head, the traffic indication, the tail and extra elements.
-/

namespace AmlW2.Beacon

/-- `struct aml_bcn`; a part is what is allocated for it. -/
structure AmlBcn where
  head : Option (List UInt8) := none
  tail : Option (List UInt8) := none
  ies : Option (List UInt8) := none
  headLen : Nat := 0
  tailLen : Nat := 0
  iesLen : Nat := 0
  timLen : Nat := 0
  len : Nat := 0
  dtim : UInt8 := 0
  deriving DecidableEq, Repr

/-- What `aml_build_bcn` reads of `struct cfg80211_beacon_data`; each part has its own length. -/
structure BeaconData where
  head : Option (List UInt8) := none
  tail : Option (List UInt8) := none
  deriving DecidableEq, Repr

/-- What the allocator answers for the head, for the tail and for the beacon. -/
structure Allocs where
  head : Bool := true
  tail : Bool := true
  buf : Bool := true
  deriving DecidableEq, Repr

/-- A beacon: how much is allocated, and the bytes written there from the start on. -/
structure Buffer where
  size : Nat
  bytes : List UInt8
  deriving DecidableEq, Repr

/-- The traffic indication, `WLAN_EID_TIM` first. -/
def timElement (dtim : UInt8) : List UInt8 := [5, 4, 0, dtim, 0, 0]

/-- The head is replaced, where there is a new one. -/
def replaceHead (bcn : AmlBcn) (head : Option (List UInt8)) (alloc : Bool) : Option AmlBcn :=
  match head with
  | none => some bcn
  | some head => if alloc then some { bcn with head := some head, headLen := head.length } else none

/-- The tail is replaced, where there is a new one. -/
def replaceTail (bcn : AmlBcn) (tail : Option (List UInt8)) (alloc : Bool) : Option AmlBcn :=
  match tail with
  | none => some bcn
  | some tail => if alloc then some { bcn with tail := some tail, tailLen := tail.length } else none

/-- The beacon is put together, where there is a head. -/
def assemble (bcn : AmlBcn) (alloc : Bool) : AmlBcn × Option Buffer :=
  match bcn.head with
  | none => (bcn, none)
  | some head =>
      let bcn := { bcn with
        timLen := 6
        len := bcn.headLen + bcn.tailLen + bcn.iesLen + 6 }
      if alloc then
        (bcn, some {
          size := bcn.len
          bytes := head.take bcn.headLen ++ timElement bcn.dtim ++
            (bcn.tail.getD []).take bcn.tailLen ++ (bcn.ies.getD []).take bcn.iesLen })
      else (bcn, none)

/-- `aml_build_bcn` -/
def amlBuildBcn (bcn : AmlBcn) (new : BeaconData) (allocs : Allocs) : AmlBcn × Option Buffer :=
  match replaceHead bcn new.head allocs.head with
  | none => (bcn, none)
  | some bcn =>
      match replaceTail bcn new.tail allocs.tail with
      | none => (bcn, none)
      | some bcn => assemble bcn allocs.buf

/-- `aml_del_bcn` -/
def amlDelBcn (bcn : AmlBcn) : AmlBcn where
  ies := if bcn.iesLen = 0 then bcn.ies else none

/-! ## Runs -/

/-- The parts the last beacon was made of, with its length. -/
structure Held where
  head : Option (List UInt8) := none
  tail : Option (List UInt8) := none
  len : Nat := 0
  deriving DecidableEq, Repr

/-- A template with what it should hold and the beacon the last call returned. -/
structure BcnRun where
  bcn : AmlBcn
  held : Held := {}
  built : Option Buffer := none
  deriving DecidableEq, Repr

/-- What is done with a template: the period is set, a beacon is built, and all is freed. -/
inductive BcnEvent where
  | dtim (period : UInt8)
  | build (new : BeaconData) (allocs : Allocs)
  | del
  deriving DecidableEq, Repr

def BcnRun.step (r : BcnRun) : BcnEvent → Except Unit BcnRun
  | .dtim period => .ok { r with bcn := { r.bcn with dtim := period }, built := none }
  | .build new allocs =>
      let result := amlBuildBcn r.bcn new allocs
      .ok {
        bcn := result.1
        held :=
          if result.2.isSome then
            ⟨new.head.or r.held.head, new.tail.or r.held.tail, result.1.len⟩
          else r.held
        built := result.2 }
  | .del => .ok { bcn := amlDelBcn r.bcn }

/-- A template without head and tail, and with the extra elements it may have. -/
def BcnRun.start (ies : Option (List UInt8)) : BcnRun where
  bcn := { ies, iesLen := (ies.getD []).length }

/-- The template holds the parts of the last beacon, and a beacon is made of them and fills its
buffer. -/
structure BcnRun.Exact (r : BcnRun) : Prop where
  head : r.bcn.head = r.held.head ∧ r.bcn.headLen = (r.held.head.getD []).length
  tail : r.bcn.tail = r.held.tail ∧ r.bcn.tailLen = (r.held.tail.getD []).length
  len : r.bcn.len = r.held.len
  built : ∀ buf, r.built = some buf → buf.size = r.bcn.len ∧ buf.bytes.length = buf.size ∧
    buf.bytes = r.held.head.getD [] ++ timElement r.bcn.dtim ++ r.held.tail.getD [] ++
      r.bcn.ies.getD []

/-- A part that is not given, or is the one there already. -/
def Untouched (given old : Option (List UInt8)) : Prop := ∀ part, given = some part →
    old = some part

/-- The call does not fail behind the replacement of a part by another: not for memory for the tail
behind that of the head, not for want of a head behind that of the tail, not for memory for the
beacon behind either. -/
def Spares (bcn : AmlBcn) (new : BeaconData) (allocs : Allocs) : Prop :=
  (new.head.isSome = true → allocs.head = true) →
    (new.tail.isSome = true → allocs.tail = false → Untouched new.head bcn.head) ∧
      ((new.tail.isSome = true → allocs.tail = true) →
        (new.head.or bcn.head = none → Untouched new.tail bcn.tail) ∧
          (allocs.buf = false → Untouched new.head bcn.head ∧ Untouched new.tail bcn.tail))

/-- The event leaves the parts alone when it fails. -/
def BcnRun.Careful (r : BcnRun) : BcnEvent → Prop
  | .build new allocs => Spares r.bcn new allocs
  | _ => True

/-! ## One call -/

/-- The lengths are those of the parts. -/
structure AmlBcn.Sized (bcn : AmlBcn) : Prop where
  head : bcn.headLen = (bcn.head.getD []).length
  tail : bcn.tailLen = (bcn.tail.getD []).length
  ies : bcn.iesLen = (bcn.ies.getD []).length

theorem replaceHead_eq {bcn : AmlBcn} (sized : bcn.Sized) (head : Option (List UInt8))
    (alloc : Bool) :
    replaceHead bcn head alloc =
      if head.isSome = true → alloc = true then
        some { bcn with head := head.or bcn.head, headLen := ((head.or bcn.head).getD []).length }
      else none := by
  cases head with
  | none =>
      simp only [replaceHead, Option.isSome_none, Bool.false_eq_true, false_imp_iff, if_true,
        Option.none_or]
      rw [← sized.head]
  | some head => cases alloc <;> simp [replaceHead]

theorem replaceTail_eq {bcn : AmlBcn} (sized : bcn.Sized) (tail : Option (List UInt8))
    (alloc : Bool) :
    replaceTail bcn tail alloc =
      if tail.isSome = true → alloc = true then
        some { bcn with tail := tail.or bcn.tail, tailLen := ((tail.or bcn.tail).getD []).length }
      else none := by
  cases tail with
  | none =>
      simp only [replaceTail, Option.isSome_none, Bool.false_eq_true, false_imp_iff, if_true,
        Option.none_or]
      rw [← sized.tail]
  | some tail => cases alloc <;> simp [replaceTail]

/-- A beacon put together of parts of their lengths is those parts. -/
theorem assemble_of_head {bcn : AmlBcn} (sized : bcn.Sized) {head : List UInt8}
    (has_head : bcn.head = some head) (alloc : Bool) :
    assemble bcn alloc =
      ({ bcn with timLen := 6, len := bcn.headLen + bcn.tailLen + bcn.iesLen + 6 },
        if alloc then
          some ⟨bcn.headLen + bcn.tailLen + bcn.iesLen + 6,
            head ++ timElement bcn.dtim ++ bcn.tail.getD [] ++ bcn.ies.getD []⟩
        else none) := by
  have head_len := sized.head
  rw [has_head, Option.getD_some] at head_len
  simp only [assemble, has_head]
  rw [List.take_of_length_le (Nat.le_of_eq head_len.symm),
    List.take_of_length_le (Nat.le_of_eq sized.tail.symm),
    List.take_of_length_le (Nat.le_of_eq sized.ies.symm)]
  cases alloc <;> rfl

theorem untouched_iff {given old : Option (List UInt8)} : Untouched given old ↔
    given.or old = old := by
  cases given with
  | none => simp [Untouched]
  | some part => simp [Untouched, eq_comm]

/-- The template with the new parts in place. -/
def AmlBcn.withParts (bcn : AmlBcn) (head tail : Option (List UInt8)) : AmlBcn :=
  { bcn with
    head := head.or bcn.head
    tail := tail.or bcn.tail
    headLen := ((head.or bcn.head).getD []).length
    tailLen := ((tail.or bcn.tail).getD []).length }

/-- Where a call ends, and what it leaves there. -/
theorem amlBuildBcn_eq {bcn : AmlBcn} (sized : bcn.Sized) (new : BeaconData) (allocs : Allocs) :
    amlBuildBcn bcn new allocs =
      if new.head.isSome = true → allocs.head = true then
        if new.tail.isSome = true → allocs.tail = true then
          assemble (bcn.withParts new.head new.tail) allocs.buf
        else (bcn.withParts new.head none, none)
      else (bcn, none) := by
  unfold amlBuildBcn
  rw [replaceHead_eq sized]
  split
  · next bad =>
      split at bad
      · cases bad
      · next refused => rw [if_neg refused]
  · next middle good =>
      split at good
      · next granted =>
          rw [if_pos granted]
          obtain rfl := Option.some.inj good
          have half : ({ bcn with
              head := new.head.or bcn.head
              headLen := ((new.head.or bcn.head).getD []).length } : AmlBcn).Sized :=
            ⟨rfl, sized.tail, sized.ies⟩
          rw [replaceTail_eq half]
          by_cases granted : new.tail.isSome = true → allocs.tail = true
          · simp only [if_pos granted]
            rfl
          · simp only [if_neg granted]
            rw [AmlBcn.withParts, Option.none_or, ← sized.tail]
      · cases good

theorem AmlBcn.withParts_sized {bcn : AmlBcn} (sized : bcn.Sized)
    (head tail : Option (List UInt8)) : (bcn.withParts head tail).Sized :=
  ⟨rfl, rfl, sized.ies⟩

/-- Parts that are there already change nothing. -/
theorem AmlBcn.withParts_of_untouched {bcn : AmlBcn} (sized : bcn.Sized)
    {head tail : Option (List UInt8)} (same_head : Untouched head bcn.head)
    (same_tail : Untouched tail bcn.tail) : bcn.withParts head tail = bcn := by
  rw [AmlBcn.withParts, untouched_iff.mp same_head, untouched_iff.mp same_tail, ← sized.head,
    ← sized.tail]

/-! ## Every call -/

/-- What a careful run keeps: an exact template, whose length is that of a beacon once there was
one. -/
structure BcnRun.Kept (r : BcnRun) : Prop where
  exact : r.Exact
  ies : r.bcn.iesLen = (r.bcn.ies.getD []).length
  total : r.bcn.head.isSome = true →
    r.bcn.timLen = 6 ∧ r.bcn.len = r.bcn.headLen + r.bcn.tailLen + r.bcn.iesLen + 6

theorem BcnRun.Kept.sized {r : BcnRun} (kept : r.Kept) : r.bcn.Sized := by
  refine ⟨?_, ?_, kept.ies⟩
  · rw [kept.exact.head.1]
    exact kept.exact.head.2
  · rw [kept.exact.tail.1]
    exact kept.exact.tail.2

theorem BcnRun.start_kept (ies : Option (List UInt8)) : (BcnRun.start ies).Kept where
  exact := ⟨⟨rfl, rfl⟩, ⟨rfl, rfl⟩, rfl, by simp [BcnRun.start]⟩
  ies := rfl
  total := by simp [BcnRun.start]

/-- A call that fails and changes nothing keeps all. -/
theorem BcnRun.Kept.unchanged {r : BcnRun} (kept : r.Kept) :
    BcnRun.Kept { bcn := r.bcn, held := r.held, built := none } :=
  ⟨⟨kept.exact.head, kept.exact.tail, kept.exact.len, by simp⟩, kept.ies, kept.total⟩

/-- A beacon is exact. -/
theorem BcnRun.Kept.success {r : BcnRun} (kept : r.Kept) {new : BeaconData} {head : List UInt8}
    (has_head : new.head.or r.bcn.head = some head) :
    BcnRun.Kept {
      bcn := (assemble (r.bcn.withParts new.head new.tail) true).1
      held := ⟨new.head.or r.held.head, new.tail.or r.held.tail,
        (assemble (r.bcn.withParts new.head new.tail) true).1.len⟩
      built := (assemble (r.bcn.withParts new.head new.tail) true).2 } := by
  have sized := AmlBcn.withParts_sized kept.sized new.head new.tail
  rw [assemble_of_head sized has_head]
  have same_head := kept.exact.head.1
  have same_tail := kept.exact.tail.1
  have ies := kept.ies
  refine ⟨⟨?_, ?_, rfl, fun buf returned => ?_⟩, ies, fun _ => ⟨rfl, rfl⟩⟩
  · simp [AmlBcn.withParts, same_head]
  · simp [AmlBcn.withParts, same_tail]
  · obtain rfl := Option.some.inj returned
    refine ⟨rfl, ?_, ?_⟩
    · simp only [List.length_append, timElement, List.length_cons, List.length_nil,
        AmlBcn.withParts, has_head, Option.getD_some, ies]
      omega
    · simp only [AmlBcn.withParts, ← same_head, ← same_tail, has_head, Option.getD_some]

/-- A careful call keeps an exact template. -/
theorem BcnRun.Kept.build {r next : BcnRun} (kept : r.Kept) {new : BeaconData} {allocs : Allocs}
    (spares : Spares r.bcn new allocs) (stepped : r.step (.build new allocs) = .ok next) :
    next.Kept := by
  have sized := kept.sized
  simp only [BcnRun.step, amlBuildBcn_eq sized] at stepped
  obtain rfl := Except.ok.inj stepped
  by_cases head_granted : new.head.isSome = true → allocs.head = true
  · obtain ⟨at_tail, behind⟩ := spares head_granted
    by_cases tail_granted : new.tail.isSome = true → allocs.tail = true
    · obtain ⟨no_head, no_buf⟩ := behind tail_granted
      simp only [if_pos head_granted, if_pos tail_granted]
      cases has_head : new.head.or r.bcn.head with
      | none =>
          have no_new : Untouched new.head r.bcn.head := by
            rw [untouched_iff, has_head]
            exact ((Option.or_eq_none_iff.mp has_head).2).symm
          rw [AmlBcn.withParts_of_untouched sized no_new (no_head has_head)]
          simp only [assemble, (Option.or_eq_none_iff.mp has_head).2]
          exact kept.unchanged
      | some head =>
          cases granted : allocs.buf with
          | true =>
              have built := kept.success has_head
              have sized' := AmlBcn.withParts_sized sized new.head new.tail
              rw [assemble_of_head sized' has_head] at built ⊢
              exact built
          | false =>
              obtain ⟨same_head, same_tail⟩ := no_buf granted
              rw [untouched_iff.mp same_head] at has_head
              rw [AmlBcn.withParts_of_untouched sized same_head same_tail,
                assemble_of_head sized has_head]
              obtain ⟨timLen, total⟩ := kept.total (by rw [has_head]; rfl)
              rw [← total, ← timLen]
              exact kept.unchanged
    · simp only [if_pos head_granted, if_neg tail_granted]
      rw [Classical.not_imp] at tail_granted
      have same := at_tail tail_granted.1 (by simpa using tail_granted.2)
      rw [AmlBcn.withParts_of_untouched sized same fun _ given => by cases given]
      exact kept.unchanged
  · simp only [if_neg head_granted]
    exact kept.unchanged

/-- A call that is not careful leaves a part the last beacon did not have. -/
theorem BcnRun.Kept.build_sharp {r : BcnRun} (kept : r.Kept) {new : BeaconData} {allocs : Allocs}
    (careless : ¬Spares r.bcn new allocs) :
    ∃ next, r.step (.build new allocs) = .ok next ∧ ¬next.Exact := by
  have sized := kept.sized
  have same_head := kept.exact.head.1
  have same_tail := kept.exact.tail.1
  refine ⟨_, rfl, fun exact => careless ?_⟩
  rw [amlBuildBcn_eq sized] at exact
  intro head_granted
  rw [if_pos head_granted] at exact
  refine ⟨fun given refused => ?_, fun tail_granted => ?_⟩
  · rw [if_neg (by simp [given, refused])] at exact
    rw [untouched_iff]
    exact exact.head.1.trans same_head.symm
  · rw [if_pos tail_granted] at exact
    refine ⟨fun no_head => ?_, fun refused => ?_⟩
    · have no_beacon : assemble (r.bcn.withParts new.head new.tail) allocs.buf =
          (r.bcn.withParts new.head new.tail, none) := by
        unfold assemble
        simp only [AmlBcn.withParts, no_head]
      rw [no_beacon] at exact
      rw [untouched_iff]
      exact exact.tail.1.trans same_tail.symm
    · have no_beacon : (assemble (r.bcn.withParts new.head new.tail) allocs.buf).2 = none ∧
          (assemble (r.bcn.withParts new.head new.tail) allocs.buf).1.head =
            new.head.or r.bcn.head ∧
          (assemble (r.bcn.withParts new.head new.tail) allocs.buf).1.tail =
            new.tail.or r.bcn.tail := by
        unfold assemble
        split <;> simp [AmlBcn.withParts, refused]
      obtain ⟨none_built, head, tail⟩ := no_beacon
      have kept_head := exact.head.1
      have kept_tail := exact.tail.1
      simp only [none_built, Option.isSome_none, Bool.false_eq_true, if_false]
        at kept_head kept_tail
      rw [untouched_iff, untouched_iff, ← head, ← tail, kept_head, kept_tail]
      exact ⟨same_head.symm, same_tail.symm⟩

/-- Every event of a careful run keeps an exact template. -/
theorem BcnRun.Kept.step {r next : BcnRun} (kept : r.Kept) {event : BcnEvent}
    (careful : r.Careful event) (stepped : r.step event = .ok next) : next.Kept := by
  cases event with
  | build new allocs => exact kept.build careful stepped
  | dtim period =>
      obtain rfl := Except.ok.inj stepped
      exact ⟨⟨kept.exact.head, kept.exact.tail, kept.exact.len, by simp⟩, kept.ies, kept.total⟩
  | del =>
      obtain rfl := Except.ok.inj stepped
      refine ⟨⟨⟨rfl, rfl⟩, ⟨rfl, rfl⟩, rfl, by simp⟩, ?_, by simp [amlDelBcn]⟩
      have ies := kept.ies
      simp only [amlDelBcn]
      split
      · next zero => rw [← ies, zero]
      · rfl

theorem BcnRun.Kept.sharp {r : BcnRun} (kept : r.Kept) {event : BcnEvent}
    (careless : ¬r.Careful event) : ∃ next, r.step event = .ok next ∧ ¬next.Exact := by
  cases event with
  | build new allocs => exact kept.build_sharp careless
  | dtim period => exact absurd trivial careless
  | del => exact absurd trivial careless

/-- A template is exact after every call of a run exactly when every call is careful. -/
theorem throughout_exact_iff (ies : Option (List UInt8)) (events : List BcnEvent) :
    Run.Throughout BcnRun.step BcnRun.Exact events (BcnRun.start ies) ↔
      Run.Guarded BcnRun.step BcnRun.Careful events (BcnRun.start ies) := by
  have preserved : ∀ r event next, BcnRun.Kept r → True → r.Careful event →
      r.step event = .ok next → next.Kept :=
    fun r event next kept _ careful stepped => kept.step careful stepped
  exact Run.throughout_iff_guarded preserved (fun _ kept => kept.exact)
    (fun _ _ kept _ careless => kept.sharp careless) (fun _ _ => trivial) (BcnRun.start_kept ies)

/-- A beacon is built; a new head and tail come, and memory for the tail does not; then a new tail
comes alone. -/
def mixedParts : List BcnEvent :=
  [.build ⟨some [1], some [2]⟩ {}, .build ⟨some [3], some [4]⟩ { tail := false },
    .build ⟨none, some [5]⟩ {}]

/-- The last beacon has the head of the call that failed. -/
theorem mixedParts_ends :
    (Run.run BcnRun.step mixedParts (BcnRun.start none)).toOption.map (fun r => (r.built, r.held)) =
      some (some ⟨8, [3, 5, 4, 0, 0, 0, 0, 5]⟩, ⟨some [1], some [5], 8⟩) := by
  decide +kernel

theorem mixedParts_not_exact :
    ¬Run.Throughout BcnRun.step BcnRun.Exact mixedParts (BcnRun.start none) := by
  intro exact
  obtain ⟨r, ran, ends⟩ := Run.ends_of_toOption mixedParts_ends
  obtain ⟨built, held⟩ := Prod.mk.inj ends
  have bytes := ((exact mixedParts [] r (List.append_nil _).symm ran).built _ built).2.2
  rw [held] at bytes
  exact absurd (List.cons.inj bytes).1 (by decide)

end AmlW2.Beacon
