import AmlW2.Lib.Memory
import AmlW2.Reorder.Session

/-!
# Block-ack request frames

`aml_reo_bar_process` reads a block-ack request off the bytes of a frame and forwards the sessions
it names.  This file gives the records of a frame by its format, and the frames of which the parser
applies exactly those, in order, without reading past the end: the length test compares a signed
difference as an unsigned one, so a frame too short for the control field is read all the same.
-/

namespace AmlW2.Reorder

variable {α : Type*}

/-! ## The parser -/

/-- A received frame: `skb->data`, the memory from its first byte on, and `skb->len`. -/
structure BarSkb where
  data : Memory
  len : BitVec 32

/-- `IEEE80211_SEQ_TO_SN`. -/
def seqToSn (seq : Nat) : Nat := (seq &&& 0xfff0) >>> 4

/-- The traffic identifier in `tid_info`. -/
def tidOf (tidInfo : Nat) : Nat := (tidInfo &&& 0xf000) >>> 12

/-- `aml_reo_session_get`, and `aml_reo_forward_to` on the session if there is one. -/
def Endpoint.forwardTo (e : Endpoint α) (ssn : Nat) : Endpoint α :=
  match e.reo with
  | some reo => e.live (amlReoForwardTo (e.ctx reo) ssn)
  | none => e

/-- The sessions of a station during a call, with the positions read of the frame. -/
structure BarRun (α : Type*) where
  reos : Nat → Endpoint α
  reads : List Nat

/-- The record at `per` is applied; its number is read only if there is a session. -/
def BarRun.apply (b : BarRun α) (data : Memory) (per tid : Nat) : BarRun α where
  reos := Function.update b.reos tid
    ((b.reos tid).forwardTo (seqToSn (data.u16 (per + 2))))
  reads := if (b.reos tid).reo.isSome then b.reads ++ [per + 2, per + 3] else b.reads

/-- The loop over the records, with the return value; each pass takes one record of four bytes. -/
def barLoop (data : Memory) (stop : Nat) : Nat → Nat → BarRun α → BarRun α × Int
  | 0, _, b => (b, 0)
  | fuel + 1, per, b =>
      if per < stop then
        let b := { b with reads := b.reads ++ [per, per + 1] }
        let tid := tidOf (data.u16 per)
        if 8 ≤ tid then (b, -1) else barLoop data stop fuel (per + 4) (b.apply data per tid)
      else
        (b, 0)

/-- `len` as it takes part in a comparison with a `size_t`. -/
def barLen (skb : BarSkb) : BitVec 64 := (skb.len - 18#32).signExtend 64

/-- The part of `aml_reo_bar_process` after the length test. -/
def barParse (skb : BarSkb) (b : BarRun α) : BarRun α × Int :=
  let control := skb.data.u16 16
  let b := { b with reads := b.reads ++ [16, 17] }
  -- ignore the GCR BAR
  if control &&& 0x18 ≠ 0 then
    (b, -1)
  else if control &&& 0x6 = 0x4 ∨ control &&& 0x6 = 0x2 then
    if skb.len ≠ 20#32 then (b, -1) else barLoop skb.data skb.len.toNat skb.len.toNat 16 b
  else if control &&& 0x6 = 0x6 then
    if barLen skb % 4#64 ≠ 0#64 ∨ 32#64 < barLen skb then (b, -1)
    else barLoop skb.data skb.len.toNat skb.len.toNat 18 b
  else
    (b, -1)

/-- `aml_reo_bar_process`, on the sessions of the station if it is known. -/
def amlReoBarProcess (sta : Option (Nat → Endpoint α)) (skb : BarSkb) :
    Option (BarRun α) × Int :=
  match sta with
  | none => (none, -1)
  | some reos =>
      if 2#64 ≤ barLen skb then
        let result := barParse skb ⟨reos, []⟩
        (some result.1, result.2)
      else
        (some ⟨reos, []⟩, -1)

/-! ## The format -/

/-- A record of a block-ack request: the window of a traffic identifier starts at a number. -/
structure BarRecord where
  tid : Nat
  ssn : Nat
deriving DecidableEq, Repr

/-- The record at a position. -/
def recordAt (m : Memory) (p : Nat) : BarRecord := ⟨tidOf (m.u16 p), seqToSn (m.u16 (p + 2))⟩

/-- Consecutive records from a position on. -/
def recordsFrom (m : Memory) : Nat → Nat → List BarRecord
  | _, 0 => []
  | p, k + 1 => recordAt m p :: recordsFrom m (p + 4) k

/-- The records of a frame of `n` bytes whose kind is supported and whose length is right for it:
one record, with its traffic identifier in the control field, or in a multi-TID request from one to
eight complete ones after that field.  Group-cast requests are not supported. -/
def barRecords (m : Memory) (n : Nat) : Option (List BarRecord) :=
  let control := m.u16 16
  if n < 20 ∨ control &&& 0x18 ≠ 0 then none
  else if control &&& 0x6 = 0x4 ∨ control &&& 0x6 = 0x2 then
    if n = 20 then some (recordsFrom m 16 1) else none
  else if control &&& 0x6 = 0x6 then
    if 4 ∣ n - 18 ∧ (n - 18) / 4 ≤ 8 then some (recordsFrom m 18 ((n - 18) / 4)) else none
  else none

/-- Forward the sessions that records name, in order. -/
def forwardRecords (records : List BarRecord) (reos : Nat → Endpoint α) : Nat → Endpoint α :=
  records.foldl (fun reos r => Function.update reos r.tid ((reos r.tid).forwardTo r.ssn)) reos

/-- What a parser owes a frame received from a known station. -/
structure BarParsed (skb : BarSkb) (reos : Nat → Endpoint α) (result : BarRun α × Int) : Prop where
  /-- Nothing is read past the end. -/
  inside : ∀ p ∈ result.1.reads, p < skb.len.toNat
  /-- Success means a supported frame whose records all name a traffic identifier. -/
  success : result.2 = 0 ↔
    ∃ records, barRecords skb.data skb.len.toNat = some records ∧ ∀ r ∈ records, r.tid < 8
  failure : result.2 = 0 ∨ result.2 = -1
  /-- All the records of such a frame are applied. -/
  complete : ∀ records, barRecords skb.data skb.len.toNat = some records →
    (∀ r ∈ records, r.tid < 8) → result.1.reos = forwardRecords records reos
  /-- Only the records before the first bad one are applied. -/
  stopped : ∀ front r back, barRecords skb.data skb.len.toNat = some (front ++ r :: back) →
    (∀ r ∈ front, r.tid < 8) → 8 ≤ r.tid → result.1.reos = forwardRecords front reos
  /-- Of a frame that is not supported, nothing is applied. -/
  rejected : barRecords skb.data skb.len.toNat = none → result.1.reos = reos

/-- The call does what it owes: to an unknown station nothing but the error. -/
structure BarHandled (sta : Option (Nat → Endpoint α)) (skb : BarSkb) : Prop where
  known : ∀ reos, sta = some reos →
    ∃ result, amlReoBarProcess sta skb = (some result.1, result.2) ∧ BarParsed skb reos result
  unknown : sta = none → amlReoBarProcess sta skb = (none, -1)

/-! ## The loop -/

theorem BarRun.apply_reos (b : BarRun α) (data : Memory) (per : Nat) :
    (b.apply data per (tidOf (data.u16 per))).reos = forwardRecords [recordAt data per] b.reos :=
  rfl

/-- Over good records, the loop applies all of them. -/
theorem barLoop_complete {data : Memory} {k fuel per : Nat} (enough : k < fuel) (b : BarRun α)
    (good : ∀ r ∈ recordsFrom data per k, r.tid < 8) :
    (barLoop data (per + 4 * k) fuel per b).2 = 0 ∧
      (barLoop data (per + 4 * k) fuel per b).1.reos =
        forwardRecords (recordsFrom data per k) b.reos := by
  induction k generalizing fuel per b with
  | zero =>
      obtain ⟨fuel, rfl⟩ := Nat.exists_eq_add_of_lt enough
      rw [barLoop, if_neg (by omega)]
      exact ⟨rfl, rfl⟩
  | succ k induction =>
      cases fuel with
      | zero => omega
      | succ fuel =>
          have first : ¬8 ≤ tidOf (data.u16 per) :=
            Nat.not_le.mpr (good (recordAt data per) List.mem_cons_self)
          rw [barLoop, if_pos (by omega)]
          simp only [if_neg first]
          rw [show per + 4 * (k + 1) = per + 4 + 4 * k by omega]
          exact induction (by omega) _ fun r member => good r (List.mem_cons_of_mem _ member)

/-- At a bad record the loop ends, with the records before it applied. -/
theorem barLoop_stopped {data : Memory} {k fuel per : Nat} (enough : k < fuel) (b : BarRun α)
    {front back : List BarRecord} {r : BarRecord}
    (split : recordsFrom data per k = front ++ r :: back) (good : ∀ r ∈ front, r.tid < 8)
    (bad : 8 ≤ r.tid) :
    (barLoop data (per + 4 * k) fuel per b).2 = -1 ∧
      (barLoop data (per + 4 * k) fuel per b).1.reos = forwardRecords front b.reos := by
  induction k generalizing fuel per b front with
  | zero => simp [recordsFrom] at split
  | succ k induction =>
      cases fuel with
      | zero => omega
      | succ fuel =>
          rw [barLoop, if_pos (by omega)]
          rw [recordsFrom] at split
          cases front with
          | nil =>
              obtain ⟨here, _⟩ := List.cons.inj split
              have tid : 8 ≤ tidOf (data.u16 per) := by
                rw [← here] at bad
                exact bad
              simp only [if_pos tid]
              exact ⟨trivial, rfl⟩
          | cons first front =>
              obtain ⟨here, later⟩ := List.cons.inj split
              have tid : ¬8 ≤ tidOf (data.u16 per) := by
                have below := good first List.mem_cons_self
                rw [← here] at below
                exact Nat.not_le.mpr below
              simp only [if_neg tid]
              rw [show per + 4 * (k + 1) = per + 4 + 4 * k by omega]
              obtain ⟨ret, reos⟩ := induction (Nat.lt_of_succ_lt_succ enough)
                (BarRun.apply _ data per _) later
                fun r member => good r (List.mem_cons_of_mem _ member)
              refine ⟨ret, reos.trans ?_⟩
              rw [BarRun.apply_reos, here]
              rfl

/-- The loop reads nothing past its end. -/
theorem barLoop_reads {data : Memory} {k fuel per : Nat} (b : BarRun α) {p : Nat}
    (read : p ∈ (barLoop data (per + 4 * k) fuel per b).1.reads) :
    p ∈ b.reads ∨ p < per + 4 * k := by
  induction fuel generalizing per k b with
  | zero => exact Or.inl read
  | succ fuel induction =>
      rw [barLoop] at read
      by_cases inside : per < per + 4 * k
      · rw [if_pos inside] at read
        obtain ⟨k, rfl⟩ : ∃ k', k = k' + 1 := ⟨k - 1, by omega⟩
        by_cases bad : 8 ≤ tidOf (data.u16 per)
        · simp only [if_pos bad, List.mem_append, List.mem_cons, List.not_mem_nil, or_false] at read
          rcases read with before | rfl | rfl
          · exact Or.inl before
          · exact Or.inr inside
          · right
            omega
        · simp only [if_neg bad] at read
          rw [show per + 4 * (k + 1) = per + 4 + 4 * k by omega] at read ⊢
          rcases induction _ read with before | later
          · rw [BarRun.apply] at before
            simp only at before
            split at before
            · simp only [List.mem_append, List.mem_cons, List.not_mem_nil, or_false] at before
              rcases before with (before | rfl | rfl) | rfl | rfl
              · exact Or.inl before
              all_goals
                right
                omega
            · simp only [List.mem_append, List.mem_cons, List.not_mem_nil, or_false] at before
              rcases before with before | rfl | rfl
              · exact Or.inl before
              all_goals
                right
                omega
          · exact Or.inr later
      · rw [if_neg inside] at read
        exact Or.inl read

theorem mem_barLoop_reads {data : Memory} {stop fuel per p : Nat} {b : BarRun α}
    (read : p ∈ b.reads) : p ∈ (barLoop data stop fuel per b).1.reads := by
  induction fuel generalizing per b with
  | zero => exact read
  | succ fuel induction =>
      have later : p ∈ b.reads ++ [per, per + 1] := List.mem_append_left _ read
      simp only [barLoop]
      split
      · split
        · exact later
        · apply induction
          rw [BarRun.apply]
          split
          · exact List.mem_append_left _ later
          · exact later
      · exact read

/-! ## The lengths -/

/-- A difference of at least `2 ^ 31` compares as a huge length. -/
theorem barLen_large {skb : BarSkb} (large : 2 ^ 31 ≤ (skb.len - 18#32).toNat) :
    2 ^ 31 ≤ (barLen skb).toNat := by
  have negative : (skb.len - 18#32).msb = true := by
    rw [BitVec.msb_eq_decide]
    exact decide_eq_true large
  rw [barLen, BitVec.toNat_signExtend, negative]
  simp only [if_true, BitVec.toNat_setWidth]
  omega

/-- The length after the control field, of a frame that reaches it. -/
theorem barLen_toNat {skb : BarSkb} (reaches : 18 ≤ skb.len.toNat) :
    (barLen skb).toNat = skb.len.toNat - 18 ∨
      2 ^ 31 ≤ skb.len.toNat ∧ 2 ^ 31 ≤ (barLen skb).toNat := by
  have difference : (skb.len - 18#32).toNat = skb.len.toNat - 18 := by
    rw [BitVec.toNat_sub_of_le (BitVec.le_def.mpr (show (18#32).toNat ≤ _ from reaches))]
    rfl
  by_cases large : 2 ^ 31 ≤ (skb.len - 18#32).toNat
  · right
    refine ⟨?_, barLen_large large⟩
    omega
  · left
    have positive : (skb.len - 18#32).msb = false := by
      rw [BitVec.msb_eq_decide]
      exact decide_eq_false large
    rw [barLen, BitVec.toNat_signExtend, positive]
    simp only [Bool.false_eq_true, if_false, BitVec.toNat_setWidth, difference]
    omega

/-- A frame that ends before the control field passes the length test. -/
theorem barLen_of_short {skb : BarSkb} (short : skb.len.toNat < 18) : 2#64 ≤ barLen skb := by
  have large : 2 ^ 31 ≤ (skb.len - 18#32).toNat := by
    rw [BitVec.toNat_sub]
    have amount : (18#32).toNat = 18 := rfl
    omega
  have huge := barLen_large large
  rw [BitVec.le_def]
  change 2 ≤ (barLen skb).toNat
  omega

/-- A frame that reaches the control field is parsed if it holds two more bytes. -/
theorem two_le_barLen {skb : BarSkb} (reaches : 18 ≤ skb.len.toNat) :
    2#64 ≤ barLen skb ↔ 20 ≤ skb.len.toNat := by
  rw [BitVec.le_def]
  change 2 ≤ (barLen skb).toNat ↔ _
  rcases barLen_toNat reaches with same | ⟨large, huge⟩
  · omega
  · omega

/-- The length test of a multi-TID request. -/
theorem barLen_multiTid {skb : BarSkb} (reaches : 18 ≤ skb.len.toNat) :
    (barLen skb % 4#64 ≠ 0#64 ∨ 32#64 < barLen skb) ↔
      ¬(4 ∣ skb.len.toNat - 18 ∧ (skb.len.toNat - 18) / 4 ≤ 8) := by
  have whole : barLen skb % 4#64 ≠ 0#64 ↔ (barLen skb).toNat % 4 ≠ 0 := by
    rw [Ne, ← BitVec.toNat_inj, BitVec.toNat_umod]
    rfl
  have above : 32#64 < barLen skb ↔ 32 < (barLen skb).toNat := BitVec.lt_def
  rw [whole, above]
  rcases barLen_toNat reaches with same | ⟨large, huge⟩
  · rw [same]
    omega
  · omega

/-! ## What the parser does -/

/-- A frame refused after its control field was read. -/
theorem barParsed_refused {skb : BarSkb} {reos : Nat → Endpoint α} (reaches : 18 ≤ skb.len.toNat)
    {reads : List Nat} (inside : ∀ p ∈ reads, p < 18)
    (unsupported : barRecords skb.data skb.len.toNat = none) :
    BarParsed skb reos (⟨reos, reads⟩, -1) where
  inside := fun p read => Nat.lt_of_lt_of_le (inside p read) reaches
  success := by
    constructor
    · intro zero
      cases zero
    · rintro ⟨records, decoded, _⟩
      rw [unsupported] at decoded
      cases decoded
  failure := Or.inr rfl
  complete := by
    intro records decoded
    rw [unsupported] at decoded
    cases decoded
  stopped := by
    intro front r back decoded
    rw [unsupported] at decoded
    cases decoded
  rejected := fun _ => rfl

/-- Records are all good, or a first one is bad. -/
theorem good_or_first_bad (records : List BarRecord) :
    (∀ r ∈ records, r.tid < 8) ∨
      ∃ front r back, records = front ++ r :: back ∧ (∀ r ∈ front, r.tid < 8) ∧ 8 ≤ r.tid := by
  induction records with
  | nil => exact Or.inl nofun
  | cons r records induction =>
      by_cases bad : 8 ≤ r.tid
      · exact Or.inr ⟨[], r, records, rfl, nofun, bad⟩
      rcases induction with good | ⟨front, r', back, split, good, bad'⟩
      · exact Or.inl (List.forall_mem_cons.mpr ⟨by omega, good⟩)
      · exact Or.inr ⟨r :: front, r', back, congrArg (r :: ·) split,
          List.forall_mem_cons.mpr ⟨by omega, good⟩, bad'⟩

/-- A frame whose records the loop goes over. -/
theorem barParsed_loop {skb : BarSkb} {reos : Nat → Endpoint α} {per k : Nat} {reads : List Nat}
    (fills : skb.len.toNat = per + 4 * k) (nonempty : 0 < per)
    (inside : ∀ p ∈ reads, p < skb.len.toNat)
    (decoded : barRecords skb.data skb.len.toNat = some (recordsFrom skb.data per k)) :
    BarParsed skb reos (barLoop skb.data skb.len.toNat skb.len.toNat per ⟨reos, reads⟩) := by
  have enough : k < skb.len.toNat := by omega
  have complete : (∀ r ∈ recordsFrom skb.data per k, r.tid < 8) →
      (barLoop skb.data skb.len.toNat skb.len.toNat per ⟨reos, reads⟩).2 = 0 ∧
        (barLoop skb.data skb.len.toNat skb.len.toNat per ⟨reos, reads⟩).1.reos =
          forwardRecords (recordsFrom skb.data per k) reos := by
    intro good
    have looped := barLoop_complete enough (⟨reos, reads⟩ : BarRun α) good
    rwa [← fills] at looped
  have stopped : ∀ front r back, recordsFrom skb.data per k = front ++ r :: back →
      (∀ r ∈ front, r.tid < 8) → 8 ≤ r.tid →
      (barLoop skb.data skb.len.toNat skb.len.toNat per ⟨reos, reads⟩).2 = -1 ∧
        (barLoop skb.data skb.len.toNat skb.len.toNat per ⟨reos, reads⟩).1.reos =
          forwardRecords front reos := by
    intro front r back split good bad
    have looped := barLoop_stopped enough (⟨reos, reads⟩ : BarRun α) split good bad
    rwa [← fills] at looped
  have either := good_or_first_bad (recordsFrom skb.data per k)
  exact {
    inside := by
      intro p read
      rw [fills] at read
      rcases barLoop_reads _ read with before | within
      · exact inside p before
      · omega
    success := by
      rw [decoded]
      constructor
      · intro zero
        rcases either with good | ⟨front, r, back, split, good, bad⟩
        · exact ⟨_, rfl, good⟩
        · rw [(stopped front r back split good bad).1] at zero
          cases zero
      · rintro ⟨records, same, good⟩
        cases same
        exact (complete good).1
    failure := by
      rcases either with good | ⟨front, r, back, split, good, bad⟩
      · exact Or.inl (complete good).1
      · exact Or.inr (stopped front r back split good bad).1
    complete := by
      intro records same good
      rw [decoded] at same
      cases same
      exact (complete good).2
    stopped := by
      intro front r back same good bad
      rw [decoded] at same
      exact (stopped front r back (Option.some.inj same) good bad).2
    rejected := by
      intro unsupported
      rw [decoded] at unsupported
      cases unsupported }

/-- A frame that holds a control field and two more bytes is parsed as the format says. -/
theorem barParse_parsed {skb : BarSkb} (long : 20 ≤ skb.len.toNat) (reos : Nat → Endpoint α) :
    BarParsed skb reos (barParse skb ⟨reos, []⟩) := by
  have control_inside : ∀ p ∈ [16, 17], p < 18 := by simp
  have refused : barRecords skb.data skb.len.toNat = none →
      BarParsed skb reos (⟨reos, [16, 17]⟩, -1) :=
    barParsed_refused (by omega) control_inside
  simp only [barParse, List.nil_append]
  by_cases gcr : skb.data.u16 16 &&& 0x18 ≠ 0
  · rw [if_pos gcr]
    exact refused (by simp only [barRecords]; rw [if_pos (Or.inr gcr)])
  have kept : ¬(skb.len.toNat < 20 ∨ skb.data.u16 16 &&& 0x18 ≠ 0) := by
    rintro (short | group)
    · omega
    · exact gcr group
  rw [if_neg gcr]
  by_cases single : skb.data.u16 16 &&& 0x6 = 0x4 ∨ skb.data.u16 16 &&& 0x6 = 0x2
  · rw [if_pos single]
    by_cases exact_length : skb.len.toNat = 20
    · have same : ¬skb.len ≠ 20#32 := not_not.mpr (BitVec.eq_of_toNat_eq exact_length)
      rw [if_neg same]
      refine barParsed_loop (k := 1) (by omega) (by omega) ?_ ?_
      · intro p read
        exact Nat.lt_of_lt_of_le (control_inside p read) (by omega)
      · simp only [barRecords]
        rw [if_neg kept, if_pos single, if_pos exact_length]
    · have other : skb.len ≠ 20#32 := fun same => exact_length (by rw [same]; rfl)
      rw [if_pos other]
      exact refused (by simp only [barRecords]; rw [if_neg kept, if_pos single,
        if_neg exact_length])
  rw [if_neg single]
  by_cases multi : skb.data.u16 16 &&& 0x6 = 0x6
  · have test := barLen_multiTid (show 18 ≤ skb.len.toNat by omega)
    rw [if_pos multi]
    by_cases whole : 4 ∣ skb.len.toNat - 18 ∧ (skb.len.toNat - 18) / 4 ≤ 8
    · rw [if_neg (by rw [test]; exact not_not.mpr whole)]
      refine barParsed_loop (k := (skb.len.toNat - 18) / 4) (by omega) (by omega) ?_ ?_
      · intro p read
        exact Nat.lt_of_lt_of_le (control_inside p read) (by omega)
      · simp only [barRecords]
        rw [if_neg kept, if_neg single, if_pos multi, if_pos whole]
    · rw [if_pos (test.mpr whole)]
      exact refused (by
        simp only [barRecords]; rw [if_neg kept, if_neg single, if_pos multi, if_neg whole])
  · rw [if_neg multi]
    exact refused (by simp only [barRecords]; rw [if_neg kept, if_neg single, if_neg multi])

/-- Every frame that reaches the control field is parsed as the format says. -/
theorem barHandled_of_reaches {reos : Nat → Endpoint α} {skb : BarSkb}
    (reaches : 18 ≤ skb.len.toNat) : BarHandled (some reos) skb where
  known := by
    intro reos' same
    cases same
    by_cases long : 20 ≤ skb.len.toNat
    · refine ⟨barParse skb ⟨reos, []⟩, ?_, barParse_parsed long reos⟩
      simp only [amlReoBarProcess]
      rw [if_pos ((two_le_barLen reaches).mpr long)]
    · refine ⟨(⟨reos, []⟩, -1), ?_, barParsed_refused reaches nofun ?_⟩
      · simp only [amlReoBarProcess]
        rw [if_neg (mt (two_le_barLen reaches).mp long)]
      · simp only [barRecords]
        rw [if_pos (Or.inl (by omega))]
  unknown := nofun

/-- The parser always reads the control field. -/
theorem mem_barParse_reads (skb : BarSkb) (reos : Nat → Endpoint α) :
    17 ∈ (barParse skb ⟨reos, []⟩).1.reads := by
  have start : 17 ∈ [] ++ [16, 17] := by simp
  simp only [barParse]
  split
  · exact start
  split
  · split
    · exact start
    · exact mem_barLoop_reads start
  split
  · split
    · exact start
    · exact mem_barLoop_reads start
  · exact start

/-- The control field of a shorter frame is read past its end. -/
theorem reaches_of_barHandled {reos : Nat → Endpoint α} {skb : BarSkb}
    (handled : BarHandled (some reos) skb) : 18 ≤ skb.len.toNat := by
  by_contra short
  obtain ⟨result, ran, parsed⟩ := handled.known reos rfl
  simp only [amlReoBarProcess] at ran
  rw [if_pos (barLen_of_short (by omega))] at ran
  have parse : barParse skb ⟨reos, []⟩ = result := by
    obtain ⟨run, ret⟩ := Prod.mk.inj ran
    exact Prod.ext (Option.some.inj run) ret
  have inside := parsed.inside 17 (parse ▸ mem_barParse_reads skb reos)
  omega

/-- The parser does what it owes a frame exactly when the station is unknown or the frame reaches
the end of the control field. -/
theorem barHandled_iff_reaches (sta : Option (Nat → Endpoint α)) (skb : BarSkb) :
    BarHandled sta skb ↔ (sta.isSome = true → 18 ≤ skb.len.toNat) := by
  cases sta with
  | none =>
      exact iff_of_true ⟨nofun, fun _ => rfl⟩ nofun
  | some reos =>
      exact ⟨fun handled _ => reaches_of_barHandled handled,
        fun reaches => barHandled_of_reaches (reaches rfl)⟩

/-- A frame of a receiver and a transmitter address alone is read past its end. -/
theorem bare_header_overread :
    ¬BarHandled (some fun _ => (Endpoint.vacant : Endpoint Unit)) ⟨fun _ => 0, 16#32⟩ := by
  intro handled
  obtain ⟨result, ran, parsed⟩ := handled.known _ rfl
  have read : amlReoBarProcess (some fun _ => (Endpoint.vacant : Endpoint Unit))
      ⟨fun _ => 0, 16#32⟩ = (some ⟨fun _ => Endpoint.vacant, [16, 17]⟩, -1) := rfl
  rw [read] at ran
  obtain ⟨run, _⟩ := Prod.mk.inj ran
  have inside := parsed.inside 16
  rw [← Option.some.inj run] at inside
  exact absurd (inside (by simp)) (by decide)

end AmlW2.Reorder
