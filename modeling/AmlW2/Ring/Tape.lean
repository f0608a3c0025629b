import AmlW2.Ring.Walk

/-!
# What the firmware writes

The firmware writes descriptors into its buffer, lap after lap.  Unrolled, its writes are a tape: a
descriptor starts at a place of the tape, and its next pointer is the address of the place where the
next one starts.  The header of a descriptor is never cut by the end of a lap; a frame that is cut
goes on in the next lap, where the payload descriptor may be repeated.  This file says which bytes
of the tape each descriptor consists of, and where a reader of the tape can stand.
-/

namespace AmlW2.Ring

/-- The bytes written, the size of the device's buffer, and the places where descriptors start. -/
structure Tape where
  data : Memory
  size : Nat
  start : Nat → Nat

/-- The length kept of a descriptor that is cut, and the bytes repeated in the next lap, as
`cutAtEnd` finds them. -/
def cutAt (m : Memory) (rxdesc len : Nat) : Nat × Nat :=
  if len < rxDescSize + rxPdLen then (rxDescSize, 0)
  else if flagsIs80211Mpdu m rxdesc then (rxDescSize + rxPdLen, 0)
  else if len < rxDescSize + rxPdLen + unwrapSize then (rxDescSize + rxPdLen, 0)
  else (len, rxPdLen)

/-- At least the header is kept. -/
theorem cutAt_bounds (m : Memory) (rxdesc : Nat) {len : Nat} (header : rxDescSize ≤ len) :
    rxDescSize ≤ (cutAt m rxdesc len).1 ∧ (cutAt m rxdesc len).1 ≤ len := by
  rw [cutAt]
  split_ifs
  · exact ⟨le_refl _, header⟩
  · exact ⟨Nat.le_add_right _ _, by omega⟩
  · exact ⟨Nat.le_add_right _ _, by omega⟩
  · exact ⟨header, le_refl _⟩

theorem cutAt_of_cutAtEnd {m : Memory} {rxdesc len len' skip' : Nat}
    (cut : cutAtEnd m rxdesc len 0 = .ok (len', skip')) : cutAt m rxdesc len = (len', skip') := by
  simp only [cutAtEnd] at cut
  simp only [cutAt]
  split_ifs at cut ⊢ <;> cases cut <;> rfl

namespace Tape

variable (t : Tape)

/-- The end of the lap in which a place is. -/
def lapEnd (place : Nat) : Nat := place - place % t.size + t.size

/-- The device's address of a place. -/
def addr (place : Nat) : Nat := rxbufStartAddr + place % t.size

/-- The descriptor goes on in the next lap. -/
def Wraps (i : Nat) : Prop := t.lapEnd (t.start i) < t.start (i + 1)

instance (i : Nat) : Decidable (t.Wraps i) := inferInstanceAs (Decidable (_ < _))

/-- The bytes of a descriptor before the end of the lap. -/
def room (i : Nat) : Nat := t.lapEnd (t.start i) - t.start i

/-- What is kept of a descriptor before the end of the lap. -/
def kept (i : Nat) : Nat := (cutAt t.data (t.start i) (t.room i)).1

/-- What is repeated of it at the beginning of the next one. -/
def repeated (i : Nat) : Nat := (cutAt t.data (t.start i) (t.room i)).2

/-- Where the rest of a descriptor that wraps is. -/
def rest (i : Nat) : Nat := t.lapEnd (t.start i) + t.repeated i

/-- The length of a descriptor. -/
def len (i : Nat) : Nat :=
  if t.Wraps i then t.kept i + (t.start (i + 1) - t.rest i) else t.start (i + 1) - t.start i

/-- The bytes of a descriptor, and those that follow it. -/
def content (i : Nat) : Memory := fun j =>
  if t.Wraps i ∧ t.kept i ≤ j then t.data (t.rest i + (j - t.kept i)) else t.data (t.start i + j)

/-- A tape as the firmware writes it. -/
structure Written : Prop where
  origin : t.start 0 = 0
  size_le : rxbufStartAddr + t.size < amlRxWrapFlag
  ordered : ∀ i, t.start i + rxDescSize ≤ t.start (i + 1)
  short : ∀ i, t.start (i + 1) < t.start i + t.size ∧ t.start (i + 1) < t.start i + 65536
  header : ∀ i, t.start i + rxDescSize ≤ t.lapEnd (t.start i)
  linked : ∀ i, newRead t.data (t.start i) = t.addr (t.start (i + 1))
  resumes : ∀ i, t.Wraps i → t.rest i < t.start (i + 1)

/-- Where the reader stands: in a descriptor of which it has so many bytes, with a skip that is
due or not, at a place; and the bytes that it has. -/
inductive At (i : Nat) : Nat → Nat → Nat → Memory → Prop
  /-- Before the end of the lap in which the descriptor starts. -/
  | plain {f : Nat} (before : t.start i + f < t.start (i + 1))
      (inside : t.start i + f < t.lapEnd (t.start i)) :
      At i f 0 (t.start i + f) fun j => t.data (t.start i + j)
  /-- In the next lap. -/
  | further {f : Nat} (wraps : t.Wraps i) (le : t.kept i ≤ f) (lt : f < t.len i) :
      At i f 0 (t.rest i + (f - t.kept i)) (t.content i)
  /-- At the end of the lap, before what is repeated. -/
  | due (wraps : t.Wraps i) (repeats : t.repeated i ≠ 0) :
      At i (t.kept i) (t.repeated i) (t.lapEnd (t.start i)) (t.content i)

variable {t}

/-! ## Laps -/

theorem mod_le_place (place : Nat) : place % t.size ≤ place := Nat.mod_le _ _

theorem Written.size_pos (written : t.Written) : 0 < t.size := by
  have short := written.short 0
  have ordered := written.ordered 0
  omega

theorem lt_lapEnd (pos : 0 < t.size) (place : Nat) : place < t.lapEnd place := by
  have small := Nat.mod_lt place pos
  have le := mod_le_place (t := t) place
  rw [lapEnd]
  omega

/-- Places of one lap. -/
theorem mod_of_lt_lapEnd {p q : Nat} (le : p ≤ q) (lt : q < t.lapEnd p) :
    q % t.size = p % t.size + (q - p) := by
  obtain ⟨d, rfl⟩ := Nat.exists_eq_add_of_le le
  have mod_le := mod_le_place (t := t) p
  rw [lapEnd] at lt
  rw [Nat.add_mod, Nat.mod_eq_of_lt (show d < t.size by omega), Nat.mod_eq_of_lt (by omega)]
  omega

theorem lapEnd_of_lt_lapEnd (pos : 0 < t.size) {p q : Nat} (le : p ≤ q) (lt : q < t.lapEnd p) :
    t.lapEnd q = t.lapEnd p := by
  have same := mod_of_lt_lapEnd le lt
  have mod_le := mod_le_place (t := t) p
  have small := Nat.mod_lt q pos
  rw [lapEnd, lapEnd, same]
  omega

/-- A lap starts where one ends. -/
theorem mod_lapEnd (p : Nat) : t.lapEnd p % t.size = 0 := by
  have split := Nat.div_add_mod p t.size
  have eq : t.lapEnd p = t.size * (p / t.size + 1) := by
    rw [lapEnd, Nat.mul_add, Nat.mul_one]
    omega
  rw [eq, Nat.mul_mod_right]

/-- Places of the next lap. -/
theorem mod_of_lapEnd_le {p q : Nat} (le : t.lapEnd p ≤ q)
    (lt : q < t.lapEnd p + t.size) : q % t.size = q - t.lapEnd p := by
  have zero := mod_lapEnd (t := t) p
  have inside : q < t.lapEnd (t.lapEnd p) := by
    rw [lapEnd, zero]
    omega
  rw [mod_of_lt_lapEnd le inside, zero]
  omega

theorem lapEnd_of_lapEnd_le {p q : Nat} (le : t.lapEnd p ≤ q)
    (lt : q < t.lapEnd p + t.size) : t.lapEnd q = t.lapEnd p + t.size := by
  have mod := mod_of_lapEnd_le le lt
  rw [lapEnd, mod]
  omega

/-! ## Cuts -/

theorem header_le_room (written : t.Written) (i : Nat) : rxDescSize ≤ t.room i := by
  have header := written.header i
  rw [room]
  omega

theorem kept_ge (written : t.Written) (i : Nat) : rxDescSize ≤ t.kept i :=
  (cutAt_bounds _ _ (header_le_room written i)).1

theorem kept_le (written : t.Written) (i : Nat) : t.kept i ≤ t.room i :=
  (cutAt_bounds _ _ (header_le_room written i)).2

theorem start_add_room (written : t.Written) (i : Nat) :
    t.start i + t.room i = t.lapEnd (t.start i) := by
  have header := written.header i
  rw [room]
  omega

theorem len_of_wraps {i : Nat} (wraps : t.Wraps i) :
    t.len i = t.kept i + (t.start (i + 1) - t.rest i) := if_pos wraps

theorem len_of_not_wraps {i : Nat} (plain : ¬t.Wraps i) :
    t.len i = t.start (i + 1) - t.start i := if_neg plain

theorem len_lt (written : t.Written) (i : Nat) : t.len i < 65536 := by
  have short := written.short i
  have kept := kept_le written i
  have room := start_add_room written i
  by_cases wraps : t.Wraps i
  · have resumes := written.resumes i wraps
    rw [len_of_wraps wraps]
    rw [rest] at resumes ⊢
    omega
  · rw [len_of_not_wraps wraps]
    omega

/-- The bytes after a descriptor are those of the next one. -/
theorem content_len_add (written : t.Written) (i j : Nat) :
    t.content i (t.len i + j) = t.data (t.start (i + 1) + j) := by
  have ordered := written.ordered i
  by_cases wraps : t.Wraps i
  · have resumes := written.resumes i wraps
    have len := len_of_wraps wraps
    rw [content, if_pos ⟨wraps, by omega⟩]
    congr 1
    omega
  · have len := len_of_not_wraps wraps
    rw [content, if_neg fun both => wraps both.1]
    congr 1
    omega

/-- The header of a descriptor is the same on the tape and in its content. -/
theorem content_header (written : t.Written) (i : Nat) {j : Nat} (header : j < rxDescSize) :
    t.content i j = t.data (t.start i + j) := by
  have kept := kept_ge written i
  rw [content, if_neg (by omega)]

end Tape

end AmlW2.Ring
