import AmlW2.Ring.Slots

/-!
# Where a fetch puts its bytes

A read appends to the host's buffer, or moves a small first part of a descriptor to the beginning
with it, or leaves a descriptor in two parts.  Wherever it goes, a read of bytes of the tape shows
the walk the same bytes, and the slots that it adds lie where no slot was.
-/

namespace AmlW2.Ring

/-! ## Where a read goes -/

/-- The third read of a descriptor in two parts leaves room before the tail, and no read goes behind
the first part of a descriptor that is in two. -/
structure Regular (rx : Rx) (len : Nat) : Prop where
  third : ThirdFits rx len
  behind : rx.frag0 ≠ 0 → rx.tail ≤ rx.head →
    amlSdioUsbRxBufGet rx.head rx.tail rx.bufSz len rx.fw.frag0 ≠ some (rx.head + rx.fw.frag0)

/-- Where a read goes, and the state it starts from. -/
inductive Goes (rx : Rx) (len : Nat) : Rx → Nat → Prop
  | append (room : rx.head + rx.fw.frag0 + busLen len < rx.tail ∨
      rx.tail < rx.head ∧ rx.frag0 = 0 ∧ rx.head + rx.fw.frag0 + busLen len < rx.bufSz) :
      Goes rx len rx (rx.head + rx.fw.frag0)
  | moved (straight : rx.tail < rx.head) (short : rx.fw.frag0 < amlRxFrag0MiniSize)
      (single : rx.frag0 = 0 ∨ amlRxFrag0MiniSize ≤ rx.frag0) (inside : rx.head < rx.bufSz)
      (room : rx.fw.frag0 + busLen len < rx.tail) :
      Goes rx len
        { rx with buf := rx.buf.put 0 rx.fw.frag0 fun i => rx.buf (rx.head + i), frag0 := 0 }
        rx.fw.frag0
  | split {first : Nat} (straight : rx.tail < rx.head) (long : amlRxFrag0MiniSize ≤ first)
      (le : first ≤ rx.fw.frag0) (inside : rx.head + first < rx.bufSz)
      (origin : rx.frag0 = 0 ∧ first = rx.fw.frag0 ∨ first = rx.frag0)
      (room : rx.fw.frag0 - first + busLen len < rx.tail) :
      Goes rx len { rx with frag0 := first } (rx.fw.frag0 - first)

variable {rx rx₁ rx' : Rx} {len place received fwPos : Nat} {slots news : List Slot}

theorem Lies.goes (lies : Lies rx slots) (regular : Regular rx len) {pos : Nat}
    (room : amlSdioUsbRxBufGet rx.head rx.tail rx.bufSz len rx.fw.frag0 = some pos)
    (placed : fetchPlace rx pos = .ok (rx₁, place)) : Goes rx len rx₁ place := by
  have order := lies.order
  have mini := mini_pos
  rcases amlSdioUsbRxBufGet_some room with ⟨rfl, after⟩ | ⟨rfl, below, -, before⟩
  · have goes : Goes rx len rx (rx.head + rx.fw.frag0) := by
      refine .append ?_
      rcases after with ⟨-, before⟩ | ⟨below, inside⟩
      · exact Or.inl before
      · refine Or.inr ⟨by omega, ?_, inside⟩
        by_contra two
        exact regular.behind two (by omega) room
    by_cases zero : rx.head + rx.fw.frag0 = 0
    · have empty : rx.fw.frag0 = 0 := by omega
      have none : rx.frag0 = 0 := by
        cases lies with
        | straight _ some _ => omega
        | wrapped _ _ _ _ none => exact none
        | split _ _ part _ lower _ _ =>
            have le := lower.le
            omega
      rw [fetchPlace, if_pos zero, if_pos (by omega), empty, Memory.put_zero] at placed
      cases placed
      have same : ({ rx with frag0 := 0 } : Rx) = rx := by rw [← none]
      rw [zero] at goes
      change Goes rx len { rx with frag0 := 0 } 0
      rwa [same]
    · rw [fetchPlace, if_neg zero] at placed
      cases placed
      exact goes
  · have straight : rx.tail < rx.head := by omega
    have carry : Carry rx := by
      cases lies with
      | straight _ _ carry => exact carry
      | wrapped _ _ _ room _ => omega
      | split _ _ _ _ _ room _ => omega
    rw [fetchPlace, if_pos rfl] at placed
    split_ifs at placed with short none shorter
    · cases placed
      rw [if_pos short] at before
      refine .moved straight short ?_ ?_ (by omega)
      · cases carry with
        | single none _ => exact Or.inl none
        | parts long _ _ _ => exact Or.inr long
      · cases carry <;> omega
    · cases placed
      rw [if_neg short] at before
      have goes : Goes rx len { rx with frag0 := rx.fw.frag0 } (rx.fw.frag0 - rx.fw.frag0) :=
        .split straight (Nat.le_of_not_lt short) (Nat.le_refl _) (by cases carry <;> omega)
          (Or.inl ⟨none, rfl⟩) (by omega)
      rwa [Nat.sub_self] at goes
    · cases placed
      have fits := regular.third ⟨room, Nat.le_of_not_lt short, none⟩
      cases carry with
      | single zero _ => exact absurd zero none
      | parts long inside _ _ =>
          exact .split straight long (Nat.le_of_not_lt shorter) inside (Or.inr rfl) fits

/-- The state before the bytes are walked over. -/
def Rx.read (rx₁ : Rx) (place len : Nat) (data : Nat → UInt8) : Rx :=
  { rx₁ with buf := rx₁.buf.put place (busLen len) data }

/-- The read leaves alone what is not released. -/
theorem Goes.same (goes : Goes rx len rx₁ place) (lies : Lies rx slots) (data : Nat → UInt8)
    {x : Nat} (held : Held rx x) : (rx₁.read place len data).buf x = rx.buf x := by
  have order := lies.order
  have mini := mini_pos
  rw [Held] at held
  simp only [Rx.read]
  cases goes with
  | append room =>
      rw [Memory.put, if_neg]
      split_ifs at held <;> omega
  | moved straight short single inside room =>
      rw [if_pos (Nat.le_of_lt straight)] at held
      have moved : rx.buf.put 0 rx.fw.frag0 (fun i => rx.buf (rx.head + i)) x = rx.buf x :=
        Memory.put_of_le (by omega)
      rw [Memory.put, if_neg (by omega)]
      exact moved
  | split straight long le inside origin room =>
      rw [if_pos (Nat.le_of_lt straight)] at held
      rw [Memory.put, if_neg (by omega)]

/-- The walk that starts after a read has the carried bytes and then those read. -/
theorem Goes.walkStart (goes : Goes rx len rx₁ place) (lies : Lies rx slots) (le : received ≤ len)
    (fwPos : Nat) (data : Nat → UInt8) :
    let w := Ring.walkStart (rx₁.read place len data) fwPos received place
    w.Clear ∧ (∀ j < rx.fw.frag0, w.byteAt j = rx.buf (rx.carry.place j)) ∧
      ∀ j < received, w.byteAt (rx.fw.frag0 + j) = data j := by
  intro w
  have block := le_busLen len
  have order := lies.order
  have mini := rxDescSize_le_mini
  have some := mini_pos
  have buf : w.buf = rx₁.buf.put place (busLen len) data := rfl
  have same := fun x held => goes.same lies data (x := x) held
  simp only [Rx.read] at same
  rw [← buf] at same
  have pos_eq : w.pos = (place : Int) - rx₁.fw.frag0 := rfl
  have len_eq : w.len = received + rx₁.fw.frag0 := rfl
  have desc : w.rxdesc = if w.pos < 0 then rx₁.head else w.pos.toNat := rfl
  have fresh : ∀ j < received, w.buf (place + j) = data j := by
    intro j inside
    rw [buf]
    exact Memory.put_inside (by omega)
  cases goes with
  | append room =>
      have nonneg : w.pos = rx.head := by omega
      rw [if_neg (by omega)] at desc
      have clear : w.Clear := ⟨fun _ => desc, by omega, by omega, by simp [w, Ring.walkStart]⟩
      have at_head : ∀ j, w.byteAt j = w.buf (rx.head + j) := by
        intro j
        rw [Walk.byteAt, if_neg (by omega)]
        congr 1
        omega
      refine ⟨clear, fun j inside => ?_, fun j inside => ?_⟩
      · rw [at_head, ← same _ (lies.carry_held inside)]
        rcases lies.carry_place inside with ⟨front, -⟩ | back
        · rw [front]
        · omega
      · rw [at_head, ← Nat.add_assoc]
        exact fresh j inside
  | moved straight short single inside room =>
      simp only at pos_eq len_eq buf
      have zero : w.pos = 0 := by omega
      rw [if_neg (by omega)] at desc
      have clear : w.Clear := ⟨fun _ => desc, by omega, by omega, by simp [w, Ring.walkStart]⟩
      have at_zero : ∀ j, w.byteAt j = w.buf j := by
        intro j
        rw [Walk.byteAt, if_neg (by omega)]
        congr 1
        omega
      refine ⟨clear, fun j inside => ?_, fun j inside => ?_⟩
      · rcases lies.carry_place inside with ⟨front, -⟩ | back
        · rw [at_zero, front, buf, Memory.put_of_lt inside]
          have moved : rx.buf.put 0 rx.fw.frag0 (fun i => rx.buf (rx.head + i)) (0 + j) =
              rx.buf (rx.head + j) := Memory.put_inside inside
          rwa [Nat.zero_add] at moved
        · omega
      · rw [at_zero]
        exact fresh j inside
  | @split first straight long first_le inside origin room =>
      simp only at pos_eq len_eq desc
      have negative : w.pos = -(first : Int) := by omega
      rw [if_pos (by omega)] at desc
      have clear : w.Clear :=
        ⟨by omega, by omega, by omega, by simp [w, Ring.walkStart]⟩
      refine ⟨clear, fun j inside => ?_, fun j inside => ?_⟩
      · have place := lies.carry_place inside
        rw [Walk.byteAt, ← same _ (lies.carry_held inside), desc]
        by_cases front : j < first
        · rw [if_pos (by omega)]
          congr 1
          omega
        · rw [if_neg (by omega)]
          congr 1
          omega
      · rw [Walk.byteAt, if_neg (by omega), ← fresh j inside]
        congr 1
        omega

/-! ## From the tape -/

namespace Tape

variable {t : Tape} {i f skip : Nat} {view : Memory} {w w' : Walk} {fw : Fw} {bufSz pos0 : Nat}

theorem At.lt (at_ : t.At i f skip place view) (written : t.Written) : f < 65536 := by
  have short := written.short i
  have room := start_add_room written i
  have kept := kept_le written i
  cases at_ with
  | plain before inside => omega
  | further wraps le lt =>
      have len := len_lt written i
      omega
  | due wraps repeats =>
      have later : t.lapEnd (t.start i) < t.start (i + 1) := wraps
      omega

/-- The place is behind the start of the descriptor, before that of the next one. -/
theorem At.place_lt (at_ : t.At i f skip place view) (written : t.Written) :
    t.start i ≤ place ∧ place < t.start (i + 1) := by
  have later := lt_lapEnd written.size_pos (t.start i)
  cases at_ with
  | plain before inside => exact ⟨Nat.le_add_right _ _, before⟩
  | further wraps le lt =>
      have resumes := written.resumes i wraps
      have len := len_of_wraps wraps
      rw [rest] at resumes len ⊢
      omega
  | due wraps repeats => exact ⟨Nat.le_of_lt later, wraps⟩

/-- A read at the reader's place, up to the end of the lap at most, is walked over from the
descriptor on; what ends in it is longer than what the reader had. -/
theorem At.walking (at_ : t.At i f skip place view) (written : t.Written) (none : skip = 0)
    (clear : w.Clear) (rxEnd : fw.rxEnd = rxbufStartAddr + t.size)
    (fits : place + received ≤ t.lapEnd place) (len_eq : w.len = received + f)
    (fwPos_eq : w.fwPos + f = t.addr place) (old : ∀ j < f, w.byteAt j = view j)
    (new : ∀ j < received, w.byteAt (f + j) = t.data (place + j)) :
    t.Walking (place + received) i w ∧
      ∀ n w₁, Measured fw bufSz pos0 w n w₁ → f < n := by
  have header := written.header i
  have both : ∀ j < w.len, f ≤ j → w.byteAt j = t.data (place + (j - f)) := by
    intro j inside beyond
    rw [← new (j - f) (by omega)]
    congr 1
    omega
  cases at_ with
  | plain before inside =>
      have lap := lapEnd_of_lt_lapEnd written.size_pos (Nat.le_add_right _ f) inside
      have mod := mod_of_lt_lapEnd (t := t) (Nat.le_add_right _ f) inside
      rw [addr, mod] at fwPos_eq
      have on : t.OnLap (t.start i + f + received) i w := by
        refine ⟨fun _ => ?_, by omega, by omega, fun j small => ?_⟩
        · rw [addr]
          omega
        · by_cases had : j < f
          · exact old j had
          · rw [both j small (by omega)]
            congr 1
            omega
      refine ⟨.onLap on, fun n w₁ measured => ?_⟩
      have total := on.totLen written clear rxEnd (Nat.le_trans measured.size measured.size_le)
      have plain : ¬t.Wraps i := by
        intro wraps
        rw [if_pos wraps, measured.total] at total
        omega
      rw [if_neg plain, measured.total, len_of_not_wraps plain] at total
      omega
  | further wraps le lt =>
      have short := (written.short i).1
      have resumes := written.resumes i wraps
      have len := len_of_wraps wraps
      have later : t.lapEnd (t.start i) ≤ t.rest i + (f - t.kept i) := by
        rw [rest]
        omega
      have lap := lapEnd_of_lapEnd_le later (by omega)
      have mod := mod_of_lapEnd_le later (by omega)
      rw [addr, mod] at fwPos_eq
      rw [rest] at fwPos_eq later
      have on : t.Resumed (t.rest i + (f - t.kept i) + received) i w := by
        refine ⟨wraps, by omega, by omega, by omega, by omega, fun j small => ?_⟩
        by_cases had : j < f
        · exact old j had
        · rw [both j small (by omega), content, if_pos ⟨wraps, by omega⟩]
          congr 1
          omega
      refine ⟨.resumed on, fun n w₁ measured => ?_⟩
      have eq := (on.next written clear measured).1
      omega
  | due wraps repeats => exact absurd none repeats

end Tape

/-! ## Where the new slots are -/

section Rows

variable {fw : Fw} {bufSz pos0 : Nat} {reachEnd : Bool} {w w' : Walk}

/-- From a position in the buffer on, the descriptors found are in one part each. -/
theorem Parsed.row (parsed : Parsed fw bufSz reachEnd pos0 w news w') {prev : Option Nat}
    (steady : w.Steady pos0 prev) (inside : 0 ≤ w.pos) :
    0 ≤ w'.pos ∧ Row w.pos.toNat news w'.pos.toNat := by
  obtain ⟨last, row⟩ := parsed.walked.consecutive steady inside
  refine ⟨last, row, ?_⟩
  clear row steady last
  induction parsed with
  | done => simp
  | stop => simp
  | @next w w₁ w' n news measured rest induction =>
      have moved := measured.pos_eq
      intro s member
      rcases List.mem_cons.mp member with rfl | later
      · change (-w.pos).toNat = 0
        omega
      · exact induction (by omega) s later

/-- Only the first descriptor found may be in two parts. -/
theorem Parsed.whole {s : Slot} (parsed : Parsed fw bufSz reachEnd pos0 w (s :: news) w') :
    ∀ b ∈ news, b.first = 0 := by
  cases parsed with
  | next measured rest =>
      have pos := measured.pos
      have moved := measured.pos_eq
      exact (rest.row measured.toFound.steady (by omega)).2.whole

/-- A walk that finds nothing stays where it is; it keeps what it has, or cuts it short. -/
theorem Parsed.nothing (parsed : Parsed fw bufSz reachEnd pos0 w [] w') :
    w'.pos = w.pos ∧ (w'.len = w.len ∨ w'.len < amlRxFrag0MiniSize) ∧ w'.rxdesc = w.rxdesc := by
  cases parsed with
  | done => exact ⟨rfl, Or.inl rfl, rfl⟩
  | stop some turn =>
      cases walkTurn_stops turn with
      | short len =>
          refine ⟨rfl, ?_, rfl⟩
          simp only
          have mini := mini_pos
          split_ifs <;> omega
      | waits => exact ⟨rfl, Or.inl rfl, rfl⟩
      | partly => exact ⟨rfl, Or.inl rfl, rfl⟩
      | cut long wraps ends cut =>
          have header : rxDescSize < amlRxFrag0MiniSize := by decide
          have both : rxDescSize + rxPdLen < amlRxFrag0MiniSize := by decide
          refine ⟨rfl, ?_, rfl⟩
          simp only [cutAtEnd] at cut
          split_ifs at cut <;> cases cut
          · exact Or.inr header
          · exact Or.inr both
          · exact Or.inr both
          · exact Or.inl rfl

end Rows

theorem Lies.carry (lies : Lies rx slots) (straight : rx.tail < rx.head) :
    Row rx.tail slots rx.head ∧ Carry rx := by
  cases lies with
  | straight row _ carry => exact ⟨row, carry⟩
  | wrapped _ _ _ room _ => omega
  | split _ _ _ _ _ room _ => omega

/-- The new slots follow the old ones, wherever the read went, and what is left is carried. -/
theorem Goes.lies {w w' : Walk} {fw : Fw} {bufSz : Nat} {reachEnd : Bool} {data : Nat → UInt8}
    (goes : Goes rx len rx₁ place) (lies : Lies rx slots) (some : slots ≠ []) (le : received ≤ len)
    (start : w = Ring.walkStart (rx₁.read place len data) fwPos received place) (clear : w'.Clear)
    (parsed : Parsed fw bufSz reachEnd w.rxdesc w news w')
    (fetched : Fetched (rx₁.read place len data) w.rxdesc w' rx') (small : w'.len < 65536)
    (longer : ∀ s rest, news = s :: rest → rx.fw.frag0 < s.len) :
    Lies rx' (slots ++ news) ∧ rx'.carry.pos = w'.rxdesc ∧
      rx'.carry.first = (-w'.pos).toNat := by
  have steady : w.Steady w.rxdesc none := start ▸ walkStart_steady _ _ _ _
  have total := parsed.walked.end_le
  have block := le_busLen len
  have order := lies.order
  have mini := mini_pos
  have eq := fetched.eq
  have pos_eq : w.pos = (place : Int) - rx₁.fw.frag0 := start ▸ rfl
  have len_eq : w.len = received + rx₁.fw.frag0 := start ▸ rfl
  have tail : rx'.tail = rx₁.tail := by rw [eq]; rfl
  have size : rx'.bufSz = rx₁.bufSz := by rw [eq]; rfl
  have first : rx'.frag0 = rx₁.frag0 := by rw [eq]; rfl
  have head : rx'.head = if 0 ≤ w'.pos then w'.pos.toNat else rx₁.head := by rw [eq]; rfl
  have frag0 : rx'.fw.frag0 = w'.len := by
    rw [eq]
    exact Nat.mod_eq_of_lt small
  -- what is left behind the slots found is in one part
  have behind : 0 ≤ w'.pos → (rx'.tail ≤ rx'.head → rx'.frag0 = 0) →
      rx'.carry.pos = w'.rxdesc ∧ rx'.carry.first = (-w'.pos).toNat := by
    intro inside single
    have desc := clear.rxdesc inside
    rw [if_pos inside] at head
    refine ⟨?_, ?_⟩
    · change rx'.head = w'.rxdesc
      omega
    · change (if rx'.tail ≤ rx'.head then rx'.frag0 else 0) = _
      split_ifs with straight
      · have zero := single straight
        omega
      · omega
  cases goes with
  | append room =>
      obtain ⟨last, row⟩ := parsed.row steady (by omega)
      refine ⟨?_, behind last fun straight => ?_⟩
      · rw [if_pos last] at head
        have origin : w.pos.toNat = rx.head := by omega
        rw [origin, ← head] at row
        have grown := row.le
        cases lies with
        | straight row' _ carry =>
            refine .straight (tail ▸ row'.append row) (by omega) (.single (by omega) (by omega))
        | wrapped upper top_le lower _ none =>
            rw [List.append_assoc]
            exact .wrapped (tail ▸ upper) (size ▸ top_le) (lower.append row) (by omega)
              (first.trans none)
        | split upper long part top_le lower _ mark =>
            rw [List.append_assoc, List.cons_append]
            exact .split (tail ▸ upper) long part (size ▸ top_le) (lower.append row) (by omega)
              (first.trans mark)
      · rw [if_pos last] at head
        omega
  | moved straight short single inside room =>
      simp only at pos_eq len_eq tail size first
      obtain ⟨row', -⟩ := lies.carry straight
      obtain ⟨last, row⟩ := parsed.row steady (by omega)
      refine ⟨?_, behind last fun _ => first⟩
      rw [if_pos last] at head
      have origin : w.pos.toNat = 0 := by omega
      rw [origin, ← head] at row
      exact .wrapped (tail ▸ row') (by omega) row (by omega) first
  | @split part straight long part_le inside origin room =>
      simp only at pos_eq len_eq tail size first head
      obtain ⟨row', -⟩ := lies.carry straight
      have desc : w.rxdesc = if w.pos < 0 then rx.head else w.pos.toNat := start ▸ rfl
      rw [if_pos (by omega)] at desc
      cases news with
      | nil =>
          obtain ⟨same, kept, desc'⟩ := parsed.nothing
          rw [if_neg (by omega)] at head
          rw [List.append_nil]
          refine ⟨.straight (tail ▸ head ▸ row') (by omega) (.parts ?_ ?_ ?_ ?_), ?_, ?_⟩
          · omega
          · omega
          · omega
          · omega
          · change rx'.head = w'.rxdesc
            omega
          · change (if rx'.tail ≤ rx'.head then rx'.frag0 else 0) = _
            rw [if_pos (by omega)]
            omega
      | cons s rest =>
          have longer := longer s rest rfl
          cases parsed with
          | @next _ w₁ _ n _ measured rest' =>
              have moved := measured.pos_eq
              have longer : rx.fw.frag0 < n := longer
              obtain ⟨last, row⟩ := rest'.row measured.toFound.steady (by omega)
              have slot : w.slot n = ⟨rx.head, n, part⟩ := by
                rw [Walk.slot, desc, show (-w.pos).toNat = part by omega]
              have rest_le := rest'.walked.end_le
              have shorter := measured.len_eq
              refine ⟨?_, behind last fun straight => ?_⟩
              · rw [if_pos last] at head
                have origin : w₁.pos.toNat = n - part := by omega
                rw [origin, ← head] at row
                rw [slot]
                refine .split (s := ⟨rx.head, n, part⟩) (tail ▸ row') long ?_ ?_ row ?_ ?_
                · change part < n
                  omega
                · change rx.head + part ≤ rx'.bufSz
                  omega
                · omega
                · rw [if_neg some]
                  exact first
              · rw [if_pos last] at head
                omega

end AmlW2.Ring
