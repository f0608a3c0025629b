import AmlW2.Lib.Loop
import AmlW2.Lib.Run

/-!
# The reader of the firmware trace ring

`aml_traceind` reads the ring of the firmware with the word in front of it that tells the end, and
passes the words from the end of the last call on to the trace log.  Behind a wrap it begins at that
word, not at the ring.
-/

namespace AmlW2.Trace

/-- The 16-bit words of the ring, `TRACE_TOTAL_SIZE / 2`. -/
abbrev traceWords : Nat := 10240

/-- The 16-bit words of `end`, which are in front of the ring in the buffer. -/
abbrev endWords : Nat := 2

/-- The words of the buffer from a first one up to a limit. -/
def wordsTo (first limit : Nat) : List Nat := List.range' first (limit - first)

/-- What a call finds: whether the bus is ready and the buffer there, the end that the firmware has
written, and whether `aml_trace_log_to_file` takes each piece. -/
structure Report where
  ready : Bool
  stop : Nat
  takes : Nat → Bool

/-- The variables of the loop, and the words of the buffer that the trace log has taken. -/
structure Reading where
  flagEnd : Nat
  ptrFlag : Nat
  loopFlag : Bool
  taken : List Nat
  calls : Nat
  err : Bool

/-- A pass that hands over a piece. -/
def Reading.hand (s : Reading) (takes : Nat → Bool) (limit flagEnd : Nat) (loopFlag : Bool) :
    Reading :=
  let first := s.ptrFlag + s.flagEnd
  if takes s.calls then
    { flagEnd := flagEnd
      ptrFlag := if loopFlag then 0 else first
      loopFlag := loopFlag
      taken := s.taken ++ wordsTo first limit
      calls := s.calls + 1
      err := false }
  else { s with flagEnd := flagEnd, err := true }

/-- The loop of `aml_traceind`. -/
def readLoop (r : Report) : Loop Reading where
  goes s := !s.err && decide (r.stop ≠ s.flagEnd)
  pass s :=
    if r.stop < s.flagEnd then s.hand r.takes (s.ptrFlag + traceWords) 0 true
    else s.hand r.takes (s.ptrFlag + r.stop) r.stop s.loopFlag

/-- The loop begins behind the word that tells the end. -/
def readStart (flagEnd : Nat) : Reading := ⟨flagEnd, endWords, false, [], 0, false⟩

/-- `aml_traceind`, with `flag_end`; no call makes more than two passes. -/
def traceInd (flagEnd : Nat) (r : Report) : Nat × List Nat :=
  if r.ready then
    let s := (readLoop r).after 2 (readStart flagEnd)
    (s.flagEnd, s.taken)
  else (flagEnd, [])

/-! ## What the ring holds anew -/

/-- The words of the ring from one end to the next. -/
def cyclic (last stop : Nat) : List Nat :=
  if last ≤ stop then wordsTo last stop else wordsTo last traceWords ++ wordsTo 0 stop

/-- The calls so far: the end of the last one, what the trace log has taken and what it should
have. -/
structure Log where
  flagEnd : Nat
  last : Nat
  taken : List Nat
  due : List Nat

/-- A word of the ring in the buffer. -/
def inBuffer (w : Nat) : Nat := endWords + w

inductive Never

/-- A call. -/
def Log.call (l : Log) (r : Report) : Except Never Log :=
  .ok
    { flagEnd := (traceInd l.flagEnd r).1
      last := if r.ready then r.stop else l.last
      taken := l.taken ++ (traceInd l.flagEnd r).2
      due := l.due ++ if r.ready then (cyclic l.last r.stop).map inBuffer else [] }

/-- The trace log has taken each new word of the ring once and in order, and no other. -/
structure Log.Exact (l : Log) : Prop where
  taken : l.taken = l.due
  inside : ∀ w ∈ l.taken, endWords ≤ w ∧ w < endWords + traceWords

/-- The end is in the ring, a wrap is to its begin, and the trace log takes the piece. -/
def Report.Plain (l : Log) (r : Report) : Prop :=
  r.ready = true → r.stop ≤ traceWords ∧ (r.stop < l.flagEnd → r.stop = 0) ∧
    (cyclic l.flagEnd r.stop = [] ∨ r.takes 0 = true)

/-! ## One call -/

theorem wordsTo_inBuffer (first limit : Nat) :
    wordsTo (endWords + first) (endWords + limit) = (wordsTo first limit).map inBuffer := by
  rw [wordsTo, wordsTo, Nat.add_sub_add_left]
  exact (List.map_add_range' first (limit - first) 1).symm

variable {flagEnd : Nat} {r : Report}

theorem traceInd_same (ready : r.ready = true) (same : r.stop = flagEnd) :
    traceInd flagEnd r = (r.stop, []) := by
  simp [traceInd, ready, Loop.after, readLoop, readStart, same]

theorem traceInd_up (ready : r.ready = true) (up : flagEnd < r.stop) :
    traceInd flagEnd r =
      (r.stop, if r.takes 0 then (wordsTo flagEnd r.stop).map inBuffer else []) := by
  have ne : r.stop ≠ flagEnd := Nat.ne_of_gt up
  have low : ¬r.stop < flagEnd := Nat.not_lt.mpr (Nat.le_of_lt up)
  rw [← wordsTo_inBuffer]
  cases takes : r.takes 0 with
  | true =>
      simp [traceInd, ready, Loop.after, readLoop, readStart, ne, low, Reading.hand, takes]
  | false =>
      simp [traceInd, ready, Loop.after, readLoop, readStart, ne, low, Reading.hand, takes]

/-- Behind a wrap the second piece begins at the end word. -/
theorem traceInd_wrap (ready : r.ready = true) (wrap : r.stop < flagEnd) :
    traceInd flagEnd r =
      if r.takes 0 then
        (r.stop, (wordsTo flagEnd traceWords).map inBuffer ++
          if r.takes 1 then wordsTo 0 r.stop else [])
      else (0, []) := by
  have ne : r.stop ≠ flagEnd := Nat.ne_of_lt wrap
  rw [← wordsTo_inBuffer]
  cases takes : r.takes 0 with
  | false =>
      simp [traceInd, ready, Loop.after, readLoop, readStart, ne, wrap, Reading.hand, takes]
  | true =>
      by_cases zero : r.stop = 0
      · simp [traceInd, ready, Loop.after, readLoop, readStart, zero ▸ ne, zero ▸ wrap,
          Reading.hand, takes, zero, wordsTo]
      · cases second : r.takes 1 with
        | true =>
            simp [traceInd, ready, Loop.after, readLoop, readStart, ne, wrap, Reading.hand, takes,
              zero, second]
        | false =>
            simp [traceInd, ready, Loop.after, readLoop, readStart, ne, wrap, Reading.hand, takes,
              zero, second]

/-! ## Runs of calls -/

/-- What holds between two calls. -/
structure Log.Sound (l : Log) : Prop extends l.Exact where
  flagEnd : l.flagEnd = l.last
  last : l.last ≤ traceWords

theorem mem_wordsTo {first limit w : Nat} : w ∈ wordsTo first limit ↔ first ≤ w ∧ w < limit := by
  rw [wordsTo, List.mem_range'_1]
  omega

theorem cyclic_self (last : Nat) : cyclic last last = [] := by
  rw [cyclic, if_pos (Nat.le_refl last), wordsTo, Nat.sub_self]
  rfl

/-- Within the ring, what is due is in the ring. -/
theorem inside_due {last stop : Nat} (within : stop ≤ traceWords) :
    ∀ w ∈ (cyclic last stop).map inBuffer, endWords ≤ w ∧ w < endWords + traceWords := by
  rw [List.forall_mem_map]
  intro w member
  have below : w < traceWords := by
    rw [cyclic] at member
    split at member
    · exact Nat.lt_of_lt_of_le (mem_wordsTo.mp member).2 within
    · obtain first | second := List.mem_append.mp member
      · exact (mem_wordsTo.mp first).2
      · exact Nat.lt_of_lt_of_le (mem_wordsTo.mp second).2 within
  exact ⟨Nat.le_add_right _ _, Nat.add_lt_add_left below _⟩

/-- A plain call hands over what is due. -/
theorem traceInd_plain {l : Log} (plain : r.Plain l) (ready : r.ready = true) :
    traceInd l.flagEnd r = (r.stop, (cyclic l.flagEnd r.stop).map inBuffer) := by
  obtain ⟨within, wrap, takes⟩ := plain ready
  rcases Nat.lt_trichotomy r.stop l.flagEnd with down | same | up
  · have zero := wrap down
    have split : cyclic l.flagEnd r.stop = wordsTo l.flagEnd traceWords := by
      rw [cyclic, if_neg (Nat.not_le.mpr down), zero, wordsTo, wordsTo]
      exact List.append_nil _
    have nothing : wordsTo 0 r.stop = [] := by rw [zero]; rfl
    rw [traceInd_wrap ready down, nothing, ite_self, List.append_nil, split]
    obtain none | taken := takes
    · rw [split] at none
      rw [none, List.map_nil, zero, ite_self]
    · rw [if_pos taken]
  · rw [traceInd_same ready same, ← same, cyclic_self, List.map_nil]
  · have split : cyclic l.flagEnd r.stop = wordsTo l.flagEnd r.stop := if_pos (Nat.le_of_lt up)
    rw [traceInd_up ready up]
    obtain none | taken := takes
    · rw [split] at none
      rw [split, none, List.map_nil, ite_self]
    · rw [if_pos taken, split]

theorem wordsTo_ne_nil {first limit : Nat} (lt : first < limit) : wordsTo first limit ≠ [] :=
  List.ne_nil_of_mem (mem_wordsTo.mpr ⟨Nat.le_refl first, lt⟩)

/-- A call that is not plain hands over something else, or words that are not of the ring. -/
theorem traceInd_not_plain {l : Log} (last : l.flagEnd ≤ traceWords) (ready : r.ready = true)
    (other : ¬r.Plain l) :
    (traceInd l.flagEnd r).2 ≠ (cyclic l.flagEnd r.stop).map inBuffer ∨
      ∃ w ∈ (traceInd l.flagEnd r).2, endWords + traceWords ≤ w := by
  rcases Nat.lt_trichotomy r.stop l.flagEnd with down | same | up
  · left
    have split : cyclic l.flagEnd r.stop = wordsTo l.flagEnd traceWords ++ wordsTo 0 r.stop :=
      if_neg (Nat.not_le.mpr down)
    rw [traceInd_wrap ready down, split, List.map_append]
    cases takes : r.takes 0 with
    | false =>
        intro nothing
        rw [if_neg Bool.false_ne_true, ← List.map_append, ← split] at nothing
        have none : cyclic l.flagEnd r.stop = [] := List.map_eq_nil_iff.mp nothing.symm
        have zero : r.stop = 0 := by
          rw [split] at none
          by_contra positive
          exact wordsTo_ne_nil (Nat.pos_of_ne_zero positive) (List.append_eq_nil_iff.mp none).2
        exact other fun _ => ⟨Nat.le_trans (Nat.le_of_lt down) last, fun _ => zero, Or.inl none⟩
    | true =>
        intro same
        rw [if_pos rfl] at same
        have second := List.append_cancel_left same
        have positive : 0 < r.stop := by
          by_contra zero
          exact other fun _ => ⟨Nat.le_trans (Nat.le_of_lt down) last, fun _ =>
            Nat.le_zero.mp (Nat.not_lt.mp zero),
            Or.inr takes⟩
        have first : 0 ∈ (wordsTo 0 r.stop).map inBuffer := by
          have some : wordsTo 0 r.stop ≠ [] := wordsTo_ne_nil positive
          rw [← second]
          split
          · exact mem_wordsTo.mpr ⟨Nat.le_refl 0, positive⟩
          · rename_i untaken
            rw [if_neg untaken] at second
            exact absurd (List.map_eq_nil_iff.mp second.symm) some
        obtain ⟨w, -, zero⟩ := List.mem_map.mp first
        exact absurd (Nat.add_eq_zero_iff.mp zero).1 (by decide)
  · refine absurd (fun _ => ?_) other
    exact ⟨Nat.le_trans (Nat.le_of_eq same) last, fun down => absurd same (Nat.ne_of_lt down),
      Or.inl (by rw [same, cyclic_self])⟩
  · have split : cyclic l.flagEnd r.stop = wordsTo l.flagEnd r.stop := if_pos (Nat.le_of_lt up)
    rw [traceInd_up ready up, split]
    cases takes : r.takes 0 with
    | false =>
        left
        intro nothing
        exact wordsTo_ne_nil up (List.map_eq_nil_iff.mp nothing.symm)
    | true =>
        right
        have outside : traceWords < r.stop := by
          by_contra within
          exact other fun _ =>
            ⟨Nat.not_lt.mp within, fun down => absurd up (Nat.lt_asymm down), Or.inr takes⟩
        refine ⟨inBuffer (r.stop - 1), ?_, ?_⟩
        · exact List.mem_map_of_mem (mem_wordsTo.mpr (by omega))
        · exact Nat.add_le_add_left (Nat.le_sub_one_of_lt outside) endWords

theorem call_sound {l l' : Log} (sound : l.Sound) (plain : r.Plain l) (called : l.call r = .ok l') :
    l'.Sound := by
  cases called
  by_cases ready : r.ready = true
  · have handed := traceInd_plain plain ready
    refine ⟨⟨?_, ?_⟩, ?_, ?_⟩
    · simp only [handed, if_pos ready, sound.taken, ← sound.flagEnd]
    · simp only [handed]
      exact List.forall_mem_append.mpr ⟨sound.inside, inside_due (plain ready).1⟩
    · simp only [handed, if_pos ready]
    · simp only [if_pos ready]
      exact (plain ready).1
  · have idle : traceInd l.flagEnd r = (l.flagEnd, []) := if_neg ready
    simp only [idle, if_neg ready, List.append_nil]
    exact sound

theorem call_not_exact {l l' : Log} (sound : l.Sound) (other : ¬r.Plain l)
    (called : l.call r = .ok l') : ¬l'.Exact := by
  cases called
  have ready : r.ready = true := by
    by_contra idle
    exact other fun ready => absurd ready idle
  rintro ⟨taken, inside⟩
  simp only [if_pos ready, sound.taken, List.append_cancel_left_eq, ← sound.flagEnd] at taken inside
  obtain differs | ⟨w, member, outside⟩ := traceInd_not_plain (sound.flagEnd ▸ sound.last)
      ready other
  · exact differs taken
  · exact Nat.not_lt.mpr outside (inside w (List.mem_append_right _ member)).2

/-- The trace log before the first call. -/
def Log.initial : Log := ⟨0, 0, [], []⟩

/-- The runs in which the trace log has each new word of the ring and no other are those of plain
calls. -/
theorem exact_iff_plain (reports : List Report) :
    Run.Throughout Log.call Log.Exact reports .initial ↔
      Run.Guarded Log.call (fun l r => r.Plain l) reports .initial :=
  Run.throughout_iff_guarded
    (fun _ _ _ sound (_ : True) plain called => call_sound sound plain called)
    (fun _ sound => sound.toExact)
    (fun _ _ sound _ other => ⟨_, rfl, call_not_exact sound other rfl⟩)
    (fun _ _ => trivial)
    ⟨⟨rfl, fun _ member => absurd member List.not_mem_nil⟩, rfl, Nat.zero_le _⟩

/-- The end comes near the end of the ring, and then behind its begin. -/
def beforeWrap : Report := ⟨true, 10000, fun _ => true⟩

def behindWrap : Report := ⟨true, 5, fun _ => true⟩

/-- Behind the wrap, the word that tells the end is handed over, and the last two are not. -/
theorem behindWrap_not_exact :
    (traceInd 10000 behindWrap).2 = wordsTo 10002 10242 ++ wordsTo 0 5 ∧
      ¬Run.Throughout Log.call Log.Exact [beforeWrap, behindWrap] .initial := by
  constructor
  · rw [traceInd_wrap rfl (by decide), ← wordsTo_inBuffer]
    rfl
  · intro throughout
    have initial : Log.initial.Sound :=
      ⟨⟨rfl, fun _ member => absurd member List.not_mem_nil⟩, rfl, Nat.zero_le _⟩
    have sound := call_sound (r := beforeWrap) initial
      (fun _ => ⟨by decide, fun down => absurd down (Nat.not_lt_zero _), Or.inr rfl⟩) rfl
    have other := call_not_exact (r := behindWrap) sound (fun plain => by
      have zero := (plain rfl).2.1 (by rw [sound.flagEnd]; decide)
      exact absurd zero (by decide)) rfl
    exact other (throughout [beforeWrap, behindWrap] [] _ rfl rfl)

end AmlW2.Trace
