import Mathlib.Data.List.Basic

/-!
# Entries laid out in a memory

Entries of various lengths lie one after the other in a memory of words, each with the position at
which it starts.  A write outside the region of a layout leaves it as it is, and a layout read entry
by entry gives the entries.
-/

namespace AmlW2.Layout

variable {α : Type*} {m m' : Nat → α} {p q r i : Nat} {e : List α}
  {entries front back : List (Nat × List α)}

/-- The memory holds the words of an entry from a position on. -/
def Holds (m : Nat → α) (p : Nat) (e : List α) : Prop := ∀ i, (h : i < e.length) → m (p + i) = e[i]

/-- The entries lie one after the other between two positions. -/
def Laid (m : Nat → α) : Nat → List (Nat × List α) → Nat → Prop
  | p, [], q => p = q
  | p, (start, e) :: entries, q => start = p ∧ Holds m p e ∧ Laid m (p + e.length) entries q

/-- The words of the entries. -/
def words : List (Nat × List α) → Nat
  | [] => 0
  | entry :: entries => entry.2.length + words entries

/-- Read `n` words from a position on. -/
def load (m : Nat → α) (p n : Nat) : List α := (List.range n).map fun i => m (p + i)

/-- Write words from a position on. -/
def store (m : Nat → α) : Nat → List α → Nat → α
  | _, [] => m
  | p, a :: e => store (fun i => if i = p then a else m i) (p + 1) e

/-- A position lies inside one of the entries. -/
def Inside (entries : List (Nat × List α)) (i : Nat) : Prop :=
  ∃ entry ∈ entries, entry.1 ≤ i ∧ i < entry.1 + entry.2.length

instance : Decidable (Inside entries i) := inferInstanceAs (Decidable (∃ entry ∈ entries, _ ∧ _))

@[simp] theorem words_nil : words ([] : List (Nat × List α)) = 0 := rfl

@[simp] theorem words_cons (entry : Nat × List α) :
    words (entry :: entries) = entry.2.length + words entries := rfl

@[simp] theorem words_append : words (front ++ back) = words front + words back := by
  induction front with
  | nil => exact (Nat.zero_add _).symm
  | cons entry front induction =>
      rw [List.cons_append, words_cons, words_cons, induction, Nat.add_assoc]

@[simp] theorem length_load {n : Nat} : (load m p n).length = n := by
  rw [load, List.length_map, List.length_range]

@[simp] theorem holds_nil : Holds m p [] := fun i inside => absurd inside (Nat.not_lt_zero i)

theorem holds_cons {a : α} : Holds m p (a :: e) ↔ m p = a ∧ Holds m (p + 1) e := by
  constructor
  · intro held
    refine ⟨held 0 (Nat.succ_pos _), fun i inside => ?_⟩
    rw [Nat.add_assoc, Nat.add_comm 1 i]
    exact held (i + 1) (Nat.succ_lt_succ inside)
  · rintro ⟨first, rest⟩ i inside
    cases i with
    | zero => exact first
    | succ i =>
        rw [List.getElem_cons_succ, ← rest i (Nat.lt_of_succ_lt_succ inside)]
        congr 1
        omega

/-- A memory holds one word behind the other. -/
theorem holds_append {e' : List α} :
    Holds m p (e ++ e') ↔ Holds m p e ∧ Holds m (p + e.length) e' := by
  induction e generalizing p with
  | nil => simp
  | cons a e induction =>
      rw [List.cons_append, holds_cons, holds_cons, induction, and_assoc, List.length_cons,
        Nat.add_assoc, Nat.add_comm 1]

/-- What the memory holds is what is read. -/
theorem Holds.load_eq (held : Holds m p e) : load m p e.length = e := by
  apply List.ext_getElem length_load
  intro i _ inside
  simp only [load, List.getElem_map, List.getElem_range]
  exact held i inside

theorem Holds.congr (held : Holds m p e) (same : ∀ i, p ≤ i → i < p + e.length → m' i = m i) :
    Holds m' p e := fun i inside => by
  rw [same _ (Nat.le_add_right p i) (Nat.add_lt_add_left inside p)]
  exact held i inside

/-- A memory made of words holds them. -/
theorem holds_getD {d : α} : Holds (fun i => e.getD i d) 0 e := by
  intro i inside
  simp [List.getD_eq_getElem?_getD, inside]

theorem store_of_lt (before : i < p) : store m p e i = m i := by
  induction e generalizing m p with
  | nil => rfl
  | cons a e induction =>
      rw [store, induction (Nat.lt_succ_of_lt before), if_neg (Nat.ne_of_lt before)]

theorem store_of_ge (after : p + e.length ≤ i) : store m p e i = m i := by
  induction e generalizing m p with
  | nil => rfl
  | cons a e induction =>
      rw [List.length_cons] at after
      rw [store, induction (by omega), if_neg (by omega)]

/-- A write puts the words where it is made. -/
theorem holds_store : Holds (store m p e) p e := by
  induction e generalizing m p with
  | nil => exact fun i inside => absurd inside (Nat.not_lt_zero i)
  | cons a e induction =>
      intro i inside
      cases i with
      | zero =>
          have first : store (fun i => if i = p then a else m i) (p + 1) e p = a := by
            rw [store_of_lt (Nat.lt_succ_self p), if_pos rfl]
          exact first
      | succ i =>
          rw [store, show p + (i + 1) = p + 1 + i by omega]
          exact induction i (Nat.lt_of_succ_lt_succ inside)

/-- A write leaves what is held apart from it. -/
theorem Holds.store {e' : List α} (held : Holds m p e)
    (apart : p + e.length ≤ q ∨ q + e'.length ≤ p) : Holds (store m q e') p e := by
  apply held.congr
  intro i low high
  rcases apart with before | behind
  · exact store_of_lt (by omega)
  · exact store_of_ge (by omega)

/-- Words are written over as many others. -/
theorem Holds.overwrite {before old new after : List α}
    (held : Holds m p (before ++ (old ++ after)))
    (same : new.length = old.length) (here : q = p + before.length) :
    Holds (Layout.store m q new) p (before ++ (new ++ after)) := by
  subst here
  rw [holds_append, holds_append] at held ⊢
  obtain ⟨first, -, last⟩ := held
  refine ⟨first.store (.inl (Nat.le_refl _)), holds_store, ?_⟩
  rw [same]
  exact last.store (.inr (Nat.le_of_eq (congrArg (p + before.length + ·) same)))

/-- Words behind a gap are moved to where it begins. -/
theorem Holds.close {before gap after : List α} (held : Holds m p (before ++ (gap ++ after)))
    (here : q = p + before.length) (there : r = q + gap.length) {n : Nat} (all : n = after.length) :
    Holds (Layout.store m q (load m r n)) p (before ++ after) := by
  subst here there all
  rw [holds_append, holds_append] at held
  obtain ⟨first, -, last⟩ := held
  rw [last.load_eq, holds_append]
  exact ⟨first.store (.inl (Nat.le_refl _)), holds_store⟩

theorem Laid.end_eq (laid : Laid m p entries q) : q = p + words entries := by
  induction entries generalizing p with
  | nil => exact laid.symm
  | cons entry entries induction =>
      rw [induction laid.2.2, words_cons, Nat.add_assoc]

/-- Every entry lies between the two positions. -/
theorem Laid.between (laid : Laid m p entries q) {entry : Nat × List α} (member : entry ∈ entries) :
    p ≤ entry.1 ∧ entry.1 + entry.2.length ≤ q := by
  have tail_end := laid.end_eq
  induction entries generalizing p with
  | nil => cases member
  | cons first entries induction =>
      rw [words_cons] at tail_end
      rcases List.mem_cons.mp member with rfl | later
      · rw [laid.1]
        omega
      · obtain ⟨low, high⟩ := induction laid.2.2 later (by omega)
        exact ⟨by omega, high⟩

theorem Laid.congr (laid : Laid m p entries q) (same : ∀ i, p ≤ i → i < q → m' i = m i) :
    Laid m' p entries q := by
  have tail_end := laid.end_eq
  induction entries generalizing p with
  | nil => exact laid
  | cons first entries induction =>
      rw [words_cons] at tail_end
      refine ⟨laid.1, laid.2.1.congr fun i low high => same i low (by omega), ?_⟩
      exact induction laid.2.2 (fun i low high => same i (by omega) high) (by omega)

/-- One more entry at the end. -/
theorem Laid.snoc (laid : Laid m p entries q) (held : Holds m q e) :
    Laid m p (entries ++ [(q, e)]) (q + e.length) := by
  induction entries generalizing p with
  | nil => exact ⟨laid.symm, laid ▸ held, by rw [Laid, show p = q from laid]⟩
  | cons first entries induction => exact ⟨laid.1, laid.2.1, induction laid.2.2⟩

/-- A position outside the region is inside no entry. -/
theorem Laid.not_inside (laid : Laid m p entries q) (outside : i < p ∨ q ≤ i) :
    ¬Inside entries i := by
  rintro ⟨entry, member, low, high⟩
  obtain ⟨above, below⟩ := laid.between member
  omega

theorem not_inside_append :
    ¬Inside (front ++ back) i ↔ ¬Inside front i ∧ ¬Inside back i := by
  simp only [Inside, List.mem_append, not_exists, not_and]
  exact ⟨fun none => ⟨fun entry member => none entry (.inl member),
    fun entry member => none entry (.inr member)⟩,
    fun ⟨first, second⟩ entry member => member.elim (first entry) (second entry)⟩

end AmlW2.Layout
