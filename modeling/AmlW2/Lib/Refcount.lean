import AmlW2.Lib.Census

/-!
# Reference counts

Each member of a finite family uses one thing or none, and each thing has a count of its users.
The count stays exact when a member that uses nothing acquires a thing and when a member releases
its own.  A member that acquires a thing while it still uses one makes a count wrong.
-/

namespace AmlW2.Refcount

variable {ι κ : Type*} [Fintype ι] [DecidableEq ι] [DecidableEq κ]

/-- How many members use `k`. -/
def users (uses : ι → Option κ) (k : κ) : Nat := census uses (· = some k)

/-- Every count is the number of users. -/
def Exact (uses : ι → Option κ) (count : κ → Nat) : Prop := ∀ k, count k = users uses k

variable {uses : ι → Option κ} {count : κ → Nat} {i : ι} {k k' : κ}

omit [DecidableEq ι] in
theorem users_pos (held : uses i = some k) : 0 < users uses k :=
  census_pos.mpr ⟨i, held⟩

omit [DecidableEq ι] in
/-- What is used has a count that can be decremented. -/
theorem Exact.pos (exact : Exact uses count) (held : uses i = some k) : 0 < count k := by
  rw [exact k]
  exact users_pos held

omit [DecidableEq ι] in
theorem users_le (uses : ι → Option κ) (k : κ) : users uses k ≤ Fintype.card ι :=
  Finset.card_le_univ _

theorem users_acquire (free : uses i = none) :
    users (Function.update uses i (some k)) k = users uses k + 1 :=
  census_update_join (by rw [free]; exact (Option.some_ne_none k).symm) rfl

theorem users_release (held : uses i = some k) :
    users (Function.update uses i none) k + 1 = users uses k :=
  census_update_leave held (Option.some_ne_none k).symm

/-- The users of what a member neither used nor uses. -/
theorem users_update_other {x : Option κ} (before : uses i ≠ some k) (after : x ≠ some k) :
    users (Function.update uses i x) k = users uses k :=
  census_update_keep ⟨fun held => absurd held after, fun held => absurd held before⟩

theorem Exact.acquire (exact : Exact uses count) (free : uses i = none) (k : κ) :
    Exact (Function.update uses i (some k)) (Function.update count k (count k + 1)) := by
  intro k'
  rcases eq_or_ne k' k with rfl | other
  · rw [Function.update_self, users_acquire free, exact k']
  · rw [Function.update_of_ne other, exact k', users_update_other]
    · rw [free]
      exact (Option.some_ne_none k').symm
    · exact fun same => other (Option.some.inj same).symm

theorem Exact.release (exact : Exact uses count) (held : uses i = some k) :
    Exact (Function.update uses i none) (Function.update count k (count k - 1)) := by
  intro k'
  rcases eq_or_ne k' k with rfl | other
  · rw [Function.update_self, exact k', ← users_release held, Nat.add_sub_cancel]
  · rw [Function.update_of_ne other, exact k', users_update_other]
    · rw [held]
      exact fun same => other (Option.some.inj same).symm
    · exact (Option.some_ne_none k').symm

/-- Whatever else a member that uses something acquires, the counts are exact no more. -/
theorem Exact.not_acquire_held (exact : Exact uses count) (held : uses i = some k') (k : κ)
    {m : Nat} (changed : m ≠ count k) :
    ¬Exact (Function.update uses i (some k)) (Function.update count k m) := by
  intro after
  rcases eq_or_ne k' k with rfl | other
  · have counted := after k'
    rw [Function.update_self, ← held, Function.update_eq_self, ← exact k'] at counted
    exact changed counted
  · have counted := after k'
    have left : users (Function.update uses i (some k)) k' + 1 = users uses k' :=
      census_update_leave held fun same => other (Option.some.inj same).symm
    rw [Function.update_of_ne other, exact k'] at counted
    omega

end AmlW2.Refcount
