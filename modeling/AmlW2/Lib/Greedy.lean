import Mathlib.Algebra.Ring.Int.Defs
import Mathlib.Data.Int.Order.Basic

/-!
# Greedy shares

A request is served from amounts in order, each giving what it has of what is still wanted.  An
amount below zero has nothing to give.
-/

namespace AmlW2

namespace Greedy

/-- The sum of a list. -/
def total : List Int → Int
  | [] => 0
  | a :: rest => a + total rest

/-- What an amount has to give. -/
def worth (a : Int) : Int := max 0 a

/-- What each amount gives. -/
def shares (request : Int) : List Int → List Int
  | [] => []
  | a :: rest => min request (worth a) :: shares (request - min request (worth a)) rest

variable {request a : Int} {amounts front back : List Int}

theorem worth_nonneg (a : Int) : 0 ≤ worth a := Int.le_max_left 0 a

theorem worth_of_nonneg (nonneg : 0 ≤ a) : worth a = a := Int.max_eq_right nonneg

/-- When nothing is wanted, nothing is given. -/
theorem shares_zero (amounts : List Int) : shares 0 amounts = amounts.map fun _ => 0 := by
  induction amounts with
  | nil => rfl
  | cons a rest induction =>
      rw [shares, Int.min_eq_left (worth_nonneg a), Int.sub_zero, induction, List.map_cons]

theorem total_worth_nonneg (amounts : List Int) : 0 ≤ total (amounts.map worth) := by
  induction amounts with
  | nil => exact Int.le_refl 0
  | cons a rest induction =>
      have gives := worth_nonneg a
      rw [List.map_cons, total]
      omega

/-- The shares add up to the request, or to what there is. -/
theorem total_shares (nonneg : 0 ≤ request) :
    total (shares request amounts) = min request (total (amounts.map worth)) := by
  induction amounts generalizing request with
  | nil => exact (Int.min_eq_right nonneg).symm
  | cons a rest induction =>
      have gives := worth_nonneg a
      have others := total_worth_nonneg rest
      rw [shares, total, induction (by omega), List.map_cons, total]
      omega

/-- An amount within the request gives all it has. -/
theorem shares_cons_of_le (nonneg : 0 ≤ a) (le : a ≤ request) (rest : List Int) :
    shares request (a :: rest) = a :: shares (request - a) rest := by
  rw [shares, worth_of_nonneg nonneg, Int.min_eq_right le]

/-- An amount that covers the request meets it. -/
theorem shares_cons_of_ge (nonneg : 0 ≤ request) (ge : request ≤ a) (rest : List Int) :
    shares request (a :: rest) = request :: shares 0 rest := by
  rw [shares, worth_of_nonneg (Int.le_trans nonneg ge), Int.min_eq_left ge, Int.sub_self]

/-- What is wanted beyond what there is does not change the shares. -/
theorem shares_eq_of_min_eq {request' : Int} (nonneg : 0 ≤ request) (nonneg' : 0 ≤ request')
    (same : min request (total (amounts.map worth)) = min request' (total (amounts.map worth))) :
    shares request amounts = shares request' amounts := by
  induction amounts generalizing request request' with
  | nil => rfl
  | cons a rest induction =>
      have gives := worth_nonneg a
      have others := total_worth_nonneg rest
      rw [List.map_cons, total] at same
      have first : min request (worth a) = min request' (worth a) := by omega
      have next : shares (request - min request (worth a)) rest =
          shares (request' - min request' (worth a)) rest :=
        induction (by omega) (by omega) (by omega)
      rw [shares, shares, next, first]

end Greedy

end AmlW2
