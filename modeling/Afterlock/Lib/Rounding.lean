import Mathlib

/-!
# Rounded arithmetic

The numbers that a rounding keeps, and their sums, each of which is rounded.  Such sums depend on
the order of the terms, but they are monotone: to add what is not negative never gives less
(`Rounding.le_add`).
-/

namespace Afterlock

/-- A monotone rounding to the numbers that it keeps; zero is one of them. -/
structure Rounding (K : Type*) [AddCommGroup K] [LinearOrder K] where
  round : K → K
  monotone : Monotone round
  round_round : ∀ x, round (round x) = round x
  round_zero : round 0 = 0

namespace Rounding

section

variable {K : Type*} [AddCommGroup K] [LinearOrder K]

/-- Nothing is rounded. -/
def exact (K : Type*) [AddCommGroup K] [LinearOrder K] : Rounding K :=
  ⟨id, monotone_id, fun _ => rfl, rfl⟩

/-- The numbers that are kept. -/
abbrev Value (r : Rounding K) : Type _ := {x : K // r.round x = x}

variable (r : Rounding K)

def value (x : K) : r.Value := ⟨r.round x, r.round_round x⟩

/-- The sum of two numbers, rounded. -/
def add (x y : r.Value) : r.Value := r.value (x + y)

lemma value_nonneg {x : K} (h : 0 ≤ x) : (0 : K) ≤ r.value x :=
  calc (0 : K)
    _ = r.round 0 := r.round_zero.symm
    _ ≤ r.round x := r.monotone h

variable [IsOrderedAddMonoid K]

lemma le_add {x y : r.Value} (h : (0 : K) ≤ y) : x ≤ r.add x y :=
  calc (x : K)
    _ = r.round x := x.property.symm
    _ ≤ r.round (x + y) := r.monotone (le_add_of_nonneg_right h)

lemma add_nonneg {x y : r.Value} (hx : (0 : K) ≤ x) (hy : (0 : K) ≤ y) : (0 : K) ≤ r.add x y :=
  hx.trans (r.le_add hy)

end

end Rounding

end Afterlock
