import Mathlib.Algebra.Order.Field.Rat
import Mathlib.Tactic.NormNum.Basic
import Mathlib.Tactic.Ring

namespace Decimals

/-- A finite decimal: a sign, the digits, and where the point stands. -/
structure Dec where
  negative : Bool
  coefficient : Nat
  exponent : Int
deriving DecidableEq, Repr

def Dec.signed (x : Dec) : Int := if x.negative then -x.coefficient else x.coefficient

def Dec.value (x : Dec) : ℚ := x.signed * (10 : ℚ) ^ x.exponent

/-- The signed digits of `x` written with the exponent `e`, which is not above its own. -/
def Dec.scaled (x : Dec) (e : Int) : Int := x.signed * 10 ^ (x.exponent - e).toNat

/-- Without the last `drop` digits, to the nearest, ties to even. -/
def roundHalfEven (n drop : Nat) : Nat :=
  let unit := 10 ^ drop
  let kept := n / unit
  let rest := n % unit
  if 2 * rest < unit ∨ (2 * rest = unit ∧ kept % 2 = 0) then kept else kept + 1

/-- What a context of so many digits keeps. -/
def Dec.fix (precision : Nat) (x : Dec) : Dec :=
  if x.coefficient < 10 ^ precision then x else
    let drop := (Nat.toDigits 10 x.coefficient).length - precision
    let rounded := roundHalfEven x.coefficient drop
    -- Rounding up may carry into one more digit.
    if rounded < 10 ^ precision then ⟨x.negative, rounded, x.exponent + drop⟩
    else ⟨x.negative, rounded / 10, x.exponent + drop + 1⟩

/-- Addition in a context: the exact sum, with the lower of the exponents, and then
what the context keeps of it. -/
def Dec.add (precision : Nat) (x y : Dec) : Dec :=
  let e := min x.exponent y.exponent
  let sum := x.scaled e + y.scaled e
  let negative := if sum = 0 then x.negative && y.negative else decide (sum < 0)
  Dec.fix precision ⟨negative, sum.natAbs, e⟩

/-- So many units of the last place, which the exponent `e` gives. -/
def Dec.ofScaled (n e : Int) : Dec := ⟨decide (n < 0), n.natAbs, e⟩

section Exact
variable {x : Dec} {precision : Nat} {m n e : Int}

theorem fix_exact (h : x.coefficient < 10 ^ precision) : x.fix precision = x := if_pos h

theorem scaled_value (h : e ≤ x.exponent) : (x.scaled e : ℚ) * (10 : ℚ) ^ e = x.value := by
  have hpower : (10 : ℚ) ^ (x.exponent - e).toNat * (10 : ℚ) ^ e = (10 : ℚ) ^ x.exponent := by
    rw [← zpow_natCast, ← zpow_add₀ (by norm_num), Int.toNat_of_nonneg (by omega), sub_add_cancel]
  unfold Dec.scaled Dec.value
  push_cast
  rw [mul_assoc, hpower]

theorem ofScaled_signed : (Dec.ofScaled n e).signed = n := by
  unfold Dec.ofScaled Dec.signed
  by_cases hn : n < 0
  · simp only [hn, decide_true, ↓reduceIte]
    omega
  · simp only [hn, decide_false, Bool.false_eq_true, ↓reduceIte]
    omega

theorem ofScaled_scaled : (Dec.ofScaled n e).scaled e = n := by
  unfold Dec.scaled
  rw [ofScaled_signed]
  simp [Dec.ofScaled]

/-- A sum of units of the same place is exact where the context has room for it. -/
theorem ofScaled_add (hroom : (m + n).natAbs < 10 ^ precision) :
    (Dec.ofScaled m e).add precision (Dec.ofScaled n e) = Dec.ofScaled (m + n) e := by
  have he : min (Dec.ofScaled m e).exponent (Dec.ofScaled n e).exponent = e := min_self e
  unfold Dec.add
  simp only [he, ofScaled_scaled]
  rw [fix_exact hroom, Dec.ofScaled, Dec.mk.injEq]
  refine ⟨?_, rfl, rfl⟩
  split
  · next hzero =>
    -- Two numbers below zero do not add up to it.
    simp only [Dec.ofScaled, hzero, lt_self_iff_false, decide_false, Bool.and_eq_false_iff,
      decide_eq_false_iff_not]
    omega
  · rfl

end Exact

end Decimals
