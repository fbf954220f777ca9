import Mathlib.Data.Int.Log
import Mathlib.Data.Rat.Floor
import Mathlib.Tactic.Linarith
import Mathlib.Tactic.Positivity

namespace Decimals

/-- The nearest integer, ties to even. -/
def nearest (x : ℚ) : Int :=
  if x - ⌊x⌋ < 1 / 2 ∨ (x - ⌊x⌋ = 1 / 2 ∧ ⌊x⌋ % 2 = 0) then ⌊x⌋ else ⌊x⌋ + 1

/-- The nearest multiple of a unit. -/
def toUnit (unit x : ℚ) : ℚ := nearest (x / unit) * unit

/-- The unit of the last of so many digits of `x`. -/
def lastPlace (base digits : Nat) (x : ℚ) : ℚ := (base : ℚ) ^ (Int.log base |x| + 1 - digits)

/-- The nearest number that has so many digits. -/
def significant (base digits : Nat) (x : ℚ) : ℚ := toUnit (lastPlace base digits x) x

section Nearest
variable {x unit : ℚ} {n : Int}

theorem nearest_le (h : x ≤ n) : nearest x ≤ n := by
  have hfloor : (⌊x⌋ : ℚ) ≤ x := Int.floor_le x
  unfold nearest
  split
  · exact_mod_cast hfloor.trans h
  · rename_i hrest
    -- The number is not an integer, so its floor is below it.
    have hbelow : (⌊x⌋ : ℚ) < x := by
      by_contra hnot
      apply hrest
      left
      linarith
    have hlt : (⌊x⌋ : ℚ) < n := lt_of_lt_of_le hbelow h
    exact_mod_cast hlt

theorem le_nearest (h : n ≤ x) : n ≤ nearest x := by
  have hfloor : n ≤ ⌊x⌋ := Int.le_floor.mpr h
  unfold nearest
  split <;> omega

theorem toUnit_le (hunit : 0 < unit) (h : x ≤ n * unit) : toUnit unit x ≤ n * unit := by
  have hn : nearest (x / unit) ≤ n := nearest_le ((div_le_iff₀ hunit).mpr h)
  apply mul_le_mul_of_nonneg_right _ hunit.le
  exact_mod_cast hn

theorem le_toUnit (hunit : 0 < unit) (h : n * unit ≤ x) : n * unit ≤ toUnit unit x := by
  have hn : n ≤ nearest (x / unit) := le_nearest ((le_div_iff₀ hunit).mpr h)
  apply mul_le_mul_of_nonneg_right _ hunit.le
  exact_mod_cast hn

theorem toUnit_nonneg (hunit : 0 < unit) (h : 0 ≤ x) : 0 ≤ toUnit unit x := by
  have hle := le_toUnit (n := 0) hunit (by simpa using h)
  simpa using hle

end Nearest

section Significant
variable {base digits n : Nat} {x : ℚ}

theorem lastPlace_pos (hbase : 1 < base) : 0 < lastPlace base digits x := by
  apply zpow_pos
  exact_mod_cast Nat.zero_lt_of_lt hbase

/-- A number with so many digits is a multiple of the last place of the numbers below it. -/
theorem lastPlace_dvd (hbase : 1 < base) (hx : x ≠ 0) (hle : |x| ≤ n)
    (hn : n < base ^ digits) : ∃ k : Int, (n : ℚ) = k * lastPlace base digits x := by
  have hlog : Int.log base |x| ≤ Nat.log base n := by
    rw [← Int.log_natCast (R := ℚ)]
    exact Int.log_mono_right (abs_pos.mpr hx) hle
  have hpos : n ≠ 0 := by
    intro hzero
    rw [hzero, Nat.cast_zero] at hle
    exact hx (abs_nonpos_iff.mp hle)
  have hdigits : Nat.log base n < digits := Nat.log_lt_of_lt_pow hpos hn
  obtain ⟨j, hj⟩ := Int.eq_ofNat_of_zero_le (a := digits - (Int.log base |x| + 1)) (by omega)
  refine ⟨n * (base : Int) ^ j, ?_⟩
  have hexp : Int.log base |x| + 1 - digits = -(j : Int) := by omega
  have hne : (base : ℚ) ^ j ≠ 0 := by positivity
  rw [lastPlace, hexp, zpow_neg, zpow_natCast]
  push_cast
  rw [mul_assoc, mul_inv_cancel₀ hne, mul_one]

/-- Rounding does not pass a number that needs no rounding. -/
theorem significant_abs_le (base digits : Nat) (hbase : 1 < base) (hle : |x| ≤ n) (hn : n < base ^ digits) :
    |significant base digits x| ≤ n := by
  by_cases hx : x = 0
  · have hzero : significant base digits 0 = 0 := by simp [significant, toUnit, nearest]
    rw [hx, hzero, abs_zero]
    exact Nat.cast_nonneg n
  · obtain ⟨k, hk⟩ := lastPlace_dvd hbase hx hle hn
    have hunit : 0 < lastPlace base digits x := lastPlace_pos hbase
    obtain ⟨hlow, hhigh⟩ := abs_le.mp hle
    have hneg : ((-k : Int) : ℚ) * lastPlace base digits x = -n := by
      rw [hk]
      push_cast
      ring
    apply abs_le.mpr
    constructor
    · have hbound := le_toUnit hunit (hneg.trans_le hlow)
      rwa [hneg] at hbound
    · have hbound := toUnit_le hunit (hhigh.trans_eq hk)
      rwa [← hk] at hbound

theorem significant_bounds (base digits : Nat) (hbase : 1 < base) (hx : 0 ≤ x) (hle : x ≤ n)
    (hn : n < base ^ digits) :
    0 ≤ significant base digits x ∧ significant base digits x ≤ n := by
  have hlow : 0 ≤ significant base digits x := toUnit_nonneg (lastPlace_pos hbase) hx
  have habs := significant_abs_le base digits hbase ((abs_of_nonneg hx).trans_le hle) hn
  rw [abs_of_nonneg hlow] at habs
  exact ⟨hlow, habs⟩

end Significant

end Decimals
