import Mathlib.Algebra.Order.Floor.Ring
import Mathlib.Data.Int.Log
import Mathlib.Data.Rat.Floor

namespace Numeric

-- The nearest integer, the even one of two.
def roundHalfEven (x : ℚ) : Int :=
  let below := ⌊x⌋
  if x - below < 1 / 2 then below
  else if 1 / 2 < x - below then below + 1
  else below + below % 2

-- Rounding does not leave an interval between integers.
theorem roundHalfEven_mem {x : ℚ} {low high : Int} (hlow : (low : ℚ) ≤ x) (hhigh : x ≤ high) :
    low ≤ roundHalfEven x ∧ roundHalfEven x ≤ high := by
  have hbelow : low ≤ ⌊x⌋ := Int.le_floor.mpr hlow
  have hle : ⌊x⌋ ≤ high := by exact_mod_cast (Int.floor_le x).trans hhigh
  have habove : 0 < x - ⌊x⌋ → ⌊x⌋ + 1 ≤ high := by
    intro hpos
    have hlt : ((⌊x⌋ : Int) : ℚ) < high := (sub_pos.mp hpos).trans_le hhigh
    exact_mod_cast hlt
  unfold roundHalfEven
  dsimp only
  split_ifs with hdown hup
  · exact ⟨hbelow, hle⟩
  · have hhalf := habove ((by norm_num : (0 : ℚ) < 1 / 2).trans hup)
    omega
  · have hhalf := habove ((by norm_num : (0 : ℚ) < 1 / 2).trans_le (not_lt.mp hdown))
    have hparity := Int.emod_two_eq ⌊x⌋
    omega

-- round(x, digits)
def roundTo (digits : Nat) (x : ℚ) : ℚ := roundHalfEven (x * 10 ^ digits) / 10 ^ digits

theorem roundTo_mem (digits : Nat) (low high : Int) {x : ℚ} (hlow : (low : ℚ) / 10 ^ digits ≤ x)
    (hhigh : x ≤ (high : ℚ) / 10 ^ digits) :
    (low : ℚ) / 10 ^ digits ≤ roundTo digits x ∧ roundTo digits x ≤ (high : ℚ) / 10 ^ digits := by
  have hpos : (0 : ℚ) < 10 ^ digits := by positivity
  have hmem := roundHalfEven_mem ((div_le_iff₀ hpos).mp hlow) ((le_div_iff₀ hpos).mp hhigh)
  unfold roundTo
  exact ⟨by gcongr; exact hmem.1, by gcongr; exact hmem.2⟩

-- The nearest multiple of 2^-1074 with 53 significant bits, without an upper bound.
def nearestDouble (x : ℚ) : ℚ :=
  if x = 0 then 0
  else
    let unit : ℚ := 2 ^ max (Int.log 2 |x| - 52) (-1074)
    roundHalfEven (x / unit) * unit

-- The IEEE 754 double of a real number, none where it is infinite.
def toDouble (x : ℚ) : Option ℚ :=
  if |nearestDouble x| < 2 ^ 1024 then some (nearestDouble x) else none

-- int(x)
def towardZero (x : ℚ) : Int :=
  if x < 0 then ⌈x⌉ else ⌊x⌋

example : toDouble (1 / 10) = some (3602879701896397 / 2 ^ 55) := by decide +kernel

end Numeric
