/-! Values, sums and bounds live in the signed 64-bit range, counts in the unsigned one.

A sum that leaves the range is moved to the nearer end after each single
addition, so a long sum may reach an end and come back from there: the order of
mixed signs can matter. -/

set_option autoImplicit false

namespace Tabletop

/-- The least face value, sum or bound, `-2 ^ 63`. -/
def minValue : Int := -9223372036854775808

/-- The greatest face value, sum or bound, `2 ^ 63 - 1`. -/
def maxValue : Int := 9223372036854775807

/-- The greatest count, size or position, `2 ^ 64 - 1`. -/
def maxCount : Nat := 18446744073709551615

def clamp (low high value : Int) : Int := max low (min high value)

theorem clamp_mono {low high first second : Int} (le : first ≤ second) :
    clamp low high first ≤ clamp low high second := by
  simp only [clamp]; omega

theorem clamp_of_mem {low high value : Int} (below : low ≤ value) (above : value ≤ high) :
    clamp low high value = value := by
  simp only [clamp]; omega

def saturate (value : Int) : Int := clamp minValue maxValue value

theorem saturate_mono {first second : Int} (le : first ≤ second) :
    saturate first ≤ saturate second := clamp_mono le

theorem saturate_of_mem {value : Int} (below : minValue ≤ value) (above : value ≤ maxValue) :
    saturate value = value := clamp_of_mem below above

theorem minValue_le_saturate (value : Int) : minValue ≤ saturate value := by
  simp only [saturate, clamp]; omega

theorem saturate_le_maxValue (value : Int) : saturate value ≤ maxValue := by
  simp only [saturate, clamp, minValue, maxValue]; omega

def saturatingAdd (first second : Int) : Int := saturate (first + second)

/-- Adds up from the left, saturating at each step. -/
def saturatingSum (values : List Int) : Int := values.foldl saturatingAdd 0

/-- `count` times `value`. The count is brought into the range of values before
the product is taken, and the product after it. -/
def scaled (count : Nat) (value : Int) : Int := saturate (min (count : Int) maxValue * value)

theorem scaled_zero (value : Int) : scaled 0 value = 0 := by
  have none : min ((0 : Nat) : Int) maxValue = 0 := rfl
  rw [scaled, none, Int.zero_mul]
  rfl

end Tabletop
