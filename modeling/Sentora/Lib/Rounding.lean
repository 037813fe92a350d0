import Mathlib.Data.Int.ConditionallyCompleteOrder
import Mathlib.Data.Rat.Floor

namespace Lib

section Rounding

variable {x y : ℚ}

def roundHalfEven (x : ℚ) : ℤ :=
  if 2 * (x - ⌊x⌋) < 1 then ⌊x⌋
  else if 2 * (x - ⌊x⌋) = 1 ∧ ⌊x⌋ % 2 = 0 then ⌊x⌋
  else ⌊x⌋ + 1

def roundTo (digits : Nat) (x : ℚ) : ℚ := roundHalfEven (x * 10 ^ digits) / 10 ^ digits

theorem roundHalfEven_intCast (n : ℤ) : roundHalfEven n = n := by
  unfold roundHalfEven
  rw [Int.floor_intCast, sub_self, mul_zero, if_pos zero_lt_one]

theorem floor_le_roundHalfEven : ⌊x⌋ ≤ roundHalfEven x := by
  unfold roundHalfEven
  split
  · exact le_rfl
  · split
    · exact le_rfl
    · omega

theorem roundHalfEven_le_floor_add_one : roundHalfEven x ≤ ⌊x⌋ + 1 := by
  unfold roundHalfEven
  split
  · omega
  · split
    · omega
    · exact le_rfl

/-- Within one unit the upper neighbour is taken from some point on. -/
theorem roundHalfEven_mono : Monotone roundHalfEven := by
  intro x y hxy
  have hfloor : ⌊x⌋ ≤ ⌊y⌋ := Int.floor_le_floor hxy
  rcases hfloor.lt_or_eq with hlt | heq
  · calc roundHalfEven x ≤ ⌊x⌋ + 1 := roundHalfEven_le_floor_add_one
      _ ≤ ⌊y⌋ := hlt
      _ ≤ roundHalfEven y := floor_le_roundHalfEven
  · unfold roundHalfEven
    rw [heq]
    by_cases hy : 2 * (y - ⌊y⌋) < 1
    · have hx : 2 * (x - ⌊y⌋) < 1 := by linarith
      rw [if_pos hx, if_pos hy]
    · rw [if_neg hy]
      by_cases htie : 2 * (y - ⌊y⌋) = 1 ∧ ⌊y⌋ % 2 = 0
      · rw [if_pos htie]
        split
        · exact le_rfl
        · rename_i hx
          have hx : 2 * (x - ⌊y⌋) = 1 := by linarith [htie.1]
          rw [if_pos ⟨hx, htie.2⟩]
      · rw [if_neg htie]
        split
        · omega
        · split
          · omega
          · exact le_rfl

variable {digits : Nat}

theorem roundTo_mono : Monotone (roundTo digits) := by
  intro x y hxy
  have hpos : (0 : ℚ) < 10 ^ digits := by positivity
  have hscaled : x * 10 ^ digits ≤ y * 10 ^ digits := mul_le_mul_of_nonneg_right hxy hpos.le
  exact div_le_div_of_nonneg_right (Int.cast_le.mpr (roundHalfEven_mono hscaled)) hpos.le

theorem roundTo_intCast (n : ℤ) : roundTo digits n = n := by
  have hpos : (0 : ℚ) < 10 ^ digits := by positivity
  have hscaled : (n : ℚ) * 10 ^ digits = ((n * 10 ^ digits : ℤ) : ℚ) := by push_cast; rfl
  unfold roundTo
  rw [hscaled, roundHalfEven_intCast, ← hscaled]
  exact mul_div_cancel_right₀ _ hpos.ne'

theorem roundTo_mem_unit (h0 : 0 ≤ x) (h1 : x ≤ 1) :
    0 ≤ roundTo digits x ∧ roundTo digits x ≤ 1 := by
  have hzero : roundTo digits 0 = 0 := by simpa using @roundTo_intCast digits 0
  have hone : roundTo digits 1 = 1 := by simpa using @roundTo_intCast digits 1
  exact ⟨hzero ▸ roundTo_mono h0, (roundTo_mono h1).trans_eq hone⟩

end Rounding

end Lib
