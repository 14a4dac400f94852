import Mathlib.Data.Nat.Bitwise

/-! Positions and counters read as natural numbers, where they do not wrap. -/

namespace SpscRing.Foundation

variable {first second : UInt64}

theorem toNat_add (small : first.toNat + second.toNat < 2 ^ 64) :
    (first + second).toNat = first.toNat + second.toNat := by
  rw [UInt64.toNat_add, Nat.mod_eq_of_lt small]

theorem toNat_sub (ordered : second.toNat ≤ first.toNat) :
    (first - second).toNat = first.toNat - second.toNat :=
  UInt64.toNat_sub_of_le _ _ (UInt64.le_iff_toNat_le.mpr ordered)

theorem toNat_mul (small : first.toNat * second.toNat < 2 ^ 64) :
    (first * second).toNat = first.toNat * second.toNat := by
  rw [UInt64.toNat_mul, Nat.mod_eq_of_lt small]

/-- A counter that is still below some value does not wrap when it counts on. -/
theorem toNat_succ (below : first < second) : (first + 1).toNat = first.toNat + 1 := by
  have small := UInt64.lt_iff_toNat_lt.mp below
  have limit := second.toNat_lt
  refine toNat_add ?_
  rw [UInt64.toNat_one]
  omega

theorem toNat_succ_u32 {count limit : UInt32} (below : count < limit) :
    (count + 1).toNat = count.toNat + 1 := by
  have small := UInt32.lt_iff_toNat_lt.mp below
  have most := limit.toNat_lt
  rw [UInt32.toNat_add, UInt32.toNat_one]
  exact Nat.mod_eq_of_lt (by omega)

theorem toUInt64_eq_zero_iff {value : UInt32} : value.toUInt64 = 0 ↔ value = 0 := by
  rw [← UInt64.toNat_inj, ← UInt32.toNat_inj, UInt32.toNat_toUInt64]
  rfl

end SpscRing.Foundation
