import Mathlib.Data.BitVec

/-!
# Masks that align a word

A word is rounded down to a multiple of `2^k` by clearing its low `k` bits, and its offset in its
block of `2^k` is what the low `k` bits keep.
-/

namespace Rhype.Word

open BitVec

variable {w k : Nat}

/-- Clearing the low `k` bits rounds down to a multiple of `2^k`. -/
theorem toNat_and_allOnes_shiftLeft (x : BitVec w) (k : Nat) :
    (x &&& (allOnes w <<< k)).toNat = x.toNat / 2 ^ k * 2 ^ k := by
  have hshift : x &&& (allOnes w <<< k) = (x >>> k) <<< k := by
    refine eq_of_getLsbD_eq fun i hi => ?_
    simp only [getLsbD_and, getLsbD_shiftLeft, getLsbD_allOnes,
      getLsbD_ushiftRight, hi, decide_true, Bool.true_and]
    by_cases hik : i < k
    · simp [hik]
    · simp [hik, show k + (i - k) = i by omega, show i - k < w by omega]
  rw [hshift, toNat_shiftLeft, toNat_ushiftRight, Nat.shiftRight_eq_div_pow, Nat.shiftLeft_eq]
  exact Nat.mod_eq_of_lt (lt_of_le_of_lt (Nat.div_mul_le_self _ _) x.isLt)

/-- The low `k` bits are the remainder modulo `2^k`. -/
theorem toNat_and_two_pow_sub_one (x m : BitVec w) (hm : m.toNat = 2 ^ k - 1) :
    (x &&& m).toNat = x.toNat % 2 ^ k := by
  rw [toNat_and, hm, Nat.and_two_pow_sub_one_eq_mod]

/-- The bits of a mask of the low `k` bits. -/
theorem getLsbD_of_toNat_eq {m : BitVec w} {i : Nat} (hm : m.toNat = 2 ^ k - 1) :
    m.getLsbD i = decide (i < k) := by
  rw [getLsbD, hm, Nat.testBit_two_pow_sub_one]

theorem toNat_one_shiftLeft_sub_one (hk : k < w) :
    (((1 : BitVec w) <<< k) - 1).toNat = 2 ^ k - 1 := by
  have hlt : 2 ^ k < 2 ^ w := Nat.pow_lt_pow_right (by decide) hk
  have hpos : 0 < 2 ^ k := Nat.two_pow_pos k
  have hone : (1 : BitVec w).toNat = 1 := Nat.mod_eq_of_lt (lt_of_le_of_lt hpos hlt)
  rw [toNat_sub, toNat_shiftLeft, hone, Nat.shiftLeft_eq, Nat.one_mul, Nat.mod_eq_of_lt hlt]
  have hsum : 2 ^ w - 1 + 2 ^ k = 2 ^ k - 1 + 2 ^ w := by omega
  rw [hsum, Nat.add_mod_right]
  exact Nat.mod_eq_of_lt (by omega)

end Rhype.Word
