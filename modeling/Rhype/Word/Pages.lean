import Mathlib.Algebra.Order.Ring.Nat

/-!
# The pages of a range

A range of `n` bytes from address `a` lies in pages of `P` bytes.  The pages that it touches are
those from the page of its first byte on, up to its end rounded up to a page.
-/

namespace Rhype.Word

open Nat

variable {P a n p : Nat}

/-- A byte of the `n` bytes from `a` lies in page `p`, for pages of `P` bytes. -/
def Touches (P a n p : Nat) : Prop := ∃ o < n, (a + o) / P = p

/-- The touched pages of a range that is not empty are an interval. -/
theorem touches_iff (hP : 0 < P) :
    Touches P a n p ↔ 0 < n ∧ a / P ≤ p ∧ p < (a + n + (P - 1)) / P := by
  constructor
  · rintro ⟨o, ho, rfl⟩
    have hfirst : a / P ≤ (a + o) / P := Nat.div_le_div_right (le_add_right a o)
    have hbyte : (a + o) / P * P ≤ a + o := div_mul_le_self _ _
    have hlast : (a + o) / P < (a + n + (P - 1)) / P := by
      apply lt_of_succ_le
      rw [le_div_iff_mul_le hP, succ_mul]
      omega
    exact ⟨zero_lt_of_lt ho, hfirst, hlast⟩
  · rintro ⟨hn, hfirst, hlast⟩
    rcases eq_or_lt_of_le hfirst with rfl | hlt
    · exact ⟨0, hn, rfl⟩
    -- a later page is touched at its first byte
    have hstart : a < p * P := (div_lt_iff_lt_mul hP).1 hlt
    have hend : (p + 1) * P ≤ a + n + (P - 1) := (le_div_iff_mul_le hP).1 hlast
    rw [succ_mul] at hend
    refine ⟨p * P - a, by omega, ?_⟩
    rw [Nat.add_sub_cancel' hstart.le, Nat.mul_div_cancel p hP]

theorem touches_first (hn : 0 < n) : Touches P a n (a / P) := ⟨0, hn, rfl⟩

end Rhype.Word
