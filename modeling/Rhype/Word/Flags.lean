import Mathlib.Data.BitVec

/-!
# Flags in a word

A flag is a word with one bit set.  Testing a flag, setting it and clearing it with masks are
statements about that bit.
-/

namespace Rhype.Word

open BitVec

variable {w i j : Nat} {x m : BitVec w}

/-- The mask is the flag of bit `i`. -/
def IsFlag (m : BitVec w) (i : Nat) : Prop := m = twoPow w i

section

variable (hm : IsFlag m i)
include hm

theorem IsFlag.getLsbD : m.getLsbD j = (decide (i < w) && decide (i = j)) := by
  rw [hm, getLsbD_twoPow]

/-- A flag is set when its bit is. -/
theorem IsFlag.and_ne_zero_iff : x &&& m ≠ 0 ↔ x.getLsbD i = true := by
  rw [hm, and_twoPow]
  constructor
  · intro hne
    by_contra hbit
    rw [if_neg hbit] at hne
    exact hne rfl
  · intro hbit
    rw [if_pos hbit]
    intro hzero
    have hlt : i < w := BitVec.lt_of_getLsbD hbit
    have hget := congrArg (fun y => BitVec.getLsbD y i) hzero
    simp [hlt] at hget

theorem IsFlag.getLsbD_or (hi : i < w) : (x ||| m).getLsbD j = (x.getLsbD j || decide (i = j)) := by
  rw [BitVec.getLsbD_or, hm.getLsbD, decide_eq_true hi, Bool.true_and]

theorem IsFlag.getLsbD_and_not (hj : j < w) :
    (x &&& ~~~m).getLsbD j = (x.getLsbD j && !decide (i = j)) := by
  rw [getLsbD_and, getLsbD_not, hm.getLsbD, decide_eq_true hj, Bool.true_and]
  by_cases hij : i = j
  · rw [hij, decide_eq_true hj]
    rfl
  · rw [decide_eq_false hij, Bool.and_false]

end

end Rhype.Word
