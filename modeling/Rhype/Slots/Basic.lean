import Mathlib.Data.BitVec
import Mathlib.Data.Nat.ModEq

/-!
# Slots that are used in turn

A queue of capacity `n` keeps its elements in `n` slots that are used one after the other, and again
from the first one.  The place of the next element is either an index that goes back to 0 at `n`, or
a counter that runs freely and is taken modulo `n`.

With two such counters, one for the elements that were put in and one for those that were taken out,
the slots between them hold the elements of the queue, oldest first (`contents`).
-/

namespace Rhype.Slots

open BitVec Function List Nat

/-! ### An index -/

/-- An index of `w` bits that goes back to 0 at `n` counts modulo `n`, also when `n` is `2^w` and is
itself stored as 0. -/
theorem toNat_next {w n : Nat} (hn : n ≤ 2 ^ w) {x : BitVec w} (hx : x.toNat < n) :
    (if x + 1 = BitVec.ofNat w n then 0 else x + 1).toNat = (x.toNat + 1) % n := by
  have hsucc : (x + 1).toNat = (x.toNat + 1) % 2 ^ w := by
    rw [toNat_add]
    rcases Nat.eq_zero_or_pos w with rfl | hw
    · rw [pow_zero, mod_one, mod_one]
    have hone : (1 : BitVec w).toNat = 1 := by
      have : 1 < 2 ^ w := Nat.one_lt_two_pow hw.ne'
      simpa using mod_eq_of_lt this
    rw [hone]
  have hiff : x + 1 = .ofNat w n ↔ x.toNat + 1 = n := by
    rw [← toNat_inj, hsucc, toNat_ofNat]
    constructor
    · intro heq
      rcases eq_or_lt_of_le (show x.toNat + 1 ≤ n by omega) with hn' | hn'
      · exact hn'
      rw [mod_eq_of_lt (by omega)] at heq
      rcases eq_or_lt_of_le hn with hw | hw
      · rw [hw, mod_self] at heq
        omega
      · rwa [mod_eq_of_lt hw] at heq
    · intro heq
      rw [heq]
  split_ifs with hcase
  · rw [hiff] at hcase
    rw [hcase, mod_self]
    rfl
  · rw [hiff] at hcase
    rw [hsucc, mod_eq_of_lt (show x.toNat + 1 < n by omega), mod_eq_of_lt (by omega)]

theorem count_next {m k : Nat} (hk : k % m + 1 < m) :
    (k + 1) % m = k % m + 1 ∧ (k + 1) / m = k / m := by
  have hsum : k + 1 = k % m + 1 + m * (k / m) := by
    have := Nat.mod_add_div k m
    omega
  rw [hsum]
  constructor
  · rw [add_mul_mod_self_left, mod_eq_of_lt hk]
  · rw [add_mul_div_left _ _ (by omega), div_eq_of_lt hk, zero_add]

theorem count_turn {m k : Nat} (hk : k % m + 1 = m) :
    (k + 1) % m = 0 ∧ (k + 1) / m = k / m + 1 := by
  have hm : 0 < m := by omega
  have hsum : k + 1 = m * (k / m + 1) := by
    have := Nat.mod_add_div k m
    rw [Nat.mul_add]
    omega
  rw [hsum]
  constructor
  · exact Nat.mul_mod_right m _
  · exact Nat.mul_div_cancel_left _ hm

/-! ### Two counters -/

variable {α : Type*} {n tail head : Nat} {slot : Nat → α}

/-- The elements between the two counters, oldest first. -/
def contents (n : Nat) (slot : Nat → α) (tail head : Nat) : List α :=
  (range (head - tail)).map fun i => slot ((tail + i) % n)

@[simp]
theorem length_contents : (contents n slot tail head).length = head - tail := by
  rw [contents, length_map, length_range]

theorem mod_ne_mod {i j : Nat} (hij : i < j) (hn : j < i + n) : i % n ≠ j % n := by
  intro heq
  have hdvd : n ∣ j - i := (modEq_iff_dvd' hij.le).1 heq
  have hle := le_of_dvd (by omega) hdvd
  omega

/-- An element that is put in goes to the end, when there is room for it. -/
theorem contents_push (hle : tail ≤ head) (hroom : head < tail + n) (x : α) :
    contents n (update slot (head % n) x) tail (head + 1)
      = contents n slot tail head ++ [x] := by
  have hlen : head + 1 - tail = head - tail + 1 := by omega
  have hlast : tail + (head - tail) = head := by omega
  rw [contents, hlen, range_succ, map_append, map_singleton, hlast, update_self]
  congr 1
  refine map_congr_left fun i hi => ?_
  have hi := mem_range.1 hi
  exact update_of_ne (mod_ne_mod (by omega) (by omega)) _ _

/-- The element that is taken out is the one in the slot of the counter. -/
theorem contents_pop (hlt : tail < head) :
    contents n slot tail head = slot (tail % n) :: contents n slot (tail + 1) head := by
  have hlen : head - tail = (head - (tail + 1)) + 1 := by omega
  rw [contents, hlen, range_succ_eq_map, map_cons, map_map]
  congr 1
  refine map_congr_left fun i _ => ?_
  rw [comp, add_assoc, add_comm 1 i]

theorem contents_mod (tail k : Nat) :
    contents n slot (tail % n) (tail % n + k) = contents n slot tail (tail + k) := by
  unfold contents
  rw [Nat.add_sub_cancel_left, Nat.add_sub_cancel_left]
  refine map_congr_left fun i _ => ?_
  rw [mod_add_mod]

end Rhype.Slots
