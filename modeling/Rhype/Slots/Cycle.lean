import Mathlib.Data.List.Nodup
import Mathlib.Data.List.Rotate
import Mathlib.Data.Nat.ModEq

/-!
# Going around a ring of places

A ring has the places `0, …, n - 1`.  A *scan* from `c` visits all of them once, from the place
after `c` on and `c` itself last.  The places of the scan that have a property are the *cycle*; who
goes to the first place of the cycle, and from there to the first place of the cycle from there, and
so on, visits the places of the cycle in turn (`head_cycle_iterate`).
-/

namespace Rhype.Slots

open List Nat

variable {n c x k : Nat} {p : Nat → Bool}

/-- The first `k` places that are visited from `c` on. -/
def walk (n c k : Nat) : List Nat := (range k).map fun i => (c + 1 + i) % n

/-- The places of the ring, from the one after `c` on. -/
def scan (n c : Nat) : List Nat := walk n c n

/-- The places with the property, in the order of a scan. -/
def cycle (n : Nat) (p : Nat → Bool) (c : Nat) : List Nat := (scan n c).filter p

theorem walk_succ : walk n c (k + 1) = (c + 1) % n :: walk n ((c + 1) % n) k := by
  rw [walk, range_succ_eq_map, map_cons, map_map]
  congr 1
  refine map_congr_left fun i _ => ?_
  rw [Function.comp, add_assoc ((c + 1) % n), mod_add_mod, succ_eq_add_one, add_comm 1 i]

theorem length_scan : (scan n c).length = n := by
  rw [scan, walk, length_map, length_range]

theorem getElem_scan {i : Nat} (hi : i < (scan n c).length) : (scan n c)[i] = (c + 1 + i) % n := by
  simp [scan, walk]

/-- A scan from a place of a scan is the scan, rotated. -/
theorem scan_getElem (hk : k < (scan n c).length) :
    scan n (scan n c)[k] = (scan n c).rotate (k + 1) := by
  refine ext_getElem ?_ fun i hi hi' => ?_
  · rw [length_rotate, length_scan, length_scan]
  · rw [getElem_scan, getElem_rotate, getElem_scan, getElem_scan, length_scan]
    rw [add_mod (c + 1) ((i + (k + 1)) % n), mod_mod, ← add_mod, add_assoc, mod_add_mod]
    congr 1
    omega

theorem mem_scan (hx : x < n) : x ∈ scan n c := by
  have hn : 0 < n := zero_lt_of_lt hx
  -- the round in which the place is visited
  have hlt : (x + n - (c + 1) % n) % n < (scan n c).length := by
    rw [length_scan]
    exact mod_lt _ hn
  have hplace : (scan n c)[(x + n - (c + 1) % n) % n] = x := by
    have hle : (c + 1) % n ≤ x + n := by
      have := mod_lt (c + 1) hn
      omega
    rw [getElem_scan, add_mod_mod, ← mod_add_mod, Nat.add_sub_cancel' hle,
      add_mod_right, mod_eq_of_lt hx]
  rw [← hplace]
  exact getElem_mem hlt

theorem lt_of_mem_scan (hn : 0 < n) (hx : x ∈ scan n c) : x < n := by
  obtain ⟨i, -, rfl⟩ := mem_map.1 hx
  exact mod_lt _ hn

theorem nodup_scan : (scan n c).Nodup := by
  refine List.Nodup.map_on (fun i hi j hj heq => ?_) nodup_range
  have hmod : i ≡ j [MOD n] := .add_left_cancel' (c + 1) heq
  rw [Nat.ModEq, mod_eq_of_lt (mem_range.1 hi), mod_eq_of_lt (mem_range.1 hj)] at hmod
  exact hmod

/-- A cycle has each place with the property, once. -/
theorem mem_cycle (hn : 0 < n) : x ∈ cycle n p c ↔ x < n ∧ p x = true := by
  rw [cycle, mem_filter]
  exact and_congr_left fun _ => ⟨lt_of_mem_scan hn, mem_scan⟩

theorem nodup_cycle : (cycle n p c).Nodup := nodup_scan.filter p

/-- The cycle from its first place on is the cycle, with the first place last. -/
theorem cycle_head {xs : List Nat} (hcycle : cycle n p c = x :: xs) : cycle n p x = xs ++ [x] := by
  obtain ⟨pre, post, hscan, hpre, hx, hpost⟩ := filter_eq_cons_iff.1 hcycle
  have hlen : pre.length < (scan n c).length := by
    rw [hscan]
    simp
  have hget : (scan n c)[pre.length] = x := by
    simp [hscan]
  have hrot : scan n x = post ++ (pre ++ [x]) := by
    have h := scan_getElem hlen
    rw [hget] at h
    have hl : pre.length + 1 = (pre ++ [x]).length := by simp
    rw [h, hscan, append_cons, hl, rotate_append_length_eq]
  have hnone : pre.filter p = [] := filter_eq_nil_iff.2 hpre
  rw [cycle, hrot, filter_append, filter_append, hnone, hpost, nil_append, filter_singleton, hx]
  rfl

/-- **Who always goes to the first place of the cycle visits the places in turn.** -/
theorem head_cycle_iterate (place : Nat → Nat)
    (hnext : ∀ k, (cycle n p (place k)).head? = some (place (k + 1))) (k : Nat) :
    cycle n p (place k) = (cycle n p (place 0)).rotate k := by
  induction k with
  | zero => rw [rotate_zero]
  | succ k ih =>
    obtain ⟨xs, hxs⟩ := head?_eq_some_iff.1 (hnext k)
    rw [cycle_head hxs, ← rotate_rotate, ← ih, hxs, rotate_cons_succ, rotate_zero]

end Rhype.Slots
