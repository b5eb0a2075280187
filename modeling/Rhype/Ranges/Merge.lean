import Mathlib.Algebra.Group.Defs
import Mathlib.Data.List.Nodup

/-!
# Merging adjacent ranges

`mergeFrom` merges the ranges of a list that follow each other without a gap.  `mergeUpTo` does the
same for a table with a bounded number of entries and ends with the last free entry, so that a range
which would only have made the last entry longer is not looked at any more
(`mergeUpTo_eq_take_iff`).
-/

namespace Rhype

open List

/-- A range of addresses. -/
structure Range (α : Type) where
  addr : α
  size : α
  deriving DecidableEq, Repr

namespace Range

variable {α : Type} [AddSemigroup α]

def stop (r : Range α) : α := r.addr + r.size

/-- The range together with the one that follows it. -/
def join (r q : Range α) : Range α := ⟨r.addr, r.size + q.size⟩

theorem stop_join {r q : Range α} (h : r.stop = q.addr) : (r.join q).stop = q.stop := by
  unfold stop at h ⊢
  rw [join, ← h, add_assoc]

variable [DecidableEq α]

/-- The ranges from `r` on, with adjacent ones merged. -/
def mergeFrom (r : Range α) : List (Range α) → List (Range α)
  | [] => [r]
  | q :: qs => if r.stop = q.addr then mergeFrom (r.join q) qs else r :: mergeFrom q qs

/-- The ranges of a list, with adjacent ones merged. -/
def merge : List (Range α) → List (Range α)
  | [] => []
  | r :: rs => mergeFrom r rs

/-- The ranges from `r` on merged into a table that has `free` entries after the one of `r`. -/
def mergeUpTo : Nat → Range α → List (Range α) → List (Range α)
  | _, r, [] => [r]
  | 0, r, _ :: _ => [r]
  | free + 1, r, q :: qs =>
    if r.stop = q.addr then mergeUpTo (free + 1) (r.join q) qs else r :: mergeUpTo free q qs

/-- The ranges that are left when the table is full. -/
def leftOver : Nat → Range α → List (Range α) → List (Range α)
  | _, _, [] => []
  | 0, _, q :: qs => q :: qs
  | free + 1, r, q :: qs =>
    if r.stop = q.addr then leftOver (free + 1) (r.join q) qs else leftOver free q qs

/-- The first range that is left follows the last entry without a gap. -/
def Continues : Nat → Range α → List (Range α) → Prop
  | _, _, [] => False
  | 0, r, q :: _ => r.stop = q.addr
  | free + 1, r, q :: qs =>
    if r.stop = q.addr then Continues (free + 1) (r.join q) qs else Continues free q qs

@[simp]
theorem mergeUpTo_nil (free : Nat) (r : Range α) : mergeUpTo free r [] = [r] := by
  cases free <;> rfl

@[simp]
theorem leftOver_nil (free : Nat) (r : Range α) : leftOver free r [] = [] := by
  cases free <;> rfl

theorem mergeUpTo_of_length_le : ∀ {qs : List (Range α)} {free : Nat} {r : Range α},
    qs.length ≤ free → mergeUpTo free r qs = mergeFrom r qs
  | [], free, r, _ => mergeUpTo_nil free r
  | _ :: _, 0, _, hlen => absurd hlen (Nat.not_succ_le_zero _)
  | q :: qs, free + 1, r, hlen => by
    have hrest : qs.length ≤ free := Nat.le_of_succ_le_succ hlen
    rw [mergeUpTo, mergeFrom]
    split_ifs
    · exact mergeUpTo_of_length_le (Nat.le_succ_of_le hrest)
    · rw [mergeUpTo_of_length_le hrest]

theorem stop_mem_of_mem_mergeUpTo {m : Range α} :
    ∀ {qs : List (Range α)} {free : Nat} {r : Range α},
      m ∈ mergeUpTo free r qs → m.stop ∈ (r :: qs).map stop
  | [], _, _, hm => by
    rw [mergeUpTo_nil] at hm
    exact mem_map_of_mem hm
  | _ :: _, 0, _, hm => by
    rw [mergeUpTo, mem_singleton] at hm
    rw [hm]
    exact mem_cons_self
  | q :: qs, free + 1, r, hm => by
    rw [mergeUpTo] at hm
    split_ifs at hm with hadj
    · have hmem := stop_mem_of_mem_mergeUpTo hm
      rw [map_cons, stop_join hadj] at hmem
      exact mem_cons_of_mem _ hmem
    · rcases mem_cons.1 hm with rfl | hm
      · exact mem_cons_self
      · exact mem_cons_of_mem _ (stop_mem_of_mem_mergeUpTo hm)

theorem stop_mem_of_mem_mergeFrom {m r : Range α} {qs : List (Range α)}
    (hm : m ∈ mergeFrom r qs) : m.stop ∈ (r :: qs).map stop := by
  rw [← mergeUpTo_of_length_le (Nat.le_refl _)] at hm
  exact stop_mem_of_mem_mergeUpTo hm

theorem cons_ne_take_mergeFrom {r q : Range α} {qs ms : List (Range α)} (hadj : r.stop = q.addr)
    (hnodup : ((r :: q :: qs).map stop).Nodup) (n : Nat) :
    r :: ms ≠ (mergeFrom (r.join q) qs).take n := by
  intro h
  have hmem : r ∈ mergeFrom (r.join q) qs := mem_of_mem_take (h ▸ mem_cons_self)
  have hstop := stop_mem_of_mem_mergeFrom hmem
  rw [map_cons, stop_join hadj] at hstop
  exact (nodup_cons.1 hnodup).1 hstop

theorem mergeUpTo_eq_take_iff : ∀ {qs : List (Range α)} {free : Nat} {r : Range α},
    ((r :: qs).map stop).Nodup →
    (mergeUpTo free r qs = (mergeFrom r qs).take (free + 1) ↔ ¬ Continues free r qs)
  | [], free, r, _ => by
    rw [mergeUpTo_nil]
    cases free <;> exact iff_of_true rfl id
  | q :: qs, 0, r, hnodup => by
    rw [mergeUpTo, mergeFrom, Continues]
    split_ifs with hadj
    · exact iff_of_false (cons_ne_take_mergeFrom hadj hnodup 1) fun h => h hadj
    · exact iff_of_true rfl hadj
  | q :: qs, free + 1, r, hnodup => by
    rw [mergeUpTo, mergeFrom, Continues]
    split_ifs with hadj
    · refine mergeUpTo_eq_take_iff ?_
      rw [map_cons, stop_join hadj]
      exact (nodup_cons.1 hnodup).2
    · rw [take_succ_cons, cons.injEq, and_iff_right rfl]
      exact mergeUpTo_eq_take_iff (nodup_cons.1 hnodup).2

end Range

end Rhype
