import Mathlib.Data.List.Nodup
import Mathlib.Logic.Function.Basic

/-!
# Chains of links

The elements of a singly linked list are found by following `next` from a head until there is none.
`Chained next head l` says that this gives the list `l`.  An element is pushed by linking it to the
head, and taken out of the middle by linking the one before it to the one after it; an update of
`next` elsewhere leaves the chain alone.
-/

namespace Rhype

open Function

universe u

variable {α : Type u}

/-- The elements that are found from `head` on. -/
inductive Chained (next : α → Option α) : Option α → List α → Prop
  | nil : Chained next none []
  | cons {a : α} {l : List α} (h : Chained next (next a) l) : Chained next (some a) (a :: l)

namespace Chained

variable {next next' : α → Option α} {head : Option α} {a b : α} {l l1 l2 : List α}

theorem uncons (h : Chained next (some a) l) : ∃ l', l = a :: l' ∧ Chained next (next a) l' := by
  cases h with
  | cons h => exact ⟨_, rfl, h⟩

theorem congr (h : Chained next head l) (hnext : ∀ x ∈ l, next' x = next x) :
    Chained next' head l := by
  induction h with
  | nil => exact .nil
  | @cons a l h ih =>
    apply cons
    rw [hnext a List.mem_cons_self]
    exact ih fun x hx => hnext x (List.mem_cons_of_mem a hx)

theorem unique (h1 : Chained next head l1) (h2 : Chained next head l2) : l1 = l2 := by
  induction h1 generalizing l2 with
  | nil =>
    cases h2
    rfl
  | cons _ ih =>
    cases h2 with
    | cons h => rw [ih h]

section

variable [DecidableEq α]

theorem update (h : Chained next head l) (ha : a ∉ l) (o : Option α) :
    Chained (Function.update next a o) head l := by
  apply h.congr
  intro x hx
  have hne : x ≠ a := fun heq => ha (heq ▸ hx)
  exact update_of_ne hne _ _

theorem push (h : Chained next head l) (ha : a ∉ l) :
    Chained (Function.update next a head) (some a) (a :: l) := by
  apply cons
  rw [update_self]
  exact h.update ha head

theorem unlink (h : Chained next head (l1 ++ b :: a :: l2)) (hd : (l1 ++ b :: a :: l2).Nodup) :
    Chained (Function.update next b (next a)) head (l1 ++ b :: l2) := by
  induction l1 generalizing head with
  | nil =>
    cases h with
    | cons h =>
      obtain ⟨l', hl', hrest⟩ : ∃ l', a :: l2 = a :: l' ∧ Chained next (next a) l' := by
        generalize next b = o at h
        cases h with
        | cons h => exact ⟨_, rfl, h⟩
      have hb : b ∉ l2 := by
        intro hmem
        exact (List.nodup_cons.1 hd).1 (List.mem_cons_of_mem a hmem)
      cases hl'
      exact .cons (by
        rw [update_self]
        exact hrest.update hb (next a))
  | cons c l1 ih =>
    cases h with
    | cons h =>
      rw [List.cons_append, List.nodup_cons] at hd
      have hne : c ≠ b := fun heq => hd.1 (heq ▸ by simp)
      exact .cons (by
        rw [update_of_ne hne]
        exact ih h hd.2)

end

end Chained

end Rhype
