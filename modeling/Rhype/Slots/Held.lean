import Mathlib.Data.Fintype.Defs
import Mathlib.Data.Multiset.Filter
import Mathlib.Data.Multiset.MapFold

/-!
# What slots hold

A container has finitely many slots, and a slot is in use when its value has a mark.  `held` is what
the slots in use hold, with multiplicities: a value that is put into an unused slot is added, and
one whose mark is taken away is removed.
-/

namespace Rhype.Slots

open Finset Function Multiset

variable {ι α : Type*} [Fintype ι] {used : α → Bool} {f : ι → α} {i : ι} {a : α}

/-- The values in the slots in use. -/
def held (used : α → Bool) (f : ι → α) : Multiset α :=
  (univ.val.map f).filter fun a => used a = true

theorem mem_held : a ∈ held used f ↔ (∃ i, f i = a) ∧ used a = true := by
  simp [held]

theorem held_eq_zero_iff : held used f = 0 ↔ ∀ i, used (f i) = false := by
  simp [held]

variable [DecidableEq ι]

theorem held_put (hi : used (f i) = false) (ha : used a = true) :
    held used (update f i a) = a ::ₘ held used f := by
  have hsplit : ∀ g : ι → α, univ.val.map g =
      g i ::ₘ (univ.val.erase i).map g := by
    intro g
    rw [← Multiset.map_cons, cons_erase (mem_univ i)]
  have hrest : (univ.val.erase i).map (update f i a) =
      (univ.val.erase i).map f := by
    refine map_congr rfl fun j hj => update_of_ne ?_ _ _
    rintro rfl
    exact Nodup.notMem_erase univ.nodup hj
  unfold held
  rw [hsplit (update f i a), hsplit f, update_self, hrest,
    filter_cons_of_pos (p := fun a => used a = true) _ ha,
    filter_cons_of_neg (p := fun a => used a = true) _ (by simp [hi])]

theorem held_take (hi : used (f i) = true) (ha : used a = false) :
    held used f = f i ::ₘ held used (update f i a) := by
  have hback : update (update f i a) i (f i) = f := by
    rw [update_idem]
    exact update_eq_self i f
  have hput := held_put (f := update f i a) (i := i) (by rw [update_self, ha]) hi
  rwa [hback] at hput

end Rhype.Slots
