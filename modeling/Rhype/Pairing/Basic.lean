import Mathlib.Logic.Function.Basic

/-!
# Pairings

Some things have a partner, and a thing is the partner of its partner.  Two things that have none
can be paired, and a pair can be taken apart.
-/

namespace Rhype

open Function

universe u

/-- Every thing is the partner of its partner. -/
def Pairing {α : Type u} (partner : α → Option α) : Prop :=
  ∀ a b, partner a = some b → partner b = some a

namespace Pairing

variable {α : Type u} {partner : α → Option α} {a b : α}

theorem empty : Pairing fun _ : α => none := nofun

theorem ne_some_of_none (h : Pairing partner) (ha : partner a = none) (b : α) :
    partner b ≠ some a := by
  intro hb
  rw [h b a hb] at ha
  exact Option.some_ne_none b ha

variable [DecidableEq α]

theorem pair (h : Pairing partner) (ha : partner a = none) (hb : partner b = none) :
    Pairing (update (update partner a (some b)) b (some a)) := by
  intro x y hxy
  have hxa := h.ne_some_of_none ha x
  have hxb := h.ne_some_of_none hb x
  simp only [update_apply] at hxy ⊢
  grind [Pairing]

theorem unpair (h : Pairing partner) (hab : partner a = some b) :
    Pairing (update (update partner b none) a none) := by
  intro x y hxy
  simp only [update_apply] at hxy ⊢
  grind [Pairing]

end Pairing

end Rhype
