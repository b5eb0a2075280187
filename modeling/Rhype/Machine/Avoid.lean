import Mathlib.Logic.Basic

/-!
# Computations that avoid some errors

`Avoids bad x` says that the computation `x` does not end with an error of `bad`.  The rule for a
sequence is the only one that is needed: a program avoids an error exactly when the parts that are
reached do.
-/

namespace Rhype

universe u v w

/-- The computation does not end with an error of `bad`. -/
def Avoids {ε : Type u} {α : Type v} (bad : ε → Prop) (x : Except ε α) : Prop :=
  ∀ e, x = .error e → ¬ bad e

namespace Avoids

variable {ε : Type u} {α β : Type v} {bad : ε → Prop} {x : Except ε α} {f : α → Except ε β}

theorem ok (a : α) : Avoids bad (.ok a) := nofun

theorem error {e : ε} (he : ¬ bad e) : Avoids bad (.error e : Except ε α) := by
  rintro e' ⟨⟩
  exact he

/-- A sequence avoids the errors that its parts avoid. -/
theorem bind_iff : Avoids bad (x >>= f) ↔ Avoids bad x ∧ ∀ a, x = .ok a → Avoids bad (f a) := by
  cases x with
  | error e =>
    exact ⟨fun h => ⟨fun _ he => h _ (by cases he; rfl), nofun⟩, fun h => error (h.1 e rfl)⟩
  | ok a => exact ⟨fun h => ⟨ok a, fun _ he => by cases he; exact h⟩, fun h => h.2 a rfl⟩

theorem bind_iff_left (hf : ∀ a, Avoids bad (f a)) : Avoids bad (x >>= f) ↔ Avoids bad x :=
  bind_iff.trans (and_iff_left fun a _ => hf a)

theorem bind (hx : Avoids bad x) (hf : ∀ a, x = .ok a → Avoids bad (f a)) : Avoids bad (x >>= f) :=
  bind_iff.2 ⟨hx, hf⟩

theorem bind_ok (hx : Avoids bad x) (f : α → β) : Avoids bad (x >>= fun a => .ok (f a)) :=
  hx.bind fun a _ => ok (f a)

theorem guard {c : Prop} [Decidable c] {a : α} {y : Except ε α} (hy : ¬ c → Avoids bad y) :
    Avoids bad (if c then .ok a else y) := by
  split
  · exact ok a
  · next hc => exact hy hc

end Avoids

end Rhype
