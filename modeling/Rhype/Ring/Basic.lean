import Mathlib.Logic.Function.Basic
import Mathlib.Data.List.Nodup

/-!
# Circular doubly linked lists

A heap of link cells: every cell of `α` has a successor and a predecessor.  A list is represented
by a *head* cell and the cells met on the way from the head back to itself; an empty list is a head
that points to itself.  `Links.insBefore` and `Links.detach` are the usual pointer operations,
written as the sequence of stores they are.

`IsRing L h xs` says that the list with head `h` is exactly `xs`, both forwards and backwards.  The
operations on it are in `Ring/Equiv.lean`.
-/

namespace Rhype

open Function

universe u

/-- The successor and the predecessor of every cell. -/
structure Links (α : Type u) where
  /-- The cell after a cell. -/
  next : α → α
  /-- The cell before a cell. -/
  prev : α → α

namespace Links

variable {α : Type u}

/-- `L.Path a xs b`: starting at `a`, the cells `xs` follow in order, and then `b`; the back
pointers agree. -/
def Path (L : Links α) : α → List α → α → Prop
  | a, [], b => L.next a = b ∧ L.prev b = a
  | a, x :: xs, b => (L.next a = x ∧ L.prev x = a) ∧ L.Path x xs b

variable (L : Links α)

/-- The list with head `h` has exactly the cells `xs`, in this order. -/
def IsRing (h : α) (xs : List α) : Prop :=
  (h :: xs).Nodup ∧ L.Path h xs h

variable [DecidableEq α]

instance decidablePath (L : Links α) : ∀ a xs b, Decidable (L.Path a xs b)
  | _, [], _ => inferInstanceAs (Decidable (_ ∧ _))
  | _, x :: xs, b =>
    have := decidablePath L x xs b
    inferInstanceAs (Decidable (_ ∧ _))

instance (L : Links α) (h : α) (xs : List α) : Decidable (L.IsRing h xs) :=
  inferInstanceAs (Decidable (_ ∧ _))

/-- `a->next = b`. -/
def setNext (a b : α) : Links α := { L with next := update L.next a b }

/-- `a->prev = b`. -/
def setPrev (a b : α) : Links α := { L with prev := update L.prev a b }

/-- Make `e` an empty list. -/
def init (e : α) : Links α := (L.setNext e e).setPrev e e

/-- Insert the ring of `item` before `dest`; when `dest` is a head, this appends to the list. -/
def insBefore (item dest : α) : Links α :=
  let last := L.prev item
  let before := L.prev dest
  (((L.setNext last dest).setPrev dest last).setNext before item).setPrev item before

/-- Unlink `item`; its own pointers are left as they are. -/
def detach (item : α) : Links α :=
  let before := L.prev item
  let after := L.next item
  (L.setNext before after).setPrev after before

/-- The list with head `h` has no cells. -/
def isEmpty (h : α) : Bool := decide (L.next h = h)

/-! ### Reading after a store -/

section

variable (L : Links α) (a b c : α)

@[simp]
theorem next_setNext : (L.setNext a b).next c = if c = a then b else L.next c := by
  simp [setNext, update_apply]

@[simp]
theorem prev_setNext : (L.setNext a b).prev c = L.prev c := rfl

@[simp]
theorem next_setPrev : (L.setPrev a b).next c = L.next c := rfl

@[simp]
theorem prev_setPrev : (L.setPrev a b).prev c = if c = a then b else L.prev c := by
  simp [setPrev, update_apply]

end

end Links

end Rhype
