import Rhype.Basic
import Rhype.Ring.Basic

/-!
# Events of a partition (`os.c`, `os.h`)

A part of the hypervisor that wants to know about an event of a partition, such as its end,
registers a function with a mask of events.  The registrations of a partition are a circular list,
and `run_event` goes through it.

* A registration is named by its cell `le_list`, and the head of the list is `oe_list`.
* The functions work on a state `σ`, and do not touch the list.
-/

namespace Rhype

/-- `LPAR_DIE`. -/
def lparDie : Uval := 1

/-- `struct lpar_event`. -/
structure LparEvent (σ : Type) where
  leMask : Uval
  leFunc : Uval → σ → Uval × σ

/-- The mask of the registration includes the event. -/
def LparEvent.includes {σ : Type} (le : LparEvent σ) (event : Uval) : Bool :=
  decide (le.leMask &&& event ≠ 0)

section

variable {α σ : Type} [DecidableEq α]

/-- `register_event`.  The head is what is inserted before the new cell. -/
def registerEvent (L : Links α) (oeList le : α) : Links α := (L.init le).insBefore oeList le

/-- The loop of `run_event`. -/
def runEventLoop (events : α → LparEvent σ) (oeList : α) (event : Uval) :
    Nat → Links α → α → σ → Hv (List α × Links α × σ)
  | 0, L, curr, w => if curr = oeList then .ok ([], L, w) else .error .spin
  | fuel + 1, L, curr, w =>
    if curr = oeList then .ok ([], L, w)
    else do
      let le := curr
      let L := L.detach le
      let curr := L.next curr
      let (ret, w) := (events le).leFunc event w
      let L := if ret = 0 ∧ event ≠ lparDie then L.insBefore curr le else L
      let (calls, L, w) ← runEventLoop events oeList event fuel L curr w
      .ok (le :: calls, L, w)

/-- `run_event`. -/
def runEvent (events : α → LparEvent σ) (fuel : Nat) (L : Links α) (oeList : α) (event : Uval)
    (w : σ) : Hv (List α × Links α × σ) :=
  runEventLoop events oeList event fuel L (L.next oeList) w

end

end Rhype
