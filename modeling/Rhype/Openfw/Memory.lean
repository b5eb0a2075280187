import Rhype.Basic

/-!
# Claimed memory (`plugins/openfw/memory.c`)

A client claims ranges of addresses from Open Firmware and releases them.  The ranges are kept in
the table `claimed`; an entry whose end is 0 is empty.
-/

namespace Rhype

/-- `struct of_malloc_s`. -/
structure OfMalloc where
  ofmStart : Uval
  ofmEnd : Uval
  deriving DecidableEq

/-- `claimed`. -/
abbrev Claimed := Fin 64 → OfMalloc

/-- A request. -/
inductive OfReq
  | claim (virt size align : Uval)
  | release (virt size : Uval)

/-- The comparison of an address with an entry in `claim`. -/
def OfMalloc.hit (m : OfMalloc) (a : Uval) : Bool := m.ofmStart ≤ a && a < m.ofmEnd

/-- The range is in the program itself, which is between `_start` and `_end`. -/
def ownSpace (start stop virt size : Uval) : Bool := start ≤ virt && virt + size < stop

/-- `claim`: the value of `baseaddr`, or `none` for `OF_FAILURE`. -/
def claim (start stop : Uval) (cp : Claimed) (virt size align : Uval) :
    Hv (Option Uval × Claimed) :=
  let stop' := virt + size
  if align ≠ 0 ∨ ownSpace start stop virt size then .ok (none, cp)
  -- the loop leaves at the first entry with one of the two ends
  else if (List.finRange 64).any fun i =>
      (cp i).ofmEnd ≠ 0 && ((cp i).hit virt || (cp i).hit stop') then .ok (none, cp)
  else
    match (List.finRange 64).find? fun i => (cp i).ofmEnd = 0 with
    | some e => .ok (some virt, Function.update cp e ⟨virt, stop'⟩)
    -- `e` is still -1
    | none => .error (.bounds .claimed (2 ^ 64 - 1))

/-- `release`: whether it is `OF_SUCCESS`. -/
def release (start stop : Uval) (cp : Claimed) (virt size : Uval) : Bool × Claimed :=
  if ownSpace start stop virt size then (false, cp)
  else
    match (List.finRange 64).find? fun i => cp i = ⟨virt, virt + size⟩ with
    | some i => (true, Function.update cp i ⟨0, 0⟩)
    | none => (false, cp)

/-- One request; a request that is refused gives `none`. -/
def ofStep (start stop : Uval) (cp : Claimed) : OfReq → Hv (Option Uval × Claimed)
  | .claim virt size align => claim start stop cp virt size align
  | .release virt size =>
    let (done, cp) := release start stop cp virt size
    .ok (if done then some 0 else none, cp)

/-- The table after a request. -/
def ofTable (start stop : Uval) (cp : Claimed) (req : OfReq) : Hv Claimed := do
  let (_, cp) ← ofStep start stop cp req
  .ok cp

end Rhype
