import Rhype.Basic

/-!
# Properties of the device tree (`lib/of_devtree.c`)

The device tree is an array of 64-bit cells in which nodes and properties are laid one after the
other.  A property is named by the index of its first cell, and index 0 is none.  The properties of
a node are linked through `op_next`; what is taken out of the list is not used again.
-/

namespace Rhype

open Function

/-- `struct ofd_prop_s`: the value is at the front of `op_data`, and the name after it. -/
structure OfdProp where
  opNext : Nat
  opObjsz : Nat
  opNamesz : Nat
  opData : List (BitVec 8)

/-- `struct ofd_mem_s`, with `on_prop` of the node and the property at an index. -/
structure OfdMem where
  omNum : Nat
  omNext : Nat
  omNext_pos : 0 < omNext
  onProp : Nat → Option Nat
  prop : Nat → Option OfdProp

/-- `ofd_create` in `sz` bytes: the root is at `OFD_ROOT`, and takes six cells. -/
def ofdCreate (sz : Nat) : Option OfdMem :=
  if sz < 160 then none
  else some
    { omNum := (sz - 16) / 8
      omNext := 7
      omNext_pos := by decide
      onProp := update (fun _ => none) 1 (some 0)
      prop := fun _ => none }

namespace OfdMem

variable (m : OfdMem) (node : Nat) (name : List (BitVec 8))

/-- `ofd_node_prop`. -/
def ofdNodeProp : Hv Nat :=
  if node < m.omNext then (m.onProp node).elim (.error .assertion) .ok else .error .null

/-- `ofd_prop_get`. -/
def ofdPropGet (p : Nat) : Hv OfdProp :=
  if p < m.omNext then (m.prop p).elim (.error .assertion) .ok else .error .null

/-- The first property from `p` on that meets the condition, or 0. -/
def propFrom (cond : OfdProp → Bool) (p : Nat) : Nat → Hv Nat
  | 0 => .error .spin
  | fuel + 1 =>
    if p = 0 then .ok 0
    else do
      let r ← m.ofdPropGet p
      if cond r then .ok p else propFrom cond r.opNext fuel

/-- `ofd_prop_find`. -/
def ofdPropFind : Hv Nat := do
  let p ← m.ofdNodeProp node
  if name = [] then .ok 0
  else m.propFrom (fun r => name.length + 1 = r.opNamesz &&
    name ++ [0] = (r.opData.drop r.opObjsz).take r.opNamesz) p (m.omNum + 1)

/-- A property gets another successor. -/
def setNext (p next : Nat) : Hv OfdMem := do
  let r ← m.ofdPropGet p
  .ok { m with prop := update m.prop p (some { r with opNext := next }) }

/-- `ofd_prop_create`. -/
def ofdPropCreate (src : List (BitVec 8)) : Hv (Nat × OfdMem) :=
  let cells := (16 + src.length + (name.length + 1) + 7) / 8
  -- `cells` is an `ofdn_t`, which has 32 bits
  if (m.omNum : Int) ≤ m.omNext + (cells : Int).bmod (2 ^ 32) then .ok (0, m)
  else if m.omNum < m.omNext + cells then .error (.bounds .devtree (m.omNext + cells))
  else do
    let pos := m.omNext
    hassert (m.prop pos).isNone
    let m := { m with
      omNext := pos + cells
      omNext_pos := Nat.add_pos_left m.omNext_pos cells
      prop := update m.prop pos
        (some ⟨0, src.length, name.length + 1, src ++ name ++ [0]⟩) }
    let first ← m.ofdNodeProp node
    if first = 0 then .ok (pos, { m with onProp := update m.onProp node (some pos) })
    else
      let pn ← m.propFrom (fun r => r.opNext = 0) first (m.omNum + 1)
      let m ← m.setNext pn pos
      .ok (pos, m)

/-- `ofd_prop_remove`. -/
def ofdPropRemove (prop : Nat) : Hv OfdMem := do
  let first ← m.ofdNodeProp node
  let p ← m.ofdPropGet prop
  if first = prop then .ok { m with onProp := update m.onProp node (some p.opNext) }
  else
    let pn ← m.propFrom (fun r => r.opNext = prop) first (m.omNum + 1)
    m.setNext pn p.opNext

/-- `ofd_prop_set`. -/
def ofdPropSet (src : List (BitVec 8)) : Hv (Nat × OfdMem) := do
  let p ← m.ofdPropFind node name
  let r ← m.ofdPropGet p
  if src.length ≤ r.opObjsz then
    -- a shorter value has the name moved after it
    let data := if src.length < r.opObjsz then src ++ (name ++ [0]).take r.opNamesz else src
    let r := { r with opObjsz := src.length, opData := data ++ r.opData.drop data.length }
    .ok (p, { m with prop := update m.prop p (some r) })
  else
    let m ← m.ofdPropRemove node p
    m.ofdPropCreate node name src

/-- `ofd_setprop`; `OF_FAILURE` is -1. -/
def ofdSetprop (src : List (BitVec 8)) : Hv (Sval × OfdMem) := do
  let r ← m.ofdPropFind node name
  let (r, m) ← if r = 0 then m.ofdPropCreate node name src else m.ofdPropSet node name src
  if 0 < r then
    let pp ← m.ofdPropGet r
    .ok (pp.opObjsz, m)
  else .ok (-1, m)

/-- `ofd_getprop`, with what it copies to a buffer of `sz` bytes. -/
def ofdGetprop (sz : Nat) : Hv (Sval × List (BitVec 8)) := do
  let p ← m.ofdPropFind node name
  if p = 0 then .ok (-1, [])
  else
    let r ← m.ofdPropGet p
    .ok (r.opObjsz, r.opData.take (min sz r.opObjsz))

end OfdMem

end Rhype
