import Rhype.Crq.Basic
import Rhype.Llan.Calls
import Rhype.Vterm.Basic

/-!
# `HVIO_RELEASE` (`vio.c`)

The class of a device number has the operation that releases the device.
-/

namespace Rhype

/-- The virtual devices: a pair of CRQs, the logical LANs and the terminals. -/
structure VioSys where
  crq : CrqPair
  llan : LlanSys
  vt : VtSys

/-- `vio_release`: the result, the entries that are written into the buffers of the CRQs, and the
devices after the call. -/
def vioRelease (s : VioSys) (os : OsId) (liobn : BitVec 32) :
    Hv (Sval × List CrqWrite × VioSys) :=
  match viosGet (vioType liobn) with
  | none => .error .assertion
  -- there is no vs_release
  | some .hw => .error .null
  | some .aipc => .error .null
  | some .llan => do
    let (ret, llan) ← llanRelease s.llan os liobn
    .ok (ret, [], { s with llan := llan })
  | some .crq =>
    let (ret, ws, crq) := crqRelease s.crq os liobn
    .ok (ret, ws, { s with crq := crq })
  | some .vterm => do
    let (ret, vt) ← vtRelease s.vt os liobn
    .ok (ret, [], { s with vt := vt })

end Rhype
