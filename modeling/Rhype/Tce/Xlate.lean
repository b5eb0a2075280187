import Rhype.Tce.Basic

/-!
# Translation of a buffer (`tce_bd_xlate`)

A buffer descriptor names a range of I/O addresses.  `tce_bd_xlate` looks at the entry of every page
of the range and then returns the real address of the first byte; its callers use it as the address
of the whole buffer.
-/

namespace Rhype

open BitVec

/-! ### Buffer descriptors -/

/-- `union tce_bdesc`. -/
structure TceBdesc where
  lbdDword : BitVec 64
  deriving DecidableEq

namespace TceBdesc

variable (bd : TceBdesc)

/-- `lbd_ctrl_v`. -/
def lbdCtrlV : Bool := bd.lbdDword.getLsbD 63

/-- `lbd_len`. -/
def lbdLen : BitVec 24 := bd.lbdDword.extractLsb' 32 24

/-- `lbd_addr`. -/
def lbdAddr : BitVec 32 := bd.lbdDword.extractLsb' 0 32

/-- `lbd_ctrl_v = v`. -/
def setCtrlV (v : Bool) : TceBdesc :=
  ⟨ofBool v ++ bd.lbdDword.extractLsb' 0 63⟩

/-- `lbd_len = len`. -/
def setLen (len : BitVec 24) : TceBdesc :=
  ⟨bd.lbdDword.extractLsb' 56 8 ++ len ++ bd.lbdDword.extractLsb' 0 32⟩

/-- `lbd_addr = addr`. -/
def setAddr (addr : BitVec 32) : TceBdesc :=
  ⟨bd.lbdDword.extractLsb' 32 32 ++ addr⟩

end TceBdesc

/-! ### Entries -/

namespace Tce

/-- `rw` of `tce_bd_xlate`: the read bit is compared with `1`, not shifted by it. -/
def rw (t : Tce) : Uval :=
  (ofBool (decide (ofBool t.tceRead < 1))).setWidth 64 |||
    (ofBool t.tceWrite).setWidth 64

end Tce

/-- `tce[i]`. -/
def TceData.get (td : TceData) (i : Uval) : Hv Tce := do
  let tce ← nonNull td.tTce
  if i < td.tEntries then .ok (tce i.toNat) else .error (.bounds .tce i.toNat)

/-! ### The translation -/

/-- The loop of `tce_bd_xlate`: whether all the pages from `s` to `ep` are represented. -/
def bdXlateLoop (td : TceData) (ep : Uval) : Nat → Uval → Hv Bool
  | 0, s => if s < ep then .error .spin else .ok true
  | n + 1, s =>
    if s < ep then
      if td.tEntries ≤ s then .ok false
      else do
        let t ← td.get s
        if t.rw = 0 then .ok false else bdXlateLoop td ep n (s + 1)
    else .ok true

/-- `tce_bd_xlate`; `NULL` is the address 0. -/
def tceBdXlate (td : TceData) (bd : TceBdesc) : Hv Uval := do
  let s : Uval := bd.lbdAddr.setWidth 64
  let sz : Uval := bd.lbdLen.setWidth 64
  let pg := s >>> logPgsize
  let bytes := s - alignDown s pgsize
  let ep := alignUp (s + sz) pgsize >>> logPgsize
  let s := alignDown s pgsize >>> logPgsize
  let all ← bdXlateLoop td ep (ep - s).toNat s
  if all then do
    let t ← td.get pg
    .ok (t.pageAddr + bytes)
  else .ok 0

end Rhype
