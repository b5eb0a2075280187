import Rhype.Logical.Basic

/-!
# Translation control entries (`tce.h`, `tce.c`)

The table of a virtual device maps I/O pages to real pages.  A guest that changes an entry names a
logical page, and the hypervisor puts the real page in its place.
-/

namespace Rhype

/-! ### Entries -/

/-- `union tce`. -/
structure Tce where
  tceDword : BitVec 64
  deriving DecidableEq

namespace Tce

/-- `tce_rpn`. -/
def tceRpn (t : Tce) : BitVec 40 := t.tceDword.extractLsb' 12 40

/-- `tce_write`. -/
def tceWrite (t : Tce) : Bool := t.tceDword.getLsbD 1

/-- `tce_read`. -/
def tceRead (t : Tce) : Bool := t.tceDword.getLsbD 0

/-- `tce_rpn = rpn`. -/
def setRpn (t : Tce) (rpn : BitVec 40) : Tce :=
  ⟨t.tceDword.extractLsb' 52 12 ++ rpn ++ t.tceDword.extractLsb' 0 12⟩

/-- `tce_rpn << LOG_PGSIZE`.  The shift of a bit-field of 40 bits has 40 bits. -/
def pageAddr (t : Tce) : Uval := (t.tceRpn <<< logPgsize).setWidth 64

end Tce

/-! ### Tables -/

/-- `struct tce_data`. -/
structure TceData where
  tEntries : Uval
  tTce : Option (Nat → Tce)

/-- `tce[pg] = x`, for an index of type `int`. -/
def TceData.put (td : TceData) (pg : Int) (x : Tce) : Hv TceData := do
  let tce ← nonNull td.tTce
  if 0 ≤ pg ∧ pg.toNat < td.tEntries.toNat then
    .ok { td with tTce := some (Function.update tce pg.toNat x) }
  else .error (.bounds .tce (BitVec.ofInt 64 pg).toNat)

/-- `pg` of `tce_put`: the I/O page as an `int`. -/
def tcePage (ioba : Uval) : Int := ((ioba >>> logPgsize).setWidth 32).toInt

/-- `entries` of `tce_put`, an `int`. -/
def TceData.entries (td : TceData) : Int := (td.tEntries.setWidth 32).toInt

/-- `tce_put`. -/
def tcePut (h : Hype) (o : OsId) (td : TceData) (ioba : Uval) (ltce : Tce) :
    Hv (Sval × TceData) := do
  hassert (tcePage ioba < td.entries)
  let pa ← logicalToPhysicalAddress h o ltce.pageAddr pgsize
  if pa = invalidPhysicalAddress then .ok (hParameter, td)
  else do
    let td ← td.put (tcePage ioba) (ltce.setRpn ((pa >>> logPgsize).setWidth 40))
    .ok (hSuccess, td)

end Rhype
