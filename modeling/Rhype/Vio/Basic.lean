import Rhype.Tce.Basic

/-!
# `H_PUT_TCE` (`vio.c`, `llan.c`, `crq.c`, `vterm.c`, `io_xlate_u3.c`)

A device number has a class, and the class has the operations.  `H_PUT_TCE` of a logical LAN or of a
CRQ writes the table of the device; for a host bridge it writes the DART.  The devices are not part
of the state of the memory management, and are passed next to it.
-/

namespace Rhype

/-! ### Devices -/

/-- `struct llan`, as far as `H_PUT_TCE` is concerned; `llan_tce_put` does not read the owner. -/
structure Llan where
  llSize : Uval
  llTceData : TceData
  /-- `llan_getos`: the owner of the resource of the device. -/
  llOwner : Option OsId

/-- `struct crq_partner`, as far as `crq_tce_put` reads it. -/
structure CrqPartner where
  cpOs : Option OsId
  cpTceData : TceData

/-- `struct hba`. -/
structure Hba where
  buid : Uval
  /-- The partitions that may use the bridge. -/
  users : Fin 16 → OsId

/-- The devices: `xh_device` of the classes with a table, by device id, the list of host bridges,
the DART and the page that its empty entries name. -/
structure Devices where
  llan : Nat → Option Llan
  crq : Nat → Option CrqPartner
  hbaList : List Hba
  dartTable : Nat → BitVec 32
  dummyPage : Uval

/-- The classes that are registered with `vio_register`. -/
inductive VioClass
  | hw
  | llan
  | aipc
  | crq
  | vterm
  deriving DecidableEq, Repr

/-- `vios_get`. -/
def viosGet : Nat → Option VioClass
  | 0 => some .hw
  | 1 => some .llan
  | 2 => some .aipc
  | 3 => some .crq
  | 4 => some .vterm
  | _ => none

/-- `vio_type`. -/
def vioType (liobn : BitVec 32) : Nat := ((liobn &&& 0xf00000) >>> 20).toNat

/-- `xirr_xisr`: the device id. -/
def xirrXisr (liobn : BitVec 32) : Nat := (liobn &&& 0xfffff).toNat

/-- `xir_get_device`, for the devices of the class of the number. -/
def xirGetDevice {α : Type} (devices : Nat → Option α) (liobn : BitVec 32) : Option α :=
  if xirrXisr liobn < 0x100 then devices (xirrXisr liobn) else none

/-! ### The host bridges -/

/-- `hba_get`.  The loop starts again at the first bridge, so it ends there or not at all. -/
def hbaGet : List Hba → Uval → Hv (Option Hba)
  | [], _ => .ok none
  | hba :: _, buid => if buid = hba.buid then .ok (some hba) else .error .spin

/-- `hba_owner`. -/
def hbaOwner (hba : Hba) (o : OsId) : Bool := decide (∃ i, hba.users i = o)

/-- `DART_VALID | (rpg & DART_MASK)`. -/
def dartWord (rpg : Uval) : BitVec 32 := 0x80000000 ||| (rpg &&& 0x00ffffff).setWidth 32

/-- The store of an entry. -/
def Devices.setDart (d : Devices) (index rpg : Uval) : Hv Devices :=
  if index.toNat < 2 ^ 19 then
    .ok { d with dartTable := Function.update d.dartTable index.toNat (dartWord rpg) }
  else .error (.bounds .dart index.toNat)

/-- The number of rounds of `fill_dart` and `clear_dart`: `i == num_pg` is tested after `++i`. -/
def dartRounds (numPg : Uval) : Nat := if numPg = 0 then 2 ^ 64 else numPg.toNat

/-- The loop of `fill_dart` and `clear_dart`; `inc` is added to the page number in each round. -/
def dartLoop (inc : Uval) : Nat → Uval → Uval → Devices → Hv Devices
  | 0, _, _, d => .ok d
  | n + 1, index, rpg, d => do
    let d ← d.setDart index rpg
    dartLoop inc n (index + 1) (rpg + inc) d

/-- `fill_dart`. -/
def fillDart (d : Devices) (index raddr numPg : Uval) : Hv Devices :=
  dartLoop 1 (dartRounds numPg) index (raddr >>> logPgsize) d

/-- `clear_dart`.  The page number is the address of the dummy page, not shifted. -/
def clearDart (d : Devices) (index numPg : Uval) : Hv Devices :=
  dartLoop 0 (dartRounds numPg) index d.dummyPage d

@[simp]
theorem fillDart_one (d : Devices) (index raddr : Uval) :
    fillDart d index raddr 1 = d.setDart index (raddr >>> logPgsize) := bind_pure _

@[simp]
theorem clearDart_one (d : Devices) (index : Uval) :
    clearDart d index 1 = d.setDart index d.dummyPage := bind_pure _

/-- `io_xlate_put`.  The address is translated before the owner is looked at. -/
def ioXlatePut (h : Hype) (d : Devices) (o : OsId) (buid : BitVec 32) (ioba : Uval) (ltce : Tce) :
    Hv (Sval × Devices) := do
  let hba ← hbaGet d.hbaList (buid.setWidth 64)
  let pa ← logicalToPhysicalAddress h o ltce.pageAddr pgsize
  if !hba.any (hbaOwner · o) then .ok (hParameter, d)
  else if pa = invalidPhysicalAddress then .ok (hParameter, d)
  else do
    let index := ioba >>> logPgsize
    let d ←
      if ltce.tceRead || ltce.tceWrite then fillDart d index pa 1 else clearDart d index 1
    .ok (hSuccess, d)

/-! ### The virtual devices -/

/-- `llan_tce_put`. -/
def llanTcePut (h : Hype) (d : Devices) (o : OsId) (liobn : BitVec 32) (ioba : Uval) (ltce : Tce) :
    Hv (Sval × Devices) :=
  match xirGetDevice d.llan liobn with
  | none => .ok (hParameter, d)
  | some l =>
    if l.llSize - pgsize < ioba then .ok (hParameter, d)
    else do
      hassert l.llTceData.tTce.isSome
      let (ret, td) ← tcePut h o l.llTceData ioba ltce
      .ok (ret, { d with
        llan := Function.update d.llan (xirrXisr liobn) (some { l with llTceData := td }) })

/-- `crq_tce_put`. -/
def crqTcePut (h : Hype) (d : Devices) (o : OsId) (liobn : BitVec 32) (ioba : Uval) (ltce : Tce) :
    Hv (Sval × Devices) :=
  match xirGetDevice d.crq liobn with
  | none => .ok (hParameter, d)
  | some cp =>
    if cp.cpOs ≠ some o then .ok (hParameter, d)
    else do
      hassert cp.cpTceData.tTce.isSome
      let (ret, td) ← tcePut h o cp.cpTceData ioba ltce
      .ok (ret, { d with
        crq := Function.update d.crq (xirrXisr liobn) (some { cp with cpTceData := td }) })

/-- `vio_tce_put`. -/
def vioTcePut (h : Hype) (d : Devices) (o : OsId) (liobn : BitVec 32) (ioba : Uval) (tce : Tce) :
    Hv (Sval × Devices) :=
  match viosGet (vioType liobn) with
  | none => .error .assertion
  | some .hw => ioXlatePut h d o liobn ioba tce
  | some .llan => llanTcePut h d o liobn ioba tce
  -- there is no vs_tce_put
  | some .aipc => .ok (hParameter, d)
  | some .crq => crqTcePut h d o liobn ioba tce
  -- vt_tce_put
  | some .vterm => .ok (hParameter, d)

/-- `h_put_tce`. -/
def hPutTce (h : Hype) (d : Devices) (o : OsId) (liobn : BitVec 32) (ioba : Uval)
    (tceDword : BitVec 64) : Hv (Sval × Devices) :=
  vioTcePut h d o liobn ioba ⟨tceDword⟩

end Rhype
