import Mathlib.Data.Fin.Tuple.Basic
import Rhype.Tce.Xlate
import Rhype.Vio.Basic

/-!
# Logical LANs (`llan.c`): the ports

Every registered device has a port of the switch.  A port has the address under which its device is
registered, and remembers up to eight addresses from which the device has sent frames.  The devices
are found by their number; a `struct llan *` is the number of the device.

The memory is the physical memory in which the partitions have their buffers; what the hypervisor
keeps for itself (the devices, their tables and the ports) is not part of it.
-/

namespace Rhype

open Function

/-! ### Physical memory -/

/-- The bytes of the physical memory. -/
abbrev Memory := Uval → BitVec 8

namespace Memory

/-- `zero_mem`. -/
def zero (m : Memory) (dest n : Uval) : Memory := fun a => if a - dest < n then 0 else m a

/-- `copy_mem`. -/
def copy (m : Memory) (dest src n : Uval) : Memory := fun a =>
  if a - dest < n then m (src + (a - dest)) else m a

/-- `copy_in` of eight bytes, the most significant one first. -/
def dword (m : Memory) (src : Uval) : BitVec 64 :=
  m src ++ m (src + 1) ++ m (src + 2) ++ m (src + 3) ++
    m (src + 4) ++ m (src + 5) ++ m (src + 6) ++ m (src + 7)

/-- `copy_out` of eight bytes. -/
def setDword (m : Memory) (dest : Uval) (x : BitVec 64) : Memory := fun a =>
  if a - dest < 8 then x.extractLsb' (56 - 8 * (a - dest).toNat) 8 else m a

end Memory

/-! ### Devices and ports -/

/-- `MACS_PER_PORT`. -/
def macsPerPort : Nat := 8

/-- `LLAN_IFACES`. -/
def llanIfaces : Nat := 256

/-- `LLAN_BL_POOLS`. -/
def llanBlPools : Nat := 3

/-- `LLAN_BL_POOL_NUM`. -/
def llanBlPoolNum : Nat := 256

instance : NeZero macsPerPort := ⟨by decide⟩

instance : NeZero llanIfaces := ⟨by decide⟩

instance : NeZero llanBlPools := ⟨by decide⟩

/-- `struct llan`.  The table is set up together with the device. -/
structure LlanDev extends Llan where
  llMac : BitVec 64
  llBlistPool : Fin llanBlPools → Fin llanBlPoolNum → TceBdesc
  llRecvq : Uval
  llBlist : Uval
  llMfilter : Uval
  llLock : Bool
  llMcastState : BitVec 8
  llRegistered : Bool
  llRecvqToggle : BitVec 8
  llValid : Bool
  llMacIdx : Fin llanIfaces
  llMcastCount : BitVec 16
  llRecvqIdx : BitVec 16
  llRecvqEnd : BitVec 16
  setUp : llTceData.tTce.isSome = true

/-- `struct llan_ports_s`. -/
structure LlanPort where
  /-- The registered address, and 0 if there is none. -/
  lmMac : BitVec 64
  lmCache : Fin macsPerPort → BitVec 64
  lmLan : Option Nat
  lmNext : Fin macsPerPort

/-- The devices by their number, the ports, and the memory.  `otherDevice` says which numbers of
other classes have a device. -/
structure LlanSys where
  llan : Nat → Option LlanDev
  otherDevice : BitVec 32 → Bool
  ports : Fin llanIfaces → LlanPort
  mem : Memory

namespace LlanSys

@[simps llan ports]
def setDev (s : LlanSys) (id : Nat) (l : LlanDev) : LlanSys :=
  { s with llan := update s.llan id (some l) }

def setPort (s : LlanSys) (i : Fin llanIfaces) (m : LlanPort) : LlanSys :=
  { s with ports := update s.ports i m }

end LlanSys

variable (s : LlanSys)

/-- `llan_get`.  The class of the number is not checked, so the device may be of another type. -/
def llanGet (uaddr : Uval) : Hv (Option (Nat × LlanDev)) :=
  let liobn : BitVec 32 := uaddr.setWidth 32
  if viosGet (vioType liobn) = some .llan then
    .ok (xirGetDevice (fun i => (s.llan i).map fun l => (i, l)) liobn)
  else if s.otherDevice liobn then .error .dangling
  else .ok none

/-! ### Addresses of the ports -/

/-- The address is registered at the port, or it is in its cache. -/
def LlanPort.answers (m : LlanPort) (mac : BitVec 64) : Bool :=
  m.lmMac ≠ 0 ∧ (m.lmMac = mac ∨ ∃ c, m.lmCache c = mac)

/-- `llan_mac_find`: the device, and `in_cache`. -/
def llanMacFind (mac : BitVec 64) : Hv (Option (Nat × Bool)) :=
  match Fin.find? fun i => (s.ports i).answers mac with
  | none => .ok none
  | some i =>
    match (s.ports i).lmLan with
    | none => .error .assertion
    | some d => .ok (some (d, (s.ports i).lmMac != mac))

/-- The port has an address, and belongs to the device. -/
def LlanPort.BelongsTo (m : LlanPort) (id : Nat) : Prop := m.lmMac ≠ 0 ∧ m.lmLan = some id

instance (m : LlanPort) (id : Nat) : Decidable (m.BelongsTo id) :=
  inferInstanceAs (Decidable (_ ∧ _))

/-- The loop of `llan_mac_cache_add`: the first entry that has the address or is empty, and else the
next one to be replaced. -/
def LlanPort.cacheAdd (m : LlanPort) (mac : BitVec 64) : LlanPort :=
  match Fin.find? fun c => decide (m.lmCache c = mac ∨ m.lmCache c = 0) with
  | some c =>
    if m.lmCache c = mac then m
    else { m with lmCache := update m.lmCache c mac, lmNext := c + 1 }
  | none =>
    { m with lmCache := update m.lmCache m.lmNext mac, lmNext := m.lmNext + 1 }

/-- The loop of `llan_mac_cache_free`. -/
def LlanPort.cacheFree (m : LlanPort) (mac : BitVec 64) : LlanPort :=
  match Fin.find? fun c => decide (m.lmCache c = mac) with
  | some c => { m with lmCache := update m.lmCache c 0, lmNext := c }
  | none => m

/-- `llan_mac_cache_add`; its callers do not use the result. -/
def llanMacCacheAdd (id : Nat) (l : LlanDev) (mac : BitVec 64) : LlanSys :=
  let m := s.ports l.llMacIdx
  if m.BelongsTo id then s.setPort l.llMacIdx (m.cacheAdd mac) else s

/-- `llan_mac_cache_free`. -/
def llanMacCacheFree (id : Nat) (l : LlanDev) (mac : BitVec 64) : LlanSys :=
  let m := s.ports l.llMacIdx
  if m.BelongsTo id then s.setPort l.llMacIdx (m.cacheFree mac) else s

/-- The second half of `llan_mac_add`: the first port without a device.  Its cache stays as it
is. -/
def llanMacTake (id : Nat) (mac : BitVec 64) : Hv (Option (Fin llanIfaces) × LlanSys) :=
  match Fin.find? fun i => (s.ports i).lmLan.isNone with
  | none => .ok (none, s)
  | some i => do
    hassert ((s.ports i).lmMac = 0)
    .ok (some i, s.setPort i { s.ports i with lmLan := some id, lmMac := mac })

/-- `llan_mac_add`: the index of the port.  If the address is in a cache, it is removed from the
first one only. -/
def llanMacAdd (id : Nat) (mac : BitVec 64) : Hv (Option (Fin llanIfaces) × LlanSys) := do
  match ← llanMacFind s mac with
  | none => llanMacTake s id mac
  | some (_, false) => .ok (none, s)
  | some (d, true) =>
    let l ← live (s.llan d)
    llanMacTake (llanMacCacheFree s d l mac) id mac

/-- `llan_mac_change`.  It is not checked whether another port has the address. -/
def llanMacChange (id : Nat) (l : LlanDev) (mac : BitVec 64) :
    Hv (Option (Fin llanIfaces) × LlanSys) :=
  match Fin.find? fun i => decide ((s.ports i).lmLan = some id) with
  | none => .ok (none, s)
  | some i => do
    hassert ((s.ports i).lmMac = l.llMac)
    .ok (some i, s.setPort i { s.ports i with lmMac := mac })

/-- `llan_mac_free`. -/
def llanMacFree (l : LlanDev) : Hv LlanSys := do
  let m := s.ports l.llMacIdx
  hassert (m.lmMac = l.llMac)
  .ok (s.setPort l.llMacIdx { m with lmMac := 0, lmLan := none, lmCache := fun _ => 0 })

end Rhype
