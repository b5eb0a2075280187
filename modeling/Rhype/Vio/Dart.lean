import Rhype.Vio.Basic

/-!
# The DART of the host bridges (`io_xlate_u3.c`)

The DART is a table of `2^19` words that translates the addresses of the bridges.  `io_xlate_init`
fills it with a dummy page, and each `io_xlate_put` sets one word.  A world has the devices and, for
each index, the real address that was mapped there last.
-/

namespace Rhype

/-- `io_xlate_init`, after the table and the dummy page are allocated. -/
def ioXlateInit (d : Devices) : Hv Devices := clearDart d 0 0x80000

/-! ### Runs -/

/-- A call of `io_xlate_put`, with the memory map of the partitions at that time. -/
structure DartCall where
  h : Hype
  o : OsId
  buid : BitVec 32
  ioba : Uval
  ltce : Tce

/-- The devices, and the real address of the last successful mapping at each index. -/
structure DartWorld where
  dev : Devices
  lastMap : Nat → Option Uval

/-- `io_xlate_put` sets the entry to a page of the partition, not to the dummy page. -/
def DartCall.maps (c : DartCall) : Bool := c.ltce.tceRead || c.ltce.tceWrite

/-- The index of the entry. -/
def DartCall.index (c : DartCall) : Uval := c.ioba >>> logPgsize

def dartStep (w : DartWorld) (c : DartCall) : Hv DartWorld := do
  let (ret, dev) ← ioXlatePut c.h w.dev c.o c.buid c.ioba c.ltce
  let pa ← logicalToPhysicalAddress c.h c.o c.ltce.pageAddr pgsize
  .ok {
    dev := dev
    lastMap :=
      if ret = hSuccess ∧ c.maps then Function.update w.lastMap c.index.toNat (some pa)
      else w.lastMap }

end Rhype
