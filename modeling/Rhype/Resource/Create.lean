import Rhype.Resource.Rescind

/-!
# Transferring memory and creating a partition (`resource.c`, `h_create_partition.c`)

A partition is created with memory that its creator donates: `resource_transfer` grants the memory
to the new partition and accepts it on its behalf, and `arch_os_init` checks that it can serve as
the real-mode area.  When one of the steps fails, the partition is freed again.

`arch_os_init` and `cpu_verify_rmo` are those of the 970.
-/

namespace Rhype

variable (h : Hype)

/-- `grant_resource` with the resource that it returns through `*sr`; `grantResource` is the same
without it. -/
def grantResourceSr (src : OsId) (type : MemType) (logicalLo length : Uval)
    (dest : OsId) : Hv (Sval × Option ResId × Hype) := do
  let (err, res, h) ← memGrant h src logicalLo length dest
  if err ≠ hSuccess then .ok (err, none, h)
  else do
    let r ← nonNull res
    let sr ← live (h.res r)
    if sr.srRescinded then do
      let h ← rescindFn h (.mem type) r
      .ok (hRescinded, none, h)
    else do
      let (err, h) ← insertResource h r dest
      if 0 < err then .ok (err, some r, h)
      else do
        let h ← rescindFn h (.mem type) r
        .ok (err, none, h)

/-- `resource_transfer`, of a memory type: the return code and the address that is returned. -/
def resourceTransfer (caller : OsId) (type : MemType) (addrLo size : Uval)
    (target : OsId) (fresh : FreshPsm) : Hv (HcallRet × Hype) := do
  let (rc, sr, h) ← grantResourceSr h caller type addrLo size target
  if 0 ≤ rc then do
    -- with the result 0 `sr` is not set
    let r ← nonNull sr
    let (rc, ret, h) ← acceptLockedResource h r fresh (0, 0)
    if rc = hSuccess then .ok (⟨hSuccess, [(4, ret)]⟩, h)
    else do
      -- "grant it back"
      let (rc, _, h) ← grantResourceSr h target type addrLo size caller
      hassert (0 ≤ rc)
      .ok (⟨hParameter, []⟩, h)
  else .ok (⟨hParameter, []⟩, h)

/-- `cpu_verify_rmo`. -/
def cpuVerifyRmo (rmo rmoSize : Uval) : Bool :=
  rmo != 0 &&
    ([256 <<< 30, 16 <<< 30, 1 <<< 30, 64 <<< 20, 256 <<< 20, 128 <<< 20].contains rmoSize.toNat) &&
    (rmo / rmoSize) * rmoSize == rmo

/-- The large page sizes of a `struct partition_info` without one in memory. -/
def defaultPages : Fin 2 → LargePageSize := fun _ => .size16M

/-- `arch_os_init`; `info` is what the partition information in memory says about large pages. -/
def archOsInit (o : OsId) (pinfoAddr : Uval) (info : Fin 2 → LargePageSize) : Hv (Sval × Hype) := do
  let os ← live (h.os o)
  let c ← nonNull (← laddrToLci os 0)
  let lci ← live (h.lci c)
  let basemem ← logicalToPhysicalAddress h o 0 lci.lciSize
  if basemem = invalidPhysicalAddress then .ok (hParameter, h)
  else if !cpuVerifyRmo basemem lci.lciSize then .ok (hParameter, h)
  else
    let pages := if pinfoAddr = invalidLogicalAddress then defaultPages else info
    .ok (hSuccess, h.setOs o { os with largePageSize := pages, sfwTlb := false })

/-- A partition has no hash table before `htab_alloc`. -/
def noHtab : Htab := ⟨0, fun _ => .ofWords 0 0, fun _ => 0, .inl rfl⟩

/-- `os_create`, for the new partition `o`. -/
def createOs (o : OsId) : Hype :=
  (h.setOs o (osCreate noHtab fun _ => .invalid)).setDl (h.dl.init (.poResources o))

/-- "now that we have memory, we can arch_os_init()" -/
def initCreated (o : OsId) (rc : Sval) (pinfo : Uval) (info : Fin 2 → LargePageSize) :
    Hv (Sval × Hype) :=
  if rc = hSuccess then archOsInit h o pinfo info else .ok (rc, h)

/-- `h_create_partition`, once `os_create` has made the partition `o`, with the number `lpid`. -/
def hCreatePartition (caller o : OsId) (lpid donatedLaddr laddrSize pinfoOffset : Uval)
    (info : Fin 2 → LargePageSize) (fresh : FreshPsm) : Hv (HcallRet × Hype) := do
  let (ret, h) ← resourceTransfer (createOs h o) caller .memAddr donatedLaddr laddrSize o fresh
  let (rc, h) ← initCreated h o ret.rc pinfoOffset info
  if rc = hSuccess then .ok (⟨hSuccess, [(4, lpid)]⟩, h)
  else do
    let h ← osFree h o
    -- a register that `resource_transfer` has set stays set
    .ok (⟨hParameter, ret.gprs⟩, h)

end Rhype
