import Rhype.Pgcache.Basic

/-!
# The address space of the hypervisor on x86 (`x86/vm.c`, `x86/arch_os.c`)

The hypervisor has the addresses from `HV_VBASE` on, and a page directory of its own.  Memory of a
partition is reached through a *window*: `hv_map_LA` translates a logical address, takes addresses
from the page allocator and maps them to the page of the partition.

* Every entry of the directory has a page table of its own (`init.c`), which is found by its index.
* The allocator may answer any pages of the address space.
* That a window goes away with its partition is not modelled.
-/

namespace Rhype.Vm

open Ia32 Pgcache

/-- `hv_pgd` and its page tables. -/
structure HvVm where
  hvPgd : Nat → Word
  pgtab : Nat → Nat → Word

/-- `phys_pa`: the address that `get_pages` answers for a number of bytes; `none` is
`PAGE_ALLOC_ERROR`. -/
structure PgAlloc where
  getPages : Word → Option Word
  aligned : ∀ bytes vaddr, getPages bytes = some vaddr → vaddr.toNat % 0x1000 = 0
  fits : ∀ bytes vaddr, getPages bytes = some vaddr → vaddr.toNat + bytes.toNat ≤ 2 ^ 32

/-- `pgtab[pti] = pte`, in the page table of entry `pdi`. -/
def HvVm.setPte (vm : HvVm) (pdi pti : Nat) (pte : Word) : HvVm :=
  { vm with pgtab := Function.update vm.pgtab pdi (Function.update (vm.pgtab pdi) pti pte) }

/-- The inner loop of `hv_map`, for the entries of the page table that are left. -/
def mapTable (flags paddr size : Word) (pdi : Nat) : Nat → HvVm → Nat → Word → HvVm × Word
  | 0, vm, _, mapped => (vm, mapped)
  | left + 1, vm, pti, mapped =>
    if mapped < size then
      mapTable flags paddr size pdi left
        (vm.setPte pdi pti ((paddr + mapped) ||| pteP ||| flags)) (pti + 1)
        (mapped + Pgcache.pgsize)
    else (vm, mapped)

/-- The outer loop of `hv_map`. -/
def mapTables (flags paddr size : Word) : Nat → HvVm → Nat → Nat → Word → Hv HvVm
  | 0, _, _, _, _ => .error .spin
  | fuel + 1, vm, pdi, pti, mapped =>
    if mapped < size then do
      let pde := vm.hvPgd pdi
      hassert (test pde pteP)
      hassert (!test pde ptePs)
      let (vm, mapped) := mapTable flags paddr size pdi (1024 - pti) vm pti mapped
      mapTables flags paddr size fuel vm (pdi + 1) 0 mapped
    else .ok vm

/-- The loop of `invalidate_tlb`.  After 2^20 rounds it is back at the address where it began. -/
def tlbLoop (last : Word) : Nat → Word → Hv Unit
  | 0, _ => .error .spin
  | fuel + 1, vaddr => if vaddr ≤ last then tlbLoop last fuel (vaddr + Pgcache.pgsize) else .ok ()

/-- `invalidate_tlb`. -/
def invalidateTlb (vaddr len : Word) : Hv Unit := tlbLoop (vaddr + len - 1) 0x100001 vaddr

/-- `hv_map`, for a `vaddr` other than 0.  There are 1024 entries in the directory. -/
def hvMapAt (vm : HvVm) (vaddr paddr size flags : Word) (flush : Bool) : Hv HvVm := do
  hassert (vaddr &&& (Pgcache.pgsize - 1) = 0)
  hassert (paddr &&& (Pgcache.pgsize - 1) = 0)
  hassert (hvVbase ≤ vaddr)
  let vm ← mapTables flags paddr size 1025 vm (pdiOf vaddr) (ptiOf vaddr) 0
  if flush then invalidateTlb vaddr size
  .ok vm

/-- `hv_map`, for a `vaddr` of 0: the address comes from the allocator. -/
def hvMap (pa : PgAlloc) (vm : HvVm) (paddr size flags : Word) (flush : Bool) :
    Hv (Option (Word × HvVm)) :=
  match pa.getPages size with
  | none => .ok none
  | some vaddr => do
    let vm ← hvMapAt vm vaddr paddr size flags flush
    .ok (some (vaddr, vm))

/-- `physical`: the real address behind an address of the hypervisor; `none` is
`INVALID_VIRTUAL_ADDRESS`. -/
def physical (vm : HvVm) (vaddr : Word) : Option Word :=
  let pde := vm.hvPgd (pdiOf vaddr)
  if vaddr < hvVbase then none
  else if !test pde pteP then none
  else if test pde ptePs then some ((pde &&& pteLargebase) ||| (vaddr &&& ~~~pteLargebase))
  else
    let pte := vm.pgtab (pdiOf vaddr) (ptiOf vaddr)
    if !test pte pteP then none
    else some ((pte &&& pteSmallbase) ||| (vaddr &&& ~~~pteSmallbase))

/-- `CHUNK_SIZE`. -/
def chunkSize : Word := 0x4000000

/-- `hv_map_LA`: the address of the window; `none` is `INVALID_PHYSICAL_ADDRESS`, which
`INVALID_LOGICAL_ADDRESS` is too. -/
def hvMapLa (lmm : Pgcache.LogicalMap) (pa : PgAlloc) (vm : HvVm) (laddr size : Word) :
    Hv (Option (Word × HvVm)) := do
  let paddr ← Pgcache.logicalToPhysicalAddress lmm laddr size
  if paddr = Pgcache.invalidPhysicalAddress then .ok none
  else if chunkSize < laddr then .ok none
  else
    let offset := paddr &&& ~~~pteSmallbase
    let paddr := paddr &&& pteSmallbase
    let size := size + offset
    match ← hvMap pa vm paddr size pteRw true with
    | none => .ok none
    | some (vaddr, vm) => .ok (some (vaddr + offset, vm))

end Rhype.Vm
