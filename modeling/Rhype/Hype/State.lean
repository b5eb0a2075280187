import Rhype.Hash.Basic
import Rhype.Lbm.Basic
import Rhype.Pte.Basic
import Rhype.Ring.Basic

/-!
# The state of the hypervisor

The objects of the memory management: the partitions (`struct os`) with their hash table and their
chunk table, the logical chunks (`struct logical_chunk_info`), the page-share managers, and the
system resources with the lists that link them.

Pointers are numbers; a number without an object is a freed pointer.  A chunk and the resource
embedded in it (`lci_res`) have the same number, and so have a page-share manager and the chunk
embedded in it (`psm_lci`).  The list cells of all objects (`struct dlist`) are kept apart, as cells
of one heap of links.
-/

namespace Rhype

open Function

/-! ### Resources (`resource.h`) -/

/-- The memory types among the resource types: `MEM_ADDR` and `MMIO_ADDR`. -/
inductive MemType
  | memAddr
  | mmioAddr
  deriving DecidableEq, Repr

/-- `sr_type`: the types that have an entry in `res_actions`. -/
inductive ResType
  | mem (t : MemType)
  | intrSrc
  deriving DecidableEq, Repr

/-- `struct sys_resource`; `srMapped` and `srRescinded` are the bits of `sr_flags`. -/
structure SysResource where
  srCookie : Uval
  srType : ResType
  srMapped : Bool
  srRescinded : Bool
  srOwner : Option OsId
  srParent : Option ResId
  deriving DecidableEq

/-! ### Chunks (`logical.h`) -/

/-- `lci_ops` and `lci_arch_ops`; the two are always set together. -/
inductive ChunkOps
  | physMem
  | psm
  deriving DecidableEq, Repr

/-- `struct logical_chunk_info`; `lciDisabled` is the one bit of `lci_flags` that is used. -/
structure Lci where
  lciRaddr : Uval
  lciLaddr : Uval
  lciSize : Uval
  lciPtecount : BitVec 32
  lciDisabled : Bool
  lciOps : ChunkOps
  lciOs : Option OsId
  deriving DecidableEq

/-- The rest of `struct page_share_mgr`, next to its chunk.  The hash table holds the index of a
page table entry for each logical address that the entry was entered for. -/
structure Psm where
  psmEntries : Nat → Option LciId
  psmPteHt : HashTable Nat
  psmUsage : Lbm numPsmEntries

/-! ### Partitions (`os.h`, `arch_os.h`) -/

/-- `struct logical_htab` with the table it describes.  A table has `2^(log - 4)` entries for a
`log` between `HTAB_MIN_LOG_SIZE` and `SDR1_HTABSIZE_MAX`, or none before `htab_alloc`. -/
structure Htab where
  numPtes : Nat
  pte : Nat → Pte
  shadow : Nat → Uval
  size_ok : numPtes = 0 ∨ ∃ log, 18 ≤ log ∧ log ≤ 46 ∧ numPtes = 2 ^ (log - 4)

/-- `htab_alloc`: the table is cleared, the shadow array is not. -/
def htabAlloc (log : Nat) (hlog : 18 ≤ log ∧ log ≤ 46) (shadow : Nat → Uval) : Htab where
  numPtes := 2 ^ (log - 4)
  pte := fun _ => .ofWords 0 0
  shadow := shadow
  size_ok := .inr ⟨log, hlog.1, hlog.2, rfl⟩

/-- The values of `large_page_size1` and `large_page_size2` that `get_large_page_shift` tells
apart. -/
inductive LargePageSize
  | size64K
  | size1M
  | size16M
  | invalid
  deriving DecidableEq, Repr

/-- `get_large_page_shift`. -/
def getLargePageShift : LargePageSize → Nat
  | .size64K => 16
  | .size1M => 20
  | .size16M => 24
  | .invalid => 0

/-- `struct os`, with its `logical_memory_map`. -/
structure Os where
  htab : Htab
  /-- The large page sizes of the partition: `large_page_shift[i]` is the shift of `i`. -/
  largePageSize : Fin 2 → LargePageSize
  /-- `cached_partition_info[1].sfw_tlb`. -/
  sfwTlb : Bool
  pLci : Nat → Option LciId
  chunkUsage : Lbm maxLogicalMemChunks
  poPsm : Option LciId

/-- `os_create`, with `logical_mmap_init`: a partition without memory. -/
def osCreate (htab : Htab) (largePageSize : Fin 2 → LargePageSize) : Os where
  htab := htab
  largePageSize := largePageSize
  sfwTlb := false
  pLci := fun _ => none
  chunkUsage := ⟨fun _ => 0⟩
  poPsm := none

/-! ### The heap -/

/-- The cells of `struct dlist`. -/
inductive DRef
  | osRes (r : ResId)
  | siblings (r : ResId)
  | children (r : ResId)
  | poResources (o : OsId)
  | todo (t : Nat)
  deriving DecidableEq, Repr

/-- Work that waits for the hypercalls in progress: what `rcu_defer` queues, and a thread that
waits in `rcu_pause` before it cleans up its list. -/
inductive RcuNode
  /-- `h_rescind_logical`, between `rcu_pause` and `forced_rescind_cleanup`. -/
  | pause (t : Nat)
  /-- `death_rcu_cleanup`. -/
  | death (t : Nat) (o : OsId)
  /-- `__phys_mem_destroy`. -/
  | physMem (c : LciId)
  /-- `__psm_destroy`. -/
  | psm (c : LciId)
  deriving DecidableEq, Repr

/-- The state of the hypervisor. -/
structure Hype where
  os : OsId → Option Os
  lci : LciId → Option Lci
  res : ResId → Option SysResource
  psm : LciId → Option Psm
  dl : Links DRef
  rcu : List RcuNode
  /-- The counter of `insert_resource`. -/
  keys : Uval
  /-- No object has this number or a greater one. -/
  next : Nat
  /-- The resources whose `invalidate_fn` was called, in the order of the calls. -/
  invalidated : List ResId

namespace Hype

/-- The state with the given partitions and no memory resources. -/
def boot (os : OsId → Option Os) : Hype where
  os := os
  lci := fun _ => none
  res := fun _ => none
  psm := fun _ => none
  dl := ⟨id, id⟩
  rcu := []
  keys := 1
  next := 0
  invalidated := []

variable (h : Hype)

/-- `*os = x`. -/
@[simps -fullyApplied lci res psm dl rcu keys next invalidated]
def setOs (o : OsId) (x : Os) : Hype :=
  { h with os := update h.os o (some x) }

/-- `*lci = x`. -/
@[simps -fullyApplied os res psm dl rcu keys next invalidated]
def setLciObj (c : LciId) (x : Lci) : Hype :=
  { h with lci := update h.lci c (some x) }

/-- `*sr = x`. -/
@[simps -fullyApplied os lci psm dl rcu keys next invalidated]
def setRes (r : ResId) (x : SysResource) : Hype :=
  { h with res := update h.res r (some x) }

/-- `*psm = x`. -/
@[simps -fullyApplied os lci res dl rcu keys next invalidated]
def setPsm (c : LciId) (x : Psm) : Hype :=
  { h with psm := update h.psm c (some x) }

/-- The links of the lists after an operation on them. -/
@[simps -fullyApplied]
def setDl (l : Links DRef) : Hype := { h with dl := l }

/-- `rcu_defer`. -/
@[simps -fullyApplied]
def rcuDefer (n : RcuNode) : Hype := { h with rcu := h.rcu ++ [n] }

/-! ### What the setters leave -/

section

variable (h : Hype) {k : Nat}

@[simp]
theorem setOs_os_self (o : OsId) (x : Os) : (h.setOs o x).os o = some x := update_self ..

@[simp]
theorem setLciObj_lci_self (c : LciId) (x : Lci) : (h.setLciObj c x).lci c = some x :=
  update_self ..

theorem setLciObj_lci_of_ne (c : LciId) (x : Lci) (hk : k ≠ c) :
    (h.setLciObj c x).lci k = h.lci k := update_of_ne hk ..

@[simp]
theorem setRes_res_self (r : ResId) (x : SysResource) : (h.setRes r x).res r = some x :=
  update_self ..

theorem setRes_res_of_ne (r : ResId) (x : SysResource) (hk : k ≠ r) :
    (h.setRes r x).res k = h.res k := update_of_ne hk ..

@[simp]
theorem setPsm_psm_self (c : LciId) (x : Psm) : (h.setPsm c x).psm c = some x :=
  update_self ..

end

end Hype

/-! ### Two small states -/

/-- A partition with the smallest hash table. -/
def smallOs : Os := osCreate (htabAlloc 18 (by decide) fun _ => 0) fun _ => .size16M

/-- A partition with a chunk in slot `k` of its chunk table. -/
def oneChunkOs (k : Nat) : Os := { smallOs with pLci := fun i => if i = k then some 0 else none }

/-- A chunk of plain memory, in slot `k`. -/
def oneChunkLci (k : Nat) : Lci where
  lciRaddr := 0x10000000
  lciLaddr := BitVec.ofNat 64 k <<< 26
  lciSize := 0x4000000
  lciPtecount := 0
  lciDisabled := false
  lciOps := .physMem
  lciOs := some 0

/-- One partition, with one chunk of plain memory in slot `k`. -/
def oneChunk (k : Nat) : Hype :=
  { ((Hype.boot fun o => if o = 0 then some (oneChunkOs k) else none).setLciObj 0
      (oneChunkLci k)).setRes 0
        { srCookie := 2, srType := .mem .memAddr, srMapped := true, srRescinded := false
          srOwner := some 0, srParent := none } with next := 1 }

end Rhype
