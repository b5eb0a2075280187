import Rhype.Hype.State

/-!
# Logical memory (`logical.h`, `pmm.c`, `psm.h`, `psm.c`)

The logical address space of a partition is an array of chunks (`p_lci`), with a bitmap of the
slots in use.  A chunk is either plain memory, translated by its offset, or the chunk of the
page-share manager of the partition, which covers sixteen slots and translates page by page through
the chunks that were accepted into it.
-/

namespace Rhype

/-! ### Table accesses -/

/-- `p_lci[i]`. -/
def Os.slot (os : Os) (i : Nat) : Hv (Option LciId) :=
  if i < maxLogicalMemChunks then .ok (os.pLci i) else .error (.bounds .chunk i)

/-- `psm_entries[i]`. -/
def Psm.entry (psm : Psm) (i : Nat) : Hv (Option LciId) :=
  if i < numPsmEntries then .ok (psm.psmEntries i) else .error (.bounds .psm i)

/-- `for (j = 0; j < n; ++j) table[i + j] = x`, for a table `t` of `bound` pointers. -/
def fill (t : Table) (bound : Nat) (x : Option LciId) :
    Nat → Nat → (Nat → Option LciId) → Hv (Nat → Option LciId)
  | 0, _, f => .ok f
  | n + 1, i, f =>
    if i < bound then fill t bound x n (i + 1) (Function.update f i x)
    else .error (.bounds t i)

/-! ### Translation -/

/-- `laddr_to_lci`. -/
def laddrToLci (os : Os) (laddr : Uval) : Hv (Option LciId) := os.slot (chunkNumberAddr laddr)

/-- `lci_owns`. -/
def lciOwns (lci : Lci) (laddr : Uval) : Bool := rangeContains lci.lciLaddr lci.lciSize laddr

/-- `(laddr - lci_laddr) >> LOG_PGSIZE`: the entry of a page in the page-share manager. -/
def psmIndex (lci : Lci) (laddr : Uval) : Nat := ((laddr - lci.lciLaddr) >>> logPgsize).toNat

variable (h : Hype)

/-- `psm_l_to_r`. -/
def psmLToR (c : LciId) (lci : Lci) (laddr size : Uval) : Hv Uval := do
  let psm ← live (h.psm c)
  match ← psm.entry (psmIndex lci laddr) with
  | none => .ok invalidPhysicalAddress
  | some n => do
    let nextLci ← live (h.lci n)
    hassert (nextLci.lciRaddr ≠ invalidPhysicalAddress)
    hassert (rangeSubset nextLci.lciLaddr nextLci.lciSize laddr size)
    .ok (laddr - nextLci.lciLaddr + nextLci.lciRaddr)

/-- `lci_translate`. -/
def lciTranslate (c : LciId) (laddr size : Uval) : Hv Uval := do
  let lci ← live (h.lci c)
  if lci.lciDisabled then .ok invalidPhysicalAddress
  else if lci.lciRaddr = invalidPhysicalAddress then
    match lci.lciOps with
    | .psm => psmLToR h c lci laddr size
    | .physMem => .error .null
  -- the two ends of the range, modulo the word
  else if !lciOwns lci laddr || !lciOwns lci (laddr + size - 1) then .ok invalidPhysicalAddress
  else .ok (laddr - lci.lciLaddr + lci.lciRaddr)

/-- `logical_to_physical_address`. -/
def logicalToPhysicalAddress (o : OsId) (laddr len : Uval) : Hv Uval := do
  let os ← live (h.os o)
  match ← laddrToLci os laddr with
  | none => .ok invalidPhysicalAddress
  | some c => lciTranslate h c laddr len

/-! ### The chunk table -/

/-- The number of slots of a chunk: its size and its offset, rounded up to chunks. -/
def chunkCount (lci : Lci) : Nat :=
  (alignUp (lci.lciSize + chunkOffsetAddr lci.lciLaddr) chunkSize >>> logChunksize).toNat

/-- Where `set_lci` places a chunk: the hinted slots, or the first free ones. -/
def place (usage : Lbm maxLogicalMemChunks) (hint : Uval) (size : Nat) : Hv (Option Nat) := do
  let i := chunkNumberAddr hint
  -- a hint that does not fit is taken for slot 0
  let i := if maxLogicalMemChunks < i + size then 0 else i
  if ← usage.testBits i size false then .ok (some i)
  else usage.findRange 0 size (logAlignOf size) 0

/-- `set_lci`. -/
def setLci (o : OsId) (hint : Uval) (c : LciId) : Hv (Uval × Hype) := do
  let os ← live (h.os o)
  let lci ← live (h.lci c)
  let size := chunkCount lci
  match ← place os.chunkUsage hint size with
  -- no room: nothing is changed
  | none => .ok (invalidLogicalAddress, h)
  | some i => do
    let usage ← os.chunkUsage.setBits i size true
    let pLci ← fill .chunk maxLogicalMemChunks (some c) size i os.pLci
    let ret : Uval := BitVec.ofNat 64 i <<< logChunksize
    let h := h.setOs o { os with pLci := pLci, chunkUsage := usage }
    .ok (ret, h.setLciObj c
      { lci with lciOs := some o, lciLaddr := ret + chunkOffsetAddr lci.lciLaddr })

/-- The loop of `detach_lci`, with the number of slots left. -/
def detachLoop (c : LciId) : Nat → Nat → Os → Hv Os
  | 0, _, os => .ok os
  | n + 1, idx, os =>
    -- the run ends at the first slot of another chunk
    if os.pLci idx = some c then do
      let usage ← os.chunkUsage.setBits idx 1 false
      detachLoop c n (idx + 1)
        { os with pLci := Function.update os.pLci idx none, chunkUsage := usage }
    else .ok os

/-- `lci_disable`. -/
def lciDisable (c : LciId) : Hv Hype := do
  let lci ← live (h.lci c)
  .ok (h.setLciObj c { lci with lciDisabled := true })

/-- `lci_enable`. -/
def lciEnable (c : LciId) : Hv Hype := do
  let lci ← live (h.lci c)
  .ok (h.setLciObj c { lci with lciDisabled := false })

/-- `detach_lci`; the result is `1` when the chunk was not in its slot. -/
def detachLci (c : LciId) : Hv (Uval × Hype) := do
  let lci ← live (h.lci c)
  let o ← nonNull lci.lciOs
  let os ← live (h.os o)
  let idx := chunkNumberAddr lci.lciLaddr
  if idx < maxLogicalMemChunks ∧ os.pLci idx = some c then do
    let os ← detachLoop c (maxLogicalMemChunks - idx) idx os
    let h ← lciDisable (h.setOs o os) c
    .ok (0, h)
  else .ok (1, h)

/-! ### The page-share manager -/

/-- `psm_owns`. -/
def psmOwns (psmLci : Lci) (laddr : Uval) : Bool :=
  rangeContains psmLci.lciLaddr psmLci.lciSize laddr

/-- `psm_pte_hash`. -/
def psmPteHash (key : Uval) (_logTblSize : Nat) : Uval := key >>> logPgsize

/-- What the memory of a new page-share manager holds: neither `halloc` of this size nor `get_pages`
clears it, and `init_os_psm` sets neither the logical address, the flags and the count of the chunk
nor the words of the bitmap and the entries. -/
structure FreshPsm where
  laddr : Uval
  disabled : Bool
  ptecount : BitVec 32
  usage : Lbm numPsmEntries
  entries : Nat → Option LciId

/-- The chunk of a new page-share manager. -/
def freshPsmLci (o : OsId) (fresh : FreshPsm) : Lci where
  lciRaddr := invalidPhysicalAddress
  lciLaddr := fresh.laddr
  lciSize := BitVec.ofNat 64 numPsmEntries <<< logPgsize
  lciPtecount := fresh.ptecount
  lciDisabled := fresh.disabled
  lciOps := .psm
  lciOs := some o

/-- A new page-share manager is made and installed in the partition. -/
def installPsm (o : OsId) (os : Os) (fresh : FreshPsm) : Hype :=
  let psm : Psm :=
    { psmEntries := fresh.entries, psmPteHt := .init, psmUsage := fresh.usage }
  let p := h.next
  let h := { h with next := h.next + 1 }
  ((h.setLciObj p (freshPsmLci o fresh)).setPsm p psm).setOs o { os with poPsm := some p }

/-- `init_os_psm`. -/
def initOsPsm (o : OsId) (fresh : FreshPsm) : Hv (LciId × Hype) := do
  let os ← live (h.os o)
  match os.poPsm with
  | some p => .ok (p, h)
  | none => do
    let p := h.next
    let (addr, h) ← setLci (installPsm h o os fresh) o 0 p
    hassert (addr ≠ invalidLogicalAddress)
    .ok (p, h)

/-- `psm_accept`. -/
def psmAccept (p c : LciId) : Hv (Sval × Hype) := do
  let psm ← live (h.psm p)
  let psmLci ← live (h.lci p)
  let lci ← live (h.lci c)
  let pages := (pgnums lci.lciSize).toNat
  match ← psm.psmUsage.findRange 0 pages (logAlignOf pages) 0 with
  | none => .ok (hResource, h)
  | some idx => do
    let usage ← psm.psmUsage.setBits idx pages true
    let entries ← fill .psm numPsmEntries (some c) pages idx psm.psmEntries
    let h := h.setPsm p { psm with psmUsage := usage, psmEntries := entries }
    let base := (BitVec.ofNat 64 idx <<< logPgsize) + psmLci.lciLaddr
    .ok (hSuccess, h.setLciObj c { lci with lciLaddr := base, lciOs := psmLci.lciOs })

end Rhype
