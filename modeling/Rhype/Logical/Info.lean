import Rhype.Logical.Basic
import Rhype.Ranges.Merge

/-!
# The memory ranges of a partition (`hype/pmm.c`)

`logical_fill_partition_info` tells a partition which logical addresses it has: it walks along the
chunk table and writes the range of each chunk into a table of five entries.  The other fields of
`struct partition_info`, the messages and the copy into the image of the partition are left out.
-/

namespace Rhype

/-- `MAX_MEM_RANGES`. -/
def maxMemRanges : Nat := 5

/-- `struct mem_range`. -/
abbrev MemRange := Range Uval

/-- An entry that is not used. -/
def noRange : MemRange := ⟨0, -1⟩

/-- What `os_partition_info` points to. -/
inductive InfoPointer
  | null
  /-- `cached_partition_info` itself. -/
  | cached
  /-- The structure in the image of the partition. -/
  | image
  deriving DecidableEq, Repr

/-- `while (!lci)`: the next chunk, and its slot. -/
def skipHoles (os : Os) : Nat → Nat → Hv (Option (LciId × Nat))
  | 0, _ => .error .spin
  | fuel + 1, chunk => do
    match ← os.slot chunk with
    | some c => .ok (some (c, chunk))
    | none =>
      if maxLogicalMemChunks ≤ chunk + 1 then .ok none
      else skipHoles os fuel (chunk + 1)

/-- `while (lci == p_lci[++logical_chunk] && ...)`: the slot is read before it is compared with the
size of the table. -/
def skipRun (os : Os) (c : LciId) : Nat → Nat → Hv Nat
  | 0, _ => .error .spin
  | fuel + 1, chunk => do
    let next ← os.slot (chunk + 1)
    if next = some c ∧ chunk + 1 < maxLogicalMemChunks then skipRun os c fuel (chunk + 1)
    else .ok (chunk + 1)

/-- The loop over `mem[i]`; a round that merges its range stays at `i`. -/
def fillLoop (h : Hype) (os : Os) : Nat → Nat → Nat → (Nat → MemRange) → Hv (Nat → MemRange)
  | 0, _, _, _ => .error .spin
  | fuel + 1, i, chunk, mem =>
    if i < maxMemRanges then do
      match ← skipHoles os (maxLogicalMemChunks + 1) chunk with
      | none => .ok mem
      | some (c, chunk) => do
        let lci ← live (h.lci c)
        let mem := Function.update mem i ⟨lci.lciLaddr, lci.lciSize⟩
        let chunk ← skipRun os c (maxLogicalMemChunks + 1) chunk
        -- entry 1 is not merged with entry 0
        if 1 < i ∧ (mem (i - 1)).stop = (mem i).addr then
          let mem := Function.update mem (i - 1) ((mem (i - 1)).join (mem i))
          fillLoop h os fuel i chunk (Function.update mem i noRange)
        else fillLoop h os fuel (i + 1) chunk mem
    else .ok mem

/-- `logical_fill_partition_info`: the cached entries, and what is copied out. -/
def logicalFillPartitionInfo (h : Hype) (os : Os) (info : InfoPointer) (mem : Nat → MemRange) :
    Hv ((Nat → MemRange) × Option (Nat → MemRange)) :=
  match info with
  | .null => .ok (mem, none)
  | .cached => .ok (mem, none)
  | .image => do
    let mem ← fillLoop h os (maxLogicalMemChunks + 1) 0 0 fun _ => noRange
    .ok (mem, some mem)

end Rhype
