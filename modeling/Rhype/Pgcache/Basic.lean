import Rhype.Basic
import Rhype.Ia32.Paging

/-!
# The page cache of an x86 partition (`x86/pgcache.c`, `x86/pgcache.h`, `x86/pgframe.h`)

The processor uses a *shadow* of the page tables of a partition, in which the logical addresses are
translated to real ones.  The frames of the page cache hold the shadow directories and the shadow
page tables.

* The members that only one kind of frame has are those of `Pgdir` or `Pgtab`; a frame is of one
  kind for ever, by its place in the array of frames.
* `next` links the frames of a free list, or the directories of a chain of the hash table.
* `lp_vaddr` is the page of the partition, mapped in the hypervisor: what is read there is what the
  partition has written last.
* The logical memory map does not change here.

On this build `uval` is a 32-bit word.
-/

namespace Rhype.Pgcache

open Function Ia32

/-- The index of a directory frame. -/
abbrev DirId := Nat

/-- The index of a page table frame, counted from `NR_DIR_FRAMES`. -/
abbrev TabId := Nat

def nrFrames : Nat := 512
def nrDirFrames : Nat := 102
def nrMmuPtes : Nat := 1024

/-- `NR_LPAR_PGTABS`: the slots of a directory below those of the hypervisor. -/
def nrLparPgtabs : Nat := 1008

def hvVbase : Word := 0xFC000000
def invalidPhysicalAddress : Word := 0xFFFFFFFF
def pgsize : Word := 0x1000
def lpgsize : Word := 0x400000
def hashsize : Nat := 32

/-- `HASH`. -/
def hash (laddr : Word) : Nat := ((laddr >>> 12) &&& 31).toNat

/-! ### The logical memory map (`logical.h`, `pmm.c`, `psm.c`) -/

/-- What a translation reads of a `logical_chunk_info`. -/
structure Lci where
  raddr : Word
  laddr : Word
  size : Word
  disabled : Bool
  deriving DecidableEq, Repr

/-- A chunk in the map: plain memory, or the page-share manager with its entries. -/
inductive MapChunk
  | physMem (lci : Lci)
  | psm (lci : Lci) (entries : Nat → Option Lci)

/-- The slots `p_lci` of the logical memory map; an address has 64 of them. -/
abbrev LogicalMap := Nat → Option MapChunk

def MapChunk.lci : MapChunk → Lci
  | .physMem lci => lci
  | .psm lci _ => lci

def rangeSubset (start1 size1 start2 size2 : Word) : Bool :=
  decide (start1 ≤ start2) && decide (start2 + size2 ≤ start1 + size1)

/-- `lci_owns`. -/
def lciOwns (lci : Lci) (laddr : Word) : Bool := rangeSubset lci.laddr lci.size laddr 1

def numPsmEntries : Nat := 2 ^ 18

/-- `psm_l_to_r`. -/
def psmLToR (lci : Lci) (entries : Nat → Option Lci) (laddr size : Word) : Hv Word :=
  let idx := ((laddr - lci.laddr) >>> 12).toNat
  if numPsmEntries ≤ idx then .error (.bounds .psm idx)
  else match entries idx with
  | none => .ok invalidPhysicalAddress
  | some nextLci => do
    hassert (nextLci.raddr ≠ invalidPhysicalAddress)
    hassert (rangeSubset nextLci.laddr nextLci.size laddr size)
    .ok (laddr - nextLci.laddr + nextLci.raddr)

/-- `lci_translate`. -/
def lciTranslate (c : MapChunk) (laddr size : Word) : Hv Word :=
  if c.lci.disabled then .ok invalidPhysicalAddress
  else if c.lci.raddr = invalidPhysicalAddress then
    match c with
    | .psm lci entries => psmLToR lci entries laddr size
    | .physMem _ => .error .null
  else if !lciOwns c.lci laddr || !lciOwns c.lci (laddr + size - 1) then .ok invalidPhysicalAddress
  else .ok (laddr - c.lci.laddr + c.lci.raddr)

/-- `logical_to_physical_address`. -/
def logicalToPhysicalAddress (m : LogicalMap) (laddr len : Word) : Hv Word :=
  match m (laddr >>> 26).toNat with
  | none => .ok invalidPhysicalAddress
  | some c => lciTranslate c laddr len

/-! ### Frames (`pgframe.h`) -/

/-- What is mapped at the `lp_vaddr` of a frame: the page that `pgc_init` has allocated for it, or a
page of the partition. -/
inductive LpPage
  | ownDir (d : DirId)
  | ownTab (t : TabId)
  | guest (paddr : Word)
  deriving DecidableEq, Repr

/-- A directory. -/
structure Pgdir where
  lpLaddr : Word
  lp : LpPage
  hv : Nat → Word
  last : Word
  pgt : Nat → Option TabId

/-- A page table. -/
structure Pgtab where
  lpLaddr : Word
  lp : LpPage
  hv : Nat → Word
  pdi : Nat
  pgd : Option DirId

/-- The frames of one kind with their `next`, their free list and its length. -/
structure Pool (α : Type) where
  frame : Nat → α
  next : Nat → Option Nat
  freelist : Option Nat
  freecount : Word

/-- The page cache of a partition, the part of its thread that concerns paging, the clock and the
memory in which the partition keeps its page tables. -/
structure Shadow where
  dirs : Pool Pgdir
  tabs : Pool Pgtab
  htab : Nat → Option DirId
  /-- `thread->pgd`, the directory that is active. -/
  pgd : DirId
  cr3 : Word
  flushed : Option DirId
  /-- `thread->cb` is `shadow_fault_callback`. -/
  cb : Bool
  regCr2 : Word
  ticks : BitVec 64
  mem : LpPage → Nat → Word

/-- What does not change: the partition's memory map and privilege, and the hypervisor's own
memory. -/
structure Env where
  lmm : LogicalMap
  /-- `iopl == EFLAGS_IOPL_2` -/
  ioprivilege : Bool
  maxPhysMemory : Word
  hvPgd : Nat → Word
  /-- `hv_paddr` of the directories. -/
  dirPaddr : DirId → Word
  /-- `hv_paddr` of the page tables, which are pages. -/
  tabPaddr : TabId → Word
  tabPaddr_aligned : ∀ t, ptePageaddr (tabPaddr t) = tabPaddr t

/-! ### Setters -/

namespace Pool

variable {α : Type}

def set (p : Pool α) (i : Nat) (f : α) : Pool α := { p with frame := update p.frame i f }

def setNext (p : Pool α) (i : Nat) (n : Option Nat) : Pool α :=
  { p with next := update p.next i n }

/-- `pgc_enqueue`. -/
def enqueue (p : Pool α) (i : Nat) : Pool α :=
  { p.setNext i p.freelist with freelist := some i, freecount := p.freecount + 1 }

/-- `pgc_dequeue`. -/
def dequeue (p : Pool α) : Option (Nat × Pool α) :=
  p.freelist.map fun i => (i, { p with freelist := p.next i, freecount := p.freecount - 1 })

end Pool

/-- A table of entries of the shadow. -/
inductive PgTable
  | dir (d : DirId)
  | tab (t : TabId)

namespace Shadow

variable (s : Shadow)

def dir (d : DirId) : Pgdir := s.dirs.frame d

def tab (t : TabId) : Pgtab := s.tabs.frame t

def setDir (d : DirId) (f : Pgdir) : Shadow := { s with dirs := s.dirs.set d f }

def setTab (t : TabId) (f : Pgtab) : Shadow := { s with tabs := s.tabs.set t f }

/-- A store to the shadow. -/
def setHv (table : PgTable) (i : Nat) (e : Word) : Shadow :=
  match table with
  | .dir d => s.setDir d { s.dir d with hv := update (s.dir d).hv i e }
  | .tab t => s.setTab t { s.tab t with hv := update (s.tab t).hv i e }

/-- `lp_vaddr[i]` of a directory. -/
def lpDir (d : DirId) (i : Nat) : Word := s.mem (s.dir d).lp i

/-- `lp_vaddr[i]` of a page table. -/
def lpTab (t : TabId) (i : Nat) : Word := s.mem (s.tab t).lp i

/-- `lp_vaddr[i] |= e` -/
def orLp (p : LpPage) (i : Nat) (e : Word) : Shadow :=
  { s with mem := update s.mem p (update (s.mem p) i (s.mem p i ||| e)) }

end Shadow

/-! ### Entries of the shadow (`pgcache.h`) -/

/-- `isa_iospace`. -/
def isaIospace (a : Word) : Bool := decide (0x0A0000 ≤ a) && decide (a < 0x100000)

/-- What `pgc_set_pte` returns, and the entry that it stores for an entry of the partition. -/
def shadowEntry (env : Env) (entry : Word) : Hv (Bool × Word) :=
  let laddr := ptePageaddr entry
  if test entry pteP then do
    -- one page is translated, also where the entry maps 4 MB
    let paddr ← logicalToPhysicalAddress env.lmm laddr pgsize
    if paddr = invalidPhysicalAddress then
      .ok (if env.ioprivilege && decide (env.maxPhysMemory ≤ laddr) then (true, entry)
        else (false, 0))
    else if env.ioprivilege && isaIospace laddr then .ok (true, entry)
    else
      let pte := paddr ||| pteFlags entry
      -- the first write faults, to set the dirty bit
      .ok (true, if !test pte pteD then pte &&& ~~~pteRw else pte)
  else .ok (true, 0)

/-- `pgc_set_pte`. -/
def setPte (env : Env) (s : Shadow) (table : PgTable) (index : Nat) (entry : Word) :
    Hv (Bool × Shadow) := do
  let (rc, pte) ← shadowEntry env entry
  .ok (rc, s.setHv table index pte)

/-- `pgc_set_pgtab`. -/
def setPgtab (env : Env) (s : Shadow) (pgd : DirId) (pdi : Nat) (pgtab : TabId) (flags : Word) :
    Shadow :=
  let s := s.setHv (.dir pgd) pdi (env.tabPaddr pgtab ||| flags)
  let s := s.setDir pgd { s.dir pgd with pgt := update (s.dir pgd).pgt pdi (some pgtab) }
  s.setTab pgtab { s.tab pgtab with pdi := pdi, pgd := some pgd }

/-- The loop of `pgc_lookup`, along a chain of the hash table. -/
def lookupLoop (s : Shadow) (laddr : Word) : Nat → Option DirId → Hv (Option DirId)
  | _, none => .ok none
  | 0, some _ => .error .spin
  | fuel + 1, some h =>
    if (s.dir h).lpLaddr = laddr then .ok (some h) else lookupLoop s laddr fuel (s.dirs.next h)

/-- `pgc_lookup` of a directory. -/
def lookup (s : Shadow) (laddr : Word) : Hv (Option DirId) :=
  lookupLoop s laddr nrDirFrames (s.htab (hash laddr))

end Rhype.Pgcache
