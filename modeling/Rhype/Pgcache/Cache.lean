import Rhype.Pgcache.Basic

/-!
# Allocation, flushes and prefetches in the page cache (`x86/pgcache.c`)

A frame is taken from its free list.  When that is empty `pgc_garbage_collect` frees directories
with their page tables: the one that was flushed, then those that were not used for the longest
time, but never the directory that is active.
-/

namespace Rhype.Pgcache

open Function Ia32

/-- `enum pgc_type`. -/
inductive PgcType
  | pgdir
  | pgtab
  deriving DecidableEq, Repr

def Shadow.freecount (s : Shadow) : PgcType → Word
  | .pgdir => s.dirs.freecount
  | .pgtab => s.tabs.freecount

/-- `pgc->freelist[type] != NULL` -/
def Shadow.hasFree (s : Shadow) : PgcType → Bool
  | .pgdir => s.dirs.freelist.isSome
  | .pgtab => s.tabs.freelist.isSome

/-! ### The hash table -/

/-- `pgc_enter`. -/
def enter (s : Shadow) (d : DirId) : Shadow :=
  let hash := hash (s.dir d).lpLaddr
  { s with
    dirs := s.dirs.setNext d (s.htab hash)
    htab := update s.htab hash (some d) }

/-- The loop of `pgc_remove`, from `h` on. -/
def removeLoop (frame : DirId) : Nat → DirId → Pool Pgdir → Hv (Pool Pgdir)
  | 0, _, _ => .error .spin
  | fuel + 1, h, dirs =>
    match dirs.next h with
    | none => .ok dirs
    | some n =>
      if n = frame then .ok (dirs.setNext h (dirs.next frame)) else removeLoop frame fuel n dirs

/-- `pgc_remove`. -/
def remove (s : Shadow) (frame : DirId) : Hv Shadow :=
  let hash := hash (s.dir frame).lpLaddr
  match s.htab hash with
  | none => .error .null
  | some h =>
    if h = frame then .ok { s with htab := update s.htab hash (s.dirs.next h) }
    else do
      let dirs ← removeLoop frame nrDirFrames h s.dirs
      .ok { s with dirs := dirs }

/-! ### Freeing frames -/

/-- `pgc_free_pgtab`. -/
def freePgtab (s : Shadow) (pgtab : TabId) : Hv Shadow :=
  match (s.tab pgtab).pgd with
  | none => .error .assertion
  | some pgd => do
    let pdi := (s.tab pgtab).pdi
    hassert (pdi < nrMmuPtes)
    let s := s.setTab pgtab { s.tab pgtab with pgd := none, hv := fun _ => 0 }
    let s := s.setDir pgd { s.dir pgd with
      pgt := update (s.dir pgd).pgt pdi none
      hv := update (s.dir pgd).hv pdi 0 }
    .ok { s with tabs := s.tabs.enqueue pgtab }

/-- The body of the loop of `pgc_free_pgdir`. -/
def freeSlot (pgdir : DirId) (s : Shadow) (pdi : Nat) : Hv Shadow :=
  match (s.dir pgdir).pgt pdi with
  | none => .ok s
  | some pgtab => freePgtab s pgtab

/-- `pgc_free_pgdir`. -/
def freePgdir (s : Shadow) (pgdir : DirId) : Hv Shadow := do
  let s ← (List.range nrLparPgtabs).foldlM (freeSlot pgdir) s
  let s := s.setDir pgdir { s.dir pgdir with hv := fun _ => 0 }
  let s ← remove s pgdir
  .ok { s with dirs := s.dirs.enqueue pgdir }

/-! ### Garbage collection -/

/-- The directory that a search for a victim keeps of two. -/
def older (s : Shadow) (victim : Option DirId) (d : DirId) : DirId :=
  match victim with
  | none => d
  | some v => if (s.dir d).last ≤ (s.dir v).last then d else v

/-- The search for a victim along a chain of the hash table. -/
def victimChain (s : Shadow) : Nat → Option DirId → Option DirId → Hv (Option DirId)
  | _, none, victim => .ok victim
  | 0, some _, _ => .error .spin
  | fuel + 1, some d, victim => victimChain s fuel (s.dirs.next d) (some (older s victim d))

/-- The search for a victim. -/
def findVictim (s : Shadow) : Hv (Option DirId) :=
  (List.range hashsize).foldlM
    (fun victim h => victimChain s nrDirFrames (s.htab h) victim) none

/-- The first attempt of `pgc_garbage_collect`; the first component is `true` when it has freed a
frame of the type. -/
def collectLoop (type : PgcType) : Nat → Shadow → Hv (Bool × Shadow)
  | 0, _ => .error .spin
  | fuel + 1, s => do
    match ← findVictim s with
    | none => .error .assertion
    | some victim =>
      if victim = s.pgd then .ok (s.hasFree type, s)
      else do
        let s ← freePgdir s victim
        if s.hasFree type then .ok (true, s) else collectLoop type fuel s

/-- `pgc_garbage_collect` after it has freed the directory that was flushed. -/
def collectVictims (type : PgcType) (s : Shadow) : Hv Shadow := do
  let (found, s) ← collectLoop type (nrDirFrames + 1) s
  if found then .ok s
  else do
    hassert (type = .pgtab)
    let s ← freePgtab s (s.ticks.toNat % (nrFrames - nrDirFrames))
    hassert (s.hasFree type)
    .ok s

/-- `pgc_garbage_collect`. -/
def garbageCollect (type : PgcType) (s : Shadow) : Hv Shadow := do
  hassert (s.freecount type = 0)
  match s.flushed with
  | none => collectVictims type s
  | some flushed =>
    -- the active directory stays, even when it was flushed
    if flushed = s.pgd then collectVictims type s
    else do
      let s ← freePgdir s flushed
      let s := { s with flushed := none }
      if s.hasFree type then .ok s else collectVictims type s

/-! ### Allocation -/

variable (env : Env) (s : Shadow)

/-- The first part of `pgc_alloc`: `none` for an address that the partition does not have. -/
def allocPage (laddr : Word) : Hv (Option (Option Word)) :=
  if laddr = invalidPhysicalAddress then .ok (some none)
  else do
    let paddr ← logicalToPhysicalAddress env.lmm laddr pgsize
    .ok (if paddr = invalidPhysicalAddress then none else some (some paddr))

/-- `hv_map` of the page of the partition; without one the old page stays. -/
def mapLp (old : LpPage) (paddr : Option Word) : Hv LpPage :=
  match paddr with
  | none => .ok old
  | some paddr => do
    hassert (ptePageaddr paddr = paddr)
    .ok (.guest paddr)

/-- `pgc_alloc` calls `pgc_garbage_collect` when the free list is empty. -/
def makeRoom (type : PgcType) (s : Shadow) : Hv Shadow :=
  if s.hasFree type then .ok s else garbageCollect type s

/-- `pgc_alloc` of a page table, from a free list that is not empty. -/
def takeTab (laddr : Word) (paddr : Option Word) (s : Shadow) : Hv (TabId × Shadow) :=
  match s.tabs.dequeue with
  | none => .error .assertion
  | some (t, tabs) => do
    let s := { s with tabs := tabs }
    let lp ← mapLp (s.tab t).lp paddr
    .ok (t, s.setTab t { s.tab t with lpLaddr := laddr, lp := lp, hv := fun _ => 0 })

/-- `pgc_alloc` of a directory, from a free list that is not empty. -/
def takeDir (laddr : Word) (paddr : Option Word) (s : Shadow) : Hv (DirId × Shadow) :=
  match s.dirs.dequeue with
  | none => .error .assertion
  | some (d, dirs) => do
    let s := { s with dirs := dirs }
    let lp ← mapLp (s.dir d).lp paddr
    let s := s.setDir d { s.dir d with
      lpLaddr := laddr, lp := lp, hv := fun _ => 0, last := s.ticks.setWidth 32 }
    .ok (d, enter s d)

/-- `pgc_alloc(thread, laddr, PGC_PGTAB)`. -/
def allocTab (laddr : Word) : Hv (Option TabId × Shadow) := do
  match ← allocPage env laddr with
  | none => .ok (none, s)
  | some paddr => do
    let s ← makeRoom .pgtab s
    let (t, s) ← takeTab laddr paddr s
    .ok (some t, s)

/-- `pgc_alloc(thread, laddr, PGC_PGDIR)`. -/
def allocDir (laddr : Word) : Hv (Option DirId × Shadow) := do
  match ← allocPage env laddr with
  | none => .ok (none, s)
  | some paddr => do
    let s ← makeRoom .pgdir s
    let (d, s) ← takeDir laddr paddr s
    .ok (some d, s)

/-- `pgc_hypervisor_mapping`. -/
def hypervisorMapping (pgd : DirId) : Shadow :=
  s.setDir pgd { s.dir pgd with
    hv := fun pdi =>
      if nrLparPgtabs ≤ pdi ∧ pdi < nrMmuPtes then env.hvPgd pdi else (s.dir pgd).hv pdi }

/-! ### Flushes and prefetches -/

/-- The body of the loop of `pgc_flush`. -/
def flushSlot (pgd : DirId) (s : Shadow) (pdi : Nat) : Hv Shadow :=
  let pde := (s.dir pgd).hv pdi
  if !test pde pteP then .ok s
  else if !test pde ptePs then
    match (s.dir pgd).pgt pdi with
    | none => .error .null
    | some pgtab => freePgtab s pgtab
  else do
    let (_, s) ← setPte env s (.dir pgd) pdi 0
    .ok s

/-- `pgc_flush`. -/
def flush (pgd : DirId) : Hv Shadow :=
  (List.range nrLparPgtabs).foldlM (flushSlot env pgd) s

/-- The body of the loop of `pgc_prefetch_pgtab`. -/
def prefetchPte (table : TabId) (s : Shadow) (i : Nat) : Hv Shadow := do
  let (_, s) ← setPte env s (.tab table) i (s.lpTab table i)
  .ok s

/-- `pgc_prefetch_pgtab`; no caller looks at its result. -/
def prefetchPgtab (table : TabId) : Hv Shadow :=
  (List.range nrMmuPtes).foldlM (prefetchPte env table) s

/-- A page table is allocated for an entry of the partition's directory, linked and prefetched.  The
answer is `none` when the partition does not have the page of the table. -/
def graft (pgd : DirId) (pdi : Nat) (pde : Word) : Hv (Option TabId × Shadow) := do
  let (pgt, s) ← allocTab env s (ptePageaddr pde)
  match pgt with
  | none => .ok (none, s)
  | some pgt => do
    let s ← prefetchPgtab env (setPgtab env s pgd pdi pgt (pteFlags pde)) pgt
    .ok (some pgt, s)

/-- The frame of the slot is freed, if there is one. -/
def dropTable (s : Shadow) (pgd : DirId) (pdi : Nat) : Hv Shadow :=
  match (s.dir pgd).pgt pdi with
  | none => .ok s
  | some pgt => freePgtab s pgt

/-- `pgc_prefetch_pgdir` for a slot whose entry in the partition's directory points to a page table
that the shadow does not have. -/
def prefetchNew (pgd : DirId) (pdi : Nat) (pde : Word) (s : Shadow) : Hv Shadow := do
  let (pgt, s) ← graft env s pgd pdi pde
  if pgt.isSome then .ok s
  else do
    let (_, s) ← setPte env s (.dir pgd) pdi 0
    .ok s

/-- The body of the loop of `pgc_prefetch_pgdir`. -/
def prefetchSlot (pgd : DirId) (s : Shadow) (pdi : Nat) : Hv Shadow :=
  let pde := s.lpDir pgd pdi
  if !test pde pteP then do
    let s ← dropTable s pgd pdi
    let (_, s) ← setPte env s (.dir pgd) pdi 0
    .ok s
  else if test pde ptePs then do
    let s ← dropTable s pgd pdi
    let (_, s) ← setPte env s (.dir pgd) pdi pde
    .ok s
  else match (s.dir pgd).pgt pdi with
  | none => prefetchNew env pgd pdi pde s
  | some pgt =>
    if (s.tab pgt).lpLaddr = ptePageaddr pde then prefetchPgtab env s pgt
    else do
      -- the partition uses another page table now
      let s ← freePgtab s pgt
      prefetchNew env pgd pdi pde s

/-- `pgc_prefetch_pgdir`; no caller looks at its result. -/
def prefetchPgdir (pgd : DirId) : Hv Shadow :=
  (List.range nrLparPgtabs).foldlM (prefetchSlot env pgd) s

/-! ### The start of a partition -/

/-- The free list of `pgc_init`: every frame up to the last of its kind. -/
def initPool {α : Type} (n : Nat) (frame : Nat → α) : Pool α where
  frame := frame
  next := fun i => if i + 1 < n then some (i + 1) else none
  freelist := some 0
  freecount := BitVec.ofNat 32 n

/-- `pgc_init`, on zeroed pages, and the fields of the thread. -/
def pgcInit (ticks : BitVec 64) (mem : Word → Nat → Word) : Shadow where
  dirs := initPool nrDirFrames fun d => ⟨0, .ownDir d, fun _ => 0, 0, fun _ => none⟩
  tabs := initPool (nrFrames - nrDirFrames) fun t => ⟨0, .ownTab t, fun _ => 0, 0, none⟩
  htab := fun _ => none
  pgd := 0
  cr3 := 0
  flushed := none
  cb := false
  regCr2 := 0
  ticks := ticks
  mem := fun p i => match p with
    | .guest paddr => mem paddr i
    | _ => 0

/-- The number of 4 MB pages in a chunk. -/
def chunkPages : Nat := 16

/-- An entry of the initial mapping: the chunk is mapped one to one. -/
def initialEntry (pdi : Nat) : Word :=
  (BitVec.ofNat 32 pdi <<< 22) ||| ptePs ||| pteUs ||| pteRw ||| pteA ||| pteD ||| pteP

/-- The body of the loop of `pgc_initial_mapping`. -/
def initialSlot (pdi : Nat) : Hv Shadow := do
  let (rc, s) ← setPte env s (.dir s.pgd) pdi (initialEntry pdi)
  hassert rc
  .ok s

/-- `pgc_initial_mapping`. -/
def initialMapping : Hv Shadow :=
  (List.range chunkPages).foldlM (initialSlot env) (hypervisorMapping env s s.pgd)

/-- The part of `arch_init_thread` that sets up the page tables. -/
def initThread (ticks : BitVec 64) (mem : Word → Nat → Word) : Hv Shadow := do
  let (pgd, s) ← allocDir env (pgcInit ticks mem) invalidPhysicalAddress
  match pgd with
  | none => .error .assertion
  | some pgd => do
    let s ← initialMapping env { s with pgd := pgd, flushed := none }
    .ok { s with cr3 := env.dirPaddr s.pgd, cb := false }

end Rhype.Pgcache
