import Rhype.Pgcache.Equiv.Frames

/-!
# The page tables that the processor uses

A present entry of a shadow directory that does not map 4 MB makes the processor walk the page that
it names as a page table.  Every path that stores such an entry links a frame of the page cache in
the same slot, but for one: for a slot that holds a page of 4 MB, `flush_single` reloads the entry
of the partition's directory with the index of the *page table*.  If that entry points to a page
table of the partition, the processor is given that page, which the partition can write.
-/

namespace Rhype.Pgcache

open Function Ia32

/-- A directory entry that points to a page table points to the frame of its slot. -/
def LinkedDir (env : Env) (hv : Nat → Word) (pgt : Nat → Option TabId) : Prop :=
  ∀ pdi < nrLparPgtabs, isTable (hv pdi) = true →
    ∃ t < nrTabFrames, pgt pdi = some t ∧ ptePageaddr (hv pdi) = env.tabPaddr t

/-- `flush_single` does not load an entry that points to a page table. -/
def FlushOk (s : Shadow) : Event → Prop
  | .flushTlb flags vaddr =>
    test flags hFlushTlbSingle = true → test flags hFlushTlbPrefetch = true → vaddr < hvVbase →
      isLarge ((s.dir s.pgd).hv (pdiOf vaddr)) = true →
      isTable (s.lpDir s.pgd (ptiOf vaddr)) = false
  | _ => True

/-- No entry that points to a page table of the partition is stored in a directory. -/
def noTables : Rules where
  entry e := isTable e = false
  slot _ := True
  zero := by decide
  dirty e he := by rwa [isTable_dirty]
  low _ _ := trivial

section

variable {env : Env}

theorem isTable_shadowEntry {e v : Word} {rc : Bool} (he : isTable e = false)
    (hx : shadowEntry env e = .ok (rc, v)) : isTable v = false := by
  rcases shadowEntry_ok hx with rfl | ⟨hp, ⟨rfl, -⟩ | ⟨paddr, -, -, hv⟩⟩
  · decide
  · exact he
  have hps : test e ptePs = true := by simpa [isTable, hp] using he
  have hflags : test (paddr ||| pteFlags e) ptePs = true := by
    have hmask : test (pteFlags e) ptePs = test e ptePs := test_and (by decide)
    rw [test_or, hmask, hps, Bool.or_true]
  have hvps : test v ptePs = true := by
    rcases hv with rfl | rfl
    · exact hflags
    · rwa [test_and (by decide)]
  rw [isTable, hvps, Bool.not_true, Bool.and_false]

theorem linkedDir_frames (env : Env) : FrameInv env noTables (LinkedDir env) fun _ => True where
  zero := fun pgt pdi _ ht => absurd (show isTable 0 = true from ht) nofun
  fresh := by
    intro pgt pdi hpdi ht
    dsimp only at ht
    rw [if_neg fun h => absurd h.1 (not_le.2 hpdi)] at ht
    cases ht
  store := by
    intro hv pgt i e rc v hdir he hx pdi hpdi ht
    rcases eq_or_ne pdi i with rfl | hne
    · rw [update_self, isTable_shadowEntry he hx] at ht
      cases ht
    · rw [update_of_ne hne] at ht ⊢
      exact hdir pdi hpdi ht
  link := by
    intro hv pgt i t e hdir hbound _ pdi hpdi ht
    rcases eq_or_ne pdi i with rfl | hne
    · rw [update_self, update_self, ptePageaddr_or_pteFlags]
      exact ⟨t, hbound, rfl, env.tabPaddr_aligned t⟩
    · rw [update_of_ne hne] at ht ⊢
      rw [update_of_ne hne]
      exact hdir pdi hpdi ht
  unlink := by
    intro hv pgt i hdir pdi hpdi ht
    rcases eq_or_ne pdi i with rfl | hne
    · rw [update_self] at ht
      cases ht
    · rw [update_of_ne hne] at ht ⊢
      rw [update_of_ne hne]
      exact hdir pdi hpdi ht
  tabZero := trivial
  tabStore := fun _ _ => trivial

theorem cleanPage_noTables (s : Shadow) (p : LpPage) : CleanPage noTables s p :=
  fun _ hl => isTable_of_isLarge hl

theorem isTable_linearEntry (addr : Word) : isTable (linearEntry addr) = false := by
  have hps : test (linearEntry addr) ptePs = true := by
    have hself : test ptePs ptePs = true := by decide
    simp only [linearEntry, test_or, hself, Bool.or_true, Bool.true_or]
  rw [isTable, hps, Bool.not_true, Bool.and_false]

theorem allowed_noTables {s : Shadow} {ev : Event} (hok : FlushOk s ev) :
    Allowed env noTables s ev := by
  have hlinear : ∀ addr, noTables.entry (linearEntry addr) := isTable_linearEntry
  cases ev with
  | guest mem => trivial
  | tick => trivial
  | fault r error cr2 =>
    exact ⟨trivial, cleanPage_noTables s _, fun _ => ⟨hlinear _, hlinear _⟩⟩
  | deliver r except => exact ⟨cleanPage_noTables s _, fun _ => ⟨hlinear _, hlinear _⟩⟩
  | iret r => exact ⟨cleanPage_noTables s _, fun _ => ⟨hlinear _, hlinear _⟩⟩
  | pageDir flags laddr => exact fun p _ => cleanPage_noTables s p
  | flushTlb flags vaddr => exact ⟨cleanPage_noTables s _, hok⟩
  | getPte flags vaddr => trivial

end

/-- **Every present entry of a shadow directory that does not map 4 MB points to the frame of its
slot**, in every state of a run in which `flush_single` never loads an entry that points to a page
table. -/
theorem tables_linked {env : Env} {ticks : BitVec 64} {mem : Word → Nat → Word} {s0 s : Shadow}
    {evs : List Event} (hstart : initThread env ticks mem = .ok s0)
    (hrun : Run (step env) FlushOk s0 evs s) (d : DirId) (pdi : Nat) (hpdi : pdi < nrLparPgtabs)
    (ht : isTable ((s.dir d).hv pdi) = true) :
    ∃ t < nrTabFrames, (s.dir d).pgt pdi = some t ∧
      ptePageaddr ((s.dir d).hv pdi) = env.tabPaddr t := by
  have hentries : ∀ i < chunkPages, noTables.entry (initialEntry i) := by
    intro i hi
    change isTable (initialEntry i) = false
    have hps : test (initialEntry i) ptePs = true := by
      have hself : test ptePs ptePs = true := by decide
      simp only [initialEntry, test_or, hself, Bool.or_true, Bool.true_or]
    rw [isTable, hps, Bool.not_true, Bool.and_false]
  have hallowed : Run (step env) (Allowed env noTables) s0 evs s :=
    hrun.mono fun _ _ hok => allowed_noTables hok
  exact ((linkedDir_frames env).reachable hentries hstart hallowed).dirs d pdi hpdi ht

/-- Entry 1 of the partition's directory points to an empty page table. -/
def smallTable : Shadow :=
  { smallDir with mem := fun p i => match p with
    | .guest paddr => if paddr = 0x10005000 ∧ i = 1 then 0x7007 else 0
    | p => smallDir.mem p i }

/-- The page table is linked. -/
def smallLinked : Shadow :=
  setPgtab smallEnv (smallTable.takenTab 0 0x7000 (.guest 0x10007000)) 1 1 0 7

theorem smallLinked_ok :
    step smallEnv smallTable (.flushTlb (hFlushTlbAll ||| hFlushTlbPrefetch) 0) =
      .ok { smallLinked with cb := false } := by
  have hgraft : graft smallEnv smallTable 1 1 0x7007 = .ok (some 0, smallLinked) := by
    have hpaddr : logicalToPhysicalAddress smallEnv.lmm (ptePageaddr 0x7007) pgsize =
        .ok 0x10007000 := rfl
    refine graft_absent (by decide) hpaddr (by decide) (by decide) rfl ?_
    intro j _
    change test 0 pteP = false
    decide
  have habsent : ∀ i < nrLparPgtabs, i ≠ 1 → Absent smallTable 1 i := by
    intro i hi hne
    have hentry : smallTable.lpDir 1 i = 0 := if_neg fun h => hne h.2
    refine ⟨?_, if_neg fun h => absurd h.1 (not_le.2 hi), rfl⟩
    rw [hentry]
    decide
  refine flushTlb_prefetch (s := smallTable) (prefetchPgdir_once (i := 1) (by decide) habsent
    (prefetchSlot_table rfl rfl hgraft) fun i hi hne => (habsent i hi hne).link hne)

theorem tables_linked_small :
    ∃ t < nrTabFrames, (smallLinked.dir 1).pgt 1 = some t ∧
      ptePageaddr ((smallLinked.dir 1).hv 1) = smallEnv.tabPaddr t := by
  have hrun : Run (step smallEnv) FlushOk smallStart
      [.pageDir hPageDirActivate 0x5000,
        .guest fun paddr i => if paddr = 0x10005000 ∧ i = 1 then 0x7007 else 0,
        .flushTlb (hFlushTlbAll ||| hFlushTlbPrefetch) 0] { smallLinked with cb := false } :=
    .cons trivial smallDir_ok (.cons trivial rfl (.cons nofun
      smallLinked_ok (.nil _)))
  exact tables_linked smallStart_ok hrun 1 1 (by decide) rfl

/-- `flush_single` loads entry 5 of the directory, which points to a page table of the partition,
into slot 1. -/
theorem tables_not_linked :
    ¬ ∀ (env : Env) (ticks : BitVec 64) (mem : Word → Nat → Word) (s0 s : Shadow)
      (evs : List Event), initThread env ticks mem = .ok s0 →
      Run (step env) (fun _ _ => True) s0 evs s → ∀ d pdi, pdi < nrLparPgtabs →
      isTable ((s.dir d).hv pdi) = true → ∃ t < nrTabFrames, (s.dir d).pgt pdi = some t ∧
        ptePageaddr ((s.dir d).hv pdi) = env.tabPaddr t := by
  intro hall
  obtain ⟨s, hrun, htable, hpgt⟩ : ∃ s, Run (step smallEnv) (fun _ _ => True) smallDir
      [.guest fun paddr i => if paddr ≠ 0x10005000 then 0 else
          if i = 1 then 0x4000E7 else if i = 5 then 0x7007 else 0,
        .fault ⟨0x23, 0x2b, 0, 0x2b, 0⟩ 4 0x400000,
        .flushTlb (hFlushTlbSingle ||| hFlushTlbPrefetch) 0x405000] s ∧
      isTable ((s.dir 1).hv 1) = true ∧ (s.dir 1).pgt 1 = none :=
    ⟨_, .cons trivial rfl (.cons trivial rfl (.cons trivial rfl (.nil _))), rfl, rfl⟩
  have hwhole : Run (step smallEnv) (fun _ _ => True) smallStart _ s :=
    .cons trivial smallDir_ok hrun
  obtain ⟨t, -, ht, -⟩ := hall _ _ _ _ _ _ smallStart_ok hwhole 1 1 (by decide) htable
  cases hpgt.symm.trans ht

end Rhype.Pgcache
