import Rhype.Pgcache.Equiv.Fault

/-!
# What an event can do to the shadow

`h_page_dir` also changes which directories there are and which of them is active.  `Change` adds
these steps to the writes, and every event is a sequence of such steps (`step_changes`).
-/

namespace Rhype.Pgcache

open Function Ia32 List Relation Shadow

/-- What an event can do to the shadow, in steps. -/
inductive Change (env : Env) (R : Rules) : Shadow → Shadow → Prop
  | write {s s' : Shadow} (hw : Write env R s s') : Change env R s s'
  | guest {s : Shadow} (mem : LpPage → Nat → Word) : Change env R s { s with mem := mem }
  | tick {s : Shadow} (ticks : BitVec 64) : Change env R s { s with ticks := ticks }
  | newDir {s s1 : Shadow} {laddr : Word} {paddr : Option Word} {d : DirId}
      (ht : takeDir laddr paddr s = .ok (d, s1)) : Change env R s (hypervisorMapping env s1 d)
  | activate {s : Shadow} (d : DirId) : Change env R s (activate env s d)
  | free {s s' : Shadow} {d : DirId} (hx : freePgdir s d = .ok s') : Change env R s s'
  | flushed {s : Shadow} (d : DirId) : Change env R s { s with flushed := some d }
  | root {s : Shadow} (cr3 : Word) : Change env R s { s with cr3 := cr3 }

abbrev Changes (env : Env) (R : Rules) : Shadow → Shadow → Prop := ReflTransGen (Change env R)

/-- The pages of the partition that `h_page_dir` reads as a directory. -/
def ReadPage (env : Env) (s : Shadow) (laddr : Word) (p : LpPage) : Prop :=
  (∃ d, lookup s laddr = .ok (some d) ∧ p = (s.dir d).lp) ∨
    lookup s laddr = .ok none ∧
      ((∃ paddr, allocPage env laddr = .ok (some (some paddr)) ∧ p = .guest paddr) ∨
        -- the frame keeps the page that it had
        laddr = invalidPhysicalAddress ∧ ∃ d, p = (s.dir d).lp)

/-- The rules allow what an event can store. -/
def Allowed (env : Env) (R : Rules) (s : Shadow) : Event → Prop
  | .guest _ => True
  | .tick => True
  | .fault r _ cr2 => Ready R r s cr2
  | .deliver r except => Clean R s s.pgd ∧ (s.isLinear →
      R.entry (linearEntry (stackAddr r except)) ∧ R.entry (linearEntry (stackAddr r true)))
  | .iret r => Clean R s s.pgd ∧ (s.isLinear →
      R.entry (linearEntry (r.esp - 20)) ∧ R.entry (linearEntry (stackAddr r true)))
  | .pageDir _ laddr => ∀ p, ReadPage env s laddr p → CleanPage R s p
  | .flushTlb flags vaddr => Clean R s s.pgd ∧
      (test flags hFlushTlbSingle = true → test flags hFlushTlbPrefetch = true →
        vaddr < hvVbase → isLarge ((s.dir s.pgd).hv (pdiOf vaddr)) = true →
        R.entry (s.lpDir s.pgd (ptiOf vaddr)))
  | .getPte _ _ => True

section

variable {env : Env} {R : Rules} {s s' : Shadow} {d : DirId} {laddr flags : Word}
  {mem : Word → Nat → Word} {ticks : BitVec 64} {page : Option Word} {ret : Sval} {ev : Event}

theorem Writes.changes (hw : Writes env R s s') : Changes env R s s' :=
  .mono (fun _ _ h => .write h) _ _ hw

/-- The state after the first directory of the free list was taken. -/
def Shadow.takenDir (s : Shadow) (d : DirId) (laddr : Word) (lp : LpPage) : Shadow :=
  { s with dirs := { s.dirs with
      freelist := s.dirs.next d
      freecount := s.dirs.freecount - 1
      frame := update s.dir d { s.dir d with
        lpLaddr := laddr, lp := lp, hv := fun _ => 0, last := s.ticks.setWidth 32 } } }

theorem takeDir_ok {paddr : Option Word} (hx : takeDir laddr paddr s = .ok (d, s')) :
    s.dirs.freelist = some d ∧ ∃ lp, mapLp (s.dir d).lp paddr = .ok lp ∧
      s' = enter (s.takenDir d laddr lp) d := by
  unfold takeDir at hx
  rcases hfree : s.dirs.freelist with _ | d'
  · simp [Pool.dequeue, hfree] at hx
  simp only [Pool.dequeue, hfree] at hx
  obtain ⟨lp, hlp, hx⟩ := of_seq hx
  cases hx
  exact ⟨rfl, lp, hlp, rfl⟩

theorem switchDir_changes (hc : Clean R s d)
    (hx : switchDir env flags d s = .ok s') : Changes env R s s' := by
  have hlast : ∀ u, Changes env R s u → .ok (if test flags hPageDirActivate then
      activate env u d else u) = Except.ok (ε := Fault) s' → Changes env R s s' := by
    rintro u hu ⟨⟩
    split_ifs
    · exact hu.tail (.activate d)
    · exact hu
  rcases ite_eq_iff.1 hx with ⟨-, hx⟩ | ⟨-, hx⟩
  · obtain ⟨u, hfetch, hx⟩ := of_seq hx
    exact hlast u (prefetchPgdir_writes hc hfetch).changes hx
  split at hx
  · split at hx
    · exact hlast _ (.single (.flushed d)) hx
    · split at hx
      · exact hlast _ .refl hx
      · obtain ⟨u, hfree, hx⟩ := of_seq hx
        have hw : Changes env R s u := .single (.free hfree)
        exact hlast _ (hw.tail (.flushed d)) hx
  · exact hlast _ .refl hx

theorem ReadPage.newDir {s1 : Shadow}
    (hpage : allocPage env laddr = .ok (some page)) (hnone : lookup s laddr = .ok none)
    (hlp : ∀ d, (s1.dir d).lp = (s.dir d).lp) (hx : takeDir laddr page s1 = .ok (d, s')) :
    ReadPage env s laddr ((hypervisorMapping env s' d).dir d).lp := by
  obtain ⟨-, lp, hmap, rfl⟩ := takeDir_ok hx
  have hlp' : ((hypervisorMapping env (enter (s1.takenDir d laddr lp) d) d).dir d).lp = lp := by
    simp [hypervisorMapping, enter, takenDir, dir, setDir, Pool.set, Pool.setNext]
  rw [hlp']
  refine .inr ⟨hnone, ?_⟩
  cases page with
  | some paddr =>
    obtain ⟨_, -, hmap⟩ := of_seq hmap
    cases hmap
    exact .inl ⟨paddr, hpage, rfl⟩
  | none =>
    cases hmap
    refine .inr ⟨?_, d, hlp d⟩
    by_contra hne
    rw [allocPage, if_neg hne] at hpage
    obtain ⟨paddr, -, hpage⟩ := of_seq hpage
    split_ifs at hpage <;> cases hpage

theorem CleanPage.newDir {s1 : Shadow}
    (hpage : allocPage env laddr = .ok (some page)) (hnone : lookup s laddr = .ok none)
    (hc : ∀ p, ReadPage env s laddr p → CleanPage R s p) (hw : Writes env R s s1)
    (hx : takeDir laddr page s1 = .ok (d, s')) : Clean R (hypervisorMapping env s' d) d := by
  have hread := ReadPage.newDir hpage hnone hw.kept.lp hx
  have hclean := CleanPage.writes (hc _ hread) hw
  obtain ⟨-, lp, -, rfl⟩ := takeDir_ok hx
  exact hclean

/-- What `h_page_dir` does: it switches to a directory that it finds, it refuses, or it switches to
a directory that it allocates. -/
inductive PageDirCase (env : Env) (flags laddr : Word) (s s' : Shadow) : Prop
  | activate (d : DirId) (hfound : lookup s laddr = .ok (some d)) (hs : s' = activate env s d)
  | switch (d : DirId) (hfound : lookup s laddr = .ok (some d))
      (hswitch : switchDir env flags d s = .ok s')
  | refuse (hs : s' = s)
  | create (d : DirId) (page : Option Word) (s1 s2 : Shadow)
      (hfound : lookup s laddr = .ok none) (hpage : allocPage env laddr = .ok (some page))
      (hroom : makeRoom .pgdir s = .ok s1) (htake : takeDir laddr page s1 = .ok (d, s2))
      (hswitch : switchDir env (flags ||| hPageDirPrefetch) d (hypervisorMapping env s2 d) = .ok s')

theorem hPageDir_cases
    (hx : hPageDir env s flags laddr = .ok (ret, s')) : PageDirCase env flags laddr s s' := by
  obtain ⟨found, hfound, hx⟩ := of_seq hx
  cases found with
  | some d =>
    rcases ite_eq_iff.1 hx with ⟨-, hx⟩ | ⟨-, hx⟩
    · cases hx
      exact .activate d hfound rfl
    · obtain ⟨s1, hswitch, hx⟩ := of_seq hx
      cases hx
      exact .switch d hfound hswitch
  | none =>
    obtain ⟨⟨pgd, s2⟩, halloc, hx⟩ := of_seq hx
    obtain ⟨_ | page, hpage, halloc⟩ := of_seq halloc
    · cases halloc
      cases hx
      exact .refuse rfl
    obtain ⟨s1, hroom, halloc⟩ := of_seq halloc
    obtain ⟨⟨d, s3⟩, htake, halloc⟩ := of_seq halloc
    cases halloc
    obtain ⟨s4, hswitch, hx⟩ := of_seq hx
    cases hx
    exact .create d page s1 s2 hfound hpage hroom htake hswitch

theorem hPageDir_changes (hc : ∀ p, ReadPage env s laddr p → CleanPage R s p)
    (hx : hPageDir env s flags laddr = .ok (ret, s')) : Changes env R s s' := by
  cases hPageDir_cases hx with
  | activate d _ hs =>
    rw [hs]
    exact .single (.activate d)
  | switch d hfound hswitch => exact switchDir_changes (hc _ (.inl ⟨d, hfound, rfl⟩)) hswitch
  | refuse hs =>
    subst hs
    exact .refl
  | create d page s1 s2 hfound hpage hroom htake hswitch =>
    have hw : Writes env R s s1 := makeRoom_writes hroom
    have hclean := CleanPage.newDir hpage hfound hc hw htake
    exact (hw.changes.tail (.newDir htake)).trans (switchDir_changes hclean hswitch)

/-- An event is a step outside the shadow, it writes what the rules allow, or it is a call of
`h_page_dir`. -/
theorem step_ok (hi : R.slot (pdiOf s.regCr2)) (ha : Allowed env R s ev)
    (hx : step env s ev = .ok s') :
    (∃ mem ticks, s' = { s with mem := mem, ticks := ticks }) ∨ Writes env R s s' ∨
      ∃ flags laddr ret, ev = .pageDir flags laddr ∧
        hPageDir env s flags laddr = .ok (ret, s') := by
  cases ev with
  | guest mem | tick =>
    cases hx
    exact .inl ⟨_, _, rfl⟩
  | fault r error cr2 =>
    obtain ⟨⟨b, r', s1⟩, hfault, hx⟩ := of_seq hx
    cases hx
    exact .inr (.inl (pageFault_writes faultRounds _ _ _ _ _ _ _ ha hfault))
  | deliver r except =>
    obtain ⟨⟨b, r', s1⟩, hforce, hx⟩ := of_seq hx
    cases hx
    exact .inr (.inl (pushExceptionState_writes (pageFault_writes faultRounds) ha.1 ha.2 hforce))
  | iret r => exact .inr (.inl (iret_writes ha.1 hi ha.2 hx))
  | pageDir flags laddr =>
    obtain ⟨⟨ret, s1⟩, hcall, hx⟩ := of_seq hx
    cases hx
    exact .inr (.inr ⟨flags, laddr, ret, rfl, hcall⟩)
  | flushTlb flags vaddr =>
    obtain ⟨⟨ret, s1⟩, hcall, hx⟩ := of_seq hx
    cases hx
    exact .inr (.inl (hFlushTlb_writes ha.1 ha.2 hcall))
  | getPte flags vaddr =>
    obtain ⟨⟨ret, e, s1⟩, hcall, hx⟩ := of_seq hx
    cases hx
    exact .inr (.inl (hGetPte_writes hcall))

/-- **An event changes the shadow in steps that the rules allow.** -/
theorem step_changes (hi : R.slot (pdiOf s.regCr2)) (ha : Allowed env R s ev)
    (hx : step env s ev = .ok s') : Changes env R s s' := by
  obtain ⟨mem, ticks, rfl⟩ | hw | ⟨flags, laddr, ret, rfl, hcall⟩ := step_ok hi ha hx
  · exact .tail (.single (.guest mem)) (.tick ticks)
  · exact hw.changes
  · exact hPageDir_changes ha hcall

/-! ### Runs -/

theorem Change.slot (hi : R.slot (pdiOf s.regCr2)) (hc : Change env R s s') :
    R.slot (pdiOf s'.regCr2) := by
  cases hc with
  | write hw =>
    rcases hw.frame.regCr2 with hsame | hslot
    · rwa [hsame]
    · exact hslot
  | guest mem | tick ticks | activate d | flushed d | root cr3 => exact hi
  | newDir ht =>
    obtain ⟨-, lp, -, rfl⟩ := takeDir_ok ht
    exact hi
  | free hx =>
    rwa [(freePgdir_frame hx).regCr2]

theorem Changes.slot (hi : R.slot (pdiOf s.regCr2)) (hc : Changes env R s s') :
    R.slot (pdiOf s'.regCr2) := by
  induction hc with
  | refl => exact hi
  | tail _ hc ih => exact hc.slot ih

theorem initThread_ok (hx : initThread env ticks mem = .ok s) :
    ∃ s1 s2, takeDir invalidPhysicalAddress none (pgcInit ticks mem) = .ok (0, s1) ∧
      (range chunkPages).foldlM (initialSlot env) (hypervisorMapping env s1 0) = .ok s2 ∧
      s = { s2 with cr3 := env.dirPaddr s2.pgd, cb := false } := by
  obtain ⟨⟨pgd, s1⟩, halloc, hx⟩ := of_seq hx
  obtain ⟨page, hpage, halloc⟩ := of_seq halloc
  cases hpage
  obtain ⟨s2, hroom, halloc⟩ := of_seq halloc
  cases hroom
  obtain ⟨⟨d, s3⟩, htake, halloc⟩ := of_seq halloc
  cases halloc
  obtain ⟨s4, hmap, hx⟩ := of_seq hx
  cases hx
  obtain ⟨hd, lp, -, rfl⟩ := takeDir_ok htake
  cases hd
  exact ⟨_, s4, htake, hmap, rfl⟩

theorem initialSlot_ok {i : Nat} (hx : initialSlot env s i = .ok s') :
    setPte env s (.dir s.pgd) i (initialEntry i) = .ok (true, s') := by
  obtain ⟨⟨rc, s1⟩, hset, hx⟩ := of_seq hx
  obtain ⟨_, hrc, hx⟩ := of_seq hx
  cases hx
  rw [hset, hassert_ok.1 hrc]

theorem initThread_changes (he : ∀ i < chunkPages, R.entry (initialEntry i))
    (hx : initThread env ticks mem = .ok s) : Changes env R (pgcInit ticks mem) s := by
  obtain ⟨s1, s2, htake, hmap, rfl⟩ := initThread_ok hx
  have hslots : Changes env R (pgcInit ticks mem) s2 := by
    refine Run.foldlM_invariant (P := Changes env R (pgcInit ticks mem))
      (fun u i u' hi hu hstep => ?_) hmap (.single (.newDir htake))
    have hi : i < chunkPages := mem_range.1 hi
    have hset := initialSlot_ok hstep
    exact hu.tail (.write (setPte_dir hset (R.low i (hi.trans (by decide))) (he i hi)))
  exact (hslots.tail (.write (.callback false))).tail (.root (env.dirPaddr s2.pgd))

/-- **What holds before the start and after each step holds in every state that is reached.** -/
theorem reachable_invariant {P : Shadow → Prop} {s0 : Shadow} {evs : List Event}
    (hinit : P (pgcInit ticks mem)) (hstep : ∀ s s', P s → Change env R s s' → P s')
    (he : ∀ i < chunkPages, R.entry (initialEntry i)) (hstart : initThread env ticks mem = .ok s0)
    (hrun : Run (step env) (Allowed env R) s0 evs s) : P s := by
  have hsteps : ∀ u u', Changes env R u u' → P u ∧ R.slot (pdiOf u.regCr2) →
      P u' ∧ R.slot (pdiOf u'.regCr2) := by
    intro u u' hc hu
    induction hc with
    | refl => exact hu
    | tail _ hc ih => exact ⟨hstep _ _ ih.1 hc, hc.slot ih.2⟩
  have hzero : R.slot (pdiOf (pgcInit ticks mem).regCr2) := R.low (pdiOf 0) (by decide)
  have hinv := Run.invariant (fun u ev u' hu ha hx => hsteps u u' (step_changes hu.2 ha hx) hu)
    hrun (hsteps _ _ (initThread_changes he hstart) ⟨hinit, hzero⟩)
  exact hinv.1

/-! ### Directories without entries -/

variable {s1 s2 : Shadow} {t : TabId} {i : Nat}

theorem setDir_self : s.setDir d (s.dir d) = s := by
  simp [setDir, dir, Pool.set]

theorem setTab_self : s.setTab t (s.tab t) = s := by
  simp [setTab, tab, Pool.set]

/-- The entry is not present, in the partition and in the shadow, and no page table is linked. -/
structure Absent (s : Shadow) (d : DirId) (i : Nat) : Prop where
  entry : test (s.lpDir d i) pteP = false
  shadow : (s.dir d).hv i = 0
  table : (s.dir d).pgt i = none

theorem prefetchSlot_absent (ha : Absent s d i) : prefetchSlot env d s i = .ok s := by
  have hset : s.setHv (.dir d) i 0 = s := by
    have hsame : update (s.dir d).hv i 0 = (s.dir d).hv := by
      rw [← ha.shadow, update_eq_self]
    unfold setHv
    dsimp only
    rw [hsame]
    exact setDir_self
  unfold prefetchSlot
  simp only [ha.entry, dropTable, ha.table, Bool.not_false, if_true, ok_bind, setPte,
    shadowEntry_absent (show test 0 pteP = false by decide), hset]

theorem prefetchPgdir_absent (ha : ∀ i < nrLparPgtabs, Absent s d i) :
    prefetchPgdir env s d = .ok s :=
  Run.foldlM_same fun i hi => prefetchSlot_absent (ha i (mem_range.1 hi))

theorem prefetchPgdir_once (hi : i < nrLparPgtabs) (ha : ∀ j < nrLparPgtabs, j ≠ i → Absent s d j)
    (hx : prefetchSlot env d s i = .ok s1) (ha1 : ∀ j < nrLparPgtabs, j ≠ i → Absent s1 d j) :
    prefetchPgdir env s d = .ok s1 :=
  Run.foldlM_once (mem_range.2 hi)
    (fun j hj hne => prefetchSlot_absent (ha j (mem_range.1 hj) hne)) hx
    (fun j hj hne => prefetchSlot_absent (ha1 j (mem_range.1 hj) hne)) nodup_range

theorem prefetchPgtab_absent (he : ∀ i < nrMmuPtes, test (s.lpTab t i) pteP = false)
    (hhv : ∀ i < nrMmuPtes, (s.tab t).hv i = 0) : prefetchPgtab env s t = .ok s := by
  refine Run.foldlM_same fun i hi => ?_
  have hi := mem_range.1 hi
  have hsame : update (s.tab t).hv i 0 = (s.tab t).hv := by
    rw [← hhv i hi, update_eq_self]
  have hset : s.setHv (.tab t) i 0 = s := by
    unfold setHv
    dsimp only
    rw [hsame]
    exact setTab_self
  unfold prefetchPte
  simp only [setPte, shadowEntry_absent (he i hi), ok_bind, hset]

theorem tab_setPgtab (flags : Word) : (setPgtab env s d i t flags).tab =
    update s.tab t { s.tab t with pdi := i, pgd := some d } := rfl

theorem tab_takenTab (lp : LpPage) : (s.takenTab t laddr lp).tab =
    update s.tab t { s.tab t with lpLaddr := laddr, lp := lp, hv := fun _ => 0 } := rfl

theorem dir_setPgtab (flags : Word) : (setPgtab env s d i t flags).dir d =
    { s.dir d with
      hv := update (s.dir d).hv i (env.tabPaddr t ||| flags)
      pgt := update (s.dir d).pgt i (some t) } := by
  simp [setPgtab, setHv]

theorem Absent.link {j : Nat} {lp : LpPage} (ha : Absent s d j) (hne : j ≠ i) :
    Absent (setPgtab env (s.takenTab t laddr lp) d i t flags) d j := by
  refine ⟨?_, ?_, ?_⟩
  · rw [lpDir, dir_setPgtab]
    exact ha.entry
  · rw [dir_setPgtab]
    dsimp only
    rw [update_of_ne hne]
    exact ha.shadow
  · rw [dir_setPgtab]
    dsimp only
    rw [update_of_ne hne]
    exact ha.table

theorem graft_absent {e paddr : Word} (he : ptePageaddr e ≠ invalidPhysicalAddress)
    (hpaddr : logicalToPhysicalAddress env.lmm (ptePageaddr e) pgsize = .ok paddr)
    (hne : paddr ≠ invalidPhysicalAddress) (halign : ptePageaddr paddr = paddr)
    (hfree : s.tabs.freelist = some t)
    (hpage : ∀ j < nrMmuPtes, test (s.mem (.guest paddr) j) pteP = false) :
    graft env s d i e = .ok (some t,
      setPgtab env (s.takenTab t (ptePageaddr e) (.guest paddr)) d i t (pteFlags e)) := by
  have halloc : allocTab env s (ptePageaddr e) =
      .ok (some t, s.takenTab t (ptePageaddr e) (.guest paddr)) := by
    have hpage : allocPage env (ptePageaddr e) = .ok (some (some paddr)) := by
      simp only [allocPage, if_neg he, hpaddr, ok_bind, if_neg hne]
    have hlp : mapLp (s.tab t).lp (some paddr) = .ok (.guest paddr) := by
      simp [mapLp, hassert, halign]
    have htake : takeTab (ptePageaddr e) (some paddr) s =
        .ok (t, s.takenTab t (ptePageaddr e) (.guest paddr)) := by
      unfold takeTab Pool.dequeue
      rw [hfree]
      exact congrArg (· >>= _) hlp
    simp only [allocTab, hpage, ok_bind, makeRoom, hasFree, hfree, Option.isSome_some,
      if_true, htake]
  have hlp : ((setPgtab env (s.takenTab t (ptePageaddr e) (.guest paddr)) d i t
      (pteFlags e)).tab t).lp = .guest paddr := by
    simp [tab_setPgtab, tab_takenTab]
  have hhv : ((setPgtab env (s.takenTab t (ptePageaddr e) (.guest paddr)) d i t
      (pteFlags e)).tab t).hv = fun _ => 0 := by
    simp [tab_setPgtab, tab_takenTab]
  rw [graft, halloc]
  dsimp only [ok_bind]
  rw [prefetchPgtab_absent]
  · rfl
  · intro j hj
    rw [lpTab, hlp]
    exact hpage j hj
  · intro j _
    rw [hhv]

theorem prefetchSlot_table (htable : isTable (s.lpDir d i) = true)
    (hpgt : (s.dir d).pgt i = none) (hgraft : graft env s d i (s.lpDir d i) = .ok (some t, s1)) :
    prefetchSlot env d s i = .ok s1 := by
  unfold isTable at htable
  simp only [Bool.and_eq_true, Bool.not_eq_true'] at htable
  unfold prefetchSlot prefetchNew
  simp [htable.1, htable.2, hpgt, hgraft]

theorem hPageDir_new (hnone : lookup s laddr = .ok none)
    (halloc : allocDir env s laddr = .ok (some d, s1))
    (hfetch : prefetchPgdir env (hypervisorMapping env s1 d) d = .ok s2) :
    hPageDir env s hPageDirActivate laddr = .ok (hSuccess, activate env s2 d) := by
  have hp : test (hPageDirActivate ||| hPageDirPrefetch) hPageDirPrefetch = true := by decide
  have ha : test (hPageDirActivate ||| hPageDirPrefetch) hPageDirActivate = true := by decide
  unfold hPageDir switchDir
  simp only [hnone, halloc, ok_bind, hp, ha, if_true, hfetch]

theorem flushTlb_prefetch (hfetch : prefetchPgdir env s s.pgd = .ok s1) :
    step env s (.flushTlb (hFlushTlbAll ||| hFlushTlbPrefetch) laddr) =
      .ok { s1 with cb := false } := by
  have hsingle : test (hFlushTlbAll ||| hFlushTlbPrefetch) hFlushTlbSingle = false := by decide
  have hall : test (hFlushTlbAll ||| hFlushTlbPrefetch) hFlushTlbAll = true := by decide
  have hp : test (hFlushTlbAll ||| hFlushTlbPrefetch) hFlushTlbPrefetch = true := by decide
  simp [step, hFlushTlb, flushAll, hsingle, hall, hp, hfetch]

end

/-! ### A partition with one chunk -/

/-- A partition whose memory is one chunk at the logical address 0. -/
def oneChunk (size : Word) : Env where
  lmm := fun slot => if 0x4000000 * slot < size.toNat
    then some (.physMem ⟨0x10000000, 0, size, false⟩) else none
  ioprivilege := false
  maxPhysMemory := 0x20000000
  hvPgd := fun pdi => BitVec.ofNat 32 (0x400000 * (pdi - nrLparPgtabs)) ||| 0xE3
  dirPaddr := fun d => ptePageaddr (BitVec.ofNat 32 (0x2000000 + 0x1000 * d))
  tabPaddr := fun t => ptePageaddr (BitVec.ofNat 32 (0x3000000 + 0x1000 * t))
  tabPaddr_aligned := fun _ => ptePageaddr_ptePageaddr

def smallEnv : Env := oneChunk 0x4000000

/-- The start of a partition with 64 MB, whose memory is zero. -/
def smallStart : Shadow :=
  (initThread smallEnv 0 fun _ _ => 0).toOption.getD (pgcInit 0 fun _ _ => 0)

/-- The partition has activated an empty directory at `0x5000`. -/
def smallDir : Shadow :=
  let s := ((allocDir smallEnv smallStart 0x5000).toOption.map Prod.snd).getD smallStart
  activate smallEnv (hypervisorMapping smallEnv s 1) 1

theorem smallStart_ok : initThread smallEnv 0 (fun _ _ => 0) = .ok smallStart := rfl

theorem smallDir_ok :
    step smallEnv smallStart (.pageDir hPageDirActivate 0x5000) = .ok smallDir := by
  have hcall : hPageDir smallEnv smallStart hPageDirActivate 0x5000 = .ok (hSuccess, smallDir) := by
    refine hPageDir_new rfl rfl (prefetchPgdir_absent fun i hi => ⟨?_, ?_, rfl⟩)
    · change test 0 pteP = false
      decide
    · exact if_neg fun h => absurd h.1 (not_le.2 hi)
  show (hPageDir smallEnv smallStart hPageDirActivate 0x5000 >>= _) = _
  rw [hcall]
  rfl

end Rhype.Pgcache
