import Rhype.Pgcache.Equiv.Frames

/-!
# The real memory that the shadow maps

A present entry of a page table maps a page of 4 KB, and a present entry of a directory with the
page size flag maps 4 MB.  A page of real memory is *backed* if the logical memory map of the
partition translates some page of the partition to it.

`pgc_set_pte` translates one page of 4 KB, whatever the entry maps.  What an entry of 4 MB maps is
backed when the 4 MB of logical addresses translate to one page of 4 MB (`LargeOk`).  The map must
also translate pages to pages (`AlignedMap`).
-/

namespace Rhype.Pgcache

open Except Function Ia32

/-- The partition has a page that translates to the page of the real address. -/
def Backed (m : LogicalMap) (raddr : Word) : Prop :=
  ∃ laddr, ptePageaddr laddr = laddr ∧
    logicalToPhysicalAddress m laddr pgsize = .ok (ptePageaddr raddr)

/-- Pages are translated to pages. -/
def AlignedMap (m : LogicalMap) : Prop :=
  ∀ laddr paddr, ptePageaddr laddr = laddr → logicalToPhysicalAddress m laddr pgsize = .ok paddr →
    paddr = invalidPhysicalAddress ∨ ptePageaddr paddr = paddr

/-- If the entry maps 4 MB, then its address is not one of the partition's, or the 4 MB translate to
one page of 4 MB. -/
def LargeOk (m : LogicalMap) (e : Word) : Prop :=
  isLarge e = true →
    logicalToPhysicalAddress m (ptePageaddr e) pgsize = .ok invalidPhysicalAddress ∨
    ∃ base, largeBase base = base ∧ ∀ off, off &&& pteMask = off →
      logicalToPhysicalAddress m (largeBase e ||| off) pgsize = .ok (base ||| off)

/-- What the present entries of a page table map is backed. -/
def BackedTab (m : LogicalMap) (hv : Nat → Word) : Prop :=
  ∀ i, test (hv i) pteP = true → ∀ raddr, ptePageaddr raddr = ptePageaddr (hv i) → Backed m raddr

/-- What the large entries of a directory map is backed. -/
def BackedDir (m : LogicalMap) (hv : Nat → Word) : Prop :=
  ∀ i < nrLparPgtabs, isLarge (hv i) = true →
    ∀ raddr, largeBase raddr = largeBase (hv i) → Backed m raddr

/-- Only large entries that are translated as a whole are stored in a directory. -/
def wholePages (env : Env) : Rules where
  entry e := LargeOk env.lmm e
  slot _ := True
  zero := fun h => absurd h (by decide)
  dirty e he := by
    rw [LargeOk, isLarge_dirty, ptePageaddr_dirty, largeBase_dirty]
    exact he
  low _ _ := trivial

section

variable {env : Env} {e v : Word} {rc : Bool}

section

variable (hio : env.ioprivilege = false) (hmap : AlignedMap env.lmm)
include hio hmap

/-- What is stored for an entry of a partition without privilege: nothing, or an entry with the
flags of the partition's, for the page to which its address translates. -/
theorem shadowEntry_page (hx : shadowEntry env e = .ok (rc, v)) :
    v = 0 ∨ logicalToPhysicalAddress env.lmm (ptePageaddr e) pgsize = .ok (ptePageaddr v) ∧
      ptePageaddr v ≠ invalidPhysicalAddress ∧ test v pteP = test e pteP ∧
      test v ptePs = test e ptePs := by
  rcases shadowEntry_ok hx with rfl | ⟨-, ⟨-, hpriv⟩ | ⟨paddr, hpaddr, hne, hv⟩⟩
  · exact .inl rfl
  · rw [hio] at hpriv
    cases hpriv
  have halign : ptePageaddr paddr = paddr :=
    (hmap _ _ ptePageaddr_ptePageaddr hpaddr).resolve_left hne
  have hpage : ptePageaddr v = paddr := by
    rcases hv with rfl | rfl
    · rw [ptePageaddr_or_pteFlags, halign]
    · rw [ptePageaddr_and_rw, ptePageaddr_or_pteFlags, halign]
  have hflag : ∀ m, ~~~pteRw &&& m = m → pteSmallbase &&& m = 0 → pteFlagsMask &&& m = m →
      test v m = test e m := by
    intro m hrw hsmall hflags
    rcases hv with rfl | rfl
    · exact test_or_pteFlags halign hsmall hflags
    · rw [test_and hrw, test_or_pteFlags halign hsmall hflags]
  rw [hpage]
  exact .inr ⟨hpaddr, hne, hflag _ (by decide) (by decide) (by decide),
    hflag _ (by decide) (by decide) (by decide)⟩

theorem backed_large (he : LargeOk env.lmm e) (hx : shadowEntry env e = .ok (rc, v))
    (hv : isLarge v = true) {raddr : Word} (hr : largeBase raddr = largeBase v) :
    Backed env.lmm raddr := by
  rcases shadowEntry_page hio hmap hx with rfl | ⟨hpage, hne, hp, hps⟩
  · exact absurd hv nofun
  have hlarge : isLarge e = true := by
    unfold isLarge at hv ⊢
    rwa [← hp, ← hps]
  rcases he hlarge with hinv | ⟨base, hbase, hall⟩
  · rw [hinv] at hpage
    exact absurd (ok.inj hpage).symm hne
  -- the page that was translated is one of the 4 MB, so they start at the base of the entry
  have hself : (e &&& pteMask) &&& pteMask = e &&& pteMask := by
    rw [BitVec.and_assoc, BitVec.and_self]
  have hmine := hall (e &&& pteMask) hself
  rw [← ptePageaddr_eq, hpage] at hmine
  have hv_base : largeBase v = base := by
    have hmask : pteMask &&& pteLargebase = 0 := by decide
    rw [← largeBase_ptePageaddr, ok.inj hmine]
    unfold largeBase at hbase ⊢
    rw [BitVec.and_or_distrib_right, BitVec.and_assoc, hmask, hbase]
    simp
  have hoff : (raddr &&& pteMask) &&& pteMask = raddr &&& pteMask := by
    rw [BitVec.and_assoc, BitVec.and_self]
  refine ⟨largeBase e ||| (raddr &&& pteMask), ?_, ?_⟩
  · have hl : pteLargebase &&& pteSmallbase = pteLargebase := by decide
    have hm : pteMask &&& pteSmallbase = pteMask := by decide
    unfold ptePageaddr largeBase
    rw [BitVec.and_or_distrib_right, BitVec.and_assoc, BitVec.and_assoc, hl, hm]
  · rw [hall _ hoff, ptePageaddr_eq raddr, hr, hv_base]

theorem backed_frames :
    FrameInv env (wholePages env) (fun hv _ => BackedDir env.lmm hv) (BackedTab env.lmm) where
  zero := fun pgt i _ hl => absurd (show isLarge 0 = true from hl) (by decide)
  fresh := by
    intro pgt i hi hl
    dsimp only at hl
    rw [if_neg fun h => absurd h.1 (not_le.2 hi)] at hl
    cases hl
  store := by
    intro hv pgt i e rc v hdir he hx j hj hl raddr hr
    rw [update_apply] at hl hr
    split_ifs at hl hr with hne
    · exact backed_large hio hmap he hx hl hr
    · exact hdir j hj hl raddr hr
  link := by
    intro hv pgt i t e hdir _ he j hj hl raddr hr
    rcases eq_or_ne j i with rfl | hne
    · -- an entry that points to a page table maps nothing itself
      rw [update_self, isLarge, Bool.and_eq_true, test_or_pteFlags
        (env.tabPaddr_aligned t) (by decide) (by decide), test_or_pteFlags
        (env.tabPaddr_aligned t) (by decide) (by decide)] at hl
      rw [isTable, hl.2, Bool.not_true, Bool.and_false] at he
      cases he
    · rw [update_of_ne hne] at hl hr
      exact hdir j hj hl raddr hr
  unlink := by
    intro hv pgt i hdir j hj hl raddr hr
    rcases eq_or_ne j i with rfl | hne
    · rw [update_self] at hl
      cases hl
    · rw [update_of_ne hne] at hl hr
      exact hdir j hj hl raddr hr
  tabZero := fun i hp => absurd (show test 0 pteP = true from hp) (by decide)
  tabStore := by
    intro hv i e rc v htab hx j hp raddr hr
    rw [update_apply] at hp hr
    split_ifs at hp hr with hne
    · rcases shadowEntry_page hio hmap hx with rfl | ⟨hpage, -, -, -⟩
      · cases hp
      · rw [← hr] at hpage
        exact ⟨ptePageaddr e, ptePageaddr_ptePageaddr, hpage⟩
    · exact htab j hp raddr hr

end

end

/-- **The shadow of a partition without privilege maps only its own memory**, over the full size of
each page, in every state of a run in which every large entry that the hypervisor reads in the
partition's directories or makes up is translated as a whole. -/
theorem pages_backed {env : Env} {ticks : BitVec 64} {mem : Word → Nat → Word} {s0 s : Shadow}
    {evs : List Event} (hio : env.ioprivilege = false) (hmap : AlignedMap env.lmm)
    (hinit : ∀ i < chunkPages, LargeOk env.lmm (initialEntry i))
    (hstart : initThread env ticks mem = .ok s0)
    (hrun : Run (step env) (Allowed env (wholePages env)) s0 evs s) :
    (∀ t i, test ((s.tab t).hv i) pteP = true →
      ∀ raddr, ptePageaddr raddr = ptePageaddr ((s.tab t).hv i) → Backed env.lmm raddr) ∧
    ∀ d, ∀ i < nrLparPgtabs, isLarge ((s.dir d).hv i) = true →
      ∀ raddr, largeBase raddr = largeBase ((s.dir d).hv i) → Backed env.lmm raddr := by
  have hframes := (backed_frames hio hmap).reachable hinit hstart hrun
  exact ⟨hframes.tabs, hframes.dirs⟩

theorem lciTranslate_physMem {lci : Lci} {laddr size : Word} (hd : lci.disabled = false)
    (hr : lci.raddr ≠ invalidPhysicalAddress) (hfirst : lciOwns lci laddr = true)
    (hlast : lciOwns lci (laddr + size - 1) = true) :
    lciTranslate (.physMem lci) laddr size = .ok (laddr - lci.laddr + lci.raddr) := by
  have hown : (!lciOwns lci laddr || !lciOwns lci (laddr + size - 1)) = false := by
    rw [hfirst, hlast]
    rfl
  unfold lciTranslate MapChunk.lci
  rw [hd, if_neg nofun, if_neg hr, hown, if_neg nofun]

theorem lmm_small {laddr : Word} (hl : laddr &&& 0x3FFF000 = laddr) :
    logicalToPhysicalAddress smallEnv.lmm laddr pgsize = .ok (0x10000000 ||| laddr) := by
  have hle : laddr.toNat ≤ 0x3FFF000 := by
    rw [← hl]
    exact Nat.and_le_right
  have hslot : (laddr >>> 26).toNat = 0 := by
    rw [BitVec.toNat_ushiftRight]
    omega
  have hfirst : lciOwns ⟨0x10000000, 0, 0x4000000, false⟩ laddr = true := by
    unfold lciOwns rangeSubset
    simp only [Bool.and_eq_true, decide_eq_true_eq]
    bv_omega
  have hlast : lciOwns ⟨0x10000000, 0, 0x4000000, false⟩ (laddr + pgsize - 1) = true := by
    unfold lciOwns rangeSubset pgsize
    simp only [Bool.and_eq_true, decide_eq_true_eq]
    bv_omega
  have hor : laddr - 0 + 0x10000000 = 0x10000000 ||| laddr := by
    have hdisj : 0x10000000 &&& laddr = 0 := by
      rw [← hl, BitVec.and_comm laddr, ← BitVec.and_assoc]
      simp
    rw [← BitVec.add_eq_or_of_and_eq_zero _ _ hdisj]
    simp [BitVec.add_comm]
  have htrans : lciTranslate (.physMem ⟨0x10000000, 0, 0x4000000, false⟩) laddr pgsize =
      .ok (laddr - 0 + 0x10000000) := by
    exact lciTranslate_physMem rfl (by decide) hfirst hlast
  rw [logicalToPhysicalAddress, hslot]
  exact htrans.trans (congrArg ok hor)

/-- The chunk of 64 MB is 16 pages of 4 MB. -/
theorem largeOk_small {i : Nat} (hi : i < chunkPages) : LargeOk smallEnv.lmm (initialEntry i) := by
  have hbase : largeBase (initialEntry i) &&& 0x3FFF000 = largeBase (initialEntry i) := by
    have hall : ∀ i < chunkPages,
        largeBase (initialEntry i) &&& 0x3FFF000 = largeBase (initialEntry i) := by decide
    exact hall i hi
  intro _
  refine .inr ⟨0x10000000 ||| largeBase (initialEntry i), ?_, fun off hoff => ?_⟩
  · have hmask : (0x10000000 : Word) &&& pteLargebase = 0x10000000 := by decide
    unfold largeBase
    rw [BitVec.and_or_distrib_right, hmask, BitVec.and_assoc, BitVec.and_self]
  · have hsmall : off &&& 0x3FFF000 = off := by
      have hmask : pteMask &&& 0x3FFF000 = pteMask := by decide
      rw [← hoff, BitVec.and_assoc, hmask]
    rw [lmm_small, BitVec.or_assoc]
    rw [BitVec.and_or_distrib_right, hbase, hsmall]

theorem lmm_oneChunk {size laddr paddr : Word}
    (hx : logicalToPhysicalAddress (oneChunk size).lmm laddr pgsize = .ok paddr) :
    paddr = invalidPhysicalAddress ∨ laddr + 1 ≤ size ∧ paddr = laddr + 0x10000000 := by
  unfold logicalToPhysicalAddress at hx
  split at hx
  · exact .inl (ok.inj hx).symm
  next c hc =>
  have hchunk : c = .physMem ⟨0x10000000, 0, size, false⟩ := by
    unfold oneChunk at hc
    dsimp only at hc
    split_ifs at hc
    exact (Option.some.inj hc).symm
  rw [hchunk] at hx
  unfold lciTranslate at hx
  split_ifs at hx with hd hr hown
  · exact .inl (ok.inj hx).symm
  · exact .inl (ok.inj hx).symm
  simp only [MapChunk.lci, lciOwns, rangeSubset, Bool.or_eq_true, Bool.not_eq_true',
    Bool.and_eq_false_iff, not_or] at hown
  refine .inr ⟨?_, ?_⟩
  · simpa using hown.1.2
  · rw [← ok.inj hx]
    simp [MapChunk.lci]

theorem alignedMap_small : AlignedMap smallEnv.lmm := by
  intro laddr paddr hl hx
  rcases lmm_oneChunk hx with rfl | ⟨-, rfl⟩
  · exact .inl rfl
  right
  have hmod : laddr.toNat % 0x1000 = 0 := aligned_iff.1 hl
  rw [aligned_iff, BitVec.toNat_add, show (0x10000000 : Word).toNat = 0x10000000 from rfl]
  omega

/-- Every page of the initial mapping is backed after the partition has changed its directory. -/
theorem pages_backed_small : Backed smallEnv.lmm 0x10400123 := by
  have hrun : Run (step smallEnv) (Allowed smallEnv (wholePages smallEnv)) smallStart
      [.pageDir hPageDirActivate 0x5000] smallDir := by
    refine .cons (fun p hp => ?_) smallDir_ok (.nil _)
    rcases hp with ⟨d, hd, -⟩ | ⟨-, ⟨paddr, -, rfl⟩ | ⟨hinv, -⟩⟩
    · cases hd
    · exact fun i hl => absurd (show isLarge 0 = true from hl) (by decide)
    · cases hinv
  have hback := pages_backed rfl alignedMap_small (fun i hi => largeOk_small hi) smallStart_ok hrun
  exact hback.2 0 1 (by decide) (by decide +kernel) 0x10400123 (by decide +kernel)

theorem linearFault_step {s : Shadow} {r : Regs} {cr2 v : Word} {env : Env}
    (hcs : r.cs &&& 3 ≠ 0) (hl : (s.dir s.pgd).lpLaddr = invalidPhysicalAddress)
    (habsent : test ((s.dir s.pgd).hv (pdiOf cr2)) pteP = false)
    (hx : shadowEntry env (linearEntry cr2) = .ok (true, v)) :
    step env s (.fault r 0 cr2) = .ok (s.setHv (.dir s.pgd) (pdiOf cr2) v) := by
  have htest : test 0 8 = false := by decide
  have hring : hassert (decide (r.cs &&& 3 ≠ 0)) = .ok () := hassert_ok.2 (decide_eq_true hcs)
  have hslot : hassert (!test ((s.dir s.pgd).hv (pdiOf cr2)) pteP) = .ok () := by
    rw [habsent]
    exact hassert_ok.2 rfl
  have hfault : ∀ fuel, pageFault env (fuel + 1) r 0 cr2 s =
      .ok (false, r, s.setHv (.dir s.pgd) (pdiOf cr2) v) := by
    intro fuel
    simp only [pageFault, hring, ok_bind, htest, Bool.false_eq_true, if_false, hl, if_true,
      linearFault, hslot, setPte, hx]
  show (pageFault env (63 + 1) r 0 cr2 s >>= _) = _
  rw [hfault]
  rfl

/-- The start of a partition with 66 MB. -/
def unevenStart : Shadow :=
  (initThread (oneChunk 0x4200000) 0 fun _ _ => 0).toOption.getD (pgcInit 0 fun _ _ => 0)

/-- The page of 4 MB at `0x4000000` is made up for a fault there, but the chunk ends in the middle
of it. -/
theorem pages_not_backed :
    ¬ ∀ (env : Env) (ticks : BitVec 64) (mem : Word → Nat → Word) (s0 s : Shadow)
      (evs : List Event), env.ioprivilege = false → initThread env ticks mem = .ok s0 →
      Run (step env) (fun _ _ => True) s0 evs s →
      (∀ t i, test ((s.tab t).hv i) pteP = true →
        ∀ raddr, ptePageaddr raddr = ptePageaddr ((s.tab t).hv i) → Backed env.lmm raddr) ∧
      ∀ d, ∀ i < nrLparPgtabs, isLarge ((s.dir d).hv i) = true →
        ∀ raddr, largeBase raddr = largeBase ((s.dir d).hv i) → Backed env.lmm raddr := by
  intro hall
  have hstart : initThread (oneChunk 0x4200000) 0 (fun _ _ => 0) = .ok unevenStart := rfl
  have hentry : shadowEntry (oneChunk 0x4200000) (linearEntry 0x4000000) = .ok (true, 0x140000E3) :=
    rfl
  have hfault : step (oneChunk 0x4200000) unevenStart
      (.fault ⟨0x22, 0x2a, 0x1000, 0x2a, 0x1000⟩ 0 0x4000000) =
      .ok (unevenStart.setHv (.dir unevenStart.pgd) 16 0x140000E3) :=
    linearFault_step (by decide) (by decide +kernel) (by decide +kernel) hentry
  have hslot : ((unevenStart.setHv (.dir unevenStart.pgd) 16 0x140000E3).dir
      unevenStart.pgd).hv 16 = 0x140000E3 := by
    simp [Shadow.setHv]
  obtain ⟨laddr, -, hx⟩ := (hall _ _ _ _ _ _ rfl hstart (.cons trivial hfault (.nil _))).2
    unevenStart.pgd 16 (by decide) rfl 0x14300000 rfl
  rcases lmm_oneChunk hx with hinv | ⟨hle, hsum⟩
  · cases hinv
  · have hpage : ptePageaddr 0x14300000 = 0x14300000 := by decide
    bv_omega

end Rhype.Pgcache
