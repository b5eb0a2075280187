import Rhype.Pgcache.Equiv.Step

/-!
# Invariants of single frames

An invariant that speaks of the shadow of each frame alone has to hold of a frame without entries
and to survive each kind of store (`FrameInv`).  Then it holds in every state that is reached
(`FrameInv.reachable`).  The page tables that are linked are frames of the page cache, because the
free list and its links never leave the array (`TabsBounded`).
-/

namespace Rhype.Pgcache

open Function Ia32 Relation Shadow

def nrTabFrames : Nat := nrFrames - nrDirFrames

/-- The page tables that are free, linked in the free list or in use are in the array of frames. -/
structure TabsBounded (p : Pool Pgtab) : Prop where
  free : ∀ t, p.freelist = some t → t < nrTabFrames
  next : ∀ t t', p.next t = some t' → t' < nrTabFrames
  used : ∀ t d, (p.frame t).pgd = some d → t < nrTabFrames

/-- What holds of a directory, given by its entries and page tables, and of a page table, given by
its entries. -/
structure FrameInv (env : Env) (R : Rules) (Dir : (Nat → Word) → (Nat → Option TabId) → Prop)
    (Tab : (Nat → Word) → Prop) : Prop where
  zero : ∀ pgt, Dir (fun _ => 0) pgt
  fresh : ∀ pgt, Dir (fun pdi =>
    if nrLparPgtabs ≤ pdi ∧ pdi < nrMmuPtes then env.hvPgd pdi else 0) pgt
  store : ∀ {hv pgt i e rc v}, Dir hv pgt → R.entry e → shadowEntry env e = .ok (rc, v) →
    Dir (update hv i v) pgt
  link : ∀ {hv pgt i t e}, Dir hv pgt → t < nrTabFrames → isTable e = true →
    Dir (update hv i (env.tabPaddr t ||| pteFlags e)) (update pgt i (some t))
  unlink : ∀ {hv pgt} i, Dir hv pgt →
    Dir (update hv i 0) (update pgt i none)
  tabZero : Tab fun _ => 0
  tabStore : ∀ {hv i e rc v}, Tab hv → shadowEntry env e = .ok (rc, v) →
    Tab (update hv i v)

/-- The invariant holds of every frame. -/
structure FramesOk (Dir : (Nat → Word) → (Nat → Option TabId) → Prop) (Tab : (Nat → Word) → Prop)
    (s : Shadow) : Prop where
  dirs : ∀ d, Dir (s.dir d).hv (s.dir d).pgt
  tabs : ∀ t, Tab (s.tab t).hv
  bounded : TabsBounded s.tabs

section

variable {p : Pool Pgtab} {t : TabId} {f : Pgtab}

theorem TabsBounded.set (hb : TabsBounded p) (hf : ∀ d, f.pgd = some d → t < nrTabFrames) :
    TabsBounded (p.set t f) := by
  refine ⟨hb.free, hb.next, fun t' d hd => ?_⟩
  change (update p.frame t f t').pgd = some d at hd
  rw [update_apply] at hd
  split_ifs at hd with hne
  · subst hne
    exact hf d hd
  · exact hb.used t' d hd

theorem TabsBounded.enqueue (hb : TabsBounded p) (ht : t < nrTabFrames) :
    TabsBounded (p.enqueue t) := by
  refine ⟨fun t' ht' => ?_, fun t' t'' ht' => ?_, hb.used⟩
  · cases ht'
    exact ht
  · change update p.next t p.freelist t' = some t'' at ht'
    rw [update_apply] at ht'
    split_ifs at ht' with hne
    · exact hb.free t'' ht'
    · exact hb.next t' t'' ht'

end

section

variable {env : Env} {R : Rules} {Dir : (Nat → Word) → (Nat → Option TabId) → Prop}
  {Tab : (Nat → Word) → Prop} {s s' s1 : Shadow} {d : DirId} {t : TabId} {paddr : Option Word}

theorem FramesOk.setDir {f : Pgdir} (hs : FramesOk Dir Tab s) (hf : Dir f.hv f.pgt) :
    FramesOk Dir Tab (s.setDir d f) := by
  refine ⟨fun d' => ?_, hs.tabs, hs.bounded⟩
  rw [dir_setDir]
  rcases eq_or_ne d' d with rfl | hne
  · rwa [update_self]
  · rw [update_of_ne hne]
    exact hs.dirs d'

theorem FramesOk.setTab {f : Pgtab} (hs : FramesOk Dir Tab s) (hf : Tab f.hv)
    (hb : ∀ d, f.pgd = some d → t < nrTabFrames) : FramesOk Dir Tab (s.setTab t f) := by
  refine ⟨hs.dirs, fun t' => ?_, hs.bounded.set hb⟩
  rw [tab_setTab]
  rcases eq_or_ne t' t with rfl | hne
  · rwa [update_self]
  · rw [update_of_ne hne]
    exact hs.tabs t'

namespace FrameInv

variable (hI : FrameInv env R Dir Tab)
include hI

section

variable (hs : FramesOk Dir Tab s)
include hs

theorem freePgtab (hx : freePgtab s t = .ok s') : FramesOk Dir Tab s' := by
  obtain ⟨pgd, hpgd, rfl⟩ := freePgtab_ok hx
  have ht := hs.bounded.used t pgd hpgd
  have htab : FramesOk Dir Tab (s.setTab t { s.tab t with pgd := none, hv := fun _ => 0 }) :=
    hs.setTab hI.tabZero nofun
  have hdir := htab.setDir (d := pgd) (f := { s.dir pgd with
    pgt := update (s.dir pgd).pgt (s.tab t).pdi none
    hv := update (s.dir pgd).hv (s.tab t).pdi 0 }) (hI.unlink _ (hs.dirs pgd))
  exact ⟨hdir.dirs, hdir.tabs, hdir.bounded.enqueue ht⟩

theorem freePgdir (hx : freePgdir s d = .ok s') : FramesOk Dir Tab s' := by
  obtain ⟨s1, s2, hloop, hremove, rfl⟩ := freePgdir_ok hx
  have hslots : FramesOk Dir Tab s1 := by
    refine Run.foldlM_invariant (P := FramesOk Dir Tab) (fun u pdi u' _ hu hstep => ?_) hloop hs
    rcases freeSlot_ok hstep with rfl | ⟨t, -, hfree⟩
    · exact hu
    · exact hI.freePgtab hu hfree
  have hclear := hslots.setDir (d := d) (f := { s1.dir d with hv := fun _ => 0 }) (hI.zero _)
  rw [remove_ok hremove]
  exact ⟨hclear.dirs, hclear.tabs, hclear.bounded⟩

theorem graft {i : Nat} {e laddr : Word} (ht : takeTab laddr paddr s = .ok (t, s1))
    (he : isTable e = true) : FramesOk Dir Tab (setPgtab env s1 d i t (pteFlags e)) := by
  obtain ⟨hfree, lp, rfl⟩ := takeTab_ok ht
  have hbound := hs.bounded.free t hfree
  have hset := hs.setTab (t := t)
    (f := { s.tab t with lpLaddr := laddr, lp := lp, hv := fun _ => 0 })
    hI.tabZero fun d hd => hs.bounded.used t d hd
  have htaken : FramesOk Dir Tab (s.takenTab t laddr lp) :=
    ⟨hset.dirs, hset.tabs, fun t' ht' => hs.bounded.next t t' ht', hset.bounded.next,
      hset.bounded.used⟩
  have hdir : FramesOk Dir Tab ((s.takenTab t laddr lp).setDir d
      { (s.takenTab t laddr lp).dir d with
        hv := update ((s.takenTab t laddr lp).dir d).hv i (env.tabPaddr t ||| pteFlags e)
        pgt := update ((s.takenTab t laddr lp).dir d).pgt i (some t) }) :=
    htaken.setDir (hI.link (htaken.dirs d) hbound he)
  have htab := hdir.setTab (t := t)
    (f := { (s.takenTab t laddr lp).tab t with pdi := i, pgd := some d })
    (htaken.tabs t) fun _ _ => hbound
  refine ⟨fun d' => ?_, htab.tabs, htab.bounded⟩
  have hd' := htab.dirs d'
  simpa [setPgtab, setHv] using hd'

theorem write (hw : Write env R s s') : FramesOk Dir Tab s' := by
  cases hw with
  | tab t i he => exact hs.setTab (hI.tabStore (hs.tabs t) he) fun d hd => hs.bounded.used t d hd
  | dir d he hi hR => exact hs.setDir (hI.store (hs.dirs d) hR he)
  | graft d ht hi he => exact hI.graft hs ht he
  | prune hx => exact hI.freePgtab hs hx
  | victim hv hne hfl hx => exact hI.freePgdir hs hx
  | flushed hd hne hx =>
    have hfree := hI.freePgdir hs hx
    exact ⟨hfree.dirs, hfree.tabs, hfree.bounded⟩
  | mark p i | callback cb | address hi => exact ⟨hs.dirs, hs.tabs, hs.bounded⟩

theorem newDir {laddr : Word}
    (ht : takeDir laddr paddr s = .ok (d, s1)) : FramesOk Dir Tab (hypervisorMapping env s1 d) := by
  obtain ⟨-, lp, -, rfl⟩ := takeDir_ok ht
  have htaken : FramesOk Dir Tab (s.setDir d { s.dir d with
      lpLaddr := laddr, lp := lp, hv := fun _ => 0, last := s.ticks.setWidth 32 }) :=
    hs.setDir (hI.zero _)
  have henter : FramesOk Dir Tab (enter (s.takenDir d laddr lp) d) :=
    ⟨htaken.dirs, hs.tabs, hs.bounded⟩
  refine henter.setDir ?_
  have hzero : ((enter (s.takenDir d laddr lp) d).dir d).hv = fun _ => 0 := by
    simp [enter, takenDir, dir, Pool.setNext]
  rw [hzero]
  exact hI.fresh _

theorem change (hc : Change env R s s') : FramesOk Dir Tab s' := by
  cases hc with
  | write hw => exact hI.write hs hw
  | guest mem | tick ticks | flushed d | root cr3 => exact ⟨hs.dirs, hs.tabs, hs.bounded⟩
  | newDir ht => exact hI.newDir hs ht
  | activate d =>
    have hdir := hs.setDir (d := d) (f := { s.dir d with last := s.ticks.setWidth 32 }) (hs.dirs d)
    exact ⟨hdir.dirs, hdir.tabs, hdir.bounded⟩
  | free hx => exact hI.freePgdir hs hx

end

theorem init (ticks : BitVec 64) (mem : Word → Nat → Word) :
    FramesOk Dir Tab (pgcInit ticks mem) := by
  refine ⟨fun _ => hI.zero _, fun _ => hI.tabZero, ?_, ?_, ?_⟩
  · rintro t ⟨⟩
    decide
  · intro t t' ht
    simp only [pgcInit, initPool] at ht
    split_ifs at ht with hlt
    cases ht
    exact hlt
  · exact nofun

/-- **An invariant of single frames holds in every state that is reached.** -/
theorem reachable {ticks : BitVec 64} {mem : Word → Nat → Word} {s0 : Shadow} {evs : List Event}
    (he : ∀ i < chunkPages, R.entry (initialEntry i)) (hstart : initThread env ticks mem = .ok s0)
    (hrun : Run (step env) (Allowed env R) s0 evs s) : FramesOk Dir Tab s :=
  reachable_invariant (hI.init ticks mem) (fun _ _ hs hc => hI.change hs hc) he hstart hrun

end FrameInv

end

end Rhype.Pgcache
