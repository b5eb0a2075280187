import Rhype.Pgcache.Call
import Mathlib.Logic.Relation

/-!
# What a call can do to the shadow

Every path through the page cache is a sequence of a few kinds of writes: an entry of the shadow is
stored, a page table is linked or freed, a directory is freed.  `Write` lists them with what is
known where they happen; an invariant of the shadow only has to hold after each of them.

`Rules` are what the invariants need to know: which entries of the partition's directory are stored
in the shadow directory, and in which slots.
-/

namespace Rhype.Pgcache

open Function Ia32 Relation

/-! ### Setters -/

namespace Shadow

variable (s : Shadow) (d : DirId) (t : TabId)

@[simp] theorem dir_setDir (f : Pgdir) : (s.setDir d f).dir = update s.dir d f := rfl
@[simp] theorem tab_setDir (f : Pgdir) : (s.setDir d f).tab = s.tab := rfl
@[simp] theorem dir_setTab (f : Pgtab) : (s.setTab t f).dir = s.dir := rfl
@[simp] theorem tab_setTab (f : Pgtab) : (s.setTab t f).tab = update s.tab t f := rfl

end Shadow

/-! ### Freeing frames -/

/-- The state after `pgc_free_pgtab`, for a page table of `pgd`. -/
def Shadow.prune (s : Shadow) (t : TabId) (pgd : DirId) : Shadow :=
  let pdi := (s.tab t).pdi
  let s := s.setTab t { s.tab t with pgd := none, hv := fun _ => 0 }
  let s := s.setDir pgd { s.dir pgd with
    pgt := update (s.dir pgd).pgt pdi none
    hv := update (s.dir pgd).hv pdi 0 }
  { s with tabs := s.tabs.enqueue t }

section

variable {s s' : Shadow} {d : DirId} {t : TabId}

theorem freePgtab_ok (hx : freePgtab s t = .ok s') :
    ∃ pgd, (s.tab t).pgd = some pgd ∧ s' = s.prune t pgd := by
  unfold freePgtab at hx
  rcases hpgd : (s.tab t).pgd with _ | pgd
  · rw [hpgd] at hx
    cases hx
  rw [hpgd] at hx
  obtain ⟨_, -, hx⟩ := of_seq hx
  cases hx
  exact ⟨pgd, rfl, rfl⟩

theorem removeLoop_ok {dirs dirs' : Pool Pgdir} {frame : DirId} (fuel : Nat) :
    ∀ h, removeLoop frame fuel h dirs = .ok dirs' →
      dirs' = { dirs with next := dirs'.next } := by
  induction fuel with
  | zero => exact nofun
  | succ fuel ih =>
    intro h hx
    unfold removeLoop at hx
    split at hx
    · cases hx
      rfl
    split_ifs at hx
    · cases hx
      rfl
    · exact ih _ hx

theorem remove_ok (hx : remove s d = .ok s') :
    s' = { s with dirs := { s.dirs with next := s'.dirs.next }, htab := s'.htab } := by
  unfold remove at hx
  dsimp only at hx
  split at hx
  · cases hx
  split_ifs at hx
  · cases hx
    rfl
  obtain ⟨dirs, hloop, hx⟩ := of_seq hx
  cases hx
  have hdirs := removeLoop_ok _ _ hloop
  rw [← hdirs]

theorem freePgdir_ok (hx : freePgdir s d = .ok s') :
    ∃ s1 s2, (List.range nrLparPgtabs).foldlM (freeSlot d) s = .ok s1 ∧
      remove (s1.setDir d { s1.dir d with hv := fun _ => 0 }) d = .ok s2 ∧
      s' = { s2 with dirs := s2.dirs.enqueue d } := by
  obtain ⟨s1, hloop, hx⟩ := of_seq hx
  obtain ⟨s2, hremove, hx⟩ := of_seq hx
  cases hx
  exact ⟨s1, s2, hloop, hremove, rfl⟩

theorem freeSlot_ok {pdi : Nat} (hx : freeSlot d s pdi = .ok s') :
    s' = s ∨ ∃ t, (s.dir d).pgt pdi = some t ∧ freePgtab s t = .ok s' := by
  unfold freeSlot at hx
  split at hx
  · cases hx
    exact .inl rfl
  · next t ht => exact .inr ⟨t, ht, hx⟩

/-! ### Writes -/

/-- What is stored in the slots of a shadow directory. -/
structure Rules where
  /-- The entries of the partition's directory that may be stored. -/
  entry : Word → Prop
  slot : Nat → Prop
  zero : entry 0
  /-- The hypervisor sets the accessed and the dirty flag in the partition's page tables. -/
  dirty : ∀ e, entry e → entry (e ||| (pteA ||| pteD))
  low : ∀ i, i < nrLparPgtabs → slot i

/-- A write to the shadow, or to the flags in the partition's page tables. -/
inductive Write (env : Env) (R : Rules) : Shadow → Shadow → Prop
  | tab {s : Shadow} (t : TabId) (i : Nat) {e v : Word} {rc : Bool}
      (he : shadowEntry env e = .ok (rc, v)) : Write env R s (s.setHv (.tab t) i v)
  | dir {s : Shadow} (d : DirId) {i : Nat} {e v : Word} {rc : Bool}
      (he : shadowEntry env e = .ok (rc, v)) (hi : R.slot i) (hR : R.entry e) :
      Write env R s (s.setHv (.dir d) i v)
  | graft {s s1 : Shadow} (d : DirId) {i : Nat} {e laddr : Word} {paddr : Option Word} {t : TabId}
      (ht : takeTab laddr paddr s = .ok (t, s1)) (hi : R.slot i) (he : isTable e = true) :
      Write env R s (setPgtab env s1 d i t (pteFlags e))
  | prune {s s' : Shadow} {t : TabId} (hx : freePgtab s t = .ok s') : Write env R s s'
  | victim {s s' : Shadow} {d : DirId} (hv : findVictim s = .ok (some d)) (hne : d ≠ s.pgd)
      (hfl : s.flushed ≠ some d) (hx : freePgdir s d = .ok s') : Write env R s s'
  | flushed {s s' : Shadow} {d : DirId} (hd : s.flushed = some d) (hne : d ≠ s.pgd)
      (hx : freePgdir s d = .ok s') : Write env R s { s' with flushed := none }
  | mark {s : Shadow} (p : LpPage) (i : Nat) : Write env R s (s.orLp p i (pteA ||| pteD))
  | callback {s : Shadow} (cb : Bool) : Write env R s { s with cb := cb }
  | address {s : Shadow} {addr : Word} (hi : R.slot (pdiOf addr)) :
      Write env R s { s with regCr2 := addr }

abbrev Writes (env : Env) (R : Rules) : Shadow → Shadow → Prop := ReflTransGen (Write env R)

/-! ### What no write changes -/

/-- The directory that is active, and the pages of the partition behind the directories. -/
structure Kept (s s' : Shadow) : Prop where
  pgd : s'.pgd = s.pgd
  lp : ∀ d, (s'.dir d).lp = (s.dir d).lp
  lpLaddr : ∀ d, (s'.dir d).lpLaddr = (s.dir d).lpLaddr

/-- What freeing a frame leaves alone. -/
structure FreeFrame (s s' : Shadow) : Prop extends Kept s s' where
  flushed : s'.flushed = s.flushed
  cb : s'.cb = s.cb
  regCr2 : s'.regCr2 = s.regCr2
  mem : s'.mem = s.mem

/-- What a write leaves alone.  It may set flags in an entry of the partition's memory, and keep an
address whose slot the rules allow. -/
structure WriteFrame (R : Rules) (s s' : Shadow) : Prop extends Kept s s' where
  mem : s'.mem = s.mem ∨ ∃ p i, s'.mem = (s.orLp p i (pteA ||| pteD)).mem
  regCr2 : s'.regCr2 = s.regCr2 ∨ R.slot (pdiOf s'.regCr2)

variable {env : Env} {R : Rules} {s'' : Shadow} {p : LpPage}

theorem Kept.refl (s : Shadow) : Kept s s := ⟨rfl, fun _ => rfl, fun _ => rfl⟩

theorem Kept.trans (h1 : Kept s s') (h2 : Kept s' s'') : Kept s s'' :=
  ⟨h2.pgd.trans h1.pgd, fun d => (h2.lp d).trans (h1.lp d),
    fun d => (h2.lpLaddr d).trans (h1.lpLaddr d)⟩

theorem FreeFrame.trans (h1 : FreeFrame s s') (h2 : FreeFrame s' s'') : FreeFrame s s'' :=
  ⟨h1.toKept.trans h2.toKept, h2.flushed.trans h1.flushed, h2.cb.trans h1.cb,
    h2.regCr2.trans h1.regCr2, h2.mem.trans h1.mem⟩

theorem Kept.setDir {f : Pgdir} (hlp : f.lp = (s.dir d).lp)
    (hladdr : f.lpLaddr = (s.dir d).lpLaddr) : Kept s (s.setDir d f) := by
  refine ⟨rfl, fun d' => ?_, fun d' => ?_⟩
  · rcases eq_or_ne d' d with rfl | hne
    · simp [hlp]
    · simp [hne]
  · rcases eq_or_ne d' d with rfl | hne
    · simp [hladdr]
    · simp [hne]

theorem Kept.setHv (table : PgTable) (i : Nat) (v : Word) : Kept s (s.setHv table i v) := by
  cases table with
  | dir d => exact .setDir rfl rfl
  | tab t => exact ⟨rfl, fun _ => rfl, fun _ => rfl⟩

theorem Kept.setPgtab (env : Env) (d : DirId) (i : Nat) (t : TabId) (flags : Word) :
    Kept s (setPgtab env s d i t flags) := by
  have hdir := (Kept.setHv (.dir d) i (env.tabPaddr t ||| flags) (s := s)).trans
    (.setDir (f := { (s.setHv (.dir d) i (env.tabPaddr t ||| flags)).dir d with
      pgt := update ((s.setHv (.dir d) i (env.tabPaddr t ||| flags)).dir d).pgt i
        (some t) }) rfl rfl)
  exact ⟨rfl, hdir.lp, hdir.lpLaddr⟩

theorem freePgtab_frame (hx : freePgtab s t = .ok s') : FreeFrame s s' := by
  obtain ⟨pgd, -, rfl⟩ := freePgtab_ok hx
  have hkept := @Kept.setDir (s.setTab t { s.tab t with pgd := none, hv := fun _ => 0 }) pgd
    { s.dir pgd with
      pgt := update (s.dir pgd).pgt (s.tab t).pdi none
      hv := update (s.dir pgd).hv (s.tab t).pdi 0 } rfl rfl
  exact ⟨⟨rfl, hkept.lp, hkept.lpLaddr⟩, rfl, rfl, rfl, rfl⟩

theorem freePgdir_frame (hx : freePgdir s d = .ok s') : FreeFrame s s' := by
  obtain ⟨s1, s2, hloop, hremove, rfl⟩ := freePgdir_ok hx
  have hslots : FreeFrame s s1 := by
    refine Run.foldlM_invariant (P := FreeFrame s) (fun u pdi u' _ hu hstep => ?_) hloop
      ⟨.refl s, rfl, rfl, rfl, rfl⟩
    rcases freeSlot_ok hstep with rfl | ⟨t, -, hfree⟩
    · exact hu
    · exact hu.trans (freePgtab_frame hfree)
  have hclear : FreeFrame s1 (s1.setDir d { s1.dir d with hv := fun _ => 0 }) :=
    ⟨.setDir rfl rfl, rfl, rfl, rfl, rfl⟩
  rw [remove_ok hremove]
  exact (hslots.trans hclear).trans ⟨⟨rfl, fun _ => rfl, fun _ => rfl⟩, rfl, rfl, rfl, rfl⟩

/-- The state after the first page table of the free list was taken. -/
def Shadow.takenTab (s : Shadow) (t : TabId) (laddr : Word) (lp : LpPage) : Shadow :=
  { s with tabs := { s.tabs with
      freelist := s.tabs.next t
      freecount := s.tabs.freecount - 1
      frame := update s.tab t
        { s.tab t with lpLaddr := laddr, lp := lp, hv := fun _ => 0 } } }

theorem takeTab_ok {laddr : Word} {paddr : Option Word} (hx : takeTab laddr paddr s = .ok (t, s')) :
    s.tabs.freelist = some t ∧ ∃ lp, s' = s.takenTab t laddr lp := by
  unfold takeTab at hx
  rcases hfree : s.tabs.freelist with _ | t'
  · simp [Pool.dequeue, hfree] at hx
  simp only [Pool.dequeue, hfree] at hx
  obtain ⟨lp, -, hx⟩ := of_seq hx
  cases hx
  exact ⟨rfl, lp, rfl⟩

theorem Kept.takenTab (t : TabId) (laddr : Word) (lp : LpPage) : Kept s (s.takenTab t laddr lp) :=
  ⟨rfl, fun _ => rfl, fun _ => rfl⟩

theorem FreeFrame.writeFrame (hf : FreeFrame s s') : WriteFrame R s s' :=
  ⟨hf.toKept, .inl hf.mem, .inl hf.regCr2⟩

theorem Write.frame (hw : Write env R s s') : WriteFrame R s s' := by
  cases hw with
  | tab t i he | dir d he hi hR => exact ⟨.setHv _ _ _, .inl rfl, .inl rfl⟩
  | graft d ht hi he =>
    obtain ⟨-, lp, rfl⟩ := takeTab_ok ht
    exact ⟨(Kept.takenTab _ _ lp).trans (.setPgtab env d _ _ _), .inl rfl, .inl rfl⟩
  | prune hx => exact (freePgtab_frame hx).writeFrame
  | victim hv hne hfl hx => exact (freePgdir_frame hx).writeFrame
  | flushed hd hne hx =>
    have hf := freePgdir_frame hx
    exact ⟨⟨hf.pgd, hf.lp, hf.lpLaddr⟩, .inl hf.mem, .inl hf.regCr2⟩
  | mark p i => exact ⟨⟨rfl, fun _ => rfl, fun _ => rfl⟩, .inr ⟨p, i, rfl⟩, .inl rfl⟩
  | callback cb => exact ⟨⟨rfl, fun _ => rfl, fun _ => rfl⟩, .inl rfl, .inl rfl⟩
  | address hi => exact ⟨⟨rfl, fun _ => rfl, fun _ => rfl⟩, .inl rfl, .inr hi⟩

theorem Writes.kept (hw : Writes env R s s') : Kept s s' := by
  induction hw with
  | refl => exact .refl s
  | tail _ hstep ih => exact ih.trans hstep.frame.toKept

/-- The pages of 4 MB in a directory of the partition may be stored. -/
def CleanPage (R : Rules) (s : Shadow) (p : LpPage) : Prop :=
  ∀ i, isLarge (s.mem p i) = true → R.entry (s.mem p i)

/-- The pages of 4 MB in the partition's directory behind a frame may be stored. -/
def Clean (R : Rules) (s : Shadow) (d : DirId) : Prop := CleanPage R s (s.dir d).lp

theorem CleanPage.write (hc : CleanPage R s p) (hw : Write env R s s') : CleanPage R s' p := by
  intro i
  rcases hw.frame.mem with hmem | ⟨q, j, hmem⟩
  · rw [hmem]
    exact hc i
  rw [hmem]
  unfold Shadow.orLp
  dsimp only
  rw [update_apply]
  split_ifs with hpq
  · subst hpq
    rw [update_apply]
    split_ifs with hij
    · subst hij
      rw [isLarge_dirty]
      exact fun hl => R.dirty _ (hc i hl)
    · exact hc i
  · exact hc i

theorem CleanPage.writes (hc : CleanPage R s p) (hw : Writes env R s s') : CleanPage R s' p := by
  induction hw with
  | refl => exact hc
  | tail _ hstep ih => exact ih.write hstep

theorem Clean.writes (hc : Clean R s d) (hw : Writes env R s s') : Clean R s' d := by
  rw [Clean, hw.kept.lp]
  exact .writes hc hw

/-! ### The functions of the page cache -/

variable {env : Env} {R : Rules} {i : Nat} {e : Word} {rc : Bool}

theorem shadowEntry_ok {v : Word} (hx : shadowEntry env e = .ok (rc, v)) :
    v = 0 ∨ test e pteP = true ∧ (v = e ∧ env.ioprivilege = true ∨
      ∃ paddr, logicalToPhysicalAddress env.lmm (ptePageaddr e) pgsize = .ok paddr ∧
        paddr ≠ invalidPhysicalAddress ∧
        (v = paddr ||| pteFlags e ∨ v = (paddr ||| pteFlags e) &&& ~~~pteRw)) := by
  rcases ite_eq_iff.1 hx with ⟨hp, hx⟩ | ⟨-, hx⟩
  swap
  · cases hx
    exact .inl rfl
  obtain ⟨paddr, hpaddr, hx⟩ := of_seq hx
  rcases ite_eq_iff.1 hx with ⟨-, hx⟩ | ⟨hne, hx⟩
  · split_ifs at hx with hpriv
    · cases hx
      rw [Bool.and_eq_true] at hpriv
      exact .inr ⟨hp, .inl ⟨rfl, hpriv.1⟩⟩
    · cases hx
      exact .inl rfl
  rcases ite_eq_iff.1 hx with ⟨hpriv, hx⟩ | ⟨-, hx⟩
  · cases hx
    rw [Bool.and_eq_true] at hpriv
    exact .inr ⟨hp, .inl ⟨rfl, hpriv.1⟩⟩
  · cases hx
    refine .inr ⟨hp, .inr ⟨paddr, hpaddr, hne, ?_⟩⟩
    split_ifs
    · exact .inr rfl
    · exact .inl rfl

theorem setPte_ok {table : PgTable} (hx : setPte env s table i e = .ok (rc, s')) :
    ∃ v, shadowEntry env e = .ok (rc, v) ∧ s' = s.setHv table i v := by
  obtain ⟨⟨rc', v⟩, he, hx⟩ := of_seq hx
  cases hx
  exact ⟨v, he, rfl⟩

theorem setPte_tab (hx : setPte env s (.tab t) i e = .ok (rc, s')) : Write env R s s' := by
  obtain ⟨v, he, rfl⟩ := setPte_ok hx
  exact .tab t i he

theorem setPte_dir (hx : setPte env s (.dir d) i e = .ok (rc, s')) (hi : R.slot i)
    (hR : R.entry e) : Write env R s s' := by
  obtain ⟨v, he, rfl⟩ := setPte_ok hx
  exact .dir d he hi hR

theorem prefetchPgtab_writes (hx : prefetchPgtab env s t = .ok s') : Writes env R s s' := by
  refine Run.foldlM_invariant (P := Writes env R s) (fun u i u' _ hu hstep => ?_) hx .refl
  obtain ⟨⟨rc, u''⟩, hset, hstep⟩ := of_seq hstep
  cases hstep
  exact hu.tail (setPte_tab hset)

theorem dropTable_writes (hx : dropTable s d i = .ok s') : Writes env R s s' := by
  unfold dropTable at hx
  split at hx
  · cases hx
    exact .refl
  · exact .single (.prune hx)

/-! ### Garbage collection -/

/-- Where the directory that was flushed is not freed. -/
def NoneFlushed (s : Shadow) : Prop := ∀ d, s.flushed = some d → d = s.pgd

theorem NoneFlushed.frame (hn : NoneFlushed s) (hf : FreeFrame s s') : NoneFlushed s' := by
  intro d hd
  rw [hf.pgd]
  exact hn d (hf.flushed ▸ hd)

variable {type : PgcType}

theorem collectLoop_writes {found : Bool} (fuel : Nat) : ∀ s, NoneFlushed s →
    collectLoop type fuel s = .ok (found, s') → Writes env R s s' := by
  induction fuel with
  | zero => exact nofun
  | succ fuel ih =>
    intro s hn hx
    obtain ⟨_ | victim, hvictim, hx⟩ := of_seq hx
    · cases hx
    dsimp only at hx
    split_ifs at hx with hpgd
    · cases hx
      exact .refl
    obtain ⟨s1, hfree, hx⟩ := of_seq hx
    have hw : Write env R s s1 := .victim hvictim hpgd (fun hfl => hpgd (hn _ hfl)) hfree
    split_ifs at hx
    · cases hx
      exact .single hw
    · exact (ih s1 (hn.frame (freePgdir_frame hfree)) hx).head hw

theorem collectVictims_writes (hn : NoneFlushed s)
    (hx : collectVictims type s = .ok s') : Writes env R s s' := by
  obtain ⟨⟨found, s1⟩, hloop, hx⟩ := of_seq hx
  have hw : Writes env R s s1 := collectLoop_writes _ s hn hloop
  dsimp only at hx
  split_ifs at hx
  · cases hx
    exact hw
  obtain ⟨_, -, hx⟩ := of_seq hx
  obtain ⟨s2, hfree, hx⟩ := of_seq hx
  obtain ⟨_, -, hx⟩ := of_seq hx
  cases hx
  exact hw.tail (.prune hfree)

theorem garbageCollect_writes (hx : garbageCollect type s = .ok s') : Writes env R s s' := by
  obtain ⟨_, -, hx⟩ := of_seq hx
  rcases hfl : s.flushed with _ | flushed
  · rw [hfl] at hx
    exact collectVictims_writes (fun d hd => absurd (hfl.symm.trans hd) nofun) hx
  rw [hfl] at hx
  dsimp only at hx
  split_ifs at hx with hpgd
  · refine collectVictims_writes (fun d hd => ?_) hx
    rw [← hpgd]
    exact (Option.some.inj (hfl.symm.trans hd)).symm
  obtain ⟨s1, hfree, hx⟩ := of_seq hx
  have hw : Write env R s { s1 with flushed := none } := .flushed hfl hpgd hfree
  split_ifs at hx
  · cases hx
    exact .single hw
  · have hn : NoneFlushed { s1 with flushed := none } := fun d hd =>
      absurd (show none = some d from hd) nofun
    exact (collectVictims_writes hn hx).head hw

theorem makeRoom_writes (hx : makeRoom type s = .ok s') : Writes env R s s' := by
  unfold makeRoom at hx
  split_ifs at hx
  · cases hx
    exact .refl
  · exact garbageCollect_writes hx

/-! ### Flushes and prefetches -/

theorem graft_writes {pgt : Option TabId} (hx : graft env s d i e = .ok (pgt, s')) (hi : R.slot i)
    (he : isTable e = true) : Writes env R s s' := by
  obtain ⟨⟨pgt', s1⟩, halloc, hx⟩ := of_seq hx
  obtain ⟨_ | paddr, -, halloc⟩ := of_seq halloc
  · cases halloc
    cases hx
    exact .refl
  obtain ⟨s2, hroom, halloc⟩ := of_seq halloc
  obtain ⟨⟨t, s3⟩, htake, halloc⟩ := of_seq halloc
  cases halloc
  obtain ⟨s4, hfetch, hx⟩ := of_seq hx
  cases hx
  have hw : Writes env R s s2 := makeRoom_writes hroom
  exact (hw.tail (.graft d htake hi he)).trans (prefetchPgtab_writes hfetch)

theorem prefetchNew_writes (hx : prefetchNew env d i e s = .ok s') (hi : R.slot i)
    (he : isTable e = true) : Writes env R s s' := by
  obtain ⟨⟨pgt, s1⟩, hgraft, hx⟩ := of_seq hx
  have hw : Writes env R s s1 := graft_writes hgraft hi he
  dsimp only at hx
  split_ifs at hx
  · cases hx
    exact hw
  · obtain ⟨⟨rc, s2⟩, hset, hx⟩ := of_seq hx
    cases hx
    exact hw.tail (setPte_dir hset hi R.zero)

/-- What a round of `pgc_prefetch_pgdir` does: the table of the slot is dropped and an entry is
stored, or the page table that the partition has there now is fetched. -/
inductive PrefetchCase (env : Env) (d : DirId) (i : Nat) (s s' : Shadow) : Prop
  | entry (e : Word) (rc : Bool) (s1 : Shadow) (he : e = 0 ∨ isLarge (s.lpDir d i) = true ∧
        e = s.lpDir d i) (hdrop : dropTable s d i = .ok s1)
      (hset : setPte env s1 (.dir d) i e = .ok (rc, s'))
  | fetch (htable : isTable (s.lpDir d i) = true) (pgt : TabId)
      (hfetch : prefetchPgtab env s pgt = .ok s')
  | new (htable : isTable (s.lpDir d i) = true)
      (hnew : prefetchNew env d i (s.lpDir d i) s = .ok s')
  | renew (htable : isTable (s.lpDir d i) = true) (pgt : TabId) (s1 : Shadow)
      (hfree : freePgtab s pgt = .ok s1) (hnew : prefetchNew env d i (s.lpDir d i) s1 = .ok s')

theorem prefetchSlot_cases (hx : prefetchSlot env d s i = .ok s') : PrefetchCase env d i s s' := by
  unfold prefetchSlot at hx
  dsimp only at hx
  split_ifs at hx with hp hps
  · obtain ⟨s1, hdrop, hx⟩ := of_seq hx
    obtain ⟨⟨rc, s2⟩, hset, hx⟩ := of_seq hx
    cases hx
    exact .entry 0 rc s1 (.inl rfl) hdrop hset
  · obtain ⟨s1, hdrop, hx⟩ := of_seq hx
    obtain ⟨⟨rc, s2⟩, hset, hx⟩ := of_seq hx
    cases hx
    have hlarge : isLarge (s.lpDir d i) = true := by
      simp only [Bool.not_eq_true'] at hp
      simp [isLarge, hp, hps]
    exact .entry _ rc s1 (.inr ⟨hlarge, rfl⟩) hdrop hset
  have htable : isTable (s.lpDir d i) = true := by
    simp only [Bool.not_eq_true'] at hp
    simp [isTable, hp, hps]
  split at hx
  · exact .new htable hx
  split_ifs at hx
  · exact .fetch htable _ hx
  · obtain ⟨s1, hfree, hx⟩ := of_seq hx
    exact .renew htable _ s1 hfree hx

theorem prefetchSlot_writes (hc : Clean R s d) (hx : prefetchSlot env d s i = .ok s')
    (hi : R.slot i) : Writes env R s s' := by
  cases prefetchSlot_cases hx with
  | entry e rc s1 he hdrop hset =>
    rcases he with rfl | ⟨hlarge, rfl⟩
    · exact (dropTable_writes hdrop).tail (setPte_dir hset hi R.zero)
    · exact (dropTable_writes hdrop).tail (setPte_dir hset hi (hc i hlarge))
  | fetch _ pgt hfetch => exact prefetchPgtab_writes hfetch
  | new htable hnew => exact prefetchNew_writes hnew hi htable
  | renew htable pgt s1 hfree hnew => exact (prefetchNew_writes hnew hi htable).head (.prune hfree)

theorem prefetchPgdir_writes (hc : Clean R s d) (hx : prefetchPgdir env s d = .ok s') :
    Writes env R s s' := by
  refine Run.foldlM_invariant (P := Writes env R s) (fun u i u' hi hu hstep => ?_) hx .refl
  exact hu.trans (prefetchSlot_writes (hc.writes hu) hstep (R.low i (List.mem_range.1 hi)))

theorem flush_writes (hx : flush env s d = .ok s') : Writes env R s s' := by
  refine Run.foldlM_invariant (P := Writes env R s) (fun u i u' hi hu hstep => ?_) hx .refl
  unfold flushSlot at hstep
  dsimp only at hstep
  split_ifs at hstep
  · cases hstep
    exact hu
  · split at hstep
    · cases hstep
    · exact hu.tail (.prune hstep)
  · obtain ⟨⟨rc, u1⟩, hset, hstep⟩ := of_seq hstep
    cases hstep
    exact hu.tail (setPte_dir hset (R.low i (List.mem_range.1 hi)) R.zero)

end

end Rhype.Pgcache
