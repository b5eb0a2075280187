import Rhype.Pgcache.Equiv.Chains

/-!
# The directories that map the hypervisor

Every directory of the hash table maps the hypervisor in the slots from `NR_LPAR_PGTABS` on
(`HvInv`).  The writes that leave the lists of the directories alone keep this for the same lists
(`Quiet`); a directory that is freed leaves the hash table, and a new one enters it when it maps the
hypervisor.  The directories that the thread holds are in the hash table (`HvState`).
-/

namespace Rhype.Pgcache

open Function Ia32 Relation Shadow

/-- The directories in the hash table map the hypervisor, and page tables are linked below its
slots. -/
structure HvInv (env : Env) (s : Shadow) (free : List DirId) (chain : Nat → List DirId) : Prop
    extends DirLists s free chain where
  mapped : ∀ h, ∀ d ∈ chain h, ∀ pdi, nrLparPgtabs ≤ pdi → pdi < nrMmuPtes →
    (s.dir d).hv pdi = env.hvPgd pdi
  linked : ∀ t d, (s.tab t).pgd = some d → (s.tab t).pdi < nrLparPgtabs
  tabs : ∃ l, TabList s.tabs l

/-- What the invariant reads of the directories. -/
structure SameDirs (s s' : Shadow) : Prop where
  next : s'.dirs.next = s.dirs.next
  freelist : s'.dirs.freelist = s.dirs.freelist
  htab : s'.htab = s.htab
  lpLaddr : ∀ d, (s'.dir d).lpLaddr = (s.dir d).lpLaddr
  high : ∀ d pdi, nrLparPgtabs ≤ pdi → (s'.dir d).hv pdi = (s.dir d).hv pdi

/-- The writes that leave the lists of the directories and the memory of the partition alone. -/
inductive Quiet (env : Env) : Shadow → Shadow → Prop
  | tab {s : Shadow} (t : TabId) (i : Nat) (v : Word) : Quiet env s (s.setHv (.tab t) i v)
  | dir {s : Shadow} (d : DirId) {i : Nat} (v : Word) (hi : i < nrLparPgtabs) :
      Quiet env s (s.setHv (.dir d) i v)
  | graft {s s1 : Shadow} (d : DirId) {i : Nat} {laddr : Word} {paddr : Option Word} {t : TabId}
      (flags : Word) (ht : takeTab laddr paddr s = .ok (t, s1)) (hi : i < nrLparPgtabs) :
      Quiet env s (setPgtab env s1 d i t flags)
  | prune {s s' : Shadow} {t : TabId} (hx : freePgtab s t = .ok s') : Quiet env s s'

section

variable {env : Env} {s s' : Shadow} {free : List DirId} {chain : Nat → List DirId} {d pgd : DirId}
  {t : TabId} {l : List TabId} {h : Nat}

theorem SameDirs.setDir {f : Pgdir} (hladdr : f.lpLaddr = (s.dir d).lpLaddr)
    (hhigh : ∀ pdi, nrLparPgtabs ≤ pdi → f.hv pdi = (s.dir d).hv pdi) :
    SameDirs s (s.setDir d f) := by
  refine ⟨rfl, rfl, rfl, fun x => ?_, fun x pdi hpdi => ?_⟩
  · rw [dir_setDir, update_apply]
    split_ifs with hne
    · subst hne
      rw [hladdr]
    · rfl
  · rw [dir_setDir, update_apply]
    split_ifs with hne
    · subst hne
      rw [hhigh pdi hpdi]
    · rfl

theorem SameDirs.link (env : Env) (d : DirId) {i : Nat} (t : TabId) (flags : Word)
    (hi : i < nrLparPgtabs) : SameDirs s (setPgtab env s d i t flags) := by
  have hdir := @SameDirs.setDir s d
    { s.dir d with
      hv := update (s.dir d).hv i (env.tabPaddr t ||| flags)
      pgt := update (s.dir d).pgt i (some t) } rfl
    (fun pdi hle => update_of_ne (by omega) _ _)
  have hsame : (setPgtab env s d i t flags).dir = (s.setDir d
      { s.dir d with
        hv := update (s.dir d).hv i (env.tabPaddr t ||| flags)
        pgt := update (s.dir d).pgt i (some t) }).dir := by
    simp [setPgtab, setHv]
  refine ⟨rfl, rfl, rfl, ?_, ?_⟩
  · rw [hsame]
    exact hdir.lpLaddr
  · rw [hsame]
    exact hdir.high

theorem DirLists.same (hl : DirLists s free chain) (hs : SameDirs s s') :
    DirLists s' free chain := by
  refine ⟨?_, fun h => ?_, hl.free_nodup, hl.nodup, hl.disjoint, fun h x hx => ?_⟩
  · rw [hs.next, hs.freelist]
    exact hl.freed
  · rw [hs.next, hs.htab]
    exact hl.chained h
  · rw [hs.lpLaddr]
    exact hl.hashed h x hx

theorem HvInv.same (hi : HvInv env s free chain) (hs : SameDirs s s')
    (hlinked : ∀ t d, (s'.tab t).pgd = some d → (s'.tab t).pdi < nrLparPgtabs)
    (htabs : ∃ l, TabList s'.tabs l) : HvInv env s' free chain := by
  refine ⟨hi.toDirLists.same hs, fun h x hx pdi hle hlt => ?_, hlinked, htabs⟩
  rw [hs.high x pdi hle]
  exact hi.mapped h x hx pdi hle hlt

theorem HvInv.congr (hi : HvInv env s free chain) (hdirs : s'.dirs = s.dirs)
    (htabs : s'.tabs = s.tabs) (hhtab : s'.htab = s.htab) : HvInv env s' free chain := by
  have hdir : s'.dir = s.dir := by
    unfold dir
    rw [hdirs]
  have htab : s'.tab = s.tab := by
    unfold tab
    rw [htabs]
  refine hi.same ⟨by rw [hdirs], by rw [hdirs], hhtab, fun _ => by rw [hdir],
    fun _ _ _ => by rw [hdir]⟩ ?_ ?_
  · rw [htab]
    exact hi.linked
  · rw [htabs]
    exact hi.tabs

/-! ### The free page tables -/

theorem TabList.prune (hl : TabList s.tabs l) (hpgd : (s.tab t).pgd = some pgd) :
    TabList (s.prune t pgd).tabs (t :: l) := by
  have ht : t ∉ l := by
    intro hmem
    cases hpgd.symm.trans (hl.unused t hmem)
  have hset : TabList (s.tabs.set t { s.tab t with pgd := none, hv := fun _ => 0 }) l :=
    hl.set (fun _ => rfl) nofun
  refine hset.enqueue ht ?_ (hl.used t pgd hpgd)
  change (update s.tabs.frame t _ t).pgd = none
  rw [update_self]

theorem TabList.graft {s1 : Shadow} {i : Nat} {laddr flags : Word} {paddr : Option Word}
    (hl : TabList s.tabs l) (ht : takeTab laddr paddr s = .ok (t, s1)) :
    ∃ l', l = t :: l' ∧ TabList (setPgtab env s1 d i t flags).tabs l' := by
  obtain ⟨hfree, lp, rfl⟩ := takeTab_ok ht
  obtain ⟨l', rfl, hrest⟩ := hl.dequeue hfree
  have hlt : t < nrTabFrames := hl.lt List.mem_cons_self
  have hout : t ∉ l' := (List.nodup_cons.1 hl.nodup).1
  have hfirst := hrest.set (t := t)
    (f := { s.tab t with lpLaddr := laddr, lp := lp, hv := fun _ => 0 })
    (fun h => absurd h hout) fun _ _ => hlt
  have hsecond := hfirst.set (t := t)
    (f := { (s.takenTab t laddr lp).tab t with pdi := i, pgd := some d })
    (fun h => absurd h hout) fun _ _ => hlt
  exact ⟨l', rfl, hsecond⟩

/-! ### Quiet writes -/

theorem SameDirs.prune (hpdi : (s.tab t).pdi < nrLparPgtabs) : SameDirs s (s.prune t pgd) := by
  have hdir := @SameDirs.setDir (s.setTab t { s.tab t with pgd := none, hv := fun _ => 0 }) pgd
    { s.dir pgd with
      pgt := update (s.dir pgd).pgt (s.tab t).pdi none
      hv := update (s.dir pgd).hv (s.tab t).pdi 0 } rfl
    (fun pdi hle => update_of_ne (by omega) _ _)
  exact ⟨rfl, rfl, rfl, hdir.lpLaddr, hdir.high⟩

theorem HvInv.quiet (hi : HvInv env s free chain) (hq : Quiet env s s') :
    HvInv env s' free chain := by
  obtain ⟨l, hl⟩ := hi.tabs
  cases hq with
  | tab t i v =>
    refine hi.same ⟨rfl, rfl, rfl, fun _ => rfl, fun _ _ _ => rfl⟩ (fun x d hd => ?_) ⟨l, ?_⟩
    · rw [setHv, tab_setTab, update_apply] at hd ⊢
      split_ifs at hd ⊢ with hne
      · subst hne
        exact hi.linked x d hd
      · exact hi.linked x d hd
    · exact hl.set (fun h => hl.unused t h) fun d hd => hl.used t d hd
  | dir d v hlt =>
    refine hi.same (.setDir rfl fun pdi hle => ?_) hi.linked hi.tabs
    exact update_of_ne (by omega) _ _
  | @graft s1 d i laddr paddr t flags ht hlt =>
    obtain ⟨l', -, htabs⟩ := @TabList.graft env s d t l s1 i laddr flags paddr hl ht
    obtain ⟨-, lp, rfl⟩ := takeTab_ok ht
    have hsame := SameDirs.link env d t flags hlt (s := s.takenTab t laddr lp)
    refine hi.same ⟨hsame.next, hsame.freelist, hsame.htab, hsame.lpLaddr, hsame.high⟩
      (fun x d' hd => ?_) ⟨l', htabs⟩
    rw [tab_setPgtab] at hd ⊢
    rcases eq_or_ne x t with rfl | hne
    · rwa [update_self]
    · rw [update_of_ne hne, tab_takenTab, update_of_ne hne] at hd ⊢
      exact hi.linked x d' hd
  | @prune _ t hx =>
    obtain ⟨pgd, hpgd, rfl⟩ := freePgtab_ok hx
    refine hi.same (.prune (hi.linked t pgd hpgd)) (fun x d hd => ?_) ⟨t :: l, hl.prune hpgd⟩
    have hd' : (update s.tab t { s.tab t with pgd := none, hv := fun _ => 0 } x).pgd =
      some d := hd
    change (update s.tab t { s.tab t with pgd := none, hv := fun _ => 0 } x).pdi < _
    rcases eq_or_ne x t with rfl | hne
    · rw [update_self] at hd'
      cases hd'
    · rw [update_of_ne hne] at hd' ⊢
      exact hi.linked x d hd'

theorem Quiet.kept (hq : Quiet env s s') : Kept s s' ∧ s'.flushed = s.flushed ∧ s'.mem = s.mem := by
  cases hq with
  | tab t i v | dir d v hlt => exact ⟨.setHv _ _ _, rfl, rfl⟩
  | graft d flags ht hlt =>
    obtain ⟨-, lp, rfl⟩ := takeTab_ok ht
    exact ⟨(Kept.takenTab _ _ lp).trans (.setPgtab env d _ _ _), rfl, rfl⟩
  | prune hx =>
    have hf := freePgtab_frame hx
    exact ⟨hf.toKept, hf.flushed, hf.mem⟩

/-- What a sequence of quiet writes leaves alone. -/
structure Calm (env : Env) (s s' : Shadow) : Prop extends Kept s s' where
  quiet : ReflTransGen (Quiet env) s s'
  flushed : s'.flushed = s.flushed
  mem : s'.mem = s.mem

theorem Calm.refl (s : Shadow) : Calm env s s := ⟨.refl s, .refl, rfl, rfl⟩

theorem Calm.tail {s1 : Shadow} (hc : Calm env s s1) (hq : Quiet env s1 s') : Calm env s s' := by
  obtain ⟨hk, hfl, hmem⟩ := hq.kept
  exact ⟨hc.toKept.trans hk, hc.quiet.tail hq, hfl.trans hc.flushed, hmem.trans hc.mem⟩

theorem HvInv.calm (hi : HvInv env s free chain) (hc : Calm env s s') :
    HvInv env s' free chain := by
  have hq := hc.quiet
  clear hc
  induction hq with
  | refl => exact hi
  | tail _ hq ih => exact ih.quiet hq

/-! ### Freeing and allocating directories -/

theorem HvInv.freePgdir (hi : HvInv env s free chain) (hd : d ∈ chain h)
    (hx : freePgdir s d = .ok s') : HvInv env s' (d :: free) (without chain h d) := by
  obtain ⟨s1, s2, hloop, hremove, rfl⟩ := freePgdir_ok hx
  have hslots : HvInv env s1 free chain := by
    refine Run.foldlM_invariant (P := fun u => HvInv env u free chain)
      (fun u pdi u' _ hu hstep => ?_) hloop hi
    rcases freeSlot_ok hstep with rfl | ⟨t, -, hfree⟩
    · exact hu
    · exact hu.quiet (.prune hfree)
  have hclear : DirLists (s1.setDir d { s1.dir d with hv := fun _ => 0 }) free chain := by
    refine ⟨hslots.freed, hslots.chained, hslots.free_nodup, hslots.nodup, hslots.disjoint,
      fun h' x hmem => ?_⟩
    rw [dir_setDir, update_apply]
    split_ifs with hne
    · subst hne
      exact hslots.hashed h' x hmem
    · exact hslots.hashed h' x hmem
  have hsame := remove_ok hremove
  have htab : s2.tab = s1.tab := by
    rw [hsame]
    rfl
  refine ⟨hclear.remove hd hremove, fun h' x hx pdi hle hlt => ?_, fun t d' ht => ?_, ?_⟩
  · obtain ⟨hmem, hne⟩ := (hi.mem_without hd).1 hx
    have hdir : (s2.dir x).hv = (s1.dir x).hv := by
      rw [hsame]
      change (update s1.dir d _ x).hv = _
      rw [update_of_ne hne]
    change (s2.dir x).hv pdi = env.hvPgd pdi
    rw [hdir]
    exact hslots.mapped h' x hmem pdi hle hlt
  · change (s2.tab t).pgd = some d' at ht
    change (s2.tab t).pdi < nrLparPgtabs
    rw [htab] at ht ⊢
    exact hslots.linked t d' ht
  · rw [hsame]
    exact hslots.tabs

theorem HvInv.newDir {s1 : Shadow} {laddr : Word} {paddr : Option Word}
    (hi : HvInv env s free chain) (ht : takeDir laddr paddr s = .ok (d, s1)) :
    ∃ free', HvInv env (hypervisorMapping env s1 d) free'
      (update chain (hash laddr) (d :: chain (hash laddr))) := by
  obtain ⟨hfree, lp, -, rfl⟩ := takeDir_ok ht
  obtain ⟨free', rfl⟩ : ∃ free', free = d :: free' := by
    have hfreed := hi.freed
    rw [hfree] at hfreed
    obtain ⟨free', hf, -⟩ := hfreed.uncons
    exact ⟨free', hf⟩
  have hlists : DirLists (enter (s.takenDir d laddr lp) d) free'
      (update chain (hash laddr) (d :: chain (hash laddr))) := hi.toDirLists.take hfree
  have hdir : (hypervisorMapping env (enter (s.takenDir d laddr lp) d) d).dir =
      update (enter (s.takenDir d laddr lp) d).dir d
        { (enter (s.takenDir d laddr lp) d).dir d with
          hv := fun pdi => if nrLparPgtabs ≤ pdi ∧ pdi < nrMmuPtes then env.hvPgd pdi
            else ((enter (s.takenDir d laddr lp) d).dir d).hv pdi } := rfl
  refine ⟨free', ⟨hlists.freed, hlists.chained, hlists.free_nodup, hlists.nodup, hlists.disjoint,
    fun h x hx => ?_⟩, fun h x hx pdi hle hlt => ?_, hi.linked, hi.tabs⟩
  · rw [hdir, update_apply]
    split_ifs with hne
    · subst hne
      exact hlists.hashed h x hx
    · exact hlists.hashed h x hx
  · rw [hdir]
    rcases eq_or_ne x d with rfl | hne
    · rw [update_self]
      exact if_pos ⟨hle, hlt⟩
    have hmem : x ∈ chain h := by
      rw [update_apply] at hx
      split_ifs at hx with hh
      · subst hh
        exact (List.mem_cons.1 hx).resolve_left hne
      · exact hx
    have hold : (enter (s.takenDir d laddr lp) d).dir x = s.dir x := by
      change update s.dir d _ x = s.dir x
      rw [update_of_ne hne]
    rw [update_of_ne hne, hold]
    exact hi.mapped h x hmem pdi hle hlt

/-! ### What a call keeps -/

/-- Entries are stored below the hypervisor's slots. -/
def lowSlots : Rules where
  entry _ := True
  slot i := i < nrLparPgtabs
  zero := trivial
  dirty _ _ := trivial
  low _ h := h

/-- The invariant, and the directories that are held by the thread are in the hash table. -/
def HvState (env : Env) (s : Shadow) : Prop :=
  ∃ free chain, HvInv env s free chain ∧ (∃ h, s.pgd ∈ chain h) ∧
    ∀ d, s.flushed = some d → ∃ h, d ∈ chain h

theorem HvState.congr (hs : HvState env s) (hdirs : s'.dirs = s.dirs) (htabs : s'.tabs = s.tabs)
    (hhtab : s'.htab = s.htab) (hpgd : s'.pgd = s.pgd) (hfl : s'.flushed = s.flushed) :
    HvState env s' := by
  obtain ⟨free, chain, hi, hact, hflushed⟩ := hs
  refine ⟨free, chain, hi.congr hdirs htabs hhtab, ?_, ?_⟩
  · rwa [hpgd]
  · rwa [hfl]

theorem HvState.quiet (hs : HvState env s) (hq : Quiet env s s') : HvState env s' := by
  obtain ⟨free, chain, hi, hpgd, hfl⟩ := hs
  obtain ⟨hk, hsame, -⟩ := hq.kept
  refine ⟨free, chain, hi.quiet hq, ?_, ?_⟩
  · rwa [hk.pgd]
  · rwa [hsame]

theorem HvState.freePgdir {free : List DirId} {chain : Nat → List DirId}
    (hi : HvInv env s free chain) (hd : d ∈ chain h) (hx : freePgdir s d = .ok s') {x : DirId}
    (hne : x ≠ d) (hmem : ∃ h, x ∈ chain h) :
    HvInv env s' (d :: free) (without chain h d) ∧ ∃ h', x ∈ without chain h d h' := by
  obtain ⟨h', hx'⟩ := hmem
  exact ⟨hi.freePgdir hd hx, h', (hi.mem_without hd).2 ⟨hx', hne⟩⟩

theorem HvState.write (hs : HvState env s) (hw : Write env lowSlots s s') : HvState env s' := by
  cases hw with
  | tab t i he => exact hs.quiet (.tab t i _)
  | dir d he hlt hR => exact hs.quiet (.dir d _ hlt)
  | graft d ht hlt he => exact hs.quiet (.graft d _ ht hlt)
  | prune hx => exact hs.quiet (.prune hx)
  | @victim _ d hv hne hfl hx =>
    obtain ⟨free, chain, hi, hpgd, hflushed⟩ := hs
    obtain ⟨h, hd⟩ := hi.findVictim_mem hv
    have hf := freePgdir_frame hx
    refine ⟨_, _, hi.freePgdir hd hx, ?_, fun x hx' => ?_⟩
    · rw [hf.pgd]
      exact (HvState.freePgdir hi hd hx hne.symm hpgd).2
    · rw [hf.flushed] at hx'
      have hxd : x ≠ d := fun heq => hfl (heq ▸ hx')
      exact (HvState.freePgdir hi hd hx hxd (hflushed x hx')).2
  | @flushed s1 d hd hne hx =>
    obtain ⟨free, chain, hi, hpgd, hflushed⟩ := hs
    obtain ⟨h, hmem⟩ := hflushed d hd
    have hf := freePgdir_frame hx
    refine ⟨_, _, (hi.freePgdir hmem hx).congr rfl rfl rfl, ?_, nofun⟩
    rw [hf.pgd]
    exact (HvState.freePgdir hi hmem hx hne.symm hpgd).2
  | mark p i | callback cb | address hlt => exact hs.congr rfl rfl rfl rfl rfl

theorem HvState.writes (hs : HvState env s) (hw : Writes env lowSlots s s') : HvState env s' := by
  induction hw with
  | refl => exact hs
  | tail _ hw ih => exact ih.write hw

end

end Rhype.Pgcache
