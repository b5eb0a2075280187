import Rhype.Chain.Basic
import Rhype.Pgcache.Equiv.Frames
import Rhype.Walk.Basic

/-!
# The lists of the page cache

The directories are in the free list or in the chain of the hash table for their address
(`DirLists`), and the page tables that are free are in their free list, which `freecount` counts
(`TabList`).  The lists themselves are not in the state: an invariant names them, so that it can say
which of them an operation changes.
-/

namespace Rhype.Pgcache

open Function Ia32 List Relation

/-- The directories that are free, and those in each chain of the hash table. -/
structure DirLists (s : Shadow) (free : List DirId) (chain : Nat → List DirId) : Prop where
  freed : Chained s.dirs.next s.dirs.freelist free
  chained : ∀ h, Chained s.dirs.next (s.htab h) (chain h)
  free_nodup : free.Nodup
  nodup : ∀ h, (chain h).Nodup
  disjoint : ∀ h, ∀ d ∈ free, d ∉ chain h
  hashed : ∀ h, ∀ d ∈ chain h, hash (s.dir d).lpLaddr = h

section

variable {s s' : Shadow} {free l : List DirId} {chain : Nat → List DirId} {d : DirId} {laddr : Word}
  {h : Nat}

/-! ### Searches -/

theorem lookupLoop_mem (fuel : Nat) : ∀ head,
    Chained s.dirs.next head l → lookupLoop s laddr fuel head = .ok (some d) → d ∈ l := by
  induction fuel generalizing l with
  | zero =>
    intro head _ hx
    cases head with
    | none | some a => cases hx
  | succ fuel ih =>
    intro head hl hx
    rcases hl with _ | hl
    · cases hx
    unfold lookupLoop at hx
    split_ifs at hx
    · cases hx
      exact mem_cons_self
    · exact mem_cons_of_mem _ (ih _ hl hx)

theorem DirLists.lookup_mem (hl : DirLists s free chain)
    (hx : lookup s laddr = .ok (some d)) : d ∈ chain (hash laddr) :=
  lookupLoop_mem _ _ (hl.chained _) hx

theorem victimChain_mem {victim : Option DirId} (fuel : Nat) : ∀ head,
    Chained s.dirs.next head l → victimChain s fuel head victim = .ok (some d) →
    d ∈ l ∨ victim = some d := by
  induction fuel generalizing l victim with
  | zero =>
    intro head _ hx
    cases head with
    | none =>
      cases hx
      exact .inr rfl
    | some a => cases hx
  | succ fuel ih =>
    intro head hl hx
    cases hl with
    | nil =>
      cases hx
      exact .inr rfl
    | @cons a l hl =>
      rcases ih _ hl hx with hmem | hsome
      · exact .inl (mem_cons_of_mem a hmem)
      have hd : d = older s victim a := (Option.some.inj hsome).symm
      unfold older at hd
      split at hd
      · exact .inl (hd ▸ mem_cons_self)
      · split_ifs at hd
        · exact .inl (hd ▸ mem_cons_self)
        · exact .inr (congrArg some hd.symm)

theorem DirLists.findVictim_mem (hl : DirLists s free chain)
    (hx : findVictim s = .ok (some d)) : ∃ h, d ∈ chain h := by
  have hall := Run.foldlM_invariant (P := fun victim => ∀ d, victim = some d → ∃ h, d ∈ chain h)
    (fun victim h victim' _ ih hstep d hd => by
      rw [hd] at hstep
      rcases victimChain_mem _ _ (hl.chained h) hstep with hmem | hsome
      · exact ⟨h, hmem⟩
      · exact ih d hsome) hx nofun
  exact hall d rfl

/-! ### Removal from the hash table -/

theorem removeLoop_spec {dirs dirs' : Pool Pgdir} {frame : DirId} (fuel : Nat) : ∀ x l,
    Chained dirs.next (some x) (x :: l) → frame ∈ l →
    removeLoop frame fuel x dirs = .ok dirs' →
    ∃ l1 b l2, x :: l = l1 ++ b :: frame :: l2 ∧ dirs' = dirs.setNext b (dirs.next frame) := by
  induction fuel with
  | zero => exact nofun
  | succ fuel ih =>
    intro x l hl hmem hx
    have hrest : Chained dirs.next (dirs.next x) l := by
      cases hl with
      | cons hl => exact hl
    unfold removeLoop at hx
    rcases hn : dirs.next x with _ | n
    · rw [hn] at hrest
      cases hrest
      cases hmem
    rw [hn] at hx hrest
    obtain ⟨l', rfl, htail⟩ := hrest.uncons
    dsimp only at hx
    split_ifs at hx with heq
    · cases hx
      exact ⟨[], x, l', by rw [heq]; rfl, rfl⟩
    · have hmem' : frame ∈ l' := (mem_cons.1 hmem).resolve_left fun h => heq h.symm
      obtain ⟨l1, b, l2, hsplit, hdirs⟩ := ih n l' (.cons htail) hmem' hx
      exact ⟨x :: l1, b, l2, by rw [hsplit]; rfl, hdirs⟩

theorem remove_spec (hl : DirLists s free chain) (hd : d ∈ chain h) (hx : remove s d = .ok s') :
    Chained s'.dirs.next (s'.htab h) ((chain h).erase d) ∧
      (∀ h' ≠ h, s'.htab h' = s.htab h') ∧ ∀ x ∉ chain h, s'.dirs.next x = s.dirs.next x := by
  have hhash := hl.hashed h d hd
  have hc := hl.chained h
  have hnd := hl.nodup h
  unfold remove at hx
  dsimp only at hx
  rw [hhash] at hx
  rcases hhead : s.htab h with _ | x
  · rw [hhead] at hx
    cases hx
  rw [hhead] at hx hc
  obtain ⟨l, hl', htail⟩ := hc.uncons
  rw [hl'] at hc hd hnd ⊢
  dsimp only at hx
  split_ifs at hx with heq
  · -- the first of the chain
    cases hx
    rw [heq, erase_cons_head]
    dsimp only
    rw [update_self, ← heq]
    exact ⟨htail, fun h' hne => update_of_ne hne _ _, fun _ _ => rfl⟩
  obtain ⟨dirs, hloop, hx⟩ := of_seq hx
  cases hx
  have hmem : d ∈ l := (mem_cons.1 hd).resolve_left fun h => heq h.symm
  obtain ⟨l1, b, l2, hsplit, rfl⟩ := removeLoop_spec _ x l hc hmem hloop
  rw [hsplit] at hc hnd ⊢
  have herase : (l1 ++ b :: d :: l2).erase d = l1 ++ b :: l2 := by
    have hb : d ∉ l1 ++ [b] := by
      intro hdb
      have hnd' : ((l1 ++ [b]) ++ d :: l2).Nodup := by simpa using hnd
      exact disjoint_of_nodup_append hnd' hdb mem_cons_self
    have hassoc : l1 ++ b :: d :: l2 = (l1 ++ [b]) ++ d :: l2 := by simp
    rw [hassoc, erase_append_right _ hb]
    simp
  rw [herase]
  refine ⟨?_, fun _ _ => rfl, fun y hy => ?_⟩
  · rw [hhead]
    exact hc.unlink hnd
  · have hne : y ≠ b := by
      rintro rfl
      exact hy (by simp)
    exact update_of_ne hne _ _

/-- The chains after a directory was taken out of the hash table. -/
def without (chain : Nat → List DirId) (h : Nat) (d : DirId) : Nat → List DirId :=
  update chain h ((chain h).erase d)

theorem DirLists.mem_without (hl : DirLists s free chain) {h' : Nat} (hd : d ∈ chain h)
    {x : DirId} : x ∈ without chain h d h' ↔ x ∈ chain h' ∧ x ≠ d := by
  rw [without, update_apply]
  split_ifs with hne
  · subst hne
    rw [(hl.nodup h').mem_erase_iff, and_comm]
  · refine ⟨fun hx => ⟨hx, ?_⟩, fun hx => hx.1⟩
    rintro rfl
    exact hne ((hl.hashed h' x hx).symm.trans (hl.hashed h x hd))

theorem DirLists.remove (hl : DirLists s free chain) (hd : d ∈ chain h) (hx : remove s d = .ok s') :
    DirLists { s' with dirs := s'.dirs.enqueue d } (d :: free) (without chain h d) := by
  obtain ⟨hchain, hother, hnext⟩ := remove_spec hl hd hx
  have hsame : s'.dir = s.dir := by
    rw [remove_ok hx]
    rfl
  have hlist : s'.dirs.freelist = s.dirs.freelist := by
    rw [remove_ok hx]
  have hdfree : d ∉ free := fun hmem => hl.disjoint h d hmem hd
  have hfree : Chained s'.dirs.next s'.dirs.freelist free := by
    rw [hlist]
    exact hl.freed.congr fun x hx => hnext x (hl.disjoint h x hx)
  have hchains : ∀ h', Chained s'.dirs.next (s'.htab h') (without chain h d h') := by
    intro h'
    rw [without, update_apply]
    split_ifs with hne
    · subst hne
      exact hchain
    · rw [hother h' hne]
      refine (hl.chained h').congr fun x hx => hnext x fun hmem => ?_
      exact hne ((hl.hashed h' x hx).symm.trans (hl.hashed h x hmem))
  refine ⟨hfree.push hdfree, fun h' => ?_, ?_, fun h' => ?_, fun h' x hx hmem => ?_, ?_⟩
  · exact (hchains h').update (fun hmem => ((hl.mem_without hd).1 hmem).2 rfl) _
  · exact nodup_cons.2 ⟨hdfree, hl.free_nodup⟩
  · rw [without, update_apply]
    split_ifs with hne
    · subst hne
      exact (hl.nodup h').erase d
    · exact hl.nodup h'
  · obtain ⟨hmem, hne⟩ := (hl.mem_without hd).1 hmem
    exact hl.disjoint h' x ((mem_cons.1 hx).resolve_left hne) hmem
  · intro h' x hmem
    change hash (s'.dir x).lpLaddr = h'
    rw [hsame]
    exact hl.hashed h' x ((hl.mem_without hd).1 hmem).1

theorem DirLists.take {lp : LpPage} (hl : DirLists s (d :: free) chain)
    (hfree : s.dirs.freelist = some d) :
    DirLists (enter (s.takenDir d laddr lp) d) free
      (update chain (hash laddr) (d :: chain (hash laddr))) := by
  have hd : ∀ h, d ∉ chain h := fun h => hl.disjoint h d mem_cons_self
  have hnd := nodup_cons.1 hl.free_nodup
  have hrest : Chained s.dirs.next (s.dirs.next d) free := by
    have hfreed := hl.freed
    rw [hfree] at hfreed
    cases hfreed with
    | cons h => exact h
  have hladdr : ((s.takenDir d laddr lp).dir d).lpLaddr = laddr := by
    simp [Shadow.takenDir, Shadow.dir]
  have hdir : (enter (s.takenDir d laddr lp) d).dir = update s.dir d
      { s.dir d with
        lpLaddr := laddr, lp := lp, hv := fun _ => 0, last := s.ticks.setWidth 32 } := rfl
  have hhtab : (enter (s.takenDir d laddr lp) d).htab =
      update s.htab (hash laddr) (some d) := by
    rw [enter, hladdr]
    rfl
  have hnext : (enter (s.takenDir d laddr lp) d).dirs.next =
      update s.dirs.next d (s.htab (hash laddr)) := by
    rw [enter, hladdr]
    rfl
  refine ⟨?_, fun h => ?_, hnd.2, fun h => ?_, fun h x hx hmem => ?_, fun h x hmem => ?_⟩
  · exact hrest.update hnd.1 _
  · rw [hnext, hhtab, update_apply]
    split_ifs with hne
    · subst hne
      rw [update_self]
      exact (hl.chained _).push (hd _)
    · rw [update_of_ne hne]
      exact (hl.chained h).update (hd h) _
  · rw [update_apply]
    split_ifs with hne
    · exact nodup_cons.2 ⟨hd _, hl.nodup _⟩
    · exact hl.nodup h
  · have hxd : x ≠ d := fun heq => hnd.1 (heq ▸ hx)
    have hout := hl.disjoint h x (mem_cons_of_mem d hx)
    rw [update_apply] at hmem
    split_ifs at hmem with hne
    · subst hne
      exact hout ((mem_cons.1 hmem).resolve_left hxd)
    · exact hout hmem
  · rw [hdir, update_apply]
    split_ifs with hxd
    · subst hxd
      rcases eq_or_ne h (hash laddr) with rfl | hne
      · rfl
      · rw [update_of_ne hne] at hmem
        exact absurd hmem (hd h)
    rw [update_apply] at hmem
    split_ifs at hmem with hne
    · subst hne
      exact hl.hashed _ x ((mem_cons.1 hmem).resolve_left hxd)
    · exact hl.hashed h x hmem

end

/-! ### The page tables that are free -/

/-- The free list of the page tables, with its length. -/
structure TabList (p : Pool Pgtab) (l : List TabId) : Prop extends TabsBounded p where
  freed : Chained p.next p.freelist l
  nodup : l.Nodup
  unused : ∀ t ∈ l, (p.frame t).pgd = none
  count : p.freecount.toNat = l.length

section

variable {p : Pool Pgtab} {l : List TabId} {t : TabId} {f : Pgtab}

section

variable (hl : TabList p l)
include hl

theorem TabList.lt (ht : t ∈ l) : t < nrTabFrames := by
  have hall : ∀ head l', Chained p.next head l' → (∀ x, head = some x → x < nrTabFrames) →
      ∀ x ∈ l', x < nrTabFrames := by
    intro head l' hc
    induction hc with
    | nil => exact nofun
    | @cons a l' _ ih =>
      intro hhead x hx
      rcases mem_cons.1 hx with rfl | hx
      · exact hhead x rfl
      · exact ih (fun y hy => hl.next a y hy) x hx
  exact hall _ l hl.freed hl.free t ht

theorem TabList.set (hf : t ∈ l → f.pgd = none)
    (hb : ∀ d, f.pgd = some d → t < nrTabFrames) : TabList (p.set t f) l := by
  refine ⟨hl.toTabsBounded.set hb, hl.freed, hl.nodup, fun x hx => ?_, hl.count⟩
  change (update p.frame t f x).pgd = none
  rw [update_apply]
  split_ifs with hne
  · subst hne
    exact hf hx
  · exact hl.unused x hx

theorem TabList.enqueue (ht : t ∉ l) (hpgd : (p.frame t).pgd = none)
    (hlt : t < nrTabFrames) : TabList (p.enqueue t) (t :: l) := by
  have hnd : (t :: l).Nodup := nodup_cons.2 ⟨ht, hl.nodup⟩
  refine ⟨hl.toTabsBounded.enqueue hlt, hl.freed.push ht, hnd, fun x hx => ?_, ?_⟩
  · rcases mem_cons.1 hx with rfl | hx
    · exact hpgd
    · exact hl.unused x hx
  · have hlen : (t :: l).length ≤ nrTabFrames := by
      refine length_le_of_nodup hnd fun x hx => ?_
      rcases mem_cons.1 hx with rfl | hx
      · exact hlt
      · exact hl.lt hx
    have hcount := hl.count
    have hn : nrTabFrames = 410 := rfl
    rw [length_cons] at hlen ⊢
    change (p.freecount + 1).toNat = l.length + 1
    bv_omega

theorem TabList.dequeue (hfree : p.freelist = some t) :
    ∃ l', l = t :: l' ∧
      TabList { p with freelist := p.next t, freecount := p.freecount - 1 } l' := by
  have hc := hl.freed
  rw [hfree] at hc
  obtain ⟨l', rfl, hrest⟩ := hc.uncons
  refine ⟨l', rfl, ⟨fun x hx => hl.next t x hx, hl.next, hl.used⟩, hrest,
    (nodup_cons.1 hl.nodup).2, fun x hx => hl.unused x (mem_cons_of_mem t hx), ?_⟩
  have hcount := hl.count
  rw [length_cons] at hcount
  bv_omega

end

end

end Rhype.Pgcache
