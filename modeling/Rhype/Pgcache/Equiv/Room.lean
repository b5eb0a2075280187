import Rhype.Pgcache.Equiv.HvInv

/-!
# Prefetches while page tables are left

A prefetch takes a page table for each entry of the partition's directory that points to one, at
most.  As long as there are that many in the free list nothing is collected, and the lists of the
directories stay as they are (`prefetch_calm`).
-/

namespace Rhype.Pgcache

open Ia32 Relation

/-- At least `n` page tables are free. -/
def Room (s : Shadow) (n : Nat) : Prop := ∃ l, TabList s.tabs l ∧ n ≤ l.length

/-- The entries of a directory of the partition that point to page tables, among some slots. -/
def tableSlots (s : Shadow) (p : LpPage) (slots : List Nat) : Nat :=
  (slots.filter fun i => isTable (s.mem p i)).length

section

variable {env : Env} {s s' : Shadow} {d : DirId} {t : TabId} {i n : Nat} {e : Word} {type : PgcType}

theorem Room.mono {m : Nat} (hr : Room s n) (hle : m ≤ n) : Room s m := by
  obtain ⟨l, hl, hn⟩ := hr
  exact ⟨l, hl, hle.trans hn⟩

theorem Room.hasFree (hr : Room s (n + 1)) : s.hasFree .pgtab = true := by
  obtain ⟨l, hl, hn⟩ := hr
  have hc := hl.freed
  unfold Shadow.hasFree
  cases hf : s.tabs.freelist with
  | some t => rfl
  | none =>
    rw [hf] at hc
    cases hc
    exact absurd hn (by simp)

theorem setPte_calm {table : PgTable} {rc : Bool} (hr : Room s n)
    (hi : ∀ d, table = .dir d → i < nrLparPgtabs)
    (hx : setPte env s table i e = .ok (rc, s')) : Calm env s s' ∧ Room s' n := by
  obtain ⟨v, -, rfl⟩ := setPte_ok hx
  obtain ⟨l, hl, hn⟩ := hr
  cases table with
  | dir d => exact ⟨(Calm.refl s).tail (.dir d v (hi d rfl)), l, hl, hn⟩
  | tab t =>
    refine ⟨(Calm.refl s).tail (.tab t i v), l, ?_, hn⟩
    exact hl.set (fun h => hl.unused t h) fun d hd => hl.used t d hd

theorem Calm.trans {s1 : Shadow} (h1 : Calm env s s1) (h2 : Calm env s1 s') : Calm env s s' :=
  ⟨h1.toKept.trans h2.toKept, h1.quiet.trans h2.quiet, h2.flushed.trans h1.flushed,
    h2.mem.trans h1.mem⟩

theorem prefetchPgtab_calm (hr : Room s n) (hx : prefetchPgtab env s t = .ok s') :
    Calm env s s' ∧ Room s' n := by
  refine Run.foldlM_invariant (P := fun u => Calm env s u ∧ Room u n)
    (fun u i u' _ hu hstep => ?_) hx ⟨.refl s, hr⟩
  obtain ⟨⟨rc, u1⟩, hset, hstep⟩ := of_seq hstep
  cases hstep
  obtain ⟨hc, hr⟩ := setPte_calm hu.2 (by intro d h; cases h) hset
  exact ⟨hu.1.trans hc, hr⟩

theorem freePgtab_room (hr : Room s n) (hx : freePgtab s t = .ok s') : Room s' (n + 1) := by
  obtain ⟨l, hl, hn⟩ := hr
  obtain ⟨pgd, hpgd, rfl⟩ := freePgtab_ok hx
  exact ⟨t :: l, hl.prune hpgd, by rw [List.length_cons]; omega⟩

theorem dropTable_calm (hr : Room s n) (hx : dropTable s d i = .ok s') :
    Calm env s s' ∧ Room s' n := by
  unfold dropTable at hx
  split at hx
  · cases hx
    exact ⟨.refl s, hr⟩
  · exact ⟨(Calm.refl s).tail (.prune hx), (freePgtab_room hr hx).mono (Nat.le_succ n)⟩

theorem prefetchNew_calm (hr : Room s (n + 1)) (hi : i < nrLparPgtabs)
    (hx : prefetchNew env d i e s = .ok s') : Calm env s s' ∧ Room s' n := by
  obtain ⟨⟨pgt, s1⟩, hgraft, hx⟩ := of_seq hx
  obtain ⟨⟨pgt', s2⟩, halloc, hgraft⟩ := of_seq hgraft
  obtain ⟨page, -, halloc⟩ := of_seq halloc
  rcases page with _ | paddr
  · cases halloc
    cases hgraft
    obtain ⟨⟨rc, s3⟩, hset, hx⟩ := of_seq hx
    cases hx
    exact setPte_calm (hr.mono (Nat.le_succ n)) (fun _ _ => hi) hset
  obtain ⟨s3, hroom, halloc⟩ := of_seq halloc
  -- the free list is not empty, so nothing is collected
  rw [makeRoom, hr.hasFree] at hroom
  cases hroom
  obtain ⟨⟨t, s4⟩, htake, halloc⟩ := of_seq halloc
  cases halloc
  obtain ⟨s5, hfetch, hgraft⟩ := of_seq hgraft
  cases hgraft
  cases hx
  have hcalm : Calm env s (setPgtab env s2 d i t (pteFlags e)) :=
    (Calm.refl s).tail (.graft d _ htake hi)
  have hroom : Room (setPgtab env s2 d i t (pteFlags e)) n := by
    obtain ⟨l, hl, hn⟩ := hr
    obtain ⟨l', rfl, hl'⟩ := @TabList.graft env s d t l s2 i _ (pteFlags e) _ hl htake
    exact ⟨l', hl', by simpa using hn⟩
  obtain ⟨hc, hr'⟩ := prefetchPgtab_calm hroom hfetch
  exact ⟨hcalm.trans hc, hr'⟩

theorem prefetchSlot_calm (hi : i < nrLparPgtabs)
    (hr : Room s (if isTable (s.lpDir d i) then n + 1 else n))
    (hx : prefetchSlot env d s i = .ok s') : Calm env s s' ∧ Room s' n := by
  have hmono : Room s n := by
    split_ifs at hr
    · exact hr.mono (Nat.le_succ n)
    · exact hr
  have htable : isTable (s.lpDir d i) = true → Room s (n + 1) := by
    intro htable
    rwa [if_pos htable] at hr
  cases prefetchSlot_cases hx with
  | entry e rc s1 _ hdrop hset =>
    obtain ⟨hc1, hr1⟩ := dropTable_calm hmono hdrop
    obtain ⟨hc2, hr2⟩ := setPte_calm hr1 (fun _ _ => hi) hset
    exact ⟨hc1.trans hc2, hr2⟩
  | fetch _ pgt hfetch => exact prefetchPgtab_calm hmono hfetch
  | new ht hnew => exact prefetchNew_calm (htable ht) hi hnew
  | renew _ pgt s1 hfree hnew =>
    obtain ⟨hc, hr'⟩ := prefetchNew_calm (freePgtab_room hmono hfree) hi hnew
    exact ⟨((Calm.refl s).tail (.prune hfree)).trans hc, hr'⟩

/-- **While there are enough free page tables, a prefetch frees no directory.** -/
theorem prefetch_calm {slots : List Nat} (hslots : ∀ i ∈ slots, i < nrLparPgtabs) : ∀ s,
    Room s (tableSlots s (s.dir d).lp slots) → slots.foldlM (prefetchSlot env d) s = .ok s' →
    Calm env s s' := by
  induction slots with
  | nil =>
    rintro s _ ⟨⟩
    exact .refl _
  | cons i slots ih =>
    intro s hr hx
    obtain ⟨s1, hslot, hx⟩ := of_seq hx
    have hcount : tableSlots s (s.dir d).lp (i :: slots) =
        if isTable (s.lpDir d i) then tableSlots s (s.dir d).lp slots + 1
        else tableSlots s (s.dir d).lp slots := by
      unfold tableSlots Shadow.lpDir
      rw [List.filter_cons]
      split_ifs <;> rfl
    rw [hcount] at hr
    obtain ⟨hc, hr1⟩ := prefetchSlot_calm (hslots i List.mem_cons_self) hr hslot
    have hsame : tableSlots s1 (s1.dir d).lp slots = tableSlots s (s.dir d).lp slots := by
      unfold tableSlots
      rw [hc.mem, hc.lp]
    rw [← hsame] at hr1
    exact hc.trans (ih (fun j hj => hslots j (List.mem_cons_of_mem i hj)) s1 hr1 hx)

/-! ### Collections -/

theorem makeRoom_invariant {P : Shadow → Prop}
    (hdir : ∀ u d u', P u → freePgdir u d = .ok u' → P u')
    (htab : ∀ u t u', P u → freePgtab u t = .ok u' → P u')
    (hfl : ∀ u, P u → P { u with flushed := none })
    (hx : makeRoom type s = .ok s') (hs : P s) : P s' := by
  have hloop : ∀ fuel u found u', P u → collectLoop type fuel u = .ok (found, u') → P u' := by
    intro fuel
    induction fuel with
    | zero => exact fun _ _ _ _ hx => absurd hx nofun
    | succ fuel ih =>
      intro u found u' hu hx
      obtain ⟨_ | victim, -, hx⟩ := of_seq hx
      · cases hx
      dsimp only at hx
      split_ifs at hx
      · cases hx
        exact hu
      obtain ⟨u1, hfree, hx⟩ := of_seq hx
      have hu1 := hdir u victim u1 hu hfree
      split_ifs at hx
      · cases hx
        exact hu1
      · exact ih u1 found u' hu1 hx
  have hvictims : ∀ u u', P u → collectVictims type u = .ok u' → P u' := by
    intro u u' hu hx
    obtain ⟨⟨found, u1⟩, hcollect, hx⟩ := of_seq hx
    have hu1 := hloop _ u found u1 hu hcollect
    dsimp only at hx
    split_ifs at hx
    · cases hx
      exact hu1
    obtain ⟨_, -, hx⟩ := of_seq hx
    obtain ⟨u2, hfree, hx⟩ := of_seq hx
    obtain ⟨_, -, hx⟩ := of_seq hx
    cases hx
    exact htab u1 _ _ hu1 hfree
  unfold makeRoom at hx
  split_ifs at hx
  · cases hx
    exact hs
  obtain ⟨_, -, hx⟩ := of_seq hx
  split at hx
  · exact hvictims s s' hs hx
  split_ifs at hx
  · exact hvictims s s' hs hx
  obtain ⟨s1, hfree, hx⟩ := of_seq hx
  have hs1 := hfl s1 (hdir s _ s1 hs hfree)
  dsimp only at hx
  split_ifs at hx
  · cases hx
    exact hs1
  · exact hvictims _ s' hs1 hx

theorem freePgdir_room (hr : Room s n) (hx : freePgdir s d = .ok s') : Room s' n := by
  obtain ⟨s1, s2, hloop, hremove, rfl⟩ := freePgdir_ok hx
  have hslots : Room s1 n := by
    refine Run.foldlM_invariant (P := fun u => Room u n) (fun u pdi u' _ hu hstep => ?_) hloop hr
    rcases freeSlot_ok hstep with rfl | ⟨t, -, hfree⟩
    · exact hu
    · exact (freePgtab_room hu hfree).mono (Nat.le_succ n)
  obtain ⟨l, hl, hn⟩ := hslots
  refine ⟨l, ?_, hn⟩
  rwa [remove_ok hremove]

theorem makeRoom_room (hr : Room s n) (hx : makeRoom type s = .ok s') :
    Room s' n ∧ s'.mem = s.mem := by
  refine makeRoom_invariant (P := fun u => Room u n ∧ u.mem = s.mem) (fun u d u' hu hfree => ?_)
    (fun u t u' hu hfree => ?_) (fun u hu => hu) hx ⟨hr, rfl⟩
  · exact ⟨freePgdir_room hu.1 hfree, (freePgdir_frame hfree).mem.trans hu.2⟩
  · exact ⟨(freePgtab_room hu.1 hfree).mono (Nat.le_succ n), (freePgtab_frame hfree).mem.trans hu.2⟩

end

end Rhype.Pgcache
