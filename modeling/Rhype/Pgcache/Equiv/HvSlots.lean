import Rhype.Pgcache.Equiv.Room

/-!
# The hypervisor's slots of the shadow directories

The slots from `NR_LPAR_PGTABS` on map the hypervisor, in every directory that the processor may be
given.  Three ways lead out of this.

* A fault of the partition in the area of the hypervisor is forwarded to the partition, and the
  callback then stores the entry of the partition's directory in a slot of the hypervisor.
* `h_page_dir` frees the directory that was flushed before, even when it is the active one.
* While `h_page_dir` prefetches a directory that is not active yet, `pgc_garbage_collect` may free
  that directory, which is activated then.
-/

namespace Rhype.Pgcache

open Function Ia32 List Relation

/-! ### `h_page_dir` -/

/-- The invariant, where a directory of the hash table is about to be activated. -/
def HvHold (env : Env) (s : Shadow) (d : DirId) : Prop :=
  ∃ free chain, HvInv env s free chain ∧ (∃ h, s.pgd ∈ chain h) ∧
    (∀ d, s.flushed = some d → ∃ h, d ∈ chain h) ∧ ∃ h, d ∈ chain h

/-- What the hypervisor's slots need of an event. -/
def HvOk (env : Env) (s : Shadow) : Event → Prop
  | .fault _ _ cr2 => cr2 < hvVbase
  | .pageDir flags laddr =>
    (∀ d, lookup s laddr = .ok (some d) →
      (test flags hPageDirPrefetch = true → test flags hPageDirActivate = true → d ≠ s.pgd →
        tableSlots s (s.dir d).lp (range nrLparPgtabs) ≤ s.tabs.freecount.toNat) ∧
      (test flags hPageDirPrefetch = false → test flags hPageDirFlush = true →
        s.flushed = some s.pgd → d = s.pgd)) ∧
    (lookup s laddr = .ok none → test flags hPageDirActivate = true →
      ∀ p, ReadPage env s laddr p →
        tableSlots s p (range nrLparPgtabs) ≤ s.tabs.freecount.toNat)
  | _ => True

section

variable {env : Env} {s s' u : Shadow} {d : DirId} {flags laddr : Word} {ev : Event} {n : Nat}

theorem HvHold.state (hh : HvHold env s d) : HvState env s := by
  obtain ⟨free, chain, hi, hpgd, hfl, -⟩ := hh
  exact ⟨free, chain, hi, hpgd, hfl⟩

theorem HvState.active (hs : HvState env s) : HvHold env s s.pgd := by
  obtain ⟨free, chain, hi, hpgd, hfl⟩ := hs
  exact ⟨free, chain, hi, hpgd, hfl, hpgd⟩

theorem HvState.found (hs : HvState env s) (hx : lookup s laddr = .ok (some d)) :
    HvHold env s d := by
  obtain ⟨free, chain, hi, hpgd, hfl⟩ := hs
  exact ⟨free, chain, hi, hpgd, hfl, _, hi.lookup_mem hx⟩

theorem HvState.room (hs : HvState env s) (hn : n ≤ s.tabs.freecount.toNat) : Room s n := by
  obtain ⟨free, chain, hi, -, -⟩ := hs
  obtain ⟨l, hl⟩ := hi.tabs
  exact ⟨l, hl, hl.count ▸ hn⟩

theorem HvHold.calm (hh : HvHold env s d) (hc : Calm env s s') : HvHold env s' d := by
  obtain ⟨free, chain, hi, hpgd, hfl, hd⟩ := hh
  refine ⟨free, chain, hi.calm hc, ?_, ?_, hd⟩
  · rwa [hc.pgd]
  · rwa [hc.flushed]

theorem HvHold.activate (hh : HvHold env s d) : HvState env (activate env s d) := by
  obtain ⟨free, chain, hi, -, hfl, hd⟩ := hh
  have hset := @SameDirs.setDir s d { s.dir d with last := s.ticks.setWidth 32 } rfl
    fun _ _ => rfl
  refine ⟨free, chain, ?_, hd, hfl⟩
  exact hi.same ⟨hset.next, hset.freelist, hset.htab, hset.lpLaddr, hset.high⟩ hi.linked hi.tabs

theorem HvHold.finish (hh : HvHold env u d)
    (hx : Except.ok (if test flags hPageDirActivate then Pgcache.activate env u d else u) =
      Except.ok (ε := Fault) s') : HvState env s' := by
  cases hx
  split_ifs
  · exact hh.activate
  · exact hh.state

theorem HvHold.flush (hh : HvHold env s d) : HvHold env { s with flushed := some d } d := by
  obtain ⟨free, chain, hi, hpgd, -, hd⟩ := hh
  refine ⟨free, chain, hi.congr rfl rfl rfl, hpgd, fun x hx => ?_, hd⟩
  cases hx
  exact hd

theorem HvHold.free {f : DirId} (hh : HvHold env s d) (hf : s.flushed = some f) (hne : f ≠ d)
    (hpgd : f ≠ s.pgd) (hx : freePgdir s f = .ok u) :
    HvHold env { u with flushed := some d } d := by
  obtain ⟨free, chain, hi, hact, hfl, hd⟩ := hh
  obtain ⟨h, hmem⟩ := hfl f hf
  have hheld := HvState.freePgdir hi hmem hx hne.symm hd
  refine ⟨_, _, hheld.1.congr rfl rfl rfl, ?_, fun x hx' => ?_, hheld.2⟩
  · rw [(freePgdir_frame hx).pgd]
    exact (HvState.freePgdir hi hmem hx hpgd.symm hact).2
  · cases hx'
    exact hheld.2

theorem cleanPage_lowSlots (s : Shadow) (p : LpPage) : CleanPage lowSlots s p :=
  fun _ _ => trivial

/-- A prefetch leads to a state in which the directory can be activated, if it will be. -/
theorem HvHold.prefetch (hh : HvHold env s d)
    (hroom : test flags hPageDirActivate = true → d ≠ s.pgd →
      Room s (tableSlots s (s.dir d).lp (range nrLparPgtabs)))
    (hfetch : prefetchPgdir env s d = .ok u)
    (hx : Except.ok (if test flags hPageDirActivate then Pgcache.activate env u d else u) =
      Except.ok (ε := Fault) s') : HvState env s' := by
  have hw : Writes env lowSlots s u := prefetchPgdir_writes (cleanPage_lowSlots s _) hfetch
  have hu : HvState env u := hh.state.writes hw
  by_cases hact : test flags hPageDirActivate = true
  · refine HvHold.finish ?_ hx
    by_cases hd : d = s.pgd
    · rw [hd, ← hw.kept.pgd]
      exact hu.active
    · exact hh.calm (prefetch_calm (fun i hi => mem_range.1 hi) s (hroom hact hd) hfetch)
  · rw [if_neg hact] at hx
    cases hx
    exact hu

theorem switchDir_hvState (hh : HvHold env s d)
    (hroom : test flags hPageDirPrefetch = true → test flags hPageDirActivate = true → d ≠ s.pgd →
      Room s (tableSlots s (s.dir d).lp (range nrLparPgtabs)))
    (hflush : test flags hPageDirPrefetch = false → test flags hPageDirFlush = true →
      s.flushed = some s.pgd → d = s.pgd)
    (hx : switchDir env flags d s = .ok s') : HvState env s' := by
  rcases ite_eq_iff.1 hx with ⟨hp, hx⟩ | ⟨hp, hx⟩
  · obtain ⟨u, hfetch, hx⟩ := of_seq hx
    exact hh.prefetch (hroom hp) hfetch hx
  rcases ite_eq_iff.1 hx with ⟨hf, hx⟩ | ⟨-, hx⟩
  · split at hx
    · exact hh.flush.finish hx
    · next f hflushed =>
      rcases ite_eq_iff.1 hx with ⟨-, hx⟩ | ⟨hne, hx⟩
      · exact hh.finish hx
      obtain ⟨u, hfree, hx⟩ := of_seq hx
      have hpgd : f ≠ s.pgd := by
        rintro rfl
        exact hne (hflush (Bool.eq_false_iff.2 hp) hf hflushed).symm
      exact (hh.free hflushed hne hpgd hfree).finish hx
  · exact hh.finish hx

theorem HvState.newDir {page : Option Word} (hs : HvState env s)
    (htake : takeDir laddr page s = .ok (d, u)) : HvHold env (hypervisorMapping env u d) d := by
  obtain ⟨free, chain, hi, ⟨h, hpgd⟩, hfl⟩ := hs
  have hmono : ∀ h x, x ∈ chain h →
      x ∈ update chain (hash laddr) (d :: chain (hash laddr)) h := by
    intro h x hx
    rw [update_apply]
    split_ifs with hne
    · subst hne
      exact mem_cons_of_mem d hx
    · assumption
  obtain ⟨free', hnew⟩ := hi.newDir htake
  obtain ⟨-, lp, -, rfl⟩ := takeDir_ok htake
  refine ⟨free', _, hnew, ⟨h, hmono h _ hpgd⟩, fun x hx => ?_, hash laddr, ?_⟩
  · obtain ⟨h', hx'⟩ := hfl x hx
    exact ⟨h', hmono h' x hx'⟩
  · rw [update_self]
    exact mem_cons_self

theorem hPageDir_hvState {ret : Sval} (hs : HvState env s) (hok : HvOk env s (.pageDir flags laddr))
    (hx : hPageDir env s flags laddr = .ok (ret, s')) : HvState env s' := by
  cases hPageDir_cases hx with
  | activate d hfound heq =>
    rw [heq]
    exact (hs.found hfound).activate
  | switch d hfound hswitch =>
    obtain ⟨hroom, hflush⟩ := hok.1 d hfound
    exact switchDir_hvState (hs.found hfound) (fun hp ha hne => hs.room (hroom hp ha hne)) hflush
      hswitch
  | refuse heq =>
    rwa [heq]
  | create d page s1 s2 hfound hpage hroom htake hswitch =>
    have hw : Writes env lowSlots s s1 := makeRoom_writes hroom
    have hread := ReadPage.newDir hpage hfound hw.kept.lp htake
    have hp : test (flags ||| hPageDirPrefetch) hPageDirPrefetch = true := by
      rw [test_or, show test hPageDirPrefetch hPageDirPrefetch = true by decide, Bool.or_true]
    have ha : test (flags ||| hPageDirPrefetch) hPageDirActivate =
        test flags hPageDirActivate := by
      rw [test_or, show test hPageDirPrefetch hPageDirActivate = false by decide, Bool.or_false]
    have hh : HvHold env (hypervisorMapping env s2 d) d := (hs.writes hw).newDir htake
    refine switchDir_hvState hh (fun _ hact hne => ?_) (fun hnp => ?_) hswitch
    · rw [ha] at hact
      have hold := hok.2 hfound hact _ hread
      obtain ⟨hr, hmem⟩ := makeRoom_room (hs.room hold) hroom
      obtain ⟨-, lp, -, rfl⟩ := takeDir_ok htake
      unfold tableSlots at hr ⊢
      rwa [← hmem] at hr
    · rw [hp] at hnp
      cases hnp

/-! ### Runs -/

theorem allowed_lowSlots (hok : HvOk env s ev) : Allowed env lowSlots s ev := by
  have hclean : ∀ p, CleanPage lowSlots s p := cleanPage_lowSlots s
  cases ev with
  | guest mem | tick | getPte flags vaddr => trivial
  | fault r error cr2 => exact ⟨pdiOf_of_low hok, hclean _, fun _ => ⟨trivial, trivial⟩⟩
  | deliver r except | iret r => exact ⟨hclean _, fun _ => ⟨trivial, trivial⟩⟩
  | pageDir flags laddr => exact fun p _ => hclean p
  | flushTlb flags vaddr => exact ⟨hclean _, fun _ _ _ _ => trivial⟩

theorem HvState.step (hs : HvState env s) (hslot : pdiOf s.regCr2 < nrLparPgtabs)
    (hok : HvOk env s ev) (hx : step env s ev = .ok s') : HvState env s' := by
  obtain ⟨mem, ticks, rfl⟩ | hw | ⟨flags, laddr, ret, rfl, hcall⟩ :=
    step_ok (R := lowSlots) hslot (allowed_lowSlots hok) hx
  · exact hs.congr rfl rfl rfl rfl rfl
  · exact hs.writes hw
  · exact hPageDir_hvState hs hok hcall

theorem initPool_chained {α : Type} {frame : Nat → α} (m : Nat) : ∀ k, k + m + 1 = n →
    Chained (initPool n frame).next (some k) (range' k (m + 1)) := by
  induction m with
  | zero =>
    intro k hk
    refine .cons ?_
    rw [show (initPool n frame).next k = none from if_neg (by omega)]
    exact .nil
  | succ m ih =>
    intro k hk
    refine .cons ?_
    rw [show (initPool n frame).next k = some (k + 1) from if_pos (by omega)]
    exact ih (k + 1) (by omega)

theorem hvInv_init (env : Env) (ticks : BitVec 64) (mem : Word → Nat → Word) :
    HvInv env (pgcInit ticks mem) (range' 0 nrDirFrames) fun _ => [] where
  freed := initPool_chained 101 0 rfl
  chained := fun _ => .nil
  free_nodup := nodup_range'
  nodup := fun _ => nodup_nil
  disjoint := nofun
  hashed := nofun
  mapped := nofun
  linked := nofun
  tabs := by
    refine ⟨.range' 0 (409 + 1), ⟨?_, ?_, ?_⟩, initPool_chained 409 0 rfl, nodup_range',
      fun _ _ => rfl, ?_⟩
    · rintro t ⟨⟩
      decide
    · intro t t' ht
      simp only [pgcInit, initPool] at ht
      split_ifs at ht with hlt
      cases ht
      exact hlt
    · rintro t d ⟨⟩
    · rw [length_range']
      rfl

theorem hvState_start {ticks : BitVec 64} {mem : Word → Nat → Word}
    (hx : initThread env ticks mem = .ok s) : HvState env s := by
  obtain ⟨s1, s2, htake, hmap, rfl⟩ := initThread_ok hx
  obtain ⟨free, hnew⟩ := (hvInv_init env ticks mem).newDir htake
  obtain ⟨-, lp, -, rfl⟩ := takeDir_ok htake
  have hfirst : HvState env (hypervisorMapping env
      (enter ((pgcInit ticks mem).takenDir 0 invalidPhysicalAddress lp) 0) 0) := by
    refine ⟨free, _, hnew, ⟨hash invalidPhysicalAddress, ?_⟩, nofun⟩
    exact mem_cons_self
  have hslots : HvState env s2 := by
    refine Run.foldlM_invariant (P := HvState env) (fun u i u' hi hu hstep => ?_) hmap hfirst
    obtain ⟨v, -, rfl⟩ := setPte_ok (initialSlot_ok hstep)
    exact hu.quiet (.dir _ v ((mem_range.1 hi).trans (by decide)))
  exact hslots.congr rfl rfl rfl rfl rfl

end

/-- The directory is active, or `pgc_lookup` may find it. -/
def InUse (s : Shadow) (d : DirId) : Prop :=
  d = s.pgd ∨ ∃ h l, Chained s.dirs.next (s.htab h) l ∧ d ∈ l

/-- **The hypervisor's slots of every directory in use are those of the hypervisor's directory**, in
every state of a run in which no fault is reported in the area of the hypervisor, `h_page_dir` does
not flush another directory while the active one is the one that was flushed, and no directory is
activated whose prefetch needs more page tables than are free. -/
theorem hvSlots_kept {env : Env} {ticks : BitVec 64} {mem : Word → Nat → Word} {s0 s : Shadow}
    {evs : List Event} (hstart : initThread env ticks mem = .ok s0)
    (hrun : Run (step env) (HvOk env) s0 evs s) (d : DirId) (hd : InUse s d) (pdi : Nat)
    (hle : nrLparPgtabs ≤ pdi) (hlt : pdi < nrMmuPtes) : (s.dir d).hv pdi = env.hvPgd pdi := by
  have hslot0 : lowSlots.slot (pdiOf s0.regCr2) := by
    have hzero : lowSlots.slot (pdiOf (pgcInit ticks mem).regCr2) :=
      lowSlots.low (pdiOf 0) (by decide)
    exact Changes.slot hzero (initThread_changes (fun _ _ => trivial) hstart)
  have hstep : ∀ u ev u', HvState env u ∧ lowSlots.slot (pdiOf u.regCr2) → HvOk env u ev →
      step env u ev = .ok u' → HvState env u' ∧ lowSlots.slot (pdiOf u'.regCr2) :=
    fun u ev u' hu hok hx => ⟨hu.1.step hu.2 hok hx,
      Changes.slot hu.2 (step_changes hu.2 (allowed_lowSlots hok) hx)⟩
  have hinv := Run.invariant hstep hrun ⟨hvState_start hstart, hslot0⟩
  obtain ⟨⟨free, chain, hi, ⟨h, hpgd⟩, -⟩, -⟩ := hinv
  rcases hd with rfl | ⟨h', l, hl, hmem⟩
  · exact hi.mapped h _ hpgd pdi hle hlt
  · rw [hl.unique (hi.chained h')] at hmem
    exact hi.mapped h' d hmem pdi hle hlt

theorem hvSlots_kept_small : (smallDir.dir 1).hv 1008 = smallEnv.hvPgd 1008 := by
  have hok : HvOk smallEnv smallStart (.pageDir hPageDirActivate 0x5000) := by
    have hmem : ∀ p i, smallStart.mem p i = 0 := by
      intro p i
      cases p <;> rfl
    have hzero : ∀ p, tableSlots smallStart p (.range nrLparPgtabs) = 0 := by
      intro p
      rw [tableSlots, length_eq_zero_iff, filter_eq_nil_iff]
      intro i _
      rw [hmem]
      decide
    refine ⟨fun d hd => ?_, fun _ _ p hp => ?_⟩
    · cases hd
    · rw [hzero]
      exact Nat.zero_le _
  exact hvSlots_kept smallStart_ok (.cons hok smallDir_ok (.nil _)) 1 (.inl rfl) 1008
    (by decide) (by decide)

/-- A fault in the area of the hypervisor is forwarded, and the callback stores the entry of the
partition's directory. -/
theorem hvSlots_overwritten :
    ¬ ∀ (env : Env) (ticks : BitVec 64) (mem : Word → Nat → Word) (s0 s : Shadow)
      (evs : List Event), initThread env ticks mem = .ok s0 →
      Run (step env) (fun _ _ => True) s0 evs s → ∀ d, InUse s d → ∀ pdi, nrLparPgtabs ≤ pdi →
      pdi < nrMmuPtes → (s.dir d).hv pdi = env.hvPgd pdi := by
  intro hall
  obtain ⟨s, hrun, hpgd, hslot⟩ : ∃ s, Run (step smallEnv) (fun _ _ => True) smallDir
      [.guest fun paddr i => if paddr ≠ 0x10005000 then 0 else
          if i = 0 then 0xE7 else if i = 1008 then 0x4000E7 else 0,
        .fault ⟨0x23, 0x2b, 0x2000, 0x2a, 0x2000⟩ 4 0x1000,
        .fault ⟨0x23, 0x2b, 0x2000, 0x2a, 0x2000⟩ 5 0xFC000000,
        .iret ⟨0x22, 0x2a, 0x2000, 0x2a, 0x2000⟩] s ∧ s.pgd = 1 ∧
      (s.dir 1).hv 1008 = 0x104000E7 :=
    ⟨_, .cons trivial rfl (.cons trivial rfl (.cons trivial rfl (.cons trivial rfl (.nil _)))),
      rfl, rfl⟩
  have hwhole : Run (step smallEnv) (fun _ _ => True) smallStart _ s :=
    .cons trivial smallDir_ok hrun
  have hkept := hall _ _ _ _ _ _ smallStart_ok hwhole 1 (.inl hpgd.symm) 1008 (by decide)
    (by decide)
  rw [hslot] at hkept
  cases hkept

end Rhype.Pgcache
