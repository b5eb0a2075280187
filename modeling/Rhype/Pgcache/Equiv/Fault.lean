import Rhype.Pgcache.Equiv.Write

/-!
# What page faults and hypercalls write

A fault at an address of the partition stores entries in the slot of that address.  The hypervisor
may fault itself while it forwards a fault, at the address where the exception frame begins
(`stackAddr`), and `getpte` has checked that this address is below the hypervisor.  `Ready` is what
the rules have to allow before a fault; it then holds on every round (`pageFault_writes`).
-/

namespace Rhype.Pgcache

open BitVec Except Ia32 Relation

/-! ### Faults -/

/-- Where the frame of an exception begins on the stack of the partition. -/
def stackAddr (r : Regs) (except : Bool) : Word :=
  (if isUser r.cs then r.esp2 else r.esp) -
    BitVec.ofNat 32 (4 * (3 + (if isUser r.cs then 2 else 0) + if except then 1 else 0))

/-- The registers after a change of the privilege level, if one is required. -/
def Regs.onStack (r : Regs) : Regs :=
  if isUser r.cs then { r with ss := r.ss2, esp := r.esp2 } else r

/-- The directory is the one of the linear mapping at the start. -/
def Shadow.isLinear (s : Shadow) : Prop := (s.dir s.pgd).lpLaddr = invalidPhysicalAddress

/-- The rules allow what a fault at the address can store. -/
structure Ready (R : Rules) (r : Regs) (s : Shadow) (addr : Word) : Prop where
  slot : R.slot (pdiOf addr)
  clean : Clean R s s.pgd
  linear : s.isLinear → R.entry (linearEntry addr) ∧ R.entry (linearEntry (stackAddr r true))

/-- A handler of faults only writes what the rules allow. -/
def Writer (env : Env) (R : Rules) (fault : Handler) : Prop :=
  ∀ r error addr s b r' s', Ready R r s addr → fault r error addr s = .ok (b, r', s') →
    Writes env R s s'

section

variable {env : Env} {R : Rules} {s s' : Shadow} {r r' : Regs} {addr : Word} {fault : Handler}
  {b : Bool}

theorem Kept.isLinear (hk : Kept s s') (hl : s'.isLinear) : s.isLinear := by
  unfold Shadow.isLinear at hl ⊢
  rwa [hk.pgd, hk.lpLaddr] at hl

theorem Clean.active (hc : Clean R s s.pgd) (hw : Writes env R s s') : Clean R s' s'.pgd := by
  rw [hw.kept.pgd]
  exact hc.writes hw

theorem Ready.writes (hr : Ready R r s addr) (hw : Writes env R s s') : Ready R r s' addr :=
  ⟨hr.slot, hr.clean.active hw, fun hl => hr.linear (hw.kept.isLinear hl)⟩

theorem pdiOf_of_low {vaddr : Word} (hlt : vaddr < hvVbase) : pdiOf vaddr < nrLparPgtabs := by
  apply pdiOf_lt_of_lt
  exact hlt

variable {vaddr e : Word} {ret : Sval} {error mask : Word} {prefetch : Bool} {i n : Nat} {t : TabId}

theorem lt_of_getpte {x : Word × Bool} (hx : getpte s vaddr = .ok x) : vaddr < hvVbase := by
  obtain ⟨_, hlt, -⟩ := of_seq hx
  exact of_decide_eq_true (hassert_ok.1 hlt)

theorem not_next_page_le {bottom len size : Word} (hlt : bottom < hvVbase) (hpos : 0 < len.toNat)
    (hlen : len.toNat ≤ 24) (hsize : size = lpgsize ∨ size = pgsize) :
    ¬ bottom + size ≤ bottom + len - 1 := by
  have hbottom : bottom.toNat < 0xFC000000 := hlt
  have hnat : size.toNat = 0x400000 ∨ size.toNat = 0x1000 := by
    rcases hsize with rfl | rfl
    · exact .inl rfl
    · exact .inr rfl
  have hone : (1 : Word).toNat = 1 := rfl
  rw [le_def, toNat_add, toNat_sub, toNat_add]
  omega

/-- Only the first word of an exception frame is looked at: the others are less than a page away. -/
theorem isStackPresent_fault {esp error : Word} (hpos : 0 < n) (hn : n ≤ 6)
    (hx : isStackPresent s esp n mask = .ok (some (error, addr))) :
    addr = esp - BitVec.ofNat 32 (4 * n) ∧ addr < hvVbase := by
  unfold isStackPresent isPresentLoop at hx
  dsimp only at hx
  rcases ite_eq_iff.1 hx with ⟨hle, hx⟩ | ⟨-, hx⟩
  swap
  · cases hx
  obtain ⟨⟨pte, large⟩, hpte, hx⟩ := of_seq hx
  have hlt := lt_of_getpte hpte
  split_ifs at hx with hp hmask hlarge
  · cases hx
    exact ⟨rfl, hlt⟩
  · cases hx
    exact ⟨rfl, hlt⟩
  -- the page of the frame is present, and the loop ends
  all_goals
    rw [isPresentLoop, if_neg (not_next_page_le hlt ?_ ?_ (by simp))] at hx
    · cases hx
    all_goals
      rw [toNat_ofNat]
      omega

theorem onStack_esp (r : Regs) : r.onStack.esp = if isUser r.cs then r.esp2 else r.esp := by
  unfold Regs.onStack
  split_ifs <;> rfl

theorem stackAddr_onStack (r : Regs) (except : Bool) :
    stackAddr r.onStack except = stackAddr r except := by
  unfold stackAddr Regs.onStack
  split_ifs <;> rfl

/-- The first word of a frame of `n` words is looked at before the frame is used, and `fault` is
called if it is not there. -/
theorem stack_writes {α : Type} {f : Bool → Regs → Shadow → α}
    {g : α → Shadow} {x : α} (hf : Writer env R fault) (hc : Clean R s s.pgd) (hpos : 0 < n)
    (hn : n ≤ 6) (hl : s.isLinear → R.entry (linearEntry (r.esp - BitVec.ofNat 32 (4 * n))) ∧
      R.entry (linearEntry (stackAddr r true)))
    (hg : ∀ b r s, g (f b r s) = s)
    (hx : (do
      match ← isStackPresent s r.esp n mask with
      | none => .ok (f false r s)
      | some (error, addr) => do
        let (forwarded, r, s) ← fault r error addr s
        if forwarded then do
          hassert (mask &&& pteUs = 0)
          .ok (f true r s)
        else .ok (f false r s)) = ok x) : Writes env R s (g x) := by
  obtain ⟨_ | found, hfound, hx⟩ := of_seq hx
  · cases hx
    rw [hg]
  obtain ⟨error, addr⟩ := found
  obtain ⟨⟨forwarded, r1, s1⟩, hfault, hx⟩ := of_seq hx
  obtain ⟨haddr, hlow⟩ := isStackPresent_fault hpos hn hfound
  rw [← haddr] at hl
  have hw := hf _ _ _ _ _ _ _ ⟨R.low _ (pdiOf_of_low hlow), hc, hl⟩ hfault
  rcases ite_eq_iff.1 hx with ⟨-, hx⟩ | ⟨-, hx⟩
  · obtain ⟨_, -, hx⟩ := of_seq hx
    cases hx
    rwa [hg]
  · cases hx
    rwa [hg]

theorem pushExceptionState_writes {except : Bool} (hf : Writer env R fault) (hc : Clean R s s.pgd)
    (hl : s.isLinear → R.entry (linearEntry (stackAddr r except)) ∧
      R.entry (linearEntry (stackAddr r true)))
    (hx : pushExceptionState fault r (isUser r.cs) except s = .ok (b, r', s')) :
    Writes env R s s' := by
  refine stack_writes (r := r.onStack) (f := fun b r s => (b, r, s)) (g := fun x => x.2.2) hf hc
    (by omega) (by split_ifs <;> omega) (fun hlin => ?_) (fun _ _ _ => rfl) hx
  rw [stackAddr_onStack, onStack_esp]
  exact hl hlin

section

variable (hf : Writer env R fault) (hr : Ready R r s addr)
include hf hr

theorem forcePageFault_writes
    (hx : forcePageFault fault r addr s = .ok (b, r', s')) : Writes env R s s' := by
  obtain ⟨⟨failed, r1, s1⟩, hpush, hx⟩ := of_seq hx
  have hw := pushExceptionState_writes hf hr.clean
    (fun hl => ⟨(hr.linear hl).2, (hr.linear hl).2⟩) hpush
  dsimp only at hx
  split_ifs at hx
  · cases hx
    exact hw
  · cases hx
    exact hw.tail (.address hr.slot)

theorem forwardFault_writes
    (hx : forwardFault fault r addr s = .ok (b, r', s')) : Writes env R s s' := by
  obtain ⟨⟨failed, r1, s1⟩, hforce, hx⟩ := of_seq hx
  have hw := forcePageFault_writes hf hr hforce
  cases hx
  split_ifs
  · exact hw
  · exact hw.tail (.callback true)

theorem setOrForward_writes {table : PgTable}
    (hset : ∀ rc s1, setPte env s table i e = .ok (rc, s1) → Write env R s s1)
    (hx : setOrForward env fault r addr table i e s = .ok (b, r', s')) : Writes env R s s' := by
  obtain ⟨⟨rc, s1⟩, hpte, hx⟩ := of_seq hx
  have hw := hset rc s1 hpte
  dsimp only at hx
  split_ifs at hx
  · cases hx
    exact .single hw
  · exact (forwardFault_writes hf (hr.writes (.single hw)) hx).head hw

theorem linearFault_writes (hl : s.isLinear)
    (hx : linearFault env fault r error addr s = .ok (b, r', s')) : Writes env R s s' := by
  obtain ⟨_, -, hx⟩ := of_seq hx
  obtain ⟨⟨rc, s1⟩, hset, hx⟩ := of_seq hx
  have hw : Write env R s s1 := setPte_dir hset hr.slot (hr.linear hl).1
  dsimp only at hx
  split_ifs at hx
  · cases hx
    exact .single hw
  · obtain ⟨⟨failed, r1, s2⟩, hforce, hx⟩ := of_seq hx
    cases hx
    exact (forcePageFault_writes hf (hr.writes (.single hw)) hforce).head hw

theorem tableFault_writes
    (hx : tableFault env fault r mask addr t s = .ok (b, r', s')) : Writes env R s s' := by
  unfold tableFault at hx
  dsimp only at hx
  split_ifs at hx
  · exact forwardFault_writes hf hr hx
  · exact forwardFault_writes hf hr hx
  · have hmark : Write env R s (s.orLp (s.tab t).lp (ptiOf addr) (pteA ||| pteD)) := .mark _ _
    exact (setOrForward_writes hf (hr.writes (.single hmark)) (fun _ _ => setPte_tab) hx).head hmark
  · exact setOrForward_writes hf hr (fun _ _ => setPte_tab) hx

end

theorem shadowEntry_absent (he : test e pteP = false) : shadowEntry env e = .ok (true, 0) := by
  simp [shadowEntry, he]

theorem setPte_size {d : DirId} {rc : Bool}
    (hx : setPte env s (.dir d) i e = .ok (rc, s')) (hi : R.slot i) (hps : test e ptePs = true)
    (he : isLarge e = true → R.entry e) : Write env R s s' := by
  by_cases hp : test e pteP = true
  · exact setPte_dir hx hi (he (by simp [isLarge, hp, hps]))
  obtain ⟨v, hv, rfl⟩ := setPte_ok hx
  rw [shadowEntry_absent (Bool.eq_false_iff.2 hp)] at hv
  have hzero : shadowEntry env 0 = .ok (rc, v) := (shadowEntry_absent (by decide)).trans hv
  exact .dir d hzero hi R.zero

theorem dirFault_writes {lpPde hvPde : Word} {pgt : Option TabId} (hf : Writer env R fault)
    (hr : Ready R r s addr) (he : isLarge lpPde = true → R.entry lpPde)
    (hx : dirFault env fault r mask addr lpPde hvPde pgt s = .ok (b, r', s')) :
    Writes env R s s' := by
  unfold dirFault at hx
  split_ifs at hx with hlarge
  · have hmark : Write env R s (s.orLp (s.dir s.pgd).lp (pdiOf addr) (pteA ||| pteD)) := .mark _ _
    refine (setOrForward_writes hf (hr.writes (.single hmark)) (fun _ _ hset => ?_) hx).head hmark
    rw [BitVec.or_assoc] at hset
    refine setPte_size hset hr.slot ?_ fun hl => ?_
    · simp only [Bool.and_eq_true, decide_eq_true_eq] at hlarge
      have hps : test (lpPde &&& (ptePs ||| pteRw)) ptePs = true := by
        rw [hlarge.2]
        decide
      rw [test_and (by decide)] at hps
      rw [test_or, hps, Bool.true_or]
    · rw [isLarge_dirty] at hl
      exact R.dirty _ (he hl)
  · cases pgt with
    | none => exact forwardFault_writes hf hr hx
    | some t => exact tableFault_writes hf hr hx

theorem shadowFault_writes (hf : Writer env R fault) (hr : Ready R r s addr)
    (hx : shadowFault env fault r error addr s = .ok (b, r', s')) : Writes env R s s' := by
  unfold shadowFault at hx
  dsimp only at hx
  have he := hr.clean (pdiOf addr)
  split_ifs at hx with hmask hp hlp hps
  · exact forwardFault_writes hf hr hx
  · exact dirFault_writes hf hr he hx
  · exact forwardFault_writes hf hr hx
  · exact setOrForward_writes hf hr (fun _ _ hset => setPte_size hset hr.slot hps he) hx
  obtain ⟨⟨pgt, s1⟩, hgraft, hx⟩ := of_seq hx
  have htable : isTable (s.lpDir s.pgd (pdiOf addr)) = true := by
    simp only [Bool.not_eq_true'] at hlp
    simp [isTable, hlp, hps]
  have hw : Writes env R s s1 := graft_writes hgraft hr.slot htable
  exact hw.trans (dirFault_writes hf (hr.writes hw) he hx)

/-- **A page fault only writes what the rules allow**, on any number of rounds. -/
theorem pageFault_writes (fuel : Nat) : Writer env R (pageFault env fuel) := by
  induction fuel with
  | zero => exact fun _ _ _ _ _ _ _ _ hx => absurd hx nofun
  | succ fuel ih =>
    intro r error addr s b r' s' hr hx
    obtain ⟨_, -, hx⟩ := of_seq hx
    split_ifs at hx with hrsv hl
    · obtain ⟨⟨failed, r1, s1⟩, hforce, hx⟩ := of_seq hx
      cases hx
      exact forcePageFault_writes ih hr hforce
    · exact linearFault_writes ih hr hl hx
    · exact shadowFault_writes ih hr hx

/-! ### The callback and the handlers -/

theorem storeEntry_writes
    (hx : (if !test e pteP then .ok s else do
      let (_, s) ← setPte env s (.tab t) i e
      .ok s) = ok s') : Writes env R s s' := by
  split_ifs at hx
  · cases hx
    exact .refl
  · obtain ⟨⟨rc, s1⟩, hset, hx⟩ := of_seq hx
    cases hx
    exact .single (setPte_tab hset)

theorem shadowFaultCallback_writes (hc : Clean R s s.pgd) (hi : R.slot (pdiOf s.regCr2))
    (hx : shadowFaultCallback env s = .ok s') : Writes env R s s' := by
  have hcb : Write env R s { s with cb := false } := .callback false
  suffices hrest : Writes env R { s with cb := false } s' from hrest.head hcb
  have he := hc (pdiOf s.regCr2)
  unfold shadowFaultCallback at hx
  dsimp only at hx
  split_ifs at hx with hp hps
  · cases hx
    exact .refl
  · obtain ⟨⟨rc, s1⟩, hset, hx⟩ := of_seq hx
    cases hx
    exact .single (setPte_size hset hi hps he)
  split at hx
  · exact storeEntry_writes hx
  obtain ⟨⟨pgt, s1⟩, hgraft, hx⟩ := of_seq hx
  simp only [Bool.not_eq_true'] at hp
  have hw := graft_writes hgraft hi (by simp [isTable, hp, hps])
  cases pgt with
  | none =>
    cases hx
    exact hw
  | some t => exact hw.trans (storeEntry_writes hx)

theorem iret_writes (hc : Clean R s s.pgd) (hi : R.slot (pdiOf s.regCr2))
    (hl : s.isLinear → R.entry (linearEntry (r.esp - 20)) ∧
      R.entry (linearEntry (stackAddr r true)))
    (hx : iret env r s = .ok s') : Writes env R s s' := by
  rcases ite_eq_iff.1 hx with ⟨-, hx⟩ | ⟨-, hx⟩
  · obtain ⟨s1, hcb, hx⟩ := of_seq hx
    have hw : Writes env R s s1 := shadowFaultCallback_writes hc hi hcb
    exact hw.trans (stack_writes (n := 5) (f := fun _ _ s => s) (g := id)
      (pageFault_writes faultRounds) (hc.active hw) (by decide) (by decide)
      (fun h => hl (hw.kept.isLinear h)) (fun _ _ _ => rfl) hx)
  · exact stack_writes (n := 5) (f := fun _ _ s => s) (g := id) (pageFault_writes faultRounds) hc
      (by decide) (by decide) hl (fun _ _ _ => rfl) hx

/-! ### Hypercalls -/

theorem flushDone_writes (rc : Bool)
    (hx : (if !rc then (hParameter, s)
      else if prefetch && s.cb && s.regCr2 = vaddr then (hSuccess, { s with cb := false })
      else (hSuccess, s)) = (ret, s')) : Writes env R s s' := by
  split_ifs at hx
  · cases hx
    exact .refl
  · cases hx
    exact .single (.callback false)
  · cases hx
    exact .refl

theorem flushSingle_writes
    (he : prefetch = true → vaddr < hvVbase → isLarge ((s.dir s.pgd).hv (pdiOf vaddr)) = true →
      R.entry (s.lpDir s.pgd (ptiOf vaddr)))
    (hx : flushSingle env s vaddr prefetch = .ok (ret, s')) : Writes env R s s' := by
  rcases ite_eq_iff.1 hx with ⟨-, hx⟩ | ⟨hlow, hx⟩
  · cases hx
    exact .refl
  have hlow : vaddr < hvVbase := BitVec.not_le.1 hlow
  split at hx
  · split at hx
    · cases hx
    · obtain ⟨⟨rc, s1⟩, hset, hx⟩ := of_seq hx
      exact (flushDone_writes rc (ok.inj hx)).head (setPte_tab hset)
  rcases ite_eq_iff.1 hx with ⟨hlarge, hx⟩ | ⟨-, hx⟩
  · obtain ⟨⟨rc, s1⟩, hset, hx⟩ := of_seq hx
    have hw : Write env R s s1 := by
      refine setPte_dir hset (R.low _ (pdiOf_of_low hlow)) ?_
      split_ifs with hp
      · exact he hp hlow hlarge
      · exact R.zero
    exact (flushDone_writes rc (ok.inj hx)).head hw
  · exact flushDone_writes true (ok.inj hx)

theorem flushAll_writes (hc : Clean R s s.pgd)
    (hx : flushAll env s prefetch = .ok (ret, s')) : Writes env R s s' := by
  rcases ite_eq_iff.1 hx with ⟨-, hx⟩ | ⟨-, hx⟩
  · obtain ⟨s1, hfetch, hx⟩ := of_seq hx
    have hw : Writes env R s s1 := prefetchPgdir_writes hc hfetch
    cases hx
    split_ifs
    · exact hw.tail (.callback false)
    · exact hw
  obtain ⟨s1, hflush, hx⟩ := of_seq hx
  have hw : Writes env R s s1 := flush_writes hflush
  cases hx
  split_ifs
  · exact hw.tail (.callback false)
  · exact hw

theorem hFlushTlb_writes {flags vaddr : Word} (hc : Clean R s s.pgd)
    (he : test flags hFlushTlbSingle = true → test flags hFlushTlbPrefetch = true →
      vaddr < hvVbase → isLarge ((s.dir s.pgd).hv (pdiOf vaddr)) = true →
      R.entry (s.lpDir s.pgd (ptiOf vaddr)))
    (hx : hFlushTlb env s flags vaddr = .ok (ret, s')) : Writes env R s s' := by
  unfold hFlushTlb at hx
  split_ifs at hx with hsingle
  · exact flushSingle_writes (he hsingle) hx
  · exact flushAll_writes hc hx
  · exact flushAll_writes hc hx
  · cases hx
    exact .refl

theorem getPde_same {x : Hv (Sval × Word)}
    (hx : (do
      let (rc, e) ← x
      .ok (rc, e, s)) = ok (ret, e, s')) : s' = s := by
  obtain ⟨_, -, hx⟩ := of_seq hx
  cases hx
  rfl

theorem hGetPte_writes {flags vaddr e : Word}
    (hx : hGetPte env s flags vaddr = .ok (ret, e, s')) : Writes env R s s' := by
  unfold hGetPte at hx
  dsimp only at hx
  split at hx
  · cases hx
    exact .refl
  split at hx
  · cases hx
    exact .refl
  split at hx
  · rw [getPde_same hx]
  split at hx
  swap
  · cases hx
    exact .refl
  split at hx
  · cases hx
    exact .refl
  split at hx
  · rw [getPde_same hx]
  split at hx
  · cases hx
  split at hx
  · cases hx
    exact .refl
  split at hx
  · split at hx
    · cases hx
      exact .refl
    · obtain ⟨⟨rc, s1⟩, hset, hx⟩ := of_seq hx
      cases hx
      exact .single (setPte_tab hset)
  · cases hx
    exact .refl

end

end Rhype.Pgcache
