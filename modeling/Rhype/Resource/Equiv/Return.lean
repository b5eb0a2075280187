import Rhype.Resource.Equiv.Cleanup
import Rhype.Resource.Equiv.Frame

/-!
# Returning memory succeeds (`mem_return`, `mmio_return`)

The cleanup of a rescind calls `return_fn` for a resource that is mapped.  `Returnable` is what the
logical map has to be like for that: the chunk belongs to a partition that exists, and if its
address is one of the page-share manager, it lies in the pages of the manager.  `ReturnFrame` is
what the call can change; other chunks stay returnable.
-/

namespace Rhype

open BitVec Function

/-! ### What a return can change -/

/-- The parts of a partition that a return does not change. -/
structure Os.Returns (os os' : Os) : Prop where
  psm : os'.poPsm = os.poPsm
  numPtes : os'.htab.numPtes = os.htab.numPtes

/-- The parts of a chunk that a return does not change; it may disable the chunk. -/
structure Lci.Returns (lci lci' : Lci) : Prop where
  ops : lci'.lciOps = lci.lciOps
  os : lci'.lciOs = lci.lciOs
  laddr : lci'.lciLaddr = lci.lciLaddr
  size : lci'.lciSize = lci.lciSize
  disabled : lci.lciDisabled = true → lci'.lciDisabled = true

/-- A return takes entries from the table of the page-share manager. -/
def Psm.Returns (psm psm' : Psm) : Prop :=
  ∀ b e, e ∈ psm'.psmPteHt.htTable b → e ∈ psm.psmPteHt.htTable b

/-- What returns can change, next to the lists and the deferred work. -/
structure ChunkFrame (h h' : Hype) : Prop where
  res : h'.res = h.res
  next : h'.next = h.next
  os : ∀ o, Option.Rel Os.Returns (h.os o) (h'.os o)
  lci : ∀ c, Option.Rel Lci.Returns (h.lci c) (h'.lci c)
  psm : ∀ p, Option.Rel Psm.Returns (h.psm p) (h'.psm p)

/-- What a return can change. -/
structure ReturnFrame (h h' : Hype) : Prop extends ChunkFrame h h' where
  dl : h'.dl = h.dl
  rcu : h'.rcu = h.rcu

namespace Os.Returns

theorem refl (os : Os) : os.Returns os := ⟨rfl, rfl⟩

theorem trans (a b c : Os) (h1 : a.Returns b) (h2 : b.Returns c) : a.Returns c :=
  ⟨h2.psm.trans h1.psm, h2.numPtes.trans h1.numPtes⟩

end Os.Returns

namespace Lci.Returns

theorem refl (lci : Lci) : lci.Returns lci := ⟨rfl, rfl, rfl, rfl, id⟩

theorem trans (a b c : Lci) (h1 : a.Returns b) (h2 : b.Returns c) : a.Returns c :=
  ⟨h2.ops.trans h1.ops, h2.os.trans h1.os, h2.laddr.trans h1.laddr, h2.size.trans h1.size,
    fun hd => h2.disabled (h1.disabled hd)⟩

end Lci.Returns

namespace Psm.Returns

theorem refl (psm : Psm) : psm.Returns psm := fun _ _ he => he

theorem trans (a b c : Psm) (h1 : a.Returns b) (h2 : b.Returns c) : a.Returns c :=
  fun i e he => h1 i e (h2 i e he)

end Psm.Returns

namespace ChunkFrame

variable {h h' h'' : Hype}

theorem refl (h : Hype) : ChunkFrame h h :=
  ⟨rfl, rfl, fun _ => rel_refl Os.Returns.refl _, fun _ => rel_refl Lci.Returns.refl _,
    fun _ => rel_refl Psm.Returns.refl _⟩

theorem trans (h1 : ChunkFrame h h') (h2 : ChunkFrame h' h'') : ChunkFrame h h'' where
  res := h2.res.trans h1.res
  next := h2.next.trans h1.next
  os := fun o => rel_trans Os.Returns.trans (h1.os o) (h2.os o)
  lci := fun c => rel_trans Lci.Returns.trans (h1.lci c) (h2.lci c)
  psm := fun p => rel_trans Psm.Returns.trans (h1.psm p) (h2.psm p)

end ChunkFrame

namespace ReturnFrame

variable {h h' h'' : Hype}

theorem refl (h : Hype) : ReturnFrame h h := ⟨.refl h, rfl, rfl⟩

theorem trans (h1 : ReturnFrame h h') (h2 : ReturnFrame h' h'') : ReturnFrame h h'' :=
  ⟨h1.toChunkFrame.trans h2.toChunkFrame, h2.dl.trans h1.dl, h2.rcu.trans h1.rcu⟩

theorem setOs {o : OsId} {os os' : Os} (hos : h.os o = some os) (hr : os.Returns os') :
    ReturnFrame h (h.setOs o os') :=
  { refl h with os := rel_update Os.Returns.refl hos hr }

theorem setLciObj {c : LciId} {lci lci' : Lci} (hlci : h.lci c = some lci) (hr : lci.Returns lci') :
    ReturnFrame h (h.setLciObj c lci') :=
  { refl h with lci := rel_update Lci.Returns.refl hlci hr }

theorem setPsm {p : LciId} {psm psm' : Psm} (hpsm : h.psm p = some psm) (hr : psm.Returns psm') :
    ReturnFrame h (h.setPsm p psm') :=
  { refl h with psm := rel_update Psm.Returns.refl hpsm hr }

end ReturnFrame

/-! ### Chunks that can be returned -/

/-- The chunk lies in the pages of the page-share manager, and what is recorded there are entries of
the hash table. -/
structure InPages (psmLci : Lci) (psm : Psm) (lci : Lci) (numPtes : Nat) : Prop where
  begins : psmLci.lciLaddr.toNat ≤ lci.lciLaddr.toNat
  ends : lci.lciLaddr.toNat + lci.lciSize.toNat ≤ psmLci.lciLaddr.toNat + numPsmEntries * 4096
  low : psmLci.lciLaddr.toNat < 2 ^ 63
  recorded : ∀ b e, e ∈ psm.psmPteHt.htTable b → e.2 < numPtes

/-- `return_fn` can be called for the chunk. -/
def Returnable (h : Hype) (r : ResId) : Prop :=
  ∃ lci q os, h.lci r = some lci ∧ lci.lciOps = .physMem ∧ lci.lciOs = some q ∧ h.os q = some os ∧
    ∀ p, os.poPsm = some p → ∃ psmLci psm, h.lci p = some psmLci ∧ h.psm p = some psm ∧
      (psmOwns psmLci lci.lciLaddr = true → InPages psmLci psm lci os.htab.numPtes)

theorem Returnable.mono {h h' : Hype} {r : ResId} (hr : Returnable h r) (hf : ChunkFrame h h') :
    Returnable h' r := by
  obtain ⟨lci, q, os, hlci, hops, hq, hos, hpsm⟩ := hr
  obtain ⟨lci', hlci', hl⟩ := rel_some (hf.lci r) hlci
  obtain ⟨os', hos', ho⟩ := rel_some (hf.os q) hos
  refine ⟨lci', q, os', hlci', hl.ops.trans hops, hl.os.trans hq, hos', fun p hp => ?_⟩
  obtain ⟨psmLci, psm, hpl, hpp, hin⟩ := hpsm p (ho.psm ▸ hp)
  obtain ⟨psmLci', hpl', hpl''⟩ := rel_some (hf.lci p) hpl
  obtain ⟨psm', hpp', hsub⟩ := rel_some (hf.psm p) hpp
  refine ⟨psmLci', psm', hpl', hpp', fun howns => ?_⟩
  have hm := hin (by
    unfold psmOwns at howns ⊢
    rwa [hpl''.laddr, hpl''.size, hl.laddr] at howns)
  refine ⟨?_, ?_, ?_, fun b e he => ?_⟩
  · rw [hpl''.laddr, hl.laddr]
    exact hm.begins
  · rw [hpl''.laddr, hl.laddr, hl.size]
    exact hm.ends
  · rw [hpl''.laddr]
    exact hm.low
  · rw [ho.numPtes]
    exact hm.recorded b e (hsub b e he)

/-! ### Plain memory -/

section

variable {h : Hype} {c : LciId} {lci : Lci} {q : OsId} {os : Os}

theorem detachLoop_spec (n idx : Nat) (os : Os) (hle : idx + n ≤ maxLogicalMemChunks) :
    ∃ os', detachLoop c n idx os = .ok os' ∧ os.Returns os' := by
  obtain ⟨os', hloop⟩ := detachLoop_total n idx os hle
  obtain ⟨_, _, _, -, -, -, -, -, rfl⟩ := detachLoop_ok n idx hle hloop
  exact ⟨_, hloop, rfl, rfl⟩

theorem unmapFn_spec (hlci : h.lci c = some lci)
    (hops : lci.lciOps = .physMem) (hq : lci.lciOs = some q) (hos : h.os q = some os) :
    ∃ h', unmapFn h c = .ok h' ∧ ReturnFrame h h' := by
  rw [unmapFn, hlci, live, ok_bind, hops, hpteScanUnmap, hlci, live, ok_bind]
  by_cases hcount : lci.lciPtecount = 0
  · rw [if_neg (not_not.2 hcount)]
    exact ⟨h, rfl, .refl h⟩
  rw [if_pos hcount, hq, nonNull, ok_bind, hos]
  refine ⟨_, rfl, ?_⟩
  have hr : os.Returns
      { os with htab := if os.sfwTlb then os.htab else ptesTlbies os.htab lci } := by
    refine ⟨rfl, ?_⟩
    split_ifs <;> rfl
  exact (ReturnFrame.setOs hos hr).trans (.setLciObj hlci ⟨rfl, hq.symm, rfl, rfl, id⟩)

theorem mmioReturn_spec (hlci : h.lci c = some lci)
    (hops : lci.lciOps = .physMem) (hq : lci.lciOs = some q) (hos : h.os q = some os) :
    ∃ h', mmioReturn h c = .ok h' ∧ ReturnFrame h h' := by
  by_cases hslot : chunkNumberAddr lci.lciLaddr < maxLogicalMemChunks ∧
      os.pLci (chunkNumberAddr lci.lciLaddr) = some c
  · obtain ⟨os', hloop, hr⟩ := detachLoop_spec (c := c)
      (maxLogicalMemChunks - chunkNumberAddr lci.lciLaddr) (chunkNumberAddr lci.lciLaddr) os
      (by omega)
    let h1 := (h.setOs q os').setLciObj c { lci with lciDisabled := true }
    have hdet : detachLci h c = .ok (0, h1) := by
      simp [detachLci, hlci, live, hq, nonNull, hos, hslot, hloop, lciDisable, h1]
    have hframe : ReturnFrame h h1 :=
      (ReturnFrame.setOs hos hr).trans (.setLciObj hlci ⟨rfl, rfl, rfl, rfl, fun _ => rfl⟩)
    obtain ⟨h', hx, hframe'⟩ := @unmapFn_spec h1 c { lci with lciDisabled := true } q os'
      (Hype.setLciObj_lci_self ..) hops hq (Hype.setOs_os_self ..)
    refine ⟨h', ?_, hframe.trans hframe'⟩
    rwa [mmioReturn, hdet]
  · have hdet : detachLci h c = .ok (1, h) := by
      simp [detachLci, hlci, live, hq, nonNull, hos, hslot]
    obtain ⟨h', hx, hframe⟩ := unmapFn_spec hlci hops hq hos
    refine ⟨h', ?_, hframe⟩
    rwa [mmioReturn, hdet]

end

/-! ### The page-share manager -/

/-- The tables that a walk along the records can reach. -/
def HashTable.Shrinks {α : Type} (t t' : HashTable α) : Prop :=
  t'.htLogTblSize = t.htLogTblSize ∧ ∀ b e, e ∈ t'.htTable b → e ∈ t.htTable b

namespace HashTable.Shrinks

variable {α : Type} {hash : Uval → Nat → Uval} {t t' : HashTable α} {key : Uval}

theorem remove_none (hx : t.remove hash key = (none, t')) : t.Shrinks t' := by
  unfold remove at hx
  dsimp only at hx
  split at hx
  · cases hx
    exact ⟨rfl, fun _ _ he => he⟩
  · cases hx

theorem remove_some {a : α} (hx : t.remove hash key = (some a, t')) :
    t.Shrinks t' ∧ (∃ b e, e ∈ t.htTable b ∧ e.2 = a) ∧
      (t'.chain hash key).length < (t.chain hash key).length := by
  unfold remove at hx
  dsimp only at hx
  split at hx
  · cases hx
  next e hfind =>
  cases hx
  have hmem : e ∈ t.chain hash key := List.mem_of_find?_eq_some hfind
  have hkey := List.find?_some (p := fun e : Uval × α => e.1 == key) hfind
  have hlen := List.length_eraseP_of_mem (p := fun e : Uval × α => e.1 == key) hmem hkey
  refine ⟨⟨rfl, fun b e' he' => ?_⟩, ⟨_, e, hmem, rfl⟩, ?_⟩
  · unfold setChain at he'
    dsimp only at he'
    rw [update_apply] at he'
    split_ifs at he' with hb
    · subst hb
      exact List.mem_of_mem_eraseP he'
    · exact he'
  · have hpos := List.length_pos_of_mem hmem
    have hchain : chain hash (setChain hash { t with htCount := t.htCount - 1 } key
        ((t.chain hash key).eraseP fun e => e.1 == key)) key =
        (t.chain hash key).eraseP fun e => e.1 == key := update_self ..
    rw [hchain]
    omega

end HashTable.Shrinks

/-- The state of a cleanup in the page-share manager that can go on, for a table of `n` entries. -/
structure PsmUnmap.Fits (s : PsmUnmap) (n : Nat) : Prop where
  recorded : ∀ b e, e ∈ s.psm.psmPteHt.htTable b → e.2 < n
  numPtes : s.htab.numPtes = n

/-- What such a cleanup can change. -/
structure PsmUnmap.Returns (s s' : PsmUnmap) : Prop where
  psm : s.psm.Returns s'.psm
  lci : s.lci.Returns s'.lci
  numPtes : s'.htab.numPtes = s.htab.numPtes

namespace PsmUnmap.Returns

theorem trans {s s' s'' : PsmUnmap} (h1 : s.Returns s') (h2 : s'.Returns s'') : s.Returns s'' :=
  ⟨.trans _ _ _ h1.psm h2.psm, .trans _ _ _ h1.lci h2.lci, h2.numPtes.trans h1.numPtes⟩

theorem fits {s s' : PsmUnmap} {n : Nat} (hr : s.Returns s') (hf : s.Fits n) : s'.Fits n :=
  ⟨fun b e he => hf.recorded b e (hr.psm b e he), hr.numPtes.trans hf.numPtes⟩

end PsmUnmap.Returns

theorem pteInvalidate_spec {ht : Htab} {i : Nat} (hi : i < ht.numPtes) :
    ∃ ht', pteInvalidate ht i = .ok ht' ∧ ht'.numPtes = ht.numPtes := by
  simp [pteInvalidate, Htab.get, Htab.set, Htab.setShadow, hi]

theorem unmapPage_spec {start : Uval} {n : Nat} (fuel : Nat) : ∀ s : PsmUnmap, s.Fits n →
    (s.psm.psmPteHt.chain psmPteHash start).length < fuel →
    ∃ b s', unmapPage start fuel s = .ok (b, s') ∧ s.Returns s' := by
  induction fuel with
  | zero => exact nofun
  | succ fuel ih =>
    intro s hf hlt
    unfold unmapPage
    cases hx : s.psm.psmPteHt.remove psmPteHash start with
    | mk found t =>
      rcases found with _ | i
      · have hshrink := HashTable.Shrinks.remove_none hx
        exact ⟨_, _, rfl, hshrink.2, .refl _, rfl⟩
      obtain ⟨hshrink, ⟨b, e, he, hei⟩, hlen⟩ := HashTable.Shrinks.remove_some hx
      have hi : i < s.htab.numPtes := by
        rw [hf.numPtes, ← hei]
        exact hf.recorded b e he
      obtain ⟨ht, hinv, hnum⟩ := pteInvalidate_spec hi
      let s1 : PsmUnmap := ⟨{ s.psm with psmPteHt := t },
        { s.lci with lciPtecount := s.lci.lciPtecount - 1 }, ht⟩
      have hr : s.Returns s1 := ⟨hshrink.2, ⟨rfl, rfl, rfl, rfl, id⟩, hnum⟩
      simp only [hinv]
      split_ifs
      · exact ⟨_, _, rfl, hr⟩
      obtain ⟨b', s', hloop, hr'⟩ := ih s1 (hr.fits hf) (by
        show (t.chain psmPteHash start).length < fuel
        omega)
      exact ⟨b', s', hloop, hr.trans hr'⟩

/-- The pages of the chunk are visited.  Page `idx` of the manager is not behind `start`, so the
indices stay below the number of pages. -/
theorem unmapPages_spec {base : Nat} {stop : Uval} {n : Nat}
    (hbase : base < 2 ^ 63) (hstop : stop.toNat ≤ base + numPsmEntries * 4096) (fuel : Nat) :
    ∀ (start : Uval) (idx : Nat) (s : PsmUnmap), s.Fits n → base + idx * 4096 ≤ start.toNat →
      stop.toNat ≤ start.toNat + fuel * 4096 →
      ∃ s', unmapPages stop (fuel + 1) start idx s = .ok s' ∧ s.Returns s' := by
  induction fuel with
  | zero =>
    intro start idx s hf _ hle
    have hnot : ¬ start < stop := by
      rw [lt_def]
      omega
    rw [unmapPages, if_neg hnot]
    exact ⟨s, rfl, .refl _, .refl _, rfl⟩
  | succ fuel ih =>
    intro start idx s hf hidx hle
    rw [unmapPages]
    split_ifs with hlt
    · rw [lt_def] at hlt
      have hnum : numPsmEntries = 262144 := rfl
      have hidx' : idx < numPsmEntries := by omega
      let s1 : PsmUnmap :=
        { s with psm := { s.psm with psmEntries := update s.psm.psmEntries idx none } }
      have hr1 : s.Returns s1 := ⟨.refl _, .refl _, rfl⟩
      obtain ⟨b, s2, hpage, hr2⟩ := @unmapPage_spec start n _ s1 (hr1.fits hf) (Nat.lt_succ_self _)
      have hfill : fill .psm numPsmEntries none 1 idx s.psm.psmEntries =
          .ok (update s.psm.psmEntries idx none) := by
        rw [fill, if_pos hidx', fill]
      rw [hfill, ok_bind]
      dsimp only
      rw [hpage, ok_bind]
      split_ifs
      · exact ⟨s2, rfl, hr1.trans hr2⟩
      have hnext : (start + pgsize).toNat = start.toNat + 4096 := by
        have hpg : pgsize.toNat = 4096 := rfl
        rw [toNat_add]
        omega
      have hidx2 : base + (idx + 1) * 4096 ≤ (start + pgsize).toNat := by
        rw [hnext, Nat.succ_mul, ← Nat.add_assoc]
        exact Nat.add_le_add_right hidx 4096
      have hle2 : stop.toNat ≤ (start + pgsize).toNat + fuel * 4096 := by
        rwa [hnext, Nat.add_assoc, Nat.add_comm 4096, ← Nat.succ_mul]
      obtain ⟨s', hloop, hr'⟩ := ih (start + pgsize) (idx + 1) s2 ((hr1.trans hr2).fits hf)
        hidx2 hle2
      exact ⟨s', hloop, (hr1.trans hr2).trans hr'⟩
    · exact ⟨s, rfl, .refl _, .refl _, rfl⟩

section

variable {h : Hype} {p c : LciId} {psmLci lci : Lci} {psm : Psm} {q : OsId} {os : Os}

theorem psmUnmapLci_spec (hpsm : h.psm p = some psm) (hpl : h.lci p = some psmLci)
    (hlci : h.lci c = some lci) (hdis : lci.lciDisabled = true) (hq : lci.lciOs = some q)
    (hos : h.os q = some os) (hin : InPages psmLci psm lci os.htab.numPtes) :
    ∃ h', psmUnmapLci h p c = .ok h' ∧ ReturnFrame h h' := by
  rw [psmUnmapLci, hpsm, live, ok_bind, hpl, live, ok_bind, hlci, live, ok_bind, hdis, hassert,
    if_pos rfl, ok_bind]
  split_ifs with hcount
  · exact ⟨h, rfl, .refl h⟩
  rw [hq, nonNull, ok_bind, hos, live, ok_bind]
  have hnum : numPsmEntries = 262144 := rfl
  have hlow := hin.low
  have hbegins := hin.begins
  have hends := hin.ends
  have hstop : (lci.lciLaddr + lci.lciSize).toNat = lci.lciLaddr.toNat + lci.lciSize.toNat := by
    rw [toNat_add]
    omega
  have hidx : psmIndex psmLci lci.lciLaddr =
      (lci.lciLaddr.toNat - psmLci.lciLaddr.toNat) / 4096 := by
    have hsub : (lci.lciLaddr - psmLci.lciLaddr).toNat =
        lci.lciLaddr.toNat - psmLci.lciLaddr.toNat := by
      rw [toNat_sub]
      omega
    have hpg : (2 : Nat) ^ logPgsize = 4096 := rfl
    rw [psmIndex, toNat_ushiftRight, hsub, Nat.shiftRight_eq_div_pow, hpg]
  have hfirst : psmLci.lciLaddr.toNat +
      (lci.lciLaddr.toNat - psmLci.lciLaddr.toNat) / 4096 * 4096 ≤ lci.lciLaddr.toNat := by omega
  have hlast : lci.lciLaddr.toNat + lci.lciSize.toNat ≤
      lci.lciLaddr.toNat + (lci.lciSize.toNat / 4096 + 1) * 4096 := by
    have hdiv := Nat.lt_div_mul_add (show 0 < 4096 by decide) (a := lci.lciSize.toNat)
    rw [Nat.succ_mul]
    exact Nat.add_le_add_left hdiv.le _
  obtain ⟨s, hpages, hr⟩ := unmapPages_spec (n := os.htab.numPtes) hlow (hstop ▸ hends)
    (lci.lciSize.toNat / 4096 + 1) lci.lciLaddr (psmIndex psmLci lci.lciLaddr)
    ⟨psm, lci, os.htab⟩ ⟨hin.recorded, rfl⟩ (hidx ▸ hfirst) (hstop ▸ hlast)
  have hframe : ReturnFrame h
      (((h.setPsm p s.psm).setLciObj c s.lci).setOs q { os with htab := s.htab }) :=
    ((ReturnFrame.setPsm hpsm hr.psm).trans (.setLciObj hlci hr.lci)).trans
      (.setOs hos ⟨rfl, hr.numPtes⟩)
  exact ⟨_, by rw [hpages]; rfl, hframe⟩

/-- **`return_fn` succeeds** for a chunk that is returnable and disabled. -/
theorem returnFn_spec {m : MemType} (hr : Returnable h c)
    (hdis : ∀ lci, h.lci c = some lci → lci.lciDisabled = true) :
    ∃ h', returnFn h (.mem m) c = .ok h' ∧ ReturnFrame h h' := by
  obtain ⟨lci, q, os, hlci, hops, hq, hos, hpsm⟩ := hr
  cases m with
  | mmioAddr => exact mmioReturn_spec hlci hops hq hos
  | memAddr =>
    show ∃ h', memReturn h c = .ok h' ∧ ReturnFrame h h'
    rw [memReturn, hlci, live, ok_bind, hq, nonNull, ok_bind, hos, live, ok_bind]
    rcases hp : os.poPsm with _ | p
    · exact mmioReturn_spec hlci hops hq hos
    obtain ⟨psmLci, psm, hpl, hpp, hin⟩ := hpsm p hp
    dsimp only
    rw [hpl, live, ok_bind]
    split_ifs with howns
    · exact psmUnmapLci_spec hpp hpl hlci (hdis lci hlci) hq hos (hin howns)
    · exact mmioReturn_spec hlci hops hq hos

end

end Rhype
