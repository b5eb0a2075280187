import Rhype.Resource.Equiv.SlotInv

/-!
# The chunk tables after a cleanup

A cleanup takes a chunk out of its slots before the chunk is queued to be destroyed; both together
keep the invariant of the chunk tables.  So do the end of a partition and the destruction of what is
queued.
-/

namespace Rhype

open Function List

theorem InRun.of_le {lci : Lci} {j k : Nat} (hr : InRun lci j)
    (hlo : lci.lciLaddr.toNat / 2 ^ 26 ≤ k) (hk : k ≤ j) : InRun lci k := by
  exact ⟨hlo, (Nat.mul_le_mul_right _ hk).trans_lt hr.2⟩

section

variable {h h' : Hype} {r : ResId} {sr : SysResource} {o : OsId} {os : Os} {i : Nat}

theorem SlotInv.defer (hi : SlotInv h) (hsr : h.res r = some sr)
    (hclear : ∀ o os i, h.os o = some os → os.pLci i ≠ some r)
    (hres : sr.srRescinded = true ∨ ¬ Pointed h.dl r) : SlotInv (h.rcuDefer (.physMem r)) where
  slot := by
    intro o os i c hos hc
    obtain ⟨hlt, hchunk⟩ := hi.slot o os i c hos hc
    refine ⟨hlt, hchunk.imp_right fun ⟨s, hs, hmapped, hown, hq⟩ => ⟨s, hs, hmapped, hown, ?_⟩⟩
    have hcr : c ≠ r := fun hcr => hclear o os i hos (hcr ▸ hc)
    simp [hq, hcr]
  held := by
    rintro o os c hos ⟨s, hs, hmapped, hown, hq⟩
    exact hi.held o os c hos ⟨s, hs, hmapped, hown, fun hin => hq (mem_append_left _ hin)⟩
  psm := hi.psm
  usage := hi.usage
  fresh := hi.fresh
  mem := hi.mem
  queued := by
    intro q hin
    rcases mem_append.1 hin with hin | hin
    · exact hi.queued q hin
    cases mem_singleton.1 hin
    refine ⟨hi.lt_next hsr, hi.psm_ne hsr, fun s hs => ?_⟩
    cases hsr.symm.trans hs
    exact hres
  queuedPsm := by
    intro p hin
    exact hi.queuedPsm p (by simpa [Hype.rcuDefer] using hin)

theorem SlotInv.clear_of_first (hi : SlotInv h) (hsr : h.res r = some sr) {lci : Lci}
    (hlci : h.lci r = some lci) (ho : lci.lciOs = some o) (hos : h.os o = some os)
    (hnot : ¬ (chunkNumberAddr lci.lciLaddr < maxLogicalMemChunks ∧
      os.pLci (chunkNumberAddr lci.lciLaddr) = some r)) (o' : OsId) (os' : Os) (i : Nat)
    (hos' : h.os o' = some os') : os'.pLci i ≠ some r := by
  intro hslot
  obtain ⟨hlt, -, lci', hlci', hown', hrun⟩ := hi.slot_held hsr hos' hslot
  cases hlci.symm.trans hlci'
  cases ho.symm.trans hown'
  cases hos.symm.trans hos'
  have hin := (hrun i).1 hslot
  have hfirst := (hrun _).2 (hin.of_le le_rfl hin.1)
  rw [← chunkNumberAddr_eq] at hfirst
  exact hnot ⟨(chunkNumberAddr_eq _).trans_lt (hin.1.trans_lt hlt), hfirst⟩

section

variable {lci : Lci} {m : Nat} {pLci : Nat → Option LciId}
  {usage : Lbm maxLogicalMemChunks}

theorem DetachStep.clear (st : DetachStep h r lci o os m pLci usage h') (hi : SlotInv h)
    (hsr : h.res r = some sr) (j : Nat) : pLci j ≠ some r := by
  intro hj
  rw [st.slots] at hj
  split_ifs at hj with hrange
  obtain ⟨hlt, -, lci', hlci', -, hrun⟩ := hi.slot_held hsr st.os_eq hj
  cases st.lci_eq.symm.trans hlci'
  have hbase := chunkNumberAddr_eq lci.lciLaddr
  have hin := (hrun j).1 hj
  have hlo := hin.1
  -- the slot behind the cleared ones would be one of the chunk
  have hafter := hin.of_le (k := chunkNumberAddr lci.lciLaddr + m) (by omega) (by omega)
  exact st.stop (by omega) ((hrun _).2 hafter)

theorem DetachStep.reslot (st : DetachStep h r lci o os m pLci usage h') (hi : SlotInv h)
    (hsr : h.res r = some sr) : Reslot h (h'.rcuDefer (.physMem r)) o os
      { os with pLci := pLci, chunkUsage := usage } r := by
  rw [st.state]
  refine ⟨st.os_eq, rfl, fun d hd => update_of_ne hd .., fun _ _ => rfl, ?_, ?_,
    fun _ _ => .rfl, ?_, hi.psm_ne hsr, hi.elsewhere hsr st.lci_eq st.lciOs_eq⟩
  · intro d hd
    simp [hd]
  · intro j d hd
    dsimp only
    rw [st.slots]
    split_ifs with hrange
    · rw [st.run j hrange.1 hrange.2]
      simp [hd.symm]
    · rfl
  · intro j hj
    dsimp only
    rw [st.bits, st.slots]
    split_ifs with hrange
    · simp
    · exact hi.usage o os j st.os_eq hj

end

theorem SlotInv.detach (hi : SlotInv h) (hsr : h.res r = some sr) (hre : sr.srRescinded = true)
    {rc : Uval} (hx : detachLci h r = .ok (rc, h')) : SlotInv (h'.rcuDefer (.physMem r)) := by
  rcases detachLci_ok hx with ⟨rfl, lci, o, os, hlci, ho, hos, hnot⟩ |
    ⟨lci, o, os, m, pLci, usage, st⟩
  · exact hi.defer hsr (hi.clear_of_first hsr hlci ho hos hnot) (.inl hre)
  have hr := st.reslot hi hsr
  have hpsm : os.poPsm ≠ some r := hi.psm_ne hsr o os st.os_eq
  have hqueue : .physMem r ∈ (h'.rcuDefer (.physMem r)).rcu := by simp [Hype.rcuDefer]
  rw [st.state] at hr hqueue ⊢
  refine ⟨hr.table hi.toTableInv (fun j hj => absurd hj (st.clear hi hsr j)) ?_ (absurd · hpsm),
    hr.obj hi.toObjInv rfl le_rfl (hi.lt_next hsr) ?_ ?_ (hi.not_psm_queued hsr) ?_⟩
  · rintro o' ⟨_, -, -, -, hnot⟩
    exact absurd hqueue hnot
  · intro s hs
    cases hsr.symm.trans hs
    exact ⟨(hi.mem r sr hsr).1, Option.isSome_of_eq_some (update_self ..)⟩
  · intro p
    simp [Hype.rcuDefer, Hype.setOs, Hype.setLciObj]
  · intro _
    refine ⟨hpsm, fun s hs => ?_⟩
    cases hsr.symm.trans hs
    exact .inl hre

/-! ### The cleanup -/

theorem SlotInv.psmHas_clear (hi : SlotInv h) (hsr : h.res r = some sr) (hp : PsmHas h r)
    (o' : OsId) (os' : Os) (i : Nat) (hos' : h.os o' = some os') : os'.pLci i ≠ some r := by
  intro hslot
  obtain ⟨lci, o, os, p, psmLci, hlci, ho, hos, hpsm, hpsmLci, howns⟩ := hp
  obtain ⟨hlt, -, lci', hlci', hown', hrun⟩ := hi.slot_held hsr hos' hslot
  cases hlci.symm.trans hlci'
  cases ho.symm.trans hown'
  cases hos.symm.trans hos'
  obtain ⟨-, psmLci', hpsmLci', -, hsize, hpsmRun⟩ := hi.psm o' os' p hos' hpsm
  cases hpsmLci.symm.trans hpsmLci'
  have hin := (hrun i).1 hslot
  have hfirst := (hrun _).2 (hin.of_le le_rfl hin.1)
  have hlo := hin.1
  obtain ⟨hle, hend⟩ := rangeContains_iff.1 howns
  unfold maxLogicalMemChunks at hlt
  -- the first slot would hold both chunks
  have hmanager : InRun psmLci (lci.lciLaddr.toNat / 2 ^ 26) := by
    refine ⟨Nat.div_le_div_right hle, ?_⟩
    omega
  have hboth := ((hpsmRun _).2 hmanager).symm.trans hfirst
  exact hi.psm_ne hsr o' os' hos' (hpsm.trans hboth)

theorem SlotInv.cleanupRes (hi : SlotInv h) (hx : Rhype.cleanupRes h r = .ok h') : SlotInv h' := by
  obtain ⟨sr, h1, h2, st⟩ := cleanupRes_ok hx
  have hi0 := hi.frame (detach_mapFrame st.res_eq st.rescinded)
  have hsr0 : (h.setDl (h.dl.detach (.osRes r))).res r = some sr := st.res_eq
  obtain ⟨⟨t, ht⟩, -⟩ := hi.mem r sr st.res_eq
  have hret : SlotInv (h1.rcuDefer (.physMem r)) := by
    rcases st.returned with ⟨hmapped, rfl⟩ | ⟨hmapped, hret⟩
    · refine hi0.defer hsr0 (fun o os i hos hslot => ?_) (.inl st.rescinded)
      obtain ⟨-, ⟨s, hs, hm, -⟩, -⟩ := hi0.slot_held hsr0 hos hslot
      cases hsr0.symm.trans hs
      cases hmapped.symm.trans hm
    rw [ht] at hret
    rcases returnFn_ok hret with ⟨rc, h3, hdet, hun⟩ | ⟨hhas, hun⟩
    · exact (hi0.detach hsr0 st.rescinded hdet).frame (hun.rcuDefer _).mapFrame
    · have hdefer := hi0.defer hsr0 (hi0.psmHas_clear hsr0 hhas) (.inl st.rescinded)
      exact hdefer.frame (hun.rcuDefer _).mapFrame
  have hdes := st.destroyed
  rw [ht] at hdes
  rcases rescindFn_ok hdes with ⟨-, htype⟩ | rfl
  · cases htype
  · rw [st.state]
    exact hret.frame (.setDl fun q hp => .inl (hp.of_detach DRef.noConfusion))

theorem SlotInv.forcedRescindCleanup {nodes : DRef} (hi : SlotInv h)
    (hx : Rhype.forcedRescindCleanup h nodes = .ok h') : SlotInv h' :=
  cleanupLoop_induct (fun _ _ _ hi hres => hi.cleanupRes hres) _ _ h hi hx

/-! ### The end of a partition and of an object -/

theorem osFree_ok (hx : osFree h o = .ok h') : ∃ os rcu, h.os o = some os ∧
    (∀ n, n ∈ rcu ↔ n ∈ h.rcu ∨ ∃ p, os.poPsm = some p ∧ n = .psm p) ∧
    h' = { h with os := update h.os o none, rcu := rcu } := by
  obtain ⟨os, hos, hx⟩ := of_live hx
  cases hp : os.poPsm with
  | none =>
    rw [hp] at hx
    exact ⟨os, h.rcu, hos, fun n => by simp [hp], (Except.ok.inj hx).symm⟩
  | some p =>
    rw [hp] at hx
    exact ⟨os, h.rcu ++ [RcuNode.psm p], hos, fun n => by simp [hp], (Except.ok.inj hx).symm⟩

/-- `os_free`: the table of the partition is gone, and its page-share manager is queued. -/
theorem SlotInv.osFree (hi : SlotInv h) (hx : Rhype.osFree h o = .ok h') : SlotInv h' := by
  obtain ⟨os, rcu, hos, hrcu, rfl⟩ := osFree_ok hx
  have hleft : ∀ o' os', update h.os o none o' = some os' →
      o' ≠ o ∧ h.os o' = some os' := fun _ _ => update_none_eq_some.1
  have hheld : ∀ o' r, Held { h with os := update h.os o none, rcu := rcu } o' r ↔
      Held h o' r := by
    intro o' r
    simp [Held, hrcu]
  refine ⟨⟨?_, ?_, ?_, ?_⟩, ⟨hi.fresh, hi.mem, ?_, ?_⟩⟩
  · intro o' os' i c hos' hslot
    obtain ⟨hlt, hchunk⟩ := hi.slot o' os' i c (hleft o' os' hos').2 hslot
    exact ⟨hlt, hchunk.imp_right (hheld o' c).2⟩
  · intro o' os' r hos' hr
    exact hi.held o' os' r (hleft o' os' hos').2 ((hheld o' r).1 hr)
  · exact fun o' os' p hos' => hi.psm o' os' p (hleft o' os' hos').2
  · exact fun o' os' i hos' => hi.usage o' os' i (hleft o' os' hos').2
  · intro r hin
    have hin : .physMem r ∈ h.rcu := by simpa using (hrcu _).1 hin
    obtain ⟨hlt, hpsm, hres⟩ := hi.queued r hin
    exact ⟨hlt, fun o' os' hos' => hpsm o' os' (hleft o' os' hos').2, hres⟩
  · intro p hin
    rcases (hrcu _).1 hin with hin | ⟨p', hp, heq⟩
    · obtain ⟨hlt, hres, hpsm⟩ := hi.queuedPsm p hin
      exact ⟨hlt, hres, fun o' os' hos' => hpsm o' os' (hleft o' os' hos').2⟩
    cases heq
    obtain ⟨hres, lci, hlci, hown, -⟩ := hi.psm o os p hos hp
    refine ⟨hi.lci_lt hlci, hres, fun o' os' hos' hp' => ?_⟩
    -- the manager of this partition is not that of another one
    obtain ⟨hne, hos'⟩ := hleft o' os' hos'
    obtain ⟨-, lci', hlci', hown', -⟩ := hi.psm o' os' p hos' hp'
    cases hlci.symm.trans hlci'
    exact hne (Option.some.inj (hown'.symm.trans hown))

theorem SlotInv.free (hi : SlotInv h) {c : LciId} (hos : h'.os = h.os)
    (hlci : h'.lci = update h.lci c none) (hres : h'.res = update h.res c none)
    (hdl : h'.dl = h.dl) (hnext : h'.next = h.next) (hsub : ∀ n ∈ h'.rcu, n ∈ h.rcu)
    (hkeep : ∀ d, d ≠ c → .physMem d ∈ h.rcu → .physMem d ∈ h'.rcu)
    (hpsm : ∀ o os, h.os o = some os → os.poPsm ≠ some c) (hnot : ∀ o, ¬ Held h o c) :
    SlotInv h' := by
  have hheld : ∀ o d, Held h' o d ↔ d ≠ c ∧ Held h o d := by
    intro o d
    unfold Held
    rw [hres]
    rcases eq_or_ne d c with rfl | hd
    · simp
    · have hq : .physMem d ∈ h'.rcu ↔ .physMem d ∈ h.rcu := ⟨hsub _, hkeep d hd⟩
      simp [hd, hq]
  refine ⟨⟨?_, ?_, ?_, ?_⟩, ⟨?_, ?_, ?_, ?_⟩⟩
  · intro o os i d ho hslot
    rw [hos] at ho
    obtain ⟨hlt, hchunk⟩ := hi.slot o os i d ho hslot
    refine ⟨hlt, hchunk.imp_right fun hd => (hheld o d).2 ⟨fun hdc => hnot o (hdc ▸ hd), hd⟩⟩
  · intro o os d ho hd
    rw [hos] at ho
    obtain ⟨hdc, hd⟩ := (hheld o d).1 hd
    obtain ⟨lci, hl, hown, hplace⟩ := hi.held o os d ho hd
    rw [hlci, update_of_ne hdc]
    refine ⟨lci, hl, hown, hplace.imp_right fun ⟨p, psmLci, hpl, hman⟩ => ⟨p, psmLci, ?_, hman⟩⟩
    have hpc : p ≠ c := fun hpc => hpsm o os ho (hpc ▸ hman.psm_eq)
    rwa [hlci, update_of_ne hpc]
  · intro o os p ho hp
    rw [hos] at ho
    have hpc : p ≠ c := fun hpc => hpsm o os ho (hpc ▸ hp)
    rw [hres, hlci, update_of_ne hpc, update_of_ne hpc]
    exact hi.psm o os p ho hp
  · intro o os i ho
    rw [hos] at ho
    exact hi.usage o os i ho
  · intro n hn
    rw [hnext] at hn
    rw [hlci, hres, hdl]
    rcases eq_or_ne n c with rfl | hnc
    · exact ⟨update_self .., update_self .., (hi.fresh n hn).2.2⟩
    · rw [update_of_ne hnc, update_of_ne hnc]
      exact hi.fresh n hn
  · intro r sr hsr
    rw [hres] at hsr
    obtain ⟨hrc, hsr⟩ := update_none_eq_some.1 hsr
    rw [hlci, update_of_ne hrc]
    exact hi.mem r sr hsr
  · intro r hin
    obtain ⟨hlt, hne, hr⟩ := hi.queued r (hsub _ hin)
    rw [hos, hnext, hdl]
    refine ⟨hlt, hne, fun sr hsr => ?_⟩
    rw [hres] at hsr
    exact hr sr (update_none_eq_some.1 hsr).2
  · intro p hin
    obtain ⟨hlt, hr, hne⟩ := hi.queuedPsm p (hsub _ hin)
    rw [hos, hnext, hres]
    refine ⟨hlt, ?_, hne⟩
    rcases eq_or_ne p c with rfl | hpc
    · exact update_self ..
    · rwa [update_of_ne hpc]

theorem mem_eraseIdx_of_ne {l : List RcuNode} {n m : RcuNode} (hi : l[i]? = some n)
    (hm : m ∈ l) (hne : m ≠ n) : m ∈ l.eraseIdx i := by
  obtain ⟨j, hj, hjm⟩ := mem_iff_getElem.1 hm
  refine mem_eraseIdx_iff_getElem.2 ⟨j, hj, ?_, hjm⟩
  rintro rfl
  rw [getElem?_eq_getElem hj, Option.some.injEq] at hi
  exact hne (hjm.symm.trans hi)

theorem SlotInv.collect (hi : SlotInv h) (hx : Rhype.collect h i = .ok h') : SlotInv h' := by
  unfold Rhype.collect at hx
  rcases hn : h.rcu[i]? with _ | n
  · rw [hn] at hx
    cases hx
    exact hi
  rw [hn] at hx
  have hmem : n ∈ h.rcu := mem_of_getElem? hn
  have hsub : ∀ m ∈ h.rcu.eraseIdx i, m ∈ h.rcu := fun m => mem_of_mem_eraseIdx
  -- a list that is cleaned up
  have hpop : (∀ c, n ≠ .physMem c) → (∀ c, n ≠ .psm c) →
      SlotInv { h with rcu := h.rcu.eraseIdx i } := by
    intro hphys hpsm
    exact hi.frame { MapFrame.refl h with
      physMem := fun c => ⟨hsub _, fun hin => mem_eraseIdx_of_ne hn hin (hphys c).symm⟩
      psm := fun c => ⟨hsub _, fun hin => mem_eraseIdx_of_ne hn hin (hpsm c).symm⟩
      pointed := fun _ hp => .inl hp }
  cases n with
  | pause t =>
    have hi0 := hpop nofun nofun
    exact hi0.forcedRescindCleanup hx
  | death t o =>
    obtain ⟨h1, hclean, hx⟩ := of_seq hx
    have hi0 := hpop nofun nofun
    exact (hi0.forcedRescindCleanup hclean).osFree hx
  | physMem c =>
    cases hx
    refine hi.free rfl rfl rfl rfl rfl hsub (fun d hd hin => ?_) (hi.queued c hmem).2.1 ?_
    · exact mem_eraseIdx_of_ne hn hin fun he => hd (RcuNode.physMem.inj he)
    · exact fun o ⟨_, _, _, _, hq⟩ => hq hmem
  | psm c =>
    cases hx
    obtain ⟨-, hres, hpsm⟩ := hi.queuedPsm c hmem
    refine hi.free rfl rfl ?_ rfl rfl hsub (fun d hd hin => ?_) hpsm ?_
    · rw [← hres, update_eq_self]
    · exact mem_eraseIdx_of_ne hn hin nofun
    · exact fun o ⟨_, hsr, _⟩ => absurd (hres.symm.trans hsr) nofun

end

end Rhype
