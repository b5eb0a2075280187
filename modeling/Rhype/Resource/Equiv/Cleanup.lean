import Rhype.Logical.Equiv.Place
import Rhype.Resource.Rescind

/-!
# What the second phase of a rescind does

One inversion lemma for each function of a cleanup.  When a mapped resource is returned, its chunk
is taken out of its slots, or it is in the page-share manager of its owner; then the page table
entries that were counted for it become invalid (`UnmapStep`).  `cleanupLoop_induct` is the
induction over the list that is cleaned up.
-/

namespace Rhype

/-- The bitmap of a page-share manager. -/
def Hype.usage (h : Hype) (p : LciId) : Option (Lbm numPsmEntries) := (h.psm p).map Psm.psmUsage

theorem usage_setPsm {h : Hype} {p : LciId} {psm psm' : Psm} (hpsm : h.psm p = some psm)
    (huse : psm'.psmUsage = psm.psmUsage) : (h.setPsm p psm').usage = h.usage := by
  funext q
  unfold Hype.usage Hype.setPsm
  dsimp only
  by_cases hq : q = p
  · subst hq
    rw [Function.update_self, hpsm, Option.map_some, Option.map_some, huse]
  · rw [Function.update_of_ne hq]

/-! ### Unmapping a chunk -/

/-- The state of a cleanup in the page-share manager keeps the bitmap, and the chunk but for its
count; entries are only cleared. -/
structure PsmUnmap.Keeps (s s' : PsmUnmap) : Prop where
  usage : s'.psm.psmUsage = s.psm.psmUsage
  entry : ∀ i q, s'.psm.psmEntries i = some q → s.psm.psmEntries i = some q
  lci : ∃ n, s'.lci = { s.lci with lciPtecount := n }

namespace PsmUnmap.Keeps

theorem refl (s : PsmUnmap) : s.Keeps s := ⟨rfl, fun _ _ => id, _, rfl⟩

theorem trans {s s' s'' : PsmUnmap} (h1 : s.Keeps s') (h2 : s'.Keeps s'') : s.Keeps s'' := by
  obtain ⟨n, hn⟩ := h2.lci
  obtain ⟨m, hm⟩ := h1.lci
  exact ⟨h2.usage.trans h1.usage, fun i q hq => h1.entry i q (h2.entry i q hq), n, by rw [hn, hm]⟩

end PsmUnmap.Keeps

theorem unmapPage_keeps {start : Uval} {b : Bool} (fuel : Nat) (s s' : PsmUnmap)
    (hx : unmapPage start fuel s = .ok (b, s')) : s.Keeps s' := by
  induction fuel generalizing s with
  | zero => cases hx
  | succ fuel ih =>
    unfold unmapPage at hx
    split at hx
    -- no entry is recorded for the page any more
    · cases hx
      exact ⟨rfl, fun _ _ => id, _, rfl⟩
    obtain ⟨ht, -, hx⟩ := of_seq hx
    dsimp only at hx
    split_ifs at hx
    · cases hx
      exact ⟨rfl, fun _ _ => id, _, rfl⟩
    · refine .trans ?_ (ih _ hx)
      exact ⟨rfl, fun _ _ => id, _, rfl⟩

theorem unmapPages_keeps {stop : Uval} (fuel : Nat) (start : Uval) (idx : Nat) (s s' : PsmUnmap)
    (hx : unmapPages stop fuel start idx s = .ok s') : s.Keeps s' := by
  induction fuel generalizing start idx s with
  | zero => cases hx
  | succ fuel ih =>
    unfold unmapPages at hx
    split_ifs at hx
    · obtain ⟨entries, hfill, hx⟩ := of_seq hx
      obtain ⟨⟨done, s1⟩, hpage, hx⟩ := of_seq hx
      -- one page: its entry of the manager, then its recorded entries
      have hpage : s.Keeps s1 := by
        refine .trans ?_ (unmapPage_keeps _ _ _ hpage)
        refine ⟨rfl, fun i q hq => ?_, _, rfl⟩
        have hq := ((fill_ok _ _ hfill).2 i).symm.trans hq
        split_ifs at hq
        exact hq
      dsimp only at hx
      split_ifs at hx
      · cases hx
        exact hpage
      · exact hpage.trans (ih _ _ _ hx)
    · cases hx
      exact .refl _

/-- Entries of a hash table become invalid and are no longer counted for the chunk `c`.  The
page-share managers keep their bitmaps and get no entries. -/
inductive UnmapStep (h : Hype) (c : LciId) : Hype → Prop
  | none : UnmapStep h c h
  | some {lci : Lci} {o : OsId} {os : Os} {psms : LciId → Option Psm} (ht : Htab) (n : BitVec 32)
      (hlci : h.lci c = .some lci) (hos : h.os o = .some os)
      (husage : ({ h with psm := psms } : Hype).usage = h.usage)
      (hentry : ∀ p psm' i q, psms p = .some psm' → psm'.psmEntries i = .some q →
        ∃ psm, h.psm p = .some psm ∧ psm.psmEntries i = .some q) :
      UnmapStep h c { (h.setOs o { os with htab := ht }).setLciObj c
        { lci with lciPtecount := n } with psm := psms }

section

variable {h h' : Hype} {c p : LciId} {r : ResId}

theorem hpteScanUnmap_step (hx : hpteScanUnmap h c = .ok h') : UnmapStep h c h' := by
  obtain ⟨lci, hlci, hx⟩ := of_live hx
  split_ifs at hx
  · obtain ⟨o, -, hx⟩ := of_seq hx
    obtain ⟨os, hos, hx⟩ := of_live hx
    cases hx
    exact .some _ 0 hlci hos rfl fun _ psm _ _ hp hq => ⟨psm, hp, hq⟩
  · cases hx
    exact .none

theorem psmUnmapLci_step (hx : psmUnmapLci h p c = .ok h') : UnmapStep h c h' := by
  obtain ⟨psm, hpsm, hx⟩ := of_live hx
  obtain ⟨psmLci, -, hx⟩ := of_seq hx
  obtain ⟨lci, hlci, hx⟩ := of_live hx
  obtain ⟨_, -, hx⟩ := of_seq hx
  split_ifs at hx
  · cases hx
    exact .none
  obtain ⟨o, -, hx⟩ := of_seq hx
  obtain ⟨os, hos, hx⟩ := of_live hx
  obtain ⟨s, hpages, hx⟩ := of_seq hx
  obtain ⟨husage, hentry, n, hn⟩ := unmapPages_keeps _ _ _ _ _ hpages
  rw [hn] at hx
  cases hx
  refine .some _ n hlci hos (usage_setPsm hpsm husage) ?_
  intro q psm' i x hq hx
  rcases update_some_eq_some.1 hq with ⟨rfl, rfl⟩ | ⟨-, hq⟩
  · exact ⟨psm, hpsm, hentry i x hx⟩
  · exact ⟨psm', hq, hx⟩

/-! ### The cleanup -/

/-- The chunk is taken out of its slots and unmapped. -/
def DetachedBy (h : Hype) (r : ResId) (h' : Hype) : Prop :=
  ∃ rc h1, detachLci h r = .ok (rc, h1) ∧ UnmapStep h1 r h'

/-- The address of the chunk is one of the page-share manager of its owner. -/
def PsmHas (h : Hype) (r : ResId) : Prop :=
  ∃ lci o os p psmLci, h.lci r = some lci ∧ lci.lciOs = some o ∧ h.os o = some os ∧
    os.poPsm = some p ∧ h.lci p = some psmLci ∧ psmOwns psmLci lci.lciLaddr = true

theorem mmioReturn_ok (hx : mmioReturn h r = .ok h') : DetachedBy h r h' := by
  obtain ⟨⟨rc, h1⟩, hdet, hx⟩ := of_seq hx
  obtain ⟨lci, -, hx⟩ := of_seq hx
  cases hops : lci.lciOps with
  | physMem =>
    rw [hops] at hx
    exact ⟨rc, h1, hdet, hpteScanUnmap_step hx⟩
  | psm =>
    rw [hops] at hx
    cases hx

theorem returnFn_ok {t : MemType} (hx : returnFn h (.mem t) r = .ok h') :
    DetachedBy h r h' ∨ PsmHas h r ∧ UnmapStep h r h' := by
  cases t with
  | mmioAddr => exact .inl (mmioReturn_ok hx)
  | memAddr =>
    obtain ⟨lci, hlci, hx⟩ := of_live hx
    obtain ⟨o, ho, hx⟩ := of_seq hx
    obtain ⟨os, hos, hx⟩ := of_live hx
    rcases hp : os.poPsm with _ | p
    · rw [hp] at hx
      exact .inl (mmioReturn_ok hx)
    rw [hp] at hx
    obtain ⟨psmLci, hpsmLci, hx⟩ := of_live hx
    split_ifs at hx with howns
    · exact .inr ⟨⟨lci, o, os, p, psmLci, hlci, nonNull_ok.1 ho,
        hos, hp, hpsmLci, howns⟩, psmUnmapLci_step hx⟩
    · exact .inl (mmioReturn_ok hx)

/-- What the cleanup of a resource does. -/
structure CleanupStep (h : Hype) (r : ResId) (sr : SysResource) (h1 h2 h' : Hype) : Prop where
  res_eq : h.res r = some sr
  rescinded : sr.srRescinded = true
  owner : ∃ o os, sr.srOwner = some o ∧ h.os o = some os
  returned : (sr.srMapped = false ∧ h1 = h.setDl (h.dl.detach (.osRes r))) ∨
    sr.srMapped = true ∧ returnFn (h.setDl (h.dl.detach (.osRes r))) sr.srType r = .ok h1
  destroyed : rescindFn h1 sr.srType r = .ok h2
  state : h' = h2.setDl (h2.dl.detach (.siblings r))

theorem cleanupRes_ok (hx : cleanupRes h r = .ok h') : ∃ sr h1 h2, CleanupStep h r sr h1 h2 h' := by
  rw [cleanupRes_eq] at hx
  obtain ⟨sr, hsr, hx⟩ := of_live hx
  obtain ⟨o, ho, hx⟩ := of_seq hx
  obtain ⟨os, hos, hx⟩ := of_live hx
  obtain ⟨_, hres, hx⟩ := of_seq hx
  obtain ⟨_, -, hx⟩ := of_seq hx
  have howner : ∃ o os, sr.srOwner = some o ∧ h.os o = some os :=
    ⟨o, os, nonNull_ok.1 ho, hos⟩
  split_ifs at hx with hmapped
  · obtain ⟨h1, hret, hx⟩ := of_seq hx
    obtain ⟨h2, hdes, hx⟩ := of_seq hx
    cases hx
    exact ⟨sr, h1, h2, hsr, hassert_ok.1 hres, howner, .inr ⟨hmapped, hret⟩, hdes, rfl⟩
  rw [ok_bind] at hx
  obtain ⟨h2, hdes, hx⟩ := of_seq hx
  cases hx
  exact ⟨sr, _, h2, hsr, hassert_ok.1 hres, howner, .inl ⟨by simpa using hmapped, rfl⟩, hdes, rfl⟩

theorem rescindFn_ok {type : ResType} (hx : rescindFn h type r = .ok h') :
    h' = h ∧ type = .intrSrc ∨ h' = h.rcuDefer (.physMem r) := by
  cases type with
  | mem t =>
    obtain ⟨_, -, hx⟩ := of_seq hx
    cases hx
    exact .inr rfl
  | intrSrc =>
    cases hx
    exact .inl ⟨rfl, rfl⟩

theorem cleanupLoop_induct {P : Hype → Prop} {nodes : DRef}
    (hstep : ∀ h r h', P h → cleanupRes h r = .ok h' → P h') :
    ∀ (fuel : Nat) (curr : DRef) (h : Hype), P h → cleanupLoop nodes fuel curr h = .ok h' → P h'
  | fuel + 1, curr, h, hP, hx => by
    unfold cleanupLoop at hx
    split_ifs at hx
    · cases hx
      exact hP
    split at hx
    · obtain ⟨h1, hres, hx⟩ := of_seq hx
      exact cleanupLoop_induct hstep fuel _ h1 (hstep _ _ _ hP hres) hx
    · cases hx

end

end Rhype
