import Rhype.Logical.Equiv.Translate
import Rhype.Resource.Basic

/-!
# The real range of a granted chunk

A grant makes a child of the chunk that backs the address (`Exporter`).  The size of the child is
the size in the call, and `range_subset` compares the ends of the two ranges modulo `2^64`.

`export_inside_iff` says that the real range of the child lies in the real range of its parent
exactly when the ends do not wrap.  A grant that succeeds never has a wrapping end, because a size
of `2^63` or more is taken for an error code: `memGrant_inside` is the property for every parent
whose own real range does not wrap.
-/

namespace Rhype

open BitVec

/-- The chunk `q` that a grant of the address `a` of a slot with the chunk `c` is made from. -/
inductive Exporter (h : Hype) (c : LciId) (a : Uval) (q : LciId) (parent : Lci) : Prop
  | direct (hq : q = c) (hlci : h.lci c = some parent) (hops : parent.lciOps = .physMem)
  | shared (psmLci : Lci) (psm : Psm) (hpsmLci : h.lci c = some psmLci)
      (hops : psmLci.lciOps = .psm) (hpsm : h.psm c = some psm)
      (hentry : psm.entry (psmIndex psmLci a) = .ok (some q)) (hlci : h.lci q = some parent)

/-- The chunk `q` is the one a grant of the range `[a, a + size)` in a slot of `c` is made from, and
its checks take the range. -/
inductive Takes (h : Hype) (c : LciId) (a size : Uval) (q : LciId) (parent : Lci) : Prop
  | direct (hq : q = c) (hlci : h.lci c = some parent) (hops : parent.lciOps = .physMem)
      (hsub : rangeSubset parent.lciLaddr parent.lciSize a size = true)
  | shared (psmLci : Lci) (psm : Psm) (hpsmLci : h.lci c = some psmLci)
      (hpsmOps : psmLci.lciOps = .psm) (hpsm : h.psm c = some psm)
      (hentry : psm.entry (psmIndex psmLci a) = .ok (some q)) (hlci : h.lci q = some parent)
      (hsum : ¬ parent.lciSize < a - parent.lciLaddr + size)
      (hsub : rangeSubset parent.lciLaddr parent.lciSize a size = true)

/-- Every byte of the real range of `child` is a byte of the real range of `parent`, and the range
does not wrap. -/
def RealInside (child parent : Lci) : Prop :=
  ∀ x < child.lciSize.toNat, child.lciRaddr.toNat + x < 2 ^ 64 ∧
    parent.lciRaddr.toNat ≤ child.lciRaddr.toNat + x ∧
    child.lciRaddr.toNat + x < parent.lciRaddr.toNat + parent.lciSize.toNat

/-- The ends that are compared do not wrap, and neither does the real range that is granted. -/
def GrantFits (parent : Lci) (a size : Uval) : Prop :=
  size = 0 ∨
    ((a.toNat + size.toNat < 2 ^ 64 ∨
        2 ^ 64 ≤ parent.lciLaddr.toNat + parent.lciSize.toNat) ∧
      parent.lciRaddr.toNat + (a.toNat - parent.lciLaddr.toNat) + size.toNat ≤ 2 ^ 64)

section

variable {h h' : Hype} {c q n : LciId} {lci parent : Lci} {a size : Uval} {rc : Sval}
  {on : Option LciId}

/-- What an export that makes a chunk says: the new chunk `n` is a child of `q`. -/
structure Exported (h : Hype) (q : LciId) (parent : Lci) (a size : Uval) (rc : Sval) (n : LciId)
    (h' : Hype) : Prop where
  subset : rangeSubset parent.lciLaddr parent.lciSize a size = true
  rc_eq : rc = size.toInt
  id_eq : n = h.next
  state : ∃ sr, h.res q = some sr ∧
    h' = (newLci h (physMemLciInit (parent.lciRaddr + (a - parent.lciLaddr)) size) (some q)
      sr.srType).2

theorem Takes.exporter (ht : Takes h c a size q parent) : Exporter h c a q parent := by
  rcases ht with ⟨hq, hlci, hops, -⟩ | ⟨psmLci, psm, hl, hops, hpsm, hentry, hlci, -⟩
  · exact .direct hq hlci hops
  · exact .shared psmLci psm hl hops hpsm hentry hlci

theorem physMemExport_inv (hx : physMemExport h q parent a size = .ok (rc, on, h')) :
    (rc = hParameter ∧ on = none ∧ h' = h ∧
        ¬ rangeSubset parent.lciLaddr parent.lciSize a size = true) ∨
      ∃ n, on = some n ∧ Exported h q parent a size rc n h' := by
  unfold physMemExport at hx
  split_ifs at hx with hsub
  · cases hx
    exact .inl ⟨rfl, rfl, rfl, by simpa using hsub⟩
  · obtain ⟨sr, hsr, hx⟩ := of_live hx
    cases hx
    exact .inr ⟨_, rfl, by simpa using hsub, rfl, rfl, sr, hsr, rfl⟩

theorem psmExport_inv {x : Sval × Option LciId × Hype} (hx : psmExport h c lci a size = .ok x) :
    ∃ psm q parent, h.psm c = some psm ∧ psm.entry (psmIndex lci a) = .ok (some q) ∧
      h.lci q = some parent ∧
      ((parent.lciSize < a - parent.lciLaddr + size ∧ x = (hParameter, none, h)) ∨
        ¬ parent.lciSize < a - parent.lciLaddr + size ∧
          physMemExport h q parent a size = .ok x) := by
  obtain ⟨_, hidx, hx⟩ := of_seq hx
  obtain ⟨psm, hpsm, hx⟩ := of_live hx
  obtain ⟨q, hq, hx⟩ := of_seq hx
  obtain ⟨parent, hparent, hx⟩ := of_live hx
  rw [hassert_ok, decide_eq_true_eq] at hidx
  rw [nonNull_ok] at hq
  have hentry : psm.entry (psmIndex lci a) = .ok (some q) := by rw [Psm.entry, if_pos hidx, hq]
  refine ⟨psm, q, parent, hpsm, hentry, hparent, ?_⟩
  dsimp only at hx
  split_ifs at hx with hsum
  · cases hx
    exact .inl ⟨hsum, rfl⟩
  cases hops : parent.lciOps with
  | physMem =>
    rw [hops] at hx
    exact .inr ⟨hsum, hx⟩
  | psm =>
    rw [hops] at hx
    cases hx

/-- **An export** changes nothing when no chunk takes the range, or makes a child of the chunk that
takes it. -/
theorem exportFn_inv (hx : exportFn h c a size = .ok (rc, on, h')) :
    (rc = hParameter ∧ on = none ∧ h' = h ∧ ∀ q parent, ¬ Takes h c a size q parent) ∨
      ∃ n q parent, on = some n ∧ Takes h c a size q parent ∧
        Exported h q parent a size rc n h' := by
  obtain ⟨lci, hlci, hx⟩ := of_live hx
  cases hops : lci.lciOps with
  | physMem =>
    rw [hops] at hx
    rcases physMemExport_inv hx with ⟨hrc, hon, hh, hsub⟩ | ⟨n, hn, hex⟩
    · refine .inl ⟨hrc, hon, hh, fun q parent ht => ?_⟩
      rcases ht with ⟨-, hl, -, hsub'⟩ | ⟨psmLci, psm, hl, hops', -⟩ <;> cases hlci.symm.trans hl
      · exact hsub hsub'
      · cases hops.symm.trans hops'
    · exact .inr ⟨n, c, lci, hn, .direct rfl hlci hops hex.subset, hex⟩
  | psm =>
    rw [hops] at hx
    obtain ⟨psm, q0, parent0, hpsm, hentry, hparent, hcheck⟩ := psmExport_inv hx
    -- the chunk that would take the range is the one in the entry
    have hno : (parent0.lciSize < a - parent0.lciLaddr + size ∨
        ¬ rangeSubset parent0.lciLaddr parent0.lciSize a size = true) →
        ∀ q parent, ¬ Takes h c a size q parent := by
      rintro hcheck q parent
        (⟨-, hl, hops', -⟩ | ⟨psmLci, psm', hl, -, hpsm', hentry', hl', hsum, hsub⟩) <;>
      cases hlci.symm.trans hl
      · cases hops.symm.trans hops'
      cases hpsm.symm.trans hpsm'
      cases hentry.symm.trans hentry'
      cases hparent.symm.trans hl'
      exact hcheck.elim hsum (· hsub)
    rcases hcheck with ⟨hsum, hres⟩ | ⟨hsum, hexp⟩
    · cases hres
      exact .inl ⟨rfl, rfl, rfl, hno (.inl hsum)⟩
    rcases physMemExport_inv hexp with ⟨hrc, hon, hh, hsub⟩ | ⟨n, hn, hex⟩
    · exact .inl ⟨hrc, hon, hh, hno (.inr hsub)⟩
    · exact .inr ⟨n, q0, parent0, hn,
        .shared lci psm hlci hops hpsm hentry hparent hsum hex.subset, hex⟩

theorem Exported.child (hex : Exported h q parent a size rc n h') :
    h'.lci n = some (physMemLciInit (parent.lciRaddr + (a - parent.lciLaddr)) size) ∧
      ∃ sr, h'.res n = some sr ∧ sr.srParent = some q := by
  obtain ⟨sr, -, rfl⟩ := hex.state
  rw [hex.id_eq]
  exact ⟨Function.update_self .., _, Function.update_self .., rfl⟩

theorem realInside_iff_of_subset (hsub : rangeSubset parent.lciLaddr parent.lciSize a size = true) :
    RealInside (physMemLciInit (parent.lciRaddr + (a - parent.lciLaddr)) size) parent ↔
      GrantFits parent a size := by
  rw [rangeSubset_iff] at hsub
  have hoff : (a - parent.lciLaddr).toNat = a.toNat - parent.lciLaddr.toNat := by
    rw [toNat_sub]
    omega
  have hsz : size = 0 ↔ size.toNat = 0 := by
    rw [← toNat_inj]
    rfl
  unfold RealInside GrantFits physMemLciInit
  dsimp only
  rw [toNat_add, hsz]
  constructor
  · intro hall
    rcases Nat.eq_zero_or_pos size.toNat with hz | hpos
    · exact .inl hz
    -- the first and the last byte decide
    have hfirst := hall 0 hpos
    have hlast := hall (size.toNat - 1) (by omega)
    exact .inr ⟨by omega, by omega⟩
  · rintro (hz | ⟨hfit, hreal⟩) x hx <;> omega

/-- **The real range of an exported chunk lies in that of its parent** exactly when the ends of the
ranges do not wrap. -/
theorem export_inside_iff (hx : exportFn h c a size = .ok (rc, some n, h')) :
    ∃ q parent child, Exporter h c a q parent ∧ h'.lci n = some child ∧
      (∃ sr, h'.res n = some sr ∧ sr.srParent = some q) ∧
      (RealInside child parent ↔ GrantFits parent a size) := by
  rcases exportFn_inv hx with ⟨-, hnone, -⟩ | ⟨n, q, parent, ⟨⟩, ht, hex⟩
  · cases hnone
  exact ⟨q, parent, _, ht.exporter, hex.child.1, hex.child.2, realInside_iff_of_subset hex.subset⟩

/-- `export_inside_iff` for a page of a chunk. -/
theorem export_inside_iff_page :
    ∃ h', exportFn (oneChunk 0) 0 0x1000 0x1000 = .ok (0x1000, some 1, h') ∧
      ∃ q parent child, Exporter (oneChunk 0) 0 0x1000 q parent ∧ h'.lci 1 = some child ∧
        (∃ sr, h'.res 1 = some sr ∧ sr.srParent = some q) ∧
        (RealInside child parent ↔ GrantFits parent 0x1000 0x1000) :=
  ⟨_, rfl, @export_inside_iff (oneChunk 0) _ 0 1 0x1000 0x1000 0x1000 rfl⟩

/-- A size that reaches around the address space passes the check. -/
theorem export_wraps :
    ¬ ∀ h c a size rc n h' q parent child, exportFn h c a size = .ok (rc, some n, h') →
      Exporter h c a q parent → h'.lci n = some child → RealInside child parent := by
  intro hall
  have hin := hall (oneChunk 0) 0 0x1000 0xfffffffffffff000 _ _ _ 0 _ _ rfl
    (.direct rfl rfl rfl) rfl
  -- the last byte of the child has wrapped
  have hlast := hin 0xffffffffffffefff (by decide)
  exact absurd hlast.1 (by decide)

/-! ### Grants that succeed -/

variable {src dest : OsId}

/-- What `mem_grant` comes to: no chunk takes the range, or a chunk is made for it.  The new chunk
is left behind if the size is taken for an error code, and destroyed if it is in conflict with
another. -/
inductive GrantEnd (h : Hype) (src : OsId) (a size : Uval) (dest : OsId) :
    Sval → Option ResId → Hype → Prop
  | refused (hno : ∀ os c q parent, h.os src = some os → laddrToLci os a = .ok (some c) →
      ¬ Takes h c a size q parent) : GrantEnd h src a size dest hParameter none h
  | made {os : Os} {c q n : LciId} {parent : Lci} {h' h'' : Hype} {rc : Sval} {on : Option ResId}
      (hos : h.os src = some os) (hlook : laddrToLci os a = .ok (some c))
      (ht : Takes h c a size q parent) (hex : Exported h q parent a size size.toInt n h')
      (hend : (size.toInt < 0 ∧ rc = size.toInt ∧ on = none ∧ h'' = h') ∨
        0 ≤ size.toInt ∧ resourceConflict h' dest n = .ok rc ∧
          (rc ≠ hSuccess ∧ on = none ∧ h'' = h'.rcuDefer (.physMem n) ∨
            rc = hSuccess ∧ on = some n ∧ h'' = h')) :
      GrantEnd h src a size dest rc on h''

theorem memGrant_end {on : Option ResId} (hx : memGrant h src a size dest = .ok (rc, on, h')) :
    GrantEnd h src a size dest rc on h' := by
  obtain ⟨os, hos, hx⟩ := of_live hx
  obtain ⟨oc, hlook, hx⟩ := of_seq hx
  have hsame : ∀ os' c', h.os src = some os' → laddrToLci os' a = .ok (some c') →
      oc = some c' := by
    intro os' c' hos' hlook'
    cases hos.symm.trans hos'
    exact Except.ok.inj (hlook.symm.trans hlook')
  rcases oc with _ | c
  · cases hx
    exact .refused fun os' c' _ _ hos' hlook' _ => nomatch hsame os' c' hos' hlook'
  obtain ⟨⟨err, on', h1⟩, hexp, hx⟩ := of_seq hx
  rcases exportFn_inv hexp with ⟨rfl, rfl, hh, hno⟩ | ⟨n, q, parent, rfl, ht, hex⟩
  · rw [hh] at hx
    cases hx
    refine .refused fun os' c' q parent hos' hlook' => ?_
    cases hsame os' c' hos' hlook'
    exact hno q parent
  cases hex.rc_eq
  dsimp only at hx
  split_ifs at hx with herr
  · cases hx
    exact .made hos hlook ht hex (.inl ⟨herr, rfl, rfl, rfl⟩)
  obtain ⟨_, hn, hx⟩ := of_seq hx
  cases nonNull_ok.1 hn
  obtain ⟨err', hconf, hx⟩ := of_seq hx
  refine .made hos hlook ht hex (.inr ⟨not_lt.1 herr, ?_⟩)
  split_ifs at hx with hne
  · cases hx
    exact ⟨hconf, .inl ⟨hne, rfl, rfl⟩⟩
  · cases hx
    rw [not_not.1 hne] at hconf
    exact ⟨hconf, .inr ⟨rfl, rfl, rfl⟩⟩

/-- **A grant that succeeds stays in the real range of its parent**, if that range does not wrap
itself. -/
theorem memGrant_inside (hx : memGrant h src a size dest = .ok (rc, some n, h')) :
    ∃ os c q parent child, h.os src = some os ∧ SlotOf os a c ∧ Exporter h c a q parent ∧
      h'.lci n = some child ∧
      (parent.lciRaddr.toNat + parent.lciSize.toNat ≤ 2 ^ 64 → RealInside child parent) := by
  obtain _ | ⟨hos, hlook, ht, hex, ⟨-, -, hnone, -⟩ | ⟨herr, -, ⟨-, hnone, -⟩ | ⟨-, ⟨⟩, rfl⟩⟩⟩ :=
    memGrant_end hx
  · cases hnone
  · cases hnone
  have hslot := laddrToLci_eq_ok.1 hlook
  refine ⟨_, _, _, _, _, hos, hslot, ht.exporter, hex.child.1, fun hpar => ?_⟩
  rw [realInside_iff_of_subset hex.subset]
  have ha := hslot.1
  have hsub := rangeSubset_iff.1 hex.subset
  rw [toInt_eq_toNat_cond] at herr
  rw [chunkNumberAddr_eq, maxLogicalMemChunks] at ha
  exact .inr ⟨.inl (by omega), by omega⟩

/-- `memGrant_inside` for that page. -/
theorem memGrant_inside_page : ∃ h' parent child,
    memGrant (oneChunk 0) 0 0x1000 0x1000 0 = .ok (hSuccess, some 1, h') ∧
      h'.lci 1 = some child ∧
      (parent.lciRaddr.toNat + parent.lciSize.toNat ≤ 2 ^ 64 → RealInside child parent) := by
  obtain ⟨_, _, _, parent, child, -, -, -, hchild⟩ :=
    @memGrant_inside (oneChunk 0) _ 1 0x1000 0x1000 hSuccess 0 0 rfl
  exact ⟨_, parent, child, rfl, hchild⟩

end

end Rhype
