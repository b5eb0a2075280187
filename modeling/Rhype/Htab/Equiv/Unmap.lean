import Rhype.Htab.Equiv.Valid
import Rhype.Htab.Unmap

/-!
# What the scan for a chunk leaves in the table

`hpte_scan_unmap` is to invalidate every entry that maps a page of the chunk.  The shadow of an
entry is the *number* of its logical page, and the scan compares it with the range of *addresses* of
the chunk.  `scan_unmaps_iff` says when the scan does what it is for: every valid entry for a page
of the chunk has a page number that is also an address of the chunk, and the scan runs at all.
-/

namespace Rhype

open Function

/-- The logical page with number `lrpn` starts in the chunk. -/
def PageIn (lci : Lci) (lrpn : Uval) : Prop :=
  lci.lciLaddr.toNat ≤ lrpn.toNat * 4096 ∧
    lrpn.toNat * 4096 < lci.lciLaddr.toNat + lci.lciSize.toNat

/-- Entry `i` of the table of the partition is valid and maps a page of the chunk. -/
def MapsChunk (os : Os) (lci : Lci) (i : Nat) : Prop :=
  i < os.htab.numPtes ∧ (os.htab.pte i).v = true ∧ PageIn lci (os.htab.shadow i)

/-! ### The scan -/

theorem ptesTlbiesLoop_valid (lci : Lci) (shadow : Nat → Uval) (j : Nat) :
    ∀ (n ptex : Nat) (pte : Nat → Pte),
      (ptesTlbiesLoop lci shadow n ptex pte j).v = true ↔ (pte j).v = true ∧
        ¬ (ptex ≤ j ∧ j < ptex + n ∧ rangeContains lci.lciLaddr lci.lciSize (shadow j) = true)
  | 0, ptex, pte => by
    rw [ptesTlbiesLoop]
    exact ⟨fun h => ⟨h, by omega⟩, fun h => h.1⟩
  | n + 1, ptex, pte => by
    rw [ptesTlbiesLoop, ptesTlbiesLoop_valid lci shadow j n (ptex + 1)]
    -- the round of entry `j` itself decides; the others leave it alone
    by_cases hj : j = ptex
    · subst hj
      split_ifs with hc
      · rw [update_self]
        rw [Bool.and_eq_true] at hc
        simp [hc.2]
      · rw [Bool.and_eq_true, not_and] at hc
        exact ⟨fun h => ⟨h.1, fun hr => hc h.1 hr.2.2⟩, fun h => ⟨h.1, by omega⟩⟩
    have hpte : ∀ q : Pte, (if ((pte ptex).v && rangeContains lci.lciLaddr lci.lciSize
        (shadow ptex)) = true then update pte ptex q else pte) j = pte j := by
      intro q
      split_ifs
      · exact update_of_ne hj _ _
      · rfl
    rw [hpte]
    have hrange : (ptex + 1 ≤ j ∧ j < ptex + 1 + n) ↔ (ptex ≤ j ∧ j < ptex + (n + 1)) := by omega
    rw [← and_assoc, ← and_assoc, hrange]

theorem ptesTlbies_valid (ht : Htab) (lci : Lci) {j : Nat} (hj : j < ht.numPtes) :
    ((ptesTlbies ht lci).pte j).v = true ↔
      (ht.pte j).v = true ∧ rangeContains lci.lciLaddr lci.lciSize (ht.shadow j) = false := by
  rw [ptesTlbies, ptesTlbiesLoop_valid]
  simp [hj]

/-! ### Unmapping a chunk -/

section

variable {h h' : Hype} {c : LciId} {lci : Lci} {o : OsId} {os : Os}

theorem hpteScanUnmap_os (hlci : h.lci c = some lci) (ho : lci.lciOs = some o)
    (hos : h.os o = some os) (hx : hpteScanUnmap h c = .ok h') :
    h'.os o = some (if lci.lciPtecount = 0 ∨ os.sfwTlb = true then os
      else { os with htab := ptesTlbies os.htab lci }) := by
  rw [hpteScanUnmap, hlci, live, ok_bind] at hx
  by_cases hcount : lci.lciPtecount = 0
  · rw [if_neg (by simpa using hcount)] at hx
    cases hx
    rw [if_pos (.inl hcount), hos]
  rw [if_pos hcount, ho, nonNull, ok_bind, hos] at hx
  cases hx
  rw [Hype.setLciObj, Hype.setOs]
  dsimp only
  rw [update_self]
  by_cases htlb : os.sfwTlb = true
  · rw [if_pos htlb, if_pos (.inr htlb)]
  · rw [if_neg htlb, if_neg (not_or.2 ⟨hcount, htlb⟩)]

/-- **The scan leaves no entry of the chunk** exactly when it runs, and every valid entry for a page
of the chunk has a page number in the range of addresses of the chunk. -/
theorem scan_unmaps_iff (hlci : h.lci c = some lci) (ho : lci.lciOs = some o)
    (hos : h.os o = some os) (hx : hpteScanUnmap h c = .ok h') :
    (∀ os' i, h'.os o = some os' → ¬ MapsChunk os' lci i) ↔
      ∀ i, MapsChunk os lci i → lci.lciPtecount ≠ 0 ∧ os.sfwTlb = false ∧
        rangeContains lci.lciLaddr lci.lciSize (os.htab.shadow i) = true := by
  rw [hpteScanUnmap_os hlci ho hos hx]
  split_ifs with hrun
  · -- the table is not scanned, so every entry of the chunk stays
    constructor
    · intro hnone i hi
      exact absurd hi (hnone os i rfl)
    · rintro hcond os' i heq hi
      cases heq
      obtain ⟨hcount, htlb, -⟩ := hcond i hi
      rcases hrun with hrun | hrun
      · exact hcount hrun
      · simp [hrun] at htlb
  rw [not_or, Bool.not_eq_true] at hrun
  constructor
  · intro hnone i hi
    refine ⟨hrun.1, hrun.2, ?_⟩
    by_contra hr
    rw [Bool.not_eq_true] at hr
    exact hnone _ i rfl ⟨hi.1, (ptesTlbies_valid os.htab lci hi.1).2 ⟨hi.2.1, hr⟩, hi.2.2⟩
  · rintro hcond os' i heq ⟨hi, hv, hin⟩
    cases heq
    obtain ⟨hv, hr⟩ := (ptesTlbies_valid os.htab lci hi).1 hv
    rw [(hcond i ⟨hi, hv, hin⟩).2.2] at hr
    cases hr

end

/-- The entry of a page of the chunk in slot `0` is found: its page number is an address in the
chunk. -/
theorem scan_unmaps_iff_entered :
    ∃ h lci os h', htabStep (oneChunk 0) (0, .enter hExact 0 1 0x1010) = .ok h ∧
      h.lci 0 = some lci ∧ h.os 0 = some os ∧ MapsChunk os lci 0 ∧ hpteScanUnmap h 0 = .ok h' ∧
      ∀ os' i, h'.os 0 = some os' → ¬ MapsChunk os' lci i := by
  obtain ⟨h, os, hstep, hlci, hos, hn, hv, hsh, htlb, hother⟩ :
      ∃ h os, htabStep (oneChunk 0) (0, .enter hExact 0 1 0x1010) = .ok h ∧
        h.lci 0 = some ⟨0x10000000, 0, chunkSize, 1, false, .physMem, some 0⟩ ∧
        h.os 0 = some os ∧ os.htab.numPtes = 16384 ∧ (os.htab.pte 0).v = true ∧
        os.htab.shadow 0 = 1 ∧ os.sfwTlb = false ∧ ∀ i, (os.htab.pte (i + 1)).v = false :=
    ⟨_, _, rfl, rfl, rfl, rfl, rfl, rfl, rfl, fun _ => rfl⟩
  obtain ⟨h', hx⟩ : ∃ h', hpteScanUnmap h 0 = .ok h' := by
    rw [hpteScanUnmap, hlci, live, ok_bind, nonNull, ok_bind, hos]
    exact ⟨_, rfl⟩
  refine ⟨h, _, os, h', hstep, hlci, hos, ⟨by omega, hv, ?_⟩, hx,
    (scan_unmaps_iff hlci rfl hos hx).2 fun i hi => ?_⟩
  · rw [hsh]
    unfold PageIn
    decide
  rcases i with _ | i
  · exact ⟨by decide, htlb, by rw [hsh]; decide⟩
  · cases (hother i).symm.trans hi.2.1

/-- The calls that the scan has to undo. -/
def HtabCall.entersOrChanges : HtabCall → Bool
  | .enter .. | .remove .. | .protect .. => true
  | _ => false

/-- One `H_ENTER` of the first page of the chunk in slot `1`, and then the unmap of the chunk: the
entry stays valid. -/
theorem scan_leaves_entry :
    ¬ ∀ h0 calls h c lci o h' os', Run htabStep (fun _ x => x.2.entersOrChanges = true) h0 calls h →
      (∀ o i, ¬ ValidAt h0 o i) → h.lci c = some lci → lci.lciOs = some o →
      (∃ os k, h.os o = some os ∧ os.pLci k = some c) → hpteScanUnmap h c = .ok h' →
      h'.os o = some os' → ∀ i, ¬ MapsChunk os' lci i := by
  intro hall
  obtain ⟨h, os, hstep, hlci, hos, hv, hsh, hn, htlb, hslot⟩ :
      ∃ h os, htabStep (oneChunk 1) (0, .enter hExact 0 1 0x4000010) = .ok h ∧
        h.lci 0 = some ⟨0x10000000, 0x4000000, chunkSize, 1, false, .physMem, some 0⟩ ∧
        h.os 0 = some os ∧ (os.htab.pte 0).v = true ∧ os.htab.shadow 0 = 0x4000 ∧
        os.htab.numPtes = 16384 ∧ os.sfwTlb = false ∧ os.pLci 1 = some 0 :=
    ⟨_, _, rfl, rfl, rfl, rfl, rfl, rfl, rfl, rfl⟩
  have hrun : Run htabStep (fun _ x => x.2.entersOrChanges = true) (oneChunk 1)
      [(0, .enter hExact 0 1 0x4000010)] h := .cons rfl hstep (.nil _)
  have hfresh : ∀ o i, ¬ ValidAt (oneChunk 1) o i := by
    rintro o i ⟨os, hos, hv⟩
    by_cases ho : o = 0
    · subst ho
      cases hos
      cases hv
    · simp [oneChunk, Hype.boot, ho] at hos
  obtain ⟨h', hx⟩ : ∃ h', hpteScanUnmap h 0 = .ok h' := by
    rw [hpteScanUnmap, hlci, live, ok_bind, nonNull, ok_bind, hos]
    exact ⟨_, rfl⟩
  have hos' := hpteScanUnmap_os hlci rfl hos hx
  rw [if_neg (by simp [htlb])] at hos'
  refine hall _ _ h 0 _ 0 h' _ hrun hfresh hlci rfl ⟨os, 1, hos, hslot⟩ hx hos' 0 ⟨?_, ?_, ?_⟩
  · rw [ptesTlbies, hn]
    decide
  · refine (ptesTlbies_valid os.htab _ (by omega)).2 ⟨hv, ?_⟩
    rw [hsh]
    decide
  · rw [ptesTlbies, hsh]
    unfold PageIn
    decide

end Rhype
