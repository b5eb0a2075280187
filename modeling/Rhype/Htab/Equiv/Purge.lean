import Rhype.Htab.Call
import Rhype.Htab.Purge

/-!
# What `htab_purge_vsid` purges

The range test is one subtraction of words, so the range is taken modulo `2^64`.  `purge_vsid`: when
no entry is locked, the call returns, the valid entries of the range are invalid afterwards, and
every other entry and every other shadow is as it was.
-/

namespace Rhype

open BitVec Function Htab

/-- The segment is one of the `n` segments from `vsid` on, modulo the word. -/
def InVsids (vsid n x : Uval) : Prop := ∃ k : Uval, k < n ∧ x = vsid + k

theorem inVsids_iff {vsid n x : Uval} : InVsids vsid n x ↔ x - vsid < n := by
  constructor
  · rintro ⟨k, hk, rfl⟩
    rwa [add_comm, add_sub_cancel]
  · intro hlt
    exact ⟨x - vsid, hlt, by rw [add_comm, sub_add_cancel]⟩

instance (vsid n x : Uval) : Decidable (InVsids vsid n x) := decidable_of_iff' _ inVsids_iff

/-- The entry is valid, and its segment is in the range. -/
def Purged (vsid n : Uval) (p : Pte) : Prop := p.v = true ∧ InVsids vsid n p.vsid

instance (vsid n : Uval) (p : Pte) : Decidable (Purged vsid n p) :=
  inferInstanceAs (Decidable (_ ∧ _))

theorem purgeSkips_iff {vsid n : Uval} {p : Pte} :
    purgeSkips p p.vsid vsid n = true ↔ ¬ Purged vsid n p := by
  unfold purgeSkips Purged
  rw [inVsids_iff, Bool.or_eq_true, Bool.not_eq_true', decide_eq_true_eq, not_and_or,
    Bool.not_eq_true, BitVec.not_lt]

/-! ### One entry -/

/-- The table with entry `i` purged. -/
def Htab.purge (ht : Htab) (i : Nat) : Htab :=
  { ht.withPte i { ht.pte i with v := false } with shadow := update ht.shadow i 0 }

section

variable {L : PteLocking} {ht : Htab} {i : Nat} {vsid n : Uval}

theorem pteInvalidate_eq (hi : i < ht.numPtes) : pteInvalidate ht i = .ok (ht.purge i) := by
  rw [pteInvalidate, get_eq_ok.2 ⟨hi, rfl⟩, ok_bind, set_eq_ok.2 ⟨hi, rfl⟩]
  exact setShadow_eq_ok.2 ⟨hi, rfl⟩

theorem purgeEntry_eq (hi : i < ht.numPtes) (hlock : ¬ L.Held (ht.pte i)) :
    purgeEntry L vsid n ht i = .ok (if Purged vsid n (ht.pte i) then ht.purge i else ht) := by
  rw [purgeEntry, get_eq_ok.2 ⟨hi, rfl⟩, ok_bind]
  by_cases hin : Purged vsid n (ht.pte i)
  · obtain ⟨q, hq, hv, hunlock⟩ := L.lock_ok _ hlock
    have hskip : ∀ p : Pte, p.v = (ht.pte i).v → purgeSkips p (ht.pte i).vsid vsid n = false := by
      intro p hp
      rw [purgeSkips, hp, ← purgeSkips, ← Bool.not_eq_true, purgeSkips_iff]
      exact not_not.2 hin
    have hlocked : i < (ht.withPte i q).numPtes := hi
    rw [if_neg (by simp [hskip]), if_pos hin, hq, ok_bind, set_eq_ok.2 ⟨hi, rfl⟩, ok_bind,
      if_neg (by simp [hskip q hv]), pteInvalidate_eq hlocked, ok_bind]
    dsimp only
    rw [get_eq_ok.2 ⟨show i < ((ht.withPte i q).purge i).numPtes from hi, update_self ..⟩, ok_bind,
      withPte_pte_self, hunlock, ok_bind,
      set_eq_ok.2 ⟨show i < ((ht.withPte i q).purge i).numPtes from hi, rfl⟩]
    -- the stores to the entry are the last one
    unfold purge withPte
    dsimp only
    rw [update_idem, update_idem]
  · rw [if_pos (purgeSkips_iff.2 hin), if_neg hin]

end

/-! ### The whole table -/

/-- What is left of the table `ht` when the entries from `lo` to `hi` were looked at. -/
structure PurgedTo (vsid n : Uval) (lo hi : Nat) (ht ht' : Htab) : Prop where
  numPtes : ht'.numPtes = ht.numPtes
  purged : ∀ j, lo ≤ j → j < hi → Purged vsid n (ht.pte j) →
    ht'.pte j = { ht.pte j with v := false } ∧ ht'.shadow j = 0
  kept : ∀ j, ¬ (lo ≤ j ∧ j < hi ∧ Purged vsid n (ht.pte j)) →
    ht'.pte j = ht.pte j ∧ ht'.shadow j = ht.shadow j

theorem purgeLoop_spec (L : PteLocking) (vsid n : Uval) :
    ∀ (k i : Nat) (ht : Htab), i + k ≤ ht.numPtes →
    (∀ j, i ≤ j → j < i + k → ¬ L.Held (ht.pte j)) →
    ∃ ht', purgeLoop L vsid n k i ht = .ok ht' ∧ PurgedTo vsid n i (i + k) ht ht'
  | 0, i, ht, _, _ =>
    ⟨ht, rfl, rfl, fun j hlo hhi => by omega, fun j _ => ⟨rfl, rfl⟩⟩
  | k + 1, i, ht, hle, hlock => by
    rw [purgeLoop, purgeEntry_eq (by omega) (hlock i le_rfl (by omega)), ok_bind]
    -- the round changes entry `i` only
    set ht1 := if Purged vsid n (ht.pte i) then ht.purge i else ht with hht1
    have hnum : ht1.numPtes = ht.numPtes := by
      rw [hht1]
      split_ifs <;> rfl
    have hrest : ∀ j, j ≠ i → ht1.pte j = ht.pte j ∧ ht1.shadow j = ht.shadow j := by
      intro j hj
      rw [hht1]
      split_ifs
      · exact ⟨update_of_ne hj .., update_of_ne hj ..⟩
      · exact ⟨rfl, rfl⟩
    obtain ⟨ht', hloop, hspec⟩ := purgeLoop_spec L vsid n k (i + 1) ht1 (by omega)
      fun j hlo hhi => by
        rw [(hrest j (by omega)).1]
        exact hlock j (by omega) (by omega)
    refine ⟨ht', hloop, hspec.numPtes.trans hnum, ?_, ?_⟩
    · intro j hlo hhi hin
      rcases Nat.eq_or_lt_of_le hlo with rfl | hlt
      · rw [if_pos hin] at hht1
        obtain ⟨hpte, hshadow⟩ := hspec.kept i (by omega)
        rw [hpte, hshadow, hht1]
        exact ⟨update_self .., update_self ..⟩
      · obtain ⟨hpte, -⟩ := hrest j (by omega)
        rw [← hpte] at hin ⊢
        exact hspec.purged j hlt (by omega) hin
    · intro j hout
      by_cases hj : j = i
      · subst hj
        rw [if_neg fun hin => hout ⟨le_rfl, by omega, hin⟩] at hht1
        rw [← hht1]
        exact hspec.kept j (by omega)
      obtain ⟨hpte, hshadow⟩ := hrest j hj
      rw [← hpte, ← hshadow]
      refine hspec.kept j fun ⟨hlo, hhi, hin⟩ => hout ⟨by omega, by omega, ?_⟩
      rwa [← hpte]

/-- **`htab_purge_vsid`**, when no entry is locked, leaves no valid entry with a segment of the
range, and leaves every other entry and its shadow as they were. -/
theorem purge_vsid (L : PteLocking) {h : Hype} {o : OsId} {os : Os} (vsid numVsids : Uval)
    (hos : h.os o = some os) (hlock : ∀ i < os.htab.numPtes, ¬ L.Held (os.htab.pte i)) :
    ∃ ht', htabPurgeVsid L h o vsid numVsids = .ok (hSuccess, h.setOs o { os with htab := ht' }) ∧
      ht'.numPtes = os.htab.numPtes ∧
      (∀ i < ht'.numPtes, ¬ ((ht'.pte i).v = true ∧ InVsids vsid numVsids (ht'.pte i).vsid)) ∧
      ∀ i, ¬ (i < os.htab.numPtes ∧ (os.htab.pte i).v = true ∧
          InVsids vsid numVsids (os.htab.pte i).vsid) →
        ht'.pte i = os.htab.pte i ∧ ht'.shadow i = os.htab.shadow i := by
  obtain ⟨ht', hloop, hspec⟩ := purgeLoop_spec L vsid numVsids os.htab.numPtes 0 os.htab
    (by omega) fun j _ hj => hlock j (by omega)
  refine ⟨ht', ?_, hspec.numPtes, ?_, ?_⟩
  · rw [htabPurgeVsid, hos, live, ok_bind, hloop, ok_bind]
  · intro i hi hin
    rw [hspec.numPtes] at hi
    by_cases hold : Purged vsid numVsids (os.htab.pte i)
    · rw [(hspec.purged i (by omega) (by omega) hold).1] at hin
      cases hin.1
    · rw [(hspec.kept i fun hx => hold hx.2.2).1] at hin
      exact hold hin
  · intro i hout
    exact hspec.kept i fun hx => hout ⟨by omega, hx.2.2⟩

/-- A lock in the `lock` bit of the entry. -/
def lockBit : PteLocking where
  Held p := p.lock = true
  pteLock p := if p.lock then .error .spin else .ok { p with lock := true }
  pteUnlock p := .ok { p with lock := false }
  lock_ok p hp := by
    have hfree : p.lock = false := Bool.eq_false_of_not_eq_true hp
    exact ⟨_, if_neg hp, rfl, fun v => by rw [← hfree]⟩

/-- A partition with one entry, for a page of segment 6. -/
def purgeOs : Os := { smallOs with htab := smallOs.htab.withPte 0 (.ofWords 0x6001 0x1010) }

/-- The entry is purged with the segments 5 to 7. -/
theorem purge_vsid_purgeOs :
    Purged 5 3 (purgeOs.htab.pte 0) ∧
      ∃ ht', htabPurgeVsid lockBit (.boot fun _ => some purgeOs) 0 5 3 =
        .ok (hSuccess, (Hype.boot fun _ => some purgeOs).setOs 0 { purgeOs with htab := ht' }) ∧
      ht'.numPtes = purgeOs.htab.numPtes ∧
      (∀ i < ht'.numPtes, ¬ ((ht'.pte i).v = true ∧ InVsids 5 3 (ht'.pte i).vsid)) ∧
      ∀ i, ¬ (i < purgeOs.htab.numPtes ∧ (purgeOs.htab.pte i).v = true ∧
          InVsids 5 3 (purgeOs.htab.pte i).vsid) →
        ht'.pte i = purgeOs.htab.pte i ∧ ht'.shadow i = purgeOs.htab.shadow i := by
  refine ⟨by decide, purge_vsid lockBit 5 3 rfl fun i _ => ?_⟩
  rcases i with _ | i <;> exact Bool.false_ne_true

end Rhype
