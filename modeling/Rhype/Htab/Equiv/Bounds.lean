import Rhype.Htab.Equiv.InBounds
import Rhype.Word.Align

/-!
# Which calls stay inside the hash table

`check_index` lets the index `num_ptes` through, one past the last entry.  The main theorem,
`exec_inTable_iff`, says for every call that it stays inside the table and the shadow array unless
its index is exactly `num_ptes` and the call gets as far as its first access (`Reaches`).  The
groups of `H_ENTER` and `H_READ` stay inside, since the number of entries is a multiple of eight.
-/

namespace Rhype

/-- The two tables of a partition that a hash table call indexes with its argument. -/
def HtabOrShadow (t : Table) : Prop := t = .htab ∨ t = .shadow

/-! ### Groups of entries -/

theorem toNat_group_four (x : Uval) : (x &&& ~~~3).toNat = x.toNat / 4 * 4 :=
  Word.toNat_and_allOnes_shiftLeft x 2

theorem checkIndex_eq_false {os : Os} {ptex : Uval} (h : ¬ checkIndex os ptex = true) :
    ptex.toNat ≤ os.htab.numPtes := by
  simpa [checkIndex] using h

theorem not_checkIndex {os : Os} {ptex : Uval} (h : ptex.toNat = os.htab.numPtes) :
    ¬ checkIndex os ptex = true := by
  simp [checkIndex, h]

/-! ### Calls at the index one past the end -/

/-- The call gets as far as its first access to the table if its index is let through. -/
def Reaches (h : Hype) (os : Os) : HtabCall → Prop
  | .enter flags _ vsidWord rpnWord =>
    checkUnsup flags = false ∧ ∃ pgshift lpbits c raddr wimg,
      pageShift os (.ofWords vsidWord rpnWord) = some (pgshift, lpbits) ∧
      laddrToLci os (logicalRpn (.ofWords vsidWord rpnWord) pgshift <<< logPgsize)
        = .ok (some c) ∧
      lciTranslate h c (logicalRpn (.ofWords vsidWord rpnWord) pgshift <<< logPgsize)
        ((1 : Uval) <<< pgshift) = .ok raddr ∧
      raddr ≠ invalidPhysicalAddress ∧ raddr >>> logPgsize ≠ 0 ∧
      amoCheckWimg h c { Pte.ofWords vsidWord rpnWord with
        rpn := (raddr >>> logPgsize ||| BitVec.ofNat 64 lpbits).setWidth 50 } = .ok wimg
  | .read flags _ => checkUnsup flags = false ∧ flag flags hRead4 = false
  | _ => True

section

variable {h : Hype} {o : OsId} {os : Os} {flags ptex avpn vsidWord rpnWord : Uval} {α : Type}
  {f : Pte → Hv α} {err : α}

theorem not_htabOrShadow_psm : ¬ HtabOrShadow .psm := by
  rintro (h | h) <;> cases h

theorem not_htabOrShadow_chunk : ¬ HtabOrShadow .chunk := by
  rintro (h | h) <;> cases h

theorem get_past_end {ht : Htab} : ht.get ht.numPtes = .error (.bounds .htab ht.numPtes) := by
  rw [Htab.get, if_neg (lt_irrefl _)]

theorem not_inBounds {x : Hv α} {i : Nat} (hx : x = .error (.bounds .htab i)) :
    ¬ InBounds HtabOrShadow x :=
  fun hb => hb _ hx ⟨_, _, .inl rfl, rfl⟩

/-! #### `H_ENTER` -/

section

variable (hos : h.os o = some os)
include hos

theorem hEnter_inBounds
    (hc : ¬ (ptex.toNat = os.htab.numPtes ∧ Reaches h os (.enter flags ptex vsidWord rpnWord))) :
    InBounds HtabOrShadow (hEnter h o flags ptex vsidWord rpnWord) := by
  have hpsm := not_htabOrShadow_psm
  refine .bind (InBounds.live _) fun os' hos' => ?_
  cases hos.symm.trans (live_ok.1 hos')
  refine .guard fun hunsup => ?_
  rcases hshift : pageShift os (.ofWords vsidWord rpnWord) with _ | sl
  · exact .ok _
  obtain ⟨pgshift, lpbits⟩ := sl
  refine .bind (InBounds.slot _ (.inl not_htabOrShadow_chunk)) fun oc hlook => ?_
  rcases oc with _ | c
  · exact .ok _
  refine .bind (InBounds.lciTranslate hpsm _ _ _ _) fun raddr htr => ?_
  refine .guard fun hinv => ?_
  refine .guard fun hpriv => ?_
  refine .guard fun hidx => ?_
  refine .bind (InBounds.amoCheckWimg hpsm _ _ _) fun wimg hw => ?_
  -- all checks are passed, so the index is not the one past the end
  have hne : ptex.toNat ≠ os.htab.numPtes := fun heq => hc ⟨heq, by simpa using hunsup,
    pgshift, lpbits, c, raddr, wimg, hshift, hlook, htr, hinv, hpriv, hw⟩
  have hle := checkIndex_eq_false hidx
  obtain ⟨m, hm⟩ := os.htab.eight_dvd_numPtes
  split_ifs
  · exact InBounds.enterLoop hpsm _ _ hos _ _ _ _ _ fun j _ hj => .inr (by omega)
  · refine InBounds.enterLoop hpsm _ _ hos _ _ _ _ _ fun j _ hj => .inr ?_
    rw [toNat_group_eight] at hj
    omega

theorem hEnter_past_end (hend : ptex.toNat = os.htab.numPtes)
    (hr : Reaches h os (.enter flags ptex vsidWord rpnWord)) :
    hEnter h o flags ptex vsidWord rpnWord = .error (.bounds .htab os.htab.numPtes) := by
  obtain ⟨hunsup, pgshift, lpbits, c, raddr, wimg, hshift, hlook, htr, hinv, hpriv, hw⟩ := hr
  have hloop : ∀ {laddr lrpn : Uval} {p : Pte} (n : Nat),
      enterLoop h o c laddr lrpn p (n + 1) os.htab.numPtes
        = .error (.bounds .htab os.htab.numPtes) := by
    intro laddr lrpn p n
    rw [enterLoop, hos, live, ok_bind, get_past_end, error_bind]
  have hgroup : (ptex &&& ~~~7).toNat = os.htab.numPtes := by
    rw [toNat_group_eight, hend]
    exact Nat.div_mul_cancel os.htab.eight_dvd_numPtes
  rw [hEnter, hos, live]
  simp only [hunsup, hshift, hlook, htr, hw, ok_bind, if_neg hinv, if_neg hpriv,
    if_neg (not_checkIndex hend), Bool.false_eq_true, if_false]
  split_ifs
  · rw [hend, hloop]
  · rw [hgroup, hloop]

/-! #### `H_REMOVE` -/

theorem hRemove_inBounds (hne : ptex.toNat ≠ os.htab.numPtes) :
    InBounds HtabOrShadow (hRemove h o flags ptex avpn) := by
  have hpsm := not_htabOrShadow_psm
  refine .bind (InBounds.live _) fun os' hos' => ?_
  cases hos.symm.trans (live_ok.1 hos')
  refine .guard fun hidx => ?_
  have hi : ptex.toNat < os.htab.numPtes := lt_of_le_of_ne (checkIndex_eq_false hidx) hne
  have href : InBounds HtabOrShadow (removeRefused os.htab flags avpn ptex.toNat) := by
    unfold removeRefused
    split_ifs
    · exact .bind_ok (InBounds.get (.inr hi)) _
    · exact .ok _
  refine .bind href fun refused _ => ?_
  split_ifs
  · exact .ok _
  refine .bind (InBounds.savePte (.inr hi) _ _) fun regs _ => ?_
  refine .bind (InBounds.get (.inr hi)) fun p _ => ?_
  split_ifs
  · refine .bind (InBounds.getShadow (.inr hi)) fun x _ => ?_
    refine .bind (InBounds.slot _ (.inl not_htabOrShadow_chunk)) fun oc _ => ?_
    cases oc with
    | none => exact .ok _
    | some c =>
      exact .bind (InBounds.amoRemPtep hpsm _ _ _ _) fun _ _ =>
        .bind (InBounds.addPtecount _ _ _) fun _ _ =>
          .bind_ok (InBounds.set (.inr hi) _) _
  · exact .bind_ok (InBounds.set (.inr hi) _) _

theorem hRemove_past_end (hend : ptex.toNat = os.htab.numPtes) :
    hRemove h o flags ptex avpn = .error (.bounds .htab os.htab.numPtes) := by
  rw [hRemove, hos, live, ok_bind, if_neg (not_checkIndex hend)]
  dsimp only
  rw [hend]
  by_cases hf : (flag flags hAvpn || flag flags hAndcond) = true
  · rw [removeRefused, if_pos hf, get_past_end]
    rfl
  · rw [removeRefused, if_neg hf, savePte, get_past_end]
    rfl

/-! #### `H_READ` -/

theorem hRead_inBounds (hc : ¬ (ptex.toNat = os.htab.numPtes ∧ Reaches h os (.read flags ptex))) :
    InBounds HtabOrShadow (hRead h o flags ptex) := by
  refine .bind (InBounds.live _) fun os' hos' => ?_
  cases hos.symm.trans (live_ok.1 hos')
  refine .guard fun hunsup => ?_
  refine .guard fun hidx => ?_
  have hle := checkIndex_eq_false hidx
  by_cases h4 : flag flags hRead4 = true
  · split_ifs with hidx3
    · exact .ok _
    -- the last of the four indexes was checked, and the group starts at a multiple of four
    · simp only [Bool.or_eq_true, not_or] at hidx3
      -- a table has at most `2^42` entries, so the sums of the checks do not wrap
      have hlt : ptex.toNat < 2 ^ 64 - 8 := by
        rcases os.htab.size_ok with h0 | ⟨log, hlo, hhi, hn⟩
        · omega
        · have := Nat.pow_le_pow_right (show 0 < 2 by omega) (show log - 4 ≤ 42 by omega)
          omega
      have h3 := checkIndex_eq_false hidx3.2
      have hadd : (ptex + 3).toNat = ptex.toNat + 3 := by
        exact Nat.mod_eq_of_lt (show ptex.toNat + 3 < 2 ^ 64 by omega)
      obtain ⟨m, hm⟩ := os.htab.eight_dvd_numPtes
      have hg := toNat_group_four ptex
      have hb : ∀ k, k < 4 → os.htab.SafeAt HtabOrShadow ((ptex &&& ~~~3).toNat + k) :=
        fun k hk => .inr (by omega)
      exact .bind (InBounds.savePte (hb 0 (by omega)) _ _) fun _ _ =>
        .bind (InBounds.savePte (hb 1 (by omega)) _ _) fun _ _ =>
          .bind (InBounds.savePte (hb 2 (by omega)) _ _) fun _ _ =>
            .bind (InBounds.savePte (hb 3 (by omega)) _ _) fun _ _ => .ok _
  · rw [if_neg h4]
    have hne : ptex.toNat ≠ os.htab.numPtes := fun heq =>
      hc ⟨heq, by simpa using hunsup, by simpa using h4⟩
    exact .bind (InBounds.savePte (.inr (by omega)) _ _) fun _ _ => .ok _

theorem hRead_past_end (hend : ptex.toNat = os.htab.numPtes)
    (hr : Reaches h os (.read flags ptex)) :
    hRead h o flags ptex = .error (.bounds .htab os.htab.numPtes) := by
  obtain ⟨hunsup, h4⟩ := hr
  rw [hRead, hos, live, ok_bind, if_neg (by simp [hunsup]), if_neg (not_checkIndex hend),
    if_neg (by simp [h4]), hend, savePte, get_past_end]
  rfl

end

/-! #### The calls that change one entry -/

/-- `H_PROTECT`, `H_CLEAR_MOD` and `H_CLEAR_REF` check their index and read their entry first; what
they do then is `f`. -/
theorem checked_inBounds (hne : ptex.toNat ≠ os.htab.numPtes)
    (hf : ptex.toNat < os.htab.numPtes → ∀ p, InBounds HtabOrShadow (f p)) :
    InBounds HtabOrShadow (if checkIndex os ptex = true then .ok err
      else do
        let p ← os.htab.get ptex.toNat
        f p) := by
  split_ifs with hidx
  · exact .ok _
  · have hi : ptex.toNat < os.htab.numPtes := lt_of_le_of_ne (checkIndex_eq_false hidx) hne
    exact .bind (InBounds.get (.inr hi)) fun p _ => hf hi p

theorem checked_past_end (hend : ptex.toNat = os.htab.numPtes) :
    (if checkIndex os ptex = true then .ok err
      else do
        let p ← os.htab.get ptex.toNat
        f p) = .error (.bounds .htab os.htab.numPtes) := by
  rw [if_neg (not_checkIndex hend), hend, get_past_end, error_bind]

section

variable (hos : h.os o = some os) (hne : ptex.toNat ≠ os.htab.numPtes)
include hos hne

theorem hProtect_inBounds : InBounds HtabOrShadow (hProtect h o flags ptex avpn) := by
  rw [hProtect, hos]
  refine checked_inBounds hne fun hi p => ?_
  split_ifs
  · exact .ok _
  · exact .ok _
  · exact .bind_ok (InBounds.set (.inr hi) _) _

theorem hClearMod_inBounds : InBounds HtabOrShadow (hClearMod h o flags ptex) := by
  rw [hClearMod, hos]
  refine checked_inBounds hne fun hi p => ?_
  split_ifs
  · exact .ok _
  · exact .bind_ok (InBounds.set (.inr hi) _) _

theorem hClearRef_inBounds : InBounds HtabOrShadow (hClearRef h o flags ptex) := by
  rw [hClearRef, hos]
  refine checked_inBounds hne fun hi p => ?_
  split_ifs
  · exact .ok _
  · exact .bind_ok (InBounds.set (.inr hi) _) _

end

/-- **A call stays inside the hash table and its shadow** exactly when it is not a call with the
index `num_ptes` that gets as far as the table. -/
theorem exec_inTable_iff (call : HtabCall) (hos : h.os o = some os) :
    InBounds HtabOrShadow (exec h o call) ↔
      ¬ (call.ptex.toNat = os.htab.numPtes ∧ Reaches h os call) := by
  constructor
  · rintro hb ⟨hend, hr⟩
    revert hb
    refine not_inBounds (i := os.htab.numPtes) ?_
    cases call with
    | enter flags ptex vsidWord rpnWord => exact hEnter_past_end hos hend hr
    | remove flags ptex avpn => exact hRemove_past_end hos hend
    | read flags ptex => exact hRead_past_end hos hend hr
    | protect flags ptex avpn =>
      rw [exec, hProtect, hos]
      exact checked_past_end hend
    | clearMod flags ptex =>
      rw [exec, hClearMod, hos]
      exact checked_past_end hend
    | clearRef flags ptex =>
      rw [exec, hClearRef, hos]
      exact checked_past_end hend
  · intro hc
    have hne : Reaches h os call → call.ptex.toNat ≠ os.htab.numPtes := fun hr heq => hc ⟨heq, hr⟩
    cases call with
    | enter flags ptex vsidWord rpnWord => exact hEnter_inBounds hos hc
    | remove flags ptex avpn => exact hRemove_inBounds hos (hne trivial)
    | read flags ptex => exact hRead_inBounds hos hc
    | protect flags ptex avpn => exact hProtect_inBounds hos (hne trivial)
    | clearMod flags ptex =>
      rw [exec]
      exact hClearMod_inBounds hos (hne trivial)
    | clearRef flags ptex =>
      rw [exec]
      exact hClearRef_inBounds hos (hne trivial)

/-- `exec_inTable_iff` for `H_READ` of entry `5` of a partition. -/
theorem exec_inTable_iff_read :
    InBounds HtabOrShadow (exec (.boot fun _ => some smallOs) 0 (.read 0 5)) ↔
      ¬ ((HtabCall.read 0 5).ptex.toNat = smallOs.htab.numPtes ∧
        Reaches (.boot fun _ => some smallOs) smallOs (.read 0 5)) :=
  exec_inTable_iff (.read 0 5) rfl

/-- `H_READ` of entry `2^14` of a table of `2^14` entries is let through and reads past the end. -/
theorem hRead_past_small_table : ¬ ∀ h o call, InBounds HtabOrShadow (exec h o call) := by
  intro hall
  refine not_inBounds (i := 16384) ?_ (hall (.boot fun _ => some smallOs) 0 (.read 0 16384))
  rfl

end

end Rhype
