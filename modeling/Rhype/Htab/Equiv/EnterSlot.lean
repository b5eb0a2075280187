import Rhype.Htab.Call
import Mathlib.Order.Bounds.Basic

/-!
# The slot that `H_ENTER` writes

`H_ENTER` looks at the slots of the group of its index, or at the one slot that `H_EXACT` names, and
writes the first one that is not valid.  `enter_frame` says what it leaves alone: every valid entry
with its shadow, all the other slots when it succeeds, and the whole table when it does not.  The
groups do not reach past the table because the number of entries is a multiple of eight.
-/

namespace Rhype

open Function

/-- The slots that a call may write: the group of the index, or the slot itself. -/
def EnterCandidate (flags ptex : Uval) (j : Nat) : Prop :=
  if flag flags hExact then j = ptex.toNat else j / 8 = ptex.toNat / 8

/-! ### Groups -/

section

variable {flags ptex : Uval} {j : Nat}

theorem enterCandidate_iff :
    EnterCandidate flags ptex j ↔
      enterStart flags ptex ≤ j ∧ j < enterStart flags ptex + enterCount flags := by
  unfold EnterCandidate enterStart enterCount
  split_ifs
  · omega
  · rw [toNat_group_eight]
    omega

theorem EnterCandidate.lt_numPtes {ht : Htab} (hj : EnterCandidate flags ptex j)
    (hptex : ptex.toNat < ht.numPtes) : j < ht.numPtes := by
  obtain ⟨m, hm⟩ := ht.eight_dvd_numPtes
  unfold EnterCandidate at hj
  split_ifs at hj
  · rwa [hj]
  · omega

end

/-! ### The frame of the call -/

/-- Slot `j` and its shadow are the same in the two tables. -/
def Htab.SameAt (ht ht' : Htab) (j : Nat) : Prop :=
  ht'.pte j = ht.pte j ∧ ht'.shadow j = ht.shadow j

/-- What an `H_ENTER` of `p` by partition `o` with the table `os.htab` may do. -/
structure EnterFrame (h : Hype) (o : OsId) (os : Os) (flags ptex : Uval) (p : Pte) (ret : HcallRet)
    (h' : Hype) (os' : Os) : Prop where
  os_eq : h'.os o = some os'
  /-- The tables of the other partitions stay. -/
  others : ∀ o', o' ≠ o → h'.os o' = h.os o'
  valid : ∀ j, (os.htab.pte j).v = true → os.htab.SameAt os'.htab j
  success : ret.rc = hSuccess → ∃ j,
    IsLeast {k | EnterCandidate flags ptex k ∧ (os.htab.pte k).v = false} j ∧
      ret.gprs = [(4, BitVec.ofNat 64 j)] ∧ (∀ k, k ≠ j → os.htab.SameAt os'.htab k) ∧
      ∃ pgshift lpbits c raddr, EnterChecks h flags ptex p os pgshift lpbits c raddr ∧
        os'.htab.pte j = localPte p (raddr >>> logPgsize) (BitVec.ofNat 64 lpbits) ∧
        os'.htab.shadow j = logicalRpn p pgshift
  error : ret.rc ≠ hSuccess → ∀ j, os.htab.SameAt os'.htab j

section

variable {h h' h1 : Hype} {o : OsId} {os : Os} {flags ptex vsidWord rpnWord : Uval} {ret : HcallRet}
  {p : Pte}

theorem EnterFrame.same (hos : h.os o = some os) (hrc : ret.rc ≠ hSuccess) :
    EnterFrame h o os flags ptex p ret h os where
  os_eq := hos
  others := fun _ _ => rfl
  valid := fun _ _ => ⟨rfl, rfl⟩
  success := fun heq => absurd heq hrc
  error := fun _ _ => ⟨rfl, rfl⟩

theorem EnterFrame.inserted {c : LciId} {raddr : Uval} {pgshift lpbits j : Nat}
    (hc : EnterChecks h flags ptex p os pgshift lpbits c raddr) (hsame : h1.os = h.os)
    (hfree : (os.htab.pte j).v = false)
    (hleast : IsLeast {k | EnterCandidate flags ptex k ∧ (os.htab.pte k).v = false} j)
    (hadd : addPtecount (insertedPte h1 o os j
      (localPte p (raddr >>> logPgsize) (BitVec.ofNat 64 lpbits)) (logicalRpn p pgshift)) c 1 =
        .ok h')
    (hret : ret = ⟨hSuccess, [(4, BitVec.ofNat 64 j)]⟩) :
    ∃ os', EnterFrame h o os flags ptex p ret h' os' := by
  have hos' := addPtecount_os hadd
  set ht := { os.htab.withPte j (localPte p (raddr >>> logPgsize) (BitVec.ofNat 64 lpbits)) with
    shadow := update os.htab.shadow j (logicalRpn p pgshift) }
  have hkeep : ∀ k, k ≠ j → os.htab.SameAt ht k :=
    fun k hk => ⟨update_of_ne hk .., update_of_ne hk ..⟩
  refine ⟨{ os with htab := ht }, ?_, ?_, ?_, ?_, ?_⟩
  · rw [hos']
    exact update_self ..
  · intro o' ho'
    rw [hos', insertedPte, Hype.setOs]
    dsimp only
    rw [update_of_ne ho', hsame]
  · intro k hk
    refine hkeep k ?_
    rintro rfl
    rw [hfree] at hk
    cases hk
  · intro _
    exact ⟨j, hleast, by rw [hret], hkeep, pgshift, lpbits, c, raddr, hc, update_self ..,
      update_self ..⟩
  · intro hrc
    rw [hret] at hrc
    exact absurd rfl hrc

/-- **`H_ENTER` writes at most the first free slot that it may write**, and finds the group full
exactly when its checks pass and all candidates are valid. -/
theorem enter_frame (hos : h.os o = some os) (hptex : ptex.toNat < os.htab.numPtes) :
    (∀ ret h', hEnter h o flags ptex vsidWord rpnWord = .ok (ret, h') →
      ∃ os', EnterFrame h o os flags ptex (.ofWords vsidWord rpnWord) ret h' os') ∧
    ((∃ ret h', hEnter h o flags ptex vsidWord rpnWord = .ok (ret, h') ∧ ret.rc = hPtegFull) ↔
      (∃ pgshift lpbits c raddr,
        EnterChecks h flags ptex (.ofWords vsidWord rpnWord) os pgshift lpbits c raddr) ∧
      ∀ j, EnterCandidate flags ptex j → (os.htab.pte j).v = true) := by
  have hrefused : ∀ ret : HcallRet, ret.rc = hParameter ∨ ret.rc = hPrivilege →
      ret.rc ≠ hSuccess ∧ ret.rc ≠ hPtegFull := by
    rintro ret (hrc | hrc) <;> (rw [hrc]; decide)
  constructor
  · intro ret h' hx
    rcases hEnter_cases hx with ⟨hrc, rfl⟩ | ⟨os1, pgshift, lpbits, c, raddr, hos1, hc⟩
    · exact ⟨os, .same hos (hrefused ret hrc).1⟩
    cases hos.symm.trans hos1
    rw [hc.hEnter_eq hos] at hx
    rcases enterLoop_ok hos _ _ hx with ⟨rfl, rfl, -⟩ |
      ⟨j, h1, hij, hjn, hbefore, -, hfree, hsav, hadd, hret⟩
    · exact ⟨os, .same hos (by decide)⟩
    have hleast : IsLeast {k | EnterCandidate flags ptex k ∧ (os.htab.pte k).v = false} j := by
      refine ⟨⟨enterCandidate_iff.2 ⟨hij, hjn⟩, hfree⟩, ?_⟩
      rintro k ⟨hk, hkfree⟩
      by_contra hlt
      rw [hbefore k (enterCandidate_iff.1 hk).1 (not_le.1 hlt)] at hkfree
      cases hkfree
    exact EnterFrame.inserted hc (amoSavPtep_os hsav) hfree hleast hadd hret
  · constructor
    · rintro ⟨ret, h', hx, hfull⟩
      rcases hEnter_cases hx with ⟨hrc, -⟩ | ⟨os1, pgshift, lpbits, c, raddr, hos1, hc⟩
      · exact absurd hfull (hrefused ret hrc).2
      cases hos.symm.trans hos1
      rw [hc.hEnter_eq hos] at hx
      refine ⟨⟨pgshift, lpbits, c, raddr, hc⟩, fun j hj => ?_⟩
      obtain ⟨hij, hjn⟩ := enterCandidate_iff.1 hj
      rcases enterLoop_ok hos _ _ hx with ⟨-, -, hall⟩ | ⟨_, _, _, _, _, _, _, _, _, hret⟩
      · exact hall j hij hjn
      · rw [hret] at hfull
        exact absurd hfull (show hSuccess ≠ hPtegFull by decide)
    · rintro ⟨⟨pgshift, lpbits, c, raddr, hc⟩, hall⟩
      refine ⟨⟨hPtegFull, []⟩, h, ?_, rfl⟩
      rw [hc.hEnter_eq hos]
      refine enterLoop_full hos _ _ fun k hk hkn => ?_
      have hcand : EnterCandidate flags ptex k := enterCandidate_iff.2 ⟨hk, hkn⟩
      exact ⟨hcand.lt_numPtes hptex, hall k hcand⟩

end

/-- `enter_frame` for the first group of a partition with one chunk. -/
theorem enter_frame_firstGroup :
    (oneChunk 0).os 0 = some (oneChunkOs 0) ∧ (5 : Uval).toNat < (oneChunkOs 0).htab.numPtes ∧
    (∀ ret h', hEnter (oneChunk 0) 0 0 5 1 0x1010 = .ok (ret, h') →
      ∃ os', EnterFrame (oneChunk 0) 0 (oneChunkOs 0) 0 5 (.ofWords 1 0x1010) ret h' os') ∧
    ((∃ ret h', hEnter (oneChunk 0) 0 0 5 1 0x1010 = .ok (ret, h') ∧ ret.rc = hPtegFull) ↔
      (∃ pgshift lpbits c raddr,
        EnterChecks (oneChunk 0) 0 5 (.ofWords 1 0x1010) (oneChunkOs 0) pgshift lpbits c raddr) ∧
      ∀ j, EnterCandidate 0 5 j → ((oneChunkOs 0).htab.pte j).v = true) :=
  ⟨rfl, by decide, enter_frame rfl (by decide)⟩

end Rhype
