import Rhype.Htab.Call
import Rhype.Logical.Equiv.Translate
import Rhype.Resource.Rescind

/-!
# The real range that a new entry maps

`H_ENTER` checks that the logical page lies in its chunk and writes the real page number of the
first byte of the page.  The hardware maps the whole page around that byte, aligned to the page
size.  But nothing makes the real address of a chunk agree with its logical address modulo the page
size: `enter_maps_inside_iff` says when the mapped range lies in the chunk that backs the page.
-/

namespace Rhype

open BitVec Nat

/-- The first real address that a page table entry maps: its page number, aligned to the page. -/
def mappedBase (p : Pte) (pgshift : Nat) : Nat := p.rpn.toNat * 4096 / 2 ^ pgshift * 2 ^ pgshift

/-- The whole page lies in the real range of the chunk. -/
def MapsInside (p : Pte) (pgshift : Nat) (lci : Lci) : Prop :=
  lci.lciRaddr.toNat ≤ mappedBase p pgshift ∧
    mappedBase p pgshift + 2 ^ pgshift ≤ lci.lciRaddr.toNat + lci.lciSize.toNat

/-! ### The large-page bits -/

theorem lpScan_bits : ∀ n rpn, (lpScan n rpn).2 + 1 = 2 ^ (lpScan n rpn).1
  | 0, _ => rfl
  | n + 1, rpn => by
    unfold lpScan
    have ih := lpScan_bits n (rpn / 2)
    split_ifs
    · dsimp only
      rw [pow_succ]
      omega
    · rfl

variable {pgshift lpbits : Nat} {lci : Lci} {os : Os} {p : Pte}

theorem pageShift_cases (hs : pageShift os p = some (pgshift, lpbits)) (hne : pgshift ≠ 0) :
    12 ≤ pgshift ∧ pgshift ≤ 24 ∧ (lpbits = 0 ∨ lpbits = 1 ∧ 13 ≤ pgshift) := by
  unfold pageShift at hs
  split_ifs at hs with hl
  · dsimp only at hs
    split_ifs at hs with hlp
    obtain ⟨rfl, rfl⟩ := hs
    have hbits := lpScan_bits 50 p.rpn.toNat
    have hsmall : (lpScan 50 p.rpn.toNat).2 ≤ 1 := by
      rcases (show (lpScan 50 p.rpn.toNat).1 = 0 ∨ (lpScan 50 p.rpn.toNat).1 = 1 by omega)
        with h | h
      all_goals rw [h] at hbits; omega
    have hshift : 16 ≤ getLargePageShift (os.largePageSize ⟨_, hlp⟩) ∧
        getLargePageShift (os.largePageSize ⟨_, hlp⟩) ≤ 24 := by
      cases hsz : os.largePageSize ⟨_, hlp⟩ <;> simp_all [getLargePageShift]
    omega
  · cases hs
    exact ⟨le_rfl, by decide, .inl rfl⟩

/-! ### The page number field -/

theorem or_lpbits_div {t lp k : Nat} (hlp : lp = 0 ∨ lp = 1 ∧ 1 ≤ k) :
    (t ||| lp) / 2 ^ k = t / 2 ^ k := by
  rcases hlp with rfl | ⟨rfl, hk⟩
  · rw [Nat.or_zero]
  refine Nat.eq_of_testBit_eq fun i => ?_
  have hone : testBit 1 (k + i) = false :=
    testBit_lt_two_pow (Nat.one_lt_two_pow (by omega))
  rw [testBit_div_two_pow, testBit_div_two_pow, testBit_or, add_comm i k, hone, Bool.or_false]

theorem mappedBase_localPte (p : Pte) (raddr : Uval) (hshift : 12 ≤ pgshift)
    (hlp : lpbits = 0 ∨ lpbits = 1 ∧ 13 ≤ pgshift) :
    mappedBase (localPte p (raddr >>> logPgsize) (BitVec.ofNat 64 lpbits)) pgshift
      = raddr.toNat % 2 ^ 62 / 2 ^ pgshift * 2 ^ pgshift := by
  obtain ⟨k, rfl⟩ : ∃ k, pgshift = 12 + k := ⟨pgshift - 12, by omega⟩
  have hfield : (localPte p (raddr >>> logPgsize) (.ofNat 64 lpbits)).rpn.toNat
      = raddr.toNat / 4096 % 2 ^ 50 ||| lpbits := by
    show ((raddr >>> logPgsize ||| .ofNat 64 lpbits).setWidth 50).toNat = _
    rw [toNat_setWidth, toNat_or, toNat_ushiftRight, toNat_ofNat,
      shiftRight_eq_div_pow, or_mod_two_pow]
    congr 1
    rcases hlp with rfl | ⟨rfl, -⟩ <;> rfl
  -- the bits below the page size drop out of the page number
  have hblock : ∀ t, t * 4096 / 2 ^ (12 + k) = t / 2 ^ k := by
    intro t
    rw [pow_add, ← Nat.div_div_eq_div_mul, show (2 : Nat) ^ 12 = 4096 by rfl,
      Nat.mul_div_cancel _ (by decide)]
  have hpage : raddr.toNat / 4096 % 2 ^ 50 = raddr.toNat % 2 ^ 62 / 4096 := by omega
  rw [mappedBase, hfield, hblock, or_lpbits_div (by omega), hpage, Nat.div_div_eq_div_mul, pow_add]
  rfl

/-! ### `H_ENTER` -/

/-- The real address of the page at `a` fits the page number field, and is aligned as far as the
page reaches back into the chunk. -/
def AlignedIn (lci : Lci) (a : Uval) (pgshift : Nat) : Prop :=
  lci.lciRaddr.toNat + (a.toNat - lci.lciLaddr.toNat) < 2 ^ 62 ∧
    (lci.lciRaddr.toNat + (a.toNat - lci.lciLaddr.toNat)) % 2 ^ pgshift
      ≤ a.toNat - lci.lciLaddr.toNat

theorem page_inside_iff {a : Uval} (hlo : lci.lciLaddr.toNat ≤ a.toNat)
    (hhi : a.toNat + 2 ^ pgshift ≤ lci.lciLaddr.toNat + lci.lciSize.toNat) (ha : a.toNat < 2 ^ 35) :
    (lci.lciRaddr.toNat
        ≤ (a - lci.lciLaddr + lci.lciRaddr).toNat % 2 ^ 62 / 2 ^ pgshift * 2 ^ pgshift ∧
      (a - lci.lciLaddr + lci.lciRaddr).toNat % 2 ^ 62 / 2 ^ pgshift * 2 ^ pgshift + 2 ^ pgshift
        ≤ lci.lciRaddr.toNat + lci.lciSize.toNat) ↔ AlignedIn lci a pgshift := by
  have hoff : (a - lci.lciLaddr).toNat = a.toNat - lci.lciLaddr.toNat := by
    rw [toNat_sub]
    omega
  rw [AlignedIn, toNat_add, hoff]
  generalize 2 ^ pgshift = P at hhi ⊢
  set off := a.toNat - lci.lciLaddr.toNat
  set m := (off + lci.lciRaddr.toNat) % 2 ^ 64 % 2 ^ 62
  have hdecomp := div_add_mod' m P
  by_cases hfit : lci.lciRaddr.toNat + off < 2 ^ 62
  · have hm : m = lci.lciRaddr.toNat + off := by omega
    rw [hm] at hdecomp ⊢
    omega
  · -- the page number loses its high bits, and the page lies below the chunk
    have hlt : m < lci.lciRaddr.toNat := by omega
    omega

section

variable {h h' : Hype} {o : OsId} {flags ptex vsidWord rpnWord : Uval} {ret : HcallRet}

theorem EnterStep.fits {j : Nat} {c : LciId} {raddr : Uval}
    {h1 : Hype} (st : EnterStep h o p os pgshift lpbits c raddr j h1 ret h')
    (hr : RangeChecked h c lci (logicalRpn p pgshift <<< logPgsize) ((1 : Uval) <<< pgshift)) :
    lci.lciLaddr.toNat ≤ (logicalRpn p pgshift <<< logPgsize).toNat ∧
      (logicalRpn p pgshift <<< logPgsize).toNat + 2 ^ pgshift
        ≤ lci.lciLaddr.toNat + lci.lciSize.toNat := by
  have hle : pgshift ≤ 24 := by
    by_cases hne : pgshift = 0
    · omega
    · exact (pageShift_cases st.shift hne).2.1
  -- the address has a slot, so it is below the end of the chunk table
  have ha := (show SlotOf os _ c from laddrToLci_eq_ok.1 st.lookup).toNat_lt
  have hpow : 2 ^ pgshift ≤ 2 ^ 24 := Nat.pow_le_pow_right (by decide) hle
  have hlen : ((1 : Uval) <<< pgshift).toNat = 2 ^ pgshift := by
    rw [toNat_shiftLeft, Nat.shiftLeft_eq]
    show 1 * 2 ^ pgshift % 2 ^ 64 = 2 ^ pgshift
    rw [one_mul, mod_eq_of_lt (by omega)]
  have hfits := hr.fits (by rw [hlen]; exact Nat.two_pow_pos _) (by omega)
  rwa [hlen] at hfits

/-- **The page of a new entry lies in the chunk that backs it** exactly when the real address of the
page is aligned in the chunk. -/
theorem enter_maps_inside_iff (hx : hEnter h o flags ptex vsidWord rpnWord = .ok (ret, h'))
    (hret : ret.rc = hSuccess) :
    ∃ os pgshift lpbits laddr c n lci j os',
      h.os o = some os ∧ pageShift os (.ofWords vsidWord rpnWord) = some (pgshift, lpbits) ∧
      laddr = logicalRpn (.ofWords vsidWord rpnWord) pgshift <<< logPgsize ∧
      SlotOf os laddr c ∧ Backing h c laddr n lci ∧
      j < os.htab.numPtes ∧ ret.gprs = [(4, BitVec.ofNat 64 j)] ∧ h'.os o = some os' ∧
      (pgshift ≠ 0 →
        (MapsInside (os'.htab.pte j) pgshift lci ↔ AlignedIn lci laddr pgshift)) := by
  rcases hEnter_ok hx with ⟨hrc, -⟩ | ⟨os, pgshift, lpbits, c, raddr, j, h1, st⟩
  · exact absurd hret hrc
  have hslot : SlotOf os (logicalRpn (.ofWords vsidWord rpnWord) pgshift <<< logPgsize) c :=
    laddrToLci_eq_ok.1 st.lookup
  obtain ⟨-, n, lci, hb, hr, hraddr⟩ := lciTranslate_ok st.translate st.valid
  obtain ⟨os', hos', -, hpte, -⟩ := st.slot_after
  refine ⟨os, pgshift, lpbits, _, c, n, lci, j, os', st.os_eq, st.shift, rfl, hslot, hb, st.slot_lt,
    by rw [st.ret_eq], hos', fun hne => ?_⟩
  obtain ⟨h12, h24, hlp⟩ := pageShift_cases st.shift hne
  obtain ⟨hlo, hhi⟩ := st.fits hr
  rw [hpte, MapsInside, mappedBase_localPte _ _ h12 hlp, hraddr]
  exact page_inside_iff hlo hhi hslot.toNat_lt

end

/-- `enter_maps_inside_iff` for the second page of a chunk. -/
theorem enter_maps_inside_iff_page :
    ∃ ret h', hEnter (oneChunk 0) 0 hExact 0 1 0x1010 = .ok (ret, h') ∧ ret.rc = hSuccess ∧
      ∃ os pgshift lpbits laddr c n lci j os',
        (oneChunk 0).os 0 = some os ∧ pageShift os (.ofWords 1 0x1010) = some (pgshift, lpbits) ∧
        laddr = logicalRpn (.ofWords 1 0x1010) pgshift <<< logPgsize ∧
        SlotOf os laddr c ∧ Backing (oneChunk 0) c laddr n lci ∧
        j < os.htab.numPtes ∧ ret.gprs = [(4, BitVec.ofNat 64 j)] ∧ h'.os 0 = some os' ∧
        (pgshift ≠ 0 →
          (MapsInside (os'.htab.pte j) pgshift lci ↔ AlignedIn lci laddr pgshift)) :=
  ⟨_, _, rfl, rfl, @enter_maps_inside_iff (oneChunk 0) _ 0 hExact 0 1 0x1010 _ rfl rfl⟩

/-- A page granted at an offset of half a page and accepted through the page-share manager gets a
page-aligned logical address, and its entry maps half a page in front of the grant. -/
theorem enter_maps_outside :
    ¬ ∀ ops h o flags ptex vsidWord rpnWord ret h' os os' pgshift lpbits laddr c n lci j,
      Run step (fun _ _ => True) twoPartitions ops h →
      hEnter h o flags ptex vsidWord rpnWord = .ok (ret, h') → ret.rc = hSuccess →
      h.os o = some os → pageShift os (.ofWords vsidWord rpnWord) = some (pgshift, lpbits) →
      laddr = logicalRpn (.ofWords vsidWord rpnWord) pgshift <<< logPgsize →
      SlotOf os laddr c → Backing h c laddr n lci → ret.gprs = [(4, BitVec.ofNat 64 j)] →
      j < os.htab.numPtes → h'.os o = some os' → pgshift ≠ 0 →
      MapsInside (os'.htab.pte j) pgshift lci := by
  intro hall
  have hout := hall [.define 0 .memAddr 0x10000000 0x4000000 clearedPsm,
    .grant 0 .memAddr 0x800 0x1000 1, .accept 1 3 clearedPsm] _ 1 hExact 0 1 0x10 _ _ _ _ 12 0 0 2 1
    ⟨0x10000800, 0, 0x1000, 0, false, .physMem, some 1⟩ 0
    (.cons trivial rfl (.cons trivial rfl (.cons trivial rfl (.nil _)))) rfl rfl rfl rfl rfl
    ⟨by decide, rfl⟩
    (.shared ⟨invalidPhysicalAddress, 0, 0x40000000, 0, false, .psm, some 1⟩ _ rfl rfl rfl rfl rfl
      rfl (by decide))
    rfl (by decide) rfl (by decide)
  exact absurd hout.1 nofun

end Rhype
