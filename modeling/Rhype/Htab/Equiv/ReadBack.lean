import Rhype.Htab.Call
import Rhype.Word.Align

/-!
# Reading back a new entry

`H_ENTER` clears the reserved fields of the entry, replaces its logical page number by the real one
and keeps the logical one in the shadow; `H_READ` puts the shadow back in its place.  The shadow has
the page number after it was cut to the page size, so what a large page has in the low bits of its
page number, its selector among them, does not come back.  `enter_readBack_iff` says when the two
words do.
-/

namespace Rhype

/-- The entry with the fields cleared that `H_ENTER` clears as reserved. -/
def clearedPte (p : Pte) : Pte :=
  { p with lock := false, res := false, pp0 := false, ts := false, res2 := 0 }

/-- `H_READ` of entry `j` returns the two words of the entry. -/
def ReadsAs (h : Hype) (o : OsId) (flags : Uval) (j : Nat) (p : Pte) : Prop :=
  hRead h o flags (BitVec.ofNat 64 j) = .ok (⟨hSuccess, [(4, p.vsidWord), (5, p.rpnWord)]⟩, h)

/-! ### The two words -/

section

variable {p : Pte} {rrpn lpbits : Uval} {pgshift : Nat}

theorem localPte_rpn : { localPte p rrpn lpbits with rpn := p.rpn } = clearedPte p := rfl

theorem localPte_vsidWord : (localPte p rrpn lpbits).vsidWord = (clearedPte p).vsidWord := rfl

theorem rpnWord_eq_cleared_iff {x : BitVec 50} :
    { localPte p rrpn lpbits with rpn := x }.rpnWord = (clearedPte p).rpnWord ↔ x = p.rpn := by
  constructor
  · intro heq
    have hfield := congrArg (BitVec.extractLsb' 12 50) heq
    rwa [Pte.rpn_rpnWord, Pte.rpn_rpnWord] at hfield
  · rintro rfl
    rw [localPte_rpn]

theorem zero_eq_cleared_iff (hzero : (localPte p rrpn lpbits).rpnWord = 0) :
    0 = (clearedPte p).rpnWord ↔ p.rpn = 0 := by
  have hrpn : (localPte p rrpn lpbits).rpn = 0 := by
    rw [← Pte.rpn_rpnWord, hzero]
    rfl
  rw [← hzero, show (localPte p rrpn lpbits).rpnWord
    = { localPte p rrpn lpbits with rpn := (localPte p rrpn lpbits).rpn }.rpnWord from rfl,
    rpnWord_eq_cleared_iff, hrpn]
  exact eq_comm

/-- The page size cuts nothing off the page number.  A large page size that is not configured cuts
everything off. -/
def WholeRpn (p : Pte) (pgshift : Nat) : Prop :=
  if pgshift < logPgsize then p.rpn = 0 else p.rpn.toNat % 2 ^ (pgshift - logPgsize) = 0

theorem toNat_logicalRpn (hshift : ¬ pgshift < logPgsize) :
    ((logicalRpn p pgshift).setWidth 50).toNat
      = p.rpn.toNat / 2 ^ (pgshift - logPgsize) * 2 ^ (pgshift - logPgsize) := by
  have hwide : (p.rpn.setWidth 64).toNat = p.rpn.toNat := BitVec.toNat_setWidth_of_le (by decide)
  rw [logicalRpn, lrpnMask, if_neg hshift, BitVec.toNat_setWidth, Word.toNat_and_allOnes_shiftLeft,
    hwide]
  exact Nat.mod_eq_of_lt (lt_of_le_of_lt (Nat.div_mul_le_self _ _) p.rpn.isLt)

theorem setWidth_logicalRpn_iff :
    (logicalRpn p pgshift).setWidth 50 = p.rpn ↔ WholeRpn p pgshift := by
  unfold WholeRpn
  split_ifs with hshift
  · have hcut : logicalRpn p pgshift = 0 := by
      rw [logicalRpn, lrpnMask, if_pos hshift]
      exact BitVec.and_zero
    rw [hcut]
    exact eq_comm
  · rw [← BitVec.toNat_inj, toNat_logicalRpn hshift]
    have hdiv := Nat.div_add_mod' p.rpn.toNat (2 ^ (pgshift - logPgsize))
    omega

end

/-! ### `H_READ` -/

section

variable {h : Hype} {o : OsId} {os : Os} {flags : Uval} {j : Nat}

theorem toNat_index (ht : Htab) (hj : j < ht.numPtes) : (BitVec.ofNat 64 j : Uval).toNat = j := by
  refine Nat.mod_eq_of_lt (lt_trans hj ?_)
  rcases ht.size_ok with hzero | ⟨log, -, hlog, hsize⟩
  · rw [hzero]
    decide
  · rw [hsize]
    exact Nat.pow_lt_pow_right (by decide) (by omega)

theorem hRead_one (hos : h.os o = some os) (hj : j < os.htab.numPtes)
    (hflags : checkUnsup flags = false) (hone : flag flags hRead4 = false) :
    hRead h o flags (BitVec.ofNat 64 j) = (do
      let r ← savePte os.htab j 4 5
      .ok (⟨hSuccess, r⟩, h)) := by
  have hidx := toNat_index os.htab hj
  have hcheck : checkIndex os (.ofNat 64 j) = false := by
    rw [checkIndex, decide_eq_false_iff_not]
    omega
  rw [hRead, hos, live, ok_bind, if_neg (by simp [hflags]), if_neg (by simp [hcheck]),
    if_neg (by simp [hone]), hidx]

theorem savePte_eq (ht : Htab) (hj : j < ht.numPtes) (m n : Nat) : savePte ht j m n =
    .ok [(m, (ht.pte j).vsidWord), (n, if (ht.pte j).rpnWord ≠ 0 then
      { ht.pte j with rpn := (ht.shadow j).setWidth 50 }.rpnWord else (ht.pte j).rpnWord)] := by
  rw [savePte, Htab.get_eq_ok.2 ⟨hj, rfl⟩, ok_bind, Htab.getShadow_eq_ok.2 ⟨hj, rfl⟩]
  split_ifs <;> rfl

end

/-! ### `H_ENTER`, and then `H_READ` -/

/-- The page size cuts nothing off the page number, and with the real page number `rrpn` in its
place the word is not zero when there is a page number to be put back. -/
def PageKept (p : Pte) (rrpn : Uval) (pgshift lpbits : Nat) : Prop :=
  WholeRpn p pgshift ∧ ((localPte p rrpn (BitVec.ofNat 64 lpbits)).rpnWord = 0 → p.rpn = 0)

section

variable {h h' : Hype} {o : OsId} {flags ptex vsidWord rpnWord rflags : Uval} {ret : HcallRet}
  {p : Pte}

/-- **The two words of a new entry come back**, with the reserved fields cleared, exactly when
`PageKept` says so of the real address `raddr` to which its page translates before the call. -/
theorem enter_readBack_iff (hp : .ofWords vsidWord rpnWord = p)
    (hx : hEnter h o flags ptex vsidWord rpnWord = .ok (ret, h'))
    (hret : ret.rc = hSuccess) (hflags : checkUnsup rflags = false)
    (hone : flag rflags hRead4 = false) :
    ∃ os pgshift lpbits c raddr j, h.os o = some os ∧ pageShift os p = some (pgshift, lpbits) ∧
      laddrToLci os (logicalRpn p pgshift <<< logPgsize) = .ok (some c) ∧
      lciTranslate h c (logicalRpn p pgshift <<< logPgsize) ((1 : Uval) <<< pgshift) = .ok raddr ∧
      j < os.htab.numPtes ∧ ret.gprs = [(4, BitVec.ofNat 64 j)] ∧
      (ReadsAs h' o rflags j (clearedPte p) ↔
        PageKept p (raddr >>> logPgsize) pgshift lpbits) := by
  subst hp
  rcases hEnter_ok hx with ⟨hrc, -⟩ | ⟨os, pgshift, lpbits, c, raddr, j, h1, st⟩
  · exact absurd hret hrc
  obtain ⟨os', hos', hnum, hpte, hshadow⟩ := st.slot_after
  have hj : j < os'.htab.numPtes := by
    rw [hnum]
    exact st.slot_lt
  refine ⟨os, pgshift, lpbits, c, raddr, j, st.os_eq, st.shift, st.lookup, st.translate, st.slot_lt,
    by rw [st.ret_eq], ?_⟩
  rw [ReadsAs, hRead_one hos' hj hflags hone, savePte_eq _ hj, ok_bind, PageKept, hpte, hshadow]
  simp only [Except.ok.injEq, Prod.mk.injEq, HcallRet.mk.injEq, List.cons.injEq, true_and, and_true]
  rw [localPte_vsidWord, eq_self_iff_true, true_and]
  split_ifs with hzero
  · rw [rpnWord_eq_cleared_iff, setWidth_logicalRpn_iff]
    exact (and_iff_left fun h0 => absurd h0 hzero).symm
  rw [not_not] at hzero
  rw [hzero, zero_eq_cleared_iff hzero]
  constructor
  · intro hrpn
    refine ⟨?_, fun _ => hrpn⟩
    unfold WholeRpn
    split_ifs
    · exact hrpn
    · rw [hrpn]
      exact Nat.zero_mod _
  · exact fun hkept => hkept.2 rfl

end

/-- The second page of a chunk comes back. -/
theorem enter_readBack_iff_page :
    ∃ ret h', hEnter (oneChunk 0) 0 hExact 0 1 0x1010 = .ok (ret, h') ∧
      ∃ j, ret.gprs = [(4, BitVec.ofNat 64 j)] ∧
        ReadsAs h' 0 0 j (clearedPte (.ofWords 1 0x1010)) := by
  refine ⟨_, _, rfl, ?_⟩
  obtain ⟨os, pgshift, lpbits, c, raddr, j, hos, hshift, hlook, htr, -, hgprs, hiff⟩ :=
    @enter_readBack_iff (oneChunk 0) _ 0 hExact 0 1 0x1010 0 _ _ rfl rfl rfl rfl rfl
  cases hos
  cases hshift
  cases hlook
  cases htr
  exact ⟨j, hgprs, hiff.2 ⟨Nat.mod_one _, fun hzero => nomatch hzero⟩⟩

/-- The selector of a large page does not come back: it is bit 0 of the page number. -/
theorem readBack_selector :
    ∃ ret h', hEnter (oneChunk 0) 0 hExact 0 5 0x1010 = .ok (ret, h') ∧ ret.rc = hSuccess ∧
      ret.gprs = [(4, 0)] ∧
      hRead h' 0 0 0 = .ok (⟨hSuccess, [(4, 5), (5, 0x10)]⟩, h') ∧
      ¬ ReadsAs h' 0 0 0 (clearedPte (.ofWords 5 0x1010)) := by
  refine ⟨_, _, rfl, rfl, rfl, rfl, ?_⟩
  intro hreads
  have hword := congrArg (fun x => x.toOption.map fun y => y.1.gprs) hreads
  cases hword

end Rhype
