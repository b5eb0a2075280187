import Rhype.Htab.Tlbie
import Rhype.Word.Align

/-!
# Which page `do_tlbie` invalidates

The hash of an entry has the index of its page in the segment, in pages of its own size, and
`do_tlbie` takes eleven bits of it back out.  It puts them where the index of a page of 4K is.  The
bits from 23 on come from the entry itself, so for a page of 4K and for one of 16M the address is
right; for the sizes between it is right only when the bits of the page happen to agree
(`tlbie_page_iff`).
-/

namespace Rhype

open BitVec Word

/-- The entry is for an address of the segment, in the primary group. -/
structure Pte.Maps (p : Pte) (vsid ea : Uval) : Prop where
  avpn : p.avpn = (vsid <<< 5).setWidth 57 ||| (vaddrToApi ea).setWidth 57
  primary : p.h = false

theorem pteInit_maps (ea raddr vsid : Uval) (bolted isLarge : Bool) (lpSelection : BitVec 8) :
    (pteInit ea raddr vsid bolted isLarge lpSelection).Maps vsid ea := ⟨rfl, rfl⟩

/-- The index of an entry in a group. -/
def ptegSlot (group : Uval) (slot : Fin 8) : Uval := 8 * group + BitVec.ofNat 64 slot

/-! ### Bits of the words -/

section

variable {p : Pte} {vsid ea : Uval} {k s log : Nat}

theorem getLsbD_vaddrToApi :
    (vaddrToApi ea).getLsbD k = (decide (k < 5) && ea.getLsbD (23 + k)) := by
  have hmask : ((0x1f : Uval) <<< 23).getLsbD (23 + k) = decide (k < 5) := by
    rw [getLsbD_shiftLeft, Nat.add_sub_cancel_left,
      getLsbD_of_toNat_eq (k := 5) (show (0x1f : Uval).toNat = 2 ^ 5 - 1 from rfl)]
    by_cases hk : k < 5
    · simp [show 23 + k < 64 by omega]
    · simp [hk]
  rw [vaddrToApi, getLsbD_ushiftRight, getLsbD_and, hmask, Bool.and_comm]

theorem Pte.Maps.getLsbD_avpn (hp : p.Maps vsid ea) (hk : k < 57) :
    p.avpn.getLsbD k = if k < 5 then ea.getLsbD (23 + k) else vsid.getLsbD (k - 5) := by
  rw [hp.avpn, BitVec.getLsbD_or, getLsbD_setWidth, getLsbD_setWidth,
    getLsbD_shiftLeft, getLsbD_vaddrToApi]
  split_ifs with hlow
  · simp [hk, hlow]
  · simp [hk, hlow, show k < 64 by omega]

theorem toNat_hashMask (hlog : 7 ≤ log ∧ log < 64) :
    ((((1 : Uval) <<< log) >>> logPtegSize) - 1).toNat = 2 ^ (log - 7) - 1 := by
  have hshift : ((1 : Uval) <<< log) >>> logPtegSize = (1 : Uval) <<< (log - 7) := by
    have hbig : 2 ^ log < 2 ^ 64 := Nat.pow_lt_pow_right (by decide) hlog.2
    have hsmall : 2 ^ (log - 7) < 2 ^ 64 := Nat.pow_lt_pow_right (by decide) (by omega)
    refine eq_of_toNat_eq ?_
    rw [toNat_ushiftRight, toNat_shiftLeft, toNat_shiftLeft,
      show (1 : Uval).toNat = 1 from rfl, Nat.shiftLeft_eq, Nat.shiftLeft_eq, Nat.one_mul,
      Nat.one_mul, Nat.mod_eq_of_lt hbig, Nat.mod_eq_of_lt hsmall, Nat.shiftRight_eq_div_pow,
      logPtegSize, Nat.pow_div hlog.1 (by decide)]
  rw [hshift, toNat_one_shiftLeft_sub_one (by omega)]

theorem getLsbD_getPteg (hk : k < 11) (hs : s ≤ 28) (hlog : 18 ≤ log ∧ log < 64) :
    (getPteg ea vsid s log).getLsbD k
      = (vsid.getLsbD k ^^ (decide (k + s < 28) && ea.getLsbD (k + s))) := by
  have hmask : (((1 : Uval) <<< (28 - s)) - 1).getLsbD k = decide (k + s < 28) := by
    rw [getLsbD_of_toNat_eq (toNat_one_shiftLeft_sub_one (by omega))]
    exact decide_eq_decide.2 (by omega)
  have hhash : ((((1 : Uval) <<< log) >>> logPtegSize) - 1).getLsbD k = true := by
    rw [getLsbD_of_toNat_eq (toNat_hashMask ⟨by omega, hlog.2⟩)]
    exact decide_eq_true (by omega)
  have hvsid : vsidHashMask.getLsbD k = true := by
    rw [getLsbD_of_toNat_eq (k := 39) (show vsidHashMask.toNat = 2 ^ 39 - 1 from rfl)]
    exact decide_eq_true (by omega)
  rw [getPteg, getLsbD_and, getLsbD_xor, getLsbD_and, getLsbD_and,
    hmask, hhash, hvsid, getLsbD_ushiftRight, Bool.and_true, Bool.and_true, Nat.add_comm s k,
    Bool.and_comm (ea.getLsbD _)]

theorem toNat_getPteg_lt (hlog : 7 ≤ log ∧ log < 64) :
    (getPteg ea vsid s log).toNat < 2 ^ (log - 7) := by
  have hpos : 0 < 2 ^ (log - 7) := Nat.two_pow_pos _
  have hle : (getPteg ea vsid s log).toNat ≤ 2 ^ (log - 7) - 1 := by
    rw [getPteg, toNat_and, toNat_hashMask hlog]
    exact Nat.and_le_right
  omega

theorem ptegSlot_ushiftRight {group : Uval} (hgroup : group.toNat < 2 ^ 39) (slot : Fin 8) :
    ptegSlot group slot >>> 3 = group := by
  refine eq_of_toNat_eq ?_
  rw [ptegSlot, toNat_ushiftRight, toNat_add, toNat_mul, toNat_ofNat, Nat.shiftRight_eq_div_pow]
  show (8 * group.toNat % 2 ^ 64 + slot.val % 2 ^ 64) % 2 ^ 64 / 2 ^ 3 = group.toNat
  omega

theorem getLsbD_doTlbie_addr {ptex : Uval} (hh : p.h = false) (hk : 12 ≤ k) (hw : k < 64) :
    (doTlbie p ptex).addr.getLsbD k =
      if k < 23 then p.avpn.getLsbD (k - 7) ^^ (ptex >>> 3).getLsbD (k - 12)
      else p.avpn.getLsbD (k - 23) := by
  -- for a large page the lowest bit of the operand says which size it is
  have hoperand : ∀ a : Uval,
      (if p.l then (⟨true, a ||| (p.rpn.setWidth 64 &&& 1)⟩ : Tlbie) else ⟨false, a⟩).addr.getLsbD k
        = a.getLsbD k := by
    intro a
    split
    · rw [BitVec.getLsbD_or, getLsbD_and,
        getLsbD_of_toNat_eq (k := 1) (show (1 : Uval).toNat = 2 ^ 1 - 1 from rfl),
        decide_eq_false (by omega), Bool.and_false, Bool.or_false]
    · rfl
  rw [doTlbie, hoperand, if_neg (by rw [hh]; decide)]
  simp only [BitVec.getLsbD_or, getLsbD_shiftLeft, getLsbD_and, getLsbD_xor,
    getLsbD_ushiftRight _ 5, getLsbD_setWidth,
    getLsbD_of_toNat_eq (k := 11) (show (0x7ff : Uval).toNat = 2 ^ 11 - 1 from rfl),
    getLsbD_of_toNat_eq (k := 5) (show (0x1f : Uval).toNat = 2 ^ 5 - 1 from rfl)]
  split_ifs with hmiddle
  · rw [show 5 + (k - 12) = k - 7 by omega]
    simp [show k - 12 < 11 by omega, show k - 7 < 64 by omega, show ¬ k < 12 by omega,
      show k < 28 by omega, hw]
  rw [show k - 12 - 11 = k - 23 by omega]
  by_cases hhigh : k < 28
  · simp [hhigh, hw, show ¬ k - 12 < 11 by omega, show ¬ k < 12 by omega,
      show k - 23 < 5 by omega, show k - 12 < 64 by omega, show k - 23 < 64 by omega]
  · rw [show 5 + (k - 28) = k - 23 by omega]
    simp [hhigh, hw, show ¬ k - 12 < 11 by omega, show ¬ k - 23 < 5 by omega,
      show k - 23 < 64 by omega]

/-- The address that `do_tlbie` computes for an entry in the primary group: eleven bits come from
the index of the page, in pages of its own size. -/
theorem getLsbD_doTlbie (hp : p.Maps vsid ea) (hs : s ≤ 28) (hlog : 18 ≤ log ∧ log ≤ 46)
    (slot : Fin 8) (hk : 12 ≤ k) (hw : k < 64) :
    (doTlbie p (ptegSlot (getPteg ea vsid s log) slot)).addr.getLsbD k
      = if k < 23 then decide (k - 12 + s < 28) && ea.getLsbD (k - 12 + s)
        else if k < 28 then ea.getLsbD k else vsid.getLsbD (k - 28) := by
  have hgroup : (getPteg ea vsid s log).toNat < 2 ^ 39 :=
    lt_of_lt_of_le (toNat_getPteg_lt ⟨by omega, by omega⟩)
      (Nat.pow_le_pow_right (by decide) (by omega))
  rw [getLsbD_doTlbie_addr hp.primary hk hw, ptegSlot_ushiftRight hgroup]
  split_ifs with hmiddle hhigh
  · -- the bit of the segment is in the hash twice
    rw [hp.getLsbD_avpn (by omega), if_neg (by omega), getLsbD_getPteg (by omega) hs
      ⟨hlog.1, by omega⟩, show k - 7 - 5 = k - 12 by omega, ← Bool.xor_assoc, Bool.xor_self,
      Bool.false_xor]
  · rw [hp.getLsbD_avpn (by omega), if_pos (by omega), show 23 + (k - 23) = k by omega]
  · rw [hp.getLsbD_avpn (by omega), if_neg (by omega), show k - 23 - 5 = k - 28 by omega]

theorem getLsbD_segmentAddr (hw : k < 64) :
    (segmentAddr vsid ea).getLsbD k = if k < 28 then ea.getLsbD k else vsid.getLsbD (k - 28) := by
  rw [segmentAddr, BitVec.getLsbD_or, getLsbD_shiftLeft, getLsbD_and, logSegmentSize,
    getLsbD_of_toNat_eq (k := 28) (show (0xfffffff : Uval).toNat = 2 ^ 28 - 1 from rfl)]
  split_ifs with hlow
  · simp [hlow]
  · simp [hlow, hw]

end

/-! ### The page -/

/-- Two addresses are in one page of `2^s` bytes. -/
def SamePage (s : Nat) (a b : Uval) : Prop := a >>> s = b >>> s

instance (s : Nat) (a b : Uval) : Decidable (SamePage s a b) :=
  inferInstanceAs (Decidable (a >>> s = b >>> s))

theorem samePage_iff {s : Nat} {a b : Uval} :
    SamePage s a b ↔ ∀ k, s ≤ k → k < 64 → a.getLsbD k = b.getLsbD k := by
  constructor
  · intro h k hs _
    have hbit := congrArg (fun w => getLsbD w (k - s)) h
    simp only [getLsbD_ushiftRight] at hbit
    rwa [Nat.add_sub_cancel' hs] at hbit
  · intro h
    refine eq_of_getLsbD_eq fun i hi => ?_
    rw [getLsbD_ushiftRight, getLsbD_ushiftRight]
    by_cases hw : s + i < 64
    · exact h (s + i) (by omega) hw
    · rw [getLsbD_of_ge _ _ (by omega), getLsbD_of_ge _ _ (by omega)]

theorem getLogPgsize_bounds {largePageSize : Fin 2 → LargePageSize} {l : Bool} {ls : BitVec 8}
    (hsize : getLogPgsize largePageSize l ls ≠ 0) :
    12 ≤ getLogPgsize largePageSize l ls ∧ getLogPgsize largePageSize l ls ≤ 24 := by
  have hlarge : ∀ size, getLargePageShift size ≠ 0 →
      12 ≤ getLargePageShift size ∧ getLargePageShift size ≤ 24 := by
    rintro (_ | _ | _ | _) h <;> first | decide | exact absurd rfl h
  unfold getLogPgsize at hsize ⊢
  split
  · rw [if_pos ‹_›] at hsize
    exact hlarge _ hsize
  · decide

/-- Of every size of page, `do_tlbie` invalidates the page of the entry exactly if the bits of the
address between the page and bit 23 are those of the index of the page at the place of a page of 4K:
for 4K they are the same bits, and for 16M there are none. -/
theorem tlbie_page_iff (largePageSize : Fin 2 → LargePageSize) (l : Bool) (ls : BitVec 8)
    (hsize : getLogPgsize largePageSize l ls ≠ 0) (vsid ea : Uval) (log : Nat)
    (hlog : 18 ≤ log ∧ log ≤ 46) (slot : Fin 8) (p : Pte) (hp : p.Maps vsid ea) :
    let s := getLogPgsize largePageSize l ls
    SamePage s (doTlbie p (ptegSlot (getPteg ea vsid s log) slot)).addr (segmentAddr vsid ea) ↔
      ∀ k, s ≤ k → k < 23 →
        ea.getLsbD k = (decide (k - 12 + s < 28) && ea.getLsbD (k - 12 + s)) := by
  intro s
  obtain ⟨hlow, hhigh⟩ := getLogPgsize_bounds hsize
  have hbit : ∀ k, s ≤ k → k < 64 → _ := fun k hk hw =>
    getLsbD_doTlbie (k := k) hp (show s ≤ 28 by omega) hlog slot (by omega) hw
  rw [samePage_iff]
  constructor
  · intro h k hk hlt
    have heq := h k hk (by omega)
    rw [hbit k hk (by omega), if_pos hlt, getLsbD_segmentAddr (by omega), if_pos (by omega)] at heq
    exact heq.symm
  · intro h k hk hw
    rw [hbit k hk hw, getLsbD_segmentAddr hw]
    by_cases hlt : k < 23
    · rw [if_pos hlt, if_pos (by omega), h k hk hlt]
    · rw [if_neg hlt]

/-- A page of 1M whose address has no bit between 20 and 23: the condition holds. -/
theorem tlbie_page_iff_megabyte :
    SamePage 20 (doTlbie (pteInit 0x8000000 0 5 false true 1)
        (ptegSlot (getPteg 0x8000000 5 20 18) 3)).addr (segmentAddr 5 0x8000000) := by
  refine (tlbie_page_iff (fun _ => .size1M) true 0 (by decide) 5 0x8000000 18 (by decide) 3
    (pteInit 0x8000000 0 5 false true 1) (pteInit_maps _ _ _ _ _ _)).2 ?_
  intro k hlow hhigh
  obtain rfl | rfl | rfl : k = 20 ∨ k = 21 ∨ k = 22 := by
    have : 20 ≤ k := hlow
    omega
  all_goals decide +kernel

/-- The second page of 1M of a segment: the entry is in group 1, and the address invalidated is in
the first page. -/
theorem tlbie_other_page :
    getPteg 0x100000 0 20 18 = 1 ∧
      doTlbie (pteInit 0x100000 0 0 false true 1) (ptegSlot 1 0) = ⟨true, 0x1001⟩ ∧
      ¬ SamePage 20 0x1001 (segmentAddr 0 0x100000) := by
  decide +kernel

end Rhype
