import Rhype.Ia32.Segment
import Rhype.Word.Align

/-!
# Page tables of the IA-32 architecture

A page directory and a page table have 1024 entries of 32 bits.  The bits 0 to 11 of an entry are
flags.  A present entry of a page table maps a page of 4 KB, and a present entry of a directory maps
a page of 4 MB if its page size flag is set; otherwise it points to a page table.

An address belongs to the page of an entry if the upper bits of the two agree, so that facts about
pages are facts about masks.
-/

namespace Rhype.Ia32

open BitVec

/-! ### Entries -/

def pteP : Word := 0x001
def pteRw : Word := 0x002
def pteUs : Word := 0x004
def pteA : Word := 0x020
def pteD : Word := 0x040
def ptePs : Word := 0x080
def pteFlagsMask : Word := 0xFFF
def pteSmallbase : Word := 0xFFFFF000
def pteLargebase : Word := 0xFFC00000

variable (e : Word)

/-- One of the bits of the mask is set. -/
def test (mask : Word) : Bool := decide (e &&& mask ≠ 0)

def pteFlags : Word := e &&& pteFlagsMask

def ptePageaddr : Word := e &&& pteSmallbase

def largeBase : Word := e &&& pteLargebase

/-- A present entry of a directory that maps a page of 4 MB. -/
def isLarge : Bool := test e pteP && test e ptePs

/-- A present entry of a directory that points to a page table. -/
def isTable : Bool := test e pteP && !test e ptePs

/-! ### Indices -/

def pdeMask : Word := 0xFFC00000
def pteMask : Word := 0x003FF000

/-- The index of an address in a page directory. -/
def pdiOf (vaddr : Word) : Nat := ((vaddr &&& pdeMask) >>> 22).toNat

/-- The index of an address in a page table. -/
def ptiOf (vaddr : Word) : Nat := ((vaddr &&& pteMask) >>> 12).toNat

theorem pdiOf_eq (vaddr : Word) : pdiOf vaddr = vaddr.toNat / 2 ^ 22 := by
  have hmask : pdeMask = allOnes 32 <<< 22 := by decide
  unfold pdiOf
  rw [hmask, toNat_ushiftRight, Word.toNat_and_allOnes_shiftLeft, Nat.shiftRight_eq_div_pow,
    Nat.mul_div_cancel _ (by decide)]

theorem ptiOf_eq (vaddr : Word) : ptiOf vaddr = vaddr.toNat / 2 ^ 12 % 2 ^ 10 := by
  have hshift : (vaddr &&& pteMask) >>> 12 = (vaddr >>> 12) &&& 0x3FF := by
    rw [ushiftRight_and_distrib]
    rfl
  unfold ptiOf
  rw [hshift, Word.toNat_and_two_pow_sub_one (k := 10) _ _ rfl, toNat_ushiftRight,
    Nat.shiftRight_eq_div_pow]

theorem indices_eq_iff {a b : Word} :
    pdiOf a = pdiOf b ∧ ptiOf a = ptiOf b ↔ a.toNat / 2 ^ 12 = b.toNat / 2 ^ 12 := by
  rw [pdiOf_eq, pdiOf_eq, ptiOf_eq, ptiOf_eq]
  omega

theorem pdiOf_lt_of_lt {vaddr : Word} {n : Nat} (hlt : vaddr.toNat < n * 2 ^ 22) :
    pdiOf vaddr < n := by
  rw [pdiOf, toNat_ushiftRight, Nat.shiftRight_eq_div_pow, Nat.div_lt_iff_lt_mul (by decide)]
  refine Nat.lt_of_le_of_lt ?_ hlt
  exact Nat.and_le_left

/-! ### Masks -/

section

variable {e a b m : Word}

theorem test_or : test (a ||| b) m = (test a m || test b m) := by
  unfold test
  rw [BitVec.and_or_distrib_right, Bool.eq_iff_iff]
  simp only [Bool.or_eq_true, decide_eq_true_eq]
  exact (not_congr or_eq_zero_iff).trans not_and_or

theorem test_and (hm : a &&& m = m) : test (e &&& a) m = test e m := by
  unfold test
  rw [BitVec.and_assoc, hm]

theorem ptePageaddr_ptePageaddr : ptePageaddr (ptePageaddr e) = ptePageaddr e := by
  unfold ptePageaddr
  rw [BitVec.and_assoc, BitVec.and_self]

theorem aligned_iff : ptePageaddr a = a ↔ a.toNat % 0x1000 = 0 := by
  have hround : (ptePageaddr a).toNat = a.toNat / 0x1000 * 0x1000 := by
    exact Word.toNat_and_allOnes_shiftLeft a 12
  rw [← toNat_inj]
  omega

theorem ptePageaddr_or_pteFlags (a e : Word) : ptePageaddr (a ||| pteFlags e) = ptePageaddr a := by
  have hmask : pteFlagsMask &&& pteSmallbase = 0 := by decide
  unfold ptePageaddr pteFlags
  rw [BitVec.and_or_distrib_right, BitVec.and_assoc, hmask]
  simp

theorem ptePageaddr_and_rw : ptePageaddr (a &&& ~~~pteRw) = ptePageaddr a := by
  have hmask : ~~~pteRw &&& pteSmallbase = pteSmallbase := by decide
  unfold ptePageaddr
  rw [BitVec.and_assoc, hmask]

theorem ptePageaddr_eq (e : Word) : ptePageaddr e = largeBase e ||| (e &&& pteMask) := by
  have hmask : pteSmallbase = pteLargebase ||| pteMask := by decide
  unfold ptePageaddr largeBase
  rw [hmask, and_or_distrib_left]

theorem largeBase_ptePageaddr : largeBase (ptePageaddr a) = largeBase a := by
  have hmask : pteSmallbase &&& pteLargebase = pteLargebase := by decide
  unfold largeBase ptePageaddr
  rw [BitVec.and_assoc, hmask]

/-! ### The flags of an entry -/

theorem test_aligned (ha : ptePageaddr a = a) (hm : pteSmallbase &&& m = 0) : test a m = false := by
  unfold test ptePageaddr at *
  rw [← ha, BitVec.and_assoc, hm]
  simp

theorem test_or_pteFlags (ha : ptePageaddr a = a) (hm : pteSmallbase &&& m = 0)
    (hf : pteFlagsMask &&& m = m) : test (a ||| pteFlags e) m = test e m := by
  rw [test_or, test_aligned ha hm]
  exact test_and hf

theorem ptePageaddr_dirty (e : Word) : ptePageaddr (e ||| (pteA ||| pteD)) = ptePageaddr e := by
  have hmask : (pteA ||| pteD) &&& pteSmallbase = 0 := by decide
  unfold ptePageaddr
  rw [BitVec.and_or_distrib_right, hmask]
  simp

theorem largeBase_dirty (e : Word) : largeBase (e ||| (pteA ||| pteD)) = largeBase e := by
  have hmask : (pteA ||| pteD) &&& pteLargebase = 0 := by decide
  unfold largeBase
  rw [BitVec.and_or_distrib_right, hmask]
  simp

theorem isLarge_dirty (e : Word) : isLarge (e ||| (pteA ||| pteD)) = isLarge e := by
  have hp : test (pteA ||| pteD) pteP = false := by decide
  have hps : test (pteA ||| pteD) ptePs = false := by decide
  simp [isLarge, test_or, hp, hps]

theorem isTable_dirty (e : Word) : isTable (e ||| (pteA ||| pteD)) = isTable e := by
  have hp : test (pteA ||| pteD) pteP = false := by decide
  have hps : test (pteA ||| pteD) ptePs = false := by decide
  simp [isTable, test_or, hp, hps]

theorem isTable_of_isLarge (he : isLarge e = true) : isTable e = false := by
  unfold isLarge at he
  unfold isTable
  rw [Bool.and_eq_true] at he
  simp [he.2]

end

end Rhype.Ia32
