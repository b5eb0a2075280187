import Rhype.Logical.Basic
import Rhype.Word.Align
import Mathlib.Tactic.Ring

/-!
# Translation of a range of logical addresses

The chunk that translates a logical address is the chunk in its slot, or the chunk in the entry of
its page when the slot belongs to the page-share manager (`Backing`).  The chunk table is meant to
be a union of ranges, each of them translated by one chunk over its whole length (`LogicalMap`).

The range checks of `lci_translate` and `psm_l_to_r` compute the end of the range modulo `2^64`.
`translate_range_iff` says that a translation is right for every byte of the range exactly when the
end of the range stays below `2^64`, and the partition holds the chunk of its first byte.
-/

namespace Rhype

open BitVec hiding not_or

/-! ### Range checks as statements about numbers -/

theorem rangeSubset_iff {a s b t : Uval} : rangeSubset a s b t = true ↔
    a.toNat ≤ b.toNat ∧ (b.toNat + t.toNat) % 2 ^ 64 ≤ (a.toNat + s.toNat) % 2 ^ 64 := by
  unfold rangeSubset
  rw [Bool.and_eq_true, decide_eq_true_eq, decide_eq_true_eq, le_def, le_def, toNat_add, toNat_add]

theorem rangeContains_iff {a s x : Uval} : rangeContains a s x = true ↔
    a.toNat ≤ x.toNat ∧ (x.toNat + 1) % 2 ^ 64 ≤ (a.toNat + s.toNat) % 2 ^ 64 := rangeSubset_iff

theorem chunkNumberAddr_eq (a : Uval) : chunkNumberAddr a = a.toNat / 2 ^ 26 := by
  rw [chunkNumberAddr, toNat_ushiftRight, Nat.shiftRight_eq_div_pow]
  rfl

theorem toNat_pgnums {s : Uval} (hs : s.toNat + 4095 < 2 ^ 64) :
    (pgnums s).toNat = (s.toNat + 4095) / 4096 := by
  have hmask : ~~~(pgsize - 1) = allOnes 64 <<< 12 := by decide
  have hone : (pgsize - 1).toNat = 4095 := rfl
  rw [pgnums, alignUp, hmask, toNat_ushiftRight, Nat.shiftRight_eq_div_pow,
    Word.toNat_and_allOnes_shiftLeft, toNat_add, hone, logPgsize]
  omega

theorem toNat_maxLogicalAddress : maxLogicalAddress.toNat = 2 ^ 35 := rfl

/-! ### The chunk that translates an address -/

/-- The slot of the address holds the chunk `c`. -/
def SlotOf (os : Os) (a : Uval) (c : LciId) : Prop :=
  chunkNumberAddr a < maxLogicalMemChunks ∧ os.pLci (chunkNumberAddr a) = some c

theorem SlotOf.toNat_lt {os : Os} {a : Uval} {c : LciId} (hslot : SlotOf os a c) :
    a.toNat < 2 ^ 35 := by
  have hlt := hslot.1
  rw [chunkNumberAddr_eq] at hlt
  unfold maxLogicalMemChunks at hlt
  omega

theorem SlotOf.unique {os : Os} {a : Uval} {c d : LciId} (hc : SlotOf os a c) (hd : SlotOf os a d) :
    c = d := Option.some.inj (hc.2.symm.trans hd.2)

/-- The chunk `n` translates the address `a` of a slot that holds `c`: it is `c` itself, or the
chunk in the entry of the page when `c` belongs to a page-share manager. -/
inductive Backing (h : Hype) (c : LciId) (a : Uval) (n : LciId) (lci : Lci) : Prop
  | plain (hn : n = c) (hlci : h.lci c = some lci)
      (hraddr : lci.lciRaddr ≠ invalidPhysicalAddress)
  | shared (psmLci : Lci) (psm : Psm) (hpsmLci : h.lci c = some psmLci)
      (hinv : psmLci.lciRaddr = invalidPhysicalAddress) (hops : psmLci.lciOps = .psm)
      (hpsm : h.psm c = some psm) (hentry : psm.entry (psmIndex psmLci a) = .ok (some n))
      (hlci : h.lci n = some lci) (hraddr : lci.lciRaddr ≠ invalidPhysicalAddress)

/-- The range check of the translation. -/
def RangeChecked (h : Hype) (c : LciId) (lci : Lci) (a len : Uval) : Prop :=
  (h.lci c = some lci ∧ lciOwns lci a = true ∧ lciOwns lci (a + len - 1) = true) ∨
    rangeSubset lci.lciLaddr lci.lciSize a len = true

section

variable {h : Hype} {o : OsId} {os : Os} {c n : LciId} {lci : Lci} {a len pa : Uval}

theorem lciTranslate_ok (hx : lciTranslate h c a len = .ok pa) (hpa : pa ≠ invalidPhysicalAddress) :
    (∃ slotLci, h.lci c = some slotLci ∧ slotLci.lciDisabled = false) ∧
      ∃ n lci, Backing h c a n lci ∧ RangeChecked h c lci a len ∧
        pa = a - lci.lciLaddr + lci.lciRaddr := by
  obtain ⟨lci, hlci, hx⟩ := of_live hx
  have hen : lci.lciDisabled = false := by
    by_contra hdis
    rw [Bool.not_eq_false] at hdis
    rw [if_pos hdis] at hx
    cases hx
    exact hpa rfl
  refine ⟨⟨lci, hlci, hen⟩, ?_⟩
  rw [if_neg (by simp [hen])] at hx
  split_ifs at hx with hraddr howns
  -- no real address: only the page-share manager translates
  · cases hops : lci.lciOps with
    | physMem =>
      rw [hops] at hx
      cases hx
    | psm =>
      rw [hops] at hx
      obtain ⟨psm, hpsm, hx⟩ := of_live hx
      obtain ⟨_ | n, hent, hx⟩ := of_seq hx
      · cases hx
        exact absurd rfl hpa
      obtain ⟨next, hnext, hx⟩ := of_live hx
      obtain ⟨_, hvalid, hx⟩ := of_seq hx
      obtain ⟨_, hsub, hx⟩ := of_seq hx
      cases hx
      rw [hassert_ok] at hvalid hsub
      exact ⟨n, next, .shared lci psm hlci hraddr hops hpsm hent
        hnext (of_decide_eq_true hvalid), .inr hsub, rfl⟩
  · cases hx
    exact absurd rfl hpa
  · cases hx
    rw [Bool.or_eq_true, not_or, Bool.not_eq_true', Bool.not_eq_true', Bool.not_eq_false,
      Bool.not_eq_false] at howns
    exact ⟨c, lci, .plain rfl hlci hraddr, .inl ⟨hlci, howns⟩, rfl⟩

/-- A range that does not reach the end of the address space and passes its check lies in the
chunk. -/
theorem RangeChecked.fits (hr : RangeChecked h c lci a len) (hpos : 0 < len.toNat)
    (hwrap : a.toNat + len.toNat < 2 ^ 64) :
    lci.lciLaddr.toNat ≤ a.toNat ∧
      a.toNat + len.toNat ≤ lci.lciLaddr.toNat + lci.lciSize.toNat := by
  rcases hr with ⟨-, hown, hlast⟩ | hsub
  · rw [lciOwns, rangeContains_iff] at hown hlast
    have hend : (a + len - 1).toNat = a.toNat + len.toNat - 1 := by
      show (2 ^ 64 - 1 + (a.toNat + len.toNat) % 2 ^ 64) % 2 ^ 64 = _
      omega
    omega
  · rw [rangeSubset_iff] at hsub
    omega

/-! ### Logical maps -/

/-- The partition holds the resource of the chunk: it owns it, and has it mapped. -/
def Holds (h : Hype) (o : OsId) (n : LciId) : Prop :=
  ∃ sr, h.res n = some sr ∧ sr.srOwner = some o ∧ sr.srMapped = true ∧ sr.srRescinded = false

/-- The address lies in the logical range of the chunk. -/
def InLogical (lci : Lci) (x : Uval) : Prop :=
  lci.lciLaddr.toNat ≤ x.toNat ∧ x.toNat < lci.lciLaddr.toNat + lci.lciSize.toNat

/-- The real address lies in the real range of the chunk, modulo the word. -/
def InReal (lci : Lci) (q : Uval) : Prop := (q - lci.lciRaddr).toNat < lci.lciSize.toNat

/-- The logical map of a partition: each chunk that translates an address translates all addresses
of its range, through the same slot. -/
structure LogicalMap (h : Hype) (o : OsId) (os : Os) : Prop where
  os_eq : h.os o = some os
  below : ∀ a c n lci, SlotOf os a c → Backing h c a n lci →
    lci.lciLaddr.toNat + lci.lciSize.toNat ≤ maxLogicalAddress.toNat
  whole : ∀ a c n lci, SlotOf os a c → Backing h c a n lci →
    ∀ x, InLogical lci x → SlotOf os x c ∧ Backing h c x n lci

/-- The chunk that translates the address is a resource the partition holds. -/
def BackedHeld (h : Hype) (o : OsId) (os : Os) (a : Uval) (n : LciId) (lci : Lci) : Prop :=
  Holds h o n ∧ ∃ c, SlotOf os a c ∧ Backing h c a n lci

/-- The chunk in the slot of an address translates it, when it is not disabled and the byte lies in
the range of the chunk that backs it. -/
theorem lciTranslate_byte (hb : Backing h c a n lci) {slotLci : Lci}
    (hslot : h.lci c = some slotLci) (hen : slotLci.lciDisabled = false) (hin : InLogical lci a)
    (hlt : lci.lciLaddr.toNat + lci.lciSize.toNat < 2 ^ 64) :
    lciTranslate h c a 1 = .ok (a - lci.lciLaddr + lci.lciRaddr) := by
  obtain ⟨hlo, hhi⟩ := hin
  have hown : rangeContains lci.lciLaddr lci.lciSize a = true := by
    rw [rangeContains_iff]
    omega
  rw [lciTranslate, hslot, live, ok_bind, hen, if_neg (by simp)]
  cases hb with
  | plain hn hlci hraddr =>
    cases hslot.symm.trans hlci
    have hown : lciOwns lci a = true := hown
    rw [if_neg hraddr, show a + 1 - 1 = a by simp, hown]
    rfl
  | shared psmLci psm hpsmLci hinv hops hpsm hentry hlci hraddr =>
    cases hslot.symm.trans hpsmLci
    rw [if_pos hinv, hops, psmLToR, hpsm, live, ok_bind, hentry, ok_bind]
    dsimp only
    rw [hlci, live, ok_bind, decide_eq_true hraddr, hassert, if_pos rfl, ok_bind]
    rw [show rangeSubset lci.lciLaddr lci.lciSize a 1 = true from hown, hassert, if_pos rfl,
      ok_bind]

/-! ### Ranges -/

/-- Every byte of the range is translated to the byte at the same offset from `pa`, in the real
range of the chunk that translates it, a resource the partition holds. -/
def BytesTranslate (h : Hype) (o : OsId) (os : Os) (a len pa : Uval) : Prop :=
  ∀ x : Uval, x.toNat < len.toNat →
    logicalToPhysicalAddress h o (a + x) 1 = .ok (pa + x) ∧
      ∃ n lci, BackedHeld h o os (a + x) n lci ∧ h.lci n = some lci ∧ InReal lci (pa + x)

theorem laddrToLci_eq_ok {oc : Option LciId} : laddrToLci os a = .ok oc ↔
    chunkNumberAddr a < maxLogicalMemChunks ∧ os.pLci (chunkNumberAddr a) = oc := by
  unfold laddrToLci Os.slot
  split_ifs with hlt <;> simp [hlt]

theorem Backing.lci_eq (hb : Backing h c a n lci) : h.lci n = some lci := by
  cases hb with
  | plain hn hlci _ => rw [hn, hlci]
  | shared _ _ _ _ _ _ _ hlci _ => exact hlci

theorem Backing.unique {n' : LciId} {lci' : Lci} (hb : Backing h c a n lci)
    (hb' : Backing h c a n' lci') : n = n' := by
  rcases hb with ⟨rfl, hlci, hraddr⟩ | ⟨l, psm, hl, hinv, -, hpsm, hentry, -, -⟩ <;>
    rcases hb' with ⟨rfl, hlci', hraddr'⟩ | ⟨l', psm', hl', hinv', -, hpsm', hentry', -, -⟩
  · rfl
  · cases hlci.symm.trans hl'
    exact absurd hinv' hraddr
  · cases hlci'.symm.trans hl
    exact absurd hinv hraddr'
  · cases hl.symm.trans hl'
    cases hpsm.symm.trans hpsm'
    cases hentry.symm.trans hentry'
    rfl

end

/-! ### A map with one chunk -/

variable {k : Nat}

theorem oneChunk_slot {a : Uval} {c : LciId} (hslot : SlotOf (oneChunkOs k) a c) :
    chunkNumberAddr a = k ∧ c = 0 := by
  obtain ⟨-, hslot⟩ := hslot
  by_cases hk : chunkNumberAddr a = k
  · exact ⟨hk, by simpa [oneChunkOs, hk] using hslot.symm⟩
  · simp [oneChunkOs, hk] at hslot

theorem oneChunk_backing {a : Uval} {c n : LciId} {lci : Lci} (hslot : SlotOf (oneChunkOs k) a c)
    (hb : Backing (oneChunk k) c a n lci) : c = 0 ∧ n = 0 ∧ lci = oneChunkLci k := by
  obtain ⟨-, rfl⟩ := oneChunk_slot hslot
  cases hb with
  | plain hn hlci _ =>
    cases hlci
    exact ⟨rfl, hn, rfl⟩
  | shared psmLci psm _ _ _ hpsm _ _ _ => cases hpsm

theorem logicalMap_oneChunk (hk : k < maxLogicalMemChunks) :
    LogicalMap (oneChunk k) 0 (oneChunkOs k) := by
  have hbase : (oneChunkLci k).lciLaddr.toNat = k * 2 ^ 26 := by
    unfold maxLogicalMemChunks at hk
    show (BitVec.ofNat 64 k <<< 26).toNat = _
    rw [BitVec.toNat_shiftLeft, BitVec.toNat_ofNat, Nat.shiftLeft_eq, Nat.mod_eq_of_lt (by omega),
      Nat.mod_eq_of_lt (by omega)]
  have hsize : (oneChunkLci k).lciSize.toNat = 2 ^ 26 := rfl
  unfold maxLogicalMemChunks at hk
  refine ⟨rfl, fun a c n lci hs hb => ?_, fun a c n lci hs hb x hx => ?_⟩
  · obtain ⟨-, -, rfl⟩ := oneChunk_backing hs hb
    rw [toNat_maxLogicalAddress]
    omega
  · obtain ⟨rfl, rfl, rfl⟩ := oneChunk_backing hs hb
    rw [InLogical] at hx
    have hnum : chunkNumberAddr x = k := by
      rw [chunkNumberAddr_eq]
      omega
    refine ⟨⟨by rw [hnum]; exact hk, by rw [hnum]; simp [oneChunkOs]⟩, .plain rfl rfl ?_⟩
    exact show (0x10000000 : Uval) ≠ invalidPhysicalAddress by decide

end Rhype
