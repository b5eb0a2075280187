import Rhype.Gdt.Equiv.Entry

/-!
# The two halves of a partial segment

The test of `h_gdt_entry` for a partial segment does not look at the `B` bit.  With it the halves
are the addresses from the base up to the hypervisor and those below the base.  Without it the
lower half, which expands down, allows only offsets below `2^16`, and none of those is above its
limit: it is empty.
-/

namespace Rhype.Gdt

open Ia32 Thread

variable {t : Thread} {i : Fin gdtEntryCount} {base : Word}

/-- Entry `i` is one half of a partial segment, the lower one after an odd number of toggles. -/
structure PartialAt (base : Word) (t : Thread) (i : Fin gdtEntryCount) : Prop where
  isPartial : (t.gdtInfo i).isPartial = true
  half : HalfSegment (t.gdt i)
  base : (t.gdt i).base = base
  big : (t.gdt i).big = true
  expandBit : (t.gdt i).expandBit = decide ((t.gdtInfo i).toggleCount.toNat % 2 = 1)
  span : (t.gdt i).base.toNat + (t.gdt i).span =
    if (t.gdt i).expandBit then 2 ^ 32 else hvVbase.toNat

section

variable (h : PartialAt base t i) (haligned : base.toNat % 4096 = 0)
include h haligned

theorem PartialAt.toggle (eip : Word) :
    PartialAt base ((t.setGdt i (toggled (t.gdt i))).setInfo i
      { t.gdtInfo i with
        lastToggleEip := eip, toggleCount := (t.gdtInfo i).toggleCount + 1 }) i := by
  have hspan := h.half.toggled_span
  have hbelow := h.half.below
  have hhv := toNat_hvVbase
  rw [← h.base] at haligned
  constructor <;> simp only [setGdt, setInfo, Function.update_self]
  · exact h.isPartial
  · exact h.half.toggled.1
  · rw [toggled_base, h.base]
  · exact (toggled_bit _ (i := 14) (by omega) (by omega)).trans h.big
  · rw [toggled_expandBit, h.expandBit, ← decide_not, decide_eq_decide]
    change _ ↔ (_ + 1) % 2 ^ 32 % 2 = 1
    omega
  · rw [toggled_base, toggled_expandBit, hspan]
    cases (t.gdt i).expandBit <;> simp <;> omega

theorem PartialAt.fault (trap : Trap) : PartialAt base (fault t trap) i := by
  have h' : PartialAt base { t with eip := trap.eip, fs := trap.fs, gs := trap.gs } i :=
    ⟨h.isPartial, h.half, h.base, h.big, h.expandBit, h.span⟩
  unfold Gdt.fault handlePartialSegFault
  dsimp only
  split_ifs with hidx hpart
  · rcases eq_or_ne i ⟨_, hidx.2⟩ with rfl | hne
    · exact h'.toggle haligned trap.eip
    · constructor <;> simp only [setGdt, setInfo, Function.update_of_ne hne]
      exacts [h.isPartial, h.half, h.base, h.big, h.expandBit, h.span]
  · exact h'
  · exact h'

theorem PartialAt.faults (traps : List Trap) : PartialAt base (traps.foldl Gdt.fault t) i := by
  induction traps generalizing t with
  | nil => exact h
  | cons trap traps ih => exact ih (h.fault haligned trap)

end

/-- The addresses that the entry should cover after its toggles. -/
def halfOf (base : Word) (toggles : Nat) (lin : Word) : Prop :=
  if toggles % 2 = 0 then base.toNat ≤ lin.toNat ∧ lin.toNat < hvVbase.toNat
  else lin.toNat < base.toNat

theorem PartialAt.covers_iff (h : PartialAt base t i) (lin : Word) :
    (t.gdt i).Covers lin ↔ halfOf base (t.gdtInfo i).toggleCount.toNat lin := by
  have hspan := h.span
  have hdown : (t.gdt i).expandsDown = (t.gdt i).expandBit := by
    rw [Descriptor.expandsDown, h.half.code]
    rfl
  have hbit := h.expandBit
  unfold halfOf
  split_ifs with heven
  · rw [decide_eq_false (by omega)] at hbit
    simp only [hbit, reduceCtorEq, ↓reduceIte] at hspan
    rw [Descriptor.covers_iff_of_up (hdown.trans hbit) (by omega), hspan, h.base]
  · rw [decide_eq_true (by omega)] at hbit
    simp only [hbit] at hspan
    rw [Descriptor.covers_iff_of_down (hdown.trans hbit) h.big hspan, h.base]

section

variable {index : Word} {d : Descriptor}

theorem partialAt_hGdtEntry (hi : i.val = index.toNat) (hmin : gdtEntryMin ≤ i.val)
    (hpart : recognizedPartial (unpackDescr d) = true) (haligned : d.base.toNat % 4096 = 0)
    (hbase : d.base.toNat < hvVbase.toNat) (hbig : d.big = true) :
    PartialAt d.base (hGdtEntry t index d.word0 d.word1).2 i := by
  have hin : ¬ (index.toNat < gdtEntryMin ∨ index.toNat ≥ gdtEntryCount) := by
    omega
  have hfin : (⟨index.toNat, by omega⟩ : Fin gdtEntryCount) = i := Fin.ext hi.symm
  have hu : unpackDescrWords d.word0 d.word1 = unpackDescr d := rfl
  have hzero : ¬ (d.word0 = 0 ∧ d.word1 = 0) := by
    rintro ⟨h0, h1⟩
    rw [← hu, h0, h1] at hpart
    cases hpart
  obtain ⟨-, -, h15, -, h3, h2, h6⟩ := recognizedPartial_spec hpart
  have hpages := toNat_roomPages hbase.le
  have hhv := toNat_hvVbase
  rw [hGdtEntry, dif_neg hin]
  simp only [hfin, if_neg hzero, hu, hpart, ↓reduceIte, unpackDescr_base]
  constructor <;> simp only [setGdt, setInfo, Function.update_self, packDescr_base]
  · exact ⟨by rw [packDescr_code, h3], by rw [packDescr_granular, h15],
      (two_le_packDescr_dpl _ _ _).2 h6, by rw [packDescr_base]; omega⟩
  · exact (packDescr_bit _ _ _ 14 (by omega)).trans ((unpackDescr_bit d 14 (by omega)).trans
      hbig)
  · rw [packDescr_expandBit, h2]
    rfl
  · rw [packDescr_expandBit, h2, packDescr_span (by omega) (by omega), unit_packDescr, flagsUnit,
      h15, hpages, if_pos rfl,
      if_neg Bool.false_ne_true]
    omega

/-- **The halves of a partial segment.**  For a page-aligned base below the hypervisor, an entry
with the `B` bit covers the upper half after an even number of toggles and the lower half after an
odd number, whatever faults come. -/
theorem partial_covers_iff (t : Thread) (hi : i.val = index.toNat) (hmin : gdtEntryMin ≤ i.val)
    (hpart : recognizedPartial (unpackDescr d) = true) (haligned : d.base.toNat % 4096 = 0)
    (hbase : d.base.toNat < hvVbase.toNat) (hbig : d.big = true) (traps : List Trap) (lin : Word) :
    let t' := traps.foldl fault (hGdtEntry t index d.word0 d.word1).2
    (t'.gdt i).Covers lin ↔ halfOf d.base (t'.gdtInfo i).toggleCount.toNat lin :=
  ((partialAt_hGdtEntry hi hmin hpart haligned hbase hbig).faults haligned traps).covers_iff lin

end

/-- The halves of a flat user data segment with base 4096, after one fault. -/
theorem partial_covers_iff_flat :
    let t' := [⟨1, 5 <<< 3, 0, fun _ => 0x64⟩].foldl fault
      (hGdtEntry blankThread 5 0x1000ffff 0x00cff200).2
    (t'.gdt guestDs).Covers 0 ↔ halfOf 0x1000 (t'.gdtInfo guestDs).toggleCount.toNat 0 :=
  partial_covers_iff (d := ⟨0x1000ffff, 0x00cff200⟩) blankThread rfl (by decide) (by decide)
    (by decide) (by decide) (by decide) _ _

/-- Without the `B` bit, address zero is in neither half of the same segment. -/
theorem lowerHalf_empty :
    recognizedPartial (unpackDescrWords 0x1000ffff 0x008ff200) = true ∧
      ¬ ∀ (traps : List Trap) (lin : Word),
        let t' := traps.foldl fault (hGdtEntry blankThread 5 0x1000ffff 0x008ff200).2
        (t'.gdt guestDs).Covers lin ↔ halfOf 0x1000 (t'.gdtInfo guestDs).toggleCount.toNat lin := by
  refine ⟨by decide, fun h => ?_⟩
  -- an instruction with an `%fs` override faults, and `%fs` selects the entry
  have hzero := h [⟨1, 5 <<< 3, 0, fun _ => 0x64⟩] 0
  simp only [Descriptor.covers_iff] at hzero
  exact absurd hzero (by unfold halfOf Descriptor.Allows; decide +kernel)

end Rhype.Gdt
