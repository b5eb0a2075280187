import Rhype.Gdt.Basic
import Rhype.Word.Flags
import Mathlib.Tactic.IntervalCases

/-!
# What the processor reads from a packed descriptor

`pack_descr` and `unpack_descr_words` move the fields of a descriptor with masks and shifts.  Here
they are compared with the fields of `Ia32.Descriptor`: the base and the attributes survive, and the
limit is the size minus one modulo `2^20`.  A size of zero is therefore the largest limit there is.
-/

namespace Rhype.Gdt

open Ia32
open BitVec hiding not_not

/-! ### Packing -/

@[simp]
theorem packDescr_base (flags base size : Word) : (packDescr flags base size).base = base := by
  apply eq_of_getLsbD_eq
  intro i hi
  simp only [Descriptor.base, packDescr, getLsbD_append]
  interval_cases i <;> simp

theorem packDescr_rawLimit (flags base size : Word) :
    (packDescr flags base size).rawLimit = (size - 1).setWidth 20 := by
  apply eq_of_getLsbD_eq
  intro i hi
  simp only [Descriptor.rawLimit, packDescr, getLsbD_append]
  interval_cases i <;> simp

theorem packDescr_bit (flags base size : Word) (i : Nat) (hi : i < 8 ∨ 12 ≤ i ∧ i < 16) :
    (packDescr flags base size).word1.getLsbD (i + 8) = flags.getLsbD i := by
  have hi' : i < 16 := by omega
  simp only [packDescr]
  interval_cases i <;> simp_all

section

variable (flags base size : Word)

@[simp]
theorem packDescr_present : (packDescr flags base size).present = flags.getLsbD 7 :=
  packDescr_bit flags base size 7 (by omega)

@[simp]
theorem packDescr_codeOrData : (packDescr flags base size).codeOrData = flags.getLsbD 4 :=
  packDescr_bit flags base size 4 (by omega)

@[simp]
theorem packDescr_code : (packDescr flags base size).code = flags.getLsbD 3 :=
  packDescr_bit flags base size 3 (by omega)

@[simp]
theorem packDescr_expandBit : (packDescr flags base size).expandBit = flags.getLsbD 2 :=
  packDescr_bit flags base size 2 (by omega)

@[simp]
theorem packDescr_granular : (packDescr flags base size).granular = flags.getLsbD 15 :=
  packDescr_bit flags base size 15 (by omega)

theorem two_le_packDescr_dpl :
    2 ≤ (packDescr flags base size).dpl.toNat ↔ flags.getLsbD 6 = true := by
  rw [Descriptor.two_le_dpl_iff, packDescr_bit flags base size 6 (by omega)]

end

theorem packDescr_span {flags base size : Word} (h0 : 0 < size.toNat) (h1 : size.toNat ≤ 2 ^ 20) :
    (packDescr flags base size).span = size.toNat * (packDescr flags base size).unit := by
  have hone : (1 : Word) ≤ size := by
    exact h0
  have hsub : (size - 1).toNat = size.toNat - 1 := toNat_sub_of_le hone
  have hlimit : (packDescr flags base size).rawLimit.toNat = size.toNat - 1 := by
    rw [packDescr_rawLimit, toNat_setWidth, hsub, Nat.mod_eq_of_lt (by omega)]
  rw [Descriptor.span, hlimit, Nat.sub_add_cancel h0]

/-- **A size of zero is the largest limit.** -/
theorem packDescr_rawLimit_zero (flags base : Word) :
    (packDescr flags base 0).rawLimit = allOnes 20 := by
  rw [packDescr_rawLimit]
  decide

/-! ### Unpacking -/

section

variable (d : Descriptor)
include d

@[simp]
theorem unpackDescr_base : (unpackDescr d).base = d.base := by
  apply eq_of_getLsbD_eq
  intro i hi
  simp only [Descriptor.base, unpackDescr, unpackDescrWords, getLsbD_append, getLsbD_extractLsb']
  interval_cases i <;> simp

theorem unpackDescr_bit (i : Nat) (hi : i < 8 ∨ 12 ≤ i ∧ i < 16) :
    (unpackDescr d).flags.getLsbD i = d.word1.getLsbD (i + 8) := by
  have hi' : i < 16 := by omega
  simp only [unpackDescr, unpackDescrWords]
  interval_cases i <;> simp_all

theorem unpackDescr_size : (unpackDescr d).size = d.rawLimit.setWidth 32 + 1 := by
  have hlimit : (d.word1 &&& 0x000f0000#32) ||| (d.word0 &&& 0x0000ffff#32)
      = d.rawLimit.setWidth 32 := by
    apply eq_of_getLsbD_eq
    intro i hi
    simp only [Descriptor.rawLimit, getLsbD_setWidth, getLsbD_append, getLsbD_extractLsb']
    interval_cases i <;> simp
  rw [unpackDescr, unpackDescrWords, hlimit]
  rfl

theorem toNat_unpackDescr_size : (unpackDescr d).size.toNat = d.rawLimit.toNat + 1 := by
  rw [unpackDescr_size, toNat_add, toNat_setWidth,
    Nat.mod_eq_of_lt (by omega : d.rawLimit.toNat < 2 ^ 32)]
  exact Nat.mod_eq_of_lt (by rw [show (1 : Word).toNat = 1 from rfl]; omega)

end

section

variable (d : Descriptor)

@[simp]
theorem unpackDescr_present : (unpackDescr d).flags.getLsbD 7 = d.present :=
  unpackDescr_bit d 7 (by omega)

@[simp]
theorem unpackDescr_codeOrData : (unpackDescr d).flags.getLsbD 4 = d.codeOrData :=
  unpackDescr_bit d 4 (by omega)

@[simp]
theorem unpackDescr_code : (unpackDescr d).flags.getLsbD 3 = d.code :=
  unpackDescr_bit d 3 (by omega)

@[simp]
theorem unpackDescr_expandBit : (unpackDescr d).flags.getLsbD 2 = d.expandBit :=
  unpackDescr_bit d 2 (by omega)

@[simp]
theorem unpackDescr_granular : (unpackDescr d).flags.getLsbD 15 = d.granular :=
  unpackDescr_bit d 15 (by omega)

end

/-! ### Tests on flags -/

theorem isFlag_segFlagsPBit : Word.IsFlag segFlagsPBit 7 := by
  unfold Word.IsFlag
  decide

theorem isFlag_segFlagsGBit : Word.IsFlag segFlagsGBit 15 := by
  unfold Word.IsFlag
  decide

theorem isFlag_segFlagsEBit : Word.IsFlag segFlagsEBit 2 := by
  unfold Word.IsFlag
  decide

theorem present_iff (d : Descriptor) :
    (unpackDescr d).flags &&& segFlagsPBit ≠ 0 ↔ d.present = true := by
  rw [isFlag_segFlagsPBit.and_ne_zero_iff, unpackDescr_present]

theorem granular_iff (flags : Word) : flags &&& segFlagsGBit ≠ 0 ↔ flags.getLsbD 15 = true :=
  isFlag_segFlagsGBit.and_ne_zero_iff

theorem expandBit_iff (flags : Word) : flags &&& segFlagsEBit = 0 ↔ flags.getLsbD 2 = false := by
  rw [← Bool.not_eq_true, ← isFlag_segFlagsEBit.and_ne_zero_iff, not_not]

theorem refusedDown_iff (flags : Word) :
    refusedDown flags = true ↔
      flags.getLsbD 4 = true ∧ flags.getLsbD 3 = false ∧ flags.getLsbD 2 = true := by
  rw [refusedDown, beq_iff_eq]
  constructor
  · intro h
    have h4 := congrArg (fun y : Word => y.getLsbD 4) h
    have h3 := congrArg (fun y : Word => y.getLsbD 3) h
    have h2 := congrArg (fun y : Word => y.getLsbD 2) h
    simp only [segFlagsNonsysBit, segFlagsCodeBit, segFlagsEBit] at h4 h3 h2
    simp_all
  · rintro ⟨h4, h3, h2⟩
    apply eq_of_getLsbD_eq
    intro i hi
    simp only [segFlagsNonsysBit, segFlagsCodeBit, segFlagsEBit]
    interval_cases i <;> simp_all

theorem recognizedPartial_spec {u : Unpacked} (h : recognizedPartial u = true) :
    u.base.toNat ≤ hvVbase.toNat ∧ u.flags.getLsbD 7 = true ∧ u.flags.getLsbD 15 = true ∧
      u.flags.getLsbD 4 = true ∧ u.flags.getLsbD 3 = false ∧ u.flags.getLsbD 2 = false ∧
      u.flags.getLsbD 6 = true := by
  simp only [recognizedPartial, Bool.and_eq_true, decide_eq_true_eq, beq_iff_eq] at h
  obtain ⟨⟨⟨-, hbase⟩, -⟩, hflags⟩ := h
  have hbit := fun i => congrArg (fun y : Word => y.getLsbD i) hflags
  simp only [segFlagsPBit, segFlagsGBit, segFlagsNonsysBit, segFlagsCodeBit, segFlagsEBit,
    segFlagsDplMask, segFlagsDplShift] at hbit
  refine ⟨hbase, ?_, ?_, ?_, ?_, ?_, ?_⟩
  · simpa using hbit 7
  · simpa using hbit 15
  · simpa using hbit 4
  · simpa using hbit 3
  · simpa using hbit 2
  · simpa using hbit 6

/-! ### The privilege level -/

theorem and_dplMask (flags : Word) :
    flags &&& segFlagsDplMask =
      (if flags.getLsbD 6 then 0x40 else 0) ||| (if flags.getLsbD 5 then 0x20 else 0) := by
  apply eq_of_getLsbD_eq
  intro i hi
  simp only [segFlagsDplMask]
  interval_cases i <;> split_ifs <;> simp_all

theorem forceDpl_dpl (flags : Word) : (forceDpl flags).getLsbD 6 = true := by
  rw [forceDpl, and_dplMask]
  cases h6 : flags.getLsbD 6 with
  | false => cases flags.getLsbD 5 <;> simp [segFlagsDplShift]
  | true => cases flags.getLsbD 5 <;> simp [segFlagsDplShift, h6]

theorem forceDpl_bit (flags : Word) {i : Nat} (hi : i < 5 ∨ 7 ≤ i ∧ i < 16) :
    (forceDpl flags).getLsbD i = flags.getLsbD i := by
  have hi' : i < 16 := by omega
  unfold forceDpl
  split_ifs
  · simp only [segFlagsDplMask, segFlagsDplShift]
    interval_cases i <;> simp_all
  · rfl

end Rhype.Gdt
