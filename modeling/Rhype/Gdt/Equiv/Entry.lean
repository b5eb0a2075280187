import Rhype.Gdt.Equiv.Pack

/-!
# The segments of a partition stay out of the hypervisor's addresses

`h_gdt_entry` keeps the base of a present code or data segment, raises its privilege level to two
at least, and cuts it so that it ends below `HV_VBASE`.  What is left may be less than one unit of
the limit: then the size is zero, and `pack_descr` turns it into the largest limit there is.  So the
table is safe exactly when the segment starts at least one unit below the hypervisor.
-/

namespace Rhype.Gdt

open BitVec Ia32 Thread

/-- A code or data segment is of user or kernel level, and ends below the hypervisor. -/
def SafeSegment (d : Descriptor) : Prop :=
  d.present = true → d.codeOrData = true →
    2 ≤ d.dpl.toNat ∧ ∀ lin, d.Covers lin → lin.toNat < hvVbase.toNat

/-- The client part of the table has safe segments only. -/
def ClientSafe (t : Thread) : Prop :=
  ∀ i : Fin gdtEntryCount, gdtEntryMin ≤ i.val → SafeSegment (t.gdt i)

/-- The words describe a segment that the table takes: present, with code or data, not expanding
down. -/
def TakesSegment (d : Descriptor) : Prop :=
  d.present = true ∧ d.codeOrData = true ∧ d.expandsDown = false

/-- **The condition on a call**: the segment starts at least one unit below the hypervisor. -/
def EntryOk (index word0 word1 : Word) : Prop :=
  gdtEntryMin ≤ index.toNat → index.toNat < gdtEntryCount → TakesSegment ⟨word0, word1⟩ →
    (Descriptor.mk word0 word1).base.toNat + (Descriptor.mk word0 word1).unit ≤ hvVbase.toNat

/-! ### Sizes -/

theorem toNat_hvVbase : hvVbase.toNat = 4227858432 := rfl

theorem toNat_room {base : Word} (h : base.toNat ≤ hvVbase.toNat) :
    (hvVbase - base).toNat = hvVbase.toNat - base.toNat :=
  toNat_sub_of_le (le_def.2 h)

theorem toNat_roomPages {base : Word} (h : base.toNat ≤ hvVbase.toNat) :
    ((hvVbase - base) >>> 12).toNat = (hvVbase.toNat - base.toNat) / 4096 := by
  rw [toNat_ushiftRight, toNat_room h, Nat.shiftRight_eq_div_pow]

/-- The bytes that one unit of the limit stands for, from the flags. -/
def flagsUnit (flags : Word) : Nat := if flags.getLsbD 15 then 4096 else 1

theorem unit_packDescr (flags base size : Word) :
    (packDescr flags base size).unit = flagsUnit flags := by
  simp [Descriptor.unit, flagsUnit]

theorem toNat_maxSize (flags base : Word) :
    (maxSize flags base).toNat = (hvVbase.toNat - base.toNat) / flagsUnit flags := by
  have hroom : (if base > hvVbase then 0 else hvVbase - base).toNat =
      hvVbase.toNat - base.toNat := by
    split_ifs with hgt
    · have hlt := lt_def.1 hgt
      rw [Nat.sub_eq_zero_of_le hlt.le]
      rfl
    · exact toNat_room (Nat.le_of_not_lt fun h => hgt (lt_def.2 h))
  simp only [maxSize, granular_iff, flagsUnit]
  split_ifs at hroom ⊢ <;>
    simp only [toNat_ushiftRight, Nat.shiftRight_eq_div_pow, hroom, Nat.div_one]

theorem toNat_restrictSize (flags base size : Word) :
    (restrictSize flags base size).toNat =
      min size.toNat ((hvVbase.toNat - base.toNat) / flagsUnit flags) := by
  rw [← toNat_maxSize, restrictSize]
  split_ifs with hgt
  · exact (Nat.min_eq_right (lt_def.1 hgt).le).symm
  · exact (Nat.min_eq_left (Nat.le_of_not_lt fun h => hgt (lt_def.2 h))).symm

theorem packDescr_below {flags base size : Word} (h0 : 0 < size.toNat) (h1 : size.toNat ≤ 2 ^ 20)
    (hroom : size.toNat ≤ (hvVbase.toNat - base.toNat) / flagsUnit flags)
    (hbase : base.toNat ≤ hvVbase.toNat) :
    (packDescr flags base size).base.toNat + (packDescr flags base size).span ≤ hvVbase.toNat := by
  have hmul : size.toNat * flagsUnit flags ≤ hvVbase.toNat - base.toNat :=
    (Nat.mul_le_mul_right _ hroom).trans (Nat.div_mul_le_self _ _)
  rw [packDescr_base, packDescr_span h0 h1, unit_packDescr]
  omega

/-! ### What a call does -/

/-- What becomes of a segment that the table takes. -/
structure Cut (d d' : Descriptor) : Prop where
  takes : TakesSegment d'
  base : d'.base = d.base
  granular : d'.granular = d.granular
  dpl : 2 ≤ d'.dpl.toNat
  below : d.base.toNat + d.unit ≤ hvVbase.toNat → d'.base.toNat + d'.span ≤ hvVbase.toNat
  /-- With less than one unit of room, the limit is the largest one. -/
  full : hvVbase.toNat < d.base.toNat + d.unit → d'.rawLimit = allOnes 20

theorem cut_packDescr {d : Descriptor} {flags size : Word} (hp : flags.getLsbD 7 = true)
    (hs : flags.getLsbD 4 = true) (hdown : (!flags.getLsbD 3 && flags.getLsbD 2) = false)
    (hg : flags.getLsbD 15 = d.granular) (hdpl : flags.getLsbD 6 = true)
    (hsize : size.toNat ≤ 2 ^ 20) (hmin : size.toNat ≤ (hvVbase.toNat - d.base.toNat) / d.unit)
    (hpos : 0 < (hvVbase.toNat - d.base.toNat) / d.unit → 0 < size.toNat) :
    Cut d (packDescr flags d.base size) := by
  have hunit : flagsUnit flags = d.unit := by rw [flagsUnit, Descriptor.unit, hg]
  have hroom : 0 < (hvVbase.toNat - d.base.toNat) / d.unit ↔
      d.base.toNat + d.unit ≤ hvVbase.toNat := by
    rw [Nat.div_pos_iff]
    have := d.unit_pos
    omega
  refine ⟨⟨by simpa using hp, by simpa using hs, ?_⟩, by simp, by simpa using hg,
    (two_le_packDescr_dpl _ _ _).2 hdpl, ?_, ?_⟩
  · rw [Descriptor.expandsDown, packDescr_code, packDescr_expandBit, hdown]
  · intro hbelow
    exact packDescr_below (hpos (hroom.2 hbelow)) hsize (by rw [hunit]; exact hmin) (by omega)
  · intro hfull
    have hnone : (hvVbase.toNat - d.base.toNat) / d.unit = 0 :=
      Nat.eq_zero_of_not_pos fun h => absurd (hroom.1 h) (by omega)
    have hzero : size = 0 := eq_of_toNat_eq (by simpa [hnone] using hmin)
    rw [hzero, packDescr_rawLimit_zero]

/-- One half of a partial segment. -/
structure HalfSegment (d : Descriptor) : Prop where
  code : d.code = false
  granular : d.granular = true
  dpl : 2 ≤ d.dpl.toNat
  below : d.base.toNat + 4096 ≤ hvVbase.toNat

/-- What a call with the descriptor `d` does to entry `i` of the table. -/
inductive EntryStep (t : Thread) (i : Fin gdtEntryCount) (d : Descriptor) : Thread → Prop
  /-- The descriptor is refused: it is one of a data segment that expands down. -/
  | refused (h : ¬ TakesSegment d) : EntryStep t i d t
  /-- The descriptor is written, and is not one of a present code or data segment. -/
  | inert {d' : Descriptor} {info : EntryInfo} (h : ¬ TakesSegment d)
      (hd' : d'.present = true → d'.codeOrData = false) (hinfo : info.isPartial = false) :
      EntryStep t i d ((t.setGdt i d').setInfo i info)
  /-- The segment is cut. -/
  | cut {d' : Descriptor} {info : EntryInfo} (h : TakesSegment d) (hcut : Cut d d')
      (hinfo : info.isPartial = true → d'.code = false ∧ d'.granular = true) :
      EntryStep t i d ((t.setGdt i d').setInfo i info)

variable {t : Thread} {index word0 word1 : Word} {i : Fin gdtEntryCount} {d : Descriptor}

theorem hGdtEntry_out (h : index.toNat < gdtEntryMin ∨ index.toNat ≥ gdtEntryCount) :
    (hGdtEntry t index word0 word1).2 = t := by
  rw [hGdtEntry, dif_pos h]

theorem entryStep_present
    (hp : d.present = true) (hdown : refusedDown (unpackDescr d).flags = false)
    (info : EntryInfo) (hinfo : info.isPartial = false) :
    EntryStep t i d ((t.setGdt i (packDescr (forceDpl (unpackDescr d).flags) (unpackDescr d).base
      (restrictSize (forceDpl (unpackDescr d).flags) (unpackDescr d).base
        (unpackDescr d).size))).setInfo i info) := by
  have hg : (forceDpl (unpackDescr d).flags).getLsbD 15 = d.granular := by
    rw [forceDpl_bit _ (by omega), unpackDescr_granular]
  have hs : (forceDpl (unpackDescr d).flags).getLsbD 4 = d.codeOrData := by
    rw [forceDpl_bit _ (by omega), unpackDescr_codeOrData]
  have hunit : flagsUnit (forceDpl (unpackDescr d).flags) = d.unit := by
    rw [flagsUnit, Descriptor.unit, hg]
  have hsize := toNat_unpackDescr_size d
  rcases hcd : d.codeOrData with _ | _
  · refine .inert (fun h => by simp [h.2.1] at hcd) (fun _ => ?_) hinfo
    rw [packDescr_codeOrData, hs, hcd]
  -- the test for an expanding segment failed, so this is one that is taken
  have hup : d.expandsDown = false := by
    rw [← Bool.not_eq_true, refusedDown_iff] at hdown
    simp only [unpackDescr_code] at hdown
    rw [Descriptor.expandsDown]
    cases hc : d.code <;> cases he : d.expandBit <;> simp_all
  refine .cut ⟨hp, hcd, hup⟩ ?_ (by simp [hinfo])
  rw [unpackDescr_base]
  refine cut_packDescr ?_ (by rw [hs, hcd]) ?_ hg (forceDpl_dpl _) ?_ ?_ ?_
  · rw [forceDpl_bit _ (by omega), unpackDescr_present, hp]
  · rw [forceDpl_bit _ (by omega), forceDpl_bit _ (by omega), unpackDescr_code,
      unpackDescr_expandBit]
    exact hup
  all_goals rw [toNat_restrictSize, hunit]
  · exact (Nat.min_le_left _ _).trans (by omega)
  · exact Nat.min_le_right _ _
  · intro hpos
    exact Nat.lt_min.2 ⟨by omega, hpos⟩

/-- **What a call does to an entry of the client part.** -/
theorem hGdtEntry_step (hmin : gdtEntryMin ≤ i.val) (hi : i.val = index.toNat) :
    EntryStep t i ⟨word0, word1⟩ (hGdtEntry t index word0 word1).2 := by
  have hin : ¬ (index.toNat < gdtEntryMin ∨ index.toNat ≥ gdtEntryCount) := by
    omega
  have hfin : (⟨index.toNat, by omega⟩ : Fin gdtEntryCount) = i := Fin.ext hi.symm
  set d : Descriptor := ⟨word0, word1⟩ with hd
  have hu : unpackDescrWords word0 word1 = unpackDescr d := rfl
  rw [hGdtEntry]
  simp only [hfin, hu]
  split_ifs with hzero hpart hpres hdown
  · refine .inert ?_ (by decide) rfl
    rintro ⟨hp, -⟩
    rw [hd, hzero.1, hzero.2] at hp
    exact absurd hp nofun
  · -- the upper half of a partial segment
    obtain ⟨hbase, h7, h15, h4, h3, h2, h6⟩ := recognizedPartial_spec hpart
    have hg : d.granular = true := by rw [← unpackDescr_granular, h15]
    have hunit : d.unit = 4096 := by simp [Descriptor.unit, hg]
    have hroom := toNat_roomPages hbase
    rw [unpackDescr_base] at hroom hbase ⊢
    refine .cut ⟨?_, ?_, ?_⟩ (cut_packDescr h7 h4 (by simp only [h3, h2]; rfl) (by rw [h15, hg]) h6
      ?_ ?_ ?_) ?_
    · rw [← unpackDescr_present, h7]
    · rw [← unpackDescr_codeOrData, h4]
    · rw [Descriptor.expandsDown, ← unpackDescr_code, ← unpackDescr_expandBit, h3, h2]
      rfl
    · omega
    · rw [hroom, hunit]
    · rw [hroom, hunit]
      exact id
    · intro _
      rw [packDescr_code, packDescr_granular]
      exact ⟨h3, h15⟩
  · refine .refused ?_
    rintro ⟨-, -, hup⟩
    rw [refusedDown_iff] at hdown
    simp only [unpackDescr_code, unpackDescr_expandBit] at hdown
    simp [Descriptor.expandsDown, hdown] at hup
  · exact entryStep_present ((present_iff d).1 hpres) (by simpa using hdown) _ rfl
  · have hnot : ¬ d.present = true := fun h => hpres ((present_iff d).2 h)
    refine .inert (fun h => hnot h.1) (fun h => ?_) rfl
    rw [packDescr_present, unpackDescr_present] at h
    exact absurd h hnot

/-! ### Safety of the entries -/

theorem Cut.safe {d d' : Descriptor} (h : Cut d d')
    (hroom : d.base.toNat + d.unit ≤ hvVbase.toNat) : SafeSegment d' := by
  intro _ _
  refine ⟨h.dpl, fun lin hlin => ?_⟩
  have hbelow := h.below hroom
  exact ((Descriptor.covers_iff_of_up h.takes.2.2 (by omega)).1 hlin).2.trans_le hbelow

theorem Cut.reaches {d d' : Descriptor} (h : Cut d d')
    (hroom : ¬ d.base.toNat + d.unit ≤ hvVbase.toNat) : ¬ SafeSegment d' := by
  intro hsafe
  have hlt := (hsafe h.takes.1 h.takes.2.1).2
  have hfull := h.full (by omega)
  cases hg : d'.granular with
  | true => exact absurd (hlt hvVbase (Descriptor.covers_of_full h.takes.2.2 hfull hg _)) (by omega)
  | false =>
    have hunit : d.unit = 1 := by
      rw [Descriptor.unit, ← h.granular, hg]
      rfl
    have hbase := hlt d'.base (Descriptor.covers_base h.takes.2.2)
    rw [h.base] at hbase
    omega

theorem toggled_bit (d : Descriptor) {i : Nat} (hi : i < 8 ∨ 12 ≤ i ∧ i < 16) (h2 : i ≠ 2) :
    (toggled d).word1.getLsbD (i + 8) = d.word1.getLsbD (i + 8) := by
  rw [toggled, ← unpackDescr_bit d i hi]
  split_ifs <;> rw [packDescr_bit _ _ _ _ hi]
  · rw [isFlag_segFlagsEBit.getLsbD_or (by decide), decide_eq_false h2.symm, Bool.or_false]
  · rw [isFlag_segFlagsEBit.getLsbD_and_not (by omega), decide_eq_false h2.symm]
    exact Bool.and_true _

theorem toggled_expandBit (d : Descriptor) : (toggled d).expandBit = !d.expandBit := by
  simp only [toggled, expandBit_iff, unpackDescr_expandBit]
  cases d.expandBit <;> simp [segFlagsEBit]

theorem toggled_base (d : Descriptor) : (toggled d).base = d.base := by
  rw [toggled]
  split_ifs <;> rw [packDescr_base, unpackDescr_base]

theorem HalfSegment.toggled_span (h : HalfSegment d) :
    (toggled d).span = if d.expandBit then (hvVbase.toNat - d.base.toNat) / 4096 * 4096
      else (2 ^ 20 - d.base.toNat / 4096) * 4096 := by
  have hunit : (toggled d).unit = 4096 := if_pos ((toggled_bit d (by omega) (by omega)).trans
    h.granular)
  have hbelow := h.below
  simp only [toggled, expandBit_iff, unpackDescr_expandBit, unpackDescr_base] at hunit ⊢
  cases he : d.expandBit <;> simp only [he, ↓reduceIte, reduceCtorEq] at hunit ⊢
  · have hpages : (d.base >>> 12).toNat = d.base.toNat / 4096 := by
      rw [toNat_ushiftRight, Nat.shiftRight_eq_div_pow]
    have hle : d.base >>> 12 ≤ 0x100000#32 := by
      rw [le_def, show (0x100000#32).toNat = 2 ^ 20 from rfl]
      omega
    have hsize : (0x100000#32 - (d.base >>> 12)).toNat = 2 ^ 20 - d.base.toNat / 4096 := by
      rw [toNat_sub_of_le hle, hpages]
      rfl
    rw [packDescr_span (by omega) (by omega), hunit, hsize]
  · have hsize := @toNat_roomPages d.base (by omega)
    rw [packDescr_span (by omega) (by omega), hunit, hsize]

theorem HalfSegment.toggled (h : HalfSegment d) :
    HalfSegment (toggled d) ∧ SafeSegment (toggled d) := by
  have hbelow : (Gdt.toggled d).base.toNat + 4096 ≤ hvVbase.toNat := by
    rw [toggled_base]
    exact h.below
  have hcode : (Gdt.toggled d).code = false :=
    (toggled_bit d (i := 3) (by omega) (by omega)).trans h.code
  have hdpl : 2 ≤ (Gdt.toggled d).dpl.toNat := by
    rw [Descriptor.two_le_dpl_iff, toggled_bit d (i := 6) (by omega) (by omega)]
    exact (Descriptor.two_le_dpl_iff d).1 h.dpl
  have hgran := (toggled_bit d (i := 15) (by omega) (by omega)).trans h.granular
  refine ⟨⟨hcode, hgran, hdpl, hbelow⟩, fun _ _ => ⟨hdpl, fun lin hlin => ?_⟩⟩
  have hspan := h.toggled_span
  have hdown : (Gdt.toggled d).expandsDown = !d.expandBit := by
    rw [Descriptor.expandsDown, hcode, toggled_expandBit]
    rfl
  rw [← toggled_base d] at hspan
  cases he : d.expandBit <;> simp only [he, ↓reduceIte, reduceCtorEq] at hspan hdown
  · have := hlin.lt_of_down hdown (by omega)
    omega
  · have := ((Descriptor.covers_iff_of_up hdown (by omega)).1 hlin).2
    omega

/-! ### Safety of the table -/

/-- The table is safe, and its partial entries can be toggled. -/
structure TableInv (t : Thread) : Prop where
  safe : ClientSafe t
  half : ∀ i, (t.gdtInfo i).isPartial = true → HalfSegment (t.gdt i)

section

variable {t : Thread} (h : TableInv t)
include h

theorem TableInv.write {info : EntryInfo} (hd : SafeSegment d)
    (hinfo : info.isPartial = true → HalfSegment d) : TableInv ((t.setGdt i d).setInfo i info) where
  safe j hj := by
    rcases eq_or_ne j i with rfl | hne
    · simpa [setGdt, setInfo] using hd
    · simpa [setGdt, setInfo, hne] using h.safe j hj
  half j hj := by
    rcases eq_or_ne j i with rfl | hne
    · simpa [setGdt, setInfo] using hinfo (by simpa [setInfo] using hj)
    · simpa [setGdt, setInfo, hne] using
        h.half j (by simpa [setGdt, setInfo, hne] using hj)

/-- A fault toggles one half of a partial segment, or does nothing. -/
theorem TableInv.handle (mem : Word → BitVec 8) : TableInv (handlePartialSegFault t mem).2 := by
  unfold handlePartialSegFault
  dsimp only
  split_ifs with hidx hpart
  · obtain ⟨hhalf, hsafe⟩ := (h.half _ hpart.2.1).toggled
    exact h.write hsafe fun _ => hhalf
  · exact h
  · exact h

theorem TableInv.fault (trap : Trap) : TableInv (fault t trap) := by
  have h' : TableInv { t with eip := trap.eip, fs := trap.fs, gs := trap.gs } := ⟨h.safe, h.half⟩
  exact h'.handle trap.mem

theorem TableInv.faults (traps : List Trap) : TableInv (traps.foldl Gdt.fault t) := by
  induction traps generalizing t with
  | nil => exact h
  | cons trap traps ih => exact ih (h.fault trap)

theorem TableInv.entry (hok : EntryOk index word0 word1) :
    TableInv (hGdtEntry t index word0 word1).2 := by
  by_cases hin : index.toNat < gdtEntryMin ∨ index.toNat ≥ gdtEntryCount
  · rw [hGdtEntry_out hin]
    exact h
  have hstep := @hGdtEntry_step t index word0 word1 ⟨index.toNat, by omega⟩
    (by simp only; omega) rfl
  generalize (hGdtEntry t index word0 word1).2 = t' at hstep ⊢
  cases hstep with
  | refused _ => exact h
  | inert _ hd' hinfo =>
    refine h.write (fun hp hcd => ?_) (by simp [hinfo])
    rw [hd' hp] at hcd
    cases hcd
  | cut htakes hcut hinfo =>
    have hroom := hok (by omega) (by omega) htakes
    refine h.write (hcut.safe hroom) fun hpart => ?_
    obtain ⟨hcode, hgran⟩ := hinfo hpart
    have hunit : (Descriptor.mk word0 word1).unit = 4096 := by
      rw [Descriptor.unit, ← hcut.granular, hgran]
      rfl
    exact ⟨hcode, hgran, hcut.dpl, by rw [hcut.base, ← hunit]; exact hroom⟩

end

/-- A call that does not meet the condition leaves an entry that reaches into the hypervisor. -/
theorem hGdtEntry_reaches
    (h : ¬ EntryOk index word0 word1) : ¬ ClientSafe (hGdtEntry t index word0 word1).2 := by
  simp only [EntryOk, not_forall] at h
  obtain ⟨hmin, hcount, htakes, hroom⟩ := h
  have hstep := @hGdtEntry_step t index word0 word1 ⟨index.toNat, hcount⟩ hmin rfl
  generalize (hGdtEntry t index word0 word1).2 = t' at hstep ⊢
  intro hsafe
  have hentry := hsafe ⟨index.toNat, hcount⟩ hmin
  cases hstep with
  | refused hnot => exact hnot htakes
  | inert hnot _ _ => exact hnot htakes
  | cut _ hcut _ =>
    apply hcut.reaches hroom
    simpa [setGdt, setInfo] using hentry

theorem TableInv.init (t : Thread) (tss : Word) : TableInv (gdtInit t tss) where
  safe i hi := by
    have hsafe : ∀ flags, flags.getLsbD 7 = true → flags.getLsbD 4 = true →
        flags.getLsbD 2 = false → flags.getLsbD 15 = true → flags.getLsbD 6 = true →
        SafeSegment (packDescr flags 0 0xfc000) := by
      intro flags h7 h4 h2 h15 h6 _ _
      refine ⟨(two_le_packDescr_dpl _ _ _).2 h6, fun lin hlin => ?_⟩
      have hup : (packDescr flags 0 0xfc000).expandsDown = false := by
        rw [Descriptor.expandsDown, packDescr_expandBit, h2, Bool.and_false]
      have hbelow : _ ≤ _ := @packDescr_below flags 0 0xfc000 (by decide) (by decide)
        (by rw [flagsUnit, h15]; decide) (by decide)
      exact ((Descriptor.covers_iff_of_up hup (by omega)).1 hlin).2.trans_le hbelow
    have hnull : SafeSegment ⟨0, 0⟩ := nofun
    have hcs : i ≠ hvCs := by rintro rfl; exact absurd hi nofun
    have hds : i ≠ hvDs := by rintro rfl; exact absurd hi nofun
    have htss : i ≠ tssSel := by rintro rfl; exact absurd hi nofun
    simp only [gdtInit, Function.update_apply]
    split_ifs
    · exact hsafe 0xc0d2 (by decide) (by decide) (by decide) (by decide) (by decide)
    · exact hsafe 0xc0da (by decide) (by decide) (by decide) (by decide) (by decide)
    · exact hnull
  half i hi := absurd hi (by simp [gdtInit])

/-- The condition on what a partition does to its table. -/
def OpOk : Thread → Op → Prop
  | _, .entry index word0 word1 => EntryOk index word0 word1
  | _, .fault _ => True

theorem TableInv.run {t t' : Thread} {ops : List Op} (h : TableInv t)
    (hrun : Run step OpOk t ops t') : TableInv t' := by
  refine hrun.invariant (fun s op s' hs hok hstep => ?_) h
  cases op with
  | entry index word0 word1 =>
    simp only [step, Except.ok.injEq] at hstep
    rw [← hstep]
    exact hs.entry hok
  | fault trap =>
    simp only [step, Except.ok.injEq] at hstep
    rw [← hstep]
    exact hs.fault trap

/-- **The segments of a partition and the hypervisor.**  In every table that calls under the
condition and faults lead to, a further call keeps the client part safe, whatever faults follow,
exactly when it meets the condition. -/
theorem gdt_safe_iff {t0 t : Thread} {tss : Word} {ops : List Op}
    (hrun : Run step OpOk (gdtInit t0 tss) ops t) (index word0 word1 : Word) :
    (∀ traps : List Trap, ClientSafe (traps.foldl fault (hGdtEntry t index word0 word1).2)) ↔
      EntryOk index word0 word1 := by
  have hinv := (TableInv.init t0 tss).run hrun
  constructor
  · intro hsafe
    by_contra hno
    exact hGdtEntry_reaches hno (hsafe [])
  · intro hok traps
    exact ((hinv.entry hok).faults traps).safe

/-- A thread before `gdt_init`. -/
def blankThread : Thread where
  gdt _ := ⟨0, 0⟩
  gdtInfo _ := ⟨false, 0, 0⟩
  eip := 0
  fs := 0
  gs := 0

instance (d : Descriptor) : Decidable (TakesSegment d) := inferInstanceAs (Decidable (_ ∧ _))

instance (index word0 word1 : Word) : Decidable (EntryOk index word0 word1) :=
  inferInstanceAs (Decidable (_ → _ → _ → _))

/-- A flat user data segment with base 4096 is partial, and stays safe. -/
theorem gdt_safe_iff_partial :
    recognizedPartial (unpackDescrWords 0x1000ffff 0x00cff200) = true ∧
      ∀ traps : List Trap, ClientSafe
        (traps.foldl fault (hGdtEntry (gdtInit blankThread 0) 6 0x1000ffff 0x00cff200).2) :=
  ⟨by decide, (gdt_safe_iff (.nil _) 6 0x1000ffff 0x00cff200).2 (by decide)⟩

/-- A data segment of one byte with base `0xfd000000` is written with a limit of 1 MB, and covers
addresses of the hypervisor. -/
theorem hGdtEntry_covers_hypervisor :
    ¬ ∀ (t : Thread) (tss index word0 word1 : Word) (traps : List Trap),
      ClientSafe (traps.foldl fault (hGdtEntry (gdtInit t tss) index word0 word1).2) := by
  intro h
  have hno : ¬ EntryOk 6 0x00000000 0xfd40f200 := by decide
  exact hGdtEntry_reaches hno (h blankThread 0 6 0x00000000 0xfd40f200 [])

end Rhype.Gdt
