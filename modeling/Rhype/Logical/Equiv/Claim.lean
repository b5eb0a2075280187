import Rhype.Lbm.Equiv.FindComplete
import Rhype.Logical.Equiv.Place

/-!
# Which slots `set_lci` claims

`set_lci` claims the slots of its hint if `test_bits` takes them for free, and otherwise a run that
`lbm_find_range` finds.  `test_bits` looks at the slots up to the *length* of the run, so a hint is
safe only if the slots it does not look at are free (`HintTested`).  `lbm_find_range` finds every
free run of its alignment, except for runs of 128, 256 and 384 slots.
-/

namespace Rhype

open Lbm

/-- The bits of the map are those of the slots in use. -/
def UsageAgrees (os : Os) : Prop :=
  ∀ i, i < maxLogicalMemChunks → (os.chunkUsage.bit i = true ↔ os.pLci i ≠ none)

/-- The slots of the run are free. -/
def FreeRun (os : Os) (s n : Nat) : Prop := ∀ j, s ≤ j → j < s + n → os.pLci j = none

/-- If the slots of the hint that `test_bits` looks at are free, all of them are. -/
def HintTested (os : Os) (hint : Uval) (n : Nat) : Prop :=
  (∀ j, hintSlot hint n ≤ j → j < n → os.pLci j = none) → FreeRun os (hintSlot hint n) n

/-! ### The bitmap and the slots -/

section

variable {os : Os} {n s : Nat}

theorem UsageAgrees.bit_eq_false (ha : UsageAgrees os) {i : Nat} (hi : i < maxLogicalMemChunks) :
    os.chunkUsage.bit i = false ↔ os.pLci i = none := by
  rw [← Bool.not_eq_true, ha i hi, not_not]

theorem UsageAgrees.not_freeRun (ha : UsageAgrees os) (ht : os.chunkUsage.Taken s n)
    (hle : s + n ≤ maxLogicalMemChunks) : ¬ FreeRun os s n := by
  obtain ⟨j, hsj, hjn, hbit⟩ := ht
  exact fun hfree => (ha j (by omega)).1 hbit (hfree j hsj hjn)

theorem words_maxLogicalMemChunks : words maxLogicalMemChunks * 64 = maxLogicalMemChunks := by
  decide

/-- The alignment of a run: not greater than a word, except for three lengths and the whole map. -/
theorem logAlignOf_cases (hpos : 0 < n) (hle : n ≤ maxLogicalMemChunks)
    (hn : n ≠ 128 ∧ n ≠ 256 ∧ n ≠ 384) :
    logAlignOf n < 31 ∧ (2 ^ logAlignOf n ∣ 64 ∨ 64 ∣ 2 ^ logAlignOf n ∧ n = 512) := by
  have hall : ∀ m : Fin 513, 0 < m.val → m.val ≠ 128 ∧ m.val ≠ 256 ∧ m.val ≠ 384 →
      logAlignOf m.val < 31 ∧
        (2 ^ logAlignOf m.val ∣ 64 ∨ 64 ∣ 2 ^ logAlignOf m.val ∧ m.val = 512) := by
    decide +kernel
  exact hall ⟨n, Nat.lt_succ_of_le hle⟩ hpos hn

theorem hintSlot_le (hint : Uval) (hle : n ≤ maxLogicalMemChunks) :
    hintSlot hint n + n ≤ maxLogicalMemChunks := by
  unfold hintSlot
  split_ifs <;> omega

end

/-! ### Claiming slots -/

section

variable {h h' : Hype} {o : OsId} {os : Os} {c : LciId} {lci : Lci} {hint ret : Uval} {n i : Nat}

theorem place_fits {found : Option Nat} (hx : place os.chunkUsage hint n = .ok found) :
    n ≤ maxLogicalMemChunks := by
  obtain ⟨b, htest, -⟩ := of_seq hx
  obtain ⟨_, hle, -⟩ := of_seq htest
  rw [hassert_ok, decide_eq_true_eq] at hle
  omega

/-- A claimed run is free exactly if the test of the hint was right. -/
theorem place_some_iff (ha : UsageAgrees os) (hx : place os.chunkUsage hint n = .ok (some i)) :
    FreeRun os i n ↔ HintTested os hint n := by
  have hle := hintSlot_le hint (place_fits hx)
  obtain ⟨r, htest', hr⟩ := testBits_spec (l := os.chunkUsage) (v := false) hle
  have hseen : r = true ↔ ∀ j, hintSlot hint n ≤ j → j < n → os.pLci j = none := by
    rw [hr]
    refine forall_congr' fun j => forall_congr' fun hj => forall_congr' fun hjn => ?_
    exact ha.bit_eq_false (by omega)
  rw [HintTested, ← hseen]
  rcases place_ok hx with ⟨htest, hi⟩ | ⟨htest, hfind⟩
  · cases htest.symm.trans htest'
    cases hi
    exact ⟨fun hfree _ => hfree, fun h => h rfl⟩
  cases htest.symm.trans htest'
  have hfits := place_le hx
  refine iff_of_true (fun j hij hj => ?_) nofun
  exact (ha.bit_eq_false (by omega)).1 (findRange_free hfind j hij hj)

theorem findRange_of_count (os : Os) (hpos : 0 < n) (hle : n ≤ maxLogicalMemChunks)
    (hn : n ≠ 128 ∧ n ≠ 256 ∧ n ≠ 384) :
    ∃ r, os.chunkUsage.findRange 0 n (logAlignOf n) 0 = .ok r ∧
      (r = none → ∀ s, 2 ^ logAlignOf n ∣ s → s + n ≤ maxLogicalMemChunks →
        os.chunkUsage.Taken s n) := by
  obtain ⟨hlog, halign⟩ := logAlignOf_cases hpos hle hn
  have hfind := findRange_complete (l := os.chunkUsage) hlog (by decide) hpos
    (by rwa [words_maxLogicalMemChunks]) (by rwa [words_maxLogicalMemChunks])
  rwa [words_maxLogicalMemChunks] at hfind

/-- When no place is found there is no free run, unless the length is one of three. -/
theorem place_none (ha : UsageAgrees os) (hn : n ≠ 128 ∧ n ≠ 256 ∧ n ≠ 384)
    (hx : place os.chunkUsage hint n = .ok none) :
    ¬ FreeRun os (hintSlot hint n) n ∧
      ∀ s, 2 ^ logAlignOf n ∣ s → s + n ≤ maxLogicalMemChunks → ¬ FreeRun os s n := by
  have hfit := place_fits hx
  have hle := hintSlot_le hint hfit
  obtain ⟨r, htest', hr⟩ := testBits_spec (l := os.chunkUsage) (v := false) hle
  rcases place_ok hx with ⟨-, hi⟩ | ⟨htest, hfind⟩
  · cases hi
  cases htest.symm.trans htest'
  -- a slot of the hint is in use, so the run is not empty
  obtain ⟨j, hj, hjn, hbit⟩ : os.chunkUsage.Taken (hintSlot hint n) n := by
    by_contra hfree
    refine Bool.false_ne_true (hr.2 fun j hj hjn => ?_)
    rw [← Bool.not_eq_true]
    exact fun hb => hfree ⟨j, hj, by omega, hb⟩
  refine ⟨ha.not_freeRun ⟨j, hj, hjn, hbit⟩ hle, fun s hdvd hs => ?_⟩
  obtain ⟨r, hfind', hnone⟩ := findRange_of_count os (by omega) hfit hn
  cases hfind.symm.trans hfind'
  exact ha.not_freeRun (hnone rfl s hdvd hs) hs

theorem place_total (os : Os) (hint : Uval) (hle : n ≤ maxLogicalMemChunks)
    (hn : n ≠ 128 ∧ n ≠ 256 ∧ n ≠ 384) : ∃ found, place os.chunkUsage hint n = .ok found := by
  obtain ⟨r, htest, hr⟩ := testBits_spec (l := os.chunkUsage) (v := false)
    (hintSlot_le hint hle)
  have hplace : place os.chunkUsage hint n = if r = true then .ok (some (hintSlot hint n))
      else os.chunkUsage.findRange 0 n (logAlignOf n) 0 := by
    show (os.chunkUsage.testBits (hintSlot hint n) n false >>= _) = _
    rw [htest]
    rfl
  rw [hplace]
  split_ifs with htrue
  · exact ⟨_, rfl⟩
  have hpos : 0 < n := by
    rcases Nat.eq_zero_or_pos n with h0 | hpos
    · exact absurd (hr.2 fun j _ hj => by omega) htrue
    · exact hpos
  obtain ⟨found, hfind, -⟩ := findRange_of_count os hpos hle hn
  exact ⟨found, hfind⟩

theorem setLci_total (hos : h.os o = some os) (hlci : h.lci c = some lci)
    (hle : chunkCount lci ≤ maxLogicalMemChunks)
    (hn : chunkCount lci ≠ 128 ∧ chunkCount lci ≠ 256 ∧ chunkCount lci ≠ 384) :
    ∃ ret h', setLci h o hint c = .ok (ret, h') := by
  obtain ⟨found, hplace⟩ := place_total os hint hle hn
  rw [setLci, hos, live, ok_bind, hlci, live, ok_bind]
  dsimp only
  rw [hplace, ok_bind]
  rcases found with _ | i
  · exact ⟨_, _, rfl⟩
  have hfits := place_le hplace
  obtain ⟨usage, huse, -⟩ := setBits_spec os.chunkUsage true hfits (by decide)
  obtain ⟨pLci, hfill⟩ := fill_total .chunk (some c) _ i os.pLci hfits
  dsimp only
  rw [huse, hfill]
  exact ⟨_, _, rfl⟩

theorem setLci_none (hos : h.os o = some os) (hlci : h.lci c = some lci)
    (hplace : place os.chunkUsage hint (chunkCount lci) = .ok none) :
    setLci h o hint c = .ok (invalidLogicalAddress, h) := by
  rw [setLci, hos, live, ok_bind, hlci, live, ok_bind]
  dsimp only
  rw [hplace]
  rfl

/-- In every partition `set_lci` ends for the chunk, and finds a place if the run of the hint or
some aligned run is free. -/
def FindsPlace (lci : Lci) : Prop :=
  ∀ h o os c hint, h.os o = some os → h.lci c = some lci → UsageAgrees os →
    ∃ ret h', setLci h o hint c = .ok (ret, h') ∧ (ret = invalidLogicalAddress → h' = h ∧
      ¬ FreeRun os (hintSlot hint (chunkCount lci)) (chunkCount lci) ∧
      ∀ s, 2 ^ logAlignOf (chunkCount lci) ∣ s → s + chunkCount lci ≤ maxLogicalMemChunks →
        ¬ FreeRun os s (chunkCount lci))

theorem findsPlace (hle : chunkCount lci ≤ maxLogicalMemChunks)
    (hn : chunkCount lci ≠ 128 ∧ chunkCount lci ≠ 256 ∧ chunkCount lci ≠ 384) :
    FindsPlace lci := by
  intro h o os c hint hos hlci ha
  obtain ⟨ret, h', hx⟩ : ∃ ret h', setLci h o hint c = .ok (ret, h') :=
    setLci_total hos hlci hle hn
  refine ⟨ret, h', hx, fun hret => ?_⟩
  rcases setLci_ok hx with ⟨-, rfl, os', lci', hos', hlci', hplace⟩ |
    ⟨os', lci', i, pLci, usage, st, hplaced⟩
  · cases hos.symm.trans hos'
    cases hlci.symm.trans hlci'
    exact ⟨rfl, place_none ha hn hplace⟩
  · have hfits := st.fits
    have haddr := toNat_slotBase (i := i) (by omega)
    rw [← hplaced, hret, show invalidLogicalAddress.toNat = 2 ^ 64 - 1 from rfl] at haddr
    unfold maxLogicalMemChunks at hfits
    omega

/-- A partition with the given chunk table, and a chunk without a place. -/
def unplaced (os : Os) (lci : Lci) : Hype :=
  (Hype.boot fun o => if o = 0 then some os else none).setLciObj 0 lci

/-- A partition with the given slots in use. -/
def usedOs (slots : List Nat) : Os :=
  { smallOs with
    pLci := fun i => if i ∈ slots then some 1 else none
    chunkUsage := ⟨fun w => slots.foldl
      (fun v i => if i / 64 = w then v ||| 1 <<< (i % 64) else v) 0⟩ }

theorem getLsbD_usedOs (i : Nat) (slots : List Nat) (v : Uval) :
    (slots.foldl (fun (v : Uval) j => if j / 64 = i / 64 then v ||| 1 <<< (j % 64) else v)
      v).getLsbD (i % 64) = (v.getLsbD (i % 64) || decide (i ∈ slots)) := by
  induction slots generalizing v with
  | nil => simp
  | cons j slots ih =>
    have hone : ((1 <<< (j % 64) : Nat) : Uval).getLsbD (i % 64) = decide (j % 64 = i % 64) := by
      rw [Nat.one_shiftLeft]
      exact (BitVec.getLsbD_ofNat ..).trans (by simp [Nat.testBit_two_pow, Nat.mod_lt])
    have heq : i = j ↔ j / 64 = i / 64 ∧ j % 64 = i % 64 := by omega
    rw [List.foldl_cons, ih]
    split_ifs with hdiv
    · simp only [BitVec.getLsbD_or, hone, List.mem_cons, heq, hdiv, true_and, Bool.decide_or,
        Bool.or_assoc]
    · simp only [List.mem_cons, heq, hdiv, false_and, false_or]

theorem usageAgrees_usedOs (slots : List Nat) : UsageAgrees (usedOs slots) := by
  intro i _
  have hbit : (usedOs slots).chunkUsage.bit i = decide (i ∈ slots) := by
    refine (getLsbD_usedOs i slots 0).trans ?_
    simp
  rw [hbit, decide_eq_true_iff]
  by_cases hi : i ∈ slots <;> simp [usedOs, hi]

theorem not_findsPlace (slots : List Nat) (s : Nat) (hn : chunkCount lci = n)
    (hplace : place (usedOs slots).chunkUsage 0 n = .ok none)
    (hdvd : 2 ^ logAlignOf n ∣ s) (hs : s + n ≤ maxLogicalMemChunks)
    (hfree : ∀ i ∈ slots, i < s ∨ s + n ≤ i) : ¬ FindsPlace lci := by
  subst hn
  intro hall
  obtain ⟨ret, h', hx, hinv⟩ := hall (unplaced (usedOs slots) lci) 0 _ 0 0 rfl rfl
    (usageAgrees_usedOs slots)
  cases (setLci_none rfl rfl hplace).symm.trans hx
  refine (hinv rfl).2.2 s hdvd hs fun j hj hjn => if_neg fun hmem => ?_
  have := hfree j hmem
  omega

/-- The run at 0 fails in its second word, and the next one is passed by. -/
theorem not_findsPlace_of_count
    (hn : chunkCount lci = 128 ∨ chunkCount lci = 256 ∨ chunkCount lci = 384) :
    ¬ FindsPlace lci := by
  rcases hn with hn | hn | hn
  · exact not_findsPlace [64, 256, 384] 128 hn (by decide +kernel) (by decide +kernel) (by decide)
      (by decide)
  · exact not_findsPlace [64] 256 hn (by decide +kernel) (by decide +kernel) (by decide) (by decide)
  · exact not_findsPlace [64] 128 hn (by decide +kernel) (by decide +kernel) (by decide) (by decide)

theorem smallOs_usageAgrees : UsageAgrees smallOs := by
  intro i _
  simp [smallOs, osCreate, bit]

/-- A chunk of the given size. -/
def chunkOf (size : Uval) : Lci := { oneChunkLci 0 with lciSize := size }

variable {h1 : Hype}

theorem detach_length {i m n : Nat} {pLci pLci' : Nat → Option LciId} (hnew : ∀ j, pLci j ≠ some c)
    (hslots : ∀ j, pLci' j = if i ≤ j ∧ j < i + n then some c else pLci j)
    (hfits : i + n ≤ maxLogicalMemChunks) (hrun : ∀ j, i ≤ j → j < i + m → pLci' j = some c)
    (hstop : i + m < maxLogicalMemChunks → pLci' (i + m) ≠ some c) : m = n := by
  rcases lt_trichotomy m n with hlt | heq | hgt
  · refine absurd ?_ (hstop (by omega))
    rw [hslots, if_pos (by omega)]
  · exact heq
  · have hc := hrun (i + n) (by omega) (by omega)
    rw [hslots, if_neg (by omega)] at hc
    exact absurd hc (hnew _)

theorem run_restored {run : Nat → Prop} [DecidablePred run] {pLci pLci2 : Nat → Option LciId}
    {usage usage2 : Lbm maxLogicalMemChunks}
    (hfree : ∀ j, run j → os.chunkUsage.bit j = false ∧ os.pLci j = none)
    (hslots : ∀ j, pLci j = if run j then some c else os.pLci j)
    (hbits : ∀ j, usage.bit j = if run j then true else os.chunkUsage.bit j)
    (hslots2 : ∀ j, pLci2 j = if run j then none else pLci j)
    (hbits2 : ∀ j, usage2.bit j = if run j then false else usage.bit j) :
    pLci2 = os.pLci ∧ usage2 = os.chunkUsage := by
  constructor
  · funext j
    rw [hslots2, hslots]
    split_ifs with hj
    · exact (hfree j hj).2.symm
    · rfl
  · refine eq_of_bit_eq fun j => ?_
    rw [hbits2, hbits]
    split_ifs with hj
    · exact (hfree j hj).1.symm
    · rfl

/-- **A chunk that is placed without a hint and taken out again** leaves the chunk table and the
bitmap as they were, and in between only the slots of its run are different. -/
theorem setLci_detachLci (hos : h.os o = some os) (hlci : h.lci c = some lci) (ha : UsageAgrees os)
    (hnew : ∀ j, os.pLci j ≠ some c) (hpos : 0 < lci.lciSize.toNat)
    (hspan : lci.lciSize.toNat + lci.lciLaddr.toNat % 2 ^ 26 ≤ maxLogicalMemChunks * 2 ^ 26)
    (hx : setLci h o 0 c = .ok (ret, h1)) (hret : ret ≠ invalidLogicalAddress) :
    ∃ i os1 h2, ret = BitVec.ofNat 64 i <<< logChunksize ∧ h1.os o = some os1 ∧
      (∀ j, os1.pLci j = if i ≤ j ∧ j < i + chunkCount lci then some c else os.pLci j) ∧
      (∀ j, os1.chunkUsage.bit j =
        if i ≤ j ∧ j < i + chunkCount lci then true else os.chunkUsage.bit j) ∧
      detachLci h1 c = .ok (0, h2) ∧ h2.os o = some os := by
  rcases setLci_ok hx with ⟨hinv, -⟩ | ⟨os', lci', i, pLci, usage, st, hbase⟩
  · exact absurd hinv hret
  cases hos.symm.trans st.os_eq
  cases hlci.symm.trans st.lci_eq
  have hfit : CountFits lci := by
    unfold CountFits
    unfold maxLogicalMemChunks at hspan
    omega
  have hcount : 0 < chunkCount lci := by
    rw [chunkCount_eq hfit]
    omega
  have hfits := st.fits
  have hos1 : h1.os o = some { os with pLci := pLci, chunkUsage := usage } := by
    rw [st.state]
    exact Hype.setOs_os_self ..
  have hlci1 : h1.lci c = some { lci with
      lciOs := some o
      lciLaddr := (BitVec.ofNat 64 i <<< logChunksize) + chunkOffsetAddr lci.lciLaddr } := by
    rw [st.state]
    exact Hype.setLciObj_lci_self ..
  have hslot : chunkNumberAddr ((BitVec.ofNat 64 i <<< logChunksize) +
      chunkOffsetAddr lci.lciLaddr) = i := by
    rw [chunkNumberAddr_eq, toNat_placedAddr _ (by omega)]
    omega
  obtain ⟨h2, m, pLci2, usage2, hdet, dt⟩ := detachLci_of_slot hlci1 rfl hos1 (by
    dsimp only
    rw [st.slots, if_pos (by omega)]
    exact ⟨by omega, rfl⟩)
  obtain ⟨-, -, -, -, hrun, hstop, hslots2, hbits2, hstate⟩ := dt
  rw [hslot] at hrun hstop hslots2 hbits2
  obtain rfl := detach_length hnew st.slots st.fits hrun hstop
  have hfree : ∀ j, i ≤ j ∧ j < i + chunkCount lci →
      os.chunkUsage.bit j = false ∧ os.pLci j = none := by
    intro j hj
    have hbit := place_zero_free st.place_eq j hj.1 hj.2
    exact ⟨hbit, (ha.bit_eq_false (by omega)).1 hbit⟩
  obtain ⟨hpLci, husage⟩ := run_restored hfree st.slots st.bits hslots2 hbits2
  refine ⟨i, _, h2, hbase, hos1, st.slots, st.bits, hdet, ?_⟩
  rw [hstate, hpLci, husage]
  exact Hype.setOs_os_self ..

end

/-- `setLci_detachLci` for a chunk of two slots. -/
theorem setLci_detachLci_smallOs :
    ∃ h1 h2, setLci (unplaced smallOs (chunkOf 0x8000000)) 0 0 0 = .ok (0, h1) ∧
      detachLci h1 0 = .ok (0, h2) ∧ h2.os 0 = some smallOs := by
  obtain ⟨-, -, h2, -, -, -, -, hdet, hos⟩ := setLci_detachLci
    (h := unplaced smallOs (chunkOf 0x8000000)) (o := 0) (c := 0) rfl rfl smallOs_usageAgrees
    (fun _ => nofun) (by decide) (by decide) rfl
    (show (0 : Uval) ≠ invalidLogicalAddress by decide)
  exact ⟨_, h2, rfl, hdet, hos⟩

end Rhype
