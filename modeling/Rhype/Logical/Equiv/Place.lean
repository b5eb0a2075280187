import Rhype.Lbm.Equiv.FindRange
import Rhype.Lbm.Equiv.SetBits
import Rhype.Logical.Equiv.Translate

/-!
# Placing a chunk, and taking it out again

What `set_lci`, `detach_lci` and `psm_accept` do to the tables they fill and to the bitmaps next to
them.  `set_lci` fills a run of slots of the chunk table and sets the bits of the run;
`setLci_ok` says which run, and `inRun_place_iff` that it is the run of the address and the size of
the chunk, when the sum of its size and its offset does not wrap.
-/

namespace Rhype

open BitVec Function Lbm

/-! ### Filling a table -/

theorem fill_ok {t : Table} {bound : Nat} {x : Option LciId} :
    ∀ (n i : Nat) {f g : Nat → Option LciId}, fill t bound x n i f = .ok g →
      (0 < n → i + n ≤ bound) ∧ ∀ j, g j = if i ≤ j ∧ j < i + n then x else f j
  | 0, i, f, g, hx => by
    cases hx
    exact ⟨by omega, fun j => by rw [if_neg (by omega)]⟩
  | n + 1, i, f, g, hx => by
    unfold fill at hx
    split_ifs at hx with hi
    obtain ⟨hle, hg⟩ := fill_ok n (i + 1) hx
    refine ⟨by omega, fun j => ?_⟩
    rw [hg]
    by_cases hj : j = i
    · subst hj
      rw [if_neg (by omega), if_pos (by omega), update_self]
    · rw [update_of_ne hj]
      exact if_congr (by omega) rfl rfl

theorem fill_total (t : Table) {bound : Nat} (x : Option LciId) :
    ∀ (n i : Nat) (f : Nat → Option LciId), i + n ≤ bound → ∃ g, fill t bound x n i f = .ok g
  | 0, _, f, _ => ⟨f, rfl⟩
  | n + 1, i, f, hle => by
    rw [fill, if_pos (by omega)]
    exact fill_total t x n (i + 1) _ (by omega)

/-! ### The page-share manager -/

section

variable {h h' : Hype} {p c : LciId} {rc : Sval}

/-- What a successful `psm_accept` does: the chunk `c` gets the pages from `idx` on. -/
structure PsmAcceptStep (h : Hype) (p c : LciId) (psm : Psm) (psmLci lci : Lci) (idx : Nat)
    (psm' : Psm) (h' : Hype) : Prop where
  psm_eq : h.psm p = some psm
  psmLci_eq : h.lci p = some psmLci
  lci_eq : h.lci c = some lci
  pos : 0 < (pgnums lci.lciSize).toNat
  fits : idx + (pgnums lci.lciSize).toNat ≤ numPsmEntries
  usage : ∀ i, psm'.psmUsage.bit i =
    if idx ≤ i ∧ i < idx + (pgnums lci.lciSize).toNat then true else psm.psmUsage.bit i
  entries : ∀ i, psm'.psmEntries i =
    if idx ≤ i ∧ i < idx + (pgnums lci.lciSize).toNat then some c else psm.psmEntries i
  state : h' = (h.setPsm p psm').setLciObj c
    { lci with lciLaddr := (BitVec.ofNat 64 idx <<< logPgsize) + psmLci.lciLaddr
               lciOs := psmLci.lciOs }

theorem psmAccept_found (hx : psmAccept h p c = .ok (rc, h')) :
    (rc ≠ hSuccess ∧ h' = h) ∨
      rc = hSuccess ∧ ∃ psm psmLci lci idx psm',
        PsmAcceptStep h p c psm psmLci lci idx psm' h' ∧
        psm.psmUsage.findRange 0 (pgnums lci.lciSize).toNat
          (logAlignOf (pgnums lci.lciSize).toNat) 0 = .ok (some idx) := by
  obtain ⟨psm, hpsm, hx⟩ := of_live hx
  obtain ⟨psmLci, hpsmLci, hx⟩ := of_live hx
  obtain ⟨lci, hlci, hx⟩ := of_live hx
  obtain ⟨_ | idx, hfind, hx⟩ := of_seq hx
  · cases hx
    exact .inl ⟨by decide, rfl⟩
  obtain ⟨usage, huse, hx⟩ := of_seq hx
  obtain ⟨entries, hfill, hx⟩ := of_seq hx
  cases hx
  -- a range of no bits is never found
  have hpos : 0 < (pgnums lci.lciSize).toNat := by
    rcases Nat.eq_zero_or_pos (pgnums lci.lciSize).toNat with h0 | hpos
    · rw [h0, findRange, if_pos rfl] at hfind
      cases hfind
    · exact hpos
  have hfits := (findRange_sound hfind).1
  rw [show words numPsmEntries * 64 = numPsmEntries by decide] at hfits
  obtain ⟨usage', huse', hbits⟩ := setBits_spec psm.psmUsage true hfits
    (by decide)
  cases huse.symm.trans huse'
  exact .inr ⟨rfl, psm, psmLci, lci, idx, _, ⟨hpsm, hpsmLci,
    hlci, hpos, hfits, hbits, (fill_ok _ _ hfill).2, rfl⟩, hfind⟩

theorem psmAccept_ok (hx : psmAccept h p c = .ok (rc, h')) :
    (rc ≠ hSuccess ∧ h' = h) ∨
      rc = hSuccess ∧ ∃ psm psmLci lci idx psm',
        PsmAcceptStep h p c psm psmLci lci idx psm' h' := by
  rcases psmAccept_found hx with hfail | ⟨hok, psm, psmLci, lci, idx, psm', st, -⟩
  · exact .inl hfail
  · exact .inr ⟨hok, psm, psmLci, lci, idx, psm', st⟩

end

/-! ### The run of a chunk -/

/-- Slot `i` is one of the slots of the address and the size of the chunk. -/
def InRun (lci : Lci) (i : Nat) : Prop :=
  lci.lciLaddr.toNat / 2 ^ 26 ≤ i ∧ i * 2 ^ 26 < lci.lciLaddr.toNat + lci.lciSize.toNat

/-- Exactly the slots of its address and its size hold the chunk. -/
def HasRun (os : Os) (c : LciId) (lci : Lci) : Prop := ∀ i, os.pLci i = some c ↔ InRun lci i

/-- The size of the chunk and its offset, rounded up, do not reach around the address space. -/
def CountFits (lci : Lci) : Prop :=
  lci.lciSize.toNat + lci.lciLaddr.toNat % 2 ^ 26 + (2 ^ 26 - 1) < 2 ^ 64

instance (lci : Lci) (i : Nat) : Decidable (InRun lci i) :=
  inferInstanceAs (Decidable (_ ∧ _))

instance (lci : Lci) : Decidable (CountFits lci) :=
  inferInstanceAs (Decidable (_ < _))

theorem toNat_chunkOffsetAddr (a : Uval) : (chunkOffsetAddr a).toNat = a.toNat % 2 ^ 26 :=
  Word.toNat_and_two_pow_sub_one a _ rfl

variable {lci : Lci}

theorem chunkCount_eq (hfit : CountFits lci) :
    chunkCount lci
      = (lci.lciSize.toNat + lci.lciLaddr.toNat % 2 ^ 26 + (2 ^ 26 - 1)) / 2 ^ 26 := by
  unfold CountFits at hfit
  have hmask : ~~~(chunkSize - 1) = allOnes 64 <<< 26 := by decide
  have hone : (chunkSize - 1).toNat = 2 ^ 26 - 1 := rfl
  rw [chunkCount, alignUp, hmask, toNat_ushiftRight, Nat.shiftRight_eq_div_pow,
    Word.toNat_and_allOnes_shiftLeft, BitVec.toNat_add, BitVec.toNat_add, toNat_chunkOffsetAddr,
    hone, logChunksize]
  omega

variable {i : Nat}

theorem toNat_slotBase (hi : i ≤ maxLogicalMemChunks) :
    (BitVec.ofNat 64 i <<< logChunksize : Uval).toNat = i * 2 ^ 26 := by
  unfold maxLogicalMemChunks at hi
  rw [logChunksize, toNat_shiftLeft, toNat_ofNat, Nat.shiftLeft_eq,
    Nat.mod_eq_of_lt (show i < 2 ^ 64 by omega), Nat.mod_eq_of_lt (by omega)]

theorem toNat_placedAddr (a : Uval) (hi : i ≤ maxLogicalMemChunks) :
    ((BitVec.ofNat 64 i <<< logChunksize) + chunkOffsetAddr a).toNat
      = i * 2 ^ 26 + a.toNat % 2 ^ 26 := by
  rw [BitVec.toNat_add, toNat_slotBase hi, toNat_chunkOffsetAddr]
  unfold maxLogicalMemChunks at hi
  exact Nat.mod_eq_of_lt (by omega)

theorem inRun_place_iff {j : Nat} {o : Option OsId} (hfit : CountFits lci)
    (hi : i + chunkCount lci ≤ maxLogicalMemChunks) :
    InRun { lci with
        lciOs := o
        lciLaddr := (BitVec.ofNat 64 i <<< logChunksize) + chunkOffsetAddr lci.lciLaddr }
      j ↔ i ≤ j ∧ j < i + chunkCount lci := by
  have hcount := chunkCount_eq hfit
  unfold InRun
  dsimp only
  rw [toNat_placedAddr _ (by omega)]
  omega

theorem toNat_freshPsmLci_size (o : OsId) (fresh : FreshPsm) :
    (freshPsmLci o fresh).lciSize.toNat = 2 ^ 30 :=
  show (BitVec.ofNat 64 numPsmEntries <<< logPgsize).toNat = 2 ^ 30 by decide

/-- The chunk of a new page-share manager does not reach around the address space, whatever its
memory held. -/
theorem countFits_freshPsmLci (o : OsId) (fresh : FreshPsm) : CountFits (freshPsmLci o fresh) := by
  rw [CountFits, toNat_freshPsmLci_size]
  omega

/-! ### The place of a chunk -/

/-- The first of the slots that `set_lci` tries for `n` slots. -/
def hintSlot (hint : Uval) (n : Nat) : Nat :=
  if maxLogicalMemChunks < chunkNumberAddr hint + n then 0 else chunkNumberAddr hint

section

variable {usage : Lbm maxLogicalMemChunks} {hint : Uval} {n : Nat} {found : Option Nat}

theorem place_ok (hx : place usage hint n = .ok found) :
    (usage.testBits (hintSlot hint n) n false = .ok true ∧ found = some (hintSlot hint n)) ∨
      usage.testBits (hintSlot hint n) n false = .ok false ∧
        usage.findRange 0 n (logAlignOf n) 0 = .ok found := by
  obtain ⟨b, htest, hx⟩ := of_seq hx
  cases b with
  | true =>
    rw [if_pos rfl, Except.ok.injEq] at hx
    exact .inl ⟨htest, hx.symm⟩
  | false =>
    rw [if_neg nofun] at hx
    exact .inr ⟨htest, hx⟩

theorem findRange_free {logAlign : Nat} (hx : usage.findRange 0 n logAlign 0 = .ok (some i))
    (j : Nat) (hij : i ≤ j) (hj : j < i + n) : usage.bit j = false :=
  (findRange_sound hx).2 j hij hj

theorem place_zero_free (hx : place usage 0 n = .ok (some i)) (j : Nat) (hij : i ≤ j)
    (hj : j < i + n) : usage.bit j = false := by
  have hzero : hintSlot 0 n = 0 := by
    have hchunk : chunkNumberAddr 0 = 0 := by decide
    rw [hintSlot, hchunk, ite_self]
  rcases place_ok hx with ⟨htest, hi⟩ | ⟨-, hfind⟩
  · rw [hzero] at htest hi
    cases hi
    exact (testBits_true htest).2 j hij (by omega)
  · exact findRange_free hfind j hij hj

end

/-! ### `set_lci` -/

section

variable {h h' : Hype} {o : OsId} {c : LciId} {hint ret : Uval}

theorem place_le {usage : Lbm maxLogicalMemChunks} {n : Nat}
    (hx : place usage hint n = .ok (some i)) : i + n ≤ maxLogicalMemChunks := by
  unfold place at hx
  dsimp only at hx
  generalize (if maxLogicalMemChunks < chunkNumberAddr hint + n then 0
    else chunkNumberAddr hint) = k
    at hx
  obtain ⟨b, htest, hx⟩ := of_seq hx
  cases b with
  | true =>
    cases hx
    exact (testBits_true htest).1
  | false =>
    rw [if_neg nofun] at hx
    have hle := (findRange_sound hx).1
    rwa [show words maxLogicalMemChunks * 64 = maxLogicalMemChunks by decide] at hle

/-- What `set_lci` does when it finds a place `i`. -/
structure SetLciStep (h : Hype) (o : OsId) (hint : Uval) (c : LciId) (os : Os) (lci : Lci) (i : Nat)
    (pLci : Nat → Option LciId) (usage : Lbm maxLogicalMemChunks) (h' : Hype) : Prop where
  os_eq : h.os o = some os
  lci_eq : h.lci c = some lci
  place_eq : place os.chunkUsage hint (chunkCount lci) = .ok (some i)
  fits : i + chunkCount lci ≤ maxLogicalMemChunks
  slots : ∀ j, pLci j = if i ≤ j ∧ j < i + chunkCount lci then some c else os.pLci j
  bits : ∀ j, usage.bit j = if i ≤ j ∧ j < i + chunkCount lci then true else os.chunkUsage.bit j
  state : h' = (h.setOs o { os with pLci := pLci, chunkUsage := usage }).setLciObj c
    { lci with lciOs := some o
               lciLaddr := (BitVec.ofNat 64 i <<< logChunksize) + chunkOffsetAddr lci.lciLaddr }

theorem setLci_ok (hx : setLci h o hint c = .ok (ret, h')) :
    (ret = invalidLogicalAddress ∧ h' = h ∧ ∃ os lci, h.os o = some os ∧ h.lci c = some lci ∧
        place os.chunkUsage hint (chunkCount lci) = .ok none) ∨
      ∃ os lci i pLci usage, SetLciStep h o hint c os lci i pLci usage h' ∧
        ret = BitVec.ofNat 64 i <<< logChunksize := by
  obtain ⟨os, hos, hx⟩ := of_live hx
  obtain ⟨lci, hlci, hx⟩ := of_live hx
  obtain ⟨_ | i, hplace, hx⟩ := of_seq hx
  · cases hx
    exact .inl ⟨rfl, rfl, os, lci, hos, hlci, hplace⟩
  obtain ⟨usage, huse, hx⟩ := of_seq hx
  obtain ⟨pLci, hfill, hx⟩ := of_seq hx
  rw [Except.ok.injEq, Prod.mk.injEq] at hx
  obtain ⟨hret, rfl⟩ := hx
  have hle := place_le hplace
  obtain ⟨usage', huse', hbits⟩ := setBits_spec os.chunkUsage true hle
    (by decide)
  cases huse.symm.trans huse'
  exact .inr ⟨os, lci, i, pLci, usage, ⟨hos, hlci, hplace, hle,
    (fill_ok _ _ hfill).2, hbits, rfl⟩, hret.symm⟩

/-- The page-share manager of the partition was there, or it is made and placed. -/
theorem initOsPsm_ok {fresh : FreshPsm} {p : LciId} (hx : initOsPsm h o fresh = .ok (p, h')) :
    ∃ os, h.os o = some os ∧ ((os.poPsm = some p ∧ h' = h) ∨
      os.poPsm = none ∧ p = h.next ∧ ∃ os1 lci i pLci usage,
        SetLciStep (installPsm h o os fresh) o 0 p os1 lci i pLci usage h') := by
  obtain ⟨os, hos, hx⟩ := of_live hx
  refine ⟨os, hos, ?_⟩
  cases hp : os.poPsm with
  | some q =>
    rw [hp] at hx
    cases hx
    exact .inl ⟨rfl, rfl⟩
  | none =>
    rw [hp] at hx
    obtain ⟨⟨addr, h1⟩, hset, hx⟩ := of_seq hx
    obtain ⟨_, hvalid, hx⟩ := of_seq hx
    rw [hassert_ok, decide_eq_true_eq] at hvalid
    cases hx
    rcases setLci_ok hset with ⟨hinv, -⟩ | ⟨os1, lci, i, pLci, usage, st, -⟩
    · exact absurd hinv hvalid
    · exact .inr ⟨rfl, rfl, os1, lci, i, pLci, usage, st⟩

/-! ### `detach_lci` -/

theorem detachLoop_ok : ∀ (n idx : Nat) {os os' : Os}, idx + n ≤ maxLogicalMemChunks →
    detachLoop c n idx os = .ok os' → ∃ m pLci usage, m ≤ n ∧
      (∀ j, idx ≤ j → j < idx + m → os.pLci j = some c) ∧
      (m < n → os.pLci (idx + m) ≠ some c) ∧
      (∀ j, pLci j = if idx ≤ j ∧ j < idx + m then none else os.pLci j) ∧
      (∀ j, usage.bit j = if idx ≤ j ∧ j < idx + m then false else os.chunkUsage.bit j) ∧
      os' = { os with pLci := pLci, chunkUsage := usage }
  | 0, idx, os, os', _, hx => by
    cases hx
    exact ⟨0, os.pLci, os.chunkUsage, le_rfl, by omega, by omega,
      fun j => by rw [if_neg (by omega)], fun j => by rw [if_neg (by omega)], rfl⟩
  | n + 1, idx, os, os', hle, hx => by
    unfold detachLoop at hx
    split_ifs at hx with hc
    -- the slot is cleared, and the rest of the run follows from the rounds that are left
    · obtain ⟨usage, huse, hx⟩ := of_seq hx
      obtain ⟨usage', huse', hone⟩ := setBits_spec os.chunkUsage false
        (show idx + 1 ≤ maxLogicalMemChunks by omega) (by decide)
      cases huse.symm.trans huse'
      obtain ⟨m, pLci, usage2, hm, hrun, hstop, hslots, hbits, rfl⟩ :=
        detachLoop_ok n (idx + 1) (by omega) hx
      refine ⟨m + 1, pLci, usage2, by omega, ?_, ?_, ?_, ?_, rfl⟩
      · intro j hj hjm
        by_cases hji : j = idx
        · rw [hji, hc]
        · exact (update_of_ne hji _ _).symm.trans (hrun j (by omega) (by omega))
      · intro hlt
        rw [show idx + (m + 1) = idx + 1 + m by omega]
        exact fun heq => hstop (by omega) ((update_of_ne (by omega) _ _).trans heq)
      · intro j
        rw [hslots]
        by_cases hji : j = idx
        · subst hji
          rw [if_neg (by omega), if_pos (by omega)]
          exact update_self ..
        · exact if_congr (by omega) rfl (update_of_ne hji _ _)
      · intro j
        rw [hbits]
        dsimp only
        rw [hone]
        by_cases hji : j = idx
        · subst hji
          rw [if_neg (by omega), if_pos (by omega), if_pos (by omega)]
        · rw [if_neg (show ¬ (idx ≤ j ∧ j < idx + 1) by omega)]
          exact if_congr (by omega) rfl rfl
    · cases hx
      exact ⟨0, os.pLci, os.chunkUsage, by omega, by omega, fun _ => hc,
        fun j => by rw [if_neg (by omega)], fun j => by rw [if_neg (by omega)], rfl⟩

theorem detachLoop_total : ∀ (n idx : Nat) (os : Os), idx + n ≤ maxLogicalMemChunks →
    ∃ os', detachLoop c n idx os = .ok os'
  | 0, _, os, _ => ⟨os, rfl⟩
  | n + 1, idx, os, hle => by
    unfold detachLoop
    split_ifs
    · obtain ⟨usage, huse, -⟩ := setBits_spec os.chunkUsage false
        (show idx + 1 ≤ maxLogicalMemChunks by omega) (by decide)
      rw [huse, ok_bind]
      exact detachLoop_total n (idx + 1) _ (by omega)
    · exact ⟨os, rfl⟩

/-- What `detach_lci` does when the chunk is in the slot of its address: it clears the `m` slots of
the chunk from there on. -/
structure DetachStep (h : Hype) (c : LciId) (lci : Lci) (o : OsId) (os : Os) (m : Nat)
    (pLci : Nat → Option LciId) (usage : Lbm maxLogicalMemChunks) (h' : Hype) : Prop where
  lci_eq : h.lci c = some lci
  lciOs_eq : lci.lciOs = some o
  os_eq : h.os o = some os
  fits : chunkNumberAddr lci.lciLaddr + m ≤ maxLogicalMemChunks
  run : ∀ j, chunkNumberAddr lci.lciLaddr ≤ j → j < chunkNumberAddr lci.lciLaddr + m →
    os.pLci j = some c
  stop : chunkNumberAddr lci.lciLaddr + m < maxLogicalMemChunks →
    os.pLci (chunkNumberAddr lci.lciLaddr + m) ≠ some c
  slots : ∀ j, pLci j = if chunkNumberAddr lci.lciLaddr ≤ j ∧
    j < chunkNumberAddr lci.lciLaddr + m then none else os.pLci j
  bits : ∀ j, usage.bit j = if chunkNumberAddr lci.lciLaddr ≤ j ∧
    j < chunkNumberAddr lci.lciLaddr + m then false else os.chunkUsage.bit j
  state : h' = (h.setOs o { os with pLci := pLci, chunkUsage := usage }).setLciObj c
    { lci with lciDisabled := true }

theorem detachLci_ok {rc : Uval} (hx : detachLci h c = .ok (rc, h')) :
    (h' = h ∧ ∃ lci o os, h.lci c = some lci ∧ lci.lciOs = some o ∧ h.os o = some os ∧
        ¬ (chunkNumberAddr lci.lciLaddr < maxLogicalMemChunks ∧
          os.pLci (chunkNumberAddr lci.lciLaddr) = some c)) ∨
      ∃ lci o os m pLci usage, DetachStep h c lci o os m pLci usage h' := by
  obtain ⟨lci, hlci, hx⟩ := of_live hx
  obtain ⟨o, ho, hx⟩ := of_seq hx
  obtain ⟨os, hos, hx⟩ := of_live hx
  have ho := nonNull_ok.1 ho
  dsimp only at hx
  split_ifs at hx with hslot
  · obtain ⟨os', hloop, hx⟩ := of_seq hx
    obtain ⟨h1, hdis, hx⟩ := of_seq hx
    cases hx
    obtain ⟨m, pLci, usage, hm, hrun, hstop, hslots, hbits, rfl⟩ :=
      detachLoop_ok _ _ (by omega) hloop
    obtain ⟨lci', hlci', hdis⟩ := of_live hdis
    cases hdis
    cases hlci.symm.trans hlci'
    exact .inr ⟨lci, o, os, m, pLci, usage, hlci, ho, hos, by omega, hrun,
      fun hlt => hstop (by omega), hslots, hbits, rfl⟩
  · cases hx
    exact .inl ⟨rfl, lci, o, os, hlci, ho, hos, hslot⟩

theorem detachLci_of_slot {o : OsId} {os : Os} (hlci : h.lci c = some lci)
    (ho : lci.lciOs = some o) (hos : h.os o = some os)
    (hslot : chunkNumberAddr lci.lciLaddr < maxLogicalMemChunks ∧
      os.pLci (chunkNumberAddr lci.lciLaddr) = some c) :
    ∃ h' m pLci usage, detachLci h c = .ok (0, h') ∧ DetachStep h c lci o os m pLci usage h' := by
  obtain ⟨os', hloop⟩ := detachLoop_total (c := c)
    (maxLogicalMemChunks - chunkNumberAddr lci.lciLaddr) (chunkNumberAddr lci.lciLaddr) os
    (by omega)
  have hdet : detachLci h c
      = .ok (0, (h.setOs o os').setLciObj c { lci with lciDisabled := true }) := by
    simp [detachLci, hlci, live, ho, nonNull, hos, hslot, hloop, lciDisable]
  rcases detachLci_ok hdet with ⟨-, lci', o', os1, hlci', ho', hos1, hnot⟩ |
    ⟨lci', o', os1, m, pLci, usage, st⟩
  · cases hlci.symm.trans hlci'
    cases ho.symm.trans ho'
    cases hos.symm.trans hos1
    exact absurd hslot hnot
  cases hlci.symm.trans st.lci_eq
  cases ho.symm.trans st.lciOs_eq
  cases hos.symm.trans st.os_eq
  exact ⟨_, m, pLci, usage, hdet, st⟩

end

end Rhype
