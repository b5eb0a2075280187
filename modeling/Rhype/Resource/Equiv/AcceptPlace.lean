import Rhype.Resource.Equiv.Accept
import Rhype.Resource.Rescind

/-!
# Where an accepted chunk ends up

`accept_fn` returns a logical address.  `InMap` says that the address is in the map of the owner, as
`laddr_to_lci` reads it: its slot refers to the chunk, or to the chunk of the page-share manager,
whose entry for the address refers to it.

A chunk that gets slots of its own is placed by `set_lci`, whose failure is ignored (`PlaceOk`).  A
chunk that is shared gets pages of the page-share manager (`ShareOk`).
-/

namespace Rhype

open BitVec Hype Option

/-- `laddr_to_lci` of the address is the chunk of the resource, or the chunk of the page-share
manager that holds it. -/
def InMap (h : Hype) (o : OsId) (r : ResId) (a : Uval) : Prop :=
  ∃ os, h.os o = some os ∧ chunkNumberAddr a < maxLogicalMemChunks ∧
    (os.pLci (chunkNumberAddr a) = some r ∨
      ∃ p psm psmLci, os.poPsm = some p ∧ os.pLci (chunkNumberAddr a) = some p ∧
        h.psm p = some psm ∧ h.lci p = some psmLci ∧ psm.psmEntries (psmIndex psmLci a) = some r)

/-- The logical address that `set_lci` gives a chunk at slot `i`. -/
def slotAddr (i : Nat) (lci : Lci) : Uval :=
  (BitVec.ofNat 64 i <<< logChunksize) + chunkOffsetAddr lci.lciLaddr

/-- The logical address that `psm_accept` gives a chunk at page `idx` of the manager. -/
def pageAddr (idx : Nat) (psmLci : Lci) : Uval :=
  (BitVec.ofNat 64 idx <<< logPgsize) + psmLci.lciLaddr

/-- `set_lci` finds a place for the slots of the chunk.  Without any slots, or without a place, the
address that is returned has to be in the map already. -/
def PlaceOk (h : Hype) (o : OsId) (hint : Uval) (r : ResId) : Prop :=
  ∃ os lci, h.os o = some os ∧ h.lci r = some lci ∧
    ((∃ i, place os.chunkUsage hint (chunkCount lci) = .ok (some i) ∧
        (0 < chunkCount lci ∨ InMap h o r (slotAddr i lci))) ∨
      place os.chunkUsage hint (chunkCount lci) = .ok none ∧ InMap h o r lci.lciLaddr)

/-- The pages that are found in an existing page-share manager are in a slot of the manager. -/
def ShareOk (h : Hype) (o : OsId) (r : ResId) : Prop :=
  ∀ os p psm psmLci lci idx, h.os o = some os → os.poPsm = some p → h.psm p = some psm →
    h.lci p = some psmLci → h.lci r = some lci →
    psm.psmUsage.findRange 0 (pgnums lci.lciSize).toNat (logAlignOf (pgnums lci.lciSize).toNat) 0
      = .ok (some idx) →
    let slot := chunkNumberAddr (pageAddr idx psmLci)
    slot < maxLogicalMemChunks ∧ (os.pLci slot = some r ∨ os.pLci slot = some p)

/-- **The condition on an accept.** -/
def AcceptOk (h : Hype) (o : OsId) (r : ResId) : MemType → Prop
  | .mmioAddr => ∀ lci, h.lci r = some lci → PlaceOk h o lci.lciRaddr r
  | .memAddr => ∀ lci, h.lci r = some lci →
      if ownSlots lci then PlaceOk h o 0 r else ShareOk h o r

/-! ### The map after an accept -/

section

variable {h h' : Hype} {o : OsId} {r : ResId} {a : Uval} {os : Os} {i : Nat}

theorem inMap_congr {os' : Os} (hos : h.os o = some os) (hos' : h'.os o = some os')
    (hslots : os'.pLci = os.pLci) (hp : os'.poPsm = os.poPsm) (hpsm : h'.psm = h.psm)
    (hlci : ∀ c, c ≠ r → h'.lci c = h.lci c) : InMap h' o r a ↔ InMap h o r a := by
  unfold InMap
  simp only [hos, hos', some.injEq, exists_eq_left', hslots, hp, hpsm]
  refine and_congr_right fun _ => ?_
  refine or_congr_right' fun hr => exists_congr fun p => exists_congr fun _ => exists_congr fun _ =>
    and_congr_right fun _ => and_congr_right fun hslot => ?_
  rw [hlci p fun heq => hr (heq ▸ hslot)]

theorem inMap_setLciObj (lci : Lci) : InMap (h.setLciObj r lci) o r a ↔ InMap h o r a := by
  cases hos : h.os o with
  | none => simp [InMap, hos]
  | some os =>
    have hos' : (h.setLciObj r lci).os o = some os := hos
    exact inMap_congr hos hos' rfl rfl rfl fun c hc => setLciObj_lci_of_ne _ _ _ hc

theorem chunkNumberAddr_slotAddr (hi : i ≤ maxLogicalMemChunks) (lci : Lci) :
    chunkNumberAddr (slotAddr i lci) = i := by
  have hbase := toNat_slotBase hi
  rw [chunkNumberAddr_eq, slotAddr, toNat_add, hbase, toNat_chunkOffsetAddr,
    Nat.mod_eq_of_lt (by omega)]
  omega

/-! ### Slots of its own -/

variable {hint : Uval} {lci' : Lci} {usage : Lbm maxLogicalMemChunks} {pLci : Nat → Option LciId}

theorem setLciStep_inMap_iff {lci : Lci} (st : SetLciStep h o hint r os lci i pLci usage h') :
    InMap h' o r (slotAddr i lci) ↔ 0 < chunkCount lci ∨ InMap h o r (slotAddr i lci) := by
  have hos' : h'.os o = some { os with pLci := pLci, chunkUsage := usage } := by
    rw [st.state]
    exact Function.update_self ..
  have hnum := chunkNumberAddr_slotAddr (Nat.le_of_add_right_le st.fits) lci
  rcases Nat.eq_zero_or_pos (chunkCount lci) with hzero | hpos
  · have hslots : pLci = os.pLci := by
      funext j
      rw [st.slots, if_neg (by omega)]
    rw [hzero, or_iff_right (lt_irrefl 0)]
    refine inMap_congr st.os_eq hos' hslots rfl (by rw [st.state]; rfl) fun c hc => ?_
    rw [st.state]
    exact Function.update_of_ne hc ..
  have hlt : i < maxLogicalMemChunks := by
    have := st.fits
    omega
  refine iff_of_true ⟨_, hos', ?_, .inl ?_⟩ (.inl hpos)
  · rwa [hnum]
  · rw [hnum]
    exact (st.slots i).trans (if_pos (by omega))

/-- **A chunk with slots of its own** is in the map exactly if it finds a place. -/
theorem placedBy_inMap_iff (hx : PlacedBy h o hint r h') (hlci' : h'.lci r = some lci') :
    InMap h' o r lci'.lciLaddr ↔ PlaceOk h o hint r := by
  obtain ⟨ret, h1, hset, hen⟩ := hx
  obtain ⟨lci1, hlci1, rfl⟩ := lciEnable_ok hen
  have haddr : lci'.lciLaddr = lci1.lciLaddr := by
    rw [setLciObj_lci_self, some.injEq] at hlci'
    rw [← hlci']
  rw [haddr, inMap_setLciObj]
  rcases setLci_ok hset with ⟨-, rfl, os, lci, hos, hlci, hplace⟩ | ⟨os, lci, i, pLci, usage, st, -⟩
  · cases hlci1.symm.trans hlci
    constructor
    · exact fun hin => ⟨os, lci1, hos, hlci, .inr ⟨hplace, hin⟩⟩
    · rintro ⟨os', lci', hos', hlci', ⟨i, hsome, -⟩ | ⟨-, hin⟩⟩
      · cases hos.symm.trans hos'
        cases hlci.symm.trans hlci'
        cases hplace.symm.trans hsome
      · cases hlci.symm.trans hlci'
        exact hin
  have hladdr : lci1.lciLaddr = slotAddr i lci := by
    rw [st.state, setLciObj_lci_self, some.injEq] at hlci1
    rw [← hlci1]
    rfl
  rw [hladdr, setLciStep_inMap_iff st]
  constructor
  · exact fun hor => ⟨os, lci, st.os_eq, st.lci_eq, .inl ⟨i, st.place_eq, hor⟩⟩
  · rintro ⟨os', lci', hos', hlci', ⟨j, hsome, hor⟩ | ⟨hnone, -⟩⟩
    · cases st.os_eq.symm.trans hos'
      cases st.lci_eq.symm.trans hlci'
      cases st.place_eq.symm.trans hsome
      exact hor
    · cases st.os_eq.symm.trans hos'
      cases st.lci_eq.symm.trans hlci'
      cases st.place_eq.symm.trans hnone

/-! ### Pages of the page-share manager -/

variable {h1 : Hype} {p : LciId} {psm psm' : Psm} {psmLci lci : Lci} {idx : Nat}

theorem toNat_pageBase (hidx : idx < numPsmEntries) :
    (BitVec.ofNat 64 idx <<< logPgsize : Uval).toNat = idx * 2 ^ 12 := by
  unfold numPsmEntries at hidx
  rw [logPgsize, toNat_shiftLeft, toNat_ofNat, Nat.shiftLeft_eq,
    Nat.mod_eq_of_lt (show idx < 2 ^ 64 by omega), Nat.mod_eq_of_lt (by omega)]

theorem psmIndex_pageAddr (psmLci : Lci) (hidx : idx < numPsmEntries) :
    psmIndex psmLci (pageAddr idx psmLci) = idx := by
  rw [psmIndex, pageAddr, BitVec.add_sub_cancel, BitVec.toNat_ushiftRight,
    Nat.shiftRight_eq_div_pow, toNat_pageBase hidx, logPgsize, Nat.mul_div_cancel _ (by decide)]

theorem psmAcceptStep_inMap_iff (st : PsmAcceptStep h p r psm psmLci lci idx psm' h')
    (hne : p ≠ r) (hos : h.os o = some os) (hp : os.poPsm = some p) :
    InMap h' o r (pageAddr idx psmLci) ↔
      chunkNumberAddr (pageAddr idx psmLci) < maxLogicalMemChunks ∧
        (os.pLci (chunkNumberAddr (pageAddr idx psmLci)) = some r ∨
          os.pLci (chunkNumberAddr (pageAddr idx psmLci)) = some p) := by
  have hfits := st.fits
  have hpos := st.pos
  have hos' : h'.os o = some os := by
    rwa [st.state]
  have hpsm' : h'.psm p = some psm' := by
    rw [st.state]
    exact setPsm_psm_self ..
  have hlci' : h'.lci p = some psmLci := by
    rw [st.state, setLciObj_lci_of_ne _ _ _ hne]
    exact st.psmLci_eq
  constructor
  · rintro ⟨os', hos'', hlt, hslot⟩
    cases hos'.symm.trans hos''
    refine ⟨hlt, hslot.imp_right ?_⟩
    rintro ⟨q, _, _, hq, hslot, -⟩
    cases hp.symm.trans hq
    exact hslot
  · rintro ⟨hlt, hslot⟩
    refine ⟨os, hos', hlt, hslot.imp_right fun hslot => ?_⟩
    refine ⟨p, psm', psmLci, hp, hslot, hpsm', hlci', ?_⟩
    rw [psmIndex_pageAddr psmLci (by omega), st.entries, if_pos (by omega)]

theorem shareOk_iff (hos : h.os o = some os) (hp : os.poPsm = some p)
    (hpsm : h.psm p = some psm) (hpl : h.lci p = some psmLci) (hlci : h.lci r = some lci)
    (hfind : psm.psmUsage.findRange 0 (pgnums lci.lciSize).toNat
      (logAlignOf (pgnums lci.lciSize).toNat) 0 = .ok (some idx)) :
    ShareOk h o r ↔ chunkNumberAddr (pageAddr idx psmLci) < maxLogicalMemChunks ∧
      (os.pLci (chunkNumberAddr (pageAddr idx psmLci)) = some r ∨
        os.pLci (chunkNumberAddr (pageAddr idx psmLci)) = some p) := by
  constructor
  · intro hok
    exact hok os p psm psmLci lci idx hos hp hpsm hpl hlci hfind
  · intro hslot os' p' psm' psmLci' lci' idx' hos' hp' hpsm' hpl' hlci' hfind'
    cases hos.symm.trans hos'
    cases hp.symm.trans hp'
    cases hpsm.symm.trans hpsm'
    cases hpl.symm.trans hpl'
    cases hlci.symm.trans hlci'
    cases hfind.symm.trans hfind'
    exact hslot

theorem freshPsm_slot {os1 : Os} {fresh : FreshPsm}
    (st : SetLciStep (installPsm h o os fresh) o 0 h.next os1 (freshPsmLci o fresh) i pLci usage h1)
    (hidx : idx < numPsmEntries) (hladdr : psmLci.lciLaddr = slotAddr i (freshPsmLci o fresh)) :
    chunkNumberAddr (pageAddr idx psmLci) < maxLogicalMemChunks ∧
      pLci (chunkNumberAddr (pageAddr idx psmLci)) = some h.next := by
  have hfits := st.fits
  have hrun := @inRun_place_iff _ i (chunkNumberAddr (pageAddr idx psmLci)) (some o)
    (countFits_freshPsmLci o fresh) hfits
  -- the address is in the range of the manager, and the range is its run of slots
  have hslot : (slotAddr i (freshPsmLci o fresh)).toNat =
      i * 2 ^ 26 + (freshPsmLci o fresh).lciLaddr.toNat % 2 ^ 26 :=
    toNat_placedAddr _ (by omega)
  have haddr : (pageAddr idx psmLci).toNat =
      idx * 2 ^ 12 + (slotAddr i (freshPsmLci o fresh)).toNat := by
    rw [pageAddr, toNat_add, toNat_pageBase hidx, hladdr]
    exact Nat.mod_eq_of_lt (by
      unfold maxLogicalMemChunks at hfits
      unfold numPsmEntries at hidx
      omega)
  have hin := hrun.1 (by
    have hbase : ((BitVec.ofNat 64 i <<< logChunksize) +
        chunkOffsetAddr (freshPsmLci o fresh).lciLaddr) = slotAddr i (freshPsmLci o fresh) := rfl
    unfold InRun
    dsimp only
    rw [hbase, toNat_freshPsmLci_size, chunkNumberAddr_eq]
    unfold numPsmEntries at hidx
    omega)
  exact ⟨by omega, (st.slots _).trans (if_pos hin)⟩

/-- **A chunk in the page-share manager** is in the map exactly if its pages are. -/
theorem sharedBy_inMap_iff {fresh : FreshPsm} {lci' : Lci} (hnew : h.lci h.next = none)
    (hpsm : h.psm r = none) (hlci : h.lci r = some lci) (hx : SharedBy h o fresh r hSuccess h')
    (hlci' : h'.lci r = some lci') : InMap h' o r lci'.lciLaddr ↔ ShareOk h o r := by
  obtain ⟨p, h1, h2, hinit, haccept, ⟨hne, -⟩ | ⟨-, hen⟩⟩ := hx
  · exact absurd rfl hne
  rcases psmAccept_found haccept with ⟨hne, -⟩ | ⟨-, psm, psmLci, lci1, idx, psm', st, hfind⟩
  · exact absurd rfl hne
  obtain ⟨lci2, hlci2, rfl⟩ := lciEnable_ok hen
  obtain ⟨os1, hos1, hp⟩ := initOsPsm_poPsm hinit
  have haddr : lci'.lciLaddr = pageAddr idx psmLci := by
    rw [setLciObj_lci_self, some.injEq] at hlci'
    rw [st.state, setLciObj_lci_self, some.injEq] at hlci2
    rw [← hlci', ← hlci2]
    rfl
  rw [haddr, inMap_setLciObj]
  have hfits := st.fits
  have hpos := st.pos
  obtain ⟨os, hos, ⟨hold, rfl⟩ | ⟨hnone, rfl, os2, lci3, i, pLci, usage, st1⟩⟩ := initOsPsm_ok hinit
  · -- the manager was there: the state is the one before the accept
    cases hos.symm.trans hos1
    have hpr : p ≠ r := by
      rintro rfl
      cases hpsm.symm.trans st.psm_eq
    rw [psmAcceptStep_inMap_iff st hpr hos hp]
    exact (shareOk_iff hos hp st.psm_eq st.psmLci_eq st.lci_eq hfind).symm
  have hpr : h.next ≠ r := by
    rintro rfl
    cases hnew.symm.trans hlci
  rw [psmAcceptStep_inMap_iff st hpr hos1 hp]
  have hfresh : (installPsm h o os fresh).lci h.next = some (freshPsmLci o fresh) :=
    Function.update_self ..
  cases hfresh.symm.trans st1.lci_eq
  have hslots : os1.pLci = pLci := by
    rw [st1.state, setLciObj_os, setOs_os_self, some.injEq] at hos1
    rw [← hos1]
  have hladdr : psmLci.lciLaddr = slotAddr i (freshPsmLci o fresh) := by
    have hpl := st.psmLci_eq
    rw [st1.state, setLciObj_lci_self, some.injEq] at hpl
    rw [← hpl]
    rfl
  obtain ⟨hlt, hslot⟩ := freshPsm_slot st1 (show idx < numPsmEntries by omega) hladdr
  refine iff_of_true ⟨hlt, .inr ?_⟩ ?_
  · rw [hslots, hslot]
  · intro os' p' psm1 psmLci' lci' idx' ho' hp'
    cases hos.symm.trans ho'
    cases hnone.symm.trans hp'

/-! ### The accept -/

variable {fresh : FreshPsm} {rc : Sval}

theorem inMap_setRes (sr : SysResource) : InMap (h.setRes r sr) o r a ↔ InMap h o r a := .rfl

/-- **An accept that succeeds and the map of the owner.**  The address that is returned is in the
map, at the chunk of the resource or at the page-share chunk that holds it, exactly if the chunk
finds a place. -/
theorem accept_inMap_iff {vio : Sval × Uval} {sr : SysResource} {t : MemType}
    (hnew : h.lci h.next = none) (hpsm : h.psm r = none) (hres : h.res r = some sr)
    (htype : sr.srType = .mem t) (howner : sr.srOwner = some o)
    (hx : acceptLockedResource h r fresh vio = .ok (hSuccess, a, h')) :
    InMap h' o r a ↔ AcceptOk h o r t := by
  obtain ⟨sr', h1, hsr', haccept, ⟨hne, -⟩ | ⟨-, sr1, -, rfl⟩⟩ := acceptLockedResource_ok hx
  · exact absurd rfl hne
  cases hres.symm.trans hsr'
  rw [inMap_setRes]
  rw [htype] at haccept
  cases t with
  | memAddr =>
    obtain ⟨sr2, o2, lci, hsr2, ho2, hlci, hladdr, hcases⟩ := memAccept_ok haccept
    obtain ⟨lci', hlci', rfl⟩ := hladdr rfl
    cases hres.symm.trans hsr2
    cases howner.symm.trans ho2
    have hok : AcceptOk h o r .memAddr ↔
        if ownSlots lci then PlaceOk h o 0 r else ShareOk h o r := by
      simp only [AcceptOk, hlci, some.injEq, forall_eq']
    rcases hcases with ⟨hown, -, hplaced⟩ | ⟨hown, hshared⟩
    · rw [hok, if_pos hown, placedBy_inMap_iff hplaced hlci']
    · rw [hok, if_neg (by simp [hown]), sharedBy_inMap_iff hnew hpsm hlci hshared hlci']
  | mmioAddr =>
    obtain ⟨sr2, o2, lci, lci', hsr2, ho2, hlci, -, hplaced, hlci', rfl⟩ := mmioAccept_ok haccept
    cases hres.symm.trans hsr2
    cases howner.symm.trans ho2
    rw [placedBy_inMap_iff hplaced hlci']
    simp only [AcceptOk, hlci, some.injEq, forall_eq']

/-! ### Two states -/

/-- Partition 0 owns the chunk `r`, a slot's worth of memory that is not mapped yet. -/
def waiting (os : Os) (r : ResId) : Hype :=
  { ((boot fun o => if o = 0 then some os else none).setLciObj r
      (physMemLciInit 0x10000000 0x4000000)).setRes r
        { srCookie := 2, srType := .mem .memAddr, srMapped := false, srRescinded := false
          srOwner := some 0, srParent := none } with next := r + 1 }

/-- A partition all of whose slots refer to chunk 0. -/
def fullOs : Os :=
  { smallOs with pLci := fun _ => some 0, chunkUsage := ⟨fun _ => allOnes 64⟩ }

/-- In an empty map the chunk gets slot 0. -/
theorem accept_inMap_iff_empty :
    ∃ h', acceptLockedResource (waiting smallOs 0) 0 clearedPsm (0, 0) = .ok (hSuccess, 0, h') ∧
      InMap h' 0 0 0 := by
  have hok : AcceptOk (waiting smallOs 0) 0 0 .memAddr := by
    rintro lci ⟨⟩
    exact ⟨smallOs, _, rfl, rfl, .inl ⟨0, by decide, .inl (by decide)⟩⟩
  obtain ⟨h', hx⟩ : ∃ h', acceptLockedResource (waiting smallOs 0) 0 clearedPsm (0, 0) =
      .ok (hSuccess, 0, h') := ⟨_, rfl⟩
  exact ⟨h', hx, (accept_inMap_iff rfl rfl rfl rfl rfl hx).2 hok⟩

/-- In a full map the accept succeeds as well, and returns the address of another chunk. -/
theorem accept_outside_map :
    ¬ ∀ (h h' : Hype) (o : OsId) (r : ResId) (sr : SysResource) (t : MemType) (fresh : FreshPsm)
        (vio : Sval × Uval) (a : Uval), h.lci h.next = none → h.psm r = none →
      h.res r = some sr → sr.srType = .mem t → sr.srOwner = some o →
      acceptLockedResource h r fresh vio = .ok (hSuccess, a, h') → InMap h' o r a := by
  intro hall
  obtain ⟨h', hx, hos'⟩ : ∃ h', acceptLockedResource (waiting fullOs 1) 1 clearedPsm (0, 0) =
      .ok (hSuccess, 0, h') ∧ h'.os 0 = some fullOs := ⟨_, rfl, rfl⟩
  obtain ⟨os, hos, -, hslot⟩ :=
    hall (waiting fullOs 1) h' 0 1 _ .memAddr clearedPsm (0, 0) 0 rfl rfl rfl rfl rfl hx
  cases hos'.symm.trans hos
  rcases hslot with hslot | ⟨p, psm, psmLci, hp, -⟩
  · cases hslot
  · cases hp

end

end Rhype
