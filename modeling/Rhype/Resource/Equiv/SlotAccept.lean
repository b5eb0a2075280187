import Rhype.Resource.Equiv.SlotInv

/-!
# The chunk tables after an accept

An accept gives a chunk a run of slots, or a part of the page-share manager of its owner, which may
have to be made and placed first.  The invariant of the chunk tables is kept when the chunk has no
slots yet, its size does not reach around the address space, and `set_lci` finds slots that are free
(`Acceptable`).
-/

namespace Rhype

open BitVec Function

/-! ### Room -/

/-- If `test_bits` takes the slots of the hint for free, they are, and otherwise `lbm_find_range`
finds slots. -/
structure RoomFor (usage : Lbm maxLogicalMemChunks) (hint : Uval) (n : Nat) : Prop where
  hinted : usage.testBits (hintSlot hint n) n false = .ok true →
    ∀ j, hintSlot hint n ≤ j → j < hintSlot hint n + n → usage.bit j = false
  found : usage.testBits (hintSlot hint n) n false = .ok false →
    usage.findRange 0 n (logAlignOf n) 0 ≠ .ok none

section

variable {usage : Lbm maxLogicalMemChunks} {hint : Uval} {n : Nat} {found : Option Nat}

theorem RoomFor.place (hroom : RoomFor usage hint n) (hx : Rhype.place usage hint n = .ok found) :
    ∃ i, found = some i ∧ ∀ j, i ≤ j → j < i + n → usage.bit j = false := by
  rcases place_ok hx with ⟨htest, rfl⟩ | ⟨htest, hfind⟩
  · exact ⟨_, rfl, hroom.hinted htest⟩
  · cases found with
    | none => exact absurd hfind (hroom.found htest)
    | some i => exact ⟨i, rfl, findRange_free hfind⟩

end

/-! ### A run of slots -/

section

variable {h h1 : Hype} {o : OsId} {r : ResId} {sr : SysResource} {os : Os} {hint : Uval} {lci : Lci}
  {i j : Nat} {pLci : Nat → Option LciId} {usage : Lbm maxLogicalMemChunks}

theorem SlotInv.unmapped_clear (hi : SlotInv h) (hsr : h.res r = some sr)
    (hmapped : sr.srMapped = false) (o' : OsId) (os' : Os) (j : Nat) (hos' : h.os o' = some os') :
    os'.pLci j ≠ some r := by
  intro hslot
  obtain ⟨-, ⟨s, hs, hm, -⟩, -⟩ := hi.slot_held hsr hos' hslot
  cases hsr.symm.trans hs
  cases hmapped.symm.trans hm

theorem SlotInv.free_slot (hi : SlotInv h) (hos : h.os o = some os)
    (hj : j < maxLogicalMemChunks) (hbit : os.chunkUsage.bit j = false) : os.pLci j = none := by
  by_contra hne
  cases hbit.symm.trans ((hi.usage o os j hos hj).2 hne)

theorem SlotInv.map {h' : Hype} {os' : Os} {lci' : Lci} (hi : SlotInv h)
    (hr : Reslot h h' o os os' r) (hsr : h.res r = some sr) (hown : sr.srOwner = some o)
    (hq : .physMem r ∉ h.rcu) (hsr' : h'.res r = some { sr with srMapped := true })
    (hpsm : os'.poPsm = os.poPsm) (hdl : h'.dl = h.dl) (hnext : h'.next = h.next)
    (hrcu : h'.rcu = h.rcu) (hlci' : h'.lci r = some lci') (hlciOs : lci'.lciOs = some o)
    (hlt : ∀ j, os'.pLci j = some r → j < maxLogicalMemChunks) (hplace : Placed h' os' r lci') :
    SlotInv h' := by
  have hnot : os'.poPsm ≠ some r := hpsm ▸ hi.psm_ne hsr o os hr.os_eq
  have hq' : .physMem r ∉ h'.rcu := hrcu ▸ hq
  refine ⟨hr.table hi.toTableInv (fun j hj => ?_) (fun o' hheld => ?_) (absurd · hnot),
    hr.obj hi.toObjInv hdl hnext.ge (hnext ▸ hi.lt_next hsr) (fun s hs => ?_)
      (fun _ => by rw [hrcu]) (hi.not_psm_queued hsr) (absurd · hq')⟩
  · exact ⟨hlt j hj, .inr ⟨_, hsr', rfl, hown, hq'⟩⟩
  · obtain ⟨s, hs, -, hs', -⟩ := hheld
    cases hsr'.symm.trans hs
    exact ⟨Option.some.inj (hs'.symm.trans hown), lci', hlci', hlciOs, hplace⟩
  · cases hsr'.symm.trans hs
    exact ⟨(hi.mem r sr hsr).1, Option.isSome_of_eq_some hlci'⟩

section

variable {n : Nat} {c d : LciId} {slots slots' : Nat → Option LciId}
  (hslots : ∀ j, slots' j = if i ≤ j ∧ j < i + n then some c else slots j)

include hslots

theorem filled_usage {bits bits' : Nat → Bool}
    (hbits : ∀ j, bits' j = if i ≤ j ∧ j < i + n then true else bits j)
    (hold : bits j = true ↔ slots j ≠ none) : bits' j = true ↔ slots' j ≠ none := by
  rw [hslots, hbits]
  split_ifs with hrange
  · simp
  · exact hold

theorem filled_slots (hempty : ∀ j, i ≤ j → j < i + n → slots j = none) (j : Nat) (hd : d ≠ c) :
    slots' j = some d ↔ slots j = some d := by
  rw [hslots]
  split_ifs with hrange
  · rw [hempty j hrange.1 hrange.2]
    simp [hd.symm]
  · rfl

theorem filled_run (hclear : ∀ j, slots j ≠ some c) (j : Nat) :
    slots' j = some c ↔ i ≤ j ∧ j < i + n := by
  rw [hslots]
  split_ifs with hrange
  · simp [hrange]
  · simp [hrange, hclear j]

end

theorem SlotInv.place (hi : SlotInv h) (hsr : h.res r = some sr) (hmapped : sr.srMapped = false)
    (hown : sr.srOwner = some o) (hq : .physMem r ∉ h.rcu)
    (st : SetLciStep h o hint r os lci i pLci usage h1) (hfit : CountFits lci)
    (hfree : ∀ j, i ≤ j → j < i + chunkCount lci → os.chunkUsage.bit j = false) :
    SlotInv (h1.setRes r { sr with srMapped := true }) := by
  -- the chunk had no slot, and the slots that it gets were empty
  have hclear := hi.unmapped_clear hsr hmapped
  have hempty : ∀ j, i ≤ j → j < i + chunkCount lci → os.pLci j = none := fun j hij hj =>
    hi.free_slot st.os_eq (hj.trans_le st.fits) (hfree j hij hj)
  have hmem := filled_run st.slots fun j => hclear o os j st.os_eq
  have hr : Reslot h (h1.setRes r { sr with srMapped := true }) o os
      { os with pLci := pLci, chunkUsage := usage } r := by
    rw [st.state]
    exact
      { os_eq := st.os_eq
        os_eq' := rfl
        lci := fun d hd => update_of_ne hd ..
        res := fun d hd => update_of_ne hd ..
        physMem := fun _ _ => .rfl
        slots := fun j d hd => filled_slots st.slots hempty j hd
        psm := fun _ _ => .rfl
        usage := fun j hj => filled_usage st.slots st.bits (hi.usage o os j st.os_eq hj)
        notPsm := hi.psm_ne hsr
        elsewhere := fun o' os0 j _ hos0 => hclear o' os0 j hos0 }
  rw [st.state] at hr ⊢
  refine hi.map hr hsr hown hq (update_self ..) rfl rfl rfl rfl (update_self ..)
    rfl (fun j hj => ((hmem j).1 hj).2.trans_le st.fits) (.inl fun j => ?_)
  exact (hmem j).trans (inRun_place_iff hfit st.fits).symm

end

/-! ### The page-share manager -/

section

variable {h h1 h' : Hype} {o : OsId} {p : LciId} {r : ResId} {sr : SysResource} {os : Os}
  {fresh : FreshPsm} {idx : Nat}

theorem SlotInv.next_unused (hi : SlotInv h) (o : OsId) (os : Os) (hos : h.os o = some os) :
    os.poPsm ≠ some h.next ∧ ∀ j, os.pLci j ≠ some h.next := by
  have hfresh := hi.fresh h.next le_rfl
  have hpsm : os.poPsm ≠ some h.next := by
    intro hp
    obtain ⟨-, lci, hlci, -⟩ := hi.psm o os _ hos hp
    cases hlci.symm.trans hfresh.1
  refine ⟨hpsm, fun j hslot => ?_⟩
  obtain ⟨-, hp | ⟨sr, hsr, -⟩⟩ := hi.slot o os j _ hos hslot
  · exact hpsm hp
  · cases hsr.symm.trans hfresh.2.1

theorem SlotInv.install (hi : SlotInv h) (hos : h.os o = some os) (hnone : os.poPsm = none)
    {os1 : Os} {lci : Lci} {i : Nat} {pLci : Nat → Option LciId} {usage : Lbm maxLogicalMemChunks}
    (st : SetLciStep (installPsm h o os fresh) o 0 h.next os1 lci i pLci usage h') :
    SlotInv h' := by
  have hos1 : os1 = { os with poPsm := some h.next } :=
    Option.some.inj (st.os_eq.symm.trans (update_self ..))
  have hlci : lci = freshPsmLci o fresh :=
    Option.some.inj (st.lci_eq.symm.trans (update_self ..))
  subst hos1 hlci
  have hfresh := hi.fresh h.next le_rfl
  have hunused := hi.next_unused
  have hempty : ∀ j, i ≤ j → j < i + chunkCount (freshPsmLci o fresh) → os.pLci j = none :=
    fun j hij hj => hi.free_slot hos (hj.trans_le st.fits) (place_zero_free st.place_eq j hij hj)
  have hmem := filled_run st.slots (hunused o os hos).2
  have hr : Reslot h h' o os { os with pLci := pLci, chunkUsage := usage, poPsm := some h.next }
      h.next := by
    rw [st.state]
    exact
      { os_eq := hos
        os_eq' := update_idem ..
        lci := fun d hd => (update_of_ne hd ..).trans (update_of_ne hd ..)
        res := fun _ _ => rfl
        physMem := fun _ _ => .rfl
        slots := fun j d hd => filled_slots st.slots hempty j hd
        psm := fun q hq => by simp [hnone, hq.symm]
        usage := fun j hj => filled_usage st.slots st.bits (hi.usage o os j hos hj)
        notPsm := fun o' os0 hos0 => (hunused o' os0 hos0).1
        elsewhere := fun o' os0 j _ hos0 => (hunused o' os0 hos0).2 j }
  have hres : h'.res h.next = none := by
    rw [st.state]
    exact hfresh.2.1
  rw [st.state] at hr hres ⊢
  refine ⟨hr.table hi.toTableInv (fun j hj => ?_) (fun o' hheld => ?_) (fun _ => ⟨hres, ?_⟩),
    hr.obj hi.toObjInv rfl (Nat.le_succ _) (Nat.lt_succ_self _) (fun s hs => ?_)
      (fun _ => .rfl) (fun hin => ?_) (fun hin => ?_)⟩
  · exact ⟨((hmem j).1 hj).2.trans_le st.fits, .inl rfl⟩
  · obtain ⟨s, hs, -⟩ := hheld
    cases hres.symm.trans hs
  · refine ⟨_, update_self .., rfl, toNat_freshPsmLci_size o fresh, fun j => ?_⟩
    exact (hmem j).trans (inRun_place_iff (countFits_freshPsmLci o fresh) st.fits).symm
  · cases hres.symm.trans hs
  · exact absurd (hi.queuedPsm _ hin).1 (lt_irrefl _)
  · exact absurd (hi.queued _ hin).1 (lt_irrefl _)

theorem SlotInv.initOsPsm (hi : SlotInv h) (hx : Rhype.initOsPsm h o fresh = .ok (p, h1)) :
    SlotInv h1 ∧ h1.res = h.res ∧ h1.rcu = h.rcu ∧ ∀ c, c ≠ h.next → h1.lci c = h.lci c := by
  obtain ⟨os, hos, ⟨-, rfl⟩ | ⟨hnone, rfl, os1, lci, i, pLci, usage, st⟩⟩ := initOsPsm_ok hx
  · exact ⟨hi, rfl, rfl, fun _ _ => rfl⟩
  · refine ⟨hi.install hos hnone st, ?_⟩
    rw [st.state]
    exact ⟨rfl, rfl, fun c hc => (update_of_ne hc ..).trans (update_of_ne hc ..)⟩

theorem size_le_of_not_ownSlots {lci : Lci} (hsmall : ownSlots lci = false) :
    lci.lciSize.toNat ≤ 2 ^ 25 := by
  simp only [ownSlots, Bool.or_eq_false_iff, decide_eq_false_iff_not, le_def,
    lt_def, BitVec.toNat_shiftLeft, toNat_add, toNat_chunkOffsetAddr,
    Nat.shiftLeft_eq] at hsmall
  have hchunk : chunkSize.toNat = 2 ^ 26 := by decide
  omega

theorem PsmAcceptStep.inManager {c : LciId} {psm psm' : Psm} {psmLci lci : Lci}
    (st : PsmAcceptStep h p c psm psmLci lci idx psm' h') (hsmall : ownSlots lci = false)
    (hsize : psmLci.lciSize.toNat = 2 ^ 30) (hladdr : psmLci.lciLaddr.toNat < 2 ^ 35)
    (hp : os.poPsm = some p) (hclear : ∀ j, os.pLci j ≠ some c) :
    InManager os c { lci with lciLaddr := (BitVec.ofNat 64 idx <<< logPgsize) + psmLci.lciLaddr
                              lciOs := psmLci.lciOs } p psmLci := by
  have hle := size_le_of_not_ownSlots hsmall
  have hfits := st.fits
  rw [toNat_pgnums (by omega), numPsmEntries] at hfits
  have hbase : (BitVec.ofNat 64 idx <<< logPgsize : Uval).toNat = idx * 4096 := by
    rw [logPgsize, BitVec.toNat_shiftLeft, BitVec.toNat_ofNat, Nat.shiftLeft_eq,
      Nat.mod_eq_of_lt (show idx < 2 ^ 64 by omega), Nat.mod_eq_of_lt (by omega)]
  have hnew : ((BitVec.ofNat 64 idx <<< logPgsize) + psmLci.lciLaddr).toNat
      = idx * 4096 + psmLci.lciLaddr.toNat := by
    rw [toNat_add, hbase, Nat.mod_eq_of_lt (by omega)]
  refine ⟨hp, ?_, ?_, hclear⟩
  all_goals
    dsimp only
    omega

theorem SlotInv.share (hi : SlotInv h) (hsr : h.res r = some sr) (hmapped : sr.srMapped = false)
    (hown : sr.srOwner = some o) (hq : .physMem r ∉ h.rcu) (hos : h.os o = some os)
    (hp : os.poPsm = some p) {psm psm' : Psm} {psmLci lci : Lci}
    (st : PsmAcceptStep h p r psm psmLci lci idx psm' h') (hsmall : ownSlots lci = false) :
    SlotInv (h'.setRes r { sr with srMapped := true }) := by
  have hclear := hi.unmapped_clear hsr hmapped
  -- the chunk of the manager is not that of a resource
  have hpr : p ≠ r := fun hpr => hi.psm_ne hsr o os hos (hpr ▸ hp)
  obtain ⟨-, psmLci', hpsmLci, hpsmOs, hsize, hrun⟩ := hi.psm o os p hos hp
  cases st.psmLci_eq.symm.trans hpsmLci
  have hman := st.inManager hsmall hsize (hi.psm_laddr hos hsize hrun) hp fun j => hclear o os j hos
  have hr : Reslot h (h'.setRes r { sr with srMapped := true }) o os os r := by
    rw [st.state]
    exact
      { os_eq := hos
        os_eq' := by rw [← hos, update_eq_self]; rfl
        lci := fun d hd => update_of_ne hd ..
        res := fun d hd => update_of_ne hd ..
        physMem := fun _ _ => .rfl
        slots := fun _ _ _ => .rfl
        psm := fun _ _ => .rfl
        usage := fun j hj => hi.usage o os j hos hj
        notPsm := hi.psm_ne hsr
        elsewhere := fun o' os0 j _ hos0 => hclear o' os0 j hos0 }
  rw [st.state] at hr ⊢
  refine hi.map hr hsr hown hq (update_self ..) rfl rfl rfl rfl (update_self ..)
    hpsmOs (fun j hj => absurd hj (hclear o os j hos)) (.inr ⟨p, psmLci, ?_, hman⟩)
  exact (update_of_ne hpr ..).trans hpsmLci

/-! ### Accepting a resource -/

/-- The address for which an accept looks for slots of the chunk itself, if it does. -/
def slotHint (type : ResType) (lci : Lci) : Option Uval :=
  match type with
  | .mem .memAddr => if ownSlots lci then some 0 else none
  | .mem .mmioAddr => some lci.lciRaddr
  | .intrSrc => none

/-- If partition `o` accepts the chunk into slots, there are slots for it. -/
def Acceptable (h : Hype) (type : ResType) (o : OsId) (lci : Lci) : Prop :=
  ∀ os hint, h.os o = some os → slotHint type lci = some hint →
    CountFits lci ∧ RoomFor os.chunkUsage hint (chunkCount lci)

variable {lci : Lci} {rc : Sval} {a : Uval} {vio : Sval × Uval}

section

variable (hi : SlotInv h) (hsr : h.res r = some sr) (hmapped : sr.srMapped = false)
include hi hsr hmapped

theorem SlotInv.placedBy (hown : sr.srOwner = some o) (hq : .physMem r ∉ h.rcu)
    (hlci : h.lci r = some lci) {hint : Uval}
    (hroom : ∀ os, h.os o = some os → CountFits lci ∧ RoomFor os.chunkUsage hint (chunkCount lci))
    (hx : PlacedBy h o hint r h1) :
    h1.res r = some sr ∧ SlotInv (h1.setRes r { sr with srMapped := true }) := by
  obtain ⟨ret, h0, hset, hen⟩ := hx
  rcases setLci_ok hset with ⟨-, -, os, lci', hos, hlci', hnone⟩ | ⟨os, lci', i, pLci, usage, st, -⟩
  · cases hlci.symm.trans hlci'
    obtain ⟨i, hfound, -⟩ := (hroom os hos).2.place hnone
    cases hfound
  cases hlci.symm.trans st.lci_eq
  obtain ⟨hfit, hroom⟩ := hroom os st.os_eq
  obtain ⟨i', hfound, hfree⟩ := hroom.place st.place_eq
  cases hfound
  have hplace := hi.place hsr hmapped hown hq st hfit hfree
  obtain ⟨lci0, hlci0, rfl⟩ := lciEnable_ok hen
  have hen : MapFrame (h0.setRes r { sr with srMapped := true })
      ((h0.setRes r { sr with srMapped := true }).setLciObj r
        { lci0 with lciDisabled := false }) :=
    .setLciObj hlci0 ⟨rfl, rfl, rfl⟩
  refine ⟨?_, hplace.frame hen⟩
  rwa [st.state]

theorem SlotInv.sharedBy (hown : sr.srOwner = some o) (hq : .physMem r ∉ h.rcu)
    (hlci : h.lci r = some lci) (hsmall : ownSlots lci = false) (hx : SharedBy h o fresh r rc h1) :
    (rc ≠ hSuccess ∧ SlotInv h1) ∨
      rc = hSuccess ∧ h1.res r = some sr ∧ SlotInv (h1.setRes r { sr with srMapped := true }) := by
  obtain ⟨p, h2, h3, hinit, hpsm, hrest⟩ := hx
  obtain ⟨hi2, hres, hrcu, hlcis⟩ := hi.initOsPsm hinit
  obtain ⟨os, hos, hp⟩ := initOsPsm_poPsm hinit
  have hsr2 : h2.res r = some sr := by rw [hres, hsr]
  have hlci2 : h2.lci r = some lci := by rw [hlcis r (hi.lt_next hsr).ne, hlci]
  rcases psmAccept_ok hpsm with ⟨hne, rfl⟩ | ⟨rfl, psm, psmLci, lci', idx, psm', st⟩
  · rcases hrest with ⟨-, rfl⟩ | ⟨hrc, -⟩
    · exact .inl ⟨hne, hi2⟩
    · exact absurd hrc hne
  cases hlci2.symm.trans st.lci_eq
  rcases hrest with ⟨hne, -⟩ | ⟨-, hen⟩
  · exact absurd rfl hne
  have hshare := hi2.share hsr2 hmapped hown (hrcu ▸ hq) hos hp st hsmall
  obtain ⟨lci3, hlci3, rfl⟩ := lciEnable_ok hen
  have hen : MapFrame (h3.setRes r { sr with srMapped := true })
      ((h3.setRes r { sr with srMapped := true }).setLciObj r
        { lci3 with lciDisabled := false }) :=
    .setLciObj hlci3 ⟨rfl, rfl, rfl⟩
  refine .inr ⟨rfl, ?_, hshare.frame hen⟩
  rwa [st.state]

/-- **Accepting a resource that is not mapped keeps the invariant**, if there are slots for it. -/
theorem SlotInv.accept (hq : .physMem r ∉ h.rcu)
    (hok : ∀ o lci, sr.srOwner = some o → h.lci r = some lci → Acceptable h sr.srType o lci)
    (hx : acceptLockedResource h r fresh vio = .ok (rc, a, h')) : SlotInv h' := by
  obtain ⟨sr', h1, hsr', hacc, hend⟩ := acceptLockedResource_ok hx
  cases hsr.symm.trans hsr'
  obtain ⟨⟨t, ht⟩, -⟩ := hi.mem r sr hsr
  rw [ht] at hacc hok
  -- in each case the accept fails and the invariant holds, or the resource is yet to be mapped
  have hcases : (rc ≠ hSuccess ∧ SlotInv h1) ∨
      rc = hSuccess ∧ h1.res r = some sr ∧ SlotInv (h1.setRes r { sr with srMapped := true }) := by
    cases t with
    | mmioAddr =>
      obtain ⟨sr', o, lci, -, hsr', hown, hlci, hrc, hplaced, -⟩ := mmioAccept_ok hacc
      cases hsr.symm.trans hsr'
      have hroom := fun os hos => hok o lci hown hlci os lci.lciRaddr hos rfl
      exact .inr ⟨hrc, hi.placedBy hsr hmapped hown hq hlci hroom hplaced⟩
    | memAddr =>
      obtain ⟨sr', o, lci, hsr', hown, hlci, -, ⟨hslots, hrc, hplaced⟩ | ⟨hsmall, hshared⟩⟩ :=
        memAccept_ok hacc
      · cases hsr.symm.trans hsr'
        have hroom := fun os hos => hok o lci hown hlci os 0 hos (if_pos hslots)
        exact .inr ⟨hrc, hi.placedBy hsr hmapped hown hq hlci hroom hplaced⟩
      · cases hsr.symm.trans hsr'
        exact hi.sharedBy hsr hmapped hown hq hlci hsmall hshared
  rcases hcases with ⟨hne, hi1⟩ | ⟨hrc, hsr1, hi1⟩
  · rcases hend with ⟨-, rfl⟩ | ⟨hrc, -⟩
    · exact hi1
    · exact absurd hrc hne
  rcases hend with ⟨hne, -⟩ | ⟨-, sr1, hsr1', rfl⟩
  · exact absurd hrc hne
  · cases hsr1.symm.trans hsr1'
    exact hi1

end

end

end Rhype
