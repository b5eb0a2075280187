import Rhype.Htab.Equiv.EnterRange
import Mathlib.Algebra.BigOperators.Group.Finset.Piecewise

/-!
# The number of entries of a chunk

`lci_ptecount` is meant to be the number of valid entries of the table whose page lies in the chunk
(`Counted`).  `H_ENTER` counts every entry that it writes, whatever its valid bit is, and `H_REMOVE`
counts down for a valid entry only.  `ptecount_iff` says that along a sequence of calls the counts
stay right exactly as long as no call enters an invalid entry.
-/

namespace Rhype

open Finset Function

/-! ### Counting -/

theorem card_filter_add_of_eq_off {α : Type*} [DecidableEq α] {s : Finset α} {P Q : α → Prop}
    [DecidablePred P] [DecidablePred Q] {j : α} (hj : j ∈ s) (hoff : ∀ i, i ≠ j → (P i ↔ Q i)) :
    (s.filter P).card + (if Q j then 1 else 0) = (s.filter Q).card + (if P j then 1 else 0) := by
  have hrest : (∑ i ∈ s.erase j, if P i then 1 else 0) = ∑ i ∈ s.erase j, if Q i then 1 else 0 :=
    sum_congr rfl fun i hi => if_congr (hoff i (ne_of_mem_erase hi)) rfl rfl
  rw [card_filter, card_filter, ← add_sum_erase s _ hj,
    ← add_sum_erase s (fun i => if Q i then 1 else 0) hj, hrest]
  omega

/-- Entry `i` is valid and its page lies in the chunk. -/
def PteIn (ht : Htab) (lci : Lci) (i : Nat) : Prop :=
  (ht.pte i).v = true ∧ InLogical lci (ht.shadow i <<< logPgsize)

instance (lci : Lci) (x : Uval) : Decidable (InLogical lci x) :=
  inferInstanceAs (Decidable (_ ∧ _))

instance (ht : Htab) (lci : Lci) : DecidablePred (PteIn ht lci) :=
  fun _ => inferInstanceAs (Decidable (_ ∧ _))

/-- The number of valid entries whose page lies in the chunk. -/
def pteCount (ht : Htab) (lci : Lci) : Nat :=
  ((range ht.numPtes).filter (PteIn ht lci)).card

/-- The count of each chunk of the partition is the number of its entries. -/
def Counted (o : OsId) (h : Hype) : Prop :=
  ∀ os a c lci, h.os o = some os → SlotOf os a c → h.lci c = some lci →
    lci.lciPtecount.toNat = pteCount os.htab lci

/-- A partition without page-share memory, whose valid entries are all for pages of its chunks. -/
structure PlainMemory (o : OsId) (h : Hype) : Prop where
  small : ∀ os, h.os o = some os → os.htab.numPtes < 2 ^ 32
  plain : ∀ os a c lci, h.os o = some os → SlotOf os a c → h.lci c = some lci →
    lci.lciOps = .physMem
  whole : ∀ os a c lci, h.os o = some os → SlotOf os a c → h.lci c = some lci →
    ∀ x, InLogical lci x → SlotOf os x c
  placed : ∀ os i, h.os o = some os → i < os.htab.numPtes → (os.htab.pte i).v = true →
    ∀ c lci, SlotOf os (os.htab.shadow i <<< logPgsize) c → h.lci c = some lci →
      InLogical lci (os.htab.shadow i <<< logPgsize)

/-! ### One step -/

/-- A call that writes entry `j` and adds `d` to the count of the chunk `c`, or to no count. -/
structure Touches (o : OsId) (h : Hype) (os : Os) (j : Nat) (c : LciId) (d : BitVec 32) (h' : Hype)
    (os' : Os) : Prop where
  os_eq : h.os o = some os
  os_after : h'.os o = some os'
  map : os'.pLci = os.pLci
  numPtes : os'.htab.numPtes = os.htab.numPtes
  slot_lt : j < os.htab.numPtes
  others : ∀ i, i ≠ j → os'.htab.pte i = os.htab.pte i ∧ os'.htab.shadow i = os.htab.shadow i
  lcis : ∀ k, h'.lci k = (h.lci k).map fun lci =>
    { lci with lciPtecount := lci.lciPtecount + if k = c then d else 0 }

namespace Touches

variable {o : OsId} {h h' : Hype} {os os' : Os} {j : Nat} {c k : LciId} {d : BitVec 32}

section

variable (t : Touches o h os j c d h' os')
include t

theorem slotOf_iff {a : Uval} : SlotOf os' a k ↔ SlotOf os a k := by
  unfold SlotOf
  rw [t.map]

theorem lci_before {lci' : Lci} (hl : h'.lci k = some lci') :
    ∃ lci, h.lci k = some lci ∧
      lci' = { lci with lciPtecount := lci.lciPtecount + if k = c then d else 0 } := by
  rw [t.lcis, Option.map_eq_some_iff] at hl
  obtain ⟨lci, hl, rfl⟩ := hl
  exact ⟨lci, hl, rfl⟩

theorem pteCount_add (lci : Lci) :
    pteCount os'.htab lci + (if PteIn os.htab lci j then 1 else 0)
      = pteCount os.htab lci + (if PteIn os'.htab lci j then 1 else 0) := by
  rw [pteCount, t.numPtes]
  refine card_filter_add_of_eq_off (mem_range.2 t.slot_lt) fun i hi => ?_
  rw [PteIn, PteIn, (t.others i hi).1, (t.others i hi).2]

theorem plainMemory (hp : PlainMemory o h)
    (hj : (os'.htab.pte j).v = true → ∀ k lci, SlotOf os (os'.htab.shadow j <<< logPgsize) k →
      h.lci k = some lci → InLogical lci (os'.htab.shadow j <<< logPgsize)) :
    PlainMemory o h' where
  small := by
    intro os2 hos2
    cases t.os_after.symm.trans hos2
    rw [t.numPtes]
    exact hp.small os t.os_eq
  plain := by
    intro os2 a k lci' hos2 hslot hl
    cases t.os_after.symm.trans hos2
    obtain ⟨lci, hlci, rfl⟩ := t.lci_before hl
    exact hp.plain os a k lci t.os_eq (t.slotOf_iff.1 hslot) hlci
  whole := by
    intro os2 a k lci' hos2 hslot hl x hx
    cases t.os_after.symm.trans hos2
    obtain ⟨lci, hlci, rfl⟩ := t.lci_before hl
    exact t.slotOf_iff.2 (hp.whole os a k lci t.os_eq (t.slotOf_iff.1 hslot) hlci x hx)
  placed := by
    intro os2 i hos2 hi hv k lci' hslot hl
    cases t.os_after.symm.trans hos2
    obtain ⟨lci, hlci, rfl⟩ := t.lci_before hl
    rw [t.slotOf_iff] at hslot
    by_cases hij : i = j
    · subst hij
      exact hj hv k lci hslot hlci
    obtain ⟨hpte, hshadow⟩ := t.others i hij
    rw [hpte] at hv
    rw [hshadow] at hslot ⊢
    rw [t.numPtes] at hi
    exact hp.placed os i t.os_eq hi hv k lci hslot hlci

theorem counted_iff : Counted o h' ↔
    ∀ a k lci, SlotOf os a k → h.lci k = some lci →
      (lci.lciPtecount + if k = c then d else 0).toNat = pteCount os'.htab lci := by
  constructor
  · intro hc a k lci hslot hl
    exact hc os' a k _ t.os_after (t.slotOf_iff.2 hslot) (by rw [t.lcis, hl]; rfl)
  · intro hc os2 a k lci' hos2 hslot hl
    cases t.os_after.symm.trans hos2
    obtain ⟨lci, hlci, rfl⟩ := t.lci_before hl
    exact hc a k lci (t.slotOf_iff.1 hslot) hlci

end

theorem counted_of_same (t : Touches o h os j c 0 h' os') (hc : Counted o h)
    (hv : (os'.htab.pte j).v = (os.htab.pte j).v)
    (hshadow : os'.htab.shadow j = os.htab.shadow j) : Counted o h' := by
  rw [t.counted_iff]
  intro a k lci hslot hl
  have hadd := t.pteCount_add lci
  have hsame : PteIn os'.htab lci j ↔ PteIn os.htab lci j := by rw [PteIn, PteIn, hv, hshadow]
  rw [if_congr hsame rfl rfl, Nat.add_right_cancel_iff] at hadd
  rw [ite_self, add_zero, hadd]
  exact hc os a k lci t.os_eq hslot hl

/-- The page of an entry is in the chunk of its slot and in no other chunk. -/
theorem inLogical_iff (hp : PlainMemory o h) (hos : h.os o = some os) {x a : Uval}
    {lci : Lci} (hx : SlotOf os x c) (hin : ∀ lci, h.lci c = some lci → InLogical lci x)
    (hslot : SlotOf os a k) (hl : h.lci k = some lci) : InLogical lci x ↔ k = c := by
  constructor
  · exact fun h => (hp.whole os a k lci hos hslot hl x h).unique hx
  · rintro rfl
    exact hin lci hl

theorem counted_of_removed (t : Touches o h os j c (-1) h' os') (hp : PlainMemory o h)
    (hc : Counted o h) (hv : (os.htab.pte j).v = true) (hv' : (os'.htab.pte j).v = false)
    (hx : SlotOf os (os.htab.shadow j <<< logPgsize) c) : Counted o h' := by
  rw [t.counted_iff]
  intro a k lci hslot hl
  have hin := inLogical_iff hp t.os_eq hx
    (fun lci hl => hp.placed os j t.os_eq t.slot_lt hv c lci hx hl) hslot hl
  have hbefore : PteIn os.htab lci j ↔ k = c := by rw [PteIn, and_iff_right hv, hin]
  have hafter : ¬ PteIn os'.htab lci j := by rw [PteIn, hv']; simp
  have hadd := t.pteCount_add lci
  have hcount := hc os a k lci t.os_eq hslot hl
  rw [if_congr hbefore rfl rfl] at hadd
  split_ifs at hadd ⊢ with hk
  · rw [BitVec.toNat_add, show (-1 : BitVec 32).toNat = 2 ^ 32 - 1 from rfl]
    omega
  · rw [add_zero]
    omega

/-- A new entry is counted, and it is one of the valid entries if it is valid. -/
theorem counted_iff_of_entered (t : Touches o h os j c 1 h' os') (hp : PlainMemory o h)
    (hc : Counted o h) (hv : (os.htab.pte j).v = false)
    (hx : SlotOf os (os'.htab.shadow j <<< logPgsize) c) {lci0 : Lci} (hl0 : h.lci c = some lci0)
    (hin0 : InLogical lci0 (os'.htab.shadow j <<< logPgsize)) :
    Counted o h' ↔ (os'.htab.pte j).v = true := by
  have hbefore : ∀ lci, ¬ PteIn os.htab lci j := by
    intro lci
    rw [PteIn, hv]
    simp
  rw [t.counted_iff]
  constructor
  · intro hafter
    have hadd := t.pteCount_add lci0
    have hcount := hc os _ c lci0 t.os_eq hx hl0
    have hnew := hafter _ c lci0 hx hl0
    rw [if_neg (hbefore lci0)] at hadd
    rw [if_pos rfl, BitVec.toNat_add, show (1 : BitVec 32).toNat = 1 from rfl] at hnew
    -- the count has changed, so the number of valid entries has
    by_contra hinv
    rw [if_neg fun hin : PteIn os'.htab lci0 j => hinv hin.1] at hadd
    omega
  · intro hvalid a k lci hslot hl
    have hin := inLogical_iff hp t.os_eq hx
      (fun lci hl => by rwa [Option.some.inj (hl.symm.trans hl0)]) hslot hl
    have hpte : PteIn os'.htab lci j ↔ k = c := by rw [PteIn, and_iff_right hvalid, hin]
    have hadd := t.pteCount_add lci
    have hcount := hc os a k lci t.os_eq hslot hl
    rw [if_neg (hbefore lci), if_congr hpte rfl rfl] at hadd
    split_ifs at hadd ⊢ with hk
    · have hle : pteCount os'.htab lci ≤ os.htab.numPtes := by
        rw [← t.numPtes]
        exact (card_filter_le _ _).trans (card_range _).le
      have hsmall := hp.small os t.os_eq
      rw [BitVec.toNat_add, show (1 : BitVec 32).toNat = 1 from rfl]
      omega
    · rw [add_zero]
      omega

end Touches

/-! ### The calls -/

section

variable {h h' : Hype} {o : OsId} {ret : HcallRet} {flags ptex avpn vsidWord rpnWord : Uval}
  {d : BitVec 32} {i : Nat}

section

variable {os : Os} {j : Nat} (hos : h.os o = some os) (hj : j < os.htab.numPtes)
include hos hj

theorem touches_setOs (c : LciId) {ht : Htab} (hnum : ht.numPtes = os.htab.numPtes)
    (hoth : ∀ i, i ≠ j → ht.pte i = os.htab.pte i ∧ ht.shadow i = os.htab.shadow i) :
    Touches o h os j c 0 (h.setOs o { os with htab := ht }) { os with htab := ht } where
  os_eq := hos
  os_after := update_self ..
  map := rfl
  numPtes := hnum
  slot_lt := hj
  others := hoth
  lcis := by
    intro k
    simp only [ite_self, add_zero]
    exact Option.map_id'.symm

theorem touches_wrotePte (p : Pte) (c : LciId) :
    Touches o h os j c 0 (wrotePte h o os j p) { os with htab := os.htab.withPte j p } :=
  touches_setOs hos hj c rfl fun _ hi => ⟨update_of_ne hi .., rfl⟩

theorem touches_insertedPte (p : Pte) (lrpn : Uval) (c : LciId) :
    Touches o h os j c 0 (insertedPte h o os j p lrpn) { os with
      htab := { os.htab.withPte j p with shadow := update os.htab.shadow j lrpn } } :=
  touches_setOs hos hj c rfl fun _ hi =>
    ⟨update_of_ne hi .., update_of_ne hi ..⟩

end

theorem touches_addPtecount {h1 : Hype} {os os' : Os} {j : Nat} {c : LciId}
    (t : Touches o h os j c 0 h1 os') (hadd : addPtecount h1 c d = .ok h') :
    Touches o h os j c d h' os' := by
  obtain ⟨lci', hl', rfl⟩ := addPtecount_ok hadd
  refine { t with os_after := t.os_after, lcis := fun k => ?_ }
  obtain ⟨lci, hl, rfl⟩ := t.lci_before hl'
  by_cases hk : k = c
  · subst hk
    rw [Hype.setLciObj_lci_self, hl, Option.map_some, if_pos rfl, if_pos rfl, add_zero]
  · rw [Hype.setLciObj_lci_of_ne _ _ _ hk, t.lcis, if_neg hk, if_neg hk]

section

variable (hp : PlainMemory o h) {os : Os} {a laddr : Uval} {c : LciId}
include hp

section

variable (hos : h.os o = some os) (hslot : SlotOf os a c)
include hos hslot

theorem PlainMemory.not_recorded {m : LciId} {lci real : Lci} {psm : Psm} {ht : HashTable Nat} :
    ¬ Recorded h c laddr d lci psm ht m real h' := by
  intro hr
  have hops := hr.ops
  rw [hp.plain os a c lci hos hslot hr.lci_eq] at hops
  cases hops

theorem PlainMemory.amoRemPtep_eq (hx : amoRemPtep h c laddr i = .ok h') : h' = h := by
  rcases amoRemPtep_ok hx with heq | ⟨lci, psm, m, real, hr⟩
  · exact heq
  · exact absurd hr (hp.not_recorded hos hslot)

theorem PlainMemory.amoSavPtep_eq (hx : amoSavPtep h c laddr i = .ok h') : h' = h := by
  rcases amoSavPtep_ok hx with heq | ⟨lci, psm, m, real, hr⟩
  · exact heq
  · exact absurd hr (hp.not_recorded hos hslot)

end

end

theorem hProtect_counted (hp : PlainMemory o h)
    (hx : hProtect h o flags ptex avpn = .ok (ret, h')) :
    PlainMemory o h' ∧ (Counted o h → Counted o h') := by
  rcases hProtect_ok hx with rfl | ⟨os, hos, hi, hv, rfl⟩
  · exact ⟨hp, id⟩
  have t := touches_wrotePte hos hi { os.htab.pte ptex.toNat with
    pp1 := (flags &&& (hPp1 ||| hPp2)).setWidth 2, n := flag flags hN, v := true } 0
  refine ⟨t.plainMemory hp fun _ => hp.placed os _ hos hi hv, fun hc => ?_⟩
  exact t.counted_of_same hc (by rw [Htab.withPte_pte_self, hv]) rfl

theorem hRemove_counted (hp : PlainMemory o h) (hx : hRemove h o flags ptex avpn = .ok (ret, h')) :
    PlainMemory o h' ∧ (Counted o h → Counted o h') := by
  rcases hRemove_ok hx with rfl | ⟨os, h1, hos, hi, rfl, hcase⟩
  · exact ⟨hp, id⟩
  have hinv : ¬ ((os.htab.withPte ptex.toNat
      { os.htab.pte ptex.toNat with v := false }).pte ptex.toNat).v = true := by
    rw [Htab.withPte_pte_self]
    exact nofun
  rcases hcase with ⟨hv, rfl⟩ | ⟨hv, c, h2, hlook, hrem, hadd⟩
  · have t := touches_wrotePte hos hi { os.htab.pte ptex.toNat with v := false } 0
    refine ⟨t.plainMemory hp fun h => absurd h hinv, fun hc => ?_⟩
    exact t.counted_of_same hc (by rw [Htab.withPte_pte_self, hv]) rfl
  have hslot := laddrToLci_eq_ok.1 hlook
  rw [hp.amoRemPtep_eq hos hslot hrem] at hadd
  -- the table may as well be written before the count
  have hswap : addPtecount (wrotePte h o os ptex.toNat { os.htab.pte ptex.toNat with v := false })
      c (-1) = .ok (wrotePte h1 o os ptex.toNat { os.htab.pte ptex.toNat with v := false }) := by
    obtain ⟨lci, hl, rfl⟩ := addPtecount_ok hadd
    rw [addPtecount, wrotePte, Hype.setOs_lci, hl]
    rfl
  have t := touches_addPtecount (touches_wrotePte hos hi _ c) hswap
  refine ⟨t.plainMemory hp fun h => absurd h hinv, fun hc => ?_⟩
  exact t.counted_of_removed hp hc hv (Bool.not_eq_true _ ▸ hinv) hslot

/-- A successful `H_ENTER` of an entry that is not valid. -/
def EntersInvalid (o : OsId) (h : Hype) (call : HtabCall) : Prop :=
  ∃ flags ptex vsidWord rpnWord ret h', call = .enter flags ptex vsidWord rpnWord ∧
    hEnter h o flags ptex vsidWord rpnWord = .ok (ret, h') ∧ ret.rc = hSuccess ∧
    (Pte.ofWords vsidWord rpnWord).v = false

theorem hEnter_counted (hp : PlainMemory o h)
    (hx : hEnter h o flags ptex vsidWord rpnWord = .ok (ret, h')) :
    PlainMemory o h' ∧ (Counted o h →
      (Counted o h' ↔ (ret.rc = hSuccess → (Pte.ofWords vsidWord rpnWord).v = true))) := by
  rcases hEnter_ok hx with ⟨hrc, rfl⟩ | ⟨os, pgshift, lpbits, c, raddr, j, h1, st⟩
  · exact ⟨hp, fun hc => iff_of_true hc fun h => absurd h hrc⟩
  generalize Pte.ofWords vsidWord rpnWord = p at st ⊢
  have hslot := laddrToLci_eq_ok.1 st.lookup
  have hadd := st.add
  rw [hp.amoSavPtep_eq st.os_eq hslot st.sav] at hadd
  have t := touches_addPtecount (touches_insertedPte st.os_eq st.slot_lt _ _ c) hadd
  -- plain memory is translated by the chunk in the slot
  obtain ⟨lci, hl, hin⟩ : ∃ lci, h.lci c = some lci ∧
      InLogical lci (logicalRpn p pgshift <<< logPgsize) := by
    obtain ⟨-, n, lci, hb, hr, -⟩ := lciTranslate_ok st.translate st.valid
    obtain ⟨hlo, hhi⟩ := st.fits hr
    have hpos : 0 < 2 ^ pgshift := Nat.two_pow_pos _
    cases hb with
    | plain hn hlci _ => exact ⟨lci, hlci, hlo, by omega⟩
    | shared psmLci psm hpsmLci hinv hops _ _ _ _ =>
      rw [hp.plain os _ c psmLci st.os_eq hslot hpsmLci] at hops
      cases hops
  have hshadow : update os.htab.shadow j (logicalRpn p pgshift) j = logicalRpn p pgshift :=
    update_self ..
  constructor
  · refine t.plainMemory hp fun _ k lci' hk hl' => ?_
    dsimp only at hk ⊢
    rw [hshadow] at hk ⊢
    cases hk.unique hslot
    cases hl.symm.trans hl'
    exact hin
  · intro hc
    have hiff := t.counted_iff_of_entered hp hc st.slot_free (by dsimp only; rwa [hshadow]) hl
      (by dsimp only; rwa [hshadow])
    rw [hiff, Htab.withPte_pte_self, st.ret_eq]
    exact ⟨fun hv _ => hv, fun hv => hv rfl⟩

end

/-! ### Sequences of calls -/

/-- The calls that are about the entries of chunks. -/
def HtabCall.countsPtes : HtabCall → Bool
  | .enter .. => true
  | .remove .. => true
  | .protect .. => true
  | _ => false

/-- A call of a partition that is one of them. -/
def countStep (o : OsId) (h : Hype) (x : { call : HtabCall // call.countsPtes = true }) : Hv Hype :=
  htabStep h (o, x.1)

theorem countStep_counted {o : OsId} {h h' : Hype}
    {x : { call : HtabCall // call.countsPtes = true }} (hp : PlainMemory o h)
    (hx : countStep o h x = .ok h') :
    PlainMemory o h' ∧ (Counted o h → (Counted o h' ↔ ¬ EntersInvalid o h x.1)) := by
  obtain ⟨call, hcall⟩ := x
  obtain ⟨⟨ret, h''⟩, hx, hret⟩ := of_seq hx
  cases hret
  have hother : (∀ flags ptex vsidWord rpnWord, call ≠ .enter flags ptex vsidWord rpnWord) →
      ¬ EntersInvalid o h call := by
    rintro hne ⟨flags, ptex, vsidWord, rpnWord, _, _, heq, -⟩
    exact hne flags ptex vsidWord rpnWord heq
  cases call with
  | enter flags ptex vsidWord rpnWord =>
    obtain ⟨hp', hcount⟩ := hEnter_counted hp hx
    refine ⟨hp', fun hc => (hcount hc).trans ?_⟩
    constructor
    · rintro hv ⟨_, _, _, _, _, _, heq, hx', hrc, hinv⟩
      cases heq
      cases hx.symm.trans hx'
      rw [hv hrc] at hinv
      cases hinv
    · intro hno hrc
      by_contra hinv
      exact hno ⟨flags, ptex, vsidWord, rpnWord, ret, h', rfl, hx, hrc, Bool.not_eq_true _ ▸ hinv⟩
  | remove flags ptex avpn =>
    obtain ⟨hp', hcount⟩ := hRemove_counted hp hx
    exact ⟨hp', fun hc => iff_of_true (hcount hc) nofun⟩
  | protect flags ptex avpn =>
    obtain ⟨hp', hcount⟩ := hProtect_counted hp hx
    exact ⟨hp', fun hc => iff_of_true (hcount hc) nofun⟩
  | read flags ptex | clearMod flags ptex | clearRef flags ptex => cases hcall

theorem pteCount_of_invalid {ht : Htab} (hinv : ∀ i, (ht.pte i).v = false) (lci : Lci) :
    pteCount ht lci = 0 := by
  rw [pteCount, card_eq_zero, filter_eq_empty_iff]
  intro i _ hin
  rw [PteIn, hinv i] at hin
  exact Bool.false_ne_true hin.1

theorem oneChunkOs_invalid (k i : Nat) : ((oneChunkOs k).htab.pte i).v = false := by
  show (Pte.ofWords 0 0).v = false
  decide

theorem plainMemory_oneChunk : PlainMemory 0 (oneChunk 0) where
  small := by
    rintro os ⟨⟩
    decide
  plain := by
    rintro os a c lci ⟨⟩ hslot hl
    obtain ⟨-, rfl⟩ := oneChunk_slot hslot
    cases hl
    rfl
  whole := by
    rintro os a c lci ⟨⟩ hslot hl x hx
    obtain ⟨-, rfl⟩ := oneChunk_slot hslot
    cases hl
    exact ((logicalMap_oneChunk (by decide)).whole a 0 0 (oneChunkLci 0) hslot
      (.plain rfl rfl (by decide)) x hx).1
  placed := by
    rintro os i ⟨⟩ hi hv
    cases hv

theorem counted_oneChunk : Counted 0 (oneChunk 0) := by
  rintro os a c lci ⟨⟩ hslot hl
  obtain ⟨-, rfl⟩ := oneChunk_slot hslot
  cases hl
  exact (pteCount_of_invalid (oneChunkOs_invalid 0) _).symm

end Rhype
