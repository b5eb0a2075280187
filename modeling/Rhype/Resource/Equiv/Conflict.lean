import Rhype.Resource.Equiv.AcceptFrame
import Rhype.Resource.Equiv.Export
import Rhype.Resource.Equiv.OwnerList
import Rhype.Resource.Sections

/-!
# Overlapping memory in one partition

`resource_conflict` looks for memory of the same type that overlaps with a new resource, in the list
of the partition the resource is for.  The list is locked for the scan, and locked again for the
insertion, but not in between: two calls can both find no conflict, and then both insert.
-/

namespace Rhype

open AddPc Function List

/-! ### Ranges -/

/-- The real address is one of the chunk. -/
def Lci.HasReal (lci : Lci) (x : Nat) : Prop :=
  lci.lciRaddr.toNat ≤ x ∧ x < lci.lciRaddr.toNat + lci.lciSize.toNat

def Overlap (lci1 lci2 : Lci) : Prop := ∃ x, lci1.HasReal x ∧ lci2.HasReal x

/-- The end of the real range is a word. -/
def RealFits (lci : Lci) : Prop := lci.lciRaddr.toNat + lci.lciSize.toNat < 2 ^ 64

theorem rangesConflict_of_overlap {lci1 lci2 : Lci} (h1 : RealFits lci1) (h2 : RealFits lci2)
    (ho : Overlap lci1 lci2) :
    rangesConflict lci1.lciRaddr lci1.lciSize lci2.lciRaddr lci2.lciSize = true := by
  obtain ⟨x, ⟨hx1, hx1'⟩, hx2, hx2'⟩ := ho
  unfold RealFits at h1 h2
  unfold rangesConflict
  -- the range that starts last has its first address in the other one
  rcases le_total lci2.lciRaddr.toNat lci1.lciRaddr.toNat with hle | hle
  · rw [if_pos]
    rw [rangeContains_iff]
    omega
  have hin : rangeContains lci1.lciRaddr lci1.lciSize lci2.lciRaddr = true := by
    rw [rangeContains_iff]
    omega
  simp [hin]

theorem Overlap.congr {lci1 lci2 lci1' lci2' : Lci} (h1 : lci1.SameMem lci1')
    (h2 : lci2.SameMem lci2') (ho : Overlap lci1' lci2') : Overlap lci1 lci2 := by
  obtain ⟨x, hx1, hx2⟩ := ho
  unfold Lci.HasReal at hx1 hx2
  rw [h1.raddr, h1.size] at hx1
  rw [h2.raddr, h2.size] at hx2
  exact ⟨x, hx1, hx2⟩

/-! ### Resources -/

/-- The resource is memory of the type `t` and has not been rescinded; its chunk is `lci`. -/
def LiveMem (h : Hype) (t : MemType) (r : ResId) (lci : Lci) : Prop :=
  h.lci r = some lci ∧ ∃ sr, h.res r = some sr ∧ sr.srType = .mem t ∧ sr.srRescinded = false

/-- The resources are not live memory of one type that overlaps. -/
def Apart (h : Hype) (r1 r2 : ResId) : Prop :=
  ∀ t lci1 lci2, LiveMem h t r1 lci1 → LiveMem h t r2 lci2 → ¬ Overlap lci1 lci2

/-- The resource is on the list of the partition. -/
def OnList (h : Hype) (o : OsId) (r : ResId) : Prop :=
  ∃ rs : List ResId, h.dl.IsRing (.poResources o) (rs.map .osRes) ∧ r ∈ rs

/-- **The property**: the partition holds no two live memory resources of one type that overlap. -/
def NoOverlap (h : Hype) (o : OsId) : Prop :=
  ∀ r1 r2, OnList h o r1 → OnList h o r2 → r1 ≠ r2 → Apart h r1 r2

theorem Apart.symm {h : Hype} {r1 r2 : ResId} (ha : Apart h r1 r2) : Apart h r2 r1 :=
  fun t lci2 lci1 h2 h1 ⟨x, hx2, hx1⟩ => ha t lci1 lci2 h1 h2 ⟨x, hx1, hx2⟩

/-! ### The scan -/

section

variable {h : Hype} {o : OsId} {r : ResId} {rs : List ResId}

theorem resourceConflict_apart (hring : h.dl.IsRing (.poResources o) (rs.map .osRes))
    (hx : resourceConflict h o r = .ok hSuccess) (hfit : ∀ lci, h.lci r = some lci → RealFits lci)
    (hfits : ∀ q ∈ rs, ∀ lci, h.lci q = some lci → RealFits lci) : ∀ q ∈ rs, Apart h q r := by
  obtain ⟨os, -, hx⟩ := of_seq hx
  obtain ⟨sr, hsr, hx⟩ := of_live hx
  obtain ⟨found, hfind, hx⟩ := of_seq hx
  have hnone : found = none := by
    cases found with
    | none => rfl
    | some u => cases hx
  rw [hnone, hring.next_head] at hfind
  rintro q hq t l1 l2 ⟨hl1, sr1, hsr1, ht1, hres1⟩ ⟨hl2, sr2, hsr2, ht2, -⟩ ho
  obtain ⟨sr', hsr', hf⟩ := findRes_none hring (nil_append rs).symm hfind q hq
  cases hsr1.symm.trans hsr'
  cases hsr2.symm.trans hsr
  have hconf := rangesConflict_of_overlap (hfits q hq l1 hl1) (hfit l2 hl2) ho
  rw [if_pos (by simp [hres1, ht1, ht2])] at hf
  obtain ⟨b, hb, hf⟩ := of_seq hf
  obtain ⟨m1, hm1, hb⟩ := of_live hb
  obtain ⟨m2, hm2, hb⟩ := of_live hb
  obtain ⟨_, -, hb⟩ := of_seq hb
  obtain ⟨_, -, hb⟩ := of_seq hb
  cases hl1.symm.trans hm1
  cases hl2.symm.trans hm2
  rw [hconf] at hb
  cases hb
  cases hf

end

/-! ### What the sections do to objects -/

/-- Of the old objects, memory stays the same memory and resources keep their type; none is
rescinded.  Objects may be freed. -/
structure MemFrame (h h' : Hype) : Prop where
  next : h.next ≤ h'.next
  lci : ∀ c < h.next, ∀ lci', h'.lci c = some lci' → ∃ lci, h.lci c = some lci ∧ lci.SameMem lci'
  res : ∀ r < h.next, ∀ sr', h'.res r = some sr' → ∃ sr, h.res r = some sr ∧
    sr'.srType = sr.srType ∧ sr'.srRescinded = sr.srRescinded

namespace MemFrame

variable {h h' h'' : Hype} {r : ResId} {lci' : Lci}

theorem refl (h : Hype) : MemFrame h h :=
  ⟨le_rfl, fun _ _ lci hlci => ⟨lci, hlci, .refl lci⟩, fun _ _ sr hsr => ⟨sr, hsr, rfl, rfl⟩⟩

theorem trans (h1 : MemFrame h h') (h2 : MemFrame h' h'') : MemFrame h h'' where
  next := h1.next.trans h2.next
  lci := by
    intro c hc lci'' hlci''
    obtain ⟨lci', hlci', hs'⟩ := h2.lci c (hc.trans_le h1.next) lci'' hlci''
    obtain ⟨lci, hlci, hs⟩ := h1.lci c hc lci' hlci'
    exact ⟨lci, hlci, hs.trans _ _ _ hs'⟩
  res := by
    intro q hq sr'' hsr''
    obtain ⟨sr', hsr', ht', hr'⟩ := h2.res q (hq.trans_le h1.next) sr'' hsr''
    obtain ⟨sr, hsr, ht, hr⟩ := h1.res q hq sr' hsr'
    exact ⟨sr, hsr, ht'.trans ht, hr'.trans hr⟩

theorem of_res {sr sr' : SysResource} (hsr : h.res r = some sr)
    (hres : h'.res = update h.res r (some sr')) (ht : sr'.srType = sr.srType)
    (hr : sr'.srRescinded = sr.srRescinded) (hnext : h'.next = h.next) (hlci : h'.lci = h.lci) :
    MemFrame h h' where
  next := hnext.ge
  lci := fun c _ lci hc => ⟨lci, hlci ▸ hc, .refl lci⟩
  res := by
    intro q _ s hs
    rw [hres] at hs
    rcases update_some_eq_some.1 hs with ⟨rfl, rfl⟩ | ⟨-, hs⟩
    · exact ⟨sr, hsr, ht, hr⟩
    · exact ⟨s, hs, rfl, rfl⟩

theorem liveMem (hf : MemFrame h h') (hr : r < h.next) {t : MemType}
    (hl : LiveMem h' t r lci') : ∃ lci, LiveMem h t r lci ∧ lci.SameMem lci' := by
  obtain ⟨hlci', sr', hsr', ht, hres⟩ := hl
  obtain ⟨lci, hlci, hs⟩ := hf.lci r hr lci' hlci'
  obtain ⟨sr, hsr, ht', hres'⟩ := hf.res r hr sr' hsr'
  exact ⟨lci, ⟨hlci, sr, hsr, ht'.symm.trans ht, hres'.symm.trans hres⟩, hs⟩

theorem apart (hf : MemFrame h h') {r1 r2 : ResId} (h1 : r1 < h.next) (h2 : r2 < h.next)
    (ha : Apart h r1 r2) : Apart h' r1 r2 := by
  intro t l1' l2' hl1' hl2' ho
  obtain ⟨l1, hl1, hs1⟩ := hf.liveMem h1 hl1'
  obtain ⟨l2, hl2, hs2⟩ := hf.liveMem h2 hl2'
  exact ha t l1 l2 hl1 hl2 (ho.congr hs1 hs2)

theorem fits (hf : MemFrame h h') (hr : r < h.next)
    (hfit : ∀ lci, h.lci r = some lci → RealFits lci) (hlci' : h'.lci r = some lci') :
    RealFits lci' := by
  obtain ⟨lci, hlci, hs⟩ := hf.lci r hr lci' hlci'
  have := hfit lci hlci
  unfold RealFits at this ⊢
  rwa [hs.raddr, hs.size]

end MemFrame

/-! ### One section -/

/-- The resource that only the thread works on. -/
def AddPc.res : AddPc → Option ResId
  | .made _ r => some r
  | .scanned _ r => some r
  | .linked _ r => some r
  | _ => none

/-- The resource that the thread is going to put on the list without a further look at it. -/
def AddPc.pending : AddPc → Option ResId
  | .scanned _ r => some r
  | .linked _ r => some r
  | _ => none

theorem AddPc.res_of_pending {pc : AddPc} {r : ResId} (hp : pc.pending = some r) :
    pc.res = some r := by
  cases pc <;> first | exact hp | cases hp

/-- What a section of a call does. -/
inductive AddEffect (dest : OsId) (h : Hype) : AddPc → AddPc → Hype → Prop
  /-- The call ends, or the chunk is mapped. -/
  | quiet {pc pc' : AddPc} {h' : Hype} (hpc : pc'.res = none) (hmem : MemFrame h h')
      (hdl : h'.dl = h.dl) : AddEffect dest h pc pc' h'
  | scan {call : Adding} {r : ResId} (hx : resourceConflict h dest r = .ok hSuccess) :
      AddEffect dest h (.made call r) (.scanned call r) h
  | link {call : Adding} {r : ResId} {h' : Hype} (hmem : MemFrame h h')
      (hdl : h'.dl = h.dl ∨ ∃ q, h'.dl = h.dl.insBefore (.siblings r) (.children q)) :
      AddEffect dest h (.scanned call r) (.linked call r) h'
  | own {call : Adding} {r : ResId} {pc' : AddPc} {h' : Hype} (hpc : pc'.res = none)
      (hmem : MemFrame h h') (hdl : h'.dl = h.dl.insBefore (.osRes r) (.poResources dest)) :
      AddEffect dest h (.linked call r) pc' h'

section

variable {h h' : Hype} {dest : OsId} {r : ResId} {rc : Sval}

theorem rescindFn_memFrame {t : MemType} (hx : rescindFn h (.mem t) r = .ok h') :
    MemFrame h h' ∧ h'.dl = h.dl := by
  obtain ⟨lci, -, hx⟩ := of_seq hx
  cases hx
  exact ⟨{ MemFrame.refl h with }, rfl⟩

theorem addRefuse_memFrame (call : Adding) :
    MemFrame h (addRefuse h r call) ∧ (addRefuse h r call).dl = h.dl := by
  cases call with
  | grant => exact ⟨{ MemFrame.refl h with }, rfl⟩
  | define =>
    exact ⟨⟨le_rfl, fun c _ lci hlci => ⟨lci, (update_none_eq_some.1 hlci).2, .refl lci⟩,
      fun q _ sr hsr => ⟨sr, (update_none_eq_some.1 hsr).2, rfl, rfl⟩⟩, rfl⟩

theorem insertLink_ok {linked : Bool} (hx : insertLink h r = .ok (linked, h')) :
    (linked = false ∧ h' = h) ∨ linked = true ∧ MemFrame h h' ∧
      (h'.dl = h.dl ∨ ∃ q, h'.dl = h.dl.insBefore (.siblings r) (.children q)) := by
  obtain ⟨sr, hsr, hx⟩ := of_live hx
  rcases hp : sr.srParent with _ | q
  · rw [hp] at hx
    cases hx
    exact .inr ⟨rfl, .of_res hsr rfl rfl rfl rfl rfl, .inl rfl⟩
  rw [hp] at hx
  obtain ⟨parent, -, hx⟩ := of_seq hx
  split_ifs at hx
  · cases hx
    exact .inl ⟨rfl, rfl⟩
  · cases hx
    exact .inr ⟨rfl, .of_res hsr rfl rfl rfl rfl rfl, .inr ⟨q, rfl⟩⟩

theorem insertOwn_ok (hx : insertOwn h r dest = .ok (rc, h')) :
    MemFrame h h' ∧ h'.dl = h.dl.insBefore (.osRes r) (.poResources dest) := by
  obtain ⟨sr, hsr, hx⟩ := of_live hx
  cases hx
  exact ⟨.of_res hsr rfl rfl rfl rfl rfl, rfl⟩

theorem AcceptFrame.memFrame (hf : AcceptFrame h.next r h h') : MemFrame h h' where
  next := hf.next
  lci := by
    intro c hc lci' hlci'
    rcases eq_or_ne c r with rfl | hne
    · obtain ⟨lci, hlci, hs⟩ := rel_some_right (hf.own hc) hlci'
      exact ⟨lci, hlci, hs⟩
    · exact ⟨lci', (hf.other c hc hne).symm.trans hlci', .refl lci'⟩
  res := fun q _ sr' hsr' => ⟨sr', hf.res ▸ hsr', rfl, rfl⟩

theorem acceptLockedResource_memFrame {fresh : FreshPsm} {vio : Sval × Uval} {a : Uval}
    (hx : acceptLockedResource h r fresh vio = .ok (rc, a, h')) : MemFrame h h' ∧ h'.dl = h.dl := by
  obtain ⟨sr, h1, -, haccept, hend⟩ := acceptLockedResource_ok hx
  have hf := acceptFn_frame haccept
  rcases hend with ⟨-, rfl⟩ | ⟨-, sr1, hsr1, rfl⟩
  · exact ⟨hf.memFrame, hf.dl⟩
  · exact ⟨hf.memFrame.trans (.of_res hsr1 rfl rfl rfl rfl rfl), hf.dl⟩

/-- **What a section can do.** -/
theorem addSection_effect {pc pc' : AddPc} (hx : addSection dest h pc = .ok (pc', h')) :
    AddEffect dest h pc pc' h' := by
  cases pc with
  | idle =>
    cases hx
    exact .quiet rfl (.refl h) rfl
  | made call r =>
    obtain ⟨err, hconf, hx⟩ := of_seq hx
    split_ifs at hx with herr
    · cases hx
      exact .scan (herr ▸ hconf)
    · cases hx
      obtain ⟨hmem, hdl⟩ := addRefuse_memFrame (h := h) (r := r) call
      exact .quiet rfl hmem hdl
  | scanned call r =>
    obtain ⟨sr, -, hx⟩ := of_seq hx
    cases call with
    | define type base size fresh =>
      obtain ⟨⟨linked, h1⟩, hlink, hx⟩ := of_seq hx
      obtain ⟨_, hok, hx⟩ := of_seq hx
      cases hx
      rcases insertLink_ok hlink with ⟨rfl, -⟩ | ⟨-, hmem, hdl⟩
      · exact absurd (hassert_ok.1 hok) nofun
      · exact .link hmem hdl
    | grant src type lo len =>
      split_ifs at hx
      · obtain ⟨h1, hresc, hx⟩ := of_seq hx
        cases hx
        obtain ⟨hmem, hdl⟩ := rescindFn_memFrame hresc
        exact .quiet rfl hmem hdl
      obtain ⟨⟨linked, h1⟩, hlink, hx⟩ := of_seq hx
      rcases insertLink_ok hlink with ⟨hno, hsame⟩ | ⟨hyes, hmem, hdl⟩
      · rw [hno, hsame] at hx
        obtain ⟨h2, hresc, hx⟩ := of_seq hx
        cases hx
        obtain ⟨hmem, hdl⟩ := rescindFn_memFrame hresc
        exact .quiet rfl hmem hdl
      · rw [hyes] at hx
        cases hx
        exact .link hmem hdl
  | linked call r =>
    obtain ⟨⟨rc, h1⟩, hown, hx⟩ := of_seq hx
    obtain ⟨hmem, hdl⟩ := insertOwn_ok hown
    cases call with
    | define type base size fresh =>
      obtain ⟨_, -, hx⟩ := of_seq hx
      cases hx
      exact .own rfl hmem hdl
    | grant src type lo len =>
      dsimp only at hx
      split_ifs at hx
      · cases hx
        exact .own rfl hmem hdl
      obtain ⟨h2, hresc, hx⟩ := of_seq hx
      cases hx
      obtain ⟨hmem', hdl'⟩ := rescindFn_memFrame hresc
      exact .own rfl (hmem.trans hmem') (hdl'.trans hdl)
  | inserted r fresh =>
    obtain ⟨⟨rc, a, h1⟩, haccept, hx⟩ := of_seq hx
    obtain ⟨_, -, hx⟩ := of_seq hx
    cases hx
    obtain ⟨hmem, hdl⟩ := acceptLockedResource_memFrame haccept
    exact .quiet rfl hmem hdl

theorem newLci_memFrame (lci : Lci) (parent : Option ResId) (type : ResType) :
    MemFrame h (newLci h lci parent type).2 where
  next := Nat.le_succ _
  lci := fun _ hc lci' hlci' =>
    ⟨lci', (update_of_ne hc.ne ..).symm.trans hlci', .refl lci'⟩
  res := fun _ hq sr' hsr' =>
    ⟨sr', (update_of_ne hq.ne ..).symm.trans hsr', rfl, rfl⟩

/-- The links with the cells of the next resource made. -/
def newCells (h : Hype) : Links DRef :=
  ((h.dl.init (.siblings h.next)).init (.children h.next)).init (.osRes h.next)

theorem addBegin_ok {call : Adding} {pc' : AddPc} (hx : addBegin h call = .ok (pc', h')) :
    MemFrame h h' ∧ (h'.dl = h.dl ∨ h'.dl = newCells h) ∧
      (pc'.res = none ∨ pc' = .made call h.next ∧ h.next < h'.next ∧ h'.dl = newCells h) := by
  cases call with
  | define type base size fresh =>
    simp only [addBegin] at hx
    split_ifs at hx
    · cases hx
      exact ⟨.refl h, .inl rfl, .inl rfl⟩
    · cases hx
      exact ⟨newLci_memFrame .., .inr rfl, .inr ⟨rfl, Nat.lt_succ_self _, rfl⟩⟩
  | grant src type lo len =>
    obtain ⟨os, -, hx⟩ := of_seq hx
    obtain ⟨_ | c, -, hx⟩ := of_seq hx
    · cases hx
      exact ⟨.refl h, .inl rfl, .inl rfl⟩
    obtain ⟨⟨err, nlci, h1⟩, hexp, hx⟩ := of_seq hx
    dsimp only at hx
    rcases exportFn_inv hexp with ⟨-, hnone, hsame, -⟩ | ⟨n, q, parent, hsome, -, hex⟩
    · rw [hnone, hsame] at hx
      split_ifs at hx
      · cases hx
        exact ⟨.refl h, .inl rfl, .inl rfl⟩
      · cases hx
    rw [hsome] at hx
    obtain ⟨sr, -, hstate⟩ := hex.state
    have hmem : MemFrame h h1 := hstate ▸ newLci_memFrame ..
    have hdl : h1.dl = newCells h := by rw [hstate]; rfl
    have hnext : h.next < h1.next := by rw [hstate]; exact Nat.lt_succ_self _
    split_ifs at hx
    · cases hx
      exact ⟨hmem, .inr hdl, .inl rfl⟩
    · cases hx
      rw [hex.id_eq]
      exact ⟨hmem, .inr hdl, .inr ⟨rfl, hnext, hdl⟩⟩

/-! ### Whole runs -/

/-- **The condition on a schedule.**  When a call scans the list, the end of its real range is a
word, and no other call is between its scan and its insertion with a range of the same type that
overlaps. -/
def AddOk (s : Adders) : AddAct → Prop
  | .call .. => True
  | .go i => ∀ call r, s.pc i = .made call r →
      (∀ lci, s.h.lci r = some lci → RealFits lci) ∧
        ∀ j q, j ≠ i → (s.pc j).pending = some q → Apart s.h q r

/-- The list of the partition is `rs`, without an overlap. -/
structure ListOk (h : Hype) (dest : OsId) (rs : List ResId) : Prop where
  ring : h.dl.IsRing (.poResources dest) (rs.map .osRes)
  separated : Separated h.dl
  old : ∀ r ∈ rs, r < h.next
  fits : ∀ r ∈ rs, ∀ lci, h.lci r = some lci → RealFits lci
  apart : ∀ r1 ∈ rs, ∀ r2 ∈ rs, r1 ≠ r2 → Apart h r1 r2

/-- What holds between the sections: the list has no overlap, and it will have none whatever is
inserted next. -/
structure AddInv (dest : OsId) (s : Adders) (rs : List ResId) : Prop extends
    ListOk s.h dest rs where
  new : ∀ i r, (s.pc i).res = some r → r < s.h.next ∧ r ∉ rs ∧ s.h.dl.IsRing (.osRes r) []
  distinct : ∀ i j r, (s.pc i).res = some r → (s.pc j).res = some r → i = j
  pendFits : ∀ i r, (s.pc i).pending = some r → ∀ lci, s.h.lci r = some lci → RealFits lci
  pendList : ∀ i r, (s.pc i).pending = some r → ∀ q ∈ rs, Apart s.h q r
  pendPend : ∀ i j q r, i ≠ j → (s.pc i).pending = some q → (s.pc j).pending = some r →
    Apart s.h q r

variable {pc : Nat → AddPc} {pc' : AddPc} {rs : List ResId} {i : Nat}

theorem ListOk.noOverlap (hl : ListOk h dest rs) : NoOverlap h dest := by
  rintro r1 r2 ⟨rs1, hr1, hm1⟩ ⟨rs2, hr2, hm2⟩ hne
  have hinj : Injective DRef.osRes := fun _ _ => DRef.osRes.inj
  have he1 : rs1 = rs := map_injective_iff.2 hinj (hr1.unique hl.ring)
  have he2 : rs2 = rs := map_injective_iff.2 hinj (hr2.unique hl.ring)
  exact hl.apart r1 (he1 ▸ hm1) r2 (he2 ▸ hm2) hne

theorem ListOk.inv (hl : ListOk h dest rs) : AddInv dest ⟨h, fun _ => .idle⟩ rs where
  __ := hl
  new := nofun
  distinct := nofun
  pendFits := nofun
  pendList := nofun
  pendPend := nofun

namespace AddInv

section

variable (hi : AddInv dest ⟨h, pc⟩ rs)
include hi

theorem keep (hf : MemFrame h h') (hring : h'.dl.IsRing (.poResources dest) (rs.map .osRes))
    (hsep : Separated h'.dl) (hlone : ∀ j q, (pc j).res = some q → h'.dl.IsRing (.osRes q) []) :
    AddInv dest ⟨h', pc⟩ rs where
  ring := hring
  separated := hsep
  old := fun q hq => (hi.old q hq).trans_le hf.next
  fits := fun q hq _ hlci => hf.fits (hi.old q hq) (hi.fits q hq) hlci
  apart := fun q hq q' hq' hne => hf.apart (hi.old q hq) (hi.old q' hq') (hi.apart q hq q' hq' hne)
  new := fun j q hq => ⟨(hi.new j q hq).1.trans_le hf.next, (hi.new j q hq).2.1, hlone j q hq⟩
  distinct := hi.distinct
  pendFits := fun j q hq _ hlci =>
    hf.fits (hi.new j q (res_of_pending hq)).1 (hi.pendFits j q hq) hlci
  pendList := fun j q hq q' hq' =>
    hf.apart (hi.old q' hq') (hi.new j q (res_of_pending hq)).1 (hi.pendList j q hq q' hq')
  pendPend := fun j k q q' hne hq hq' =>
    hf.apart (hi.new j q (res_of_pending hq)).1 (hi.new k q' (res_of_pending hq')).1
      (hi.pendPend j k q q' hne hq hq')

theorem frame (hf : MemFrame h h') (hdl : h'.dl = h.dl) : AddInv dest ⟨h', pc⟩ rs :=
  hi.keep hf (hdl ▸ hi.ring) (hdl ▸ hi.separated) fun j q hq => hdl ▸ (hi.new j q hq).2.2

/-- A thread goes on: the resource it works on is no other one's, and the one it is going to insert
overlaps with nothing. -/
theorem move (hres : ∀ q, pc'.res = some q →
      (q < h.next ∧ q ∉ rs ∧ h.dl.IsRing (.osRes q) []) ∧ ∀ j ≠ i, (pc j).res ≠ some q)
    (hpend : ∀ q, pc'.pending = some q → (∀ lci, h.lci q = some lci → RealFits lci) ∧
      (∀ p ∈ rs, Apart h p q) ∧ ∀ j p, j ≠ i → (pc j).pending = some p → Apart h p q) :
    AddInv dest ⟨h, update pc i pc'⟩ rs := by
  refine ⟨hi.toListOk, ?_, ?_, ?_, ?_, ?_⟩
  · intro j q hq
    rcases apply_update_eq.1 hq with ⟨-, hq⟩ | ⟨-, hq⟩
    · exact (hres q hq).1
    · exact hi.new j q hq
  · intro j k q hj hk
    rcases apply_update_eq.1 hj with ⟨hji, hj⟩ | ⟨hji, hj⟩ <;>
      rcases apply_update_eq.1 hk with ⟨hki, hk⟩ | ⟨hki, hk⟩
    · exact hji.trans hki.symm
    · exact absurd hk ((hres q hj).2 k hki)
    · exact absurd hj ((hres q hk).2 j hji)
    · exact hi.distinct j k q hj hk
  · intro j q hq
    rcases apply_update_eq.1 hq with ⟨-, hq⟩ | ⟨-, hq⟩
    · exact (hpend q hq).1
    · exact hi.pendFits j q hq
  · intro j q hq
    rcases apply_update_eq.1 hq with ⟨-, hq⟩ | ⟨-, hq⟩
    · exact (hpend q hq).2.1
    · exact hi.pendList j q hq
  · intro j k q q' hne hj hk
    rcases apply_update_eq.1 hj with ⟨hji, hj⟩ | ⟨hji, hj⟩ <;>
      rcases apply_update_eq.1 hk with ⟨hki, hk⟩ | ⟨hki, hk⟩
    · exact absurd (hji.trans hki.symm) hne
    · exact ((hpend q hj).2.2 k q' hki hk).symm
    · exact (hpend q' hk).2.2 j q hji hj
    · exact hi.pendPend j k q q' hne hj hk

theorem leave (hpc : pc'.res = none) : AddInv dest ⟨h, update pc i pc'⟩ rs :=
  hi.move (fun _ hq => nomatch hpc.symm.trans hq)
    fun _ hq => nomatch hpc.symm.trans (res_of_pending hq)

theorem held (hres : (pc i).res = some r) :
    (r < h.next ∧ r ∉ rs ∧ h.dl.IsRing (.osRes r) []) ∧ ∀ j ≠ i, (pc j).res ≠ some r :=
  ⟨hi.new i r hres, fun j hne hj => hne (hi.distinct j i r hj hres)⟩

theorem append (hf : MemFrame h h') (hdl : h'.dl = h.dl.insBefore (.osRes r) (.poResources dest))
    (hr : r < h.next) (hrs : r ∉ rs) (hlone : h.dl.IsRing (.osRes r) [])
    (hfresh : ∀ j, (pc j).res ≠ some r) (hfits : ∀ lci, h.lci r = some lci → RealFits lci)
    (hlist : ∀ q ∈ rs, Apart h q r) (hother : ∀ j q, (pc j).pending = some q → Apart h q r) :
    AddInv dest ⟨h', pc⟩ (rs ++ [r]) := by
  have hmem : ∀ {q}, q ∈ rs ++ [r] → q ∈ rs ∨ q = r := fun hq =>
    (mem_append.1 hq).imp_right mem_singleton.1
  have hold : ∀ q ∈ rs ++ [r], q < h.next := by
    intro q hq
    rcases hmem hq with hq | rfl
    · exact hi.old q hq
    · exact hr
  have hnot : .osRes r ∉ .poResources dest :: rs.map DRef.osRes :=
    fun hin => hrs (osRes_mem_iff.1 hin)
  refine ⟨⟨?_, ?_, fun q hq => (hold q hq).trans_le hf.next, ?_, ?_⟩, ?_, hi.distinct, ?_, ?_, ?_⟩
  · rw [hdl, map_append]
    exact hi.ring.insBefore_head hlone hnot
  · rw [hdl]
    exact hi.separated.insBefore rfl
  · intro q hq lci hlci
    apply hf.fits (hold q hq) _ hlci
    rcases hmem hq with hq | rfl
    · exact hi.fits q hq
    · exact hfits
  · intro q hq q' hq' hne
    apply hf.apart (hold q hq) (hold q' hq')
    rcases hmem hq with hqs | rfl
    · rcases hmem hq' with hqs' | rfl
      · exact hi.apart q hqs q' hqs' hne
      · exact hlist q hqs
    · rcases hmem hq' with hqs' | rfl
      · exact (hlist q' hqs').symm
      · exact absurd rfl hne
  · intro j q hq
    obtain ⟨hlt, hnew, hring⟩ := hi.new j q hq
    have hne : q ≠ r := fun he => hfresh j (he ▸ hq)
    refine ⟨hlt.trans_le hf.next, fun hin => (hmem hin).elim hnew hne, ?_⟩
    -- the cell of another thread is not on the list
    rw [hdl]
    apply hring.insBefore_of_notMem hlone hi.ring
    · simpa using Ne.symm hne
    · intro c hc hcq
      rw [mem_singleton.1 hcq] at hc
      exact hnew (osRes_mem_iff.1 hc)
  · intro j q hq lci hlci
    exact hf.fits (hi.new j q (res_of_pending hq)).1 (hi.pendFits j q hq) hlci
  · intro j q hq q' hq'
    apply hf.apart (hold q' hq') (hi.new j q (res_of_pending hq)).1
    rcases hmem hq' with hq' | rfl
    · exact hi.pendList j q hq q' hq'
    · exact (hother j q hq).symm
  · intro j k q q' hne hj hk
    exact hf.apart (hi.new j q (res_of_pending hj)).1
      (hi.new k q' (res_of_pending hk)).1 (hi.pendPend j k q q' hne hj hk)

theorem newCells (hf : MemFrame h h') (hdl : h'.dl = Rhype.newCells h) :
    AddInv dest ⟨h', pc⟩ rs := by
  have hring : ∀ {head : DRef} {cells : List DRef}, h.dl.IsRing head cells →
      .siblings h.next ∉ head :: cells → .children h.next ∉ head :: cells →
      .osRes h.next ∉ head :: cells → h'.dl.IsRing head cells := by
    intro head cells hr hs hc ho
    rw [hdl]
    exact ((hr.init_of_notMem hs).init_of_notMem hc).init_of_notMem ho
  apply hi.keep hf
  · apply hring hi.ring
    · simp
    · simp
    · intro hin
      exact (hi.old _ (osRes_mem_iff.1 hin)).ne rfl
  · rw [hdl]
    exact ((hi.separated.init _).init _).init _
  · intro j q hq
    obtain ⟨hlt, -, hlone⟩ := hi.new j q hq
    apply hring hlone
    · simp
    · simp
    · simpa using hlt.ne'

theorem effect (hok : AddOk ⟨h, pc⟩ (.go i)) (he : AddEffect dest h (pc i) pc' h') :
    ∃ rs', AddInv dest ⟨h', update pc i pc'⟩ rs' := by
  generalize hpc : pc i = pc0 at he
  cases he with
  | quiet hnone hmem hdl => exact ⟨rs, (hi.frame hmem hdl).leave hnone⟩
  | @scan call r hx =>
    have hres : (pc i).res = some r := by rw [hpc]; rfl
    obtain ⟨hfits, hother⟩ := hok call r hpc
    refine ⟨rs, hi.move ?_ ?_⟩ <;> rintro _ ⟨⟩
    · exact hi.held hres
    · exact ⟨hfits, resourceConflict_apart hi.ring hx hfits hi.fits, hother⟩
  | @link call r _ hmem hdl =>
    have hres : (pc i).res = some r := by rw [hpc]; rfl
    have hpend : (pc i).pending = some r := by rw [hpc]; rfl
    have hi' : AddInv dest ⟨h', pc⟩ rs := by
      rcases hdl with hdl | ⟨q, hdl⟩
      · exact hi.frame hmem hdl
      -- the new resource goes below its parent
      apply hi.keep hmem <;> rw [hdl]
      · exact hi.separated.ring_insBefore hi.ring ofList_of_mem nofun nofun
      · exact hi.separated.insBefore rfl
      · intro j p hp
        have hkind : ∀ c ∈ [DRef.osRes p], c.ofList = true := by
          intro c hc
          rw [mem_singleton.1 hc]
          rfl
        exact hi.separated.ring_insBefore (hi.new j p hp).2.2 hkind nofun nofun
    refine ⟨rs, hi'.move ?_ ?_⟩ <;> rintro _ ⟨⟩
    · exact hi'.held hres
    · exact ⟨hi'.pendFits i r hpend, hi'.pendList i r hpend,
        fun j q hne hq => hi'.pendPend j i q r hne hq hpend⟩
  | @own call r _ _ hnone hmem hdl =>
    have hres : (pc i).res = some r := by rw [hpc]; rfl
    have hpend : (pc i).pending = some r := by rw [hpc]; rfl
    obtain ⟨⟨hr, hrs, hlone⟩, hfresh⟩ := hi.held hres
    refine ⟨rs ++ [r], (hi.leave hnone).append hmem hdl hr hrs hlone ?_ (hi.pendFits i r hpend)
      (hi.pendList i r hpend) ?_⟩
    · intro j hj
      rcases apply_update_eq.1 hj with ⟨-, hj⟩ | ⟨hne, hj⟩
      · cases hnone.symm.trans hj
      · exact hfresh j hne hj
    · intro j q hq
      rcases apply_update_eq.1 hq with ⟨-, hq⟩ | ⟨hne, hq⟩
      · cases hnone.symm.trans (res_of_pending hq)
      · exact hi.pendPend j i q r hne hq hpend

end

/-- **One action keeps the invariant.** -/
theorem step {s s' : Adders} {act : AddAct} (hi : AddInv dest s rs) (hok : AddOk s act)
    (hx : addStep dest s act = .ok s') : ∃ rs', AddInv dest s' rs' := by
  obtain ⟨h, pc⟩ := s
  cases act with
  | go i =>
    obtain ⟨⟨pc', h'⟩, hsec, hx⟩ := of_seq hx
    cases hx
    exact hi.effect hok (addSection_effect hsec)
  | call i c =>
    simp only [addStep] at hx
    split at hx
    · next hidle =>
      obtain ⟨⟨pc', h'⟩, hbegin, hx⟩ := of_seq hx
      cases hx
      obtain ⟨hmem, hdl, hpc⟩ := addBegin_ok hbegin
      have hi' : AddInv dest ⟨h', pc⟩ rs := hdl.elim (hi.frame hmem) (hi.newCells hmem)
      rcases hpc with hnone | ⟨rfl, hlt, hcells⟩
      · exact ⟨rs, hi'.leave hnone⟩
      refine ⟨rs, hi'.move ?_ nofun⟩
      rintro _ ⟨⟩
      refine ⟨⟨hlt, fun hin => (hi.old _ hin).ne rfl, ?_⟩, fun j _ hj => (hi.new j _ hj).1.ne rfl⟩
      rw [hcells]
      exact Links.isRing_init ..
    · cases hx
      exact ⟨rs, hi⟩

end AddInv

end

/-- **No overlap in a partition.**  In every run of calls that define and grant memory to one
partition, under any schedule in which no scan overtakes the insertion of an overlapping range, the
partition never holds two live memory resources of one type that overlap. -/
theorem adders_noOverlap {dest : OsId} {h : Hype} {rs : List ResId} {acts : List AddAct}
    {s : Adders} (hstart : ListOk h dest rs)
    (hrun : Run (addStep dest) AddOk ⟨h, fun _ => .idle⟩ acts s) : NoOverlap s.h dest := by
  have hkeep : ∀ s act s', (∃ rs, AddInv dest s rs) → AddOk s act → addStep dest s act = .ok s' →
      ∃ rs, AddInv dest s' rs := fun _ _ _ ⟨_, hi⟩ hok hx => hi.step hok hx
  obtain ⟨_, hi⟩ := hrun.invariant hkeep ⟨rs, hstart.inv⟩
  exact hi.toListOk.noOverlap

/-- `define_mem` of 64 MiB. -/
def oneMem : Adding := .define .memAddr 0x10000000 0x4000000 clearedPsm

theorem listOk_twoPartitions : ListOk twoPartitions 0 [] where
  ring := Links.isRing_nil_iff.2 ⟨rfl, rfl⟩
  separated := fun _ => ⟨rfl, rfl⟩
  old := nofun
  fits := nofun
  apart := nofun

theorem addOk_of_not_made {s : Adders} {i : Nat} (hpc : ∀ call r, s.pc i ≠ .made call r) :
    AddOk s (.go i) := fun call r hmade => absurd hmade (hpc call r)

theorem addOk_of_quiet {s : Adders} {i : Nat} {call : Adding} {r : ResId} {lci : Lci}
    (hpc : s.pc i = .made call r) (hlci : s.h.lci r = some lci) (hfits : RealFits lci)
    (hquiet : ∀ j, (s.pc j).pending = none) : AddOk s (.go i) := by
  intro call' r' hmade
  cases hpc.symm.trans hmade
  refine ⟨fun lci' hlci' => ?_, fun j q _ hq => absurd ((hquiet j).symm.trans hq) nofun⟩
  cases hlci.symm.trans hlci'
  exact hfits

/-- Two calls for the same memory, one after the other: the second one is refused. -/
theorem adders_noOverlap_refused :
    ∃ s, Run (addStep 0) AddOk ⟨twoPartitions, fun _ => .idle⟩
        [.call 0 oneMem, .go 0, .go 0, .go 0, .call 1 oneMem, .go 1] s ∧
      OnList s.h 0 0 ∧ NoOverlap s.h 0 := by
  have hfits : RealFits (physMemLciInit 0x10000000 0x4000000) := by
    show (0x10000000 + 0x4000000 : Nat) < 2 ^ 64
    decide
  obtain ⟨s, hs, hring⟩ : ∃ s, Run (addStep 0) AddOk ⟨twoPartitions, fun _ => .idle⟩
        [.call 0 oneMem, .go 0, .go 0, .go 0, .call 1 oneMem, .go 1] s ∧
      s.h.dl.IsRing (.poResources 0) ([0].map .osRes) := by
    refine ⟨_, .cons trivial rfl (.cons ?_ rfl (.cons ?_ rfl (.cons ?_ rfl (.cons trivial rfl
      (.cons ?_ rfl (.nil _)))))), by decide, ⟨rfl, rfl⟩, rfl, rfl⟩
    · refine addOk_of_quiet rfl rfl hfits fun j => ?_
      match j with
      | 0 => rfl
      | _ + 1 => rfl
    · exact addOk_of_not_made nofun
    · exact addOk_of_not_made nofun
    · refine addOk_of_quiet rfl rfl hfits fun j => ?_
      match j with
      | 0 => rfl
      | 1 => rfl
      | _ + 2 => rfl
  exact ⟨s, hs, ⟨[0], hring, by decide⟩, adders_noOverlap listOk_twoPartitions hs⟩

/-- Two calls for the same memory that both scan before they insert. -/
theorem adders_overlap :
    ¬ ∀ (dest : OsId) (h : Hype) (rs : List ResId) (acts : List AddAct) (s : Adders),
      ListOk h dest rs → Run (addStep dest) (fun _ _ => True) ⟨h, fun _ => .idle⟩ acts s →
        NoOverlap s.h dest := by
  intro hall
  let mem := physMemLciInit 0x10000000 0x4000000
  obtain ⟨s, hs, hring, hlive0, hlive1⟩ : ∃ s,
      [.call 0 oneMem, .call 1 oneMem, .go 0, .go 1, .go 0, .go 0, .go 1, .go 1].foldlM
        (addStep 0) ⟨twoPartitions, fun _ => .idle⟩ = .ok s ∧
      s.h.dl.IsRing (.poResources 0) ([0, 1].map .osRes) ∧
      LiveMem s.h .memAddr 0 mem ∧ LiveMem s.h .memAddr 1 mem :=
    ⟨_, rfl, ⟨by decide, ⟨rfl, rfl⟩, ⟨rfl, rfl⟩, rfl, rfl⟩, ⟨rfl, _, rfl, rfl, rfl⟩,
      rfl, _, rfl, rfl, rfl⟩
  have hin : mem.HasReal 0x10000000 := by
    show 0x10000000 ≤ 0x10000000 ∧ 0x10000000 < 0x10000000 + 0x4000000
    decide
  have hno := hall 0 twoPartitions [] _ s listOk_twoPartitions
    (.of_foldlM (fun _ _ _ => trivial) hs)
  exact hno 0 1 ⟨_, hring, by decide⟩ ⟨_, hring, by decide⟩ (by decide) .memAddr mem mem hlive0
    hlive1 ⟨0x10000000, hin, hin⟩

end Rhype
