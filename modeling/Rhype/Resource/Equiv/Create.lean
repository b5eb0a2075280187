import Rhype.Resource.Create
import Rhype.Resource.Equiv.AcceptFrame
import Rhype.Resource.Equiv.MapFrame

/-!
# What is left of a partition that could not be created

`h_create_partition` frees the new partition when a step fails, but nothing takes the donated
memory back.  `Undone` says that a failed call leaves no trace.  That is so exactly when the grant
itself is refused (`createPartition_undone_iff`): once the resource is in the list of the new
partition, the refusal of the accept and that of `arch_os_init` leave it there.
-/

namespace Rhype

open Function

/-! ### When a grant is refused -/

/-- The grant of the range is not refused: a chunk takes it, the size is not taken for an error
code, and the resource of the chunk is not rescinded. -/
def Granted (h : Hype) (src : OsId) (a size : Uval) : Prop :=
  ∃ os c q parent sr, h.os src = some os ∧ laddrToLci os a = .ok (some c) ∧
    Takes h c a size q parent ∧ 0 ≤ size.toInt ∧ h.res q = some sr ∧ sr.srRescinded = false

section

variable {h : Hype} {c q q' : LciId} {a size : Uval} {parent parent' : Lci}

theorem Takes.unique (ht : Takes h c a size q parent) (ht' : Takes h c a size q' parent') :
    q = q' := by
  rcases ht with ⟨rfl, hlci, hops, -⟩ | ⟨psmLci, psm, hl, hops, hpsm, hentry, -⟩ <;>
  rcases ht' with ⟨rfl, hlci', hops', -⟩ | ⟨psmLci', psm', hl', hops', hpsm', hentry', -⟩
  · rfl
  · cases hlci.symm.trans hl'
    cases hops.symm.trans hops'
  · cases hl.symm.trans hlci'
    cases hops.symm.trans hops'
  cases hl.symm.trans hl'
  cases hpsm.symm.trans hpsm'
  cases hentry.symm.trans hentry'
  rfl

/-! ### What a grant changes -/

/-- The cells of resource `r`. -/
def OfRes (r : ResId) (d : DRef) : Prop := d = .siblings r ∨ d = .children r ∨ d = .osRes r

/-- Nothing has changed but the object with the next number, which belongs to no partition. -/
structure OnlyNew (h h' : Hype) : Prop where
  os : h'.os = h.os
  psm : h'.psm = h.psm
  res : ∀ r, r ≠ h.next → h'.res r = h.res r
  lci : ∀ c, c ≠ h.next → h'.lci c = h.lci c
  links : ∀ d, ¬ OfRes h.next d → h'.dl.next d = h.dl.next d ∧ h'.dl.prev d = h.dl.prev d
  owner : ∀ sr, h'.res h.next = some sr → sr.srOwner = none
  lciOs : ∀ lci, h'.lci h.next = some lci → lci.lciOs = none

variable {h' : Hype} {src dest : OsId} {type : MemType} {err rc : Sval} {n : LciId}
  {sr : Option ResId}

theorem OnlyNew.refl (hres : h.res h.next = none) (hlci : h.lci h.next = none) : OnlyNew h h :=
  ⟨rfl, rfl, fun _ _ => rfl, fun _ _ => rfl, fun _ _ => ⟨rfl, rfl⟩,
    fun _ hs => absurd (hres.symm.trans hs) nofun, fun _ hl => absurd (hlci.symm.trans hl) nofun⟩

theorem OnlyNew.defer {node : RcuNode} (ho : OnlyNew h h') : OnlyNew h (h'.rcuDefer node) :=
  ⟨ho.os, ho.psm, ho.res, ho.lci, ho.links, ho.owner, ho.lciOs⟩

theorem init_links {L : Links DRef} {e d : DRef} (hd : d ≠ e) :
    (L.init e).next d = L.next d ∧ (L.init e).prev d = L.prev d := by
  simp [Links.init, hd]

theorem Exported.onlyNew (hex : Exported h q parent a size rc n h') : OnlyNew h h' := by
  obtain ⟨sr, -, rfl⟩ := hex.state
  refine ⟨rfl, rfl, fun r hr => update_of_ne hr ..,
    fun c hc => update_of_ne hc .., fun d hd => ?_, fun s hs => ?_, fun l hl => ?_⟩
  · simp only [OfRes, not_or] at hd
    obtain ⟨h1, h2, h3⟩ := hd
    have e1 := @init_links h.dl _ _ h1
    have e2 := @init_links (h.dl.init (.siblings h.next)) _ _ h2
    have e3 := @init_links ((h.dl.init (.siblings h.next)).init (.children h.next)) _ _ h3
    exact ⟨e3.1.trans (e2.1.trans e1.1), e3.2.trans (e2.2.trans e1.2)⟩
  · cases (update_self ..).symm.trans hs
    rfl
  · cases (update_self ..).symm.trans hl
    rfl

theorem resourceConflict_empty {r : ResId}
    (hempty : h.dl.next (.poResources dest) = .poResources dest)
    (hx : resourceConflict h dest r = .ok err) : err = hSuccess := by
  obtain ⟨os, -, hx⟩ := of_seq hx
  obtain ⟨sr, -, hx⟩ := of_seq hx
  obtain ⟨found, hfind, hx⟩ := of_seq hx
  rw [hempty] at hfind
  unfold findRes at hfind
  rw [if_pos rfl] at hfind
  cases hfind
  cases hx
  rfl

theorem memGrant_cases {res : Option ResId} (hnone : h.res h.next = none)
    (hlnone : h.lci h.next = none) (hempty : h.dl.next (.poResources dest) = .poResources dest)
    (hx : memGrant h src a size dest = .ok (err, res, h')) :
    (¬ Granted h src a size ∧ err < 0 ∧ OnlyNew h h') ∨
      err = hSuccess ∧ ∃ os c q parent n, h.os src = some os ∧ laddrToLci os a = .ok (some c) ∧
        Takes h c a size q parent ∧ 0 ≤ size.toInt ∧ Exported h q parent a size size.toInt n h' ∧
        res = some n := by
  obtain hno | ⟨hos, hlook, ht, hex, ⟨hneg, rfl, -, rfl⟩ | ⟨hsize, hconf, hend⟩⟩ := memGrant_end hx
  · refine .inl ⟨?_, by decide, .refl hnone hlnone⟩
    rintro ⟨os, c, q, parent, sr, hos, hlook, ht, -⟩
    exact hno os c q parent hos hlook ht
  · refine .inl ⟨?_, hneg, hex.onlyNew⟩
    rintro ⟨os, c, q, parent, sr, -, -, -, hsize, -⟩
    exact absurd hsize (not_le.2 hneg)
  have hempty1 := (hex.onlyNew.links (.poResources dest) (by simp [OfRes])).1.trans hempty
  cases resourceConflict_empty hempty1 hconf
  rcases hend with ⟨hne, -⟩ | ⟨-, rfl, rfl⟩
  · exact absurd rfl hne
  · exact .inr ⟨rfl, _, _, _, _, _, hos, hlook, ht, hsize, hex, rfl⟩

/-- **A grant to a partition without resources**: it is refused and leaves nothing behind, or the
new resource is on the list of the partition. -/
theorem grantResourceSr_cases (hnone : h.res h.next = none)
    (hlnone : h.lci h.next = none) (hempty : h.dl.next (.poResources dest) = .poResources dest)
    (hx : grantResourceSr h src type a size dest = .ok (err, sr, h')) :
    (¬ Granted h src a size ∧ err < 0 ∧ OnlyNew h h') ∨
      Granted h src a size ∧ h'.next = h.next + 1 ∧ (∀ r, sr = some r → r = h.next) ∧
        ∃ s, h'.res h.next = some s ∧ s.srOwner = some dest := by
  obtain ⟨⟨e, res, h1⟩, hgrant, hx⟩ := of_seq hx
  dsimp only at hx
  rcases memGrant_cases hnone hlnone hempty hgrant with ⟨hno, hneg, honly⟩ |
    ⟨rfl, os, c, q, parent, n, hos, hlook, ht, hsize, hex, rfl⟩
  · have hne : e ≠ hSuccess := by
      rintro rfl
      cases hneg
    rw [if_pos hne] at hx
    cases hx
    exact .inl ⟨hno, hneg, honly⟩
  obtain ⟨r, hr, hx⟩ := of_seq hx
  cases nonNull_ok.1 hr
  obtain ⟨sr1, hsr1, hx⟩ := of_live hx
  have honly := hex.onlyNew
  obtain ⟨srq, hq, hh1⟩ := hex.state
  have hqne : q ≠ h.next := by
    rintro rfl
    cases hnone.symm.trans hq
  have hn := hex.id_eq
  subst hn
  -- the new resource: not marked, without an owner, with the parent `q`
  have hnew : h1.res h.next = some
      { srCookie := 0, srType := srq.srType, srMapped := false, srRescinded := false
        srOwner := none, srParent := some q } := by
    rw [hh1]
    exact update_self ..
  have hnext : h1.next = h.next + 1 := by
    rw [hh1]
    rfl
  cases hnew.symm.trans hsr1
  obtain ⟨⟨e', h2⟩, hins, hx⟩ := of_seq hx
  rw [insertResource_eq] at hins
  obtain ⟨sr2, hsr2, hins⟩ := of_live hins
  cases hnew.symm.trans hsr2
  obtain ⟨srq', hq', hins⟩ := of_live hins
  rw [honly.res q hqne] at hq'
  cases hq.symm.trans hq'
  split_ifs at hins with hresc
  · -- the parent is rescinded: the new chunk is destroyed
    cases hins
    dsimp only at hx
    obtain ⟨h3, hdestroy, hx⟩ := of_seq hx
    cases hx
    obtain ⟨_, -, hdestroy⟩ := of_seq hdestroy
    cases hdestroy
    refine .inl ⟨?_, by decide, honly.defer⟩
    rintro ⟨os', c', q', parent', sr', hos', hlook', ht', -, hq', hnot⟩
    cases hos.symm.trans hos'
    cases hlook.symm.trans hlook'
    cases ht.unique ht'
    cases hq.symm.trans hq'
    cases hresc.symm.trans hnot
  · have hg : Granted h src a size :=
      ⟨os, c, q, parent, srq, hos, hlook, ht, hsize, hq, by simpa using hresc⟩
    cases hins
    split_ifs at hx with hpos
    · cases hx
      refine .inr ⟨hg, hnext, fun r hr => (Option.some.inj hr).symm, _, update_self .., rfl⟩
    obtain ⟨h3, hdestroy, hx⟩ := of_seq hx
    cases hx
    obtain ⟨_, -, hdestroy⟩ := of_seq hdestroy
    cases hdestroy
    exact .inr ⟨hg, hnext, nofun, _, update_self .., rfl⟩

theorem grantResourceSr_res (hx : grantResourceSr h src type a size dest = .ok (err, sr, h'))
    (r : ResId) (hr : r ≠ h.next) : h'.res r = h.res r := by
  obtain ⟨⟨e, res, h1⟩, hgrant, hx⟩ := of_seq hx
  have hmem : h1.res r = h.res r ∧ ∀ n, res = some n → n = h.next := by
    obtain _ | ⟨-, -, -, hex, hend⟩ := memGrant_end hgrant
    · exact ⟨rfl, nofun⟩
    have hsame := hex.onlyNew.res r hr
    rcases hend with ⟨-, -, rfl, rfl⟩ | ⟨-, -, ⟨-, rfl, rfl⟩ | ⟨-, rfl, rfl⟩⟩
    · exact ⟨hsame, nofun⟩
    · exact ⟨hsame, nofun⟩
    · exact ⟨hsame, fun n hn => (Option.some.inj hn).symm.trans hex.id_eq⟩
  have hdestroy : ∀ {h2 h3 : Hype} {n : ResId}, rescindFn h2 (.mem type) n = .ok h3 →
      h3.res r = h2.res r := by
    intro h2 h3 n hd
    obtain ⟨_, -, hd⟩ := of_seq hd
    cases hd
    rfl
  dsimp only at hx
  split_ifs at hx with herr
  · cases hx
    exact hmem.1
  obtain ⟨n, hn, hx⟩ := of_seq hx
  have hn := hmem.2 n (nonNull_ok.1 hn)
  obtain ⟨sr1, -, hx⟩ := of_seq hx
  split_ifs at hx
  · obtain ⟨h2, hd, hx⟩ := of_seq hx
    cases hx
    exact (hdestroy hd).trans hmem.1
  obtain ⟨⟨e', h2⟩, hins, hx⟩ := of_seq hx
  have hins' : h2.res r = h1.res r := by
    rcases insertResource_ok hins with ⟨-, rfl⟩ | ⟨sr', L, -, -, -, rfl⟩
    · rfl
    · exact update_of_ne (hn ▸ hr) ..
  split_ifs at hx
  · cases hx
    exact hins'.trans hmem.1
  · obtain ⟨h3, hd, hx⟩ := of_seq hx
    cases hx
    exact (hdestroy hd).trans (hins'.trans hmem.1)

/-! ### The transfer -/

variable {h' : Hype} {caller o : OsId} {r : ResId} {fresh : FreshPsm}

theorem accept_owner {rc : Sval} {vio : Sval × Uval} {q : ResId} {s : SysResource}
    (hx : acceptLockedResource h r fresh vio = .ok (rc, a, h')) (hq : h.res q = some s) :
    h.next ≤ h'.next ∧ ∃ s', h'.res q = some s' ∧ s'.srOwner = s.srOwner := by
  obtain ⟨sr, h1, -, haccept, hend⟩ := acceptLockedResource_ok hx
  have hframe := acceptFn_frame haccept
  have hsame := hframe.res
  have hnext := hframe.next
  rcases hend with ⟨-, rfl⟩ | ⟨-, sr1, hsr1, rfl⟩
  · exact ⟨hnext, s, by rw [hsame, hq], rfl⟩
  refine ⟨hnext, ?_⟩
  rcases eq_or_ne q r with rfl | hne
  · rw [hsame] at hsr1
    cases hq.symm.trans hsr1
    exact ⟨_, Hype.setRes_res_self .., rfl⟩
  · exact ⟨s, by rw [Hype.setRes_res_of_ne _ _ _ hne, hsame, hq], rfl⟩

/-- **A transfer to a partition without resources**: the grant is refused and leaves nothing behind,
or the new resource is the partition's from then on. -/
theorem resourceTransfer_cases {type : MemType} {ret : HcallRet} (hnone : h.res h.next = none)
    (hlnone : h.lci h.next = none) (hempty : h.dl.next (.poResources o) = .poResources o)
    (hx : resourceTransfer h caller type a size o fresh = .ok (ret, h')) :
    (¬ Granted h caller a size ∧ ret.rc ≠ hSuccess ∧ OnlyNew h h') ∨
      Granted h caller a size ∧ ∃ s, h'.res h.next = some s ∧ s.srOwner = some o := by
  obtain ⟨⟨rc, sr, h1⟩, hgrant, hx⟩ := of_seq hx
  dsimp only at hx
  rcases grantResourceSr_cases hnone hlnone hempty hgrant with ⟨hno, hneg, honly⟩ |
    ⟨hg, hnext, hsr, s, hs, hown⟩
  · rw [if_neg (not_le.2 hneg)] at hx
    cases hx
    exact .inl ⟨hno, by decide, honly⟩
  refine .inr ⟨hg, ?_⟩
  split_ifs at hx
  · obtain ⟨r, hr, hx⟩ := of_seq hx
    obtain ⟨⟨rc', ret', h2⟩, haccept, hx⟩ := of_seq hx
    obtain ⟨hle, s', hs', hown'⟩ := accept_owner haccept hs
    split_ifs at hx
    · cases hx
      exact ⟨s', hs', hown'.trans hown⟩
    -- the memory is granted back, as a resource of its own
    obtain ⟨⟨rc'', sr'', h3⟩, hback, hx⟩ := of_seq hx
    obtain ⟨_, -, hx⟩ := of_seq hx
    cases hx
    have hold : h.next < h2.next := by omega
    exact ⟨s', (grantResourceSr_res hback h.next hold.ne).trans hs', hown'.trans hown⟩
  · cases hx
    exact ⟨s, hs, hown⟩

end

/-! ### The call -/

section

variable {h h' : Hype} {caller o : OsId} {lpid a size pinfo : Uval}
  {info : Fin 2 → LargePageSize} {fresh : FreshPsm} {ret : HcallRet}

/-- The number `o` is not used yet, and neither is the next number of an object. -/
structure Unused (h : Hype) (caller o : OsId) : Prop where
  os : h.os o = none
  caller : caller ≠ o
  owner : ∀ r sr, h.res r = some sr → sr.srOwner ≠ some o
  lciOs : ∀ c lci, h.lci c = some lci → lci.lciOs ≠ some o
  res : h.res h.next = none
  lci : h.lci h.next = none

/-- The cells of the lists that were there before. -/
def OldCell (h : Hype) (o : OsId) (d : DRef) : Prop := d ≠ .poResources o ∧ ¬ OfRes h.next d

/-- **A failed call leaves no trace**: nothing is owned by or mapped in the partition that was
freed, and the resources, their lists, the chunks and the maps of the other partitions are as they
were. -/
structure Undone (h h' : Hype) (o : OsId) : Prop where
  freed : h'.os o = none
  owner : ∀ r sr, h'.res r = some sr → sr.srOwner ≠ some o
  lciOs : ∀ c lci, h'.lci c = some lci → lci.lciOs ≠ some o
  os : ∀ o', o' ≠ o → h'.os o' = h.os o'
  psm : h'.psm = h.psm
  res : ∀ r, r ≠ h.next → h'.res r = h.res r
  lci : ∀ c, c ≠ h.next → h'.lci c = h.lci c
  links : ∀ d, OldCell h o d → h'.dl.next d = h.dl.next d ∧ h'.dl.prev d = h.dl.prev d

theorem createOs_os_of_ne {o' : OsId} (ho : o' ≠ o) : (createOs h o).os o' = h.os o' :=
  update_of_ne ho ..

theorem granted_createOs (hne : caller ≠ o) :
    Granted (createOs h o) caller a size ↔ Granted h caller a size := by
  have htakes : ∀ c q parent,
      Takes (createOs h o) c a size q parent ↔ Takes h c a size q parent := by
    intro c q parent
    constructor
    all_goals
      rintro (⟨h1, h2, h3, h4⟩ | ⟨l, p, h1, h2, h3, h4, h5, h6, h7⟩)
      · exact .direct h1 h2 h3 h4
      · exact .shared l p h1 h2 h3 h4 h5 h6 h7
  have hres : (createOs h o).res = h.res := rfl
  simp only [Granted, htakes, createOs_os_of_ne hne, hres]

theorem archOsInit_res {rc : Sval} (hx : archOsInit h o pinfo info = .ok (rc, h')) :
    h'.res = h.res := by
  obtain ⟨os, -, hx⟩ := of_seq hx
  obtain ⟨oc, -, hx⟩ := of_seq hx
  obtain ⟨c, -, hx⟩ := of_seq hx
  obtain ⟨lci, -, hx⟩ := of_seq hx
  obtain ⟨basemem, -, hx⟩ := of_seq hx
  split_ifs at hx <;> cases hx <;> rfl

theorem osFree_res (hx : osFree h o = .ok h') : h'.res = h.res := by
  obtain ⟨os, -, hx⟩ := of_seq hx
  cases hx
  cases os.poPsm <;> rfl

theorem undone_of_refused {h1 : Hype} (hnew : Unused h caller o) (honly : OnlyNew (createOs h o) h1)
    (hx : osFree h1 o = .ok h') : Undone h h' o := by
  have hos1 : h1.os o = some (osCreate noHtab fun _ => .invalid) := by
    rw [honly.os]
    exact Hype.setOs_os_self ..
  obtain ⟨os, hos, hx⟩ := of_live hx
  cases hos1.symm.trans hos
  cases hx
  have hres : ∀ r, r ≠ h.next → h1.res r = h.res r := honly.res
  have hlci : ∀ c, c ≠ h.next → h1.lci c = h.lci c := honly.lci
  refine ⟨update_self .., fun r sr hsr => ?_, fun c lci hl => ?_, fun o' ho' => ?_,
    honly.psm, hres, hlci, fun d hd => ?_⟩
  · rcases eq_or_ne r h.next with rfl | hne
    · rw [honly.owner sr hsr]
      exact nofun
    · exact hnew.owner r sr ((hres r hne).symm.trans hsr)
  · rcases eq_or_ne c h.next with rfl | hne
    · rw [honly.lciOs lci hl]
      exact nofun
    · exact hnew.lciOs c lci ((hlci c hne).symm.trans hl)
  · refine (update_of_ne ho' ..).trans ?_
    dsimp only [osCreate]
    rw [honly.os]
    exact createOs_os_of_ne ho'
  · have h1 := honly.links d hd.2
    have h2 := @init_links h.dl _ _ hd.1
    exact ⟨h1.1.trans h2.1, h1.2.trans h2.2⟩

/-- **A call that returns an error is undone exactly when the grant was refused.** -/
theorem createPartition_undone_iff (hnew : Unused h caller o)
    (hx : hCreatePartition h caller o lpid a size pinfo info fresh = .ok (ret, h'))
    (herr : ret.rc ≠ hSuccess) : Undone h h' o ↔ ¬ Granted h caller a size := by
  obtain ⟨⟨ret1, h1⟩, htransfer, hx⟩ := of_seq hx
  obtain ⟨⟨rc, h2⟩, hinit, hx⟩ := of_seq hx
  have hempty : (createOs h o).dl.next (.poResources o) = .poResources o := by
    simp [createOs, Links.init]
  dsimp only [initCreated] at hinit hx
  have hne : rc ≠ hSuccess := by
    rintro rfl
    cases hx
    exact herr rfl
  rw [if_neg hne] at hx
  obtain ⟨h3, hfree, hx⟩ := of_seq hx
  cases hx
  rw [← granted_createOs hnew.caller]
  rcases resourceTransfer_cases (h := createOs h o) hnew.res hnew.lci hempty htransfer with
    ⟨hno, hrc, honly⟩ | ⟨hg, s, hs, hown⟩
  · rw [if_neg hrc] at hinit
    cases hinit
    exact iff_of_true (undone_of_refused hnew honly hfree) hno
  -- the resource of the donated memory is still there, and the freed partition owns it
  have hsame : h2.res = h1.res := by
    split_ifs at hinit
    · exact archOsInit_res hinit
    · cases hinit
      rfl
  refine iff_of_false (fun hu => ?_) (not_not.2 hg)
  exact hu.owner _ s (by rw [osFree_res hfree, hsame, hs]) hown

theorem unused_oneChunk : Unused (oneChunk 0) 0 2 where
  os := rfl
  caller := by decide
  owner r sr hsr := by
    rcases eq_or_ne r 0 with rfl | hne
    · cases hsr
      exact nofun
    · cases (update_of_ne hne _ _).symm.trans hsr
  lciOs c lci hl := by
    rcases eq_or_ne c 0 with rfl | hne
    · cases hl
      exact nofun
    · cases (update_of_ne hne _ _).symm.trans hl
  res := rfl
  lci := rfl

/-- A call that donates an address without memory is undone. -/
theorem createPartition_undone_iff_empty :
    ∃ h', hCreatePartition (oneChunk 0) 0 2 2 0x4000000 0x4000000 invalidLogicalAddress
        defaultPages clearedPsm = .ok (⟨hParameter, []⟩, h') ∧ Undone (oneChunk 0) h' 2 := by
  have hrefused : ¬ Granted (oneChunk 0) 0 0x4000000 0x4000000 := by
    rintro ⟨os, c, q, parent, sr, hos, hlook, -⟩
    cases hos
    cases hlook
  obtain ⟨h', hx⟩ : ∃ h', hCreatePartition (oneChunk 0) 0 2 2 0x4000000 0x4000000
      invalidLogicalAddress defaultPages clearedPsm = .ok (⟨hParameter, []⟩, h') := ⟨_, rfl⟩
  exact ⟨h', hx, (createPartition_undone_iff unused_oneChunk hx (by decide)).2 hrefused⟩

/-- A call that donates 48 MiB fails in `arch_os_init`, and the partition that is freed still owns
the memory. -/
theorem createPartition_leaves_resource :
    ¬ ∀ (h h' : Hype) (caller o : OsId) (lpid a size pinfo : Uval) (info : Fin 2 → LargePageSize)
        (fresh : FreshPsm) (ret : HcallRet), Unused h caller o →
      hCreatePartition h caller o lpid a size pinfo info fresh = .ok (ret, h') →
      ret.rc ≠ hSuccess → Undone h h' o := by
  intro hall
  obtain ⟨h', hx, sr, hsr, hown⟩ : ∃ h', hCreatePartition (oneChunk 0) 0 2 2 0 0x3000000
      invalidLogicalAddress defaultPages clearedPsm = .ok (⟨hParameter, [(4, 0)]⟩, h') ∧
      ∃ sr, h'.res 1 = some sr ∧ sr.srOwner = some 2 := ⟨_, rfl, _, rfl, rfl⟩
  have hu := hall _ h' _ _ _ _ _ _ _ _ _ unused_oneChunk hx (by decide)
  exact hu.owner 1 sr hsr hown

end

end Rhype
