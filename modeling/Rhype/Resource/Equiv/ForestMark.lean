import Rhype.Resource.Equiv.Mark
import Rhype.Resource.Equiv.Tree

/-!
# The forest after the first phase of a rescind

`forced_rescind_mark` turns a forest of resources into a forest: the resources that it has met have
no children any more, and their children that it avoids have become roots.  The lists of the
partitions are as before.  `MarkedForest` is all that the death of a partition needs of it, and
`forcedRescindMark_forest` proves it; the step is `takeChild_forest`.
-/

namespace Rhype

open Function List Option

/-! ### The lists of the partitions -/

/-- The cells of the lists of the partitions have the same links. -/
def SameLists (L L' : Links DRef) : Prop :=
  ∀ d, d.ofList = true → L'.next d = L.next d ∧ L'.prev d = L.prev d

namespace SameLists

variable {L L' L'' : Links DRef} {x d : DRef}

theorem refl (L : Links DRef) : SameLists L L := fun _ _ => ⟨rfl, rfl⟩

theorem trans (h1 : SameLists L L') (h2 : SameLists L' L'') : SameLists L L'' := by
  intro e he
  exact ⟨((h2 e he).1).trans (h1 e he).1, ((h2 e he).2).trans (h1 e he).2⟩

theorem ne_of_ofList (hd : d.ofList = true) (hx : x.ofList = false) : d ≠ x := by
  rintro rfl
  cases hd.symm.trans hx

theorem detach (hs : Separated L) (hx : x.ofList = false) : SameLists L (L.detach x) := by
  intro e he
  exact hs.detach_of_ne (by rw [he, hx]; exact nofun)

theorem init (hx : x.ofList = false) : SameLists L (L.init x) := by
  intro e he
  have hne : e ≠ x := ne_of_ofList he hx
  simp [Links.init, hne]

theorem insBefore (hs : Separated L) (hx : x.ofList = false) (hd : d.ofList = false) :
    SameLists L (L.insBefore x d) := by
  intro e he
  have hex : e ≠ x := ne_of_ofList he hx
  have hed : e ≠ d := ne_of_ofList he hd
  have hexp : e ≠ L.prev x := ne_of_ofList he ((hs x).2.trans hx)
  have hedp : e ≠ L.prev d := ne_of_ofList he ((hs d).2.trans hd)
  simp [Links.insBefore, hex, hed, hexp, hedp]

theorem ring {o : OsId} {rs : List ResId} (hl : SameLists L L')
    (hr : L.IsRing (.poResources o) (rs.map .osRes)) :
    L'.IsRing (.poResources o) (rs.map .osRes) := by
  refine hr.congr ?_ ?_
  · exact fun c hc => (hl c (ofList_of_mem c hc)).1
  · exact fun c hc => (hl c (ofList_of_mem c hc)).2

end SameLists

section

variable {h h' : Hype} {ra : ResType} {avoid : Option OsId} {x : ResId} {t fuel : Nat}

theorem childLoop_lists (hx : childLoop ra (.todo t) avoid x fuel h = .ok h')
    (hs : Separated h.dl) : Separated h'.dl ∧ SameLists h.dl h'.dl := by
  apply childLoop_induct (Q := fun h1 => Separated h1.dl ∧ SameLists h.dl h1.dl) hx ⟨hs, .refl _⟩
  intro h1 h2 c hs1 _ htake
  apply takeChild_links (P := fun L => Separated L ∧ SameLists h.dl L) htake hs1
  · rintro L ⟨hL, hsame⟩
    refine ⟨(hL.detach _).init _, hsame.trans ?_⟩
    exact (SameLists.detach hL rfl).trans (.init rfl)
  · rintro L ⟨hL, hsame⟩
    exact ⟨hL.insBefore rfl, hsame.trans (.insBefore hL rfl rfl)⟩

/-! ### The forest -/

variable {h0 : Hype} {kids ks : ResId → List ResId} {pre pre' order : List ResId} {c : ResId}

/-- **One resource is taken from its place.**  The others stay where they are. -/
theorem Forest.take_one (hf : Forest h kids t pre) (hframe : MarkFrame h h')
    (hres : ∀ r, r ≠ c → h'.res r = h.res r) (hr : Rings h'.dl h.IsLive ks t pre')
    (hsub : ∀ y r, h.IsLive y → r ∈ ks y → r ∈ kids y)
    (hkeep : ∀ y r, h.IsLive y → r ≠ c → r ∈ kids y → r ∈ ks y)
    (hpre : ∀ r, r ≠ c → r ∈ pre' → r ∈ pre)
    (hlone : ∀ r, r ≠ c → h.dl.IsRing (.siblings r) [] → r ∉ pre → (∀ s, h.IsLive s → r ∉ kids s) →
      h'.dl.IsRing (.siblings r) [])
    (hc : ∀ sc, h'.res c = some sc → sc.srRescinded = false → sc.srParent = none ∧
      h'.dl.IsRing (.siblings c) [] ∧ c ∉ pre' ∧ ∀ s, h.IsLive s → c ∉ ks s) :
    Forest h' ks t pre' := by
  have hlive : h'.IsLive = h.IsLive := (SameKinds.of_mark hframe).isLive
  obtain ⟨depth, hdepth⟩ := hf.acyclic
  refine ⟨hlive ▸ hr, ?_, ?_, ?_, ?_, ?_, ?_, depth, ?_⟩
  · rw [hlive]
    exact fun y r hy hry => hf.kidLive y r hy (hsub y r hy hry)
  · intro r sr hsr hun hroot
    rw [hlive]
    rcases eq_or_ne r c with rfl | hrc
    · exact (hc sr hsr hun).2
    · obtain ⟨hring, hnpre, hnkid⟩ := hf.root r sr (hres r hrc ▸ hsr) hun hroot
      exact ⟨hlone r hrc hring hnpre hnkid, fun hm => hnpre (hpre r hrc hm),
        fun s hs hm => hnkid s hs (hsub s r hs hm)⟩
  · intro r sr q hsr hun hparent
    rw [hlive]
    rcases eq_or_ne r c with rfl | hrc
    · rw [(hc sr hsr hun).1] at hparent
      cases hparent
    · obtain ⟨hq, hmem⟩ := hf.child r sr q (hres r hrc ▸ hsr) hun hparent
      exact ⟨hq, hkeep q r hq hrc hmem⟩
  · intro r s sr ss hsr hss hmem
    obtain ⟨sr0, hsr0, hmr⟩ := rel_some_right (hframe.res r) hsr
    obtain ⟨ss0, hss0, hms⟩ := rel_some_right (hframe.res s) hss
    rw [hms.type, hmr.type]
    exact hf.type r s sr0 ss0 hsr0 hss0
      (hsub r s (isSome_of_eq_some hsr0) hmem)
  · intro r sr hsr
    obtain ⟨sr0, hsr0, hmr⟩ := rel_some_right (hframe.res r) hsr
    rw [hmr.type]
    exact hframe.hasChunk (hf.chunk r sr0 hsr0)
  · rw [hlive, hframe.next]
    exact hf.bound
  · rw [hlive]
    exact fun y r hy hry => hdepth y r hy (hsub y r hy hry)

/-- **A child is taken from its parent.** -/
theorem takeChild_forest {ra : ResType} {rest : List ResId} (hf : Forest h kids t pre)
    (hlive : h.IsLive x) (hk : kids x = c :: rest) (hchunk : h.HasChunk ra c)
    (hx : takeChild ra (.todo t) avoid h c = .ok h') :
    Forest h' (update kids x rest) t (pre ++ [c].filter (h.goesTo avoid)) := by
  have hmem : c ∈ kids x := by simp [hk]
  have hk' : kids x = [] ++ c :: rest := hk
  obtain ⟨sc, hsc⟩ := isSome_iff_exists.1 (hf.kidLive x c hlive hmem)
  have hframe := takeChild_frame (fun _ => DRef.noConfusion) hx
  have hother : ∀ r, r ≠ c → h'.res r = h.res r := fun r hr => takeChild_res_of_ne hx hr
  have htake := hf.rings.take hlive hk'
  have hcpre : c ∉ pre := hf.rings.apart x c hlive hmem
  have hlone : ((h.dl.detach (.siblings c)).init (.siblings c)).IsRing (.siblings c) [] :=
    Links.isRing_init _ _
  rcases hg : h.goesTo avoid c with _ | _
  · obtain ⟨h'', hx'', hres, hdl, -⟩ := @takeChild_skip h c sc ra (.todo t) avoid hsc hg
    cases hx.symm.trans hx''
    rw [filter_singleton, hg, cond_false, append_nil]
    refine hf.take_one hframe hother (hdl ▸ htake) (fun _ _ _ => (mem_unlink hk').1)
      (fun _ _ _ => (mem_unlink hk').2) (fun _ _ => id) ?_ ?_
    · intro r hr hring _ hnkid
      rw [hdl]
      exact hf.rings.take_lone hlive hmem hring hr (hnkid x hlive)
    · intro sc' hsc' _
      rw [hres, update_self, some.injEq] at hsc'
      refine ⟨by rw [← hsc'], hdl ▸ hlone, hcpre, hf.rings.take_notMem hlive hk'⟩
  obtain ⟨h'', hx'', hres, hdl, -⟩ := @takeChild_take h c sc ra (.todo t) avoid hsc hg hchunk
  cases hx.symm.trans hx''
  rw [filter_singleton, hg, cond_true]
  have hqueue := htake.queue hlone hcpre (hf.rings.take_notMem hlive hk')
  refine hf.take_one hframe hother (hdl ▸ hqueue) (fun _ _ _ => (mem_unlink hk').1)
    (fun _ _ _ => (mem_unlink hk').2) ?_ ?_ ?_
  · intro r hr hm
    exact (mem_append.1 hm).resolve_right fun hrc => hr (mem_singleton.1 hrc)
  · intro r hr hring hnpre hnkid
    rw [hdl]
    exact htake.queue_lone hlone (hf.rings.take_lone hlive hmem hring hr (hnkid x hlive)) hr hnpre
  · intro sc' hsc' hun
    rw [hres, update_self, some.injEq] at hsc'
    rw [← hsc'] at hun
    cases hun

theorem childLoop_forest {ra : ResType} (hm : Marking h0 t pre h ks order)
    (hf : Forest h ks t (pre ++ order)) (hlive : h0.IsLive x) (hlen : (ks x).length < fuel)
    (hkids : ∀ r ∈ ks x, h0.IsLive r ∧ h0.HasChunk ra r)
    (hx : childLoop ra (.todo t) avoid x fuel h = .ok h') :
    Forest h' (update ks x []) t (pre ++ (order ++ (ks x).filter (h0.goesTo avoid))) := by
  obtain ⟨h1, hloop, -, hf'⟩ := childLoop_rule
    (Q := fun h ks order => Marking h0 t pre h ks order ∧ Forest h ks t (pre ++ order))
    (fun _ _ _ hq => hq.1.rings.children x hlive) (fun h ks order c rest ⟨hm, hf⟩ hk hc => by
      obtain ⟨h1, htake, hm1⟩ := takeChild_marking avoid hm hlive hk hc.1 hc.2
      have hnot := hm.rings.apart x c hlive (by simp [hk])
      have hgo : ∀ r ∈ [c], h.goesTo avoid r = h0.goesTo avoid r := by
        intro r hr
        rw [mem_singleton.1 hr]
        exact hm.goesTo hc.1 fun hin => hnot (mem_append_right _ hin)
      have hlive' : h.IsLive x := by
        rwa [(SameKinds.of_mark hm.frame).isLive]
      have hf1 := takeChild_forest hf hlive' hk (hm.frame.hasChunk hc.2) htake
      rw [filter_congr hgo, append_assoc] at hf1
      exact ⟨h1, htake, hm1, hf1⟩) fuel h ks order ⟨hm, hf⟩ hlen hkids
  cases hx.symm.trans hloop
  exact hf'

theorem Forest.start_forest {start : ResId} {sr : SysResource} (hf : Forest h kids t pre)
    (hs : Separated h.dl) (hsr : h.res start = some sr) (hres : sr.srRescinded = false)
    (hx : invalidateAndQueue sr.srType (.todo t) (unlinkStart h start sr) start = .ok h') :
    (∀ ks, Rings h'.dl h.IsLive ks t (pre ++ [start]) →
      (∀ x, h.IsLive x → ks x = (kids x).filter (· ≠ start)) → Forest h' ks t (pre ++ [start])) ∧
      Separated h'.dl ∧ SameLists h.dl h'.dl := by
  obtain ⟨ks0, hrings, hlone, hpre, hkids, -, hroot⟩ := hf.unlink hsr hres
  obtain ⟨hres', hdl⟩ := invalidateAndQueue_same hx
  rw [unlinkStart_res] at hres'
  have hframe := (unlinkStart_frame hsr).trans
    (invalidateAndQueue_frame (fun _ => DRef.noConfusion) hx)
  have hlists : Separated (unlinkStart h start sr).dl ∧
      SameLists h.dl (unlinkStart h start sr).dl := by
    unfold unlinkStart
    split_ifs
    · exact ⟨(hs.detach _).init _, (SameLists.detach hs rfl).trans (.init rfl)⟩
    · exact ⟨hs, .refl _⟩
  refine ⟨fun ks hr hks => ?_, ?_⟩
  · have hother : ∀ r, r ≠ start → h'.res r = h.res r := by
      intro r hne
      rw [hres', update_of_ne hne]
    refine hf.take_one hframe hother hr ?_ ?_ ?_ ?_ ?_
    · intro y r hy hm
      rw [hks y hy] at hm
      exact mem_of_mem_filter hm
    · intro y r hy hne hm
      rw [hks y hy]
      exact mem_filter.2 ⟨hm, by simpa using hne⟩
    · intro r hne hm
      exact (mem_append.1 hm).resolve_right fun hrs => hne (mem_singleton.1 hrs)
    · intro r hne hring hnpre hnkid
      rw [hdl]
      exact hrings.queue_lone hlone (hroot r hne hring hnkid) hne hnpre
    · intro sc hsc hun
      rw [hres', update_self, some.injEq] at hsc
      rw [← hsc] at hun
      cases hun
  · rw [hdl]
    exact ⟨hlists.1.insBefore rfl, hlists.2.trans (.insBefore hlists.1 rfl rfl)⟩

end

/-! ### Disabled chunks -/

/-- The chunks that were invalidated on the way from `h` to `h'` are disabled. -/
def Muted (h h' : Hype) : Prop :=
  ∃ new, h'.invalidated = h.invalidated ++ new ∧
    ∀ r ∈ new, ∀ lci, h'.lci r = some lci → lci.lciDisabled = true

section

variable {h h' h'' : Hype} {m : MemType} {nodes : DRef} {avoid : Option OsId} {r c : ResId}

theorem Lci.Disables.disabled {lci lci' : Lci} (hd : lci.Disables lci')
    (hdis : lci.lciDisabled = true) : lci'.lciDisabled = true := by
  rcases hd with rfl | rfl
  · exact hdis
  · rfl

namespace Muted

theorem same (hlog : h'.invalidated = h.invalidated) : Muted h h' :=
  ⟨[], by rw [hlog, append_nil], nofun⟩

theorem trans (h1 : Muted h h') (h2 : Muted h' h'') (hf : MarkFrame h' h'') : Muted h h'' := by
  obtain ⟨new1, hlog1, hdis1⟩ := h1
  obtain ⟨new2, hlog2, hdis2⟩ := h2
  refine ⟨new1 ++ new2, by rw [hlog2, hlog1, append_assoc], fun r hr lci'' hlci'' => ?_⟩
  rcases mem_append.1 hr with hr | hr
  · obtain ⟨lci', hlci', hd⟩ := rel_some_right (hf.lci r) hlci''
    exact hd.disabled (hdis1 r hr lci' hlci')
  · exact hdis2 r hr lci'' hlci''

end Muted

theorem invalidateAndQueue_muted (hx : invalidateAndQueue (.mem m) nodes h r = .ok h') :
    Muted h h' := by
  obtain ⟨sr, -, hx⟩ := of_seq hx
  split_ifs at hx
  · obtain ⟨h1, hinv, hx⟩ := of_seq hx
    cases hx
    obtain ⟨lci, -, hinv⟩ := of_seq hinv
    cases hinv
    refine ⟨[r], rfl, fun q hq lci' hlci' => ?_⟩
    rw [mem_singleton.1 hq] at hlci'
    have hself : some { lci with lciDisabled := true } = some lci' :=
      (update_self r _ _).symm.trans hlci'
    cases hself
    rfl
  · cases hx
    exact .same rfl

theorem takeChild_muted (hx : takeChild (.mem m) nodes avoid h c = .ok h') : Muted h h' := by
  obtain ⟨sr, -, rfl | hx⟩ := takeChild_ok hx
  · exact .same rfl
  · obtain ⟨new, hlog, hdis⟩ := invalidateAndQueue_muted hx
    exact ⟨new, hlog, hdis⟩

/-- **The chunks that `forced_rescind_mark` invalidates are disabled behind it.** -/
theorem forcedRescindMark_muted {start : ResId} {sr : SysResource} {rc : Sval}
    (hnodes : ∀ q, nodes ≠ .osRes q) (hsr : h.res start = some sr) (hres : sr.srRescinded = false)
    (htype : sr.srType = .mem m) (hx : forcedRescindMark h start nodes avoid = .ok (rc, h')) :
    Muted h h' := by
  rw [forcedRescindMark_eq hsr hres, htype] at hx
  obtain ⟨h1, hqueue, hx⟩ := of_seq hx
  obtain ⟨h2, hloop, hx⟩ := of_seq hx
  cases hx
  have hstart : Muted h h1 :=
    (Muted.same unlinkStart_invalidated).trans (invalidateAndQueue_muted hqueue)
      (invalidateAndQueue_frame hnodes hqueue)
  apply markLoop_induct (Q := fun _ h3 => Muted h h3) hloop hstart
  intro h3 h4 r hm hchild
  apply childLoop_induct (Q := fun h5 => Muted h h5) hchild hm
  intro h5 h6 c hm5 _ htake
  exact hm5.trans (takeChild_muted htake) (takeChild_frame hnodes htake)

/-! ### The whole walk -/

/-- A walk from `start` in the forest of `h0`, and the forest that it has left behind so far. -/
structure WalkedForest (h0 : Hype) (t : Nat) (pre : List ResId) (kids : ResId → List ResId)
    (avoid : Option OsId) (start : ResId) (h : Hype) (ks : ResId → List ResId)
    (done queue : List ResId) : Prop where
  walking : Walking h0 t pre kids avoid start h ks done queue
  forest : Forest h ks t (pre ++ (done ++ queue))
  left : ∀ x, h0.IsLive x → x ∉ done → ks x = (kids x).filter (· ≠ start)
  lists : Separated h.dl ∧ SameLists h0.dl h.dl

variable {h0 h1 : Hype} {kids ks : ResId → List ResId} {t : Nat} {pre done queue : List ResId}
  {start : ResId} {sr : SysResource}

theorem WalkedForest.step (hf : Forest h0 kids t pre) (hsr : h0.res start = some sr)
    (hw : WalkedForest h0 t pre kids avoid start h ks done (r :: queue))
    (hx : childLoop sr.srType (.todo t) avoid r (h.next + 1) h = .ok h1) :
    h1.dl.next (.siblings r) = queueHead t (queue ++ h0.heirs kids avoid r) ∧
      WalkedForest h0 t pre kids avoid start h1 (update ks r []) (done ++ [r])
        (queue ++ h0.heirs kids avoid r) := by
  have hbelow : Below (h0.heirs kids avoid) start r := hw.walking.walk.below r (by simp)
  obtain ⟨hlive, hnd, hkids⟩ := hf.below_kids hsr r hbelow
  have hlen : (kids r).length ≤ h0.next :=
    length_le_of_nodup hnd fun c hc => hf.bound c (hkids c hc).1
  obtain ⟨h2, hloop, hnext, hw'⟩ := hw.walking.step (hf.isTree hsr) hlive hlen hkids
  cases hx.symm.trans hloop
  have hrd : r ∉ done := fun hin =>
    disjoint_of_nodup_append hw.walking.walk.nodup hin mem_cons_self
  have hk : ks r = kids r := hw.walking.left r hbelow hrd
  have hf' := childLoop_forest hw.walking.marking hw.forest hlive
    (by rw [hk, hw.walking.marking.frame.next]; omega) (hk ▸ hkids) hx
  -- the two lists are those of one ring
  have hlist := hf'.rings.list.unique hw'.marking.rings.list
  rw [(map_injective_iff.2 fun _ _ => DRef.siblings.inj) hlist] at hf'
  refine ⟨hnext, hw', hf', ?_, ?_⟩
  · intro x hx' hnot
    have hxr : x ≠ r := fun he => hnot (by simp [he])
    rw [update_of_ne hxr]
    exact hw.left x hx' fun hin => hnot (mem_append_left _ hin)
  · obtain ⟨hs, hsame⟩ := childLoop_lists hx hw.lists.1
    exact ⟨hs, hw.lists.2.trans hsame⟩

/-- The forest that `forced_rescind_mark` leaves behind, when it has met `order`. -/
structure MarkedForest (h h' : Hype) (kids ks : ResId → List ResId) (avoid : Option OsId)
    (start : ResId) (t : Nat) (pre order : List ResId) : Prop where
  met : ∀ x, x ∈ order ↔ Below (h.heirs kids avoid) start x
  after : ∀ x ∈ order, ∀ c ∈ h.heirs kids avoid x, Before order x c
  forest : Forest h' ks t (pre ++ order)
  marking : Marking h t pre h' ks order
  emptied : ∀ x ∈ order, ks x = []
  left : ∀ x, h.IsLive x → x ∉ order → ks x = (kids x).filter (· ≠ start)
  separated : Separated h'.dl
  lists : SameLists h.dl h'.dl

/-- **`forced_rescind_mark` leaves a forest behind.** -/
theorem forcedRescindMark_forest (avoid : Option OsId) (hf : Forest h kids t pre)
    (hs : Separated h.dl) (hsr : h.res start = some sr) (hres : sr.srRescinded = false) :
    ∃ order h' ks, forcedRescindMark h start (.todo t) avoid = .ok (0, h') ∧
      MarkedForest h h' kids ks avoid start t pre order := by
  obtain ⟨order0, h', hmark, -⟩ := @forcedRescindMark_marks_tree h kids avoid start t pre sr hf hsr
    hres
  obtain ⟨h1, ks1, hstart, hm1, hsame⟩ := hf.start_marking hsr hres
  obtain ⟨hforest, hlists⟩ := hf.start_forest hs hsr hres hstart
  have hw1 : WalkedForest h t pre kids avoid start h1 ks1 [] [start] :=
    ⟨hf.start_walking hsr hm1 hsame, hforest ks1 hm1.rings hsame, fun x hx _ => hsame x hx, hlists⟩
  have hloop := hmark
  rw [forcedRescindMark_eq hsr hres, hstart, ok_bind] at hloop
  obtain ⟨h2, hloop, hret⟩ := of_seq hloop
  cases hret
  obtain ⟨ks, done, queue, hend, hw⟩ := markLoop_induct
    (Q := fun curr h2 => ∃ ks done queue, curr = queueHead t queue ∧
      WalkedForest h t pre kids avoid start h2 ks done queue)
    hloop ⟨ks1, [], [start], rfl, hw1⟩ (by
      rintro h3 h4 r ⟨ks, done, queue, hcurr, hw⟩ hx
      cases queue with
      | nil => cases hcurr
      | cons r' queue =>
        cases hcurr
        obtain ⟨hnext, hw'⟩ := hw.step hf hsr hx
        exact ⟨_, _, _, hnext, hw'⟩)
  cases queue with
  | cons r queue => cases hend
  | nil =>
    have hm : Marking h t pre h' ks done := append_nil done ▸ hw.walking.marking
    refine ⟨done, h', ks, hmark, fun _ => hw.walking.walk.mem_iff, ?_, ?_, hm, hw.walking.emptied,
      hw.left, hw.lists.1, hw.lists.2⟩
    · intro x hx c hc
      have hb := hw.walking.walk.before x hx c hc
      rwa [append_nil] at hb
    · have hf' := hw.forest
      rwa [append_nil] at hf'

end

end Rhype
