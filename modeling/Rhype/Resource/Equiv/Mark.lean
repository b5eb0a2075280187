import Rhype.Resource.Equiv.MarkLoop

/-!
# The first phase of a rescind marks a tree (`forced_rescind_mark`)

The resources form a forest: `kids r` are the children of `r`, in the order of its list
`sr_children`.  `Forest` is what the walk relies on, and `Marked` what it leaves behind: it has met
the resources below `start` that it can reach without crossing a resource of the partition to avoid
or one that was rescinded before.
-/

namespace Rhype

open Function List Option

/-! ### Forests of resources -/

/-- The resources form a forest with the children `kids`, and `pre` is on the list `nodes`.  A
resource that was rescinded may be anywhere. -/
structure Forest (h : Hype) (kids : ResId → List ResId) (nodes : Nat) (pre : List ResId) :
    Prop where
  rings : Rings h.dl h.IsLive kids nodes pre
  kidLive : ∀ r c, h.IsLive r → c ∈ kids r → h.IsLive c
  root : ∀ r sr, h.res r = some sr → sr.srRescinded = false → sr.srParent = none →
    h.dl.IsRing (.siblings r) [] ∧ r ∉ pre ∧ ∀ s, h.IsLive s → r ∉ kids s
  child : ∀ r sr q, h.res r = some sr → sr.srRescinded = false → sr.srParent = some q →
    h.IsLive q ∧ r ∈ kids q
  type : ∀ r c sr sc, h.res r = some sr → h.res c = some sc → c ∈ kids r → sc.srType = sr.srType
  chunk : ∀ r sr, h.res r = some sr → h.HasChunk sr.srType r
  bound : ∀ r, h.IsLive r → r < h.next
  acyclic : ∃ depth : ResId → Nat, ∀ r c, h.IsLive r → c ∈ kids r → depth r < depth c

/-- `forced_rescind_mark` up to the call of `invalidate_fn` for its first resource. -/
def unlinkStart (h : Hype) (start : ResId) (sr : SysResource) : Hype :=
  let h := h.setRes start { sr with srRescinded := true }
  if sr.srParent.isSome
  then h.setDl ((h.dl.detach (.siblings start)).init (.siblings start)) else h

variable {h : Hype} {start : ResId} {sr : SysResource}

theorem forcedRescindMark_eq {nodes : DRef}
    {avoid : Option OsId} (hsr : h.res start = some sr) (hres : sr.srRescinded = false) :
    forcedRescindMark h start nodes avoid = (do
      let h ← invalidateAndQueue sr.srType nodes (unlinkStart h start sr) start
      let h ← markLoop sr.srType nodes avoid (h.next + 1) (.siblings start) h
      .ok (0, h)) := by
  simp [forcedRescindMark, markForRescind, hsr, live, hres, unlinkStart]

theorem unlinkStart_res :
    (unlinkStart h start sr).res
      = update h.res start (some { sr with srRescinded := true }) := by
  unfold unlinkStart
  split_ifs <;> rfl

theorem unlinkStart_invalidated : (unlinkStart h start sr).invalidated = h.invalidated := by
  unfold unlinkStart
  split_ifs <;> rfl

theorem unlinkStart_frame (hsr : h.res start = some sr) : MarkFrame h (unlinkStart h start sr) := by
  have hm : sr.Marks { sr with srRescinded := true } := ⟨rfl, rfl, rfl, rfl, fun _ => rfl⟩
  unfold unlinkStart
  split_ifs
  · exact (MarkFrame.setRes hsr hm).trans (.detachInit start)
  · exact .setRes hsr hm

namespace Forest

variable {h : Hype} {kids : ResId → List ResId} {nodes : Nat} {pre : List ResId} {start r : ResId}
  {sr : SysResource} {avoid : Option OsId}

section

variable (hf : Forest h kids nodes pre) (hsr : h.res start = some sr)
include hf hsr

theorem below_type (hr : Below (h.heirs kids avoid) start r) :
    ∃ s, h.res r = some s ∧ s.srType = sr.srType := by
  induction hr with
  | start => exact ⟨sr, hsr, rfl⟩
  | child _ hy ih =>
    obtain ⟨s, hs, htype⟩ := ih
    have hy := mem_of_mem_filter hy
    obtain ⟨s', hs'⟩ := isSome_iff_exists.1
      (hf.kidLive _ _ (isSome_of_eq_some hs) hy)
    exact ⟨s', hs', (hf.type _ _ s s' hs hs' hy).trans htype⟩

theorem below_kids (r : ResId) (hr : Below (h.heirs kids avoid) start r) :
    h.IsLive r ∧ (kids r).Nodup ∧ ∀ c ∈ kids r, h.IsLive c ∧ h.HasChunk sr.srType c := by
  obtain ⟨s, hs, htype⟩ := hf.below_type hsr hr
  have hlive : h.IsLive r := isSome_of_eq_some hs
  refine ⟨hlive, hf.rings.nodup_kids hlive, fun c hc => ?_⟩
  have hclive := hf.kidLive r c hlive hc
  obtain ⟨sc, hsc⟩ := isSome_iff_exists.1 hclive
  have hchunk := hf.chunk c sc hsc
  rw [hf.type r c s sc hs hsc hc, htype] at hchunk
  exact ⟨hclive, hchunk⟩

theorem below_not_above (hr : Below (h.heirs kids avoid) start r) : start ∉ kids r := by
  obtain ⟨depth, hdepth⟩ := hf.acyclic
  have hle : ∀ x, Below (h.heirs kids avoid) start x → depth start ≤ depth x := by
    intro x hx
    induction hx with
    | start => exact le_rfl
    | child hx hy ih =>
      exact ih.trans (hdepth _ _ (hf.below_kids hsr _ hx).1 (mem_of_mem_filter hy)).le
  intro hmem
  have hlt := hdepth r start (hf.below_kids hsr r hr).1 hmem
  have hge := hle r hr
  omega

theorem isTree : IsTree (h.heirs kids avoid) start where
  nodup := fun r hr => (hf.below_kids hsr r hr).2.1.filter _
  unique := fun r s c hr hs hc hc' => hf.rings.unique r s c (hf.below_kids hsr r hr).1
    (hf.below_kids hsr s hs).1 (mem_of_mem_filter hc) (mem_of_mem_filter hc')
  root := fun _ hr hc => hf.below_not_above hsr hr (mem_of_mem_filter hc)

theorem unlink (hres : sr.srRescinded = false) :
    ∃ ks, Rings (unlinkStart h start sr).dl h.IsLive ks nodes pre ∧
      (unlinkStart h start sr).dl.IsRing (.siblings start) [] ∧ start ∉ pre ∧
      (∀ s, h.IsLive s → start ∉ ks s) ∧
      (∀ x, h.IsLive x → ks x = (kids x).filter (· ≠ start)) ∧
      ∀ r, r ≠ start → h.dl.IsRing (.siblings r) [] → (∀ s, h.IsLive s → r ∉ kids s) →
        (unlinkStart h start sr).dl.IsRing (.siblings r) [] := by
  have hsame : ∀ x, start ∉ kids x → kids x = (kids x).filter (· ≠ start) := by
    intro x hx
    refine (filter_eq_self.2 fun c hc => ?_).symm
    simpa using fun he : c = start => hx (he ▸ hc)
  rcases hp : sr.srParent with _ | q
  · obtain ⟨hlone, hpre, hkids⟩ := hf.root start sr hsr hres hp
    have hdl : (unlinkStart h start sr).dl = h.dl := by simp [unlinkStart, hp]
    rw [hdl]
    exact ⟨kids, hf.rings, hlone, hpre, hkids, fun x hx => hsame x (hkids x hx),
      fun _ _ hring _ => hring⟩
  obtain ⟨hq, hmem⟩ := hf.child start sr q hsr hres hp
  obtain ⟨ks1, ks2, hk⟩ := append_of_mem hmem
  have hdl : (unlinkStart h start sr).dl
      = (h.dl.detach (.siblings start)).init (.siblings start) := by
    simp [unlinkStart, hp]
  rw [hdl]
  refine ⟨_, hf.rings.take hq hk, Links.isRing_init _ _, hf.rings.apart q start hq hmem,
    hf.rings.take_notMem hq hk, fun x hx => ?_,
    fun r hr hring hnkid => hf.rings.take_lone hq hmem hring hr (hnkid q hq)⟩
  have hnot : start ∉ update kids q (ks1 ++ ks2) x := hf.rings.take_notMem hq hk x hx
  rw [update_apply] at hnot ⊢
  split_ifs at hnot ⊢ with hxq
  · subst hxq
    rw [hk, filter_append, filter_cons_of_neg (by simp), ← filter_append]
    refine (filter_eq_self.2 fun c hc => ?_).symm
    simpa using fun he : c = start => hnot (he ▸ hc)
  · exact hsame x hnot

theorem start_marking (hres : sr.srRescinded = false) :
    ∃ h1 ks, invalidateAndQueue sr.srType (.todo nodes) (unlinkStart h start sr) start = .ok h1 ∧
      Marking h nodes pre h1 ks [start] ∧ ∀ x, h.IsLive x → ks x = (kids x).filter (· ≠ start) := by
  obtain ⟨ks, hrings, hlone, hpre, hkids, hsame, -⟩ := hf.unlink hsr hres
  have hframe := unlinkStart_frame hsr
  have hnodes : ∀ q, DRef.todo nodes ≠ .osRes q := nofun
  have hsr1 : (unlinkStart h start sr).res start = some { sr with srRescinded := true } := by
    rw [unlinkStart_res, update_self]
  obtain ⟨h1, hx, hres1, hdl, hlog⟩ :=
    invalidateAndQueue_spec hsr1 (hframe.hasChunk (hf.chunk start sr hsr))
  have hnone : Flagged h h [] := by
    intro r s s' hs hs'
    rw [hs, some.injEq] at hs'
    simp [hs']
  refine ⟨h1, ks, hx, ⟨hframe.trans (invalidateAndQueue_frame hnodes hx), ?_, ?_, ?_⟩, hsame⟩
  · rw [hdl]
    exact hrings.queue hlone hpre hkids
  · refine hnone.update hsr (hres1.trans unlinkStart_res) (by simp) fun q hq => ?_
    simp [hq]
  · rw [hlog, unlinkStart_invalidated, filter_singleton, filter_singleton, hframe.isMapped]

end

end Forest

/-! ### What the walk leaves behind -/

/-- The flags of a resource: `RES_MAPPED` and `RES_RESCINDED`. -/
def Hype.flags (h : Hype) (r : ResId) : Option (Bool × Bool) :=
  (h.res r).map fun sr => (sr.srMapped, sr.srRescinded)

/-- The result of `forced_rescind_mark`: it has met the resources `order`. -/
structure Marked (h h' : Hype) (kids : ResId → List ResId) (avoid : Option OsId) (start : ResId)
    (nodes : Nat) (pre order : List ResId) : Prop where
  /-- It met what is below `start`, not crossing what it avoids. -/
  met : ∀ r, r ∈ order ↔ Below (h.heirs kids avoid) start r
  /-- These were put on the list, -/
  list : h'.dl.IsRing (.todo nodes) ((pre ++ order).map .siblings)
  /-- each one once, -/
  once : ∀ r ∈ order, (pre ++ order).count r = 1
  /-- and after its parent; -/
  after : ∀ r ∈ order, ∀ c ∈ h.heirs kids avoid r, Before order r c
  /-- they are marked, -/
  marked : ∀ r ∈ order, h'.flags r = some (h.isMapped r, true)
  /-- they have no children left, -/
  childless : ∀ r ∈ order, h'.dl.IsRing (.children r) []
  /-- and those that are mapped were invalidated. -/
  invalidated : h'.invalidated = h.invalidated ++ order.filter h.isMapped
  /-- Nothing else was marked. -/
  others : ∀ r, r ∉ order → h'.flags r = h.flags r

section

variable {h h' : Hype} {kids : ResId → List ResId} {avoid : Option OsId} {start : ResId}
  {nodes : Nat} {pre order : List ResId} {ks : ResId → List ResId}

theorem Marking.flags (hm : Marking h nodes pre h' ks order) (r : ResId) :
    h'.flags r = (h.flags r).map fun f => (f.1, f.2 || decide (r ∈ order)) := by
  unfold Hype.flags
  cases hsr : h.res r with
  | none =>
    have hnone : (h'.res r).isSome = (h.res r).isSome := rel_isSome (hm.frame.res r)
    rw [hsr, isSome_none, isSome_eq_false_iff, isNone_iff_eq_none] at hnone
    rw [hnone]
    rfl
  | some sr =>
    obtain ⟨sr', hsr', hmarks⟩ := rel_some (hm.frame.res r) hsr
    have hflag := hm.flag r sr sr' hsr hsr'
    rw [hsr', map_some, map_some, map_some, hmarks.mapped, hflag]

theorem Marking.marked (hm : Marking h nodes pre h' ks order)
    (hw : Walk (h.heirs kids avoid) start order []) (hlive : ∀ r ∈ order, h.IsLive r)
    (hempty : ∀ r ∈ order, ks r = []) : Marked h h' kids avoid start nodes pre order where
  met := fun _ => hw.mem_iff
  list := hm.rings.list
  once := by
    intro r hr
    have hnd : (pre ++ order).Nodup := (nodup_cons.1 hm.rings.list.1).2.of_map _
    exact count_eq_one_of_mem hnd (mem_append_right _ hr)
  after := by
    intro r hr c hc
    have hb := hw.before r hr c hc
    rwa [append_nil] at hb
  marked := by
    intro r hr
    obtain ⟨sr, hsr⟩ := isSome_iff_exists.1 (hlive r hr)
    rw [hm.flags]
    simp [Hype.flags, Hype.isMapped, hsr, hr]
  childless := by
    intro r hr
    have hring := hm.rings.children r (hlive r hr)
    rwa [hempty r hr] at hring
  invalidated := hm.log
  others := by
    intro r hr
    rw [hm.flags]
    simp [hr]

theorem Forest.start_walking {h1 : Hype} {ks : ResId → List ResId} (hf : Forest h kids nodes pre)
    (hsr : h.res start = some sr) (hm : Marking h nodes pre h1 ks [start])
    (hsame : ∀ r, h.IsLive r → ks r = (kids r).filter (· ≠ start)) :
    Walking h nodes pre kids avoid start h1 ks [] [start] := by
  refine ⟨.init, hm, fun r hr _ => ?_, nofun⟩
  rw [hsame r (hf.below_kids hsr r hr).1]
  refine filter_eq_self.2 fun c hc => ?_
  simpa using fun he : c = start => hf.below_not_above hsr hr (he ▸ hc)

/-- **The first phase of a rescind marks a tree.** -/
theorem forcedRescindMark_marks_tree {sr : SysResource} (hf : Forest h kids nodes pre)
    (hsr : h.res start = some sr) (hres : sr.srRescinded = false) :
    ∃ order h', forcedRescindMark h start (.todo nodes) avoid = .ok (0, h') ∧
      Marked h h' kids avoid start nodes pre order := by
  obtain ⟨h1, ks1, hstart, hm1, hsame⟩ := hf.start_marking hsr hres
  have hw1 : Walking h nodes pre kids avoid start h1 ks1 [] [start] :=
    hf.start_walking hsr hm1 hsame
  obtain ⟨order, h', ks', hloop, hw⟩ :=
    markLoop_walking (hf.isTree hsr) hf.bound (hf.below_kids hsr) (h1.next + 1) _ _ h1 ks1 hw1
      (by rw [hm1.frame.next]; omega)
  have hlive : ∀ r ∈ order, h.IsLive r := fun r hr =>
    (hf.below_kids hsr r (hw.walk.mem_iff.1 hr)).1
  have hm : Marking h nodes pre h' ks' order := append_nil order ▸ hw.marking
  refine ⟨order, h', ?_, hm.marked hw.walk hlive hw.emptied⟩
  rw [forcedRescindMark_eq hsr hres, hstart, ok_bind]
  have hhead : queueHead nodes [start] = .siblings start := rfl
  rw [hhead] at hloop
  rw [hloop, ok_bind]

end

theorem oneGrant_forest : Forest oneGrant (fun r => if r = 0 then [1] else []) 0 [] := by
  have hlive : ∀ r, oneGrant.IsLive r → r = 0 ∨ r = 1 := by
    intro r hr
    by_contra hne
    simp [Hype.IsLive, oneGrant, not_or.1 hne] at hr
  have hkid : ∀ r c, c ∈ (if r = 0 then [1] else [] : List ResId) → r = 0 ∧ c = 1 := by
    intro r c hc
    split_ifs at hc with h0
    · exact ⟨h0, mem_singleton.1 hc⟩
    · cases hc
  have hsome : ∀ {r sr}, oneGrant.res r = some sr → oneGrant.IsLive r :=
    fun hsr => isSome_of_eq_some hsr
  refine ⟨⟨?_, ⟨by decide, rfl, rfl⟩, ?_, nofun⟩, ?_, ?_, ?_, ?_, ?_, ?_, id, ?_⟩
  · intro r hr
    rcases hlive r hr with rfl | rfl
    · exact ⟨by decide, ⟨rfl, rfl⟩, rfl, rfl⟩
    · exact ⟨by decide, rfl, rfl⟩
  · intro r s c _ _ hr hs
    exact (hkid r c hr).1.trans (hkid s c hs).1.symm
  · intro r c _ hc
    rw [(hkid r c hc).2]
    rfl
  · intro r sr hsr _ hp
    rcases hlive r (hsome hsr) with rfl | rfl
    · refine ⟨⟨by decide, rfl, rfl⟩, nofun, fun s _ hs => ?_⟩
      exact absurd (hkid s 0 hs).2 nofun
    · cases hsr
      cases hp
  · intro r sr q hsr _ hp
    rcases hlive r (hsome hsr) with rfl | rfl
    · cases hsr
      cases hp
    · cases hsr
      cases hp
      exact ⟨rfl, by decide⟩
  · intro r c sr sc hsr hsc hc
    obtain ⟨rfl, rfl⟩ := hkid r c hc
    cases hsr
    cases hsc
    rfl
  · intro r sr _ _ _
    rfl
  · intro r hr
    rcases hlive r hr with rfl | rfl <;> decide
  · intro r c _ hc
    obtain ⟨rfl, rfl⟩ := hkid r c hc
    decide

/-- Both resources are met. -/
theorem forcedRescindMark_marks_tree_oneGrant :
    ∃ order h', forcedRescindMark oneGrant 0 (.todo 0) none = .ok (0, h') ∧
      Marked oneGrant h' (fun r => if r = 0 then [1] else []) none 0 0 [] order :=
  forcedRescindMark_marks_tree oneGrant_forest rfl rfl

end Rhype
