import Rhype.Resource.Equiv.Tree
import Rhype.Resource.Sections

/-!
# An insertion in a race with a rescind

`insert_resource` links a new resource to its parent in one section, and gives it its owner in the
next one.  A rescind from above must find the new resource, or have marked the parent before, so
that the insertion is refused.

The invariant of the race is that the walk of the rescind still has the parent before it
(`WillReach`), as long as the new resource is in the tree without a mark.  One schedule breaks it: a
resource without an owner looks like one that is left to the death of its partition, if the rescind
avoids no partition.  `race_rescinds` is the property for the other schedules.
-/

namespace Rhype

open DRef Function Hype List Option

/-! ### What is left of the walk -/

def Hype.IsMarked (h : Hype) (x : ResId) : Prop :=
  ∃ sx, h.res x = some sx ∧ sx.srRescinded = true

/-- The walk still has to come to `q`; `pend` are the resources whose children it will take. -/
def WillReach (h : Hype) (ks : ResId → List ResId) (avoid : Option OsId) (pend : List ResId)
    (q : ResId) : Prop :=
  ∃ x ∈ pend, Below (h.heirs ks avoid) x q

/-- The resource is on no list of siblings. -/
structure Detached (h : Hype) (ks : ResId → List ResId) (todo : List ResId) (x : ResId) :
    Prop where
  ring : h.dl.IsRing (.siblings x) []
  notTodo : x ∉ todo
  notKid : ∀ s, h.IsLive s → x ∉ ks s

/-- The resource is among the children of its parent, if it has one. -/
structure Located (h : Hype) (ks : ResId → List ResId) (todo : List ResId) (x : ResId) : Prop where
  root : ∀ sx, h.res x = some sx → sx.srParent = none → Detached h ks todo x
  child : ∀ sx, h.res x = some sx → sx.srParent ≠ none → ∃ p, h.IsLive p ∧ x ∈ ks p

/-- A resource as `resource_init` has left it, with the parent `q`. -/
structure Fresh (h : Hype) (r q : ResId) : Prop where
  res : ∃ sr sq, h.res r = some sr ∧ h.res q = some sq ∧ sr.srParent = some q ∧
    sr.srOwner = none ∧ sr.srRescinded = false ∧ sr.srType = sq.srType
  tree : h.dl.Isolated (.siblings r)
  list : h.dl.Isolated (.osRes r)

/-- The resource has the owner `w`.  It was marked and is on the list, or the walk will find it. -/
def Kept (c : RaceCalls) (q : ResId) (h : Hype) (ks : ResId → List ResId) (todo pend : List ResId)
    (w : Option OsId) : Prop :=
  ∃ sr, h.res c.r = some sr ∧ sr.srOwner = w ∧
    (sr.srRescinded = true ∧ c.r ∈ todo ∨
      sr.srRescinded = false ∧ c.r ∈ ks q ∧ WillReach h ks c.avoid pend q)

/-- What the rescind has reached. -/
def Pending (c : RaceCalls) (h : Hype) (ks : ResId → List ResId) (todo pend : List ResId) :
    MarkPc → Prop
  | .mark => pend = [c.start] ∧ (∃ sx, h.res c.start = some sx ∧ sx.srRescinded = false) ∧
      Located h ks todo c.start
  | .unlink => pend = [c.start] ∧ h.IsMarked c.start ∧ Located h ks todo c.start
  | .queue => pend = [c.start] ∧ h.IsMarked c.start ∧ Detached h ks todo c.start
  | .walk ra curr => curr = queueHead c.t pend ∧ (∃ done, todo = done ++ pend) ∧
      ∀ x ∈ pend, ∃ sx, h.res x = some sx ∧ sx.srRescinded = true ∧ sx.srType = ra
  | .ended _ => pend = []

/-- What the insertion has reached. -/
def Inserting (c : RaceCalls) (q : ResId) (h : Hype) (ks : ResId → List ResId)
    (todo pend : List ResId) : InsertPc → Prop
  | .start => Fresh h c.r q ∧ (h.IsMarked q ∨ WillReach h ks c.avoid pend q)
  | .linked => Kept c q h ks todo pend none
  | .refused => Fresh h c.r q
  | .inserted _ => Kept c q h ks todo pend (some c.o)

/-- **The invariant of the race.** -/
structure RaceInv (c : RaceCalls) (q : ResId) (h : Hype) (ins : InsertPc) (mk : MarkPc)
    (ks : ResId → List ResId) (todo pend : List ResId) : Prop where
  tree : Tree h ks c.t todo
  parent : h.IsLive q
  ne : c.r ≠ c.start
  pending : Pending c h ks todo pend mk
  inserting : Inserting c q h ks todo pend ins

section

variable {c : RaceCalls} {q x : ResId} {h h' : Hype} {ks ks' : ResId → List ResId}
  {todo todo' pend pend' : List ResId} {ins : InsertPc}

theorem Hype.IsMarked.mono (hm : h.IsMarked x) (hf : MarkFrame h h') : h'.IsMarked x := by
  obtain ⟨sx, hsx, hmarked⟩ := hm
  obtain ⟨sx', hsx', hmarks⟩ := rel_some (hf.res x) hsx
  exact ⟨sx', hsx', hmarks.rescinded hmarked⟩

theorem Hype.mem_heirs {avoid : Option OsId} {y : ResId} :
    y ∈ h.heirs ks avoid x ↔ y ∈ ks x ∧ h.goesTo avoid y = true :=
  mem_filter

variable {t : Nat} {avoid : Option OsId} {r y : ResId} {mk : MarkPc} {rest : List ResId}
  {ra : ResType} {curr : DRef}

theorem Tree.below_live (ht : Tree h ks t todo)
    (hx : h.IsLive x) (hy : Below (h.heirs ks avoid) x y) : h.IsLive y := by
  induction hy with
  | start => exact hx
  | child _ hmem ih => exact ht.kidLive _ _ ih (mem_heirs.1 hmem).1

namespace Fresh

theorem detached (hf : Fresh h r q) (ht : Tree h ks t todo) : Detached h ks todo r where
  ring := hf.tree.isRing
  notTodo := by
    intro hr
    exact hf.tree.notMem ht.rings.list nofun (mem_map_of_mem hr)
  notKid := by
    intro s hs hr
    exact hf.tree.notMem (ht.rings.children s hs) nofun (mem_map_of_mem hr)

theorem keep (hf : Fresh h r q) (hframe : MarkFrame h h') (hres : h'.res r = h.res r)
    (htree : h.dl.Isolated (.siblings r) → h'.dl.Isolated (.siblings r))
    (hlist : h.dl.Isolated (.osRes r) → h'.dl.Isolated (.osRes r)) : Fresh h' r q := by
  obtain ⟨sr, sq, hsr, hsq, hparent, howner, hun, htype⟩ := hf.res
  obtain ⟨sq', hsq', hmarks⟩ := rel_some (hframe.res q) hsq
  refine ⟨⟨sr, sq', hres.trans hsr, hsq', hparent, howner, hun, ?_⟩, htree hf.tree, hlist hf.list⟩
  rw [htype, hmarks.type]

end Fresh

/-! ### The steps of the rescind -/

theorem Inserting.imp (hi : Inserting c q h ks todo pend ins)
    (hfresh : Fresh h c.r q → Fresh h' c.r q) (hmarked : h.IsMarked q → h'.IsMarked q)
    (hreach : WillReach h ks c.avoid pend q → h'.IsMarked q ∨ WillReach h' ks' c.avoid pend' q)
    (hkept : ∀ w, ins = .linked ∧ w = none ∨ w = some c.o → Kept c q h ks todo pend w →
      Kept c q h' ks' todo' pend' w) : Inserting c q h' ks' todo' pend' ins := by
  cases ins with
  | start => exact ⟨hfresh hi.1, hi.2.elim (fun hm => .inl (hmarked hm)) hreach⟩
  | linked => exact hkept none (.inl ⟨rfl, rfl⟩) hi
  | refused => exact hfresh hi
  | inserted cookie => exact hkept (some c.o) (.inr rfl) hi

theorem Inserting.keep (hi : Inserting c q h ks todo pend ins) (hframe : MarkFrame h h')
    (hres : h'.res c.r = h.res c.r)
    (htree : h.dl.Isolated (.siblings c.r) → h'.dl.Isolated (.siblings c.r))
    (hlist : h.dl.Isolated (.osRes c.r) → h'.dl.Isolated (.osRes c.r)) (htodo : todo ⊆ todo')
    (hkid : c.r ∈ ks q → c.r ∈ ks' q)
    (hreach : WillReach h ks c.avoid pend q → WillReach h' ks' c.avoid pend' q) :
    Inserting c q h' ks' todo' pend' ins := by
  apply hi.imp (fun hf => hf.keep hframe hres htree hlist) (fun hm => hm.mono hframe)
    (fun hr => .inr (hreach hr))
  rintro w - ⟨sr, hsr, how, hstate⟩
  refine ⟨sr, hres.trans hsr, how, ?_⟩
  rcases hstate with ⟨hmarked, hr⟩ | ⟨hun, hr, hq⟩
  · exact .inl ⟨hmarked, htodo hr⟩
  · exact .inr ⟨hun, hkid hr, hreach hq⟩

theorem WillReach.of_start (hr : WillReach h ks c.avoid [c.start] q)
    (hkids : ∀ y z, z ≠ c.start → z ∈ ks y → z ∈ ks' y)
    (hgo : ∀ z, z ≠ c.start → h'.goesTo c.avoid z = h.goesTo c.avoid z) :
    WillReach h' ks' c.avoid [c.start] q := by
  obtain ⟨x, hx, hb⟩ := hr
  rw [mem_singleton.1 hx] at hb
  refine ⟨c.start, mem_singleton_self _, hb.mono ?_⟩
  intro y _ z hz
  rcases eq_or_ne z c.start with heq | hne
  · exact .inl heq
  · obtain ⟨hmem, hgoes⟩ := mem_heirs.1 hz
    exact .inr (mem_heirs.2 ⟨hkids y z hne hmem, (hgo z hne).trans hgoes⟩)

/-- A step of the rescind goes on from the invariant to the invariant. -/
def MarkGoes (c : RaceCalls) (q : ResId) (h : Hype) (ins : InsertPc) (mk : MarkPc) : Prop :=
  ∃ mk' h', markSection c.start (.todo c.t) c.avoid h mk = .ok (mk', h') ∧
    ∃ ks todo pend, RaceInv c q h' ins mk' ks todo pend

theorem RaceInv.mark_step (hi : RaceInv c q h ins .mark ks todo pend) :
    MarkGoes c q h ins .mark := by
  obtain ⟨rfl, ⟨sx, hsx, hun⟩, hloc⟩ := hi.pending
  let h' := h.setRes c.start { sx with srRescinded := true }
  have hframe : MarkFrame h h' := .setRes hsx ⟨rfl, rfl, rfl, rfl, fun _ => rfl⟩
  have hlive : h'.IsLive = h.IsLive := (SameKinds.of_mark hframe).isLive
  have hother : ∀ z, z ≠ c.start → h'.res z = h.res z := fun z hz => update_of_ne hz ..
  have hself : h'.res c.start = some { sx with srRescinded := true } := update_self ..
  have hstep : markSection c.start (.todo c.t) c.avoid h .mark = .ok (.unlink, h') := by
    simp [markSection, markForRescind, hsx, live, hun, h']
  have hdet : Detached h ks todo c.start → Detached h' ks todo c.start :=
    fun hd => ⟨hd.ring, hd.notTodo, hlive ▸ hd.notKid⟩
  refine ⟨_, _, hstep, ks, todo, [c.start], ?_⟩
  refine ⟨?_, hlive ▸ hi.parent, hi.ne, ⟨rfl, ⟨_, hself, rfl⟩, ?_, ?_⟩, ?_⟩
  · exact hi.tree.shrink hframe hi.tree.rings hi.tree.separated fun _ _ => id
  · intro sx' hsx' hroot
    cases hself.symm.trans hsx'
    exact hdet (hloc.root sx hsx hroot)
  · intro sx' hsx' hchild
    cases hself.symm.trans hsx'
    rw [hlive]
    exact hloc.child sx hsx hchild
  · apply hi.inserting.keep hframe (hother _ hi.ne) id id (.refl _) id
    intro hr
    apply hr.of_start fun _ _ _ hz => hz
    intro z hz
    unfold goesTo
    rw [hother z hz]

theorem RaceInv.unlink_step (hi : RaceInv c q h ins .unlink ks todo pend) :
    MarkGoes c q h ins .unlink := by
  obtain ⟨rfl, ⟨sx, hsx, hmarked⟩, hloc⟩ := hi.pending
  by_cases hp : sx.srParent = none
  · have hstep : markSection c.start (.todo c.t) c.avoid h .unlink = .ok (.queue, h) := by
      simp [markSection, hsx, live, hp]
    exact ⟨_, _, hstep, ks, todo, [c.start], hi.tree, hi.parent, hi.ne,
      ⟨rfl, ⟨sx, hsx, hmarked⟩, hloc.root sx hsx hp⟩, hi.inserting⟩
  obtain ⟨p, hplive, hmem⟩ := hloc.child sx hsx hp
  obtain ⟨l1, l2, hl⟩ := append_of_mem hmem
  let h' := h.setDl ((h.dl.detach (.siblings c.start)).init (.siblings c.start))
  have hframe : MarkFrame h h' := .detachInit c.start
  have hstep : markSection c.start (.todo c.t) c.avoid h .unlink = .ok (.queue, h') := by
    simp [markSection, hsx, live, isSome_iff_ne_none.2 hp, h']
  have hne : siblings c.start ≠ .siblings c.r := fun he => hi.ne (siblings.inj he).symm
  have hcell : siblings c.start ≠ .osRes c.r := DRef.noConfusion
  have hkeep : ∀ y z, z ≠ c.start → z ∈ ks y → z ∈ update ks p (l1 ++ l2) y :=
    fun _ _ => (mem_unlink hl).2
  refine ⟨_, _, hstep, update ks p (l1 ++ l2), todo, [c.start], ?_⟩
  refine ⟨?_, hi.parent, hi.ne, ⟨rfl, ⟨sx, hsx, hmarked⟩, ?_⟩, ?_⟩
  · exact hi.tree.shrink hframe (hi.tree.rings.take hplive hl)
      ((hi.tree.separated.detach _).init _) fun _ _ => (mem_unlink hl).1
  · exact ⟨Links.isRing_init _ _, hi.tree.rings.apart p _ hplive hmem,
      hi.tree.rings.take_notMem hplive hl⟩
  · apply hi.inserting.keep hframe rfl (fun hr => (hr.detach hne).init hne)
      (fun hr => (hr.detach hcell).init hcell) (.refl _) (hkeep q c.r hi.ne)
    intro hr
    exact hr.of_start hkeep fun _ _ => rfl

theorem RaceInv.queue_step (hi : RaceInv c q h ins .queue ks todo pend) :
    MarkGoes c q h ins .queue := by
  obtain ⟨rfl, ⟨sx, hsx, hmarked⟩, hdet⟩ := hi.pending
  obtain ⟨h', hqueue, hres, hdl, -⟩ :=
    @invalidateAndQueue_spec h c.start sx sx.srType (.todo c.t) hsx (hi.tree.chunk _ sx hsx)
  have hframe : MarkFrame h h' := invalidateAndQueue_frame (fun _ => DRef.noConfusion) hqueue
  have hlive : h'.IsLive = h.IsLive := (SameKinds.of_mark hframe).isLive
  have hstep : markSection c.start (.todo c.t) c.avoid h .queue =
      .ok (.walk sx.srType (.siblings c.start), h') := by
    simp [markSection, hsx, live, hqueue]
  have hne : siblings c.start ≠ .siblings c.r := fun he => hi.ne (siblings.inj he).symm
  have hgo : h'.goesTo c.avoid = h.goesTo c.avoid := by
    unfold goesTo
    rw [hres]
  refine ⟨_, _, hstep, ks, todo ++ [c.start], [c.start], ?_⟩
  refine ⟨?_, hlive ▸ hi.parent, hi.ne, ⟨rfl, ⟨todo, rfl⟩, ?_⟩, ?_⟩
  · refine hi.tree.shrink hframe ?_ ?_ fun _ _ => id
    · rw [hdl]
      exact hi.tree.rings.queue hdet.ring hdet.notTodo hdet.notKid
    · rw [hdl]
      exact hi.tree.separated.insBefore rfl
  · intro x hx
    rw [mem_singleton.1 hx]
    exact ⟨sx, hres ▸ hsx, hmarked, rfl⟩
  · apply hi.inserting.keep hframe (by rw [hres]) ?_ ?_ (subset_append_left _ _) id
    · intro hr
      exact hr.of_start (fun _ _ _ hz => hz) fun z _ => congrFun hgo z
    · rw [hdl]
      exact fun hr => hr.insBefore hne DRef.noConfusion
    · rw [hdl]
      exact fun hr => hr.insBefore DRef.noConfusion DRef.noConfusion

theorem RaceInv.walk_end
    (hi : RaceInv c q h ins (.walk ra curr) ks todo []) : MarkGoes c q h ins (.walk ra curr) := by
  have hcurr : curr = .todo c.t := hi.pending.1
  have hstep : markSection c.start (.todo c.t) c.avoid h (.walk ra curr) = .ok (.ended 0, h) := by
    simp [markSection, hcurr]
  exact ⟨_, _, hstep, ks, todo, [], hi.tree, hi.parent, hi.ne, rfl, hi.inserting⟩

theorem Marking.heirs_of_ne {z y : ResId}
    (hm : Marking h t todo h' (update ks x []) (h.heirs ks avoid x))
    (ht : Tree h ks t todo) (hx : h.IsLive x) (hz : h.IsLive z) (hzx : z ≠ x)
    (hy : y ∈ h.heirs ks avoid z) : y ∈ h'.heirs (update ks x []) avoid z := by
  obtain ⟨hmem, hgo⟩ := mem_heirs.1 hy
  have hnot : y ∉ h.heirs ks avoid x := by
    intro hyx
    exact hzx (ht.rings.unique z x y hz hx hmem (mem_heirs.1 hyx).1)
  rw [mem_heirs, update_of_ne hzx]
  exact ⟨hmem, (hm.goesTo (ht.kidLive z y hz hmem) hnot).trans hgo⟩

theorem WillReach.sweep (hm : Marking h t todo h' (update ks x []) (h.heirs ks avoid x))
    (ht : Tree h ks t todo) (hpend : ∀ y ∈ x :: rest, h.IsLive y)
    (hr : WillReach h ks avoid (x :: rest) q) (hne : q ≠ x) :
    WillReach h' (update ks x []) avoid (rest ++ h.heirs ks avoid x) q := by
  obtain ⟨y, hy, hb⟩ := hr
  have hylive := hpend y hy
  have hsame : ∀ z, Below (h.heirs ks avoid) y z → z ≠ x → ∀ c ∈ h.heirs ks avoid z,
      c ∈ h'.heirs (update ks x []) avoid z := by
    intro z hz hzx c hc
    exact hm.heirs_of_ne ht (hpend x mem_cons_self) (ht.below_live hylive hz) hzx hc
  rcases hb.sweep hsame with hb' | ⟨c, hc, hb'⟩
  · rcases mem_cons.1 hy with rfl | hy
    -- `x` has no heirs any more
    · rcases hb'.first with heq | ⟨c, hc, -⟩
      · exact absurd heq hne
      · rw [mem_heirs, update_self] at hc
        cases hc.1
    · exact ⟨y, mem_append_left _ hy, hb'⟩
  · exact ⟨c, mem_append_right _ hc, hb'⟩

/-- The new resource is marked and queued with the other children of its parent, if its owner is not
the partition to avoid. -/
theorem Kept.sweep {w : Option OsId}
    (hm : Marking h c.t todo h' (update ks x []) (h.heirs ks c.avoid x))
    (ht : Tree h ks c.t todo) (hpend : ∀ y ∈ x :: rest, h.IsLive y) (hq : h.IsLive q)
    (hw : q = x → w ≠ c.avoid) (hk : Kept c q h ks todo (x :: rest) w) :
    Kept c q h' (update ks x []) (todo ++ h.heirs ks c.avoid x)
      (rest ++ h.heirs ks c.avoid x) w := by
  obtain ⟨sr, hsr, how, hstate⟩ := hk
  obtain ⟨sr', hsr', hmarks⟩ := rel_some (hm.frame.res c.r) hsr
  have hflag := hm.flag c.r sr sr' hsr hsr'
  refine ⟨sr', hsr', hmarks.owner.trans how, ?_⟩
  rcases hstate with ⟨hmarked, hr⟩ | ⟨hun, hr, hreach⟩
  · exact .inl ⟨hmarks.rescinded hmarked, mem_append_left _ hr⟩
  rcases eq_or_ne q x with heq | hne
  · have hgo : h.goesTo c.avoid c.r = true := by
      simp [goesTo, hsr, how, hun, hw heq]
    have hheir : c.r ∈ h.heirs ks c.avoid x := mem_heirs.2 ⟨heq ▸ hr, hgo⟩
    rw [decide_eq_true hheir, Bool.or_true] at hflag
    exact .inl ⟨hflag, mem_append_right _ hheir⟩
  have hnot : c.r ∉ h.heirs ks c.avoid x := by
    intro hx
    exact hne (ht.rings.unique q x c.r hq (hpend x mem_cons_self) hr (mem_heirs.1 hx).1)
  rw [decide_eq_false hnot, hun] at hflag
  rw [update_of_ne hne]
  exact .inr ⟨hflag, hr, hreach.sweep hm ht hpend hne⟩

/-- One step of the walk.  The condition is about the children of `q`. -/
theorem RaceInv.walk_step
    (hi : RaceInv c q h ins (.walk ra curr) ks todo (x :: rest)) (havoid : c.avoid ≠ some c.o)
    (hok : ins = .linked → q = x → c.avoid ≠ none) : MarkGoes c q h ins (.walk ra curr) := by
  obtain ⟨rfl, ⟨done, rfl⟩, hpend⟩ := hi.pending
  obtain ⟨sx, hsx, hmarked, rfl⟩ := hpend x mem_cons_self
  obtain ⟨h', hloop, hm, ht'⟩ := hi.tree.sweep hsx c.avoid
  have hlive : h'.IsLive = h.IsLive := (SameKinds.of_mark hm.frame).isLive
  have hplive : ∀ y ∈ x :: rest, h.IsLive y := by
    intro y hy
    obtain ⟨sy, hsy, -⟩ := hpend y hy
    exact isSome_of_eq_some hsy
  have hlist : done ++ x :: rest ++ h.heirs ks c.avoid x =
      done ++ [x] ++ (rest ++ h.heirs ks c.avoid x) := by simp
  have hnext : h'.dl.next (.siblings x) = queueHead c.t (rest ++ h.heirs ks c.avoid x) := by
    have hring : h'.dl.IsRing (.todo c.t) (done.map .siblings ++
        .siblings x :: (rest ++ h.heirs ks c.avoid x).map .siblings) := by
      simpa using ht'.rings.list
    exact hring.next_cell
  have hstep : markSection c.start (.todo c.t) c.avoid h
      (.walk sx.srType (queueHead c.t (x :: rest))) =
      .ok (.walk sx.srType (queueHead c.t (rest ++ h.heirs ks c.avoid x)), h') := by
    have hhead : queueHead c.t (x :: rest) = .siblings x := rfl
    rw [hhead, ← hnext]
    simp [markSection, hsx, live, hloop]
  refine ⟨_, _, hstep, _, _, _, ht', hlive ▸ hi.parent, hi.ne, ⟨rfl, ⟨done ++ [x], hlist⟩, ?_⟩, ?_⟩
  · intro y hy
    have hold : y ∈ rest → y ∈ x :: rest := mem_cons_of_mem x
    rcases mem_append.1 hy with hy | hy
    · obtain ⟨sy, hsy, hmy, hty⟩ := hpend y (hold hy)
      obtain ⟨sy', hsy', hmarks⟩ := rel_some (hm.frame.res y) hsy
      exact ⟨sy', hsy', hmarks.rescinded hmy, hmarks.type.trans hty⟩
    have hyx := (mem_heirs.1 hy).1
    have hylive := hi.tree.kidLive x y (hplive x mem_cons_self) hyx
    obtain ⟨sy, hsy⟩ := isSome_iff_exists.1 hylive
    obtain ⟨sy', hsy', hmarks⟩ := rel_some (hm.frame.res y) hsy
    have hflag := hm.flag y sy sy' hsy hsy'
    rw [decide_eq_true hy, Bool.or_true] at hflag
    exact ⟨sy', hsy', hflag, hmarks.type.trans (hi.tree.type x y sx sy hsx hsy hyx)⟩
  · apply hi.inserting.imp
    · intro hf
      obtain ⟨htree, hres⟩ := childLoop_isolated hloop hf.tree
      exact hf.keep hm.frame hres (fun _ => htree) (childLoop_isolated_osRes hloop)
    · exact fun hq => hq.mono hm.frame
    · intro hr
      rcases eq_or_ne q x with rfl | hne
      · exact .inl (.mono ⟨sx, hsx, hmarked⟩ hm.frame)
      · exact .inr (hr.sweep hm hi.tree hplive hne)
    · intro w hw hk
      refine hk.sweep hm hi.tree hplive hi.parent fun hqx => ?_
      rcases hw with ⟨hlinked, rfl⟩ | rfl
      · exact (hok hlinked hqx).symm
      · exact havoid.symm

/-! ### The steps of the insertion -/

theorem Pending.keep (hp : Pending c h ks todo pend mk)
    (hstart : h'.res c.start = h.res c.start) (hlive : h'.IsLive = h.IsLive)
    (hmarks : ∀ x sx, h.res x = some sx → ∃ sx', h'.res x = some sx' ∧
      sx'.srRescinded = sx.srRescinded ∧ sx'.srType = sx.srType)
    (hdet : Detached h ks todo c.start → Detached h' ks' todo c.start)
    (hkid : ∀ p, c.start ∈ ks p → c.start ∈ ks' p) : Pending c h' ks' todo pend mk := by
  have hloc : Located h ks todo c.start → Located h' ks' todo c.start := by
    refine fun hl => ⟨fun sx hsx hroot => hdet (hl.root sx (hstart ▸ hsx) hroot), ?_⟩
    intro sx hsx hchild
    obtain ⟨p, hp, hmem⟩ := hl.child sx (hstart ▸ hsx) hchild
    exact ⟨p, hlive ▸ hp, hkid p hmem⟩
  have hmarked : h.IsMarked c.start → h'.IsMarked c.start :=
    fun ⟨sx, hsx, hm⟩ => ⟨sx, hstart.trans hsx, hm⟩
  cases mk with
  | mark =>
    obtain ⟨hpend, ⟨sx, hsx, hun⟩, hl⟩ := hp
    exact ⟨hpend, ⟨sx, hstart.trans hsx, hun⟩, hloc hl⟩
  | unlink => exact ⟨hp.1, hmarked hp.2.1, hloc hp.2.2⟩
  | queue => exact ⟨hp.1, hmarked hp.2.1, hdet hp.2.2⟩
  | walk ra curr =>
    refine ⟨hp.1, hp.2.1, fun x hx => ?_⟩
    obtain ⟨sx, hsx, hm, ht⟩ := hp.2.2 x hx
    obtain ⟨sx', hsx', hm', ht'⟩ := hmarks x sx hsx
    exact ⟨sx', hsx', hm'.trans hm, ht'.trans ht⟩
  | ended err => exact hp

theorem marks_of_update {sr sr' : SysResource} (hsr : h.res r = some sr)
    (hres : h'.res = update h.res r (some sr')) (hre : sr'.srRescinded = sr.srRescinded)
    (htype : sr'.srType = sr.srType) (x : ResId) (sx : SysResource) (hsx : h.res x = some sx) :
    ∃ sx', h'.res x = some sx' ∧ sx'.srRescinded = sx.srRescinded ∧ sx'.srType = sx.srType := by
  rw [hres, update_apply]
  split_ifs with hx
  · subst hx
    cases hsr.symm.trans hsx
    exact ⟨sr', rfl, hre, htype⟩
  · exact ⟨sx, hsx, rfl, rfl⟩

theorem WillReach.of_update {sr sr' : SysResource} (hsr : h.res r = some sr)
    (hres : h'.res = update h.res r (some sr')) (hre : sr'.srRescinded = sr.srRescinded)
    (how : sr.srOwner ≠ c.avoid → sr'.srOwner ≠ c.avoid) (hkids : ∀ y z, z ∈ ks y → z ∈ ks' y)
    (hr : WillReach h ks c.avoid pend q) : WillReach h' ks' c.avoid pend q := by
  obtain ⟨x, hx, hb⟩ := hr
  refine ⟨x, hx, hb.mono fun y _ z hz => .inr ?_⟩
  obtain ⟨hmem, hgo⟩ := mem_heirs.1 hz
  refine mem_heirs.2 ⟨hkids y z hmem, ?_⟩
  unfold goesTo at hgo ⊢
  rw [hres, update_apply]
  split_ifs with hzr
  · subst hzr
    rw [any_some, hre]
    rw [hsr, any_some, Bool.and_eq_true, decide_eq_true_eq] at hgo
    rw [Bool.and_eq_true, decide_eq_true_eq]
    exact ⟨how hgo.1, hgo.2⟩
  · assumption

/-- A step of the insertion goes on from the invariant to the invariant. -/
def InsertGoes (c : RaceCalls) (q : ResId) (h : Hype) (ins : InsertPc) (mk : MarkPc) : Prop :=
  ∃ h' ins', raceStep c ⟨h, ins, mk⟩ .insert = .ok ⟨h', ins', mk⟩ ∧
    ∃ ks todo pend, RaceInv c q h' ins' mk ks todo pend

theorem RaceInv.link_step (hi : RaceInv c q h .start mk ks todo pend) :
    InsertGoes c q h .start mk := by
  obtain ⟨hfresh, hreach⟩ := hi.inserting
  obtain ⟨sr, sq, hsr, hsq, hparent, howner, hun, htype⟩ := hfresh.res
  cases hre : sq.srRescinded with
  | true =>
    have hstep : raceStep c ⟨h, .start, mk⟩ .insert = .ok ⟨h, .refused, mk⟩ := by
      simp [raceStep, insertLink, hsr, hsq, live, hparent, hre]
    exact ⟨_, _, hstep, ks, todo, pend, hi.tree, hi.parent, hi.ne, hi.pending, hfresh⟩
  | false =>
    have hreach : WillReach h ks c.avoid pend q := by
      refine hreach.resolve_left ?_
      rintro ⟨sq', hsq', hmarked⟩
      cases hsq.symm.trans hsq'
      cases hre.symm.trans hmarked
    let sr' : SysResource := { sr with srCookie := h.keys + 1 }
    let h' : Hype := ({ h.setDl (h.dl.insBefore (.siblings c.r) (.children q)) with
      keys := h.keys + 1 } : Hype).setRes c.r sr'
    have hstep : raceStep c ⟨h, .start, mk⟩ .insert = .ok ⟨h', .linked, mk⟩ := by
      simp [raceStep, insertLink, hsr, hsq, live, hparent, hre, h', sr']
    have hres : h'.res = update h.res c.r (some sr') := rfl
    have hkinds : SameKinds h h' := .of_res hsr hres ⟨rfl, rfl⟩ rfl rfl
    have hrlive : h.IsLive c.r := isSome_of_eq_some hsr
    have hdet := hfresh.detached hi.tree
    have hgrow : ∀ y z, z ∈ ks y → z ∈ update ks q (ks q ++ [c.r]) y :=
      fun _ _ hz => mem_link.2 (.inl hz)
    refine ⟨_, _, hstep, update ks q (ks q ++ [c.r]), todo, pend, ?_⟩
    refine ⟨?_, hkinds.isLive ▸ hi.parent, hi.ne, ?_, ?_⟩
    · refine hi.tree.change hkinds ?_ ?_ ?_ ?_
      · exact hi.tree.rings.link hi.parent hdet.ring hdet.notTodo hdet.notKid
      · exact hi.tree.separated.insBefore rfl
      · intro y z hy hz
        rcases mem_link.1 hz with hz | ⟨-, rfl⟩
        · exact hi.tree.kidLive y z hy hz
        · exact hrlive
      · intro y z sy sz hsy hsz hz
        rcases mem_link.1 hz with hz | ⟨rfl, rfl⟩
        · exact hi.tree.type y z sy sz hsy hsz hz
        · cases hsq.symm.trans hsy
          cases hsr.symm.trans hsz
          exact htype
    · apply hi.pending.keep (update_of_ne hi.ne.symm ..) hkinds.isLive
        (marks_of_update hsr hres rfl rfl) ?_ fun p => hgrow p c.start
      intro hd
      refine ⟨?_, hd.notTodo, ?_⟩
      · refine hd.ring.insBefore_of_notMem hdet.ring (hi.tree.rings.children q hi.parent) ?_ ?_
        · simp [hi.ne]
        · intro e he hstart
          rw [mem_singleton.1 hstart] at he
          simp [hd.notKid q hi.parent] at he
      · intro y hy hstart
        rcases mem_link.1 hstart with hstart | ⟨-, heq⟩
        · exact hd.notKid y (hkinds.isLive ▸ hy) hstart
        · exact hi.ne heq.symm
    · refine ⟨sr', update_self .., howner, .inr ⟨hun, ?_, ?_⟩⟩
      · simp
      · exact hreach.of_update hsr hres rfl (fun hne => hne) hgrow

theorem RaceInv.own_step (hi : RaceInv c q h .linked mk ks todo pend)
    (havoid : c.avoid ≠ some c.o) : InsertGoes c q h .linked mk := by
  obtain ⟨sr, hsr, howner, hstate⟩ := hi.inserting
  let sr' : SysResource := { sr with srOwner := some c.o }
  let h' : Hype := (h.setRes c.r sr').setDl (h.dl.insBefore (.osRes c.r) (.poResources c.o))
  have hstep : raceStep c ⟨h, .linked, mk⟩ .insert =
      .ok ⟨h', .inserted sr.srCookie.toInt, mk⟩ := by
    simp [raceStep, insertOwn, hsr, live, h', sr']
  have hres : h'.res = update h.res c.r (some sr') := rfl
  have hkinds : SameKinds h h' := .of_res hsr hres ⟨rfl, rfl⟩ rfl rfl
  refine ⟨_, _, hstep, ks, todo, pend, ?_, hkinds.isLive ▸ hi.parent, hi.ne, ?_, ?_⟩
  · exact hi.tree.change hkinds (hi.tree.rings.insBefore_list hi.tree.separated c.r)
      (hi.tree.separated.insBefore rfl) hi.tree.kidLive hi.tree.type
  · apply hi.pending.keep (update_of_ne hi.ne.symm ..) hkinds.isLive
      (marks_of_update hsr hres rfl rfl) ?_ fun _ => id
    intro hd
    have hkind : ∀ e ∈ [siblings c.start], e.ofList = false := by
      intro e he
      rw [mem_singleton.1 he]
      rfl
    exact ⟨hi.tree.separated.ring_insBefore hd.ring hkind Bool.noConfusion Bool.noConfusion,
      hd.notTodo, hkinds.isLive ▸ hd.notKid⟩
  · refine ⟨sr', update_self .., rfl, hstate.imp_right fun hlate => ?_⟩
    obtain ⟨hun, hr, hreach⟩ := hlate
    exact ⟨hun, hr, hreach.of_update hsr hres rfl (fun _ => havoid.symm) fun _ _ => id⟩

/-! ### The race -/

/-- The condition on the schedule: if no partition is avoided, the children of `q` are not taken
between the two sections of the insertion. -/
def RaceOk (c : RaceCalls) (q : ResId) (s : Race) (a : RaceAct) : Prop :=
  ∀ ra, a = .mark → s.mark = .walk ra (.siblings q) → s.ins = .linked → c.avoid ≠ none

/-- Before the race.  `r` is a new resource with the parent `q`, which the rescind of `start` with
the list `t` will come to. -/
structure RaceStart (c : RaceCalls) (q : ResId) (h : Hype) (ks : ResId → List ResId)
    (todo : List ResId) : Prop where
  tree : Tree h ks c.t todo
  unmarked : ∃ sx, h.res c.start = some sx ∧ sx.srRescinded = false
  located : Located h ks todo c.start
  below : Below (h.heirs ks c.avoid) c.start q
  fresh : Fresh h c.r q
  avoid : c.avoid ≠ some c.o

theorem RaceStart.inv (hs : RaceStart c q h ks todo) :
    RaceInv c q h .start .mark ks todo [c.start] := by
  obtain ⟨sr, sq, hsr, hsq, hparent, -⟩ := hs.fresh.res
  refine ⟨hs.tree, isSome_of_eq_some hsq, ?_, ⟨rfl, hs.unmarked, hs.located⟩,
    hs.fresh, .inr ⟨c.start, mem_singleton_self _, hs.below⟩⟩
  -- `start` is among the children of its parent, and the new resource is not
  intro heq
  rw [heq] at hsr
  obtain ⟨p, hp, hmem⟩ := hs.located.child sr hsr (by rw [hparent]; exact some_ne_none q)
  exact (hs.fresh.detached hs.tree).notKid p hp (heq ▸ hmem)

/-- **Every action that meets the condition can be taken**, and keeps the invariant. -/
theorem RaceInv.step {a : RaceAct} (hi : RaceInv c q h ins mk ks todo pend)
    (havoid : c.avoid ≠ some c.o) (hok : RaceOk c q ⟨h, ins, mk⟩ a) :
    ∃ s', raceStep c ⟨h, ins, mk⟩ a = .ok s' ∧
      ∃ ks todo pend, RaceInv c q s'.h s'.ins s'.mark ks todo pend := by
  cases a with
  | insert =>
    have hgoes : InsertGoes c q h ins mk := by
      cases ins with
      | start => exact hi.link_step
      | linked => exact hi.own_step havoid
      | refused | inserted cookie => exact ⟨_, _, rfl, ks, todo, pend, hi⟩
    obtain ⟨h', ins', hstep, hinv⟩ := hgoes
    exact ⟨_, hstep, hinv⟩
  | mark =>
    have hgoes : MarkGoes c q h ins mk := by
      cases mk with
      | mark => exact hi.mark_step
      | unlink => exact hi.unlink_step
      | queue => exact hi.queue_step
      | walk ra curr =>
        cases pend with
        | nil => exact hi.walk_end
        | cons x rest =>
          refine hi.walk_step havoid fun hlinked hqx => hok ra rfl ?_ hlinked
          have hcurr : curr = .siblings x := hi.pending.1
          rw [hcurr, hqx]
      | ended err => exact ⟨_, _, rfl, ks, todo, pend, hi⟩
    obtain ⟨mk', h', hstep, hinv⟩ := hgoes
    exact ⟨⟨h', ins, mk'⟩, by simp [raceStep, hstep], hinv⟩

/-- What the race comes to: the insertion was refused and the new resource is on no list, or the
rescind has marked it and put it on its list. -/
def RaceOutcome (c : RaceCalls) (q : ResId) (s : Race) : Prop :=
  (s.ins = .refused → Fresh s.h c.r q) ∧
    ∀ cookie err, s.ins = .inserted cookie → s.mark = .ended err →
      s.h.IsMarked c.r ∧ ∃ todo : List ResId,
        s.h.dl.IsRing (.todo c.t) (todo.map .siblings) ∧ c.r ∈ todo

theorem RaceInv.outcome {s : Race} (hi : RaceInv c q s.h s.ins s.mark ks todo pend) :
    RaceOutcome c q s := by
  refine ⟨fun hrefused => ?_, fun cookie err hinserted hended => ?_⟩
  · have hins := hi.inserting
    rwa [hrefused] at hins
  · have hpend := hi.pending
    have hins := hi.inserting
    rw [hended] at hpend
    rw [hinserted] at hins
    obtain ⟨sr, hsr, -, ⟨hmarked, hmem⟩ | ⟨-, -, x, hx, -⟩⟩ := hins
    · exact ⟨⟨sr, hsr, hmarked⟩, todo, hi.tree.rings.list, hmem⟩
    · rw [show pend = [] from hpend] at hx
      cases hx

/-- **An insertion below a resource that is being rescinded is refused, or rescinded too**, under
every schedule that meets the condition; no step of it fails. -/
theorem race_rescinds {acts : List RaceAct} {s : Race} (hs : RaceStart c q h ks todo)
    (hrun : Run (raceStep c) (RaceOk c q) ⟨h, .start, .mark⟩ acts s) :
    RaceOutcome c q s ∧ ∀ a, RaceOk c q s a → ∃ s', raceStep c s a = .ok s' := by
  have hpres : ∀ s a s', (∃ ks todo pend, RaceInv c q s.h s.ins s.mark ks todo pend) →
      RaceOk c q s a → raceStep c s a = .ok s' →
      ∃ ks todo pend, RaceInv c q s'.h s'.ins s'.mark ks todo pend := by
    rintro s a s' ⟨ks, todo, pend, hi⟩ hok hstep
    obtain ⟨s'', hstep', hinv⟩ := hi.step hs.avoid hok
    cases hstep.symm.trans hstep'
    exact hinv
  obtain ⟨ks, todo, pend, hi⟩ := hrun.invariant hpres ⟨ks, todo, [c.start], hs.inv⟩
  refine ⟨hi.outcome, fun a hok => ?_⟩
  obtain ⟨s', hstep, -⟩ := hi.step hs.avoid hok
  exact ⟨s', hstep⟩

end

/-! ### A grant and a rescind -/

/-- Partition 0 has 128 MiB.  It has begun to grant 64 MiB of it, and to rescind the memory. -/
def grantAndRescind : Hv Hype := do
  let h ← step twoPartitions (.define 0 .memAddr 0x10000000 0x8000000 clearedPsm)
  let (_, h) ← addBegin h (.grant 0 .memAddr 0 0x4000000)
  .ok (newTodo h).2

/-- The new resource 1 is for partition 1. -/
def grantRace : RaceCalls where
  r := 1
  o := 1
  start := 0
  t := 2
  avoid := none

def racing : Hype := grantAndRescind.toOption.getD twoPartitions

theorem racing_links (d : DRef) : racing.dl.next d = Equiv.swap (.osRes 0) (.poResources 0) d ∧
    racing.dl.prev d = Equiv.swap (.osRes 0) (.poResources 0) d := by
  rcases d with (_ | _ | n) | (_ | _ | n) | (_ | _ | n) | (_ | n) | (_ | _ | _ | n) <;>
    exact ⟨rfl, rfl⟩

theorem racing_isolated {d : DRef} (hd : d ≠ .osRes 0) (hd' : d ≠ .poResources 0) :
    racing.dl.Isolated d := by
  have hfix : Equiv.swap (.osRes 0) (.poResources 0) d = d :=
    Equiv.swap_apply_of_ne_of_ne hd hd'
  refine ⟨(racing_links d).1.trans hfix, (racing_links d).2.trans hfix, fun e he => ?_⟩
  have hne : Equiv.swap (.osRes 0) (.poResources 0) e ≠ d := by
    rw [← hfix]
    exact fun heq => he (Equiv.injective _ heq)
  rw [(racing_links e).1, (racing_links e).2]
  exact ⟨hne, hne⟩

theorem grantAndRescind_start {h : Hype} (hx : grantAndRescind = .ok h) :
    RaceStart grantRace 0 h (fun _ => []) [] := by
  have hrace : grantAndRescind = .ok racing := rfl
  cases hrace.symm.trans hx
  have hring : ∀ d : DRef, d ≠ .osRes 0 → d ≠ .poResources 0 → racing.dl.IsRing d [] := by
    intro d hd hd'
    have hiso := racing_isolated hd hd'
    exact Links.isRing_nil_iff.2 ⟨hiso.next, hiso.prev⟩
  have hnil : ∀ {r : ResId} {P : Prop}, r ∈ [] → P := nofun
  refine ⟨⟨⟨fun x _ => hring _ nofun nofun, hring _ nofun nofun, fun _ _ _ _ _ => hnil,
    fun _ _ _ => hnil⟩, fun _ _ _ => hnil, fun _ _ _ _ _ _ => hnil, ?_, ?_, ?_⟩, ⟨_, rfl, rfl⟩,
    ⟨fun _ _ _ => ⟨hring _ nofun nofun, hnil, fun _ _ => hnil⟩, fun sx hsx hp => ?_⟩, .start,
    ⟨⟨_, _, rfl, rfl, rfl, rfl, rfl, rfl⟩, racing_isolated nofun nofun,
      racing_isolated nofun nofun⟩, (some_ne_none 1).symm⟩
  · rintro (_ | _ | n) sx hsx _ hmapped
    · rfl
    · cases hmapped
    · cases hsx
  · rintro (_ | _ | n) hx
    · decide
    · decide
    · cases hx
  · rintro ((_ | _ | n) | (_ | _ | n) | (_ | _ | n) | (_ | n) | (_ | _ | _ | n)) <;>
      exact ⟨rfl, rfl⟩
  · cases hsx
    exact absurd rfl hp

/-- The insertion is over before the rescind begins. -/
theorem race_rescinds_granted :
    ∃ h s, grantAndRescind = .ok h ∧
      Run (raceStep grantRace) (RaceOk grantRace 0) ⟨h, .start, .mark⟩
        [.insert, .insert, .mark, .mark, .mark, .mark, .mark, .mark] s ∧
      s.ins = .inserted 3 ∧ s.mark = .ended 0 ∧ RaceOutcome grantRace 0 s := by
  obtain ⟨h, s, hh, hrun, hins, hmark⟩ : ∃ h s, grantAndRescind = .ok h ∧
      Run (raceStep grantRace) (RaceOk grantRace 0) ⟨h, .start, .mark⟩
        [.insert, .insert, .mark, .mark, .mark, .mark, .mark, .mark] s ∧
      s.ins = .inserted 3 ∧ s.mark = .ended 0 := by
    refine ⟨_, _, rfl, .cons ?_ rfl (.cons ?_ rfl (.cons ?_ rfl (.cons ?_ rfl (.cons ?_ rfl
      (.cons ?_ rfl (.cons ?_ rfl (.cons ?_ rfl (.nil _)))))))), rfl, rfl⟩
    all_goals exact nofun
  exact ⟨h, s, hh, hrun, hins, hmark, (race_rescinds (grantAndRescind_start hh) hrun).1⟩

/-- The rescind runs between the two sections of the insertion: the new resource has no owner, as if
it were to be avoided, and is neither marked nor queued. -/
theorem race_misses_grant :
    ¬ ∀ (c : RaceCalls) (q : ResId) (h : Hype) (ks : ResId → List ResId) (todo : List ResId)
        (acts : List RaceAct) (s : Race), RaceStart c q h ks todo →
      Run (raceStep c) (fun _ _ => True) ⟨h, .start, .mark⟩ acts s → RaceOutcome c q s := by
  intro hall
  obtain ⟨h, s, hh, hx, hins, hmark, ⟨sr, hsr, hun⟩⟩ : ∃ h s, grantAndRescind = .ok h ∧
      [.insert, .mark, .mark, .mark, .mark, .mark, .mark, .insert].foldlM
        (raceStep grantRace) ⟨h, .start, .mark⟩ = .ok s ∧
      s.ins = .inserted 3 ∧ s.mark = .ended 0 ∧
      ∃ sr, s.h.res 1 = some sr ∧ sr.srRescinded = false :=
    ⟨_, _, rfl, rfl, rfl, rfl, _, rfl, rfl⟩
  have hout := hall grantRace 0 h _ _ _ s (grantAndRescind_start hh)
    (.of_foldlM (fun _ _ _ => trivial) hx)
  obtain ⟨⟨sr', hsr', hmarked⟩, -⟩ := hout.2 3 0 hins hmark
  cases hsr.symm.trans hsr'
  cases hun.symm.trans hmarked

end Rhype
