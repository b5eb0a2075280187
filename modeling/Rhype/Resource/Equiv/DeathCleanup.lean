import Rhype.Resource.Equiv.Death
import Rhype.Resource.Equiv.Return

/-!
# The cleanup after the death of a partition

When the hypercalls in progress are over, `death_rcu_cleanup` walks the list of the resources that
`partition_death_cleanup` has marked, from its end, and destroys each of them; then it frees the
partition.  The cells of the resources of the dying partition are detached a second time here, by
links that are out of date; they only lead to other cells of the same list, so the lists of the
other partitions lose exactly what is destroyed.
-/

namespace Rhype

open ChunkFrame Function List Option

/-! ### The lists of the partitions -/

section

variable {L : Links DRef} {owned : OsId → List ResId} {back : List ResId} {o p : OsId} {r : ResId}
  {live : OsId → Prop}

theorem ownCells_disjoint (hown : ∀ p p' r, r ∈ owned p → r ∈ owned p' → p = p') {p' : OsId}
    (hne : p ≠ p') (d : DRef) (hd : d ∈ ownCells p (owned p)) : d ∉ ownCells p' (owned p') := by
  intro hd'
  rcases mem_cons.1 hd with rfl | hd
  · rcases mem_cons.1 hd' with heq | hd'
    · exact hne (DRef.poResources.inj heq)
    · obtain ⟨s, -, hs⟩ := mem_map.1 hd'
      cases hs
  obtain ⟨s, hs, rfl⟩ := mem_map.1 hd
  rcases mem_cons.1 hd' with heq | hd'
  · cases heq
  · obtain ⟨s', hs', heq⟩ := mem_map.1 hd'
    cases heq
    exact hne (hown p p' s hs hs')

/-- The lists of the partitions other than `o`, when `back` was destroyed; the cells of `o` only
lead to each other. -/
structure ListsLeft (L : Links DRef) (owned : OsId → List ResId) (live : OsId → Prop) (o : OsId)
    (back : List ResId) : Prop where
  closed : ∀ d ∈ ownCells o (owned o),
    L.next d ∈ ownCells o (owned o) ∧ L.prev d ∈ ownCells o (owned o)
  others : ∀ p, p ≠ o → live p →
    L.IsRing (.poResources p) (((owned p).filter (· ∉ back)).map .osRes)

theorem filter_notMem_of_notMem {rs : List ResId} (hr : r ∉ rs) :
    rs.filter (· ∉ back ++ [r]) = rs.filter (· ∉ back) := by
  refine filter_congr fun s hs => ?_
  have hsr : s ≠ r := fun he => hr (he ▸ hs)
  simp [hsr]

/-- **A resource is taken from the list of its owner**, or for the second time from the list
of `o`. -/
theorem ListsLeft.detach (hl : ListsLeft L owned live o back)
    (hown : ∀ p p' r, r ∈ owned p → r ∈ owned p' → p = p') (hp : live p) (hr : r ∈ owned p)
    (hback : r ∉ back) : ListsLeft (L.detach (.osRes r)) owned live o (back ++ [r]) := by
  have hnot : ∀ p', p' ≠ p → r ∉ owned p' := fun p' hne hr' => hne (hown p' p r hr' hr)
  have hsub : ∀ p', ∀ d ∈ .poResources p' :: ((owned p').filter (· ∉ back)).map .osRes,
      d ∈ ownCells p' (owned p') := by
    intro p' d hd
    rcases mem_cons.1 hd with rfl | hd
    · exact mem_cons_self
    · obtain ⟨s, hs, rfl⟩ := mem_map.1 hd
      exact mem_cons_of_mem _ (mem_map_of_mem (mem_of_mem_filter hs))
  rcases eq_or_ne p o with rfl | hpo
  · have hcell : .osRes r ∈ ownCells p (owned p) :=
      mem_cons_of_mem _ (mem_map_of_mem hr)
    refine ⟨closed_detach hl.closed hcell, fun p' hne hlive => ?_⟩
    rw [filter_notMem_of_notMem (hnot p' hne)]
    have hout : ∀ d ∈ .poResources p' :: ((owned p').filter (· ∉ back)).map .osRes,
        d ∉ ownCells p (owned p) :=
      fun d hd => ownCells_disjoint hown hne d (hsub p' d hd)
    refine (hl.others p' hne hlive).congr (fun d hd => ?_) fun d hd => ?_
    · exact (detach_of_closed hl.closed hcell (hout d hd)).1
    · exact (detach_of_closed hl.closed hcell (hout d hd)).2
  have hring := hl.others p hpo hp
  have hmem : r ∈ (owned p).filter (· ∉ back) := mem_filter.2 ⟨hr, by simpa using hback⟩
  have hcell : .osRes r ∈
      .poResources p :: ((owned p).filter (· ∉ back)).map DRef.osRes :=
    mem_cons_of_mem _ (mem_map_of_mem hmem)
  refine ⟨fun d hd => ?_, fun p' hne hlive => ?_⟩
  · have hdn : d ≠ L.next (.osRes r) := fun he =>
      ownCells_disjoint hown hpo.symm d hd (hsub p d (he ▸ hring.next_mem hcell))
    have hdp : d ≠ L.prev (.osRes r) := fun he =>
      ownCells_disjoint hown hpo.symm d hd (hsub p d (he ▸ hring.prev_mem hcell))
    simpa [Links.detach, hdn, hdp] using hl.closed d hd
  · rcases eq_or_ne p' p with rfl | hpp
    · obtain ⟨l1, l2, hl12⟩ := append_of_mem hmem
      rw [hl12, map_append] at hring
      have hfilter : (owned p').filter (· ∉ back ++ [r]) = l1 ++ l2 := by
        have hnd : (l1 ++ r :: l2).Nodup := by
          refine List.Nodup.of_map DRef.osRes ?_
          rw [map_append]
          exact (nodup_cons.1 hring.1).2
        rw [nodup_middle, nodup_cons] at hnd
        calc (owned p').filter (· ∉ back ++ [r])
            = ((owned p').filter (· ∉ back)).filter (· ≠ r) := by
              simp [and_comm]
          _ = (l1 ++ l2).filter (· ≠ r) := by
              rw [hl12, filter_append, filter_cons_of_neg (by simp), ← filter_append]
          _ = l1 ++ l2 := by
              refine filter_eq_self.2 fun s hs => ?_
              simpa using fun he : s = r => hnd.1 (he ▸ hs)
      rw [hfilter, map_append]
      exact hring.detach_mem
    · rw [filter_notMem_of_notMem (hnot p' hpp)]
      refine (hl.others p' hne hlive).detach_of_disjoint hring hcell fun d hd hd' => ?_
      exact ownCells_disjoint hown hpp.symm d (hsub p d hd) (hsub p' d hd')

theorem ListsLeft.congr {L' : Links DRef} (hl : ListsLeft L owned live o back)
    (hsame : SameLists L L') : ListsLeft L' owned live o back where
  closed := by
    intro d hd
    obtain ⟨hn, hp⟩ := hsame d (ofList_of_mem d hd)
    rw [hn, hp]
    exact hl.closed d hd
  others := fun p hne hlive => hsame.ring (hl.others p hne hlive)

end

/-! ### One resource -/

section

variable {h h' : Hype} {owned : OsId → List ResId} {r : ResId}

def Hype.isMem (h : Hype) (r : ResId) : Bool := (h.res r).any fun sr => sr.srType ≠ .intrSrc

/-- What the cleanup needs of a resource. -/
def Doomed (h : Hype) (owned : OsId → List ResId) (r : ResId) : Prop :=
  ∃ sr p, h.res r = some sr ∧ sr.srRescinded = true ∧ sr.srOwner = some p ∧
    (h.os p).isSome = true ∧ r ∈ owned p ∧
    ∀ m, sr.srType = .mem m → ∃ lci, h.lci r = some lci ∧
      (sr.srMapped = true → Returnable h r ∧ lci.lciDisabled = true)

theorem Doomed.mono (hd : Doomed h owned r) (hf : ChunkFrame h h') : Doomed h' owned r := by
  obtain ⟨sr, p, hsr, hre, hp, hos, hr, hmem⟩ := hd
  refine ⟨sr, p, hf.res ▸ hsr, hre, hp, (rel_isSome (hf.os p)).trans hos, hr, fun m hm => ?_⟩
  obtain ⟨lci, hlci, hret⟩ := hmem m hm
  obtain ⟨lci', hlci', hl⟩ := rel_some (hf.lci r) hlci
  refine ⟨lci', hlci', fun hmapped => ?_⟩
  obtain ⟨hret, hdis⟩ := hret hmapped
  exact ⟨hret.mono hf, hl.disabled hdis⟩

theorem ChunkFrame.setDl (h : Hype) (L : Links DRef) : ChunkFrame h (h.setDl L) :=
  { refl h with }

theorem ChunkFrame.rcuDefer (h : Hype) (n : RcuNode) : ChunkFrame h (h.rcuDefer n) :=
  { refl h with }

/-- **The body of the loop of `forced_rescind_cleanup` succeeds**, and takes the two cells of the
resource from their lists. -/
theorem cleanupRes_spec (hd : Doomed h owned r)
    (hbare : (h.dl.detach (.osRes r)).IsRing (.children r) []) :
    ∃ h', cleanupRes h r = .ok h' ∧ ChunkFrame h h' ∧
      h'.dl = (h.dl.detach (.osRes r)).detach (.siblings r) ∧
      h'.rcu = h.rcu ++ ([r].filter h.isMem).map .physMem := by
  obtain ⟨sr, p, hsr, hre, hp, hos, -, hmem⟩ := hd
  obtain ⟨os, hos⟩ := isSome_iff_exists.1 hos
  let h1 := h.setDl (h.dl.detach (.osRes r))
  have hempty : h1.dl.isEmpty (.children r) = true := hbare.isEmpty_iff.2 rfl
  have hstart : cleanupRes h r =
      (if sr.srMapped then returnFn h1 sr.srType r else .ok h1) >>= fun h =>
        rescindFn h sr.srType r >>= fun h => .ok (h.setDl (h.dl.detach (.siblings r))) := by
    simp only [cleanupRes_eq, hsr, live, ok_bind, hp, nonNull, hos, hassert]
    split_ifs <;> rfl
  rw [hstart]
  cases htype : sr.srType with
  | intrSrc =>
    have hnot : h.isMem r = false := by simp [Hype.isMem, hsr, htype]
    refine ⟨h1.setDl (h1.dl.detach (.siblings r)), ?_, (setDl h _).trans (.setDl _ _), rfl, ?_⟩
    · simp [returnFn, rescindFn]
    · simp [hnot, h1]
  | mem m =>
    have hism : h.isMem r = true := by simp [Hype.isMem, hsr, htype]
    obtain ⟨lci, hlci, hret⟩ := hmem m htype
    -- after `return_fn`, if it is called
    have hreturn : ∃ h2, (if sr.srMapped then returnFn h1 (.mem m) r else .ok h1) = .ok h2 ∧
        ReturnFrame h1 h2 := by
      split_ifs with hmapped
      · obtain ⟨hret, hdis⟩ := hret hmapped
        refine returnFn_spec (hret.mono (.setDl h _)) fun lci' hlci' => ?_
        cases hlci.symm.trans hlci'
        exact hdis
      · exact ⟨h1, rfl, .refl h1⟩
    obtain ⟨h2, hx, hframe⟩ := hreturn
    obtain ⟨lci2, hlci2, -⟩ := rel_some (hframe.lci r) hlci
    let h3 := h2.rcuDefer (.physMem r)
    refine ⟨h3.setDl (h3.dl.detach (.siblings r)), ?_, ?_, ?_, ?_⟩
    · rw [hx]
      simp [rescindFn, hlci2, live, h3]
    · exact ((setDl h _).trans hframe.toChunkFrame).trans
        ((rcuDefer h2 _).trans (.setDl _ _))
    · show h2.dl.detach (.siblings r) = _
      rw [hframe.dl]
      rfl
    · show h2.rcu ++ [.physMem r] = _
      rw [hframe.rcu, filter_cons_of_pos hism]
      rfl

/-! ### The list of the cleanup -/

/-- The cleanup of the list `t`: `order` is destroyed, and `front` is left. -/
structure Cleaning (h1 : Hype) (owned : OsId → List ResId) (o : OsId) (t : Nat) (h : Hype)
    (front order : List ResId) : Prop where
  list : h.dl.IsRing (.todo t) (front.map .siblings)
  bare : ∀ r ∈ front, h.dl.IsRing (.children r) []
  separated : Separated h.dl
  lists : ListsLeft h.dl owned (fun p => (h1.os p).isSome = true) o order
  frame : ChunkFrame h1 h
  rcu : h.rcu = h1.rcu ++ (order.filter h1.isMem).map .physMem

variable {h1 : Hype} {o : OsId} {t : Nat} {front order : List ResId}

/-- **The last resource of the list is destroyed.** -/
theorem Cleaning.step (hown : ∀ p p' r, r ∈ owned p → r ∈ owned p' → p = p')
    (hc : Cleaning h1 owned o t h (front ++ [r]) order) (hd : Doomed h1 owned r) (hr : r ∉ order) :
    ∃ h', cleanupRes h r = .ok h' ∧ Cleaning h1 owned o t h' front (order ++ [r]) := by
  have hsame : ∀ d, d.ofList = false → (h.dl.detach (.osRes r)).next d = h.dl.next d ∧
      (h.dl.detach (.osRes r)).prev d = h.dl.prev d := by
    intro d hk
    exact hc.separated.detach_of_ne (by rw [hk]; exact nofun)
  have hbare : ∀ s ∈ front ++ [r], (h.dl.detach (.osRes r)).IsRing (.children s) [] :=
    fun s hs => @isRing_siblings_congr _ _ _ [] (hc.bare s hs) rfl hsame
  obtain ⟨h', hx, hframe, hdl, hrcu⟩ := cleanupRes_spec (hd.mono hc.frame)
    (hbare r (mem_append_right _ mem_cons_self))
  have hlist := isRing_siblings_congr hc.list rfl hsame
  rw [map_append, map_singleton] at hlist
  obtain ⟨sr, p, -, -, -, hos, hrp, -⟩ := hd
  refine ⟨h', hx, ?_, fun s hs => ?_, ?_, ?_, hc.frame.trans hframe, ?_⟩
  · rw [hdl]
    have hdet := hlist.detach_mem
    rwa [append_nil] at hdet
  · rw [hdl]
    have hring := hbare s (mem_append_left _ hs)
    refine hring.detach_of_disjoint hlist (by simp) fun d hcell => ?_
    rcases mem_cons.1 hcell with rfl | hcell
    · simp
    · rw [← map_singleton, ← map_append] at hcell
      obtain ⟨s', -, rfl⟩ := mem_map.1 hcell
      simp
  · rw [hdl]
    exact (hc.separated.detach _).detach _
  · rw [hdl]
    exact (hc.lists.detach hown hos hrp hr).congr (.detach (hc.separated.detach _) rfl)
  · have hism : h.isMem = h1.isMem := by
      unfold Hype.isMem
      rw [hc.frame.res]
    rw [hrcu, hc.rcu, hism, filter_append, map_append, append_assoc]

/-- **The loop of `forced_rescind_cleanup`** destroys the resources of the list from its end. -/
theorem cleanupLoop_cleaning (hown : ∀ p p' r, r ∈ owned p → r ∈ owned p' → p = p') (fuel : Nat) :
    ∀ (front order : List ResId) (h : Hype), Cleaning h1 owned o t h front order →
      (∀ r ∈ front, Doomed h1 owned r) → (front ++ order).Nodup → front.length < fuel →
      ∃ h',
        cleanupLoop (.todo t) fuel ((front.map DRef.siblings).getLast?.getD (.todo t)) h =
          .ok h' ∧
        front.reverse.foldlM cleanupRes h = .ok h' ∧
        Cleaning h1 owned o t h' [] (order ++ front.reverse) := by
  induction fuel with
  | zero => exact nofun
  | succ fuel ih =>
    intro front order h hc hd hnd hlt
    unfold cleanupLoop
    rcases eq_nil_or_concat front with rfl | ⟨front, r, rfl⟩
    · exact ⟨h, if_pos rfl, rfl, by simpa using hc⟩
    rw [concat_eq_append] at hc hd hnd hlt ⊢
    have hr : r ∉ order := fun hr => (nodup_append.1 hnd).2.2 r (by simp) r hr rfl
    obtain ⟨h2, hx, hc2⟩ := hc.step hown (hd r (by simp)) hr
    have hnd2 : (front ++ (order ++ [r])).Nodup := by
      refine hnd.perm ?_
      rw [append_assoc]
      exact List.Perm.append_left front perm_append_comm
    have hlen : front.length < fuel := by
      rw [length_append, length_singleton] at hlt
      omega
    obtain ⟨h', hloop, hfold, hc'⟩ := ih front (order ++ [r]) h2 hc2
      (fun s hs => hd s (mem_append_left _ hs)) hnd2 hlen
    have hlist := hc.list
    rw [map_append] at hlist
    have hlast : (((front ++ [r]).map DRef.siblings).getLast?.getD (.todo t)) = .siblings r := by
      simp
    refine ⟨h', ?_, ?_, ?_⟩
    · rw [hlast]
      simp only [hlist.prev_cell, hx]
      exact hloop
    · rw [reverse_append, reverse_singleton, singleton_append, foldlM_cons, hx]
      exact hfold
    · rw [reverse_append, reverse_singleton, singleton_append, append_cons]
      exact hc'

/-! ### From the first phase to the second -/

variable {h1 : Hype} {kids ks : ResId → List ResId} {age : ResId → Nat} {o : OsId}
  {todo : List ResId}

theorem Lci.Disables.returns {lci lci' : Lci} (hd : lci.Disables lci') : lci.Returns lci' := by
  rcases hd with rfl | rfl
  · exact .refl _
  · exact ⟨rfl, rfl, rfl, rfl, fun _ => rfl⟩

theorem Returnable.mark (hr : Returnable h r) (hf : MarkFrame h h1) : Returnable h1 r := by
  -- the resources themselves do not matter
  have hframe : ChunkFrame h { h1 with res := h.res, next := h.next } := by
    refine ⟨rfl, rfl, fun p => ?_, fun c => ?_, fun p => ?_⟩
    · rw [← hf.os]
      exact rel_refl Os.Returns.refl _
    · have hrel := hf.lci c
      generalize h.lci c = x, h1.lci c = y at hrel
      cases hrel with
      | none => exact .none
      | some hd => exact .some hd.returns
    · rw [← hf.psm]
      exact rel_refl Psm.Returns.refl _
  have hret := hr.mono hframe
  exact hret

section

variable (he : Estate h kids owned age)
include he

theorem Dying.doomed
    (hret : ∀ r sr m, h.res r = some sr → sr.srRescinded = false → sr.srType = .mem m →
      sr.srMapped = true → Returnable h r)
    (hd : Dying (newTodo h).2 kids (owned o) o h.next h1 ks (owned o) [] todo) (hr : r ∈ todo) :
    Doomed h1 owned r := by
  have hkid : ∀ x c, c ∈ kids x → ∃ sc, (newTodo h).2.res c = some sc ∧ sc.srRescinded = false :=
    fun _ _ hc => he.kid_open hc
  obtain ⟨sr, hsr, hun⟩ := hd.todo_open hkid hr
  obtain ⟨p, hp, hos, hrp⟩ := he.owner r sr hsr hun
  obtain ⟨sr', hsr', hmarks⟩ := rel_some (hd.frame.res r) hsr
  have hre : sr'.srRescinded = true := by
    rw [hd.flag r sr sr' hsr hsr', decide_eq_true hr, Bool.or_true]
  have hos' : (h1.os p).isSome = true := by
    rwa [hd.frame.os]
  refine ⟨sr', p, hsr', hre, hmarks.owner.trans hp, hos', hrp, fun m hm => ?_⟩
  have htype : sr.srType = .mem m := hmarks.type.symm.trans hm
  obtain ⟨lci, hlci⟩ := isSome_iff_exists.1 (he.chunk r sr m hsr htype)
  obtain ⟨lci', hlci', -⟩ := rel_some (hd.frame.lci r) hlci
  refine ⟨lci', hlci', fun hmapped => ?_⟩
  have hmapped' : sr.srMapped = true := hmarks.mapped.symm.trans hmapped
  have hret0 : Returnable (newTodo h).2 r := hret r sr m hsr hun htype hmapped'
  exact ⟨hret0.mark hd.frame, hd.muted r hr sr m hsr htype hmapped' lci' hlci'⟩

theorem Estate.owned_unique : ∀ p p' r, r ∈ owned p → r ∈ owned p' → p = p' := by
  intro p p' r hr hr'
  obtain ⟨sr, hsr, hp⟩ := he.ownedBy p r hr
  obtain ⟨sr', hsr', hp'⟩ := he.ownedBy p' r hr'
  cases hsr.symm.trans hsr'
  exact some.inj (hp.symm.trans hp')

theorem Dying.cleaning (hd : Dying (newTodo h).2 kids (owned o) o h.next h1 ks (owned o) [] todo)
    (hdoomed : ∀ r ∈ todo, Doomed h1 owned r) : Cleaning h1 owned o h.next h1 todo [] := by
  refine ⟨hd.forest.rings.list, fun r hr => ?_, hd.separated, ⟨hd.closed, fun p hne hp => ?_⟩,
    .refl h1, by simp⟩
  · obtain ⟨sr, -, hsr, -⟩ := hdoomed r hr
    have hring := hd.forest.rings.children r (isSome_of_eq_some hsr)
    rwa [hd.emptied r hr] at hring
  · have hp0 : (h.os p).isSome = true := by
      rwa [hd.frame.os] at hp
    have hring : (newTodo h).2.dl.IsRing (.poResources p) ((owned p).map .osRes) :=
      (he.list p hp0).init_of_notMem (by simp)
    have hout : ∀ d ∈ ownCells p (owned p), d ∉ ownCells o (owned o) :=
      ownCells_disjoint he.owned_unique hne
    rw [show (owned p).filter (· ∉ []) = owned p by simp]
    refine hring.congr (fun d hcell => ?_) fun d hcell => ?_
    · exact (hd.other d (ofList_of_mem d hcell) (hout d hcell)).1
    · exact (hd.other d (ofList_of_mem d hcell) (hout d hcell)).2

end

end

/-! ### The deferred work -/

section

variable {h : Hype}

theorem collect_rcuDefer (h : Hype) (n : RcuNode) :
    collect (h.rcuDefer n) h.rcu.length = runNode h n := by
  have hget : (h.rcuDefer n).rcu[h.rcu.length]? = some n := by simp [Hype.rcuDefer]
  have herase : (h.rcuDefer n).rcu.eraseIdx h.rcu.length = h.rcu := by
    simp [eraseIdx_append_of_length_le]
  rw [collect, hget, herase]
  rfl

/-- The resources `rs` of memory are destroyed. -/
def Hype.without (h : Hype) (rs : List ResId) : Hype :=
  { h with
    lci := fun c => if c ∈ rs then none else h.lci c
    res := fun r => if r ∈ rs then none else h.res r }

theorem runNode_physMem (rs : List ResId) : ∀ h : Hype,
    (rs.map RcuNode.physMem).foldlM runNode h = .ok (h.without rs) := by
  induction rs with
  | nil =>
    intro h
    rfl
  | cons r rs ih =>
    intro h
    have hnode : runNode h (.physMem r) = .ok (h.without [r]) := by
      have hupdate : ∀ {α : Type} (f : Nat → Option α),
          update f r none = fun c => if c = r then none else f c := by
        intro α f
        funext c
        rw [update_apply]
      simp only [runNode, Hype.without, mem_singleton, hupdate]
    have hwithout : (h.without [r]).without rs = h.without (r :: rs) := by
      simp only [Hype.without, Hype.mk.injEq, true_and, and_true]
      refine ⟨?_, ?_⟩
      all_goals
        funext c
        by_cases hc : c = r <;> simp [hc]
    rw [map_cons, foldlM_cons, hnode, ← hwithout]
    exact ih _

theorem osFree_spec {o : OsId} {os : Os} (hos : h.os o = some os) :
    ∃ h', osFree h o = .ok h' ∧ h'.os = update h.os o none ∧ h'.dl = h.dl ∧
      h'.res = h.res ∧ h'.rcu = h.rcu ++ os.poPsm.toList.map .psm := by
  rw [osFree, hos, live, ok_bind]
  cases os.poPsm with
  | none => exact ⟨_, rfl, rfl, rfl, rfl, by simp⟩
  | some p => exact ⟨_, rfl, rfl, rfl, rfl, rfl⟩

/-- The work that the death of a partition defers: resources of memory, and a page-share manager. -/
theorem runNodes_death (h : Hype) (rs : List ResId) (psm : Option LciId) :
    ∃ h', (rs.map RcuNode.physMem ++ psm.toList.map RcuNode.psm).foldlM runNode h = .ok h' ∧
      (∀ x ∈ rs, h'.res x = none ∧ h'.lci x = none) ∧ ∀ x, x ∉ rs → h'.res x = h.res x := by
  rw [foldlM_append, runNode_physMem]
  have hgone : ∀ x ∈ rs, (h.without rs).res x = none ∧ (h.without rs).lci x = none :=
    fun x hx => ⟨if_pos hx, if_pos hx⟩
  rcases psm with _ | p
  · exact ⟨_, rfl, hgone, fun x hx => if_neg hx⟩
  refine ⟨_, rfl, fun x hx => ⟨(hgone x hx).1, ?_⟩, fun x hx => if_neg hx⟩
  show update (h.without rs).lci p none x = none
  rw [update_apply, (hgone x hx).2]
  exact ite_self none

end

/-! ### The death of a partition -/

/-- What is left when the partition `o` is gone.  `order` was destroyed; `h'` is the state after
`death_rcu_cleanup`, and `h''` when the work that it has deferred is done. -/
structure Buried (h h' h'' : Hype) (kids : ResId → List ResId) (owned : OsId → List ResId)
    (o : OsId) (order : List ResId) : Prop where
  exactly : ∀ x, x ∈ order ↔ ∃ r ∈ owned o, h.isOpen r = true ∧ Below kids r x
  once : order.Nodup
  childFirst : ∀ x ∈ order, ∀ c ∈ kids x, Before order c x
  lists : ∀ p, p ≠ o → (h.os p).isSome = true →
    h'.dl.IsRing (.poResources p) (((owned p).filter (· ∉ order)).map .osRes)
  partitions : ∀ p, (h'.os p).isSome = true ↔ p ≠ o ∧ (h.os p).isSome = true
  destroyed : ∀ x ∈ order, h.isMem x = true → h''.res x = none ∧ h''.lci x = none
  kept : ∀ x, x ∉ order → ∀ sr, h.res x = some sr → ∃ sr', h''.res x = some sr' ∧
    sr.Marks sr' ∧ sr'.srRescinded = sr.srRescinded

section

variable {h : Hype} {kids : ResId → List ResId} {owned : OsId → List ResId} {age : ResId → Nat}
  {o : OsId}

end

/-! ### A partition with an heir -/

/-- Partition 0 has 128 MiB, of which it has granted 64 MiB to partition 1; partition 1 has other
64 MiB. -/
def inheriting : List Op :=
  [.define 0 .memAddr 0x10000000 0x8000000 clearedPsm, .grant 0 .memAddr 0 0x4000000 1,
    .define 1 .memAddr 0x20000000 0x4000000 clearedPsm]

/-- The children and the lists in such a state. -/
def inheritKids (r : ResId) : List ResId := if r = 0 then [1] else []

def inheritOwned (o : OsId) : List ResId := if o = 0 then [0] else if o = 1 then [1, 2] else []

def inherited : Hype := (inheriting.foldlM step twoPartitions).toOption.getD twoPartitions

theorem mem_inheritKids {r c : ResId} (hc : c ∈ inheritKids r) : r = 0 ∧ c = 1 := by
  unfold inheritKids at hc
  split_ifs at hc with hr
  · exact ⟨hr, mem_singleton.1 hc⟩
  · cases hc

theorem inherited_forall {P : ResId → SysResource → Prop}
    (hP : ∀ r < 3, ∀ sr ∈ inherited.res r, P r sr) (r : ResId) (sr : SysResource)
    (hsr : inherited.res r = some sr) : P r sr := by
  match r with
  | 0 | 1 | 2 => exact hP _ (by decide) sr hsr
  | n + 3 => cases hsr

theorem estate_inheriting : Estate inherited inheritKids inheritOwned id where
  children r hr := by
    obtain ⟨sr, hsr⟩ := isSome_iff_exists.1 hr
    exact inherited_forall (P := fun r _ => inherited.dl.IsRing (.children r)
      ((inheritKids r).map .siblings)) (by decide +kernel) r sr hsr
  kidLive r c hc := by
    obtain ⟨rfl, rfl⟩ := mem_inheritKids hc
    exact ⟨rfl, rfl⟩
  unique r s c hr hs := (mem_inheritKids hr).1.trans (mem_inheritKids hs).1.symm
  root := by
    refine inherited_forall fun r hr sr hsr hres hparent => ?_
    obtain ⟨hring, hne⟩ := (by decide +kernel : ∀ r < 3, ∀ sr ∈ inherited.res r,
      sr.srParent = none → inherited.dl.IsRing (.siblings r) [] ∧ r ≠ 1) r hr sr hsr hparent
    exact ⟨hring, fun s hs => hne (mem_inheritKids hs).2⟩
  child r sr q hsr _ hq := inherited_forall (P := fun r sr => ∀ q ∈ sr.srParent, r ∈ inheritKids q)
    (by decide +kernel) r sr hsr q hq
  settled r sr hsr hres := absurd hres (inherited_forall
    (P := fun _ sr => ¬ sr.srRescinded = true) (by decide +kernel) r sr hsr)
  type r c sr sc hsr hsc hc := by
    obtain ⟨rfl, rfl⟩ := mem_inheritKids hc
    cases hsr
    cases hsc
    rfl
  chunk r sr _ hsr _ := inherited_forall (P := fun r _ => (inherited.lci r).isSome = true)
    (by decide +kernel) r sr hsr
  bound r hr := by
    obtain ⟨sr, hsr⟩ := isSome_iff_exists.1 hr
    exact inherited_forall (P := fun r _ => r < inherited.next) (by decide +kernel) r sr hsr
  newer r c hc := by
    obtain ⟨rfl, rfl⟩ := mem_inheritKids hc
    decide
  list o ho := by
    match o with
    | 0 | 1 => decide +kernel
    | n + 2 => cases ho
  owner r sr hsr _ := by
    obtain ⟨o, ho, hos, hr⟩ := inherited_forall (P := fun r sr => ∃ o ∈ sr.srOwner,
      (inherited.os o).isSome = true ∧ r ∈ inheritOwned o) (by decide +kernel) r sr hsr
    exact ⟨o, ho, hos, hr⟩
  ownedBy o r hr := by
    match o with
    | 0 | 1 =>
      obtain ⟨sr, hsr, hown⟩ := (by decide +kernel : ∀ o < 2, ∀ r ∈ inheritOwned o,
        ∃ sr ∈ inherited.res r, sr.srOwner = some o) _ (by decide) r hr
      exact ⟨sr, hsr, hown⟩
    | n + 2 => cases hr
  sorted o := by
    unfold inheritOwned
    split_ifs <;> simp
  separated := by
    rintro ((_ | _ | _ | n) | (_ | _ | _ | n) | (_ | _ | _ | n) | (_ | _ | n) | t) <;>
      exact ⟨rfl, rfl⟩

theorem Returnable.of_noPsm {h : Hype} {r : ResId} {lci : Lci} {q : OsId} {os : Os}
    (hlci : h.lci r = some lci) (hops : lci.lciOps = .physMem) (hq : lci.lciOs = some q)
    (hos : h.os q = some os) (hpsm : os.poPsm = none) : Returnable h r := by
  refine ⟨lci, q, os, hlci, hops, hq, hos, fun p hp => ?_⟩
  cases hpsm.symm.trans hp

end Rhype
