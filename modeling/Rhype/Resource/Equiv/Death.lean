import Rhype.Resource.Equiv.ForestMark
import Rhype.Walk.Harvest

/-!
# The death of a partition marks what it owns (`partition_death_cleanup`)

`Estate` is what holds of the resources, their trees and the lists of the partitions when no call is
in progress.  The loop of `partition_death_cleanup` takes the resources of the partition from its
list, one after the other, and rescinds each one with what was granted from it, apart from the other
resources of the partition.  So it is a sequence of walks of the forest (`Harvest`).

`dlist_detach` leaves the links of a cell as they are.  The cells of the resources that were taken
from the list still point to each other (`Dying.closed`), which matters for the cleanup.
-/

namespace Rhype

open Hype Links List

/-! ### The resources and their lists -/

def Hype.isOpen (h : Hype) (r : ResId) : Bool := (h.res r).any fun sr => !sr.srRescinded

/-- The resources when no call is in progress: `kids r` are the children of `r`, and `owned o` is
the list of the partition `o`.  A resource that is being rescinded may still be on the list of its
owner, but it is in no tree.

`age r` stands for the time when `r` was made: a resource is made after its parent, and
`insert_resource` appends it to the list of its owner. -/
structure Estate (h : Hype) (kids : ResId → List ResId) (owned : OsId → List ResId)
    (age : ResId → Nat) : Prop where
  children : ∀ r, h.IsLive r → h.dl.IsRing (.children r) ((kids r).map .siblings)
  kidLive : ∀ r c, c ∈ kids r → h.IsLive r ∧ h.IsLive c
  unique : ∀ r s c, c ∈ kids r → c ∈ kids s → r = s
  root : ∀ r sr, h.res r = some sr → sr.srRescinded = false → sr.srParent = none →
    h.dl.IsRing (.siblings r) [] ∧ ∀ s, r ∉ kids s
  child : ∀ r sr q, h.res r = some sr → sr.srRescinded = false → sr.srParent = some q → r ∈ kids q
  settled : ∀ r sr, h.res r = some sr → sr.srRescinded = true → kids r = [] ∧ ∀ s, r ∉ kids s
  type : ∀ r c sr sc, h.res r = some sr → h.res c = some sc → c ∈ kids r → sc.srType = sr.srType
  chunk : ∀ r sr m, h.res r = some sr → sr.srType = .mem m → (h.lci r).isSome = true
  bound : ∀ r, h.IsLive r → r < h.next
  newer : ∀ r c, c ∈ kids r → age r < age c
  list : ∀ o, (h.os o).isSome = true → h.dl.IsRing (.poResources o) ((owned o).map .osRes)
  owner : ∀ r sr, h.res r = some sr → sr.srRescinded = false →
    ∃ o, sr.srOwner = some o ∧ (h.os o).isSome = true ∧ r ∈ owned o
  ownedBy : ∀ o r, r ∈ owned o → ∃ sr, h.res r = some sr ∧ sr.srOwner = some o
  sorted : ∀ o, (owned o).Pairwise fun r s => age r < age s
  separated : Separated h.dl

section

variable {h : Hype} {kids : ResId → List ResId} {owned : OsId → List ResId}
  {age : ResId → Nat} {o : OsId} {r c : ResId}

theorem Hype.isOpen_iff : h.isOpen r = true ↔ ∃ sr, h.res r = some sr ∧ sr.srRescinded = false := by
  unfold isOpen
  cases hsr : h.res r with
  | none => simp
  | some sr => simp

namespace Estate

section

variable (he : Estate h kids owned age)
include he

theorem mem_roots : r ∈ (owned o).filter h.isOpen ↔
    ∃ sr, h.res r = some sr ∧ sr.srRescinded = false ∧ sr.srOwner = some o := by
  rw [mem_filter, isOpen_iff]
  constructor
  · rintro ⟨hr, sr, hsr, hun⟩
    obtain ⟨sr', hsr', how⟩ := he.ownedBy o r hr
    cases hsr.symm.trans hsr'
    exact ⟨sr, hsr, hun, how⟩
  · rintro ⟨sr, hsr, hun, how⟩
    obtain ⟨o', how', -, hmem⟩ := he.owner r sr hsr hun
    cases how.symm.trans how'
    exact ⟨hmem, sr, hsr, hun⟩

theorem aged (o : OsId) : Aged kids age ((owned o).filter h.isOpen) where
  unique := he.unique
  newer := he.newer
  sorted := (he.sorted o).sublist filter_sublist

theorem kid_open (hc : c ∈ kids r) : ∃ sc, h.res c = some sc ∧ sc.srRescinded = false := by
  obtain ⟨sc, hsc⟩ := Option.isSome_iff_exists.1 (he.kidLive r c hc).2
  refine ⟨sc, hsc, ?_⟩
  cases hre : sc.srRescinded with
  | false => rfl
  | true => exact absurd hc ((he.settled c sc hsc hre).2 r)

theorem goesTo_kid (hc : c ∈ kids r) :
    h.goesTo (some o) c = true ↔ c ∉ (owned o).filter h.isOpen := by
  obtain ⟨sc, hsc, hun⟩ := he.kid_open hc
  have hmem : c ∈ (owned o).filter h.isOpen ↔ sc.srOwner = some o := by
    rw [he.mem_roots]
    constructor
    · rintro ⟨sc', hsc', -, how⟩
      cases hsc.symm.trans hsc'
      exact how
    · exact fun how => ⟨sc, hsc, hun, how⟩
  simp [goesTo, hsc, hun, hmem]

theorem forest : Forest (newTodo h).2 kids h.next [] := by
  have hcell : ∀ (head : DRef) (xs : List ResId), head ≠ .todo h.next →
      .todo h.next ∉ head :: xs.map .siblings := by
    intro head xs hhead hmem
    rcases mem_cons.1 hmem with heq | hmem
    · exact hhead heq.symm
    · obtain ⟨x, -, hx⟩ := mem_map.1 hmem
      cases hx
  have hrings : Rings (newTodo h).2.dl h.IsLive kids h.next [] := by
    refine ⟨fun r hr => ?_, isRing_init _ _, fun r s c _ _ => he.unique r s c, nofun⟩
    exact (he.children r hr).init_of_notMem (hcell _ _ nofun)
  refine ⟨hrings, fun r c _ hc => (he.kidLive r c hc).2, ?_, ?_, he.type, ?_, ?_, age, ?_⟩
  · intro r sr hsr hun hroot
    obtain ⟨hring, hnkid⟩ := he.root r sr hsr hun hroot
    refine ⟨hring.init_of_notMem ?_, nofun, fun s _ => hnkid s⟩
    exact hcell (.siblings r) [] nofun
  · intro r sr q hsr hun hparent
    have hmem := he.child r sr q hsr hun hparent
    exact ⟨(he.kidLive q r hmem).1, hmem⟩
  · intro r sr hsr hne _
    cases htype : sr.srType with
    | mem m => exact he.chunk r sr m hsr htype
    | intrSrc => exact absurd htype hne
  · exact fun r hr => (he.bound r hr).trans (Nat.lt_succ_self _)
  · exact fun r c _ hc => he.newer r c hc

end

end Estate

end

/-! ### The list of the dying partition -/

/-- The cells of the list of `o`, with those that were taken from it. -/
def ownCells (o : OsId) (rs : List ResId) : List DRef := .poResources o :: rs.map .osRes

variable {L : Links DRef} {cells : List DRef}

theorem closed_detach {x : DRef} (hc : ∀ d ∈ cells, L.next d ∈ cells ∧ L.prev d ∈ cells)
    (hx : x ∈ cells) : ∀ d ∈ cells, (L.detach x).next d ∈ cells ∧ (L.detach x).prev d ∈ cells := by
  intro d hd
  simp only [detach, next_setPrev, next_setNext, prev_setPrev, prev_setNext]
  refine ⟨?_, ?_⟩
  · split_ifs
    · exact (hc x hx).1
    · exact (hc d hd).1
  · split_ifs
    · exact (hc x hx).2
    · exact (hc d hd).2

theorem detach_of_closed {x d : DRef}
    (hc : ∀ d ∈ cells, L.next d ∈ cells ∧ L.prev d ∈ cells) (hx : x ∈ cells) (hd : d ∉ cells) :
    (L.detach x).next d = L.next d ∧ (L.detach x).prev d = L.prev d := by
  have hn : d ≠ L.next x := fun he => hd (he ▸ (hc x hx).1)
  have hp : d ≠ L.prev x := fun he => hd (he ▸ (hc x hx).2)
  simp [detach, hn, hp]

theorem Forest.setDl {h : Hype} {ks : ResId → List ResId} {t : Nat} {todo : List ResId}
    (hf : Forest h ks t todo)
    (hsame : ∀ d, d.ofList = false → L.next d = h.dl.next d ∧ L.prev d = h.dl.prev d) :
    Forest (h.setDl L) ks t todo := by
  refine ⟨⟨fun r hr => isRing_siblings_congr (hf.rings.children r hr) rfl hsame,
    isRing_siblings_congr hf.rings.list rfl hsame, hf.rings.unique, hf.rings.apart⟩, hf.kidLive, ?_,
    hf.child, hf.type, hf.chunk, hf.bound, hf.acyclic⟩
  intro r sr hsr hun hroot
  obtain ⟨hr, hrest⟩ := hf.root r sr hsr hun hroot
  exact ⟨@isRing_siblings_congr _ _ _ [] hr rfl hsame, hrest⟩

/-- The walk of `partition_death_cleanup`: it has taken `done` from the list `rs` of `o`, `rem` is
left, and `todo` is what it has marked. -/
structure Dying (h0 : Hype) (kids : ResId → List ResId) (rs : List ResId) (o : OsId) (t : Nat)
    (h : Hype) (ks : ResId → List ResId) (done rem todo : List ResId) : Prop where
  split : rs = done ++ rem
  forest : Forest h ks t todo
  separated : Separated h.dl
  own : h.dl.IsRing (.poResources o) (rem.map .osRes)
  closed : ∀ d ∈ ownCells o rs, h.dl.next d ∈ ownCells o rs ∧ h.dl.prev d ∈ ownCells o rs
  other : ∀ d, d.ofList = true → d ∉ ownCells o rs →
    h.dl.next d = h0.dl.next d ∧ h.dl.prev d = h0.dl.prev d
  frame : MarkFrame h0 h
  flag : Flagged h0 h todo
  muted : ∀ r ∈ todo, ∀ sr m, h0.res r = some sr → sr.srType = .mem m → sr.srMapped = true →
    ∀ lci, h.lci r = some lci → lci.lciDisabled = true
  left : ∀ x, h0.IsLive x → x ∉ todo → ks x = (kids x).filter (· ∉ todo)
  emptied : ∀ x ∈ todo, ks x = []
  harvest : Harvest kids (rs.filter h0.isOpen) (done.filter h0.isOpen) (rem.filter h0.isOpen) todo

section

variable {h0 h h' : Hype} {kids ks : ResId → List ResId} {rs done rem todo : List ResId} {o : OsId}
  {t : Nat} {r x : ResId} {owned : OsId → List ResId} {order : List ResId}

theorem MarkFrame.unlist (hne : h.dl.next (.osRes r) ≠ .osRes r) :
    MarkFrame h (h.setDl (h.dl.detach (.osRes r))) := by
  apply MarkFrame.setDl
  intro q hq
  rcases eq_or_ne q r with rfl | hqr
  · obtain ⟨y, hy, hnext⟩ := hq
    simp only [detach, next_setPrev, next_setNext] at hnext
    split_ifs at hnext
    · exact absurd hnext hne
    · exact ⟨y, hy, hnext⟩
  · exact hq.of_detach fun he => hqr (DRef.osRes.inj he).symm

/-- **The first resource is taken from the list.**  All but the list stays as it was. -/
theorem Dying.unlist (hd : Dying h0 kids rs o t h ks done (r :: rem) todo)
    (hh' : h' = h.setDl (h.dl.detach (.osRes r))) :
    h.dl.next (.osRes r) = (rem.map DRef.osRes).head?.getD (.poResources o) ∧
      Forest h' ks t todo ∧ Separated h'.dl ∧ h'.dl.IsRing (.poResources o) (rem.map .osRes) ∧
      (∀ d ∈ ownCells o rs, h'.dl.next d ∈ ownCells o rs ∧ h'.dl.prev d ∈ ownCells o rs) ∧
      (∀ d, d.ofList = true → d ∉ ownCells o rs →
        h'.dl.next d = h0.dl.next d ∧ h'.dl.prev d = h0.dl.prev d) ∧ MarkFrame h h' := by
  have hring : h.dl.IsRing (.poResources o) ([] ++ .osRes r :: rem.map .osRes) := hd.own
  have hcell : .osRes r ∈ ownCells o rs := by
    rw [hd.split]
    simp [ownCells]
  have hnext := hring.next_cell
  have hne : h.dl.next (.osRes r) ≠ .osRes r := by
    intro heq
    have hmem : .osRes r ∈ .poResources o :: rem.map DRef.osRes := by
      rw [← heq, hnext]
      cases rem with
      | nil => exact mem_cons_self
      | cons s rem => simp
    have hnd := hring.1
    rw [nil_append, nodup_cons, nodup_cons] at hnd
    rcases mem_cons.1 hmem with heq | hmem
    · cases heq
    · exact hnd.2.1 hmem
  refine ⟨hnext, ?_, ?_, ?_, ?_, ?_, hh' ▸ .unlist hne⟩
  · rw [hh']
    refine hd.forest.setDl fun d hk => ?_
    exact hd.separated.detach_of_ne (by rw [hk]; exact nofun)
  · rw [hh']
    exact hd.separated.detach _
  · rw [hh']
    exact hring.detach_mem
  · rw [hh']
    exact closed_detach hd.closed hcell
  · intro d hk hnot
    obtain ⟨hn, hp⟩ := detach_of_closed hd.closed hcell hnot
    obtain ⟨hn', hp'⟩ := hd.other d hk hnot
    rw [hh']
    exact ⟨hn.trans hn', hp.trans hp'⟩

theorem Dying.skip (hd : Dying h0 kids rs o t h ks done (r :: rem) todo)
    (hopen : h0.isOpen r = false) (hh' : h' = h.setDl (h.dl.detach (.osRes r))) :
    Dying h0 kids rs o t h' ks (done ++ [r]) rem todo := by
  obtain ⟨-, hforest, hsep, hown, hclosed, hother, hframe⟩ := hd.unlist hh'
  have hres : h'.res = h.res := by rw [hh', setDl_res]
  have hlci : h'.lci = h.lci := by rw [hh', setDl_lci]
  refine ⟨by rw [hd.split, append_assoc, singleton_append], hforest, hsep, hown, hclosed,
    hother, hd.frame.trans hframe, ?_, ?_, hd.left, hd.emptied, ?_⟩
  · intro x sx sx' hsx hsx'
    exact hd.flag x sx sx' hsx (hres ▸ hsx')
  · intro x hx sx m hsx hm hmapped lci hlci'
    exact hd.muted x hx sx m hsx hm hmapped lci (hlci ▸ hlci')
  · have hh := hd.harvest
    rw [filter_cons_of_neg (by rw [hopen]; exact nofun)] at hh
    rwa [filter_append, filter_cons_of_neg (by rw [hopen]; exact nofun), filter_nil, append_nil]

theorem Flagged.trans (h1 : Flagged h0 h todo) (hf : MarkFrame h0 h)
    (h2 : Flagged h h' order) : Flagged h0 h' (todo ++ order) := by
  intro x sx sx'' hsx hsx''
  obtain ⟨sx', hsx', -⟩ := rel_some (hf.res x) hsx
  rw [h2 x sx' sx'' hsx' hsx'', h1 x sx sx' hsx hsx']
  simp [Bool.or_assoc]

theorem MarkedForest.muted {ks' : ResId → List ResId} {avoid : Option OsId}
    {sr : SysResource} (hf : Forest h ks t todo)
    (hm : MarkedForest h h' ks ks' avoid r t todo order) (hsr : h.res r = some sr)
    (hun : sr.srRescinded = false) (hx : forcedRescindMark h r (.todo t) avoid = .ok (0, h')) :
    ∀ x ∈ order, ∀ sx m, h.res x = some sx → sx.srType = .mem m → sx.srMapped = true →
      ∀ lci, h'.lci x = some lci → lci.lciDisabled = true := by
  intro x hx' sx m hsx htype hmapped lci hlci
  obtain ⟨sx', hsx', htx⟩ := hf.below_type hsr ((hm.met x).1 hx')
  cases hsx.symm.trans hsx'
  obtain ⟨new, hlog, hdis⟩ := forcedRescindMark_muted (fun _ => DRef.noConfusion) hsr hun
    (htx.symm.trans htype) hx
  have hnew : new = order.filter h.isMapped :=
    append_cancel_left (hlog.symm.trans hm.marking.log)
  refine hdis x ?_ lci hlci
  rw [hnew, mem_filter]
  exact ⟨hx', by simp [isMapped, hsx, hmapped]⟩

section

variable {age : ResId → Nat} (ha : Aged kids age (rs.filter h0.isOpen))
  (hkid : ∀ x c, c ∈ kids x → ∃ sc, h0.res c = some sc ∧ sc.srRescinded = false)
  (hgo : ∀ x c, c ∈ kids x → (h0.goesTo (some o) c = true ↔ c ∉ rs.filter h0.isOpen))

include hkid in
theorem Dying.todo_open (hd : Dying h0 kids rs o t h ks done rem todo) (hx : x ∈ todo) :
    ∃ sx, h0.res x = some sx ∧ sx.srRescinded = false := by
  obtain ⟨r, hr, hb⟩ := (hd.harvest.mem x).1 hx
  cases hb with
  | start => exact isOpen_iff.1 (mem_filter.1 hr).2
  | child _ hc => exact hkid _ _ (mem_others.1 hc).1

include hkid hgo in
theorem Dying.mem_heirs {c : ResId} (hd : Dying h0 kids rs o t h ks done rem todo)
    (hres : h'.res = h.res) (hx : h0.IsLive x) (hxt : x ∉ todo) :
    c ∈ h'.heirs ks (some o) x ↔ c ∈ others kids (rs.filter h0.isOpen) x ∧ c ∉ todo := by
  have hgo' : ∀ c, c ∈ kids x → c ∉ todo → h'.goesTo (some o) c = h0.goesTo (some o) c := by
    intro c hc hct
    obtain ⟨sc, hsc, -⟩ := hkid x c hc
    obtain ⟨sc', hsc', hmarks⟩ := rel_some (hd.frame.res c) hsc
    have hflag := hd.flag c sc sc' hsc hsc'
    rw [decide_eq_false hct, Bool.or_false] at hflag
    simp only [goesTo, hres, hsc, hsc', Option.any_some, hmarks.owner, hflag]
  rw [heirs, mem_filter, hd.left x hx hxt, mem_filter, mem_others]
  simp only [decide_eq_true_eq]
  constructor
  · rintro ⟨⟨hc, hct⟩, hg⟩
    exact ⟨⟨hc, (hgo x c hc).1 (hgo' c hc hct ▸ hg)⟩, hct⟩
  · rintro ⟨⟨hc, hown⟩, hct⟩
    exact ⟨⟨hc, hct⟩, (hgo' c hc hct).trans ((hgo x c hc).2 hown)⟩

include ha hkid hgo in
/-- **The first resource is rescinded, with what was granted from it.** -/
theorem Dying.mark (hd : Dying h0 kids rs o t h ks done (r :: rem) todo)
    (hopen : h0.isOpen r = true) {h1 : Hype} (hh1 : h1 = h.setDl (h.dl.detach (.osRes r))) :
    ∃ sr h' ks' order, h.res r = some sr ∧ sr.srRescinded = false ∧
      forcedRescindMark h1 r (.todo t) (some o) = .ok (0, h') ∧
      Dying h0 kids rs o t h' ks' (done ++ [r]) rem (todo ++ order) := by
  obtain ⟨-, hforest, hsep, hown, hclosed, hother, hframe⟩ := hd.unlist hh1
  have hres : h1.res = h.res := by rw [hh1, setDl_res]
  have hlci : h1.lci = h.lci := by rw [hh1, setDl_lci]
  have hh := hd.harvest
  rw [filter_cons_of_pos hopen] at hh
  have hrt : r ∉ todo := hh.fresh ha .start
  obtain ⟨sr0, hsr0, hun0⟩ := isOpen_iff.1 hopen
  obtain ⟨sr, hsr, hmarks⟩ := rel_some (hd.frame.res r) hsr0
  have hun : sr.srRescinded = false := by
    rw [hd.flag r sr0 sr hsr0 hsr, hun0, decide_eq_false hrt]
    rfl
  have hsr1 : h1.res r = some sr := hres ▸ hsr
  obtain ⟨order, h', ks', hx, hm⟩ := forcedRescindMark_forest (some o) hforest hsep hsr1 hun
  have hlive : ∀ x, h1.IsLive x ↔ h0.IsLive x := by
    intro x
    unfold IsLive
    rw [hres, rel_isSome (hd.frame.res x)]
  -- the walk of the state that is reached is a walk of the forest at the start
  have hheirs : ∀ y, Below (h1.heirs ks (some o)) r y → y ∉ todo → ∀ c,
      c ∈ h1.heirs ks (some o) y ↔ c ∈ others kids (rs.filter h0.isOpen) y ∧ c ∉ todo := by
    intro y hy hyt c
    exact hd.mem_heirs hkid hgo hres ((hlive y).1 (hforest.below_kids hsr1 y hy).1) hyt
  have hmem : ∀ x, x ∈ order ↔ Below (others kids (rs.filter h0.isOpen)) r x :=
    fun x => (hm.met x).trans (hh.below_iff ha hheirs)
  have hfresh : ∀ x ∈ order, x ∉ todo := fun x hx => hh.fresh ha ((hmem x).1 hx)
  have hnd : order.Nodup := by
    have hlist := (nodup_cons.1 hm.forest.rings.list.1).2.of_map
    exact (nodup_append.1 hlist).2.1
  have hafter : ∀ x ∈ order, ∀ c ∈ others kids (rs.filter h0.isOpen) x, Before order x c := by
    intro x hx c hc
    have hc' := hh.fresh ha (((hmem x).1 hx).child hc)
    exact hm.after x hx c ((hheirs x ((hm.met x).1 hx) (hfresh x hx) c).2 ⟨hc, hc'⟩)
  have hharvest := hh.step ha hmem hnd hafter
  refine ⟨sr, h', ks', order, hsr, hun, hx, ?_⟩
  refine ⟨by rw [hd.split, append_assoc, singleton_append], hm.forest, hm.separated,
    hm.lists.ring hown, ?_, ?_, hd.frame.trans (hframe.trans hm.marking.frame), ?_, ?_, ?_, ?_, ?_⟩
  · intro d hcell
    obtain ⟨hn, hp⟩ := hm.lists d (ofList_of_mem d hcell)
    rw [hn, hp]
    exact hclosed d hcell
  · intro d hk hnot
    obtain ⟨hn, hp⟩ := hm.lists d hk
    rw [hn, hp]
    exact hother d hk hnot
  · refine hd.flag.trans hd.frame ?_
    intro x sx sx' hsx hsx'
    exact hm.marking.flag x sx sx' (hres ▸ hsx) hsx'
  · intro x hxt sx m hsx htype hmapped lci' hlci'
    obtain ⟨sx1, hsx1, hmx⟩ := rel_some ((hd.frame.trans hframe).res x) hsx
    rcases mem_append.1 hxt with hxt | hxo
    · obtain ⟨lci, hlci1, hdis⟩ := rel_some_right (hm.marking.frame.lci x) hlci'
      exact hdis.disabled (hd.muted x hxt sx m hsx htype hmapped lci (hlci ▸ hlci1))
    · exact hm.muted hforest hsr1 hun hx x hxo sx1 m hsx1 (hmx.type.trans htype)
        (hmx.mapped.trans hmapped) lci' hlci'
  · intro x hxlive hxt
    have hxo : x ∉ order := fun hin => hxt (mem_append_right _ hin)
    have hxt' : x ∉ todo := fun hin => hxt (mem_append_left _ hin)
    rw [hm.left x ((hlive x).2 hxlive) hxo, hd.left x hxlive hxt', filter_filter]
    refine filter_congr fun c hc => ?_
    -- the walk met a child of `x` only if it began with it
    have hiff : c ∈ order ↔ c = r := by
      constructor
      · intro hco
        cases (hmem c).1 hco with
        | start => rfl
        | @child y _ hy hcy =>
          have hyx : y = x := ha.unique y x c (mem_others.1 hcy).1 hc
          exact absurd ((hmem y).2 hy) (hyx ▸ hxo)
      · rintro rfl
        exact (hmem c).2 .start
    simp [hiff, and_comm]
  · intro x hxt
    rcases mem_append.1 hxt with hxt | hxo
    · by_cases hxo : x ∈ order
      · exact hm.emptied x hxo
      · obtain ⟨sx, hsx, -⟩ := hd.todo_open hkid hxt
        have hxlive : h1.IsLive x := (hlive x).2 (Option.isSome_of_eq_some hsx)
        rw [hm.left x hxlive hxo, hd.emptied x hxt, filter_nil]
    · exact hm.emptied x hxo
  · rwa [filter_append, filter_cons_of_pos hopen]

include ha hkid hgo in
/-- **The loop of `partition_death_cleanup`.** -/
theorem deathLoop_dying (hrs : ∀ r ∈ rs, h0.IsLive r) (fuel : Nat) :
    ∀ (done rem todo : List ResId) (h : Hype) (ks : ResId → List ResId),
      Dying h0 kids rs o t h ks done rem todo → rem.length < fuel →
      ∃ h' ks' todo',
        deathLoop o t fuel ((rem.map DRef.osRes).head?.getD (.poResources o)) h = .ok h' ∧
          Dying h0 kids rs o t h' ks' rs [] todo' := by
  induction fuel with
  | zero => exact nofun
  | succ fuel ih =>
    intro done rem todo h ks hd hlt
    unfold deathLoop
    rcases rem with _ | ⟨r, rem⟩
    · have hdone : rs = done := hd.split.trans (append_nil done)
      exact ⟨h, ks, todo, if_pos rfl, hdone ▸ hd⟩
    have hlen : rem.length < fuel := by
      rw [length_cons] at hlt
      omega
    have hhead : (((r :: rem).map DRef.osRes).head?.getD (.poResources o)) = .osRes r := rfl
    rw [hhead, if_neg nofun]
    rcases hopen : h0.isOpen r with _ | _
    · have hnext := (hd.unlist rfl).1
      have hd' := hd.skip hopen rfl
      obtain ⟨h', ks', todo', hloop, hend⟩ := ih _ _ _ _ _ hd' hlen
      refine ⟨h', ks', todo', ?_, hend⟩
      obtain ⟨sr0, hsr0⟩ := Option.isSome_iff_exists.1 (hrs r (hd.split ▸ by simp))
      obtain ⟨sr, hsr, hmarks⟩ := rel_some (hd.frame.res r) hsr0
      have hre : sr.srRescinded = true := by
        refine hmarks.rescinded ?_
        simpa [isOpen, hsr0] using hopen
      simp only [hsr, live, ok_bind, hre, if_true, hnext, hloop]
    obtain ⟨sr, h2, ks2, order, hsr, hun, hx, hd'⟩ := hd.mark ha hkid hgo hopen rfl
    obtain ⟨h', ks', todo', hloop, hend⟩ := ih _ _ _ _ _ hd' hlen
    refine ⟨h', ks', todo', ?_, hend⟩
    have hnext := hd'.own.next_head
    simp only [hsr, live, ok_bind, hun, Bool.false_eq_true, if_false, hx, hnext, hloop]

end

theorem Estate.dying {age : ResId → Nat} (he : Estate h kids owned age)
    (ho : (h.os o).isSome = true) :
    Dying (newTodo h).2 kids (owned o) o h.next (newTodo h).2 kids [] (owned o) [] := by
  have hlist : (newTodo h).2.dl.IsRing (.poResources o) ((owned o).map .osRes) := by
    refine (he.list o ho).init_of_notMem ?_
    simp
  refine ⟨rfl, he.forest, he.separated.init _, hlist, ?_, fun _ _ _ => ⟨rfl, rfl⟩, .refl _, ?_,
    nofun, ?_, nofun, .start _ _⟩
  · exact fun d hd => ⟨hlist.next_mem hd, hlist.prev_mem hd⟩
  · intro r sr sr' hsr hsr'
    cases hsr.symm.trans hsr'
    simp
  · intro x _ _
    simp

/-- **`partition_death_cleanup` marks what the partition owns**, with what was granted from it, and
queues it for the cleanup. -/
theorem partitionDeathCleanup_dying {age : ResId → Nat}
    (he : Estate h kids owned age) (ho : (h.os o).isSome = true) :
    ∃ h1 ks todo, partitionDeathCleanup h o = .ok (h1.rcuDefer (.death h.next o)) ∧
      Dying (newTodo h).2 kids (owned o) o h.next h1 ks (owned o) [] todo := by
  obtain ⟨os, hos⟩ := Option.isSome_iff_exists.1 ho
  have hd := he.dying ho
  have hlive : ∀ r ∈ owned o, h.IsLive r := by
    intro r hr
    obtain ⟨sr, hsr, -⟩ := he.ownedBy o r hr
    exact Option.isSome_of_eq_some hsr
  have hnd : (owned o).Nodup := (nodup_cons.1 (he.list o ho).1).2.of_map
  have hlen : (owned o).length < (newTodo h).2.next + 1 := by
    have hle : (owned o).length ≤ h.next :=
      length_le_of_nodup hnd fun r hr => he.bound r (hlive r hr)
    have hnext : (newTodo h).2.next = h.next + 1 := rfl
    omega
  obtain ⟨h1, ks, todo, hloop, hd'⟩ := @deathLoop_dying (newTodo h).2 kids (owned o) o h.next age
    (he.aged o) (fun x c hc => he.kid_open hc) (fun x c hc => he.goesTo_kid hc) hlive _ _ _ _ _ _
    hd hlen
  refine ⟨h1, ks, todo, ?_, hd'⟩
  rw [← hd.own.next_head] at hloop
  simp only [partitionDeathCleanup, hos, live]
  have hpair : newTodo h = (h.next, (newTodo h).2) := rfl
  rw [hpair]
  simp only [hloop, ok_bind]

end

end Rhype
