import Rhype.Resource.Equiv.MarkLoop
import Rhype.Resource.Equiv.OwnerList

/-!
# Trees of resources, section by section

`Tree` is what a section of `forced_rescind_mark` needs of the resources and their lists.  Every
section of a thread keeps it: `Tree.sweep` is the section in which the children of a resource are
taken, `Tree.change` the general form.

A resource that is on no list is not met by such a section (`childLoop_isolated`).
-/

namespace Rhype

open Function Option

/-! ### The links under `forced_rescind_mark` -/

section

variable {P : Links DRef → Prop} {h h' : Hype} {ra : ResType} {nodes : DRef} {avoid : Option OsId}
  {c x r : ResId} {t fuel : Nat}

theorem invalidateFn_same (hx : invalidateFn h ra c = .ok h') : h'.res = h.res ∧ h'.dl = h.dl := by
  cases ra with
  | intrSrc =>
    cases hx
    exact ⟨rfl, rfl⟩
  | mem _ =>
    obtain ⟨lci, -, hx⟩ := of_seq hx
    cases hx
    exact ⟨rfl, rfl⟩

theorem invalidateAndQueue_same (hx : invalidateAndQueue ra nodes h c = .ok h') :
    h'.res = h.res ∧ h'.dl = h.dl.insBefore (.siblings c) nodes := by
  obtain ⟨sr, -, hx⟩ := of_seq hx
  split_ifs at hx
  · obtain ⟨h1, hinv, hx⟩ := of_seq hx
    cases hx
    obtain ⟨hres, hdl⟩ := invalidateFn_same hinv
    refine ⟨hres, ?_⟩
    show h1.dl.insBefore (.siblings c) nodes = _
    rw [hdl]
  · cases hx
    exact ⟨rfl, rfl⟩

theorem takeChild_links (hx : takeChild ra nodes avoid h c = .ok h') (hP : P h.dl)
    (htake : ∀ L, P L → P ((L.detach (.siblings c)).init (.siblings c)))
    (hqueue : ∀ L, P L → P (L.insBefore (.siblings c) nodes)) : P h'.dl := by
  obtain ⟨sr, -, rfl | hx⟩ := takeChild_ok hx
  · exact htake _ hP
  · rw [(invalidateAndQueue_same hx).2]
    exact hqueue _ (htake _ hP)

theorem takeChild_res_of_ne (hx : takeChild ra nodes avoid h c = .ok h') (hr : r ≠ c) :
    h'.res r = h.res r := by
  obtain ⟨sr, -, rfl | hx⟩ := takeChild_ok hx
  · exact update_of_ne hr ..
  · rw [(invalidateAndQueue_same hx).1]
    exact (update_of_ne hr ..).trans (update_of_ne hr ..)

theorem childLoop_separated (hx : childLoop ra nodes avoid x fuel h = .ok h')
    (hnodes : nodes.ofList = false) (hs : Separated h.dl) : Separated h'.dl := by
  apply childLoop_induct (Q := fun h => Separated h.dl) hx hs
  intro h1 h2 c hs1 _ htake
  apply takeChild_links htake hs1
  · exact fun L hL => (hL.detach _).init _
  · exact fun L hL => hL.insBefore hnodes.symm

theorem childLoop_isolated (hx : childLoop ra (.todo t) avoid x fuel h = .ok h')
    (hi : h.dl.Isolated (.siblings r)) : h'.dl.Isolated (.siblings r) ∧ h'.res r = h.res r := by
  apply childLoop_induct (Q := fun h1 => h1.dl.Isolated (.siblings r) ∧ h1.res r = h.res r)
    hx ⟨hi, rfl⟩
  rintro h1 h2 c ⟨hi1, hres⟩ hnext htake
  have hc : DRef.siblings c ≠ .siblings r := by
    rw [← hnext]
    exact (hi1.unpointed (.children x) nofun).1
  refine ⟨?_, ?_⟩
  · apply takeChild_links (P := fun L => L.Isolated (.siblings r)) htake hi1
    · exact fun L hL => (hL.detach hc).init hc
    · exact fun L hL => hL.insBefore hc nofun
  · rw [takeChild_res_of_ne htake fun he => hc (he ▸ rfl), hres]

theorem childLoop_isolated_osRes (hx : childLoop ra (.todo t) avoid x fuel h = .ok h')
    (hi : h.dl.Isolated (.osRes r)) : h'.dl.Isolated (.osRes r) := by
  apply childLoop_induct (Q := fun h1 => h1.dl.Isolated (.osRes r)) hx hi
  intro h1 h2 c hi1 _ htake
  have hc : DRef.siblings c ≠ .osRes r := nofun
  apply takeChild_links (P := fun L => L.Isolated (.osRes r)) htake hi1
  · exact fun L hL => (hL.detach hc).init hc
  · exact fun L hL => hL.insBefore hc nofun

end

/-! ### Trees -/

/-- The resources are the same but for what the trees do not depend on. -/
structure SameKinds (h h' : Hype) : Prop where
  res : ∀ x, Rel (fun a b : SysResource => b.srType = a.srType ∧ b.srMapped = a.srMapped)
    (h.res x) (h'.res x)
  lci : ∀ x, (h'.lci x).isSome = (h.lci x).isSome
  next : h'.next = h.next

/-- The children of every resource are `ks`, and `todo` is on the list `t`. -/
structure Tree (h : Hype) (ks : ResId → List ResId) (t : Nat) (todo : List ResId) : Prop where
  rings : Rings h.dl h.IsLive ks t todo
  kidLive : ∀ x c, h.IsLive x → c ∈ ks x → h.IsLive c
  type : ∀ x c sx sc, h.res x = some sx → h.res c = some sc → c ∈ ks x → sc.srType = sx.srType
  chunk : ∀ x sx, h.res x = some sx → h.HasChunk sx.srType x
  bound : ∀ x, h.IsLive x → x < h.next
  separated : Separated h.dl

section

variable {h h' : Hype} {ks ks' : ResId → List ResId} {t : Nat} {todo todo' : List ResId}
  {r x : ResId} {sr sx : SysResource} {avoid : Option OsId}

namespace SameKinds

theorem isLive (hk : SameKinds h h') : h'.IsLive = h.IsLive := by
  funext x
  unfold Hype.IsLive
  rw [rel_isSome (hk.res x)]

theorem of_mark (hf : MarkFrame h h') : SameKinds h h' where
  res := by
    intro x
    cases hx : h.res x with
    | none =>
      have hsome := rel_isSome (hf.res x)
      rw [hx, isSome_none, isSome_eq_false_iff, isNone_iff_eq_none] at hsome
      rw [hsome]
      exact .none
    | some sx =>
      obtain ⟨sx', hsx', hm⟩ := rel_some (hf.res x) hx
      rw [hsx']
      exact .some ⟨hm.type, hm.mapped⟩
  lci := fun x => rel_isSome (hf.lci x)
  next := hf.next

theorem of_res {sr' : SysResource} (hsr : h.res r = some sr)
    (hres : h'.res = update h.res r (some sr'))
    (hkind : sr'.srType = sr.srType ∧ sr'.srMapped = sr.srMapped) (hlci : h'.lci = h.lci)
    (hnext : h'.next = h.next) : SameKinds h h' where
  res := by
    rw [hres]
    exact rel_update (fun _ => ⟨rfl, rfl⟩) hsr hkind
  lci := fun x => by rw [hlci]
  next := hnext

end SameKinds

namespace Tree

variable (ht : Tree h ks t todo)
include ht

/-- **A section keeps the tree**, if its lists have children of the right kind. -/
theorem change (hk : SameKinds h h') (hr : Rings h'.dl h.IsLive ks' t todo') (hs : Separated h'.dl)
    (hlive : ∀ x c, h.IsLive x → c ∈ ks' x → h.IsLive c)
    (htype : ∀ x c sx sc, h.res x = some sx → h.res c = some sc → c ∈ ks' x →
      sc.srType = sx.srType) : Tree h' ks' t todo' where
  rings := hk.isLive ▸ hr
  kidLive := hk.isLive ▸ hlive
  type := by
    intro x c sx' sc' hsx' hsc' hc
    obtain ⟨sx, hsx, htx, -⟩ := rel_some_right (hk.res x) hsx'
    obtain ⟨sc, hsc, htc, -⟩ := rel_some_right (hk.res c) hsc'
    rw [htx, htc]
    exact htype x c sx sc hsx hsc hc
  chunk := by
    intro x sx' hsx' hne hmapped
    obtain ⟨sx, hsx, htx, hmx⟩ := rel_some_right (hk.res x) hsx'
    rw [hk.lci]
    refine ht.chunk x sx hsx (htx ▸ hne) ?_
    simp only [Hype.isMapped, hsx'] at hmapped
    simp only [Hype.isMapped, hsx]
    exact hmx.symm.trans hmapped
  bound := by
    rw [hk.isLive, hk.next]
    exact ht.bound
  separated := hs

theorem shrink (hf : MarkFrame h h') (hr : Rings h'.dl h.IsLive ks' t todo')
    (hs : Separated h'.dl) (hsub : ∀ x c, c ∈ ks' x → c ∈ ks x) : Tree h' ks' t todo' :=
  ht.change (.of_mark hf) hr hs (fun x c hx hc => ht.kidLive x c hx (hsub x c hc))
    fun x c sx sc hsx hsc hc => ht.type x c sx sc hsx hsc (hsub x c hc)

/-- **The section of the walk at `x`**: its children are taken, and those that the walk goes on to
are queued. -/
theorem sweep (hsx : h.res x = some sx) (avoid : Option OsId) :
    ∃ h', childLoop sx.srType (.todo t) avoid x (h.next + 1) h = .ok h' ∧
      Marking h t todo h' (update ks x []) (h.heirs ks avoid x) ∧
      Tree h' (update ks x []) t (todo ++ h.heirs ks avoid x) := by
  have hlive : h.IsLive x := isSome_of_eq_some hsx
  have hlen : (ks x).length < h.next + 1 := by
    have hle : (ks x).length ≤ h.next :=
      length_le_of_nodup (ht.rings.nodup_kids hlive) fun c hc =>
        ht.bound c (ht.kidLive x c hlive hc)
    omega
  have hkids : ∀ c ∈ ks x, h.IsLive c ∧ h.HasChunk sx.srType c := by
    intro c hc
    have hclive := ht.kidLive x c hlive hc
    obtain ⟨sc, hsc⟩ := isSome_iff_exists.1 hclive
    have hchunk := ht.chunk c sc hsc
    rw [ht.type x c sx sc hsx hsc hc] at hchunk
    exact ⟨hclive, hchunk⟩
  have hbegin : Marking h t todo h ks [] := by
    refine ⟨.refl h, ?_, ?_, ?_⟩
    · rw [List.append_nil]
      exact ht.rings
    · intro r s s' hs hs'
      rw [hs, some.injEq] at hs'
      simp [hs']
    · simp
  obtain ⟨h', hloop, hm⟩ := childLoop_marking avoid hlive (h.next + 1) h ks [] hbegin hlen hkids
  refine ⟨h', hloop, hm, ht.shrink hm.frame hm.rings ?_ ?_⟩
  · exact childLoop_separated hloop rfl ht.separated
  · intro y c hc
    rw [update_apply] at hc
    split_ifs at hc with hne
    · cases hc
    · exact hc

end Tree

theorem Rings.insBefore_list {L : Links DRef} {live : ResId → Prop} {o : OsId}
    (hr : Rings L live ks t todo) (hs : Separated L) (r : ResId) :
    Rings (L.insBefore (.osRes r) (.poResources o)) live ks t todo := by
  have hkind : ∀ (head : DRef) (xs : List ResId), head.ofList = false →
      ∀ c ∈ head :: xs.map .siblings, c.ofList = false := by
    intro head xs hhead c hc
    rcases List.mem_cons.1 hc with rfl | hc
    · exact hhead
    · obtain ⟨y, -, rfl⟩ := List.mem_map.1 hc
      rfl
  refine ⟨fun y hy => ?_, ?_, hr.unique, hr.apart⟩
  · exact hs.ring_insBefore (hr.children y hy) (hkind _ _ rfl) nofun nofun
  · exact hs.ring_insBefore hr.list (hkind _ _ rfl) nofun nofun

end

end Rhype
