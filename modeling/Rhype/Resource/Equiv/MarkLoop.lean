import Rhype.Resource.Equiv.Frame
import Rhype.Ring.Equiv
import Rhype.Walk.Basic

/-!
# The loops of `forced_rescind_mark`

`forced_rescind_mark` walks the tree below a resource on the list of the resources it has met, which
it extends while it walks.  It is a breadth-first walk (`Walk`) of the children that are neither
owned by the partition to avoid nor rescinded before (`heirs`).

`Rings` says that the lists in memory are the children `kids r` of every resource `r`, and the list
of the walk.  `Marking` is the invariant of the loops.
-/

namespace Rhype

open Function List Option

/-! ### The lists of a forest -/

/-- The lists in memory: the children of every resource of `live`, and the list `nodes` of the
resources that are to be cleaned up.  No resource is on two of them. -/
structure Rings (L : Links DRef) (live : ResId → Prop) (kids : ResId → List ResId) (nodes : Nat)
    (todo : List ResId) : Prop where
  children : ∀ r, live r → L.IsRing (.children r) ((kids r).map .siblings)
  list : L.IsRing (.todo nodes) (todo.map .siblings)
  unique : ∀ r s c, live r → live s → c ∈ kids r → c ∈ kids s → r = s
  apart : ∀ r c, live r → c ∈ kids r → c ∉ todo

theorem cells_disjoint {a b : DRef} {xs ys : List ResId} (ha : ∀ k, a ≠ .siblings k)
    (hb : ∀ k, b ≠ .siblings k) (hab : a ≠ b) (hxs : ∀ k ∈ xs, k ∉ ys) :
    ∀ c ∈ a :: xs.map DRef.siblings, c ∉ b :: ys.map DRef.siblings := by
  intro c hc hc'
  rcases mem_cons.1 hc with rfl | hc
  · rcases mem_cons.1 hc' with heq | hc'
    · exact hab heq
    · obtain ⟨k, -, hk⟩ := mem_map.1 hc'
      exact ha k hk.symm
  obtain ⟨k, hk, rfl⟩ := mem_map.1 hc
  rcases mem_cons.1 hc' with heq | hc'
  · exact hb k heq.symm
  · obtain ⟨k', hk', heq⟩ := mem_map.1 hc'
    cases heq
    exact hxs k hk hk'

section

variable {kids : ResId → List ResId} {r s c x : ResId} {ks1 ks2 : List ResId}

theorem mem_unlink (hk : kids r = ks1 ++ c :: ks2) :
    (x ∈ update kids r (ks1 ++ ks2) s → x ∈ kids s) ∧
      (x ≠ c → x ∈ kids s → x ∈ update kids r (ks1 ++ ks2) s) := by
  rw [update_apply]
  split_ifs with hs
  · subst hs
    rw [hk]
    simp only [mem_append, mem_cons]
    tauto
  · exact ⟨id, fun _ => id⟩

theorem mem_link : x ∈ update kids r (kids r ++ [c]) s ↔ x ∈ kids s ∨ s = r ∧ x = c := by
  rcases eq_or_ne s r with rfl | hs
  · simp
  · simp [hs]

end

namespace Rings

variable {L : Links DRef} {live : ResId → Prop} {kids : ResId → List ResId} {nodes : Nat}
  {todo : List ResId} {r c x : ResId}

section

variable (hr : Rings L live kids nodes todo)
include hr

section

variable (hlive : live r)
include hlive

theorem nodup_kids : (kids r).Nodup :=
  (nodup_cons.1 (hr.children r hlive).1).2.of_map _

theorem take {ks1 ks2 : List ResId} (hk : kids r = ks1 ++ c :: ks2) :
    Rings ((L.detach (.siblings c)).init (.siblings c)) live
      (update kids r (ks1 ++ ks2)) nodes todo := by
  have hc : c ∈ kids r := by simp [hk]
  have hring := hr.children r hlive
  refine ⟨fun s hs => ?_, ?_, fun s s' x hs hs' hx hx' => hr.unique s s' x hs hs'
    ((mem_unlink hk).1 hx) ((mem_unlink hk).1 hx'),
    fun s x hs hx => hr.apart s x hs ((mem_unlink hk).1 hx)⟩
  · rcases eq_or_ne s r with rfl | hsr
    · have hnd := hr.nodup_kids hs
      rw [hk, nodup_append] at hnd
      rw [hk, map_append] at hring
      rw [update_self, map_append]
      refine hring.detach_mem.init_of_notMem ?_
      have h1 : c ∉ ks1 := fun hm => hnd.2.2 c hm c mem_cons_self rfl
      have h2 : c ∉ ks2 := (nodup_cons.1 hnd.2.1).1
      simp [h1, h2]
    · have hcs : c ∉ kids s := fun hm => hsr (hr.unique s r c hs hlive hm hc)
      rw [update_of_ne hsr]
      refine ((hr.children s hs).detach_of_disjoint hring (by simp [hc]) ?_).init_of_notMem
        (by simp [hcs])
      exact cells_disjoint nofun nofun (by simpa using hsr.symm) fun k hk hk' =>
        hsr (hr.unique s r k hs hlive hk' hk)
  · have hct : c ∉ todo := hr.apart r c hlive hc
    refine (hr.list.detach_of_disjoint hring (by simp [hc]) ?_).init_of_notMem (by simp [hct])
    exact cells_disjoint nofun nofun nofun fun k hk => hr.apart r k hlive hk

theorem take_notMem {ks1 ks2 : List ResId} (hk : kids r = ks1 ++ c :: ks2)
    (s : ResId) (hs : live s) : c ∉ update kids r (ks1 ++ ks2) s := by
  have hc : c ∈ kids r := by simp [hk]
  rcases eq_or_ne s r with rfl | hsr
  · have hnd := hr.nodup_kids hs
    rw [hk, nodup_middle] at hnd
    rw [update_self]
    exact (nodup_cons.1 hnd).1
  · rw [update_of_ne hsr]
    exact fun hm => hsr (hr.unique s r c hs hlive hm hc)

theorem take_lone (hc : c ∈ kids r) (hx : L.IsRing (.siblings x) [])
    (hne : x ≠ c) (hnkid : x ∉ kids r) :
    ((L.detach (.siblings c)).init (.siblings c)).IsRing (.siblings x) [] := by
  refine (hx.detach_of_disjoint (hr.children r hlive) (by simp [hc]) ?_).init_of_notMem
    (by simp [hne.symm])
  intro d hd hdx
  rw [mem_singleton.1 hdx] at hd
  simp [hnkid] at hd

end

theorem queue (hc : L.IsRing (.siblings c) []) (hct : c ∉ todo) (hck : ∀ s, live s → c ∉ kids s) :
    Rings (L.insBefore (.siblings c) (.todo nodes)) live kids nodes (todo ++ [c]) := by
  refine ⟨fun s hs => ?_, ?_, hr.unique, fun s x hs hx hm => ?_⟩
  · refine (hr.children s hs).insBefore_of_notMem hc hr.list (by simp [hck s hs]) ?_
    exact cells_disjoint nofun nofun nofun fun k hk hk' => hr.apart s k hs hk' hk
  · rw [map_append]
    exact hr.list.insBefore_head hc (by simp [hct])
  · rcases mem_append.1 hm with hm | hm
    · exact hr.apart s x hs hx hm
    · rw [mem_singleton.1 hm] at hx
      exact hck s hs hx

theorem queue_lone (hc : L.IsRing (.siblings c) []) (hx : L.IsRing (.siblings x) []) (hne : x ≠ c)
    (hxt : x ∉ todo) : (L.insBefore (.siblings c) (.todo nodes)).IsRing (.siblings x) [] := by
  refine hx.insBefore_of_notMem hc hr.list (by simp [hne.symm]) ?_
  intro d hd hdx
  rw [mem_singleton.1 hdx] at hd
  simp [hxt] at hd

end

theorem link {q : ResId} (hr : Rings L live kids nodes todo) (hq : live q)
    (hc : L.IsRing (.siblings c) []) (hct : c ∉ todo) (hck : ∀ s, live s → c ∉ kids s) :
    Rings (L.insBefore (.siblings c) (.children q)) live
      (update kids q (kids q ++ [c])) nodes todo := by
  have hring := hr.children q hq
  refine ⟨fun s hs => ?_, ?_, fun s s' x hs hs' hx hx' => ?_, fun s x hs hx => ?_⟩
  · rcases eq_or_ne s q with rfl | hsq
    · rw [update_self, map_append]
      exact hring.insBefore_head hc (by simp [hck s hs])
    · rw [update_of_ne hsq]
      refine (hr.children s hs).insBefore_of_notMem hc hring (by simp [hck s hs]) ?_
      exact cells_disjoint nofun nofun (by simpa using hsq.symm) fun k hk hk' =>
        hsq (hr.unique s q k hs hq hk' hk)
  · refine hr.list.insBefore_of_notMem hc hring (by simp [hct]) ?_
    exact cells_disjoint nofun nofun nofun fun k hk => hr.apart q k hq hk
  · rcases mem_link.1 hx with hk | ⟨hsq, hxc⟩
    · rcases mem_link.1 hx' with hk' | ⟨-, rfl⟩
      · exact hr.unique s s' x hs hs' hk hk'
      · exact absurd hk (hck s hs)
    · rcases mem_link.1 hx' with hk' | ⟨hsq', -⟩
      · exact absurd (hxc ▸ hk') (hck s' hs')
      · exact hsq.trans hsq'.symm
  · rcases mem_link.1 hx with hk | ⟨-, rfl⟩
    · exact hr.apart s x hs hk
    · exact hct

end Rings

/-! ### One resource -/

/-- The walk goes on to `c`: it is not owned by the partition to avoid and not rescinded. -/
def Hype.goesTo (h : Hype) (avoid : Option OsId) (c : ResId) : Bool :=
  (h.res c).any fun sr => sr.srOwner ≠ avoid && !sr.srRescinded

def Hype.isMapped (h : Hype) (r : ResId) : Bool := (h.res r).any (·.srMapped)

/-- `invalidate_fn` can be called for a resource that is mapped: memory has its chunk. -/
def Hype.HasChunk (h : Hype) (type : ResType) (r : ResId) : Prop :=
  type ≠ .intrSrc → h.isMapped r = true → (h.lci r).isSome = true

section

variable {h : Hype} {r : ResId} {sr : SysResource} {type : ResType} {nodes : DRef}
  {avoid : Option OsId}

theorem invalidateFn_spec (hchunk : type ≠ .intrSrc → (h.lci r).isSome = true) :
    ∃ h', invalidateFn h type r = .ok h' ∧ h'.res = h.res ∧ h'.dl = h.dl ∧
      h'.invalidated = h.invalidated ++ [r] := by
  cases type with
  | intrSrc => exact ⟨_, rfl, rfl, rfl, rfl⟩
  | mem t =>
    obtain ⟨lci, hlci⟩ := isSome_iff_exists.1 (hchunk nofun)
    have hdis : lciDisable { h with invalidated := h.invalidated ++ [r] } r
        = .ok (({ h with invalidated := h.invalidated ++ [r] } : Hype).setLciObj r
            { lci with lciDisabled := true }) := by
      simp [lciDisable, hlci, live]
    exact ⟨_, hdis, rfl, rfl, rfl⟩

section

variable (hsr : h.res r = some sr)
include hsr

theorem invalidateAndQueue_spec (hchunk : h.HasChunk type r) :
    ∃ h', invalidateAndQueue type nodes h r = .ok h' ∧ h'.res = h.res ∧
      h'.dl = h.dl.insBefore (.siblings r) nodes ∧
      h'.invalidated = h.invalidated ++ [r].filter h.isMapped := by
  have hmapped : h.isMapped r = sr.srMapped := by simp [Hype.isMapped, hsr]
  by_cases hm : sr.srMapped = true
  · obtain ⟨h1, hinv, hres, hdl, hlog⟩ :=
      invalidateFn_spec fun ht => hchunk ht (hmapped.trans hm)
    refine ⟨h1.setDl (h1.dl.insBefore (.siblings r) nodes), ?_, hres, by rw [← hdl]; rfl, ?_⟩
    · simp [invalidateAndQueue, hsr, live, hm, hinv]
    · simp [hmapped, hm, hlog]
  · refine ⟨h.setDl (h.dl.insBefore (.siblings r) nodes), ?_, rfl, rfl, ?_⟩
    · simp [invalidateAndQueue, hsr, live, hm]
    · simp [hmapped, hm]

theorem takeChild_skip (hgo : h.goesTo avoid r = false) :
    ∃ h', takeChild type nodes avoid h r = .ok h' ∧
      h'.res = update h.res r (some { sr with srParent := none }) ∧
      h'.dl = (h.dl.detach (.siblings r)).init (.siblings r) ∧ h'.invalidated = h.invalidated := by
  refine ⟨(h.setRes r { sr with srParent := none }).setDl
    ((h.dl.detach (.siblings r)).init (.siblings r)), ?_, rfl, rfl, rfl⟩
  simp only [Hype.goesTo, hsr, any_some, Bool.and_eq_false_iff, decide_eq_false_iff_not,
    not_not, Bool.not_eq_false'] at hgo
  rcases hgo with how | hres
  · simp [takeChild, hsr, live, how]
  · simp [takeChild, hsr, live, hres, markForRescind]

theorem takeChild_take (hgo : h.goesTo avoid r = true) (hchunk : h.HasChunk type r) :
    ∃ h', takeChild type nodes avoid h r = .ok h' ∧
      h'.res = update h.res r
        (some { sr with srParent := none, srRescinded := true }) ∧
      h'.dl = ((h.dl.detach (.siblings r)).init (.siblings r)).insBefore (.siblings r) nodes ∧
      h'.invalidated = h.invalidated ++ [r].filter h.isMapped := by
  have hnot : sr.srOwner ≠ avoid ∧ sr.srRescinded = false := by
    simpa [Hype.goesTo, hsr] using hgo
  let sr1 : SysResource := { sr with srParent := none, srRescinded := true }
  let h1 := (h.setDl ((h.dl.detach (.siblings r)).init (.siblings r))).setRes r sr1
  have hsr1 : h1.res r = some sr1 := update_self ..
  have hmapped : h1.isMapped r = h.isMapped r := by
    simp [Hype.isMapped, hsr1, hsr, sr1]
  obtain ⟨h', hq, hres, hdl, hlog⟩ := invalidateAndQueue_spec hsr1
    (fun ht hm => hchunk ht (hmapped ▸ hm))
  refine ⟨h', ?_, hres, hdl, ?_⟩
  · rw [← hq]
    simp [takeChild, hsr, live, hnot.1, markForRescind, Hype.setRes, hnot.2, h1, sr1]
  · rw [hlog, filter_singleton, hmapped]
    rfl

end

end

/-! ### The invariant of the loops -/

/-- There is a resource with this number. -/
def Hype.IsLive (h : Hype) (r : ResId) : Prop := (h.res r).isSome = true

namespace MarkFrame

variable {h0 h : Hype} {r : ResId} {sr : SysResource}

theorem isMapped (hf : MarkFrame h0 h) (r : ResId) : h.isMapped r = h0.isMapped r := by
  unfold Hype.isMapped
  cases hsr : h0.res r with
  | none =>
    have hnone : (h.res r).isSome = (h0.res r).isSome := rel_isSome (hf.res r)
    rw [hsr, isSome_none, isSome_eq_false_iff, isNone_iff_eq_none] at hnone
    rw [hnone]
  | some sr =>
    obtain ⟨sr', hsr', hm⟩ := rel_some (hf.res r) hsr
    rw [hsr', any_some, any_some, hm.mapped]

theorem hasChunk (hf : MarkFrame h0 h) {type : ResType} (hc : h0.HasChunk type r) :
    h.HasChunk type r := by
  intro htype hmapped
  rw [rel_isSome (hf.lci r)]
  exact hc htype ((hf.isMapped r).symm.trans hmapped)

end MarkFrame

/-- Exactly the resources of `order` were marked. -/
def Flagged (h0 h : Hype) (order : List ResId) : Prop :=
  ∀ r sr sr', h0.res r = some sr → h.res r = some sr' →
    sr'.srRescinded = (sr.srRescinded || decide (r ∈ order))

theorem Flagged.update {h0 h h' : Hype} {order order' : List ResId} {c : ResId}
    {sr0 sr : SysResource} (hf : Flagged h0 h order) (hsr0 : h0.res c = some sr0)
    (hres : h'.res = update h.res c (some sr))
    (hsr : sr.srRescinded = (sr0.srRescinded || decide (c ∈ order')))
    (horder : ∀ q, q ≠ c → (q ∈ order' ↔ q ∈ order)) : Flagged h0 h' order' := by
  intro q s s' hs hs'
  rw [hres, update_apply] at hs'
  split_ifs at hs' with hq
  · subst hq
    rw [some.injEq] at hs'
    rw [hsr0, some.injEq] at hs
    rw [← hs', ← hs, hsr]
  · rw [hf q s s' hs hs', decide_eq_decide.2 (horder q hq)]

/-- The state while the walk is under way.  It has met `order`, and `ks` are the children that are
left; `pre` was on the list before. -/
structure Marking (h0 : Hype) (nodes : Nat) (pre : List ResId) (h : Hype)
    (ks : ResId → List ResId) (order : List ResId) : Prop where
  frame : MarkFrame h0 h
  rings : Rings h.dl h0.IsLive ks nodes (pre ++ order)
  flag : Flagged h0 h order
  log : h.invalidated = h0.invalidated ++ order.filter h0.isMapped

section

variable {h0 h : Hype} {nodes : Nat} {pre order rest : List ResId} {ks kids : ResId → List ResId}
  {r c start : ResId} {type : ResType} {avoid : Option OsId}

theorem Marking.goesTo (hm : Marking h0 nodes pre h ks order) (hlive : h0.IsLive c)
    (hc : c ∉ order) : h.goesTo avoid c = h0.goesTo avoid c := by
  obtain ⟨sr, hsr⟩ := isSome_iff_exists.1 hlive
  obtain ⟨sr', hsr', hmarks⟩ := rel_some (hm.frame.res c) hsr
  have hflag := hm.flag c sr sr' hsr hsr'
  rw [decide_eq_false hc, Bool.or_false] at hflag
  simp only [Hype.goesTo, hsr, hsr', any_some, hmarks.owner, hflag]

theorem takeChild_marking (avoid : Option OsId) (hm : Marking h0 nodes pre h ks order)
    (hlive : h0.IsLive r) (hk : ks r = c :: rest) (hc : h0.IsLive c) (hchunk : h0.HasChunk type c) :
    ∃ h', takeChild type (.todo nodes) avoid h c = .ok h' ∧
      Marking h0 nodes pre h' (update ks r rest)
        (order ++ [c].filter (h0.goesTo avoid)) := by
  obtain ⟨sr0, hsr0⟩ := isSome_iff_exists.1 hc
  obtain ⟨sr, hsr, hmarks⟩ := rel_some (hm.frame.res c) hsr0
  have hk' : ks r = [] ++ c :: rest := hk
  have hmem : c ∉ pre ++ order := hm.rings.apart r c hlive (by simp [hk])
  have hnot : c ∉ order := fun hin => hmem (mem_append_right _ hin)
  -- `c` has not been met, so the code decides as on the state at the start
  have hgo : h.goesTo avoid c = h0.goesTo avoid c := hm.goesTo hc hnot
  have htake := hm.rings.take hlive hk'
  have hflag := hm.flag c sr0 sr hsr0 hsr
  have hnodes : ∀ q, DRef.todo nodes ≠ .osRes q := nofun
  rcases hg : h0.goesTo avoid c with _ | _
  · obtain ⟨h', hx, hres, hdl, hlog⟩ := takeChild_skip hsr (hgo.trans hg)
    refine ⟨h', hx, ?_⟩
    simp only [filter_singleton, hg, cond_false, append_nil]
    exact ⟨hm.frame.trans (takeChild_frame hnodes hx), hdl ▸ htake,
      hm.flag.update hsr0 hres hflag fun _ _ => .rfl, hlog.trans hm.log⟩
  -- `dlist_init` makes the cell a list of its own, which can be appended
  have hlone := Links.isRing_init (h.dl.detach (.siblings c)) (.siblings c)
  have hqueue := htake.queue hlone hmem (hm.rings.take_notMem hlive hk')
  obtain ⟨h', hx, hres, hdl, hlog⟩ := takeChild_take hsr (hgo.trans hg) (hm.frame.hasChunk hchunk)
  refine ⟨h', hx, ?_⟩
  simp only [filter_singleton, hg, cond_true]
  refine ⟨hm.frame.trans (takeChild_frame hnodes hx), ?_, ?_, ?_⟩
  · rwa [hdl, ← append_assoc]
  · refine hm.flag.update hsr0 hres (by simp) fun q hq => ?_
    simp [hq]
  · rw [hlog, hm.log, filter_append, append_assoc, filter_singleton,
      filter_singleton, hm.frame.isMapped]

/-- **The rule for the inner loop**: `Q` names the children that are left and the resources that
were met, and it holds again when a child is taken from `r`. -/
theorem childLoop_rule {Q : Hype → (ResId → List ResId) → List ResId → Prop} {ok : ResId → Prop}
    {goes : ResId → Bool} {head : DRef}
    (hring : ∀ h ks o, Q h ks o → h.dl.IsRing (.children r) ((ks r).map .siblings))
    (hstep : ∀ h ks o c rest, Q h ks o → ks r = c :: rest → ok c →
      ∃ h', takeChild type head avoid h c = .ok h' ∧
        Q h' (update ks r rest) (o ++ [c].filter goes)) :
    ∀ (fuel : Nat) (h : Hype) (ks : ResId → List ResId) (order : List ResId),
      Q h ks order → (ks r).length < fuel → (∀ c ∈ ks r, ok c) →
      ∃ h', childLoop type head avoid r fuel h = .ok h' ∧
        Q h' (update ks r []) (order ++ (ks r).filter goes) := by
  intro fuel
  induction fuel with
  | zero => exact nofun
  | succ fuel ih =>
    intro h ks order hq hlt hkids
    have hring' := hring h ks order hq
    rw [childLoop]
    rcases hk : ks r with _ | ⟨c, rest⟩
    · have hempty : h.dl.isEmpty (.children r) = true := hring'.isEmpty_iff.2 (by simp [hk])
      refine ⟨h, by rw [if_pos hempty], ?_⟩
      rwa [filter_nil, append_nil, ← hk, update_eq_self]
    have hempty : ¬ h.dl.isEmpty (.children r) = true := by
      rw [hring'.isEmpty_iff, hk]
      simp
    have hnext : h.dl.next (.children r) = .siblings c := by
      rw [hring'.next_head, hk]
      rfl
    obtain ⟨h1, htake, hq1⟩ := hstep h ks order c rest hq hk (hkids c (by simp [hk]))
    obtain ⟨h', hloop, hq'⟩ := ih h1 _ _ hq1
      (by rw [update_self]; rw [hk, length_cons] at hlt; omega)
      (fun x hx => hkids x (by rw [update_self] at hx; simp [hk, hx]))
    refine ⟨h', ?_, ?_⟩
    · rw [if_neg hempty, hnext]
      simp only [htake, ok_bind, hloop]
    · rwa [update_self, update_idem, append_assoc, ← filter_append] at hq'

theorem childLoop_marking (avoid : Option OsId) (hlive : h0.IsLive r) (fuel : Nat) (h : Hype)
    (ks : ResId → List ResId) (order : List ResId) (hm : Marking h0 nodes pre h ks order)
    (hlen : (ks r).length < fuel) (hkids : ∀ c ∈ ks r, h0.IsLive c ∧ h0.HasChunk type c) :
    ∃ h', childLoop type (.todo nodes) avoid r fuel h = .ok h' ∧
      Marking h0 nodes pre h' (update ks r []) (order ++ (ks r).filter (h0.goesTo avoid)) :=
  childLoop_rule (fun _ _ _ hm => hm.rings.children r hlive)
    (fun _ _ _ _ _ hm hk hc => takeChild_marking avoid hm hlive hk hc.1 hc.2) fuel h ks order hm
    hlen hkids

/-- The children that the walk goes on to. -/
def Hype.heirs (h : Hype) (kids : ResId → List ResId) (avoid : Option OsId) (r : ResId) :
    List ResId :=
  (kids r).filter (h.goesTo avoid)

/-- The walk over the heirs of `start` and the state that the code has reached with it: the children
of what is done are taken, and those of the rest are still there. -/
structure Walking (h0 : Hype) (nodes : Nat) (pre : List ResId) (kids : ResId → List ResId)
    (avoid : Option OsId) (start : ResId) (h : Hype) (ks : ResId → List ResId)
    (done queue : List ResId) : Prop where
  walk : Walk (h0.heirs kids avoid) start done queue
  marking : Marking h0 nodes pre h ks (done ++ queue)
  left : ∀ r, Below (h0.heirs kids avoid) start r → r ∉ done → ks r = kids r
  emptied : ∀ r ∈ done, ks r = []

/-- The cell of the first resource of the queue, or the head of the list. -/
def queueHead (nodes : Nat) (queue : List ResId) : DRef :=
  (queue.map DRef.siblings).head?.getD (.todo nodes)

section

variable {done queue : List ResId}

/-- The children of the first resource of the queue are taken, and the next cell is that of the next
resource. -/
theorem Walking.step (hw : Walking h0 nodes pre kids avoid start h ks done (r :: queue))
    (ht : IsTree (h0.heirs kids avoid) start) (hrlive : h0.IsLive r)
    (hlen : (kids r).length ≤ h0.next) (hkids : ∀ c ∈ kids r, h0.IsLive c ∧ h0.HasChunk type c) :
    ∃ h1, childLoop type (.todo nodes) avoid r (h.next + 1) h = .ok h1 ∧
      h1.dl.next (.siblings r) = queueHead nodes (queue ++ h0.heirs kids avoid r) ∧
      Walking h0 nodes pre kids avoid start h1 (update ks r []) (done ++ [r])
        (queue ++ h0.heirs kids avoid r) := by
  have hrd : r ∉ done := fun hin =>
    disjoint_of_nodup_append hw.walk.nodup hin mem_cons_self
  have hk : ks r = kids r := hw.left r (hw.walk.below r (by simp)) hrd
  obtain ⟨h1, hloop, hm1⟩ := childLoop_marking avoid hrlive (h.next + 1) h ks _ hw.marking
    (by rw [hk, hw.marking.frame.next]; omega) (by rw [hk]; exact hkids)
  have hsplit : done ++ r :: queue ++ (ks r).filter (h0.goesTo avoid)
      = done ++ [r] ++ (queue ++ h0.heirs kids avoid r) := by
    rw [hk]
    simp [Hype.heirs]
  rw [hsplit] at hm1
  -- the list is `pre`, what is done, `r`, and the queue with the heirs of `r`
  have hring : h1.dl.IsRing (.todo nodes) ((pre ++ done).map .siblings ++
      .siblings r :: (queue ++ h0.heirs kids avoid r).map .siblings) := by
    simpa using hm1.rings.list
  refine ⟨h1, hloop, hring.next_cell, hw.walk.step ht, hm1, ?_, ?_⟩
  · intro x hx hnot
    have hxr : x ≠ r := fun he => hnot (by simp [he])
    rw [update_of_ne hxr]
    exact hw.left x hx fun hin => hnot (mem_append_left _ hin)
  · intro x hx
    rcases mem_append.1 hx with hin | hin
    · have hxr : x ≠ r := fun he => hrd (he ▸ hin)
      rw [update_of_ne hxr]
      exact hw.emptied x hin
    · rw [mem_singleton.1 hin]
      exact update_self ..

/-- The rest of the walk.  The fuel is enough, since the resources that are done are different. -/
theorem markLoop_walking (ht : IsTree (h0.heirs kids avoid) start)
    (hbound : ∀ r, h0.IsLive r → r < h0.next)
    (hlive : ∀ r, Below (h0.heirs kids avoid) start r → h0.IsLive r ∧ (kids r).Nodup ∧
      ∀ c ∈ kids r, h0.IsLive c ∧ h0.HasChunk type c) (fuel : Nat) :
    ∀ (done queue : List ResId) (h : Hype) (ks : ResId → List ResId),
      Walking h0 nodes pre kids avoid start h ks done queue → h0.next < done.length + fuel →
      ∃ order h' ks',
        markLoop type (.todo nodes) avoid fuel (queueHead nodes queue) h = .ok h' ∧
          Walking h0 nodes pre kids avoid start h' ks' order [] := by
  induction fuel with
  | zero =>
    intro done queue h ks hw hlt
    have hle : done.length ≤ h0.next :=
      length_le_of_nodup (hw.walk.nodup.sublist (sublist_append_left _ _)) fun r hr =>
        hbound r (hlive r (hw.walk.below r (mem_append_left _ hr))).1
    omega
  | succ fuel ih =>
    intro done queue h ks hw hlt
    unfold markLoop
    rcases queue with _ | ⟨r, queue⟩
    · exact ⟨done, h, ks, if_pos rfl, hw⟩
    obtain ⟨hrlive, hnd, hkids⟩ := hlive r (hw.walk.below r (by simp))
    have hlen : (kids r).length ≤ h0.next :=
      length_le_of_nodup hnd fun c hc => hbound c (hkids c hc).1
    obtain ⟨sr, hsr⟩ := isSome_iff_exists.1 hrlive
    obtain ⟨sr', hsr', -⟩ := rel_some (hw.marking.frame.res r) hsr
    obtain ⟨h1, hloop, hnext, hw1⟩ := hw.step ht hrlive hlen hkids
    obtain ⟨order, h', ks', hrest, hw'⟩ := ih _ _ h1 _ hw1 (by simp; omega)
    refine ⟨order, h', ks', ?_, hw'⟩
    have hhead : queueHead nodes (r :: queue) = .siblings r := rfl
    rw [hhead, if_neg DRef.noConfusion]
    simp only [hsr', live, ok_bind, hloop, hnext, hrest]

end

end

end Rhype
