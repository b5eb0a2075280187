import Rhype.Resource.Rescind

/-!
# What the first phase of a rescind leaves alone

`MarkFrame` says what any part of `forced_rescind_mark` can change: the flag `RESCINDED` (which is
only set), the parents, the chunks (which are only disabled), and the lists of siblings.  The lists
of the partitions are not touched: no cell of such a list is pointed to that was not before
(`Pointed`).  No property of the lists is needed for this.
-/

namespace Rhype

open Function Links Option SysResource

/-! ### The lists of the partitions -/

/-- Another cell points to the cell of `r` in the list of a partition. -/
def Pointed (L : Links DRef) (r : ResId) : Prop := ∃ x, x ≠ .osRes r ∧ L.next x = .osRes r

section

variable {L : Links DRef} {x d : DRef} {r : ResId}

theorem Pointed.of_init (hp : Pointed (L.init x) r) : Pointed L r := by
  obtain ⟨y, hne, hy⟩ := hp
  simp only [init, next_setPrev, next_setNext] at hy
  split_ifs at hy with hyx
  · exact absurd (hyx.trans hy) hne
  · exact ⟨y, hne, hy⟩

theorem Pointed.of_detach (hx : x ≠ .osRes r) (hp : Pointed (L.detach x) r) : Pointed L r := by
  obtain ⟨y, hne, hy⟩ := hp
  simp only [detach, next_setPrev, next_setNext] at hy
  split_ifs at hy with hyx
  · exact ⟨x, hx, hy⟩
  · exact ⟨y, hne, hy⟩

theorem Pointed.of_insBefore (hx : x ≠ .osRes r) (hd : d ≠ .osRes r)
    (hp : Pointed (L.insBefore x d) r) : Pointed L r := by
  obtain ⟨y, hne, hy⟩ := hp
  simp only [insBefore, next_setPrev, next_setNext] at hy
  split_ifs at hy with hy1 hy2
  · exact absurd hy hx
  · exact absurd hy hd
  · exact ⟨y, hne, hy⟩

end

/-! ### Objects -/

/-- The resource is the same but for its parent, and for the flag that is set. -/
structure SysResource.Marks (sr sr' : SysResource) : Prop where
  cookie : sr'.srCookie = sr.srCookie
  type : sr'.srType = sr.srType
  mapped : sr'.srMapped = sr.srMapped
  owner : sr'.srOwner = sr.srOwner
  rescinded : sr.srRescinded = true → sr'.srRescinded = true

/-- The chunk is the same, or it was disabled. -/
def Lci.Disables (lci lci' : Lci) : Prop := lci' = lci ∨ lci' = { lci with lciDisabled := true }

/-- What the first phase of a rescind can change. -/
structure MarkFrame (h h' : Hype) : Prop where
  os : h'.os = h.os
  psm : h'.psm = h.psm
  rcu : h'.rcu = h.rcu
  keys : h'.keys = h.keys
  next : h'.next = h.next
  lci : ∀ c, Rel Lci.Disables (h.lci c) (h'.lci c)
  res : ∀ r, Rel Marks (h.res r) (h'.res r)
  pointed : ∀ r, Pointed h'.dl r → Pointed h.dl r

section

universe u

variable {α : Type u} {R : α → α → Prop} {x y : Option α}

theorem rel_refl (hR : ∀ a, R a a) : ∀ x, Rel R x x
  | none => .none
  | some a => .some (hR a)

theorem rel_trans (hR : ∀ a b c, R a b → R b c → R a c) {z : Option α}
    (hxy : Rel R x y) (hyz : Rel R y z) : Rel R x z := by
  cases hxy with
  | none => exact hyz
  | some h1 =>
    cases hyz with
    | some h2 => exact .some (hR _ _ _ h1 h2)

theorem rel_some {a : α} (hxy : Rel R x y) (hx : x = some a) : ∃ b, y = some b ∧ R a b := by
  subst hx
  cases hxy with
  | some hab => exact ⟨_, rfl, hab⟩

theorem rel_some_right {b : α} (hxy : Rel R x y) (hy : y = some b) : ∃ a, x = some a ∧ R a b := by
  subst hy
  cases hxy with
  | some hab => exact ⟨_, rfl, hab⟩

theorem rel_isSome (hxy : Rel R x y) : y.isSome = x.isSome := by
  cases hxy <;> rfl

theorem rel_update {f : Nat → Option α} (hR : ∀ a, R a a) {i : Nat} {a b : α}
    (hf : f i = some a) (hab : R a b) (j : Nat) : Rel R (f j) (update f i (some b) j) := by
  by_cases hj : j = i
  · subst hj
    rw [hf, update_self]
    exact .some hab
  · rw [update_of_ne hj]
    exact rel_refl hR _

end

namespace SysResource.Marks

theorem refl (sr : SysResource) : sr.Marks sr := ⟨rfl, rfl, rfl, rfl, id⟩

theorem trans (a b c : SysResource) (h1 : a.Marks b) (h2 : b.Marks c) : a.Marks c :=
  ⟨h2.cookie.trans h1.cookie, h2.type.trans h1.type, h2.mapped.trans h1.mapped,
    h2.owner.trans h1.owner, fun h => h2.rescinded (h1.rescinded h)⟩

end SysResource.Marks

namespace Lci.Disables

theorem refl (lci : Lci) : lci.Disables lci := .inl rfl

theorem trans (a b c : Lci) (h1 : a.Disables b) (h2 : b.Disables c) : a.Disables c := by
  rcases h1 with rfl | rfl
  · exact h2
  · rcases h2 with rfl | rfl <;> exact .inr rfl

end Lci.Disables

namespace MarkFrame

variable {h h' h'' : Hype}

theorem refl (h : Hype) : MarkFrame h h :=
  ⟨rfl, rfl, rfl, rfl, rfl, fun _ => rel_refl Lci.Disables.refl _,
    fun _ => rel_refl Marks.refl _, fun _ => id⟩

theorem trans (h1 : MarkFrame h h') (h2 : MarkFrame h' h'') : MarkFrame h h'' :=
  ⟨h2.os.trans h1.os, h2.psm.trans h1.psm, h2.rcu.trans h1.rcu, h2.keys.trans h1.keys,
    h2.next.trans h1.next, fun c => rel_trans Lci.Disables.trans (h1.lci c) (h2.lci c),
    fun r => rel_trans Marks.trans (h1.res r) (h2.res r),
    fun r hp => h1.pointed r (h2.pointed r hp)⟩

/-! ### The elementary changes -/

theorem setRes {r : ResId} {sr sr' : SysResource} (hsr : h.res r = some sr) (hm : sr.Marks sr') :
    MarkFrame h (h.setRes r sr') :=
  { refl h with res := rel_update Marks.refl hsr hm }

theorem setDl {L : Links DRef} (hL : ∀ r, Pointed L r → Pointed h.dl r) : MarkFrame h (h.setDl L) :=
  { refl h with pointed := hL }

theorem detachInit (r : ResId) :
    MarkFrame h (h.setDl ((h.dl.detach (.siblings r)).init (.siblings r))) :=
  setDl fun _ hp => .of_detach (x := .siblings r) nofun hp.of_init

theorem queue (r : ResId) {nodes : DRef} (hnodes : ∀ q, nodes ≠ .osRes q) :
    MarkFrame h (h.setDl (h.dl.insBefore (.siblings r) nodes)) :=
  setDl fun q hp => .of_insBefore (x := .siblings r) nofun (hnodes q) hp

end MarkFrame

/-! ### The functions of the first phase -/

section

variable {h h' : Hype} {r start : ResId} {ra : ResType} {nodes curr : DRef} {avoid : Option OsId}
  {b : Bool} {rc : Sval} {fuel : Nat}

theorem markForRescind_frame (hx : markForRescind h r = .ok (b, h')) : MarkFrame h h' := by
  obtain ⟨sr, hsr, hx⟩ := of_live hx
  split_ifs at hx
  · cases hx
    exact .refl h
  · cases hx
    exact .setRes hsr ⟨rfl, rfl, rfl, rfl, fun _ => rfl⟩

theorem invalidateFn_frame (hx : invalidateFn h ra r = .ok h') : MarkFrame h h' := by
  cases ra with
  | intrSrc =>
    cases hx
    exact { MarkFrame.refl h with }
  | mem t =>
    obtain ⟨lci, hlci, hx⟩ := of_live hx
    cases hx
    exact { MarkFrame.refl h with
      lci := rel_update Lci.Disables.refl hlci (.inr rfl) }

theorem invalidateAndQueue_frame (hnodes : ∀ q, nodes ≠ .osRes q)
    (hx : invalidateAndQueue ra nodes h r = .ok h') : MarkFrame h h' := by
  obtain ⟨sr, -, hx⟩ := of_seq hx
  split_ifs at hx
  · obtain ⟨h1, hinv, hx⟩ := of_seq hx
    cases hx
    exact (invalidateFn_frame hinv).trans (.queue r hnodes)
  · cases hx
    exact .queue r hnodes

/-- A child is taken from its parent. -/
def Hype.orphan (h : Hype) (r : ResId) (sr : SysResource) : Hype :=
  (h.setRes r { sr with srParent := none }).setDl
    ((h.dl.detach (.siblings r)).init (.siblings r))

theorem takeChild_ok (hx : takeChild ra nodes avoid h r = .ok h') :
    ∃ sr, h.res r = some sr ∧ (h' = h.orphan r sr ∨ invalidateAndQueue ra nodes
      ((h.orphan r sr).setRes r { sr with srParent := none, srRescinded := true }) r = .ok h') := by
  obtain ⟨sr, hsr, hx⟩ := of_live hx
  refine ⟨sr, hsr, ?_⟩
  split_ifs at hx with hav
  · cases hx
    exact .inl rfl
  obtain ⟨⟨marked, h1⟩, hmark, hx⟩ := of_seq hx
  obtain ⟨s, hs, hmark⟩ := of_live hmark
  obtain rfl : { sr with srParent := none } = s :=
    some.inj ((Function.update_self r _ h.res).symm.trans hs)
  split_ifs at hmark <;> cases hmark
  · cases hx
    exact .inl rfl
  · exact .inr hx

theorem takeChild_frame (hnodes : ∀ q, nodes ≠ .osRes q)
    (hx : takeChild ra nodes avoid h r = .ok h') : MarkFrame h h' := by
  obtain ⟨sr, hsr, hx⟩ := takeChild_ok hx
  have hmarks : sr.Marks { sr with srParent := none } := ⟨rfl, rfl, rfl, rfl, id⟩
  have horphan : MarkFrame h (h.orphan r sr) := (MarkFrame.setRes hsr hmarks).trans (.detachInit r)
  rcases hx with rfl | hx
  · exact horphan
  have hself : (h.orphan r sr).res r = some { sr with srParent := none } :=
    Function.update_self ..
  refine (horphan.trans (.setRes hself ?_)).trans (invalidateAndQueue_frame hnodes hx)
  exact ⟨rfl, rfl, rfl, rfl, fun _ => rfl⟩

/-- **The rule for a section of the walk**: what holds before it, and is kept when a child of `r` is
taken, holds behind it. -/
theorem childLoop_induct {Q : Hype → Prop}
    (hx : childLoop ra nodes avoid r fuel h = .ok h') (hQ : Q h)
    (hstep : ∀ h1 h2 c, Q h1 → h1.dl.next (.children r) = .siblings c →
      takeChild ra nodes avoid h1 c = .ok h2 → Q h2) : Q h' := by
  induction fuel generalizing h with
  | zero => cases hx
  | succ fuel ih =>
    unfold childLoop at hx
    split_ifs at hx
    · cases hx
      exact hQ
    split at hx
    · next c hnext =>
      obtain ⟨h1, htake, hx⟩ := of_seq hx
      exact ih hx (hstep h h1 c hQ hnext htake)
    · cases hx

theorem childLoop_frame (hnodes : ∀ q, nodes ≠ .osRes q)
    (hx : childLoop ra nodes avoid r fuel h = .ok h') : MarkFrame h h' :=
  childLoop_induct (Q := MarkFrame h) hx (.refl h)
    fun _ _ _ hf _ htake => hf.trans (takeChild_frame hnodes htake)

/-- **The rule for the walk**: what holds where it begins, and is kept by the sections at the
resources of the list, holds where it ends. -/
theorem markLoop_induct {Q : DRef → Hype → Prop}
    (hx : markLoop ra nodes avoid fuel curr h = .ok h') (hQ : Q curr h)
    (hstep : ∀ h1 h2 r, Q (.siblings r) h1 → childLoop ra nodes avoid r (h1.next + 1) h1 = .ok h2 →
      Q (h2.dl.next (.siblings r)) h2) : Q nodes h' := by
  induction fuel generalizing curr h with
  | zero => cases hx
  | succ fuel ih =>
    unfold markLoop at hx
    split_ifs at hx with hend
    · cases hx
      exact hend ▸ hQ
    cases curr with
    | siblings r =>
      obtain ⟨_, -, hx⟩ := of_seq hx
      obtain ⟨h1, hloop, hx⟩ := of_seq hx
      exact ih hx (hstep h h1 r hQ hloop)
    | _ => cases hx

theorem markLoop_frame (hnodes : ∀ q, nodes ≠ .osRes q)
    (hx : markLoop ra nodes avoid fuel curr h = .ok h') : MarkFrame h h' :=
  markLoop_induct (Q := fun _ => MarkFrame h) hx (.refl h)
    fun _ _ _ hf hchild => hf.trans (childLoop_frame hnodes hchild)

section

variable (hnodes : ∀ q, nodes ≠ .osRes q)
  (hx : forcedRescindMark h start nodes avoid = .ok (rc, h'))
include hnodes hx

theorem forcedRescindMark_ok :
    ∃ marked h1, markForRescind h start = .ok (marked, h1) ∧ MarkFrame h1 h' := by
  obtain ⟨⟨marked, h1⟩, hmark, hx⟩ := of_seq hx
  refine ⟨marked, h1, hmark, ?_⟩
  dsimp only at hx
  split_ifs at hx
  · cases hx
    exact .refl _
  obtain ⟨sr, -, hx⟩ := of_seq hx
  obtain ⟨h2, hqueue, hx⟩ := of_seq hx
  obtain ⟨h3, hloop, hx⟩ := of_seq hx
  cases hx
  have hdetach : MarkFrame h1 (if sr.srParent.isSome
      then h1.setDl ((h1.dl.detach (.siblings start)).init (.siblings start)) else h1) := by
    split_ifs
    · exact .detachInit start
    · exact .refl h1
  exact hdetach.trans ((invalidateAndQueue_frame hnodes hqueue).trans (markLoop_frame hnodes hloop))

/-- **The frame of `forced_rescind_mark`.** -/
theorem forcedRescindMark_frame : MarkFrame h h' := by
  obtain ⟨marked, h1, hmark, hframe⟩ := forcedRescindMark_ok hnodes hx
  exact (markForRescind_frame hmark).trans hframe

theorem forcedRescindMark_rescinds : ∃ sr', h'.res start = some sr' ∧ sr'.srRescinded = true := by
  obtain ⟨marked, h1, hmark, hframe⟩ := forcedRescindMark_ok hnodes hx
  have hfirst : ∃ sr1, h1.res start = some sr1 ∧ sr1.srRescinded = true := by
    obtain ⟨sr, hsr, hmark⟩ := of_live hmark
    split_ifs at hmark with hres
    · cases hmark
      exact ⟨sr, hsr, hres⟩
    · cases hmark
      exact ⟨_, update_self .., rfl⟩
  obtain ⟨sr1, hsr1, hres⟩ := hfirst
  obtain ⟨sr', hsr', hmarks⟩ := rel_some (hframe.res start) hsr1
  exact ⟨sr', hsr', hmarks.rescinded hres⟩

end

end

end Rhype
