import Rhype.Ring.Basic

/-!
# The pointer operations on circular lists act on the list they represent

Inserting a lone cell before the head appends it, and unlinking a cell removes it, wherever it
stands.  A list does not notice a store to a cell outside it (`IsRing.congr`).
-/

namespace Rhype.Links

open List

universe u

variable {α : Type u} {L L' : Links α} {a b h x c : α} {xs ys : List α}

/-! ### Paths -/

theorem path_append_cons : ∀ {a : α} {xs : List α},
    L.Path a (xs ++ x :: ys) b ↔ L.Path a xs x ∧ L.Path x ys b
  | _, [] => Iff.rfl
  | a, y :: xs => by
    rw [cons_append, Path, Path, path_append_cons]
    exact and_assoc.symm

/-- A path is determined by the successors of its cells and the predecessors of the cells it
leads to. -/
theorem Path.congr : ∀ {a : α} {xs : List α}, L.Path a xs b →
    (∀ c ∈ a :: xs, L'.next c = L.next c) → (∀ c ∈ b :: xs, L'.prev c = L.prev c) →
    L'.Path a xs b
  | a, [], hp, hn, hv => by
    rwa [Path, hn a (by simp), hv b (by simp)]
  | a, y :: xs, hp, hn, hv => by
    refine ⟨?_, hp.2.congr (fun c hc => hn c (by simp [mem_cons.1 hc]))
      (fun c hc => hv c ?_)⟩
    · rw [hn a (by simp), hv y (by simp)]
      exact hp.1
    · rcases mem_cons.1 hc with rfl | hc
      · simp
      · simp [hc]

theorem Path.next_mem : ∀ {a : α} {xs : List α}, L.Path a xs b → ∀ c ∈ a :: xs,
    L.next c ∈ b :: xs
  | a, [], hp, c, hc => by
    rw [mem_singleton.1 hc, hp.1]
    simp
  | a, y :: xs, hp, c, hc => by
    rcases mem_cons.1 hc with rfl | hc
    · rw [hp.1.1]
      simp
    · have := hp.2.next_mem c hc
      rcases mem_cons.1 this with h | h <;> simp [h]

theorem Path.prev_mem : ∀ {a : α} {xs : List α}, L.Path a xs b → ∀ c ∈ b :: xs,
    L.prev c ∈ a :: xs
  | a, [], hp, c, hc => by
    rw [mem_singleton.1 hc, hp.2]
    simp
  | a, y :: xs, hp, c, hc => by
    have hc : c = y ∨ c ∈ b :: xs := by
      rcases mem_cons.1 hc with rfl | hc
      · simp
      · rcases mem_cons.1 hc with rfl | hc <;> simp [*]
    rcases hc with rfl | hc
    · rw [hp.1.2]
      simp
    · exact mem_cons_of_mem _ (hp.2.prev_mem c hc)

/-- A path may lead to another cell in the end: only the successor of its last cell changes. -/
theorem Path.relink [DecidableEq α] {y : α} : ∀ {a : α} {xs : List α}, L.Path a xs x →
    (a :: xs).Nodup → (∀ c ∈ a :: xs, L'.next c = if c = L.prev x then y else L.next c) →
    (∀ c ∈ xs, L'.prev c = L.prev c) → L'.prev y = L.prev x → L'.Path a xs y
  | a, [], hp, _, hn, _, hy => by
    rw [Path, hn a (by simp), if_pos hp.2.symm, hy]
    exact ⟨rfl, hp.2⟩
  | a, z :: zs, hp, hnd, hn, hv, hy => by
    obtain ⟨haz, hnd⟩ := nodup_cons.1 hnd
    have ha : a ≠ L.prev x := fun he => haz (he ▸ hp.2.prev_mem x (by simp))
    refine ⟨?_, hp.2.relink hnd (fun c hc => hn c (.tail a hc)) (fun c hc => hv c (.tail z hc)) hy⟩
    rw [hn a (by simp), if_neg ha, hv z (by simp)]
    exact hp.1

/-- The cells of a path to `b` are determined by where it starts. -/
theorem Path.unique : ∀ {a : α} {xs ys : List α}, L.Path a xs b → L.Path a ys b →
    b ∉ xs → b ∉ ys → xs = ys
  | _, [], [], _, _, _, _ => rfl
  | _, [], y :: ys, hp, hq, _, hy => absurd (hp.1.symm.trans hq.1.1) fun he => hy (by simp [he])
  | _, x :: xs, [], hp, hq, hx, _ => absurd (hq.1.symm.trans hp.1.1) fun he => hx (by simp [he])
  | _, x :: xs, y :: ys, hp, hq, hx, hy => by
    have hxy : x = y := hp.1.1.symm.trans hq.1.1
    subst hxy
    rw [Path.unique hp.2 hq.2 (fun h => hx (by simp [h])) fun h => hy (by simp [h])]

/-! ### Rings -/

section

variable (hr : L.IsRing h xs)
include hr

theorem IsRing.unique (hr' : L.IsRing h ys) : xs = ys :=
  hr.2.unique hr'.2 (nodup_cons.1 hr.1).1 (nodup_cons.1 hr'.1).1

theorem IsRing.congr (hn : ∀ c ∈ h :: xs, L'.next c = L.next c)
    (hv : ∀ c ∈ h :: xs, L'.prev c = L.prev c) : L'.IsRing h xs :=
  ⟨hr.1, hr.2.congr hn hv⟩

theorem IsRing.next_mem (hc : c ∈ h :: xs) : L.next c ∈ h :: xs :=
  hr.2.next_mem c hc

theorem IsRing.prev_mem (hc : c ∈ h :: xs) : L.prev c ∈ h :: xs :=
  hr.2.prev_mem c hc

end

theorem isRing_nil_iff : L.IsRing h [] ↔ L.next h = h ∧ L.prev h = h := by
  simp [IsRing, Path]

theorem IsRing.next_head (hr : L.IsRing h xs) : L.next h = xs.head?.getD h := by
  cases xs with
  | nil => exact hr.2.1
  | cons y ys => exact hr.2.1.1

/-- The successor of a cell is the next cell of the list, or the head. -/
theorem IsRing.next_cell (hr : L.IsRing h (xs ++ x :: ys)) : L.next x = ys.head?.getD h := by
  have hp := (path_append_cons.1 hr.2).2
  cases ys with
  | nil => exact hp.1
  | cons y ys => exact hp.1.1

theorem Path.prev_end : ∀ {a : α} {xs : List α}, L.Path a xs b → L.prev b = xs.getLast?.getD a
  | _, [], hp => hp.2
  | a, y :: ys, hp => by
    rw [hp.2.prev_end, getLast?_cons]
    rfl

/-- The predecessor of a cell is the cell before it in the list, or the head. -/
theorem IsRing.prev_cell (hr : L.IsRing h (xs ++ x :: ys)) : L.prev x = xs.getLast?.getD h :=
  (path_append_cons.1 hr.2).1.prev_end

theorem IsRing.prev_head (hr : L.IsRing h xs) : L.prev h = xs.getLast?.getD h := hr.2.prev_end

variable [DecidableEq α]

theorem IsRing.isEmpty_iff (hr : L.IsRing h xs) : L.isEmpty h = true ↔ xs = [] := by
  rw [isEmpty, hr.next_head]
  cases xs with
  | nil => simp
  | cons y ys =>
    have hne : y ≠ h := fun he => (nodup_cons.1 hr.1).1 (by simp [he])
    simp [hne]

theorem isRing_init (L : Links α) (e : α) : (L.init e).IsRing e [] := by
  simp [isRing_nil_iff, init]

theorem IsRing.init_of_notMem {e : α} (hr : L.IsRing h xs) (he : e ∉ h :: xs) :
    (L.init e).IsRing h xs := by
  refine hr.congr ?_ ?_ <;> intro c hc <;>
    simp [init, show c ≠ e from fun hce => he (hce ▸ hc)]

/-- Inserting a lone cell before the head appends it to the list. -/
theorem IsRing.insBefore_head (hr : L.IsRing h xs) (hx : L.IsRing x []) (hxs : x ∉ h :: xs) :
    (L.insBefore x h).IsRing h (xs ++ [x]) := by
  have hxp : L.prev x = x := (isRing_nil_iff.1 hx).2
  have hne : ∀ c ∈ h :: xs, c ≠ x := fun c hc he => hxs (he ▸ hc)
  have hh : ∀ c ∈ xs, c ≠ h := fun c hc he => (nodup_cons.1 hr.1).1 (he ▸ hc)
  refine ⟨?_, path_append_cons.2 ⟨hr.2.relink hr.1 ?_ ?_ ?_, ?_⟩⟩
  · exact hr.1.append (nodup_singleton x) (by simpa using hxs)
  · intro c hc
    simp [insBefore, hxp, hne c hc]
  · intro c hc
    simp [insBefore, hne c (.tail h hc), hh c hc]
  · simp [insBefore]
  -- the last cell of the list is not `x`
  · have hlast := hne _ (hr.prev_mem mem_cons_self)
    simp [Path, insBefore, hxp, hlast.symm, hne h mem_cons_self]

/-- Unlinking a cell of a list removes it from the list. -/
theorem IsRing.detach_mem (hr : L.IsRing h (xs ++ x :: ys)) : (L.detach x).IsRing h (xs ++ ys) := by
  obtain ⟨hp, hq⟩ := path_append_cons.1 hr.2
  have hnd := hr.1
  refine ⟨hnd.sublist ((List.Sublist.append_left (sublist_cons_self _ _) _).cons_cons _), ?_⟩
  rw [← cons_append, nodup_append] at hnd
  obtain ⟨hnx, hny, hdis⟩ := hnd
  -- the cells before `x` lead to its successor now
  have hfront : L.next x ∉ xs → (L.detach x).Path h xs (L.next x) := by
    intro hnext
    refine hp.relink hnx (fun c _ => by simp [detach]) (fun c hc => ?_) (by simp [detach])
    simp [detach, show c ≠ L.next x from fun he => hnext (he ▸ hc)]
  rcases ys with _ | ⟨y, ys⟩
  · rw [hq.1] at hfront
    rw [append_nil]
    exact hfront (nodup_cons.1 hnx).1
  obtain ⟨⟨hqn, -⟩, hq⟩ := hq
  obtain ⟨-, hy⟩ := nodup_cons.1 hny
  have hyx : ∀ c ∈ h :: xs, ∀ d ∈ y :: ys, c ≠ d := fun c hc d hd => hdis c hc d (.tail x hd)
  rw [hqn] at hfront
  refine path_append_cons.2 ⟨hfront fun hy => hyx y (.tail h hy) y (by simp) rfl, hq.congr ?_ ?_⟩
  · intro c hc
    have hprev := hyx _ (hp.prev_mem x (by simp)) c hc
    simp [detach, hprev.symm]
  · intro c hc
    have hcy : c ≠ y := by
      rcases mem_cons.1 hc with rfl | hc
      · exact hyx c (by simp) y (by simp)
      · exact fun he => (nodup_cons.1 hy).1 (he ▸ hc)
    simp [detach, hqn, hcy]

/-! ### Frames -/

theorem IsRing.insBefore_frame {d : α} (hr : L.IsRing h xs) (hx : x ∉ h :: xs) (hd : d ∉ h :: xs)
    (hxp : L.prev x ∉ h :: xs) (hdp : L.prev d ∉ h :: xs) : (L.insBefore x d).IsRing h xs := by
  refine hr.congr ?_ ?_ <;> intro c hc
  · have h1 : c ≠ L.prev x := fun he => hxp (he ▸ hc)
    have h2 : c ≠ L.prev d := fun he => hdp (he ▸ hc)
    simp [insBefore, h1, h2]
  · have h1 : c ≠ x := fun he => hx (he ▸ hc)
    have h2 : c ≠ d := fun he => hd (he ▸ hc)
    simp [insBefore, h1, h2]

theorem IsRing.insBefore_of_notMem {d : α} (hr : L.IsRing h xs) (hx : L.IsRing x [])
    (hd : L.IsRing d ys) (hxn : x ∉ h :: xs) (hdis : ∀ c ∈ d :: ys, c ∉ h :: xs) :
    (L.insBefore x d).IsRing h xs := by
  have hxp : L.prev x = x := (isRing_nil_iff.1 hx).2
  apply hr.insBefore_frame hxn (hdis d mem_cons_self)
  · rwa [hxp]
  · exact hdis _ (hd.prev_mem mem_cons_self)

theorem IsRing.detach_of_disjoint {d : α} (hr : L.IsRing h xs) (hd : L.IsRing d ys)
    (hx : x ∈ d :: ys) (hdis : ∀ c ∈ d :: ys, c ∉ h :: xs) : (L.detach x).IsRing h xs := by
  have h1 : L.prev x ∉ h :: xs := hdis _ (hd.prev_mem hx)
  have h2 : L.next x ∉ h :: xs := hdis _ (hd.next_mem hx)
  refine hr.congr ?_ ?_ <;> intro c hc
  · simp [detach, show c ≠ L.prev x from fun he => h1 (he ▸ hc)]
  · simp [detach, show c ≠ L.next x from fun he => h2 (he ▸ hc)]

/-! ### Isolated cells -/

/-- The cell is a list of its own, and no other cell points to it. -/
structure Isolated (L : Links α) (e : α) : Prop where
  next : L.next e = e
  prev : L.prev e = e
  unpointed : ∀ c, c ≠ e → L.next c ≠ e ∧ L.prev c ≠ e

namespace Isolated

variable {e d : α}

omit [DecidableEq α] in
theorem isRing (hi : L.Isolated e) : L.IsRing e [] := isRing_nil_iff.2 ⟨hi.next, hi.prev⟩

omit [DecidableEq α] in
theorem notMem (hi : L.Isolated e) (hr : L.IsRing h xs) (hne : h ≠ e) : e ∉ xs := by
  intro he
  obtain ⟨ys, zs, rfl⟩ := append_of_mem he
  have hnext := hr.next_cell
  rw [hi.next] at hnext
  rcases zs with _ | ⟨z, zs⟩
  · exact hne hnext.symm
  have hnd := (nodup_cons.1 hr.1).2
  rw [nodup_append] at hnd
  have hz : e ∉ z :: zs := (nodup_cons.1 hnd.2.1).1
  have hze : e = z := hnext
  exact hz (hze ▸ mem_cons_self)

theorem init (hi : L.Isolated e) (hx : x ≠ e) : (L.init x).Isolated e := by
  refine ⟨?_, ?_, fun c hc => ?_⟩
  · simp [Links.init, hx.symm, hi.next]
  · simp [Links.init, hx.symm, hi.prev]
  · rcases eq_or_ne c x with rfl | hcx
    · simp [Links.init, hx]
    · simpa [Links.init, hcx] using hi.unpointed c hc

theorem detach (hi : L.Isolated e) (hx : x ≠ e) : (L.detach x).Isolated e := by
  obtain ⟨hxn, hxp⟩ := hi.unpointed x hx
  refine ⟨?_, ?_, fun c hc => ⟨?_, ?_⟩⟩
  · simp [Links.detach, hxp.symm, hi.next]
  · simp [Links.detach, hxn.symm, hi.prev]
  · simp only [Links.detach, next_setPrev, next_setNext]
    split_ifs
    · exact hxn
    · exact (hi.unpointed c hc).1
  · simp only [Links.detach, prev_setPrev]
    split_ifs
    · exact hxp
    · exact (hi.unpointed c hc).2

theorem insBefore (hi : L.Isolated e) (hx : x ≠ e) (hd : d ≠ e) : (L.insBefore x d).Isolated e := by
  have hxp := (hi.unpointed x hx).2
  have hdp := (hi.unpointed d hd).2
  refine ⟨?_, ?_, fun c hc => ⟨?_, ?_⟩⟩
  · simp [Links.insBefore, hxp.symm, hdp.symm, hi.next]
  · simp [Links.insBefore, hx.symm, hd.symm, hi.prev]
  · simp only [Links.insBefore, next_setPrev, next_setNext]
    split_ifs
    · exact hx
    · exact hd
    · exact (hi.unpointed c hc).1
  · simp only [Links.insBefore, prev_setPrev, prev_setNext]
    split_ifs
    · exact hdp
    · exact hxp
    · exact (hi.unpointed c hc).2

end Isolated

end Rhype.Links
