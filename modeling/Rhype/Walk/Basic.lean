import Mathlib.Data.Finset.Card
import Mathlib.Data.Finset.Range
import Mathlib.Data.List.Nodup

/-!
# Breadth-first walks of a tree

A walk visits the elements of a tree, given by the children `kids x` of every element `x`.  It keeps
the elements whose children it has taken (`done`) and those it has met (`queue`); one step takes the
first element of the queue and appends its children.  `Walk kids start done queue` is what holds
between the steps, for a walk that began at `start`.

When the queue is empty the walk has met every element below `start` once, a child after its parent
(`Walk.mem_iff`, `Walk.nodup`, `Walk.before`).
-/

namespace Rhype

open List

universe u

variable {α : Type u} {y x : α} {l : List α}

/-- The elements of the tree below `start`. -/
inductive Below (kids : α → List α) (start : α) : α → Prop
  | start : Below kids start start
  | child {x y : α} (hx : Below kids start x) (hy : y ∈ kids x) : Below kids start y

/-- What is below `start` stays so when no step on the way is lost. -/
theorem Below.mono {kids kids' : α → List α} {start : α} (hy : Below kids start y)
    (hsub : ∀ x, Below kids start x → ∀ c ∈ kids x, c = start ∨ c ∈ kids' x) :
    Below kids' start y := by
  induction hy with
  | start => exact .start
  | child hx hy ih =>
    rcases hsub _ hx _ hy with rfl | hc
    · exact .start
    · exact ih.child hc

/-- The way to an element that is not the first goes through a child of the first. -/
theorem Below.first {kids : α → List α} {start : α} (hy : Below kids start y) :
    y = start ∨ ∃ c ∈ kids start, Below kids c y := by
  induction hy with
  | start => exact .inl rfl
  | child hx hy ih =>
    rcases ih with rfl | ⟨c, hc, hb⟩
    · exact .inr ⟨_, hy, .start⟩
    · exact .inr ⟨c, hc, hb.child hy⟩

/-- When the children of `x` are taken out of the tree, what was below `start` still is, or it is
below one of them. -/
theorem Below.sweep {kids kids' : α → List α} {start : α} (hy : Below kids start y)
    (hsame : ∀ z, Below kids start z → z ≠ x → ∀ c ∈ kids z, c ∈ kids' z) :
    Below kids' start y ∨ ∃ c ∈ kids x, Below kids' c y := by
  induction hy with
  | start => exact .inl .start
  | @child z y hz hy ih =>
    rcases eq_or_ne z x with rfl | hzx
    · exact .inr ⟨y, hy, .start⟩
    have hy' := hsame z hz hzx y hy
    rcases ih with hb | ⟨c, hc, hb⟩
    · exact .inl (hb.child hy')
    · exact .inr ⟨c, hc, hb.child hy'⟩

/-- `x` stands before `y` in the list. -/
def Before (l : List α) (x y : α) : Prop := ∃ l1 l2, l = l1 ++ l2 ∧ x ∈ l1 ∧ y ∈ l2

theorem Before.append_right (hb : Before l x y) (l' : List α) : Before (l ++ l') x y := by
  obtain ⟨l1, l2, rfl, hx, hy⟩ := hb
  exact ⟨l1, l2 ++ l', append_assoc .., hx, mem_append_left _ hy⟩

theorem Before.reverse (hb : Before l x y) : Before l.reverse y x := by
  obtain ⟨l1, l2, rfl, hx, hy⟩ := hb
  exact ⟨l2.reverse, l1.reverse, reverse_append, mem_reverse.2 hy, mem_reverse.2 hx⟩

/-- What is below `start` is a tree: no element is met twice. -/
structure IsTree (kids : α → List α) (start : α) : Prop where
  nodup : ∀ x, Below kids start x → (kids x).Nodup
  unique : ∀ x y c, Below kids start x → Below kids start y → c ∈ kids x → c ∈ kids y → x = y
  root : ∀ x, Below kids start x → start ∉ kids x

/-- What holds between the steps of a walk. -/
structure Walk (kids : α → List α) (start : α) (done queue : List α) : Prop where
  nodup : (done ++ queue).Nodup
  start_mem : start ∈ done ++ queue
  below : ∀ x ∈ done ++ queue, Below kids start x
  origin : ∀ y ∈ done ++ queue, y = start ∨ ∃ x ∈ done, y ∈ kids x
  before : ∀ x ∈ done, ∀ y ∈ kids x, Before (done ++ queue) x y

variable {kids : α → List α} {start r : α} {done queue : List α}

theorem Walk.init : Walk kids start [] [start] where
  nodup := nodup_singleton start
  start_mem := mem_singleton_self start
  below := fun x hx => by
    rw [mem_singleton.1 hx]
    exact .start
  origin := fun y hy => .inl (mem_singleton.1 hy)
  before := nofun

/-- The children of the first element of the queue have not been met. -/
theorem Walk.fresh (hw : Walk kids start done (r :: queue)) (ht : IsTree kids start)
    (hy : y ∈ kids r) : y ∉ done ++ r :: queue := by
  intro hmem
  have hr : Below kids start r := hw.below r (by simp)
  rcases hw.origin y hmem with rfl | ⟨x, hx, hyx⟩
  · exact ht.root r hr hy
  -- the other parent would be `r`, which is not among the elements that are done
  · have hxr : x = r := ht.unique x r y (hw.below x (mem_append_left _ hx)) hr hyx hy
    exact disjoint_of_nodup_append hw.nodup (hxr ▸ hx) mem_cons_self

theorem Walk.step (hw : Walk kids start done (r :: queue)) (ht : IsTree kids start) :
    Walk kids start (done ++ [r]) (queue ++ kids r) := by
  have hr : Below kids start r := hw.below r (by simp)
  have hl : done ++ [r] ++ (queue ++ kids r) = (done ++ r :: queue) ++ kids r := by simp
  refine ⟨?_, ?_, ?_, ?_, ?_⟩
  · rw [hl]
    exact List.Nodup.append hw.nodup (ht.nodup r hr) fun y hy hk => hw.fresh ht hk hy
  · rw [hl]
    exact mem_append_left _ hw.start_mem
  · rw [hl]
    intro x hx
    rcases mem_append.1 hx with hx | hx
    · exact hw.below x hx
    · exact hr.child hx
  · rw [hl]
    intro y hy
    rcases mem_append.1 hy with hy | hy
    · exact (hw.origin y hy).imp_right fun ⟨x, hx, hyx⟩ => ⟨x, mem_append_left _ hx, hyx⟩
    · exact .inr ⟨r, by simp, hy⟩
  · intro x hx y hy
    rcases mem_append.1 hx with hx | hx
    · rw [hl]
      exact (hw.before x hx y hy).append_right _
    · rw [mem_singleton.1 hx] at hy ⊢
      exact ⟨done ++ [r], queue ++ kids r, rfl, by simp, mem_append_right _ hy⟩

/-- A walk with an empty queue has met exactly the elements below `start`. -/
theorem Walk.mem_iff (hw : Walk kids start done []) : x ∈ done ↔ Below kids start x := by
  refine ⟨fun hx => hw.below x (mem_append_left _ hx), fun hx => ?_⟩
  induction hx with
  | start => simpa using hw.start_mem
  | child _ hy ih =>
    obtain ⟨l1, l2, hl, -, hmem⟩ := hw.before _ ih _ hy
    rw [← append_nil done, hl]
    exact mem_append_right _ hmem

/-- A list of different numbers below a bound is no longer than the bound. -/
theorem length_le_of_nodup {l : List Nat} {n : Nat} (hd : l.Nodup) (hb : ∀ x ∈ l, x < n) :
    l.length ≤ n := by
  rw [← toFinset_card_of_nodup hd]
  calc l.toFinset.card ≤ (Finset.range n).card :=
        Finset.card_le_card fun x hx => Finset.mem_range.2 (hb x (mem_toFinset.1 hx))
    _ = n := Finset.card_range n

end Rhype
