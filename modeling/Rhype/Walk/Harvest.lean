import Rhype.Walk.Basic

/-!
# Several walks of one tree

A tree is walked from each of the elements `rs` in turn, and a walk stops at the other elements of
`rs`.  `Harvest kids rs done rem todo` is what holds when the walks from `done` are over and have
met `todo`, and those from `rem` are to come.

When all walks are over they have met every element below one of `rs` once (`Harvest.mem_iff`), a
child after its parent (`Harvest.after`).  For this the elements of `rs` have to be in the order of
their age, and a child has to be younger than its parent.
-/

namespace Rhype

open List

universe u

variable {α : Type u} [DecidableEq α]

/-- The children that a walk goes on to. -/
def others (kids : α → List α) (rs : List α) (x : α) : List α := (kids x).filter (· ∉ rs)

/-- A tree whose elements have an age. -/
structure Aged (kids : α → List α) (age : α → Nat) (rs : List α) : Prop where
  unique : ∀ x y c, c ∈ kids x → c ∈ kids y → x = y
  newer : ∀ x c, c ∈ kids x → age x < age c
  sorted : rs.Pairwise fun r s => age r < age s

/-- What holds between the walks. -/
structure Harvest (kids : α → List α) (rs done rem todo : List α) : Prop where
  split : rs = done ++ rem
  nodup : todo.Nodup
  mem : ∀ x, x ∈ todo ↔ ∃ r ∈ done, Below (others kids rs) r x
  before : ∀ x ∈ todo, ∀ c ∈ kids x, Before todo x c ∨ c ∈ rem

variable {kids : α → List α} {age : α → Nat} {rs done rem todo : List α} {r x c : α}

theorem mem_others : c ∈ others kids rs x ↔ c ∈ kids x ∧ c ∉ rs := by
  simp [others]

theorem below_of_others (hb : Below (others kids rs) r x) : Below kids r x :=
  hb.mono fun _ _ _ hc => .inr (mem_others.1 hc).1

omit [DecidableEq α] in
theorem Aged.le_of_below (ha : Aged kids age rs) (hb : Below kids r x) : age r ≤ age x := by
  induction hb with
  | start => exact le_rfl
  | child _ hc ih => exact ih.trans (ha.newer _ _ hc).le

namespace Harvest

theorem start (kids : α → List α) (rs : List α) : Harvest kids rs [] rs [] where
  split := rfl
  nodup := nodup_nil
  mem := fun x => by simp
  before := nofun

/-- An element that was met began a walk, or it was met behind its parent. -/
theorem origin (hh : Harvest kids rs done rem todo) (hx : x ∈ todo) :
    x ∈ done ∨ ∃ y ∈ todo, x ∈ others kids rs y := by
  obtain ⟨r, hr, hb⟩ := (hh.mem x).1 hx
  cases hb with
  | start => exact .inl hr
  | @child y _ hy hc => exact .inr ⟨y, (hh.mem y).2 ⟨r, hr, hy⟩, hc⟩

section

variable (hh : Harvest kids rs done (r :: rem) todo) (ha : Aged kids age rs)
include hh ha

/-- The next walk meets only what was not met before. -/
theorem fresh (hb : Below (others kids rs) r x) : x ∉ todo := by
  have hdone : ∀ s ∈ done, s ∈ rs := fun s hs => hh.split ▸ mem_append_left _ hs
  induction hb with
  | start =>
    intro hr
    rcases hh.origin hr with hr | ⟨y, -, hr⟩
    · have hsorted := hh.split ▸ ha.sorted
      have hlt := (pairwise_append.1 hsorted).2.2 r hr r mem_cons_self
      exact lt_irrefl _ hlt
    · exact (mem_others.1 hr).2 (hh.split ▸ by simp)
  | @child y c hy hc ih =>
    intro hmem
    rcases hh.origin hmem with hin | ⟨z, hz, hcz⟩
    · exact (mem_others.1 hc).2 (hdone c hin)
    · have hzy : z = y := ha.unique z y c (mem_others.1 hcz).1 (mem_others.1 hc).1
      exact ih (hzy ▸ hz)

/-- A walk of a tree from which the elements that were met have been taken is a walk of the whole
tree. -/
theorem below_iff {kids' : α → List α}
    (hkids : ∀ y, Below kids' r y → y ∉ todo → ∀ c, c ∈ kids' y ↔ c ∈ others kids rs y ∧ c ∉ todo) :
    Below kids' r x ↔ Below (others kids rs) r x := by
  constructor
  · intro hb
    have hboth : Below (others kids rs) r x ∧ x ∉ todo := by
      induction hb with
      | start => exact ⟨.start, hh.fresh ha .start⟩
      | child hy hc ih =>
        obtain ⟨hc, hnot⟩ := (hkids _ hy ih.2 _).1 hc
        exact ⟨ih.1.child hc, hnot⟩
    exact hboth.1
  · intro hb
    induction hb with
    | start => exact .start
    | child hy hc ih =>
      have hnot := hh.fresh ha (hy.child hc)
      exact ih.child ((hkids _ ih (hh.fresh ha hy) _).2 ⟨hc, hnot⟩)

/-- **One more walk.** -/
theorem step {order : List α}
    (hmem : ∀ x, x ∈ order ↔ Below (others kids rs) r x) (hnd : order.Nodup)
    (hafter : ∀ x ∈ order, ∀ c ∈ others kids rs x, Before order x c) :
    Harvest kids rs (done ++ [r]) rem (todo ++ order) := by
  have hr : r ∈ order := (hmem r).2 .start
  refine ⟨by rw [hh.split]; simp, ?_, ?_, ?_⟩
  · refine List.Nodup.append hh.nodup hnd fun x hx hx' => ?_
    exact hh.fresh ha ((hmem x).1 hx') hx
  · intro x
    rw [mem_append, hh.mem, hmem]
    simp
  · intro x hx c hc
    rcases mem_append.1 hx with hx | hx
    · rcases hh.before x hx c hc with hb | hc
      · exact .inl (hb.append_right _)
      · rcases mem_cons.1 hc with rfl | hc
        · exact .inl ⟨todo, order, rfl, hx, hr⟩
        · exact .inr hc
    by_cases hcr : c ∈ rs
    -- a child that begins a walk is younger than `r`, so its walk is to come
    · have hsorted := hh.split ▸ ha.sorted
      have hlt : age r < age c :=
        (ha.le_of_below (below_of_others ((hmem x).1 hx))).trans_lt (ha.newer x c hc)
      rw [hh.split, mem_append, mem_cons] at hcr
      rcases hcr with hcr | rfl | hcr
      · have hgt := (pairwise_append.1 hsorted).2.2 c hcr r mem_cons_self
        omega
      · exact absurd hlt (lt_irrefl _)
      · exact .inr hcr
    · obtain ⟨l1, l2, hl, hx1, hc2⟩ := hafter x hx c (mem_others.2 ⟨hc, hcr⟩)
      exact .inl ⟨todo ++ l1, l2, by rw [hl, append_assoc], mem_append_right _ hx1, hc2⟩

end

/-- **The walks have met what is below one of `rs`.** -/
theorem mem_iff (hh : Harvest kids rs rs [] todo) : x ∈ todo ↔ ∃ r ∈ rs, Below kids r x := by
  constructor
  · intro hx
    obtain ⟨r, hr, hb⟩ := (hh.mem x).1 hx
    exact ⟨r, hr, below_of_others hb⟩
  · rintro ⟨r, hr, hb⟩
    induction hb with
    | start => exact (hh.mem r).2 ⟨r, hr, .start⟩
    | @child y c _ hc ih =>
      by_cases hcr : c ∈ rs
      · exact (hh.mem c).2 ⟨c, hcr, .start⟩
      · obtain ⟨s, hs, hb⟩ := (hh.mem y).1 ih
        exact (hh.mem c).2 ⟨s, hs, hb.child (mem_others.2 ⟨hc, hcr⟩)⟩

/-- **A child was met after its parent.** -/
theorem after (hh : Harvest kids rs rs [] todo) (hx : x ∈ todo) (hc : c ∈ kids x) :
    Before todo x c :=
  (hh.before x hx c hc).resolve_right nofun

end Harvest

end Rhype
