import Rhype.Rcu.Equiv.Moves

/-!
# The lists of deferred nodes

Without `rcu_pause` the nodes are done in the order in which they were deferred: first those of the
list that a processor holds, and then those of the three lists from `gen_count` on
(`ListInv.order`).  A node that was deferred in generation `gen` is taken in generation `gen + 2`.
-/

namespace Rhype

open Function List RcuEvent

variable {C : Type} [DecidableEq C]

def RcuEvent.ranNode : RcuEvent C → Option Nat
  | .ran _ k => some k
  | _ => none

def RcuEvent.deferredNode : RcuEvent C → Option Nat
  | .deferred _ k _ _ => some k
  | _ => none

namespace Rcu

/-- The nodes whose collectors were called, in this order. -/
def ranNodes (s : Rcu C) : List Nat := s.trace.filterMap ranNode

/-- The nodes that were deferred, in this order. -/
def deferredNodes (s : Rcu C) : List Nat := s.trace.filterMap deferredNode

/-- The list that is taken `r` generations from now. -/
def listAt (s : Rcu C) (r : Nat) : List Nat := s.rcuLists ((s.genCount + r) % numGen)

/-- The nodes in the lists. -/
def waiting (s : Rcu C) : List Nat := s.listAt 0 ++ (s.listAt 1 ++ s.listAt 2)

/-- The rest of the list that is being done. -/
def Held (s : Rcu C) (xs : List Nat) : Prop :=
  (∃ i, (s.cpu i).pc = .run xs) ∨ xs = [] ∧ ∀ i list, (s.cpu i).pc ≠ .run list

end Rcu

/-- The nodes and their generations. -/
structure ListInv (s : Rcu C) : Prop where
  order : ∃ xs, s.Held xs ∧ s.ranNodes ++ (xs ++ s.waiting) = range s.nodes
  deferred : s.deferredNodes = range s.nodes
  free : s.listAt 3 = []
  gens : ∀ d k gen inside, .deferred d k gen inside ∈ s.trace → ∀ r < 3, k ∈ s.listAt r →
    gen + 2 = s.genCount + r
  held : ∀ d k gen inside, .deferred d k gen inside ∈ s.trace → ∀ i list,
    (s.cpu i).pc = .run list → k ∈ list → gen + 3 ≤ s.genCount

section

variable {s t : Rcu C} {i j d : C} {x : RcuCpu C} {xs : List Nat} {inside : Finset C} {r : Nat}

omit [DecidableEq C] in
theorem ListInv.lt_nodes (hs : ListInv s) {k gen : Nat}
    (hmem : .deferred d k gen inside ∈ s.trace) : k < s.nodes := by
  have hk : k ∈ s.deferredNodes := mem_filterMap.2 ⟨_, hmem, rfl⟩
  rwa [hs.deferred, mem_range] at hk

theorem Rcu.Held.update (hs : MaskInv s) (hheld : s.Held xs)
    (hold : ¬ (s.cpu i).Busy ∨ (s.cpu i).pc = .run []) (hnew : ∀ list, x.pc ≠ .run list)
    (hcpu : t.cpu = update s.cpu i x) : t.Held xs := by
  have hself : t.cpu i = x := by rw [hcpu, update_self]
  have hother : ∀ j ≠ i, t.cpu j = s.cpu j := fun j hj => by rw [hcpu, update_of_ne hj]
  rcases hheld with ⟨j, hj⟩ | ⟨rfl, hnone⟩
  · by_cases hji : j = i
    · -- the list was empty
      subst hji
      have hempty : (s.cpu j).pc = .run [] := by
        rcases hold with hidle | hempty
        · exact absurd (.inr ⟨xs, hj⟩) hidle
        · exact hempty
      obtain rfl : xs = [] := by
        rw [hj] at hempty
        exact RcuPc.run.inj hempty
      refine .inr ⟨rfl, fun k list hk => ?_⟩
      by_cases hkj : k = j
      · rw [hkj, hself] at hk
        exact hnew list hk
      · rw [hother k hkj] at hk
        exact hkj (hs.unique k j (.inr ⟨list, hk⟩) (.inr ⟨[], hj⟩))
    · exact .inl ⟨j, by rw [hother j hji, hj]⟩
  · refine .inr ⟨rfl, fun k list hk => ?_⟩
    by_cases hki : k = i
    · rw [hki, hself] at hk
      exact hnew list hk
    · rw [hother k hki] at hk
      exact hnone k list hk

theorem ListInv.update (hs : MaskInv s) (hl : ListInv s)
    (hold : ¬ (s.cpu i).Busy ∨ (s.cpu i).pc = .run []) (hnew : ∀ list, x.pc ≠ .run list)
    (hcpu : t.cpu = update s.cpu i x) (hlists : t.rcuLists = s.rcuLists)
    (hcount : t.genCount = s.genCount) (hnodes : t.nodes = s.nodes)
    (hran : t.ranNodes = s.ranNodes) (hdef : t.deferredNodes = s.deferredNodes)
    (hmem : ∀ d k gen inside, .deferred d k gen inside ∈ t.trace →
      .deferred d k gen inside ∈ s.trace) : ListInv t := by
  have hat : ∀ r, t.listAt r = s.listAt r := fun r => by
    rw [Rcu.listAt, hlists, hcount]
    rfl
  obtain ⟨xs, hheld, horder⟩ := hl.order
  refine ⟨⟨xs, hheld.update hs hold hnew hcpu, ?_⟩, ?_, ?_, ?_, ?_⟩
  · rwa [Rcu.waiting, hat, hat, hat, hran, hnodes]
  · rw [hdef, hnodes]
    exact hl.deferred
  · rw [hat]
    exact hl.free
  · intro d k gen inside hev r hr hk
    rw [hat] at hk
    rw [hcount]
    exact hl.gens d k gen inside (hmem _ _ _ _ hev) r hr hk
  · intro d k gen inside hev j list hj hk
    rw [hcpu] at hj
    rw [hcount]
    by_cases hji : j = i
    · rw [hji, update_self] at hj
      exact absurd hj (hnew list)
    · rw [update_of_ne hji] at hj
      exact hl.held d k gen inside (hmem _ _ _ _ hev) j list hj hk

/-- The state after a processor has taken a list. -/
def Rcu.taken (s : Rcu C) (i : C) (x : RcuCpu C) : Rcu C :=
  { s with
    rcuLists := update s.rcuLists (s.genCount % numGen) []
    genCount := s.genCount + 1 }.setCpu i x

theorem listAt_taken (hr : r < 4) :
    (s.taken i x).listAt r = if r = 3 then [] else s.listAt (r + 1) := by
  change update s.rcuLists (s.genCount % numGen) [] ((s.genCount + 1 + r) % numGen) = _
  split_ifs with h3
  · rw [show (s.genCount + 1 + r) % numGen = s.genCount % numGen by unfold numGen; omega,
      update_self]
  · rw [update_of_ne (by unfold numGen; omega), Nat.add_right_comm s.genCount 1 r]
    rfl

section

variable (hs : MaskInv s) (hl : ListInv s)
include hs hl

theorem ListInv.take (hold : (s.cpu i).pc = .lock)
    (hpc : x.pc = .run (s.listAt 0)) : ListInv (s.taken i x) := by
  obtain ⟨xs, hheld, horder⟩ := hl.order
  -- nobody else has a list
  have hnone : ∀ j list, (s.cpu j).pc ≠ .run list := by
    intro j list hj
    have hji := hs.unique j i (.inr ⟨list, hj⟩) (.inl hold)
    rw [hji, hold] at hj
    cases hj
  obtain rfl : xs = [] := by
    rcases hheld with ⟨j, hj⟩ | ⟨rfl, -⟩
    · exact absurd hj (hnone j xs)
    · rfl
  have hrun : ∀ j list, ((s.taken i x).cpu j).pc = .run list → list = s.listAt 0 := by
    intro j list hj
    by_cases hji : j = i
    · rw [hji, Rcu.taken, Rcu.cpu_setCpu_self, hpc] at hj
      exact (RcuPc.run.inj hj).symm
    · rw [Rcu.taken, Rcu.cpu_setCpu_of_ne hji] at hj
      exact absurd hj (hnone j list)
  refine ⟨⟨s.listAt 0, .inl ⟨i, ?_⟩, ?_⟩, hl.deferred, listAt_taken (by decide), ?_, ?_⟩
  · rw [Rcu.taken, Rcu.cpu_setCpu_self, hpc]
  · change s.ranNodes ++ (s.listAt 0 ++ (s.taken i x).waiting) = .range s.nodes
    rw [← horder, Rcu.waiting, listAt_taken (by decide), listAt_taken (by decide),
      listAt_taken (by decide)]
    simp [Rcu.waiting, hl.free]
  · intro d k gen inside hev r hr hk
    change gen + 2 = s.genCount + 1 + r
    rw [listAt_taken (by omega), if_neg (by omega)] at hk
    have hr2 : r ≠ 2 := by
      rintro rfl
      rw [hl.free] at hk
      cases hk
    have hgen := hl.gens d k gen inside hev (r + 1) (by omega) hk
    omega
  · intro d k gen inside hev j list hj hk
    change gen + 3 ≤ s.genCount + 1
    rw [hrun j list hj] at hk
    have hgen := hl.gens d k gen inside hev 0 (by decide) hk
    omega

theorem ListInv.ran {k : Nat} {list : List Nat}
    (hold : (s.cpu i).pc = .run (k :: list)) (hpc : x.pc = .run list) :
    ListInv ((s.record (.ran i k)).setCpu i x) := by
  obtain ⟨xs, hheld, horder⟩ := hl.order
  obtain rfl : xs = k :: list := by
    rcases hheld with ⟨j, hj⟩ | ⟨-, hnone⟩
    · have hji := hs.unique j i (.inr ⟨xs, hj⟩) (.inr ⟨_, hold⟩)
      rw [hji, hold] at hj
      exact (RcuPc.run.inj hj).symm
    · exact absurd hold (hnone i _)
  refine ⟨⟨list, .inl ⟨i, by rw [Rcu.cpu_setCpu_self, hpc]⟩, ?_⟩, ?_, hl.free, ?_, ?_⟩
  · change _ = range s.nodes
    rw [← horder]
    simp [Rcu.ranNodes, Rcu.waiting, Rcu.listAt, ranNode]
  · change _ = range s.nodes
    rw [← hl.deferred]
    simp [Rcu.deferredNodes, deferredNode]
  · intro d k' gen inside hev r hr hk
    exact hl.gens d k' gen inside (by simpa using hev) r hr hk
  · intro d k' gen inside hev j list' hj hk
    replace hev : .deferred d k' gen inside ∈ s.trace := by simpa using hev
    by_cases hji : j = i
    · rw [hji, Rcu.cpu_setCpu_self, hpc] at hj
      rw [← RcuPc.run.inj hj] at hk
      exact hl.held d k' gen inside hev i _ hold (mem_cons_of_mem k hk)
    · rw [Rcu.cpu_setCpu_of_ne hji] at hj
      exact hl.held d k' gen inside hev j list' hj hk

/-- **The lists stay right** in every move. -/
theorem ListInv.move (hmove : RcuMove s i t) : ListInv t := by
  cases hmove with
  | still => exact hl
  | quiet x hout hpause hknows hbusy hold =>
    exact hl.update hs hold (fun list hx => hbusy (.inr ⟨list, hx⟩)) rfl rfl rfl rfl rfl rfl
      fun _ _ _ _ h => h
  | mark x hout hpause hpc hold hfull | clean x hout hpause hpc hold hfull =>
    exact hl.update hs (.inl hold) (by simp [hpc]) rfl rfl rfl rfl rfl rfl fun _ _ _ _ h => h
  | take x hpause hold hpc => exact .take hs hl hold hpc
  | ran x k list hpause hold hpc => exact hl.ran hs hold hpc

theorem ListInv.begin (hout : (s.cpu i).pc = .out) : ListInv (s.begin i .no) := by
  have hold : ¬ (s.cpu i).Busy := not_busy (by simp [hout]) (by simp [hout])
  refine hl.update hs (.inl hold) ?_ rfl rfl rfl rfl ?_ ?_ ?_
  · simp
  · simp [Rcu.begin, Rcu.ranNodes, ranNode]
  · simp [Rcu.begin, Rcu.deferredNodes, deferredNode]
  · simp [Rcu.begin]

end

theorem listAt_defer (hr : r < 4) :
    (s.defer i).listAt r = if r = 2 then s.listAt 2 ++ [s.nodes] else s.listAt r := by
  change update s.rcuLists ((s.genCount + 2) % numGen) (s.listAt 2 ++ [s.nodes])
    ((s.genCount + r) % numGen) = _
  split_ifs with h2
  · rw [h2, update_self]
  · rw [update_of_ne (by unfold numGen; omega)]
    rfl

theorem mem_trace_defer {k gen : Nat} (hev : .deferred d k gen inside ∈ (s.defer i).trace) :
    .deferred d k gen inside ∈ s.trace ∨ k = s.nodes ∧ gen = s.genCount := by
  rcases mem_append.1 hev with hev | hev
  · exact .inl hev
  · cases mem_singleton.1 hev
    exact .inr ⟨rfl, rfl⟩

omit [DecidableEq C] in
theorem mem_waiting {k : Nat} (hr : r < 3) (hk : k ∈ s.listAt r) : k ∈ s.waiting := by
  unfold Rcu.waiting
  obtain rfl | rfl | rfl : r = 0 ∨ r = 1 ∨ r = 2 := by omega
  all_goals simp [hk]

theorem ListInv.defer (hs : MaskInv s) (hl : ListInv s) : ListInv (s.defer i) := by
  obtain ⟨xs, hheld, horder⟩ := hl.order
  have hfresh : s.nodes ∉ xs ++ s.waiting := by
    intro hmem
    have hrange : s.nodes ∈ range s.nodes := by
      rw [← horder]
      exact mem_append_right _ hmem
    exact absurd (mem_range.1 hrange) (lt_irrefl _)
  refine ⟨⟨xs, hheld, ?_⟩, ?_, ?_, ?_, ?_⟩
  · change _ = range (s.nodes + 1)
    rw [range_succ, ← horder, Rcu.waiting, listAt_defer (by decide), listAt_defer (by decide),
      listAt_defer (by decide)]
    simp [Rcu.waiting, Rcu.ranNodes, Rcu.defer, ranNode]
  · change _ = range (s.nodes + 1)
    rw [range_succ, ← hl.deferred]
    simp [Rcu.deferredNodes, Rcu.defer, deferredNode]
  · rw [listAt_defer (by decide)]
    exact hl.free
  · intro d k gen inside hev r hr hk
    change gen + 2 = s.genCount + r
    rcases mem_trace_defer hev with hev | ⟨rfl, rfl⟩
    · refine hl.gens d k gen inside hev r hr ?_
      have hlt := hl.lt_nodes hev
      rw [listAt_defer (by omega)] at hk
      split_ifs at hk with h2
      · rw [h2]
        simpa [show k ≠ s.nodes by omega] using hk
      · exact hk
    -- the new node is in the last list only
    rw [listAt_defer (by omega)] at hk
    split_ifs at hk with h2
    · rw [h2]
    · exact absurd (mem_append_right xs (mem_waiting hr hk)) hfresh
  · intro d k gen inside hev j list hj hk
    rcases mem_trace_defer hev with hev | ⟨rfl, rfl⟩
    · exact hl.held d k gen inside hev j list hj hk
    refine absurd (mem_append_left s.waiting ?_) hfresh
    rcases hheld with ⟨j', hj'⟩ | ⟨-, hnone⟩
    · have heq := hs.unique j' j (.inr ⟨xs, hj'⟩) (.inr ⟨list, hj⟩)
      rw [heq] at hj'
      rwa [RcuPc.run.inj (hj'.symm.trans hj)]
    · exact absurd hj (hnone j list)

omit [DecidableEq C] in
theorem listInv_rcuInit (cpus : Finset C) : ListInv (rcuInit cpus) := by
  refine ⟨⟨[], .inr ⟨rfl, fun i list h => ?_⟩, rfl⟩, rfl, rfl, fun d k gen inside h => ?_,
    fun d k gen inside h => ?_⟩
  all_goals cases h

end

end Rhype
