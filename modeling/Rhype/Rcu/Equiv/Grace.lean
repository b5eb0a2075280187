import Rhype.Rcu.Equiv.Lists
import Rhype.Trace.Basic

/-!
# Grace periods

Without `rcu_pause` the collector of a node is called only after every other processor has begun an
`rcu_check`, or was in one when the node was deferred: `rcu_grace`.  A processor that has done
neither stays outside of `rcu_check`, so it has set its bit in no generation that began after the
node was deferred, and at most one generation can end without it (`Waiting`).

A processor that was in `rcu_check` then need not begin another one, and may end generation after
generation in one call (`rcu_inside`).
-/

namespace Rhype

open Function List

variable {C : Type} [DecidableEq C]

open Trace (Open Answered)

/-- A processor is in front of the section under the lock. -/
def Rcu.Locking (s : Rcu C) : Prop := ∃ j, (s.cpu j).pc = .lock

/-- Processor `w` has been outside of `rcu_check` since generation `gen`: so one generation at most
has ended that began later, and none if its bit is still set. -/
structure Waiting (s : Rcu C) (gen : Nat) (w : C) : Prop where
  out : (s.cpu w).pc = .out
  count : s.genCount ≤ gen + 2
  locking : s.Locking → s.genCount ≤ gen + 1
  marked : w ∈ s.genMask → s.genCount ≤ gen + 1
  markedLocking : w ∈ s.genMask → s.Locking → s.genCount ≤ gen

section

variable {s t : Rcu C} {i w : C} {x : RcuCpu C} {gen : Nat}

theorem Rcu.Locking.of_update (hcpu : t.cpu = update s.cpu i x) (hx : x.pc ≠ .lock)
    (ht : t.Locking) : ∃ j ≠ i, (s.cpu j).pc = .lock := by
  obtain ⟨j, hj⟩ := ht
  rw [hcpu] at hj
  by_cases hji : j = i
  · rw [hji, update_self] at hj
    exact absurd hj hx
  · rw [update_of_ne hji] at hj
    exact ⟨j, hji, hj⟩

theorem Waiting.update (hw : Waiting s gen w) (hwi : w ≠ i) (hcpu : t.cpu = update s.cpu i x)
    (hx : x.pc ≠ .lock) (hcount : t.genCount = s.genCount) (hmask : w ∈ t.genMask → w ∈ s.genMask) :
    Waiting t gen w := by
  have hlock : t.Locking → s.Locking := fun ht =>
    (ht.of_update hcpu hx).imp fun j hj => hj.2
  refine ⟨?_, ?_, fun ht => ?_, fun hm => ?_, fun hm ht => ?_⟩
  · rw [hcpu, update_of_ne hwi]
    exact hw.out
  · rw [hcount]
    exact hw.count
  · rw [hcount]
    exact hw.locking (hlock ht)
  · rw [hcount]
    exact hw.marked (hmask hm)
  · rw [hcount]
    exact hw.markedLocking (hmask hm) (hlock ht)

/-- **A processor waits on** in every move of the others. -/
theorem Waiting.move (hs : MaskInv s) (hmem : w ∈ s.cpuMask) (hw : Waiting s gen w)
    (hmove : RcuMove s i t) : Waiting t gen w := by
  have hne : (s.cpu i).pc ≠ .out → w ≠ i := by
    rintro hout rfl
    exact hout hw.out
  cases hmove with
  | still => exact hw
  | quiet x hout hpause hknows hbusy hold =>
    exact hw.update (hne hout) rfl (fun h => hbusy (.inl h)) rfl id
  | mark x hout hpause hpc hold hfull =>
    refine hw.update (hne hout) rfl (by simp [hpc]) rfl fun hm => ?_
    exact (Finset.mem_insert.1 hm).resolve_left (hne hout)
  | clean x hout hpause hpc hold hfull =>
    -- the generation ends with the bit of `w` in it
    have hcount := hw.marked (mem_of_insert_eq hfull hmem (hne hout))
    refine ⟨?_, ?_, fun _ => hcount, fun hm => ?_, fun hm => ?_⟩
    · rw [Rcu.cpu_setCpu_of_ne (hne hout)]
      exact hw.out
    · exact hcount.trans (by omega)
    all_goals exact absurd hm nofun
  | take x hpause hold hpc =>
    have hwi : w ≠ i := hne (by simp [hold])
    have hnone : ¬ (s.taken i x).Locking := by
      intro ht
      obtain ⟨j, hji, hj⟩ := ht.of_update rfl (by simp [hpc])
      exact hji (hs.unique j i (.inl hj) (.inl hold))
    have hlocking := hw.locking ⟨i, hold⟩
    refine ⟨?_, ?_, fun ht => absurd ht hnone, fun hm => ?_, fun _ ht => absurd ht hnone⟩
    · rw [Rcu.cpu_setCpu_of_ne hwi]
      exact hw.out
    · change s.genCount + 1 ≤ gen + 2
      omega
    · change s.genCount + 1 ≤ gen + 1
      have hmarked := hw.markedLocking hm ⟨i, hold⟩
      omega
  | ran x k list hpause hold hpc =>
    exact hw.update (hne (by simp [hold])) rfl (by simp [hpc]) rfl id

/-- Everybody that must be waited for waits, and has been waited for. -/
structure GraceInv (s : Rcu C) : Prop where
  masks : MaskInv s
  lists : ListInv s
  waits : ∀ d k gen inside w, w ∈ s.cpuMask → w ≠ d → w ∉ inside →
    Open (.deferred d k gen inside) (· = .began w) s.trace → Waiting s gen w
  served : ∀ d k gen inside j w, w ∈ s.cpuMask → w ≠ d → w ∉ inside →
    Answered (.deferred d k gen inside) (.ran j k) (· = .began w) s.trace

theorem GraceInv.move (hs : GraceInv s) (hi : i ∈ s.cpuMask) (hmove : RcuMove s i t) :
    GraceInv t := by
  have hmasks := hs.masks.move hi hmove
  have hlists := hs.lists.move hs.masks hmove
  have hwait : ∀ {gen : Nat} {w : C}, w ∈ s.cpuMask → Waiting s gen w → Waiting t gen w :=
    fun hw h => h.move hs.masks hw hmove
  cases hmove with
  | ran x k list hpause hold hpc =>
    refine ⟨hmasks, hlists, fun d k' gen inside w hw hwd hins hopen => ?_,
      fun d k' gen inside j w hw hwd hins => ?_⟩
    · rcases Trace.open_concat.1 hopen with ⟨hopen, -⟩ | heq
      · exact hwait hw (hs.waits d k' gen inside w hw hwd hins hopen)
      · cases heq
    · refine Trace.answered_concat (hs.served d k' gen inside j w hw hwd hins) fun heq hopen => ?_
      -- the list was taken when three generations had ended since
      obtain ⟨rfl, rfl⟩ : i = j ∧ k = k' := by simpa using heq
      have hcount := (hs.waits d k gen inside w hw hwd hins hopen).count
      have hheld := hs.lists.held d k gen inside hopen.mem i _ hold mem_cons_self
      omega
  | _ =>
    exact ⟨hmasks, hlists, fun d k gen inside w hw hwd hins hopen =>
      hwait hw (hs.waits d k gen inside w hw hwd hins hopen), hs.served⟩

theorem GraceInv.begin (hs : GraceInv s) (hi : i ∈ s.cpuMask) (hout : (s.cpu i).pc = .out) :
    GraceInv (s.begin i .no) := by
  refine ⟨hs.masks.begin hi, hs.lists.begin hs.masks hout,
    fun d k gen inside w hw hwd hins hopen => ?_, fun d k gen inside j w hw hwd hins => ?_⟩
  · rcases Trace.open_concat.1 hopen with ⟨hopen, hne⟩ | heq
    · have hwi : w ≠ i := by
        rintro rfl
        exact hne rfl
      exact (hs.waits d k gen inside w hw hwd hins hopen).update hwi rfl (by simp) rfl id
    · cases heq
  · refine Trace.answered_concat (hs.served d k gen inside j w hw hwd hins) fun heq => ?_
    cases heq

theorem GraceInv.defer (hs : GraceInv s) : GraceInv (s.defer i) := by
  refine ⟨hs.masks.defer, hs.lists.defer hs.masks, fun d k gen inside w hw hwd hins hopen => ?_,
    fun d k gen inside j w hw hwd hins => ?_⟩
  · rcases Trace.open_concat.1 hopen with ⟨hopen, -⟩ | heq
    · obtain ⟨hout, hcount, hlocking, hmarked, hboth⟩ := hs.waits d k gen inside w hw hwd hins hopen
      exact ⟨hout, hcount, hlocking, hmarked, hboth⟩
    · -- who is not in `rcu_check` now has to begin one
      cases heq
      have hout : (s.cpu w).pc = .out := by
        by_contra hne
        exact hins (Finset.mem_filter.2 ⟨hw, hne⟩)
      exact ⟨hout, Nat.le_add_right _ _, fun _ => Nat.le_add_right _ _,
        fun _ => Nat.le_add_right _ _, fun _ _ => le_rfl⟩
  · refine Trace.answered_concat (hs.served d k gen inside j w hw hwd hins) fun heq => ?_
    cases heq

theorem graceInv_rcuInit (cpus : Finset C) : GraceInv (rcuInit cpus) :=
  ⟨maskInv_rcuInit cpus, listInv_rcuInit cpus,
    fun _ _ _ _ _ _ _ _ hopen => absurd hopen Trace.open_nil,
    fun _ _ _ _ _ _ _ _ _ => Trace.answered_nil⟩

/-- **One step** without `rcu_pause`. -/
theorem GraceInv.step {a : RcuAct C} (hs : GraceInv s) (ha : ∀ i, a ≠ .pause i) :
    GraceInv (rcuStep s a) := by
  unfold rcuStep
  split_ifs with hmem
  · cases a with
    | check i =>
      dsimp only
      split_ifs with hout
      · exact hs.begin hmem hout.1
      · exact hs
    | defer i =>
      dsimp only
      split_ifs
      · exact hs.defer
      · exact hs
    | pause i => exact absurd rfl (ha i)
    | step i => exact hs.move hmem (step_move hs.masks)
  · exact hs

theorem GraceInv.run : ∀ (acts : List (RcuAct C)) {s : Rcu C}, GraceInv s →
    (∀ i, .pause i ∉ acts) → GraceInv (rcuRun s acts)
  | [], _, hs, _ => hs
  | a :: acts, s, hs, hacts => by
    have hstep : GraceInv (rcuStep s a) := hs.step fun i ha => hacts i (by simp [ha])
    exact .run acts hstep fun i hi => hacts i (mem_cons_of_mem a hi)

end

/-- **Grace periods**: without `rcu_pause` a collector is called only after every other processor
has begun an `rcu_check` since the node was deferred, or was in one then; and the collectors are
called in the order in which the nodes were deferred, each of them at most once. -/
theorem rcu_grace (cpus : Finset C) (acts : List (RcuAct C)) (hacts : ∀ i, .pause i ∉ acts) :
    (∀ d k gen inside j w, w ∈ cpus → w ≠ d → w ∉ inside →
      Answered (.deferred d k gen inside) (.ran j k) (· = .began w)
        (rcuRun (rcuInit cpus) acts).trace) ∧
    (rcuRun (rcuInit cpus) acts).ranNodes <+: (rcuRun (rcuInit cpus) acts).deferredNodes ∧
    (rcuRun (rcuInit cpus) acts).deferredNodes.Nodup := by
  have hs : GraceInv (rcuRun (rcuInit cpus) acts) := .run acts (graceInv_rcuInit cpus) hacts
  refine ⟨fun d k gen inside j w hw => ?_, ?_, ?_⟩
  · apply hs.served d k gen inside j w
    rwa [Rcu.cpuMask_rcuRun]
  · obtain ⟨xs, -, horder⟩ := hs.lists.order
    rw [hs.lists.deferred, ← horder]
    exact prefix_append _ _
  · rw [hs.lists.deferred]
    exact nodup_range

/-- Processor `b` defers a node, and processor `a` ends three generations in calls of its own. -/
def roundActs (a b : Fin 2) : List (RcuAct (Fin 2)) :=
  .defer b :: (replicate 3
    (.check b :: replicate 3 (.step b) ++ .check a :: replicate 7 (.step a))).flatten

/-- `rcu_grace` for that run: the collector is called after processor 0 has begun. -/
theorem rcu_grace_roundActs :
    RcuEvent.ran 0 0 ∈ (rcuRun (rcuInit {0, 1}) (roundActs 0 1)).trace ∧
      Answered (.deferred 1 0 0 ∅) (.ran 0 0) (· = .began 0)
        (rcuRun (rcuInit {0, 1}) (roundActs 0 1)).trace ∧
      (rcuRun (rcuInit {0, 1}) (roundActs 0 1)).ranNodes <+:
        (rcuRun (rcuInit {0, 1}) (roundActs 0 1)).deferredNodes := by
  have hgrace := rcu_grace {0, 1} (roundActs 0 1) (by decide)
  exact ⟨by decide +kernel, hgrace.1 1 0 0 ∅ 0 0 (by decide) (by decide) (by decide), hgrace.2.1⟩

/-- Processor `a` stays in one `rcu_check`, in which it ends three generations; processor `b` defers
a node before the end of the first one. -/
def insideActs (a b : Fin 2) : List (RcuAct (Fin 2)) :=
  .check b :: replicate 3 (.step b) ++ .check a :: replicate 3 (.step a) ++
    .defer b :: replicate 2 (.step a) ++ .check b :: replicate 3 (.step b) ++
    replicate 6 (.step a) ++ .check b :: replicate 3 (.step b) ++
    replicate 6 (.step a)

/-- The collector is called, and processor 0 has not begun an `rcu_check` since. -/
theorem rcu_inside :
    (∀ i, .pause i ∉ insideActs 0 1) ∧ (rcuRun (rcuInit {0, 1}) (insideActs 0 1)).trace =
      [.began 1, .began 0, .deferred 1 0 0 {0}, .began 1, .began 1, .ran 0 0] ∧
    ¬ Answered (.deferred 1 0 0 {0}) (.ran 0 0) (· = .began 0)
      (rcuRun (rcuInit {0, 1}) (insideActs 0 1)).trace := by
  have htrace : (rcuRun (rcuInit {0, 1}) (insideActs 0 1)).trace =
      [.began 1, .began 0, .deferred 1 0 0 {0}, .began 1, .began 1, .ran 0 0] := by
    decide +kernel
  refine ⟨by decide, htrace, fun hanswered => ?_⟩
  obtain ⟨e, he, rfl⟩ := hanswered [.began 1, .began 0] [.began 1, .began 1] [] htrace
  exact absurd he nofun

end Rhype
