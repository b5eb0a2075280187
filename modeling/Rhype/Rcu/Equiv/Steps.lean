import Rhype.Rcu.Basic

/-!
# The steps of `rcu_check` and `rcu_pause`

A step changes one processor, and the set of the processors stays what it is.
-/

namespace Rhype.Rcu

variable {C : Type} [DecidableEq C] {s : Rcu C} {i j : C} {x : RcuCpu C}

theorem cpu_setCpu_self : (s.setCpu i x).cpu i = x := Function.update_self ..

theorem cpu_setCpu_of_ne (hji : j ≠ i) : (s.setCpu i x).cpu j = s.cpu j :=
  Function.update_of_ne hji ..

/-! ### The set of processors -/

theorem cpuMask_pauseStep : (s.pauseStep i).cpuMask = s.cpuMask := by
  unfold pauseStep
  dsimp only
  split <;> first | rfl | (split_ifs <;> rfl)

theorem cpuMask_step : (s.step i).cpuMask = s.cpuMask := by
  unfold step
  dsimp only
  split <;> first | exact cpuMask_pauseStep | rfl | (split_ifs <;> rfl)

theorem cpuMask_rcuStep (s : Rcu C) (a : RcuAct C) : (rcuStep s a).cpuMask = s.cpuMask := by
  unfold rcuStep
  split_ifs
  · cases a with
    | check i | defer i | pause i =>
      dsimp only
      split_ifs <;> rfl
    | step i => exact cpuMask_step
  · rfl

theorem cpuMask_rcuRun : ∀ (acts : List (RcuAct C)) (s : Rcu C), (rcuRun s acts).cpuMask = s.cpuMask
  | [], _ => rfl
  | a :: acts, s => (cpuMask_rcuRun acts (rcuStep s a)).trans (cpuMask_rcuStep s a)

end Rhype.Rcu
