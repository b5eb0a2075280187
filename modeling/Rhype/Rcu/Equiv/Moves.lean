import Rhype.Rcu.Equiv.Steps

/-!
# What a processor can do without `rcu_pause`

Without `rcu_pause` no processor is ever inactive, and the mask of a generation is never full: the
processor that would fill it clears it.  Nobody else can change the mask then, so the `cas_uval` of
that processor does not fail, and `do_cleanup` is never left over from a failed one.

So a step of a processor in `rcu_check` is one of a few moves (`step_move`), and at most one
processor is between the end of a generation and the end of its list (`MaskInv.unique`).
-/

namespace Rhype

open Function RcuCpu

variable {C : Type} [DecidableEq C]

/-- The processor has ended a generation, and is not through with the list. -/
def RcuCpu.Busy (x : RcuCpu C) : Prop := x.pc = .lock ∨ ∃ list, x.pc = .run list

/-- What a processor knows of the mask. -/
def RcuCpu.Knows (cpus mask : Finset C) (i : C) (x : RcuCpu C) : Prop :=
  match x.pc with
  | .out => True
  | .load => x.doCleanup = false
  | .loadInactive old => mask = old ∧ insert i old = cpus
  | .cas old newGen =>
    if x.doCleanup then mask = old ∧ insert i old = cpus ∧ newGen = ∅
    else newGen = insert i old ∧ newGen ≠ cpus
  | .lock => i ∉ mask
  | .run _ => i ∉ mask
  | .again => True
  | .tail => True
  | .tailLoad => False
  | .tailLoad2 _ => False
  | .tailCas _ _ => False
  | .tailTest => False

/-- The masks and the processors, when nobody calls `rcu_pause`. -/
structure MaskInv (s : Rcu C) : Prop where
  inactive : s.inactiveMask = ∅
  pause : ∀ i, (s.cpu i).pause = .no
  notFull : ∀ i ∈ s.cpuMask, s.genMask ≠ s.cpuMask
  mem : ∀ i, (s.cpu i).pc ≠ .out → i ∈ s.cpuMask
  knows : ∀ i, (s.cpu i).Knows s.cpuMask s.genMask i
  unique : ∀ i j, (s.cpu i).Busy → (s.cpu j).Busy → i = j

/-- The moves of a processor in `rcu_check`. -/
inductive RcuMove (s : Rcu C) (i : C) : Rcu C → Prop
  /-- It does nothing. -/
  | still : RcuMove s i s
  /-- It only reads. -/
  | quiet (x : RcuCpu C) (hout : (s.cpu i).pc ≠ .out) (hpause : x.pause = .no)
      (hknows : x.Knows s.cpuMask s.genMask i) (hbusy : ¬ x.Busy)
      (hold : ¬ (s.cpu i).Busy ∨ (s.cpu i).pc = .run []) : RcuMove s i (s.setCpu i x)
  /-- It sets its bit. -/
  | mark (x : RcuCpu C) (hout : (s.cpu i).pc ≠ .out) (hpause : x.pause = .no) (hpc : x.pc = .tail)
      (hold : ¬ (s.cpu i).Busy) (hfull : insert i s.genMask ≠ s.cpuMask) :
      RcuMove s i ({ s with genMask := insert i s.genMask }.setCpu i x)
  /-- It ends the generation. -/
  | clean (x : RcuCpu C) (hout : (s.cpu i).pc ≠ .out) (hpause : x.pause = .no) (hpc : x.pc = .lock)
      (hold : ¬ (s.cpu i).Busy) (hfull : insert i s.genMask = s.cpuMask) :
      RcuMove s i ({ s with genMask := ∅ }.setCpu i x)
  /-- It takes the list. -/
  | take (x : RcuCpu C) (hpause : x.pause = .no) (hold : (s.cpu i).pc = .lock)
      (hpc : x.pc = .run (s.rcuLists (s.genCount % numGen))) :
      RcuMove s i ({ s with
        rcuLists := update s.rcuLists (s.genCount % numGen) []
        genCount := s.genCount + 1 }.setCpu i x)
  /-- It calls a collector. -/
  | ran (x : RcuCpu C) (k : Nat) (list : List Nat) (hpause : x.pause = .no)
      (hold : (s.cpu i).pc = .run (k :: list)) (hpc : x.pc = .run list) :
      RcuMove s i ((s.record (.ran i k)).setCpu i x)

section

variable {s : Rcu C} {i j : C} {x : RcuCpu C} {cpus mask : Finset C}

omit [DecidableEq C] in
theorem not_busy (hlock : x.pc ≠ .lock) (hrun : ∀ list, x.pc ≠ .run list) : ¬ x.Busy := by
  rintro (hpc | ⟨list, hpc⟩)
  · exact hlock hpc
  · exact hrun list hpc

theorem RcuMove.read (hs : MaskInv s) (hout : (s.cpu i).pc ≠ .out) (hold : ¬ (s.cpu i).Busy)
    {pc : RcuPc C} {doCleanup : Bool} {newGen : Finset C} {repeats : Nat} (hlock : pc ≠ .lock)
    (hrun : ∀ list, pc ≠ .run list)
    (hknows : (⟨pc, doCleanup, newGen, repeats, .no⟩ : RcuCpu C).Knows s.cpuMask s.genMask i) :
    RcuMove s i (s.setCpu i ⟨pc, doCleanup, newGen, repeats, (s.cpu i).pause⟩) := by
  rw [hs.pause i]
  exact .quiet _ hout rfl hknows (not_busy hlock hrun) (.inl hold)

/-- **A step is a move.** -/
theorem step_move (hs : MaskInv s) : RcuMove s i (s.step i) := by
  have hknows := hs.knows i
  have hpause := hs.pause i
  have hold : (s.cpu i).pc ≠ .lock → (∀ list, (s.cpu i).pc ≠ .run list) → ¬ (s.cpu i).Busy :=
    not_busy
  cases hpc : (s.cpu i).pc with simp only [Rcu.step, Knows, hpc] at hknows hold ⊢
  | out =>
    simp only [Rcu.pauseStep, hpause]
    exact .still
  | load =>
    split_ifs with hfull
    · exact .read hs (by simp [hpc]) (hold nofun nofun) nofun nofun ⟨rfl, hfull⟩
    · refine .read hs (by simp [hpc]) (hold nofun nofun) nofun nofun ?_
      simpa [Knows, hknows] using hfull
  | loadInactive old =>
    refine .read hs (by simp [hpc]) (hold nofun nofun) nofun nofun ?_
    simp [Knows, hknows, hs.inactive]
  | cas old newGen =>
    rcases hclean : (s.cpu i).doCleanup with _ | _
    · simp only [hclean, Bool.false_eq_true, if_false] at hknows ⊢
      obtain ⟨rfl, hfull⟩ := hknows
      split_ifs with heq
      · subst heq
        exact .mark _ (by simp [hpc]) hpause rfl (hold nofun nofun) hfull
      · exact .read hs (by simp [hpc]) (hold nofun nofun) nofun nofun rfl
    -- nobody else has changed the mask
    simp only [hclean] at hknows ⊢
    obtain ⟨rfl, hfull, rfl⟩ := hknows
    rw [if_pos rfl]
    exact .clean _ (by simp [hpc]) hpause rfl (hold nofun nofun) hfull
  | lock =>
    exact .take _ hpause hpc rfl
  | run list =>
    cases list with
    | nil =>
        exact .quiet _ (by simp [hpc]) hpause trivial (not_busy nofun nofun) (.inr hpc)
    | cons k list =>
        exact .ran _ k list hpause hpc rfl
  | again =>
    split_ifs
    · exact .read hs (by simp [hpc]) (hold nofun nofun) nofun nofun rfl
    · exact .read hs (by simp [hpc]) (hold nofun nofun) nofun nofun trivial
  | tail =>
    rw [if_neg (by simp [hs.inactive]), Rcu.leave, hpause]
    exact .quiet _ (by simp [hpc]) rfl trivial (not_busy nofun nofun) (.inl (hold nofun nofun))

/-! ### What the moves keep -/

variable {t : Rcu C}

theorem mem_of_insert_eq (hfull : insert j mask = cpus) (hi : i ∈ cpus) (hij : i ≠ j) :
    i ∈ mask := by
  rw [← hfull, Finset.mem_insert] at hi
  exact hi.resolve_left hij

theorem RcuCpu.Knows.mark (hx : x.Knows cpus mask j) (hi : i ∈ cpus) (hij : i ≠ j) :
    x.Knows cpus (insert i mask) j := by
  have hsame : ∀ {old : Finset C}, mask = old → insert j old = cpus → insert i mask = old := by
    rintro old rfl hfull
    exact Finset.insert_eq_of_mem (mem_of_insert_eq hfull hi hij)
  unfold Knows at hx ⊢
  cases hpc : x.pc with
  | loadInactive old =>
    simp only [hpc] at hx ⊢
    exact ⟨hsame hx.1 hx.2, hx.2⟩
  | cas old newGen =>
    simp only [hpc] at hx ⊢
    split_ifs at hx ⊢ with hclean
    · exact ⟨hsame hx.1 hx.2.1, hx.2⟩
    · exact hx
  | lock | run list =>
    simp only [hpc] at hx ⊢
    simp [hx, Ne.symm hij]
  | _ =>
    rwa [hpc] at hx

theorem RcuCpu.Knows.clean (hx : x.Knows cpus mask j) (hij : i ≠ j) (hi : i ∈ cpus)
    (hfull : insert i mask = cpus) (hnot : mask ≠ cpus) : x.Knows cpus ∅ j := by
  have hnobody : ∀ {old : Finset C}, mask = old → insert j old ≠ cpus := by
    rintro old rfl hfull'
    apply hnot
    rw [← hfull, Finset.insert_eq_of_mem (mem_of_insert_eq hfull' hi hij)]
  unfold Knows at hx ⊢
  cases hpc : x.pc with
  | loadInactive old =>
    simp only [hpc] at hx
    exact absurd hx.2 (hnobody hx.1)
  | cas old newGen =>
    simp only [hpc] at hx ⊢
    split_ifs at hx ⊢ with hclean
    · exact absurd hx.2.1 (hnobody hx.1)
    · exact hx
  | lock => simp
  | run list => simp
  | _ =>
    rwa [hpc] at hx

section

variable (hs : MaskInv s)
include hs

theorem MaskInv.update (hi : i ∈ s.cpuMask) (hcpus : t.cpuMask = s.cpuMask)
    (hinactive : t.inactiveMask = s.inactiveMask) (hcpu : t.cpu = update s.cpu i x)
    (hpause : x.pause = .no) (hfull : t.genMask ≠ s.cpuMask)
    (hknows : x.Knows s.cpuMask t.genMask i)
    (hothers : ∀ j ≠ i, (s.cpu j).Knows s.cpuMask t.genMask j)
    (hbusy : x.Busy → ∀ j ≠ i, ¬ (s.cpu j).Busy) : MaskInv t := by
  have hself : t.cpu i = x := by rw [hcpu, update_self]
  have hother : ∀ j ≠ i, t.cpu j = s.cpu j := fun j hj => by rw [hcpu, update_of_ne hj]
  refine ⟨hinactive.trans hs.inactive, fun j => ?_, fun j hj => ?_, fun j hj => ?_, fun j => ?_,
    fun j k hj hk => ?_⟩
  · by_cases hji : j = i
    · rw [hji, hself, hpause]
    · rw [hother j hji, hs.pause]
  · rwa [hcpus]
  · rw [hcpus]
    by_cases hji : j = i
    · rwa [hji]
    · rw [hother j hji] at hj
      exact hs.mem j hj
  · rw [hcpus]
    by_cases hji : j = i
    · rwa [hji, hself]
    · rw [hother j hji]
      exact hothers j hji
  · by_cases hji : j = i
    · by_cases hki : k = i
      · rw [hji, hki]
      · rw [hji, hself] at hj
        rw [hother k hki] at hk
        exact absurd hk (hbusy hj k hki)
    · rw [hother j hji] at hj
      by_cases hki : k = i
      · rw [hki, hself] at hk
        exact absurd hj (hbusy hk j hji)
      · rw [hother k hki] at hk
        exact hs.unique j k hj hk

theorem MaskInv.nobody_busy (hold : ¬ (s.cpu i).Busy)
    (hfull : insert i s.genMask = s.cpuMask) (j : C) : ¬ (s.cpu j).Busy := by
  intro hbusy
  have hji : j ≠ i := by
    rintro rfl
    exact hold hbusy
  have hout : (s.cpu j).pc ≠ .out := by
    rintro hpc
    rcases hbusy with h | ⟨_, h⟩
    all_goals
      rw [hpc] at h
      cases h
  have hin : j ∈ s.genMask := mem_of_insert_eq hfull (hs.mem j hout) hji
  have hknows := hs.knows j
  rcases hbusy with hpc | ⟨_, hpc⟩
  all_goals
    simp only [Knows, hpc] at hknows
    exact hknows hin

/-- **The masks stay right** in every move. -/
theorem MaskInv.move (hi : i ∈ s.cpuMask) (hmove : RcuMove s i t) : MaskInv t := by
  have hsame : ∀ j ≠ i, (s.cpu j).Knows s.cpuMask s.genMask j := fun j _ => hs.knows j
  have halone : (s.cpu i).Busy → ∀ j ≠ i, ¬ (s.cpu j).Busy := fun hbusy j hji hj =>
    hji (hs.unique j i hj hbusy)
  cases hmove with
  | still => exact hs
  | quiet x hout hpause hknows hbusy hold =>
    exact hs.update hi rfl rfl rfl hpause (hs.notFull i hi) hknows hsame fun h => absurd h hbusy
  | mark x hout hpause hpc hold hfull =>
    refine hs.update hi rfl rfl rfl hpause hfull ?_ (fun j hj => (hs.knows j).mark hi hj.symm) ?_
    · simp [Knows, hpc]
    · exact fun h => absurd h (not_busy (by simp [hpc]) (by simp [hpc]))
  | clean x hout hpause hpc hold hfull =>
    refine hs.update hi rfl rfl rfl hpause ?_ ?_ (fun j hj => ?_) fun _ j _ => ?_
    · rintro hempty
      rw [← hempty] at hi
      cases hi
    · simp [Knows, hpc]
    · exact (hs.knows j).clean hj.symm hi hfull (hs.notFull i hi)
    · exact hs.nobody_busy hold hfull j
  | take x hpause hold hpc =>
    refine hs.update hi rfl rfl rfl hpause (hs.notFull i hi) ?_ hsame fun _ => halone (.inl hold)
    have hknows := hs.knows i
    simp only [Knows, hold] at hknows
    simpa [Knows, hpc] using hknows
  | ran x k list hpause hold hpc =>
    refine hs.update hi rfl rfl rfl hpause (hs.notFull i hi) ?_ hsame
      fun _ => halone (.inr ⟨_, hold⟩)
    have hknows := hs.knows i
    simp only [Knows, hold] at hknows
    simpa [Knows, hpc] using hknows

theorem MaskInv.begin (hi : i ∈ s.cpuMask) : MaskInv (s.begin i .no) := by
  refine hs.update hi rfl rfl rfl rfl (hs.notFull i hi) rfl (fun j _ => hs.knows j) fun h => ?_
  exact absurd h (not_busy (by simp) (by simp))

theorem MaskInv.defer : MaskInv (s.defer i) :=
  ⟨hs.inactive, hs.pause, hs.notFull, hs.mem, hs.knows, hs.unique⟩

end

theorem maskInv_rcuInit (cpus : Finset C) : MaskInv (rcuInit cpus) := by
  refine ⟨rfl, fun _ => rfl, fun i hi => ?_, nofun, fun _ => trivial, ?_⟩
  · rintro hempty
    rw [← hempty] at hi
    cases hi
  · rintro i j (h | ⟨_, h⟩) <;> cases h

end

end Rhype
