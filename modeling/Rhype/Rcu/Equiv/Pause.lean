import Rhype.Machine.Run
import Rhype.Rcu.Equiv.Steps
import Rhype.Trace.Basic

/-!
# Waiting for a generation

`rcu_pause` waits for the end of one generation.  A processor whose bit was set before the call does
not have to do anything for that (`pause_early`).  If at the time of the call nobody is about to end
the generation, and who is outside of `rcu_pause` is outside of `rcu_check` and has no bit set, then
everybody outside of `rcu_pause` has to begin an `rcu_check` before the call returns:
`pause_waits`.
-/

namespace Rhype

open Function

variable {C : Type} [DecidableEq C]

open Trace (Open Answered)

/-- The processor is not about to end a generation, or to set the bit of `d`. -/
def RcuCpu.Harmless (d : C) (x : RcuCpu C) : Prop :=
  match x.pc with
  | .load => x.doCleanup = false
  | .loadInactive _ => False
  | .cas old newGen => x.doCleanup = false ∧ (d ∈ newGen → d ∈ old)
  | .lock => False
  | .tailCas _ newMask => d ∉ newMask
  | _ => True

/-- The processor is in `rcu_pause`, and `gen_count` is as it was at the start. -/
def PausePc.Holds (count : Nat) : PausePc C → Prop
  | .no => False
  | .start => True
  | .setLoad startCount => count = startCount
  | .setCas startCount _ => count = startCount
  | .call startCount => count = startCount
  | .inCheck startCount => count = startCount
  | .test startCount => count = startCount
  | .clearLoad => False
  | .clearCas _ => False

/-- Processor `p` is in `rcu_pause`, and has to wait for processor `d`. -/
structure PauseWaiting (s : Rcu C) (p d : C) : Prop where
  out : (s.cpu d).pc = .out
  clear : d ∉ s.genMask
  harmless : ∀ i, (s.cpu i).Harmless d
  holds : (s.cpu p).pause.Holds s.genCount

section

variable {s t : Rcu C} {i p d : C} {x : RcuCpu C}

omit [DecidableEq C] in
theorem PausePc.Holds.back {count : Nat} {pause : PausePc C} (hpause : pause.Holds count) :
    pause.back.Holds count := by
  cases pause <;> exact hpause

section

variable (hw : PauseWaiting s p d)
include hw

theorem PauseWaiting.update (hcpu : t.cpu = update s.cpu i x) (hcount : t.genCount = s.genCount)
    (hclear : d ∉ t.genMask) (hx : x.Harmless d) (hout : i = d → x.pc = .out)
    (hholds : i = p → x.pause.Holds s.genCount) : PauseWaiting t p d := by
  refine ⟨?_, hclear, fun j => ?_, ?_⟩
  · rw [hcpu]
    by_cases hdi : d = i
    · rw [hdi, update_self]
      exact hout hdi.symm
    · rw [update_of_ne hdi]
      exact hw.out
  · rw [hcpu]
    by_cases hji : j = i
    · rwa [hji, update_self]
    · rw [update_of_ne hji]
      exact hw.harmless j
  · rw [hcpu, hcount]
    by_cases hpi : p = i
    · rw [hpi, update_self]
      exact hholds hpi.symm
    · rw [update_of_ne hpi]
      exact hw.holds

theorem PauseWaiting.not_full (hd : d ∈ s.cpuMask) (hdi : d ≠ i) :
    insert i s.genMask ≠ s.cpuMask := by
  intro hfull
  rw [← hfull, Finset.mem_insert] at hd
  exact hw.clear (hd.resolve_left hdi)

theorem PauseWaiting.check (hd : d ∈ s.cpuMask) (hpc : (s.cpu i).pc ≠ .out) :
    PauseWaiting (s.step i) p d := by
  have hdi : d ≠ i := by
    rintro rfl
    exact hpc hw.out
  have hfull := hw.not_full hd hdi
  have hx := hw.harmless i
  have hholds : i = p → (s.cpu i).pause.Holds s.genCount := by
    rintro rfl
    exact hw.holds
  have hins : d ∉ insert i s.genMask := by simp [hdi, hw.clear]
  have hid : i = d → ∀ {Q : Prop}, Q := fun h => absurd h.symm hdi
  unfold RcuCpu.Harmless at hx
  cases hpc' : (s.cpu i).pc with simp only [Rcu.step, hpc'] at hx ⊢
  | out => exact absurd hpc' hpc
  | load =>
    rw [if_neg hfull]
    refine hw.update rfl rfl hw.clear ⟨hx, fun h => absurd h hins⟩ (fun h => hid h) hholds
  | cas old newGen =>
    by_cases heq : s.genMask = old
    · rw [if_pos heq, if_neg (by simp [hx.1])]
      refine hw.update rfl rfl (fun h => ?_) trivial (fun h => hid h) hholds
      exact hw.clear (heq ▸ hx.2 h)
    · rw [if_neg heq]
      exact hw.update rfl rfl hw.clear hx.1 (fun h => hid h) hholds
  | run list =>
    cases list with
    | nil | cons k list => exact hw.update rfl rfl hw.clear trivial (fun h => hid h) hholds
  | again =>
    rw [if_neg fun h => hfull h.2]
    exact hw.update rfl rfl hw.clear trivial (fun h => hid h) hholds
  | tail =>
    split_ifs
    · exact hw.update rfl rfl hw.clear trivial (fun h => hid h) hholds
    · exact hw.update rfl rfl hw.clear trivial (fun h => hid h) fun h => (hholds h).back
  | tailLoad =>
    exact hw.update rfl rfl hw.clear trivial (fun h => hid h) hholds
  | tailLoad2 expected =>
    exact hw.update rfl rfl hw.clear hins (fun h => hid h) hholds
  | tailCas expected newMask =>
    split_ifs
    · exact hw.update rfl rfl hx trivial (fun h => hid h) hholds
    · exact hw.update rfl rfl hw.clear trivial (fun h => hid h) hholds
  | tailTest =>
    rw [if_neg]
    · exact hw.update rfl rfl hw.clear trivial (fun h => hid h) fun h => (hholds h).back
    · rintro ⟨hall, -⟩
      exact hw.clear (hall ▸ hd)

theorem PauseWaiting.begin (hid : i ≠ d) {pause : PausePc C}
    (hholds : i = p → pause.Holds s.genCount) : PauseWaiting (s.begin i pause) p d :=
  hw.update rfl rfl hw.clear rfl (fun h => absurd h hid) hholds

theorem PauseWaiting.pause (hpc : (s.cpu i).pc = .out)
    (hcall : i = d → ∀ count, (s.cpu i).pause ≠ .call count) :
    PauseWaiting (s.pauseStep i) p d := by
  have hholds : i = p → (s.cpu i).pause.Holds s.genCount := by
    rintro rfl
    exact hw.holds
  have hx : ∀ pause, RcuCpu.Harmless d { s.cpu i with pause := pause } := fun _ => hw.harmless i
  cases hpause : (s.cpu i).pause with simp only [Rcu.pauseStep, hpause] at hholds ⊢
  | no | inCheck count => exact hw
  | start => exact hw.update rfl rfl hw.clear (hx _) (fun _ => hpc) fun _ => rfl
  | setLoad count => exact hw.update rfl rfl hw.clear (hx _) (fun _ => hpc) hholds
  | setCas count old =>
    split_ifs
    all_goals exact hw.update rfl rfl hw.clear (hx _) (fun _ => hpc) hholds
  | call count => exact hw.begin (fun h => hcall h count hpause) hholds
  | test count =>
    refine hw.update rfl rfl hw.clear (hx _) (fun _ => hpc) fun h => ?_
    have hcount : s.genCount = count := hholds h
    rwa [if_pos hcount]
  | clearLoad => exact hw.update rfl rfl hw.clear (hx _) (fun _ => hpc) fun h => (hholds h).elim
  | clearCas old =>
    split_ifs
    all_goals exact hw.update rfl rfl hw.clear (hx _) (fun _ => hpc) fun h => (hholds h).elim

end

theorem Rcu.trace_step (s : Rcu C) (i : C) :
    (s.step i).trace = s.trace ∨ (∃ k, (s.step i).trace = s.trace ++ [.ran i k]) ∨
    (s.step i).trace = s.trace ++ [.began i] ∨
    (∃ old, (s.cpu i).pause = .clearCas old) ∧ (s.step i).trace = s.trace ++ [.resumed i] := by
  cases hpc : (s.cpu i).pc with
  | out =>
    simp only [Rcu.step, hpc]
    cases hpause : (s.cpu i).pause with
    | call count =>
      simp only [Rcu.pauseStep, hpause]
      exact .inr (.inr (.inl rfl))
    | clearCas old =>
      simp only [Rcu.pauseStep, hpause]
      split_ifs
      · exact .inr (.inr (.inr ⟨⟨old, rfl⟩, rfl⟩))
      · exact .inl rfl
    | setCas count old =>
      simp only [Rcu.pauseStep, hpause]
      split_ifs
      all_goals exact .inl rfl
    | _ =>
      rw [Rcu.pauseStep, hpause]
      exact .inl rfl
  | run list =>
    cases list with
    | nil =>
      simp only [Rcu.step, hpc]
      exact .inl rfl
    | cons k list =>
      simp only [Rcu.step, hpc]
      exact .inr (.inl ⟨k, rfl⟩)
  | _ =>
    simp only [Rcu.step, hpc]
    try split_ifs
    all_goals exact .inl rfl

/-! ### Runs -/

/-- A processor calls `rcu_pause` only when nobody is about to end the generation, and everybody
outside of `rcu_pause` is outside of `rcu_check`, with its bit clear. -/
def PauseSafe (s : Rcu C) (a : RcuAct C) : Prop :=
  ∀ p, a = .pause p → (s.cpu p).Outside → ∀ d ∈ s.cpuMask, d ∉ insert p s.inPause →
    (s.cpu d).pc = .out ∧ d ∉ s.genMask ∧ ∀ i, (s.cpu i).Harmless d

/-- The event ends the wait of `p` for `d`. -/
def EndsWait (p d : C) (e : RcuEvent C) : Prop := e = .began d ∨ e = .resumed p

/-- Whoever is in `rcu_pause` waits for everybody it has to wait for, and has done so. -/
structure PauseInv (s : Rcu C) : Prop where
  waits : ∀ p inside d, d ∈ s.cpuMask → d ∉ inside →
    Open (.paused p inside) (EndsWait p d) s.trace → PauseWaiting s p d
  served : ∀ p inside d, d ∈ s.cpuMask → d ∉ inside →
    Answered (.paused p inside) (.resumed p) (EndsWait p d) s.trace

variable {acts : List (RcuAct C)} {a : RcuAct C}

section

variable (hs : PauseInv s)
include hs

omit [DecidableEq C] in
theorem PauseInv.silent (hmask : t.cpuMask = s.cpuMask) (htrace : t.trace = s.trace)
    (hwait : ∀ p d, d ∈ s.cpuMask → PauseWaiting s p d → PauseWaiting t p d) : PauseInv t := by
  refine ⟨fun p inside d hd hins hopen => ?_, fun p inside d hd hins => ?_⟩
  · rw [htrace] at hopen
    rw [hmask] at hd
    exact hwait p d hd (hs.waits p inside d hd hins hopen)
  · rw [htrace]
    exact hs.served p inside d (hmask ▸ hd) hins

omit [DecidableEq C] in
theorem PauseInv.event {e : RcuEvent C} (hmask : t.cpuMask = s.cpuMask)
    (htrace : t.trace = s.trace ++ [e]) (he : ∀ p inside, e ≠ .paused p inside)
    (hwait : ∀ p d, d ∈ s.cpuMask → e ≠ .began d → PauseWaiting s p d → PauseWaiting t p d)
    (hresumed : ∀ p d, e = .resumed p → ¬ PauseWaiting s p d) : PauseInv t := by
  refine ⟨fun p inside d hd hins hopen => ?_, fun p inside d hd hins => ?_⟩
  · rw [hmask] at hd
    rw [htrace, Trace.open_concat] at hopen
    obtain ⟨hopen, hne⟩ := hopen.resolve_right (he p inside)
    exact hwait p d hd (fun h => hne (.inl h)) (hs.waits p inside d hd hins hopen)
  · rw [hmask] at hd
    rw [htrace]
    refine Trace.answered_concat (hs.served p inside d hd hins) fun heq hopen => ?_
    exact hresumed p d heq (hs.waits p inside d hd hins hopen)

theorem PauseInv.move : PauseInv (s.step i) := by
  have hwait : ∀ p d, d ∈ s.cpuMask → (s.step i).trace ≠ s.trace ++ [.began d] →
      PauseWaiting s p d → PauseWaiting (s.step i) p d := by
    intro p d hd hbegan hw
    by_cases hpc : (s.cpu i).pc = .out
    · simp only [Rcu.step, hpc] at hbegan ⊢
      refine hw.pause hpc fun hid count hpause => hbegan ?_
      simp only [Rcu.pauseStep, hpause]
      rw [hid]
      rfl
    · exact hw.check hd hpc
  have hmask : (s.step i).cpuMask = s.cpuMask := Rcu.cpuMask_step
  rcases s.trace_step i with htrace | ⟨k, htrace⟩ | htrace | ⟨⟨old, hpause⟩, htrace⟩
  · exact hs.silent hmask htrace fun p d hd => hwait p d hd (by simp [htrace])
  · refine hs.event hmask htrace (by simp) (fun p d hd _ => ?_) (by simp)
    exact hwait p d hd (by simp [htrace])
  · refine hs.event hmask htrace (by simp) (fun p d hd hne => hwait p d hd ?_) (by simp)
    simpa [htrace] using hne
  refine hs.event hmask htrace (by simp) (fun p d hd _ => hwait p d hd (by simp [htrace])) ?_
  -- who leaves `rcu_pause` does not wait any more
  rintro p d heq hw
  obtain rfl : i = p := by simpa using heq
  have hholds := hw.holds
  rwa [hpause] at hholds

theorem PauseInv.begin (hout : (s.cpu i).Outside) : PauseInv (s.begin i .no) := by
  refine hs.event rfl rfl (by simp) (fun p d _ hne hw => ?_) (by simp)
  refine hw.begin (fun hid => hne (by rw [hid])) ?_
  rintro rfl
  have hholds := hw.holds
  rwa [hout.2] at hholds

theorem PauseInv.defer : PauseInv (s.defer i) :=
  hs.event rfl rfl (by simp) (fun _ _ _ _ hw => ⟨hw.out, hw.clear, hw.harmless, hw.holds⟩) (by simp)

theorem PauseInv.pause (hout : (s.cpu i).Outside) (hsafe : PauseSafe s (.pause i)) :
    PauseInv ((s.record (.paused i (insert i s.inPause))).setCpu i
      { s.cpu i with pause := .start }) := by
  refine ⟨fun p inside d hd hins hopen => ?_, fun p inside d hd hins => ?_⟩
  · have hpd : PauseWaiting s p d ∨ p = i ∧ inside = insert i s.inPause := by
      rcases Trace.open_concat.1 hopen with ⟨hopen, -⟩ | heq
      · exact .inl (hs.waits p inside d hd hins hopen)
      · cases heq
        exact .inr ⟨rfl, rfl⟩
    rcases hpd with hw | ⟨rfl, rfl⟩
    · exact hw.update rfl rfl hw.clear (hw.harmless i) (fun _ => hout.1) fun _ => trivial
    -- a new wait
    obtain ⟨hdout, hclear, hharmless⟩ := hsafe p rfl hout d hd hins
    refine ⟨?_, hclear, fun j => ?_, ?_⟩
    · rwa [Rcu.cpu_setCpu_of_ne (fun h => hins (by simp [h]))]
    · by_cases hjp : j = p
      · rw [hjp, Rcu.cpu_setCpu_self]
        exact hharmless p
      · rw [Rcu.cpu_setCpu_of_ne hjp]
        exact hharmless j
    · rw [Rcu.cpu_setCpu_self]
      trivial
  · refine Trace.answered_concat (hs.served p inside d hd hins) fun heq => ?_
    cases heq

/-- **One step**, under the condition. -/
theorem PauseInv.step (ha : PauseSafe s a) : PauseInv (rcuStep s a) := by
  unfold rcuStep
  split_ifs
  · cases a with
    | check i =>
      dsimp only
      split_ifs with hout
      · exact hs.begin hout
      · exact hs
    | defer i =>
      dsimp only
      split_ifs
      · exact hs.defer
      · exact hs
    | pause i =>
      dsimp only
      split_ifs with hout
      · exact hs.pause hout ha
      · exact hs
    | step i => exact hs.move
  · exact hs

end

omit [DecidableEq C] in
theorem pauseInv_rcuInit (cpus : Finset C) : PauseInv (rcuInit cpus) :=
  ⟨fun _ _ _ _ _ hopen => absurd hopen Trace.open_nil, fun _ _ _ _ _ => Trace.answered_nil⟩

theorem pauseSafe_run (hacts : ∀ p, .pause p ∉ acts) :
    Run (fun s a => (.ok (rcuStep s a) : Except Empty (Rcu C))) PauseSafe s acts
      (rcuRun s acts) := by
  induction acts generalizing s with
  | nil => exact .nil s
  | cons a acts ih =>
    refine .cons (fun p ha => ?_) rfl (ih fun p hp => hacts p (List.mem_cons_of_mem a hp))
    exact absurd (by simp [ha]) (hacts p)

theorem PauseSafe.run (hsafe : PauseSafe s a) (hacts : ∀ p, .pause p ∉ acts) :
    Run (fun s a => (.ok (rcuStep s a) : Except Empty (Rcu C))) PauseSafe s (a :: acts)
      (rcuRun s (a :: acts)) :=
  .cons hsafe rfl (pauseSafe_run hacts)

end

/-- **Waiting**: if every call of `rcu_pause` meets `PauseSafe`, then before it returns everybody
that was not in `rcu_pause` at the time of the call has begun an `rcu_check`. -/
theorem pause_waits (cpus : Finset C) (acts : List (RcuAct C)) (t : Rcu C)
    (hrun : Run (fun s a => (.ok (rcuStep s a) : Except Empty (Rcu C))) PauseSafe (rcuInit cpus)
      acts t) (p : C) (inside : Finset C) (d : C) (hd : d ∈ cpus) (hins : d ∉ inside) :
    Answered (.paused p inside) (.resumed p) (fun e => e = .began d ∨ e = .resumed p) t.trace := by
  have hinv : PauseInv t ∧ t.cpuMask = cpus := by
    refine hrun.invariant (P := fun s => PauseInv s ∧ s.cpuMask = cpus) ?_
      ⟨pauseInv_rcuInit cpus, rfl⟩
    rintro s a t ⟨hs, hmask⟩ ha hstep
    cases hstep
    exact ⟨hs.step ha, (Rcu.cpuMask_rcuStep s a).trans hmask⟩
  exact hinv.1.served p inside d (hinv.2 ▸ hd) hins

/-- Processor `b` sets its bit, and then processor `a` goes on. -/
def lateActs (a b : Fin 2) : List (RcuAct (Fin 2)) :=
  .check b :: List.replicate 3 (.step b) ++ List.replicate 20 (.step a)

/-- `pause_waits` for a call of processor 0 before that. -/
theorem pause_waits_lateActs :
    (rcuRun (rcuInit {0, 1}) (.pause 0 :: lateActs 0 1)).trace =
      [.paused 0 {0}, .began 1, .began 0, .resumed 0] ∧
    Answered (.paused 0 {0}) (.resumed 0) (fun e => e = .began 1 ∨ e = .resumed 0)
      (rcuRun (rcuInit {0, 1}) (.pause 0 :: lateActs 0 1)).trace := by
  have hsafe : PauseSafe (rcuInit {0, 1}) (.pause (0 : Fin 2)) :=
    fun _ _ _ _ _ _ => ⟨rfl, Finset.notMem_empty _, fun _ => trivial⟩
  have hacts : ∀ p, .pause p ∉ lateActs 0 1 := by decide
  exact ⟨by decide, pause_waits _ _ _ (hsafe.run hacts) 0 {0} 1 (by decide) (by decide)⟩

/-- Processor `b` sets its bit, and then processor `a` calls `rcu_pause`. -/
def earlyActs (a b : Fin 2) : List (RcuAct (Fin 2)) :=
  .check b :: List.replicate 3 (.step b) ++ .pause a :: List.replicate 20 (.step a)

/-- The call returns, and processor 1 has not begun an `rcu_check` since. -/
theorem pause_early :
    (rcuRun (rcuInit {0, 1}) (earlyActs 0 1)).trace =
      [.began 1, .paused 0 {0}, .began 0, .resumed 0] ∧
    ¬ Answered (.paused 0 {0}) (.resumed 0) (fun e => e = .began 1 ∨ e = .resumed 0)
      (rcuRun (rcuInit {0, 1}) (earlyActs 0 1)).trace := by
  have htrace : (rcuRun (rcuInit {0, 1}) (earlyActs 0 1)).trace =
      [.began 1, .paused 0 {0}, .began 0, .resumed 0] := by decide
  refine ⟨htrace, fun hanswered => ?_⟩
  obtain ⟨e, he, rfl | rfl⟩ := hanswered [.began 1] [.began 0] [] htrace
  all_goals exact absurd he nofun

end Rhype
