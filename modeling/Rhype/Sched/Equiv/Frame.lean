import Rhype.Sched.Basic
import Rhype.Word.Flags

/-!
# What `set_slot_owners` changes

Giving slots away and taking them changes the owners of the slots and the sets of slots of the cpus,
and nothing else (`SlotFrame`).  As long as the two agree (`Consistent`), the owners say it all:
`setSlotOwners_owners`.
-/

namespace Rhype

open Function List

/-! ### The frame -/

/-- The two states differ in the owners of slots and in the current sets of the cpus only. -/
structure SlotFrame (s t : Scheduler) : Prop where
  cpu : ∀ c, ∃ set, t.cpu c = { s.cpu c with currSet := set }
  perCpu : ∀ p, ∃ owners, t.perCpu p = { s.perCpu p with owners := owners }

namespace SlotFrame

variable {s t u : Scheduler} {p : Nat} {c : CpuId}

theorem refl (s : Scheduler) : SlotFrame s s := ⟨fun _ => ⟨_, rfl⟩, fun _ => ⟨_, rfl⟩⟩

section

variable (hst : SlotFrame s t)
include hst

theorem trans (htu : SlotFrame t u) : SlotFrame s u := by
  refine ⟨fun c => ?_, fun p => ?_⟩
  · obtain ⟨set, hset⟩ := hst.cpu c
    obtain ⟨set', hset'⟩ := htu.cpu c
    exact ⟨set', by rw [hset', hset]⟩
  · obtain ⟨owners, howners⟩ := hst.perCpu p
    obtain ⟨owners', howners'⟩ := htu.perCpu p
    exact ⟨owners', by rw [howners', howners]⟩

theorem logicalCpuNum (c : CpuId) : (t.cpu c).logicalCpuNum = (s.cpu c).logicalCpuNum := by
  obtain ⟨_, hc⟩ := hst.cpu c
  rw [hc]

theorem required (c : CpuId) : (t.cpu c).required = (s.cpu c).required := by
  obtain ⟨_, hc⟩ := hst.cpu c
  rw [hc]

theorem desired (c : CpuId) : (t.cpu c).desired = (s.cpu c).desired := by
  obtain ⟨_, hc⟩ := hst.cpu c
  rw [hc]

theorem usedSlots (p : Nat) : (t.perCpu p).usedSlots = (s.perCpu p).usedSlots := by
  obtain ⟨_, hp⟩ := hst.perCpu p
  rw [hp]

theorem lockedSlots (p : Nat) : (t.perCpu p).lockedSlots = (s.perCpu p).lockedSlots := by
  obtain ⟨_, hp⟩ := hst.perCpu p
  rw [hp]

end

theorem setCpu (s : Scheduler) (c : CpuId) (set : SlotMask) :
    SlotFrame s (s.setCpu c { s.cpu c with currSet := set }) := by
  refine ⟨fun d => ?_, fun _ => ⟨_, rfl⟩⟩
  by_cases hd : d = c
  · subst hd
    exact ⟨set, update_self ..⟩
  · exact ⟨(s.cpu d).currSet, update_of_ne hd ..⟩

theorem setPerCpu (s : Scheduler) (p : Nat) (owners : Nat → Option CpuId) :
    SlotFrame s (s.setPerCpu p { s.perCpu p with owners := owners }) := by
  refine ⟨fun _ => ⟨_, rfl⟩, fun q => ?_⟩
  by_cases hq : q = p
  · subst hq
    exact ⟨owners, update_self ..⟩
  · exact ⟨(s.perCpu q).owners, update_of_ne hq ..⟩

theorem osYieldSlot (s : Scheduler) (c : CpuId) (i : Nat) : SlotFrame s (osYieldSlot s c i) :=
  (setCpu s c _).trans (setPerCpu _ _ _)

theorem osAcquireSlot (s : Scheduler) (p : Nat) (c : CpuId) (i : Nat) :
    SlotFrame s (osAcquireSlot s p c i) :=
  (setPerCpu s p _).trans (setCpu _ c _)

theorem slotRound (p : Nat) (slots : SlotMask) (pcpu : Option CpuId) (s : Scheduler) (i : Nat) :
    SlotFrame s (slotRound p slots pcpu s i) := by
  unfold Rhype.slotRound
  dsimp only
  split_ifs
  · cases (s.perCpu p).owners i with
    | none =>
      cases pcpu with
      | none => exact refl s
      | some c => exact osAcquireSlot s p c i
    | some d =>
      cases pcpu with
      | none => exact osYieldSlot s d i
      | some c => exact (osYieldSlot s d i).trans (osAcquireSlot _ p c i)
  · exact refl s

theorem setSlotOwners (p : Nat) (slots : SlotMask) (pcpu : Option CpuId) (s : Scheduler) :
    SlotFrame s (setSlotOwners p slots pcpu s) := by
  unfold Rhype.setSlotOwners
  generalize range numSchedSlots = slotList
  induction slotList generalizing s with
  | nil => exact refl s
  | cons i slotList ih => exact (slotRound p slots pcpu s i).trans (ih _)

end SlotFrame

/-! ### Owners and sets -/

/-- The owners of the slots of processor `p` are cpus of the processor, and agree with their current
sets. -/
structure Consistent (s : Scheduler) (p : Nat) : Prop where
  here : ∀ i c, (s.perCpu p).owners i = some c → (s.cpu c).logicalCpuNum = p
  iff : ∀ i < numSchedSlots, ∀ c, (s.cpu c).logicalCpuNum = p →
    ((s.perCpu p).owners i = some c ↔ (s.cpu c).currSet.getLsbD i = true)

section

variable {s : Scheduler} {p i j : Nat} {c d : CpuId} {slots set : SlotMask} {pcpu : Option CpuId}

theorem isFlag_one_shiftLeft (i : Nat) : Word.IsFlag ((1 : SlotMask) <<< i) i :=
  BitVec.twoPow_eq 64 i |>.symm

theorem osYieldSlot_owners (hd : (s.cpu d).logicalCpuNum = p) :
    ((osYieldSlot s d i).perCpu p).owners = update (s.perCpu p).owners i none := by
  subst hd
  rw [osYieldSlot, Scheduler.setPerCpu, Scheduler.setCpu]
  dsimp only
  rw [update_self]

theorem osAcquireSlot_owners :
    ((osAcquireSlot s p c i).perCpu p).owners = update (s.perCpu p).owners i (some c) := by
  rw [osAcquireSlot, Scheduler.setCpu, Scheduler.setPerCpu]
  dsimp only
  rw [update_self]

theorem osYieldSlot_currSet (hj : j < numSchedSlots) :
    ((osYieldSlot s d i).cpu c).currSet.getLsbD j =
      ((s.cpu c).currSet.getLsbD j && !(decide (c = d) && decide (i = j))) := by
  rw [osYieldSlot, Scheduler.setPerCpu, Scheduler.setCpu]
  dsimp only
  by_cases hc : c = d
  · subst hc
    rw [update_self, (isFlag_one_shiftLeft i).getLsbD_and_not hj, decide_eq_true rfl, Bool.true_and]
  · rw [update_of_ne hc, decide_eq_false hc, Bool.false_and, Bool.not_false, Bool.and_true]

theorem osAcquireSlot_currSet (hi : i < numSchedSlots) :
    ((osAcquireSlot s p d i).cpu c).currSet.getLsbD j =
      ((s.cpu c).currSet.getLsbD j || (decide (c = d) && decide (i = j))) := by
  rw [osAcquireSlot, Scheduler.setCpu, Scheduler.setPerCpu]
  dsimp only
  by_cases hc : c = d
  · subst hc
    rw [update_self, (isFlag_one_shiftLeft i).getLsbD_or hi, decide_eq_true rfl, Bool.true_and]
  · rw [update_of_ne hc, decide_eq_false hc, Bool.false_and, Bool.or_false]

section

variable (hs : Consistent s p)
include hs

theorem Consistent.change {t : Scheduler} {x : Option CpuId}
    (hframe : SlotFrame s t) (howners : (t.perCpu p).owners = update (s.perCpu p).owners i x)
    (hx : ∀ c, x = some c → (s.cpu c).logicalCpuNum = p)
    (hset : ∀ j < numSchedSlots, ∀ c, (s.cpu c).logicalCpuNum = p →
      (t.cpu c).currSet.getLsbD j = if j = i then decide (x = some c) else
        decide ((s.perCpu p).owners j = some c)) : Consistent t p := by
  refine ⟨fun j c hown => ?_, fun j hj c hc => ?_⟩
  · rw [howners, update_apply] at hown
    rw [hframe.logicalCpuNum]
    split_ifs at hown
    · exact hx c hown
    · exact hs.here j c hown
  · rw [hframe.logicalCpuNum] at hc
    rw [hset j hj c hc, howners, update_apply]
    split_ifs <;> rw [decide_eq_true_eq]

theorem Consistent.getLsbD (hj : j < numSchedSlots) (hc : (s.cpu c).logicalCpuNum = p) :
    (s.cpu c).currSet.getLsbD j = decide ((s.perCpu p).owners j = some c) := by
  rw [Bool.eq_iff_iff, ← hs.iff j hj c hc, decide_eq_true_eq]

theorem Consistent.osYieldSlot
    (howner : (s.perCpu p).owners i = some d) : Consistent (osYieldSlot s d i) p := by
  apply hs.change (.osYieldSlot s d i) (osYieldSlot_owners (hs.here i d howner)) (by simp)
  intro j hj c hc
  rw [osYieldSlot_currSet hj, hs.getLsbD hj hc]
  split_ifs with hji
  · simp [hji, howner, eq_comm]
  · simp [Ne.symm hji]

theorem Consistent.osAcquireSlot (hi : i < numSchedSlots)
    (hc : (s.cpu c).logicalCpuNum = p) (howner : (s.perCpu p).owners i = none) :
    Consistent (osAcquireSlot s p c i) p := by
  apply hs.change (.osAcquireSlot s p c i) osAcquireSlot_owners (by simpa using hc)
  intro j hj d hd
  rw [osAcquireSlot_currSet hi, hs.getLsbD hj hd]
  split_ifs with hji
  · simp [hji, howner, eq_comm]
  · simp [Ne.symm hji]

theorem Consistent.slotRound (hi : i < numSchedSlots)
    (hpcpu : ∀ c, pcpu = some c → (s.cpu c).logicalCpuNum = p) :
    Consistent (slotRound p slots pcpu s i) p ∧
      ∀ j, ((slotRound p slots pcpu s i).perCpu p).owners j =
        if j = i ∧ slotTest slots i then pcpu else (s.perCpu p).owners j := by
  have hupdate : ∀ j, slotTest slots i = true →
      update (s.perCpu p).owners i pcpu j =
        if j = i ∧ slotTest slots i then pcpu else (s.perCpu p).owners j := by
    intro j htest
    by_cases hji : j = i
    · subst hji
      rw [update_self, if_pos ⟨rfl, htest⟩]
    · rw [update_of_ne hji, if_neg fun hand => hji hand.1]
  unfold Rhype.slotRound
  by_cases hcond : slotTest slots i ∧ (s.perCpu p).owners i ≠ pcpu
  swap
  · -- the slot is not asked for, or has the owner already
    rw [if_neg hcond]
    refine ⟨hs, fun j => ?_⟩
    by_cases hand : j = i ∧ slotTest slots i
    · rw [if_pos hand, hand.1]
      by_contra hne
      exact hcond ⟨hand.2, hne⟩
    · rw [if_neg hand]
  rw [if_pos hcond]
  obtain ⟨htest, hne⟩ := hcond
  rcases howner : (s.perCpu p).owners i with _ | d
  · cases pcpu with
    | none => exact absurd howner hne
    | some c =>
      refine ⟨hs.osAcquireSlot hi (hpcpu c rfl) howner, fun j => ?_⟩
      rw [osAcquireSlot_owners]
      exact hupdate j htest
  have hd := hs.here i d howner
  have hyield := hs.osYieldSlot howner
  rcases pcpu with _ | c
  · refine ⟨hyield, fun j => ?_⟩
    rw [osYieldSlot_owners hd]
    exact hupdate j htest
  have hfree : ((Rhype.osYieldSlot s d i).perCpu p).owners i = none := by
    rw [osYieldSlot_owners hd, update_self]
  refine ⟨hyield.osAcquireSlot hi ?_ hfree, fun j => ?_⟩
  · rw [(SlotFrame.osYieldSlot s d i).logicalCpuNum]
    exact hpcpu c rfl
  · rw [osAcquireSlot_owners, osYieldSlot_owners hd, update_idem]
    exact hupdate j htest

/-- **`set_slot_owners`** gives the slots whose test succeeds to the new owner. -/
theorem Consistent.setSlotOwners (hpcpu : ∀ c, pcpu = some c → (s.cpu c).logicalCpuNum = p) :
    Consistent (setSlotOwners p slots pcpu s) p ∧
      ∀ j < numSchedSlots, ((setSlotOwners p slots pcpu s).perCpu p).owners j =
        if slotTest slots j then pcpu else (s.perCpu p).owners j := by
  -- after `n` rounds the slots below `n` are done
  have hrounds : ∀ n ≤ numSchedSlots,
      Consistent ((range n).foldl (Rhype.slotRound p slots pcpu) s) p ∧
      SlotFrame s ((range n).foldl (Rhype.slotRound p slots pcpu) s) ∧
      ∀ j, (((range n).foldl (Rhype.slotRound p slots pcpu) s).perCpu p).owners j =
        if j < n ∧ slotTest slots j then pcpu else (s.perCpu p).owners j := by
    intro n hn
    induction n with
    | zero =>
      refine ⟨hs, .refl s, fun j => ?_⟩
      rfl
    | succ n ih =>
      obtain ⟨hcons, hframe, howners⟩ := ih (by omega)
      rw [range_succ, foldl_append, foldl_cons, foldl_nil]
      have hpcpu' : ∀ c, pcpu = some c →
          (((range n).foldl (Rhype.slotRound p slots pcpu) s).cpu c).logicalCpuNum = p := by
        intro c hc
        rw [hframe.logicalCpuNum]
        exact hpcpu c hc
      obtain ⟨hround, hset⟩ := hcons.slotRound hn hpcpu'
      refine ⟨hround, hframe.trans (.slotRound ..), fun j => ?_⟩
      rw [hset, howners]
      by_cases hjn : j = n
      · subst hjn
        simp
      · simp [hjn, show j < n + 1 ↔ j < n by omega]
  obtain ⟨hcons, -, howners⟩ := hrounds numSchedSlots le_rfl
  refine ⟨hcons, fun j hj => ?_⟩
  rw [Rhype.setSlotOwners, howners]
  simp [hj]

end

end

end Rhype
