import Rhype.Sched.Basic
import Rhype.Slots.Cycle

/-!
# The order in which the slots are chosen

`sched_next_os` goes around the slots from the current one on and takes the first one whose owner
can run.  Over a sequence of calls in which nothing else changes it takes these slots in turn
(`next_in_turn`); when there is none, the processor stays with the cpu it has.
-/

namespace Rhype

open List Scheduler Slots

open Slots (walk cycle)

/-- The cpu is there and can run. -/
def Scheduler.canRun (s : Scheduler) (c : Option CpuId) : Bool := c.any fun c => (s.cpu c).runnable

/-- The slot of processor `p` has an owner that can run. -/
def Scheduler.runnableAt (s : Scheduler) (p slot : Nat) : Bool :=
  s.canRun ((s.perCpu p).owners slot)

/-- The slots of processor `p` with an owner that can run, from the one after the current slot
on. -/
def Scheduler.turns (s : Scheduler) (p : Nat) : List Nat :=
  cycle numSchedSlots (s.runnableAt p) ((s.perCpu p).currSlot.toNat % numSchedSlots)

/-- The state before the `k`-th of a sequence of calls, where `cur k` is the cpu that runs then. -/
def schedCalls (s : Scheduler) (cur : Nat → CpuId) : Nat → Scheduler
  | 0 => s
  | k + 1 => (schedNextOs (schedCalls s cur k) (cur k)).2

theorem mem_turns_lt {s : Scheduler} {p x : Nat} (hx : x ∈ s.turns p) : x < numSchedSlots :=
  ((mem_cycle (by decide)).1 hx).1

/-! ### One call -/

section

variable {s : Scheduler} {cur : CpuId} {p : Nat} {owners : Nat → Option CpuId}

theorem nextLoop_succ (n slot : Nat) (next : Option CpuId) :
    nextLoop s owners (n + 1) slot next =
      if s.canRun (owners ((slot + 1) % numSchedSlots)) then
        ((slot + 1) % numSchedSlots, owners ((slot + 1) % numSchedSlots))
      else nextLoop s owners n ((slot + 1) % numSchedSlots)
        (owners ((slot + 1) % numSchedSlots)) := by
  rw [nextLoop]
  cases owners ((slot + 1) % numSchedSlots) <;> rfl

/-- The loop ends at the first slot that it visits whose owner can run. -/
theorem nextLoop_head : ∀ (n slot : Nat) (next : Option CpuId) {x : Nat} {xs : List Nat},
    (walk numSchedSlots slot n).filter (fun i => s.canRun (owners i)) = x :: xs →
    nextLoop s owners n slot next = (x, owners x)
  | 0, _, _, _, _, hx => by cases hx
  | n + 1, slot, next, x, xs, hx => by
    rw [walk_succ, filter_cons] at hx
    rw [nextLoop_succ]
    split_ifs at hx ⊢
    · obtain ⟨rfl, -⟩ := cons.inj hx
      rfl
    · exact nextLoop_head n _ _ hx

/-- Without such a slot the loop ends at a cpu that cannot run. -/
theorem nextLoop_nil : ∀ (n slot : Nat) (next : Option CpuId), s.canRun next = false →
    (walk numSchedSlots slot n).filter (fun i => s.canRun (owners i)) = [] →
    s.canRun (nextLoop s owners n slot next).2 = false
  | 0, _, _, hnext, _ => hnext
  | n + 1, slot, next, _, hx => by
    rw [walk_succ, filter_cons] at hx
    rw [nextLoop_succ]
    split_ifs at hx ⊢ with hrun
    exact nextLoop_nil n _ _ (by simpa using hrun) hx

theorem schedNextOs_of_nil (hp : (s.cpu cur).logicalCpuNum = p) (hdir : directedYield s cur = none)
    (hturns : s.turns p = []) : schedNextOs s cur = (some cur, s) := by
  have hloop : s.canRun (nextLoop s (s.perCpu p).owners numSchedSlots
      ((s.perCpu p).currSlot.toNat % numSchedSlots) none).2 = false :=
    nextLoop_nil _ _ none rfl hturns
  rw [schedNextOs, hdir, hp]
  generalize nextLoop s (s.perCpu p).owners numSchedSlots
    ((s.perCpu p).currSlot.toNat % numSchedSlots) none = r at hloop
  obtain ⟨slot, _ | c⟩ := r
  · rfl
  · exact if_neg (by simpa [Scheduler.canRun] using hloop)

theorem schedNextOs_of_cons {x : Nat} {xs : List Nat} (hp : (s.cpu cur).logicalCpuNum = p)
    (hdir : directedYield s cur = none) (hturns : s.turns p = x :: xs) :
    schedNextOs s cur = ((s.perCpu p).owners x,
      s.setPerCpu p { s.perCpu p with currSlot := .ofNat 64 x }) := by
  have hrun : s.runnableAt p x = true := by
    have hmem : x ∈ s.turns p := by
      rw [hturns]
      exact mem_cons_self
    exact (mem_filter.1 hmem).2
  rw [schedNextOs, hdir, hp, nextLoop_head _ _ none hturns]
  unfold Scheduler.runnableAt at hrun
  cases howner : (s.perCpu p).owners x with
  | none =>
    rw [howner] at hrun
    cases hrun
  | some c =>
    rw [howner] at hrun
    exact if_pos hrun

end

/-! ### A sequence of calls -/

section

variable {s t : Scheduler} {cur : Nat → CpuId} {p : Nat}

/-- The two states differ in the current slots only. -/
structure SameSchedule (s t : Scheduler) (p : Nat) : Prop where
  cpu : t.cpu = s.cpu
  os : t.os = s.os
  osHash : t.osHash = s.osHash
  owners : (t.perCpu p).owners = (s.perCpu p).owners

section

variable (hst : SameSchedule s t p)
include hst

theorem SameSchedule.runnableAt : t.runnableAt p = s.runnableAt p := by
  funext slot
  rw [Scheduler.runnableAt, hst.owners, Scheduler.canRun, hst.cpu]
  rfl

theorem SameSchedule.directedYield (c : CpuId) : directedYield t c = directedYield s c := by
  unfold Rhype.directedYield osLookup
  rw [hst.cpu, hst.os, hst.osHash]

theorem SameSchedule.step {c : CpuId} (hp : (s.cpu c).logicalCpuNum = p)
    (hdir : Rhype.directedYield s c = none) : SameSchedule s (schedNextOs t c).2 p := by
  rw [← hst.directedYield] at hdir
  rw [← hst.cpu] at hp
  rcases hturns : t.turns p with _ | ⟨x, xs⟩
  · rwa [schedNextOs_of_nil hp hdir hturns]
  rw [schedNextOs_of_cons hp hdir hturns]
  refine ⟨hst.cpu, hst.os, hst.osHash, ?_⟩
  rw [← hst.owners]
  simp [setPerCpu]

end

variable (hp : ∀ k, (s.cpu (cur k)).logicalCpuNum = p)
  (hdir : ∀ k, directedYield s (cur k) = none)

include hp hdir

theorem sameSchedule_schedCalls (k : Nat) : SameSchedule s (schedCalls s cur k) p := by
  induction k with
  | zero => exact ⟨rfl, rfl, rfl, rfl⟩
  | succ k ih => exact ih.step (hp k) (hdir k)

theorem schedCalls_of_nil (hturns : s.turns p = []) (k : Nat) : schedCalls s cur k = s := by
  induction k with
  | zero => rfl
  | succ k ih => rw [schedCalls, ih, schedNextOs_of_nil (hp k) (hdir k) hturns]

theorem schedCalls_step (hturns : s.turns p ≠ []) (k : Nat) :
    ∃ x xs, (schedCalls s cur k).turns p = x :: xs ∧
      (schedNextOs (schedCalls s cur k) (cur k)).1 = (s.perCpu p).owners x ∧
      ((schedCalls s cur (k + 1)).perCpu p).currSlot = BitVec.ofNat 64 x := by
  have hst := sameSchedule_schedCalls hp hdir k
  -- which slots there are does not depend on the current one
  have hk : (schedCalls s cur k).turns p ≠ [] := by
    obtain ⟨y, hy⟩ := exists_mem_of_ne_nil _ hturns
    refine ne_nil_of_mem (a := y) ((mem_cycle (by decide)).2 ?_)
    rw [hst.runnableAt]
    exact (mem_cycle (by decide)).1 hy
  obtain ⟨x, xs, hxs⟩ := exists_cons_of_ne_nil hk
  have hstep := schedNextOs_of_cons (by rw [hst.cpu]; exact hp k)
    (by rw [hst.directedYield]; exact hdir k) hxs
  refine ⟨x, xs, hxs, ?_, ?_⟩
  · rw [hstep, hst.owners]
  · rw [schedCalls, hstep]
    simp [setPerCpu]

theorem turns_schedCalls (hturns : s.turns p ≠ []) (k : Nat) :
    (schedCalls s cur k).turns p = (s.turns p).rotate k := by
  have hcycle : ∀ j, (schedCalls s cur j).turns p = cycle numSchedSlots (s.runnableAt p)
      (((schedCalls s cur j).perCpu p).currSlot.toNat % numSchedSlots) := by
    intro j
    rw [turns, (sameSchedule_schedCalls hp hdir j).runnableAt]
  rw [hcycle]
  refine head_cycle_iterate
    (fun j => ((schedCalls s cur j).perCpu p).currSlot.toNat % numSchedSlots) (fun j => ?_) k
  obtain ⟨x, xs, hxs, -, hslot⟩ := schedCalls_step hp hdir hturns j
  have hx : x < numSchedSlots := mem_turns_lt (show x ∈ (schedCalls s cur j).turns p by simp [hxs])
  rw [← hcycle, hxs, head?_cons, hslot, BitVec.toNat_ofNat]
  unfold numSchedSlots at hx ⊢
  congr 1
  omega

end

/-- **The slots with an owner that can run are chosen in turn**, from the one after the current slot
on; without one, the current cpu goes on and the slot stays. -/
theorem next_in_turn (s : Scheduler) (p : Nat) (cur : Nat → CpuId)
    (hp : ∀ k, (s.cpu (cur k)).logicalCpuNum = p) (hdir : ∀ k, directedYield s (cur k) = none) :
    (∀ slot, slot ∈ s.turns p ↔ slot < numSchedSlots ∧ s.runnableAt p slot = true) ∧
    (s.turns p).Nodup ∧
    (s.turns p = [] → ∀ k, schedNextOs (schedCalls s cur k) (cur k) = (some (cur k), s)) ∧
    (s.turns p ≠ [] → ∀ k, ∃ slot, (s.turns p)[k % (s.turns p).length]? = some slot ∧
      (schedNextOs (schedCalls s cur k) (cur k)).1 = (s.perCpu p).owners slot ∧
      ((schedCalls s cur (k + 1)).perCpu p).currSlot = BitVec.ofNat 64 slot) := by
  refine ⟨fun slot => mem_cycle (by decide), nodup_cycle, ?_, ?_⟩
  · intro hturns k
    rw [schedCalls_of_nil hp hdir hturns, schedNextOs_of_nil (hp k) (hdir k) hturns]
  · intro hturns k
    have hlen : 0 < (s.turns p).length := length_pos_iff.2 hturns
    obtain ⟨x, xs, hxs, hnext, hslot⟩ := schedCalls_step hp hdir hturns k
    refine ⟨x, ?_, hnext, hslot⟩
    rw [← head?_rotate (Nat.mod_lt k hlen), rotate_mod, ← turns_schedCalls hp hdir hturns k, hxs]
    rfl

/-- A processor on which cpu 0 owns slot 5 and cpu 1 the slots 0 and 9. -/
def twoCpus : Scheduler where
  cpu := fun _ => ⟨0, 0, 0, 0, 0, 0, true⟩
  perCpu := fun _ => ⟨0x221, 0, fun i =>
    if i = 5 then some 0 else if i = 0 ∨ i = 9 then some 1 else none, 0⟩
  os := fun _ => ⟨1, fun _ => none⟩
  osHash := fun _ => none

/-- The slots 5, 9 and 0 are chosen in turn. -/
example : twoCpus.turns 0 = [5, 9, 0] := by decide

/-- `next_in_turn` for a processor with two cpus. -/
theorem next_in_turn_twoCpus :
    (∀ k : Nat, (twoCpus.cpu (k % 2)).logicalCpuNum = 0) ∧
    (∀ k : Nat, directedYield twoCpus (k % 2) = none) ∧
    (∀ slot, slot ∈ twoCpus.turns 0 ↔
      slot < numSchedSlots ∧ twoCpus.runnableAt 0 slot = true) ∧
    (twoCpus.turns 0).Nodup ∧
    (twoCpus.turns 0 = [] → ∀ k, schedNextOs (schedCalls twoCpus (· % 2) k) (k % 2)
      = (some (k % 2), twoCpus)) ∧
    (twoCpus.turns 0 ≠ [] → ∀ k, ∃ slot,
      (twoCpus.turns 0)[k % (twoCpus.turns 0).length]? = some slot ∧
      (schedNextOs (schedCalls twoCpus (· % 2) k) (k % 2)).1 = (twoCpus.perCpu 0).owners slot ∧
      ((schedCalls twoCpus (· % 2) (k + 1)).perCpu 0).currSlot = BitVec.ofNat 64 slot) :=
  ⟨fun _ => rfl, fun _ => rfl, next_in_turn twoCpus 0 (· % 2) (fun _ => rfl) fun _ => rfl⟩

end Rhype
