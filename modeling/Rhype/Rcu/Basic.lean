import Mathlib.Data.Finset.Basic
import Mathlib.Logic.Function.Basic

/-!
# Deferred work (`rcu.c`)

A generation ends when every processor has called `rcu_check` in it, and what was deferred in a
generation is done when two more have ended.  `rcu_pause` waits for the end of a generation.

* A mask of processors is a finite set of them, and `1 << get_tca_index()` is one element.
* The nodes are numbered in the order in which they are deferred, and a list holds their numbers.
* A step of a processor is one access to a shared variable, one section under `rcu_lock`, or one
  call of a collector.  What is read twice in the source is read twice here.
-/

namespace Rhype

variable {C : Type} [DecidableEq C]

/-- `NUM_GEN`. -/
def numGen : Nat := 4

/-- Where a processor is in `rcu_check`. -/
inductive RcuPc (C : Type)
  /-- It is not in `rcu_check`. -/
  | out
  /-- `old = gen_mask`. -/
  | load
  /-- `new_gen = (inactive_mask & ~bit)`. -/
  | loadInactive (old : Finset C)
  /-- `cas_uval(&gen_mask, old, new_gen)`. -/
  | cas (old newGen : Finset C)
  /-- The section under the lock. -/
  | lock
  /-- It calls the collectors of `list`. -/
  | run (list : List Nat)
  /-- `++repeat`, and the test after it. -/
  | again
  /-- `(inactive_mask & bit) && do_cleanup`. -/
  | tail
  /-- The second argument of the last `cas_uval`. -/
  | tailLoad
  /-- The third argument. -/
  | tailLoad2 (expected : Finset C)
  | tailCas (expected newMask : Finset C)
  /-- The last test. -/
  | tailTest
  deriving DecidableEq

/-- Where a processor is in `rcu_pause`, with `start_count`. -/
inductive PausePc (C : Type)
  /-- It is not in `rcu_pause`. -/
  | no
  /-- `start_count = gen_count`. -/
  | start
  | setLoad (startCount : Nat)
  | setCas (startCount : Nat) (old : Finset C)
  /-- It is about to call `rcu_check`. -/
  | call (startCount : Nat)
  /-- It is in that call. -/
  | inCheck (startCount : Nat)
  /-- `gen_count == start_count`. -/
  | test (startCount : Nat)
  | clearLoad
  | clearCas (old : Finset C)
  deriving DecidableEq

/-- Where `rcu_pause` goes on when the `rcu_check` that it has called returns. -/
def PausePc.back : PausePc C → PausePc C
  | .inCheck startCount => .test startCount
  | pause => pause

/-- The local variables of a processor. -/
structure RcuCpu (C : Type) where
  pc : RcuPc C
  doCleanup : Bool
  newGen : Finset C
  repeats : Nat
  pause : PausePc C

/-- What happens. -/
inductive RcuEvent (C : Type)
  /-- The processor begins an `rcu_check`. -/
  | began (i : C)
  /-- The processor defers node `k`, while `gen_count` is `gen` and the processors `inside` are in
  `rcu_check`. -/
  | deferred (i : C) (k gen : Nat) (inside : Finset C)
  /-- The processor calls the collector of node `k`. -/
  | ran (i : C) (k : Nat)
  /-- The processor calls `rcu_pause`, while the processors `inside` are in it. -/
  | paused (i : C) (inside : Finset C)
  /-- The processor returns from `rcu_pause`. -/
  | resumed (i : C)
  deriving DecidableEq

/-- The shared variables, the processors, the number of the next node, and the trace. -/
structure Rcu (C : Type) where
  cpuMask : Finset C
  genMask : Finset C
  inactiveMask : Finset C
  genCount : Nat
  rcuLists : Nat → List Nat
  cpu : C → RcuCpu C
  nodes : Nat
  trace : List (RcuEvent C)

namespace Rcu

variable (s : Rcu C) (i : C)

/-- The local variables of processor `i` are `x`. -/
@[simps]
def setCpu (x : RcuCpu C) : Rcu C :=
  { s with cpu := Function.update s.cpu i x }

/-- Something has happened. -/
@[simps]
def record (e : RcuEvent C) : Rcu C := { s with trace := s.trace ++ [e] }

/-- The processors that are in `rcu_check`. -/
def inCheck : Finset C := s.cpuMask.filter fun i => (s.cpu i).pc ≠ .out

/-- The processors that are in `rcu_pause`. -/
def inPause : Finset C := s.cpuMask.filter fun i => (s.cpu i).pause ≠ .no

/-- `rcu_check` is called. -/
def begin (pause : PausePc C) : Rcu C :=
  (s.record (.began i)).setCpu i
    { s.cpu i with pc := .load, doCleanup := false, repeats := 0, pause := pause }

/-- `goto retry`. -/
def retry (x : RcuCpu C) : Rcu C :=
  s.setCpu i { x with pc := .load, doCleanup := false }

/-- `rcu_check` returns, maybe to `rcu_pause`. -/
def leave : Rcu C :=
  s.setCpu i { s.cpu i with pc := .out, pause := (s.cpu i).pause.back }

/-- A step of `rcu_pause`. -/
def pauseStep : Rcu C :=
  let x := s.cpu i
  match x.pause with
  | .no => s
  | .start => s.setCpu i { x with pause := .setLoad s.genCount }
  | .setLoad startCount => s.setCpu i { x with pause := .setCas startCount s.inactiveMask }
  | .setCas startCount old =>
    if s.inactiveMask = old then
      { s with inactiveMask := insert i old }.setCpu i { x with pause := .call startCount }
    else s.setCpu i { x with pause := .setLoad startCount }
  | .call startCount => s.begin i (.inCheck startCount)
  | .inCheck _ => s
  | .test startCount =>
    s.setCpu i { x with pause := if s.genCount = startCount then .call startCount else .clearLoad }
  | .clearLoad => s.setCpu i { x with pause := .clearCas s.inactiveMask }
  | .clearCas old =>
    if s.inactiveMask = old then
      ({ s with inactiveMask := old.erase i }.record (.resumed i)).setCpu i { x with pause := .no }
    else s.setCpu i { x with pause := .clearLoad }

/-- A step of `rcu_check`, or of `rcu_pause` when the processor is not in `rcu_check`. -/
def step : Rcu C :=
  let x := s.cpu i
  match x.pc with
  | .out => s.pauseStep i
  | .load =>
    if insert i s.genMask = s.cpuMask then s.setCpu i { x with pc := .loadInactive s.genMask }
    else s.setCpu i { x with pc := .cas s.genMask (insert i s.genMask) }
  -- `do_cleanup` stays set also when the `cas_uval` fails
  | .loadInactive old =>
    s.setCpu i { x with pc := .cas old (s.inactiveMask.erase i), doCleanup := true }
  | .cas old newGen =>
    if s.genMask = old then
      { s with genMask := newGen }.setCpu i
        { x with newGen := newGen, pc := if x.doCleanup then .lock else .tail }
    else s.setCpu i { x with pc := .load }
  | .lock =>
    let gen := s.genCount % numGen
    { s with rcuLists := Function.update s.rcuLists gen [], genCount := s.genCount + 1 }.setCpu i
      { x with pc := .run (s.rcuLists gen) }
  | .run [] => s.setCpu i { x with pc := .again }
  | .run (k :: list) => (s.record (.ran i k)).setCpu i { x with pc := .run list }
  | .again =>
    let x := { x with repeats := x.repeats + 1 }
    if x.repeats < numGen ∧ insert i s.genMask = s.cpuMask then s.retry i x
    else s.setCpu i { x with pc := .tail }
  | .tail =>
    if i ∈ s.inactiveMask ∧ x.doCleanup then s.setCpu i { x with pc := .tailLoad }
    else s.leave i
  | .tailLoad => s.setCpu i { x with pc := .tailLoad2 s.genMask }
  | .tailLoad2 expected => s.setCpu i { x with pc := .tailCas expected (insert i s.genMask) }
  | .tailCas expected newMask =>
    if s.genMask = expected then
      { s with genMask := newMask }.setCpu i { x with pc := .tailTest }
    else s.setCpu i { x with pc := .tailLoad }
  | .tailTest =>
    if s.genMask = s.cpuMask ∧ insert i x.newGen ≠ s.cpuMask then s.retry i x else s.leave i

/-- `rcu_defer`. -/
def defer : Rcu C :=
  let gen := (s.genCount + 2) % numGen
  { s with
    rcuLists := Function.update s.rcuLists gen (s.rcuLists gen ++ [s.nodes])
    nodes := s.nodes + 1 }.record (.deferred i s.nodes s.genCount s.inCheck)

end Rcu

/-- What a processor can do. -/
inductive RcuAct (C : Type)
  /-- It calls `rcu_check`. -/
  | check (i : C)
  /-- It calls `rcu_defer`, outside of `rcu_check` or in a collector. -/
  | defer (i : C)
  /-- It calls `rcu_pause`. -/
  | pause (i : C)
  /-- It goes on in `rcu_check` or `rcu_pause`. -/
  | step (i : C)
  deriving DecidableEq

def RcuAct.cpu : RcuAct C → C
  | .check i => i
  | .defer i => i
  | .pause i => i
  | .step i => i

/-- The processor is neither in `rcu_check` nor in `rcu_pause`. -/
def RcuCpu.Outside (x : RcuCpu C) : Prop := x.pc = .out ∧ x.pause = .no

instance (x : RcuCpu C) : Decidable x.Outside := inferInstanceAs (Decidable (_ ∧ _))

/-- The processor may defer a node. -/
def RcuCpu.CanDefer (x : RcuCpu C) : Bool :=
  match x.pc with
  | .out => decide (x.pause = .no)
  | .run _ => true
  | _ => false

/-- One step of the machine; an action that the processor cannot take changes nothing. -/
def rcuStep (s : Rcu C) (a : RcuAct C) : Rcu C :=
  if a.cpu ∈ s.cpuMask then
    match a with
    | .check i => if (s.cpu i).Outside then s.begin i .no else s
    | .defer i => if (s.cpu i).CanDefer then s.defer i else s
    | .pause i =>
      if (s.cpu i).Outside then
        (s.record (.paused i (insert i s.inPause))).setCpu i { s.cpu i with pause := .start }
      else s
    | .step i => s.step i
  else s

/-- The state after `rcu_init` on every processor of `cpus`. -/
def rcuInit (cpus : Finset C) : Rcu C where
  cpuMask := cpus
  genMask := ∅
  inactiveMask := ∅
  genCount := 0
  rcuLists := fun _ => []
  cpu := fun _ => ⟨.out, false, ∅, 0, .no⟩
  nodes := 0
  trace := []

/-- The state after some actions. -/
def rcuRun (s : Rcu C) (acts : List (RcuAct C)) : Rcu C := acts.foldl rcuStep s

end Rhype
