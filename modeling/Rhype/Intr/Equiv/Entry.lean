import Rhype.Intr.Handler
import Rhype.Word.Flags

/-!
# Entering the handlers of a partition

An exception that is forwarded to a partition leaves it with the selector of a gate in `CS`, and, if
it was in an application, with the stack selector of its kernel in `SS`.  When the stack of the
partition is not there it is the gate for page faults that is entered, however often that happens
(`pageFault_ok`, `forceSyncException_ok`).
-/

namespace Rhype.Intr

open Ia32

/-! ### Fit to run -/

/-- The conditions of `arch_validate`. -/
structure Valid (t : Thread) : Prop where
  cs : 2 ≤ rpl t.cs
  ss : 2 ≤ rpl t.ss
  intr : t.eflags &&& eflagsIf ≠ 0

section

variable {t t' : Thread} {a : Word}

theorem rpl_ne_zero (ha : 2 ≤ rpl a) : rpl a ≠ 0 := by
  intro hzero
  rw [hzero] at ha
  cases ha

theorem archValidate_eq_ok : archValidate t = .ok () ↔ Valid t := by
  constructor
  · intro hx
    obtain ⟨_, -, hx⟩ := of_seq hx
    obtain ⟨_, hcs, hx⟩ := of_seq hx
    obtain ⟨_, -, hx⟩ := of_seq hx
    obtain ⟨_, hss, hif⟩ := of_seq hx
    rw [hassert_ok, decide_eq_true_eq] at hcs hss hif
    exact ⟨hcs, hss, hif⟩
  · intro hv
    have hcs : t.cs &&& 3 ≠ 0 := rpl_ne_zero hv.cs
    have hss : t.ss &&& 3 ≠ 0 := rpl_ne_zero hv.ss
    refine seq_ok.2 ⟨(), hassert_ok.2 (decide_eq_true hcs), ?_⟩
    refine seq_ok.2 ⟨(), hassert_ok.2 (decide_eq_true hv.cs), ?_⟩
    refine seq_ok.2 ⟨(), hassert_ok.2 (decide_eq_true hss), ?_⟩
    refine seq_ok.2 ⟨(), hassert_ok.2 (decide_eq_true hv.ss), ?_⟩
    exact hassert_ok.2 (decide_eq_true hv.intr)

theorem isFlag_eflagsTf : Word.IsFlag eflagsTf 8 := by
  unfold Word.IsFlag
  decide

theorem isFlag_eflagsIf : Word.IsFlag eflagsIf 9 := by
  unfold Word.IsFlag
  decide

theorem intr_of_or : (a ||| eflagsIf) &&& eflagsIf ≠ 0 := by
  rw [isFlag_eflagsIf.and_ne_zero_iff, isFlag_eflagsIf.getLsbD_or (by decide)]
  simp

theorem intr_of_and_not : (a &&& ~~~eflagsTf) &&& eflagsIf ≠ 0 ↔ a &&& eflagsIf ≠ 0 := by
  rw [isFlag_eflagsIf.and_ne_zero_iff, isFlag_eflagsIf.and_ne_zero_iff,
    isFlag_eflagsTf.getLsbD_and_not (by decide)]
  simp

theorem valid_archInitThread (iopl pc esp : Word) (mem : Word → Word) :
    Valid (archInitThread iopl pc esp mem) := by
  constructor
  · show 2 ≤ rpl guestCs
    decide
  · show 2 ≤ rpl guestDs
    decide
  · exact intr_of_or

end

/-! ### Entering the partition -/

/-- The thread is about to run the handler of a gate with this segment. -/
structure Entered (t t' : Thread) (segment : BitVec 16) : Prop where
  cs : t'.cs = segment.setWidth 32
  ss : t'.ss = if rpl t.cs = 3 then t.ss2.setWidth 32 else t.ss
  intr : t'.eflags &&& eflagsIf ≠ 0 ↔ t.eflags &&& eflagsIf ≠ 0

/-- The gate and the stack have a privilege level of the partition. -/
structure EnterOk (t : Thread) (segment : BitVec 16) : Prop where
  gate : 2 ≤ rpl (segment.setWidth 32)
  stack : rpl t.cs = 3 → 2 ≤ rpl (t.ss2.setWidth 32)

def pfGate (t : Thread) : IdtDescriptor := t.idtInfo ⟨14, by decide⟩

/-- The page fault is forwarded to the partition. -/
def PageFault.forwards : PageFault → Bool
  | .repaired => false
  | .forwarded _ _ => true
  | .stack _ _ _ => true

section

variable {t t' t'' : Thread} {segment : BitVec 16} {stack : Option Handler} {fwd failed : Bool}
  {idt : IdtDescriptor} {errorCode cr2 : Word}

theorem Entered.valid_iff (he : Entered t t' segment) (hv : Valid t) :
    Valid t' ↔ EnterOk t segment := by
  have hss := he.ss
  constructor
  · intro hv'
    refine ⟨he.cs ▸ hv'.cs, fun huser => ?_⟩
    rw [if_pos huser] at hss
    exact hss ▸ hv'.ss
  · intro hok
    refine ⟨?_, ?_, ?_⟩
    · rw [he.cs]
      exact hok.gate
    · by_cases huser : rpl t.cs = 3
      · rw [hss, if_pos huser]
        exact hok.stack huser
      · rw [hss, if_neg huser]
        exact hv.ss
    · rw [he.intr]
      exact hv.intr

/-- Looking for the stack of the partition leaves the thread, or enters the handler for page
faults. -/
def Ensures (stack : Option Handler) (fwd : Bool) : Prop :=
  ∀ t t' failed, ensureStack stack t = .ok (failed, t') →
    failed = fwd ∧ (fwd = false → t' = t) ∧ (fwd = true → Entered t t' (pfGate t).segment)

theorem ensures_none : Ensures none false := by
  rintro t t' failed ⟨⟩
  exact ⟨rfl, fun _ => rfl, nofun⟩

/-- A page fault that is repaired leaves the thread, and one that is forwarded enters the handler.
-/
theorem ensures_of_ok {fault : Handler}
    (hfault : ∀ t t' failed, fault t = .ok (failed, t') →
      failed = fwd ∧ (fwd = false → t' = t) ∧ (fwd = true → Entered t t' (pfGate t).segment)) :
    Ensures (some fault) fwd := by
  intro t t' failed hx
  obtain ⟨⟨forwarded, u⟩, hx', hx⟩ := of_seq hx
  obtain ⟨rfl, hsame, henter⟩ := hfault t u forwarded hx'
  cases forwarded with
  | true =>
    obtain ⟨_, -, hx⟩ := of_seq hx
    cases hx
    exact ⟨rfl, nofun, henter⟩
  | false =>
    cases hx
    exact ⟨rfl, hsame, nofun⟩

/-- The thread on the stack of its kernel, if it was in an application. -/
def switched (t : Thread) : Thread :=
  if plChangeRequired t then { t with ss := t.ss2.setWidth 32, esp := t.esp2 } else t

@[simp]
theorem switched_cs : (switched t).cs = t.cs := by
  unfold switched
  split_ifs <;> rfl

@[simp]
theorem switched_ss2 : (switched t).ss2 = t.ss2 := by
  unfold switched
  split_ifs <;> rfl

@[simp]
theorem switched_eflags : (switched t).eflags = t.eflags := by
  unfold switched
  split_ifs <;> rfl

@[simp]
theorem pfGate_switched : pfGate (switched t) = pfGate t := by
  unfold switched
  split_ifs <;> rfl

theorem switched_ss : (switched t).ss = if rpl t.cs = 3 then t.ss2.setWidth 32 else t.ss := by
  unfold switched plChangeRequired rpl
  by_cases huser : t.cs &&& 3 = 3
  · rw [if_pos (decide_eq_true huser), if_pos huser]
  · rw [if_neg (by simpa using huser), if_neg huser]

theorem Entered.of_switched (he : Entered (switched t) t' segment) : Entered t t' segment := by
  refine ⟨he.cs, ?_, ?_⟩
  · rw [he.ss, switched_cs, switched_ss2, switched_ss]
    split_ifs <;> rfl
  · rw [he.intr, switched_eflags]

section

variable (hstack : Ensures stack fwd)
include hstack

/-- The exception frame is pushed on the stack of the kernel, unless a page fault is forwarded
instead. -/
theorem pushExceptionState_ok
    (hx : pushExceptionState stack t (plChangeRequired t) = .ok (failed, t')) :
    failed = fwd ∧ (fwd = true → Entered t t' (pfGate t).segment) ∧
      (fwd = false → t'.ss = (switched t).ss ∧ t'.eflags = t.eflags) := by
  obtain ⟨⟨failed', u⟩, hensure, hx⟩ := of_seq hx
  obtain ⟨rfl, hsame, henter⟩ := hstack (switched t) u failed' hensure
  cases failed' with
  | true =>
    cases hx
    refine ⟨rfl, fun _ => ?_, nofun⟩
    have he := (henter rfl).of_switched
    rwa [pfGate_switched] at he
  | false =>
    obtain rfl := hsame rfl
    obtain ⟨_, -, hx⟩ := of_seq hx
    cases hx
    refine ⟨rfl, nofun, fun _ => ?_⟩
    rw [← switched_eflags (t := t)]
    dsimp only [push]
    split_ifs
    all_goals exact ⟨rfl, rfl⟩

/-- **What an exception does**: the handler of its gate is entered, or that for page faults. -/
theorem forceSyncException_ok (hx : forceSyncException stack t idt = .ok (failed, t')) :
    failed = fwd ∧ Entered t t' (if fwd then (pfGate t).segment else idt.segment) := by
  obtain ⟨⟨failed', u⟩, hpush, hx⟩ := of_seq hx
  obtain ⟨rfl, henter, hframe⟩ := pushExceptionState_ok hstack hpush
  cases failed' with
  | true =>
    cases hx
    exact ⟨rfl, henter rfl⟩
  | false =>
    obtain ⟨hss, heflags⟩ := hframe rfl
    cases hx
    refine ⟨rfl, ?_⟩
    show Entered t _ idt.segment
    refine ⟨?_, ?_, ?_⟩
    · split_ifs <;> rfl
    · rw [← switched_ss, ← hss]
      split_ifs <;> rfl
    · rw [← heflags, ← intr_of_and_not (a := u.eflags)]
      split_ifs <;> rfl

theorem forcePageFault_ok (hx : forcePageFault stack t errorCode cr2 = .ok (failed, t')) :
    Entered t t' (pfGate t).segment := by
  obtain ⟨⟨failed', u⟩, hforce, hx⟩ := of_seq hx
  obtain ⟨rfl, he⟩ := forceSyncException_ok hstack hforce
  cases failed' with
  | true =>
    cases hx
    exact he
  | false =>
    cases hx
    exact ⟨he.cs, he.ss, he.intr⟩

end

/-- A page fault is repaired, and the thread is as before, or it is forwarded. -/
theorem pageFault_ok {fault : PageFault} (hx : pageFault fault t = .ok (failed, t')) :
    failed = fault.forwards ∧ (fault.forwards = false → t' = t) ∧
      (fault.forwards = true → Entered t t' (pfGate t).segment) := by
  induction fault generalizing t t' failed with
  | repaired =>
    obtain ⟨_, -, hx⟩ := of_seq hx
    cases hx
    exact ⟨rfl, fun _ => rfl, nofun⟩
  | forwarded errorCode cr2 =>
    obtain ⟨_, -, hx⟩ := of_seq hx
    obtain ⟨⟨_, u⟩, hforce, hx⟩ := of_seq hx
    cases hx
    exact ⟨rfl, nofun, fun _ => forcePageFault_ok ensures_none hforce⟩
  | stack errorCode cr2 fault ih =>
    obtain ⟨_, -, hx⟩ := of_seq hx
    obtain ⟨⟨_, u⟩, hforce, hx⟩ := of_seq hx
    cases hx
    refine ⟨rfl, nofun, fun _ => forcePageFault_ok (ensures_of_ok fun _ _ _ hx => ih hx) hforce⟩

end

end Rhype.Intr
