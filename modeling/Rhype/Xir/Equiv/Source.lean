import Rhype.Word.Flags
import Rhype.Xir.Basic

/-!
# The states of an interrupt source

A source that is enabled and has a handler is either outstanding or not.  An interrupt that is
raised while it is outstanding changes nothing (`xirInject_outstanding`): it is not remembered.
-/

namespace Rhype

namespace Xir

def Disabled (x : Xir) : Prop := x.xhFlags &&& xirrDisabled ≠ 0

def Outstanding (x : Xir) : Prop := x.xhFlags &&& xirrOutstanding ≠ 0

instance (x : Xir) : Decidable x.Disabled := inferInstanceAs (Decidable (_ ≠ _))

instance (x : Xir) : Decidable x.Outstanding := inferInstanceAs (Decidable (_ ≠ _))

/-- Interrupts of the source go to the thread. -/
structure Ready (x : Xir) : Prop where
  enabled : ¬ x.Disabled
  handler : x.xhHandler = true

variable {x : Xir} {xirr : Xirr}

theorem isFlag_xirrDisabled : Word.IsFlag xirrDisabled 0 := by
  unfold Word.IsFlag
  decide

theorem isFlag_xirrPending : Word.IsFlag xirrPending 1 := by
  unfold Word.IsFlag
  decide

theorem isFlag_xirrOutstanding : Word.IsFlag xirrOutstanding 2 := by
  unfold Word.IsFlag
  decide

theorem disabled_iff : x.Disabled ↔ x.xhFlags.getLsbD 0 = true :=
  isFlag_xirrDisabled.and_ne_zero_iff

theorem outstanding_iff : x.Outstanding ↔ x.xhFlags.getLsbD 2 = true :=
  isFlag_xirrOutstanding.and_ne_zero_iff

/-! ### Raising -/

/-- The source after it was put into the queue. -/
def queued (x : Xir) (xirr : Xirr) : Xir :=
  { x with
    xhFlags := (x.xhFlags ||| xirrOutstanding) &&& ~~~xirrPending
    xirq := x.xirq ++ [xirr] }

theorem outstanding_queued : (x.queued xirr).Outstanding := by
  rw [outstanding_iff, queued, isFlag_xirrPending.getLsbD_and_not (by decide),
    isFlag_xirrOutstanding.getLsbD_or (by decide)]
  simp

section

variable (hx : x.Ready)
include hx

theorem Ready.queued : (x.queued xirr).Ready := by
  constructor
  · rw [disabled_iff, Xir.queued, isFlag_xirrPending.getLsbD_and_not (by decide),
      isFlag_xirrOutstanding.getLsbD_or (by decide)]
    have henabled := mt disabled_iff.2 hx.enabled
    simpa using henabled
  · exact hx.handler

theorem xirInject_ready : xirInject x xirr = xirEnqueue x xirr :=
  (if_neg hx.enabled).trans (if_pos hx.handler)

theorem xirInject_outstanding (hout : x.Outstanding) : xirInject x xirr = (0, x) := by
  rw [xirInject_ready hx]
  exact if_pos hout

theorem xirInject_queued (hout : ¬ x.Outstanding)
    (hroom : x.xirq.length + 1 < xirrDevidSz) : xirInject x xirr = (0, x.queued xirr) := by
  rw [xirInject_ready hx]
  refine (if_neg hout).trans ?_
  dsimp only
  rw [xirAdd, if_pos hroom]
  rfl

theorem xirInject_full (hout : ¬ x.Outstanding)
    (hroom : ¬ x.xirq.length + 1 < xirrDevidSz) : (xirInject x xirr).1 = -1 := by
  rw [xirInject_ready hx]
  refine (congrArg Prod.fst (if_neg hout)).trans ?_
  dsimp only
  rw [xirAdd, if_neg hroom]

theorem xirInject_ok (hret : 0 ≤ (xirInject x xirr).1) :
    (x.Outstanding ∧ (xirInject x xirr).2 = x) ∨
    (¬ x.Outstanding ∧ (xirInject x xirr).2 = x.queued xirr) := by
  by_cases hout : x.Outstanding
  · rw [xirInject_outstanding hx hout]
    exact .inl ⟨hout, rfl⟩
  by_cases hroom : x.xirq.length + 1 < xirrDevidSz
  · rw [xirInject_queued hx hout hroom]
    exact .inr ⟨hout, rfl⟩
  · rw [xirInject_full hx hout hroom] at hret
    cases hret

end

/-! ### Taking and ending -/

theorem not_outstanding_eoi : ¬ (xirEoi x).Outstanding := by
  rw [outstanding_iff, xirEoi, isFlag_xirrOutstanding.getLsbD_and_not (by decide)]
  simp

theorem Ready.eoi (hx : x.Ready) : (xirEoi x).Ready := by
  constructor
  · rw [disabled_iff, xirEoi, isFlag_xirrOutstanding.getLsbD_and_not (by decide)]
    have henabled := mt disabled_iff.2 hx.enabled
    simpa using henabled
  · exact hx.handler

theorem hXirr_nil (hq : x.xirq = []) : hXirr x = (0, x) := by
  rw [hXirr, hq]

theorem hXirr_cons {xq : List Xirr} (hq : x.xirq = xirr :: xq) :
    hXirr x = (xirr, { x with xirq := xq }) := by
  rw [hXirr, hq]

theorem Ready.taken (hx : x.Ready) : (hXirr x).2.Ready := by
  rcases hq : x.xirq with _ | ⟨xirr, xq⟩
  · rwa [hXirr_nil hq]
  · rw [hXirr_cons hq]
    exact ⟨hx.enabled, hx.handler⟩

end Xir

end Rhype
