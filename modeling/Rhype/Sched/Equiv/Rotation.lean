import Rhype.Sched.Equiv.Frame

/-!
# The rotation of the masks

`match_slot` rotates a mask to the left until it fits next to the slots that are taken, and
`locked_set_sched_params` rotates the mask of desired slots with it.  The rotation is the result
that the hypercall is documented to return; it returns 0 in its place, and 64 where no rotation
fits (`schedParams_iff`).
-/

namespace Rhype

/-! ### Rotations -/

section

variable {fixed m orig : SlotMask} {r i : Nat}

theorem getLsbD_rotateLeft (m : SlotMask) (r : Nat) (hi : i < 64) :
    (m.rotateLeft r).getLsbD i = m.getLsbD ((i + (64 - r % 64)) % 64) := by
  rw [BitVec.getLsbD_rotateLeft]
  by_cases hlt : i < r % 64
  · rw [decide_eq_true hlt, cond_true]
    congr 1
    omega
  · rw [decide_eq_false hlt, cond_false, decide_eq_true hi, Bool.true_and]
    congr 1
    omega

theorem rotateLeft_zero (m : SlotMask) : m.rotateLeft 0 = m := by
  refine BitVec.eq_of_getLsbD_eq fun i hi => ?_
  rw [getLsbD_rotateLeft _ _ hi]
  congr 1
  omega

theorem rotateLeft_rotateLeft_one : (m.rotateLeft r).rotateLeft 1 = m.rotateLeft (r + 1) := by
  refine BitVec.eq_of_getLsbD_eq fun i hi => ?_
  rw [getLsbD_rotateLeft _ _ hi, getLsbD_rotateLeft _ _ (Nat.mod_lt _ (by decide)),
    getLsbD_rotateLeft _ _ hi]
  congr 1
  omega

/-- The shifts of the source are a rotation, also for a rotation by 0. -/
theorem rotateDesired_eq (hr : r < numSchedSlots) : rotateDesired m r = m.rotateLeft r := by
  rw [BitVec.rotateLeft_def, show r % 64 = r from Nat.mod_eq_of_lt hr, BitVec.or_comm]
  rfl

/-! ### `match_slot` -/

theorem and_not_eq_self_iff : m &&& ~~~fixed = m ↔ m &&& fixed = 0 := by
  constructor
  · intro heq
    refine BitVec.eq_of_getLsbD_eq fun i hi => ?_
    have hbit := congrArg (fun x => BitVec.getLsbD x i) heq
    simp only [BitVec.getLsbD_and] at hbit
    cases hm : m.getLsbD i <;> cases hf : fixed.getLsbD i <;> simp_all
  · intro heq
    refine BitVec.eq_of_getLsbD_eq fun i hi => ?_
    have hbit := congrArg (fun x => BitVec.getLsbD x i) heq
    rw [BitVec.getLsbD_and] at hbit
    cases hm : m.getLsbD i <;> cases hf : fixed.getLsbD i <;> simp_all

theorem rotateLeft_step (i : Nat) : (orig.rotateLeft i >>> (numSchedSlots - 1)) |||
    (orig.rotateLeft i <<< 1) = orig.rotateLeft (i + 1) :=
  (rotateDesired_eq (by decide)).trans rotateLeft_rotateLeft_one

theorem matchLoop_some : ∀ (n i : Nat), matchLoop fixed n i (orig.rotateLeft i) = some (r, m) →
    i ≤ r ∧ r < i + n ∧ m = orig.rotateLeft r ∧ m &&& fixed = 0 ∧
      ∀ j, i ≤ j → j < r → orig.rotateLeft j &&& fixed ≠ 0
  | 0, _, hx => by cases hx
  | n + 1, i, hx => by
    rw [matchLoop] at hx
    split_ifs at hx with hfit
    · cases hx
      exact ⟨le_rfl, by omega, rfl, and_not_eq_self_iff.1 hfit, fun j hij hjr => by omega⟩
    rw [rotateLeft_step] at hx
    obtain ⟨hir, hrn, hm, hfix, hbefore⟩ := matchLoop_some n (i + 1) hx
    refine ⟨by omega, by omega, hm, hfix, fun j hij hjr => ?_⟩
    rcases Nat.eq_or_lt_of_le hij with rfl | hlt
    · exact fun hzero => hfit (and_not_eq_self_iff.2 hzero)
    · exact hbefore j hlt hjr

theorem matchLoop_none : ∀ (n i : Nat), matchLoop fixed n i (orig.rotateLeft i) = none ↔
    ∀ j, i ≤ j → j < i + n → orig.rotateLeft j &&& fixed ≠ 0
  | 0, i => ⟨fun _ j hij hj => by omega, fun _ => rfl⟩
  | n + 1, i => by
    rw [matchLoop]
    split_ifs with hfit
    · refine iff_of_false nofun fun hall => ?_
      exact hall i le_rfl (by omega) (and_not_eq_self_iff.1 hfit)
    rw [rotateLeft_step, matchLoop_none n (i + 1)]
    constructor
    · intro hall j hij hj
      rcases Nat.eq_or_lt_of_le hij with rfl | hlt
      · exact fun hzero => hfit (and_not_eq_self_iff.2 hzero)
      · exact hall j hlt (by omega)
    · exact fun hall j hij hj => hall j (by omega) (by omega)

/-- The first rotation of `match_slot`, and the mask that it gives. -/
theorem matchSlot_some (hx : matchSlot fixed orig = some (r, m)) :
    r < numSchedSlots ∧ m = orig.rotateLeft r ∧ m &&& fixed = 0 ∧
      ∀ j < r, orig.rotateLeft j &&& fixed ≠ 0 := by
  have hloop : matchLoop fixed numSchedSlots 0 (orig.rotateLeft 0) = some (r, m) := by
    rwa [rotateLeft_zero]
  obtain ⟨-, hr, hm, hfix, hbefore⟩ := matchLoop_some numSchedSlots 0 hloop
  exact ⟨by omega, hm, hfix, fun j hj => hbefore j (Nat.zero_le j) hj⟩

theorem matchSlot_none :
    matchSlot fixed orig = none ↔ ∀ j < numSchedSlots, orig.rotateLeft j &&& fixed ≠ 0 := by
  rw [show matchSlot fixed orig = matchLoop fixed numSchedSlots 0 (orig.rotateLeft 0) by
    rw [rotateLeft_zero]; rfl, matchLoop_none]
  exact ⟨fun hall j hj => hall j (Nat.zero_le j) (by omega), fun hall j _ hj => hall j (by omega)⟩

/-- What `match_slot` returns, and the mask that it leaves in `*orig`. -/
def matchSlotRet (fixed orig : SlotMask) : Uval × SlotMask :=
  match matchSlot fixed orig with
  | some (i, bits) => (BitVec.ofNat 64 i, bits)
  | none => (BitVec.ofInt 64 hUnavail, orig)

/-- **`match_slot`** returns the least rotation at which the mask fits and stores the rotated mask,
or a value that is no rotation, with the mask as it was, if there is none. -/
theorem matchSlotRet_spec (fixed orig : SlotMask) :
    let x := matchSlotRet fixed orig
    (x.1.toNat < 64 ∧ x.2 = orig.rotateLeft x.1.toNat ∧ x.2 &&& fixed = 0 ∧
        ∀ j < x.1.toNat, orig.rotateLeft j &&& fixed ≠ 0) ∨
      64 ≤ x.1.toNat ∧ x.2 = orig ∧ ∀ j < 64, orig.rotateLeft j &&& fixed ≠ 0 := by
  unfold matchSlotRet
  rcases hx : matchSlot fixed orig with _ | x
  · dsimp only
    exact .inr ⟨by decide, rfl, matchSlot_none.1 hx⟩
  obtain ⟨hr, hm, hfix, hleast⟩ := matchSlot_some hx
  have hret : (BitVec.ofNat 64 x.1).toNat = x.1 := Nat.mod_eq_of_lt (hr.trans (by decide))
  dsimp only
  rw [hret]
  exact .inl ⟨hr, hm, hfix, hleast⟩

end

/-! ### `locked_set_sched_params` -/

section

variable {s : Scheduler} {c : CpuId} {p r : Nat} {required desired m fixed orig : SlotMask}

/-- The required slots fit where they are, without a rotation. -/
def RequiredFits (s : Scheduler) (c : CpuId) (p : Nat) (required : SlotMask) : Prop :=
  let others := ~~~(s.cpu c).currSet
  required &&& ((s.perCpu p).usedSlots &&& others) = 0 ∨
    (∀ r < numSchedSlots, required.rotateLeft r &&& ((s.perCpu p).usedSlots &&& others) ≠ 0) ∧
      required &&& ((s.perCpu p).lockedSlots &&& others) = 0

theorem chooseSlots_some (hx : chooseSlots s c p required = some (r, m)) :
    r < numSchedSlots ∧ m = required.rotateLeft r := by
  unfold chooseSlots at hx
  dsimp only at hx
  split at hx
  · rename_i hmatch
    obtain ⟨hr, hm, -⟩ := matchSlot_some (hmatch.trans hx)
    exact ⟨hr, hm⟩
  · obtain ⟨hr, hm, -⟩ := matchSlot_some hx
    exact ⟨hr, hm⟩

/-- No rotation is needed for slots that fit where they are, and for no others. -/
theorem matchSlot_zero_iff : matchSlot fixed orig = some (0, orig) ↔ orig &&& fixed = 0 := by
  constructor
  · exact fun hx => (matchSlot_some hx).2.2.1
  · intro hfix
    rw [matchSlot, numSchedSlots, matchLoop, if_pos (and_not_eq_self_iff.2 hfix)]

theorem chooseSlots_zero_iff :
    chooseSlots s c p required = some (0, required) ↔ RequiredFits s c p required := by
  unfold chooseSlots RequiredFits
  dsimp only
  rw [← matchSlot_zero_iff, ← matchSlot_zero_iff, ← matchSlot_none]
  cases matchSlot ((s.perCpu p).usedSlots &&& ~~~(s.cpu c).currSet) required <;> simp

/-- A rotation that gives the mask back is not tried after the mask itself. -/
theorem matchSlot_same (hx : matchSlot fixed orig = some (r, orig)) : r = 0 := by
  obtain ⟨-, -, hfix, hbefore⟩ := matchSlot_some hx
  by_contra hr
  apply hbefore 0 (Nat.pos_of_ne_zero hr)
  rwa [rotateLeft_zero]

theorem chooseSlots_same (hx : chooseSlots s c p required = some (r, required)) : r = 0 := by
  unfold chooseSlots at hx
  dsimp only at hx
  split at hx
  · rename_i hmatch
    exact matchSlot_same (hmatch.trans hx)
  · exact matchSlot_same hx

/-- The call records the masks that it has rotated. -/
theorem lockedSetSchedParams_some (desired : SlotMask)
    (hx : chooseSlots s c p required = some (r, m)) :
    ∃ t, lockedSetSchedParams s c p required desired = (hSuccess, t) ∧
      (t.cpu c).required = m ∧ (t.cpu c).desired = rotateDesired desired r := by
  have hcpu : ∀ (t : Scheduler) x, (t.setPerCpu p x).cpu = t.cpu := fun _ _ => rfl
  rw [lockedSetSchedParams, hx]
  refine ⟨_, rfl, ?_, ?_⟩
  · rw [hcpu, (SlotFrame.setSlotOwners ..).required, hcpu, Scheduler.setCpu]
    dsimp only
    rw [Function.update_self]
  · rw [hcpu, (SlotFrame.setSlotOwners ..).desired, hcpu, Scheduler.setCpu]
    dsimp only
    rw [Function.update_self]

theorem lockedSetSchedParams_none (desired : SlotMask) (hx : chooseSlots s c p required = none) :
    lockedSetSchedParams s c p required desired = ((numSchedSlots : Sval), s) := by
  rw [lockedSetSchedParams, hx]

end

/-! ### The hypercall -/

section

variable {maxCpu : Nat} {s : Scheduler} {cur c : CpuId} {p : Nat}
  {lpid physCpuNum required desired : Uval}

/-- What `h_set_sched_params` says of its return value: on success it is the rotation of both masks,
on failure it is negative and nothing has changed. -/
def SchedParams (maxCpu : Nat) (s : Scheduler) (cur : CpuId)
    (lpid physCpuNum required desired : Uval) : Prop :=
  ∃ ret regs t, hSetSchedParams maxCpu s cur lpid physCpuNum required desired =
      .ok (ret, regs, t) ∧
    (ret < 0 ∧ t = s ∨
      ∃ c p, ∃ r : Nat, schedTarget maxCpu s cur lpid physCpuNum = .ok (some (c, p)) ∧
        r < numSchedSlots ∧ ret = r ∧ (t.cpu c).required = required.rotateLeft r ∧
        (t.cpu c).desired = desired.rotateLeft r)

theorem hSetSchedParams_some {ret : Sval} {t : Scheduler}
    (htarget : schedTarget maxCpu s cur lpid physCpuNum = .ok (some (c, p)))
    (hlocked : lockedSetSchedParams s c p required desired = (ret, t)) :
    hSetSchedParams maxCpu s cur lpid physCpuNum required desired =
      .ok (ret, [(t.perCpu p).lockedSlots, (t.perCpu p).usedSlots, (t.cpu c).required], t) := by
  rw [hSetSchedParams, htarget, ok_bind]
  dsimp only
  rw [hlocked]

theorem schedParams_some (htarget : schedTarget maxCpu s cur lpid physCpuNum = .ok (some (c, p))) :
    SchedParams maxCpu s cur lpid physCpuNum required desired ↔ RequiredFits s c p required := by
  rw [← chooseSlots_zero_iff]
  unfold SchedParams
  rcases hchoose : chooseSlots s c p required with _ | x
  · -- the value for a failure is not negative, and no rotation either
    rw [hSetSchedParams_some htarget (lockedSetSchedParams_none desired hchoose)]
    refine iff_of_false ?_ nofun
    rintro ⟨ret, regs, t, hret, hspec⟩
    cases hret
    rcases hspec with ⟨hneg, -⟩ | ⟨-, -, r, -, hr, hret, -⟩
    · cases hneg
    · rw [Int.ofNat_inj.1 hret] at hr
      exact absurd hr (lt_irrefl _)
  obtain ⟨r, m⟩ := x
  obtain ⟨t, hlocked, hreq, hdes⟩ := lockedSetSchedParams_some desired hchoose
  rw [hSetSchedParams_some htarget hlocked, htarget]
  constructor
  · rintro ⟨ret, regs, t', hret, hspec⟩
    cases hret
    rcases hspec with ⟨hneg, -⟩ | ⟨c', p', k, htarget', -, hret, hreq', -⟩
    · cases hneg
    -- the value is 0, and the mask is the one that was asked for
    cases htarget'
    rw [← Int.ofNat_inj.1 hret, rotateLeft_zero, hreq] at hreq'
    subst hreq'
    rw [chooseSlots_same hchoose]
  · rintro ⟨⟩
    refine ⟨_, _, _, rfl, .inr ⟨c, p, 0, rfl, by decide, rfl, ?_, ?_⟩⟩
    · rw [hreq, rotateLeft_zero]
    · rw [hdes, rotateDesired_eq (by decide)]

/-- The place in `os->cpu` that the call reads. -/
def cpuIndex (s : Scheduler) (cur : CpuId) (physCpuNum : Uval) : Nat :=
  if physCpuNum = thisCpu then (s.cpu cur).logicalCpuNum else physCpuNum.toNat

/-- The call is refused, or the place that it reads is one of the table, and the required slots of
the cpu there fit without a rotation. -/
def SchedParamsFit (maxCpu : Nat) (s : Scheduler) (cur : CpuId) (lpid physCpuNum required : Uval) :
    Prop :=
  ∀ o, osLookup s cur lpid = some o →
    maxCpu < physCpuNum.toNat ∧ physCpuNum ≠ thisCpu ∨
    cpuIndex s cur physCpuNum < maxCpu ∧
      ∀ c, (s.os o).cpu (cpuIndex s cur physCpuNum) = some c →
        RequiredFits s c (cpuIndex s cur physCpuNum) required

theorem schedParams_refused (htarget : schedTarget maxCpu s cur lpid physCpuNum = .ok none) :
    SchedParams maxCpu s cur lpid physCpuNum required desired := by
  refine ⟨hParameter, [], s, ?_, .inl ⟨by decide, rfl⟩⟩
  rw [hSetSchedParams, htarget, ok_bind]

theorem schedTarget_eq {o : OsId} (hos : osLookup s cur lpid = some o)
    (hnum : ¬ (maxCpu < physCpuNum.toNat ∧ physCpuNum ≠ thisCpu)) :
    schedTarget maxCpu s cur lpid physCpuNum =
      (s.os o).cpuAt maxCpu (cpuIndex s cur physCpuNum) >>= fun oc =>
        .ok (oc.map fun c => (c, cpuIndex s cur physCpuNum)) := by
  rw [schedTarget, hos]
  refine (if_neg hnum).trans (congrArg _ (funext fun oc => ?_))
  cases oc <;> rfl

/-- **`h_set_sched_params`** keeps what it says of its return value exactly for the calls that need
no rotation. -/
theorem schedParams_iff (maxCpu : Nat) (s : Scheduler) (cur : CpuId)
    (lpid physCpuNum required desired : Uval) :
    SchedParams maxCpu s cur lpid physCpuNum required desired ↔
      SchedParamsFit maxCpu s cur lpid physCpuNum required := by
  unfold SchedParamsFit
  rcases hos : osLookup s cur lpid with _ | o
  · refine iff_of_true (schedParams_refused ?_) fun _ h => by cases h
    rw [schedTarget, hos]
  simp only [Option.some.injEq, forall_eq']
  by_cases hnum : maxCpu < physCpuNum.toNat ∧ physCpuNum ≠ thisCpu
  · refine iff_of_true (schedParams_refused ?_) (.inl hnum)
    rw [schedTarget, hos]
    exact if_pos hnum
  have htarget := schedTarget_eq hos hnum
  rw [or_iff_right hnum]
  unfold SchedOs.cpuAt at htarget
  split_ifs at htarget with hlt
  · rw [and_iff_right hlt]
    cases hcpu : (s.os o).cpu (cpuIndex s cur physCpuNum) with
    | none =>
      rw [hcpu] at htarget
      exact iff_of_true (schedParams_refused htarget) fun _ h => by cases h
    | some c =>
      rw [hcpu] at htarget
      simp only [Option.some.injEq, forall_eq', schedParams_some htarget]
  -- the place behind the table
  rw [error_bind] at htarget
  refine iff_of_false ?_ fun hand => hlt hand.1
  rintro ⟨ret, regs, t, hret, -⟩
  rw [hSetSchedParams, htarget] at hret
  cases hret

end

/-- Two partitions with a cpu each on processor 0; slot 0 is locked for cpu 0. -/
def slotTaken : Scheduler where
  cpu := fun c => ⟨0, c, if c = 0 then 1 else 0, if c = 0 then 1 else 0, 0, 0, true⟩
  perCpu := fun _ => ⟨1, 1, fun i => if i = 0 then some 0 else none, 0⟩
  os := fun o => ⟨BitVec.ofNat 64 (o + 1), fun i => if i = 0 then some o else none⟩
  osHash := fun _ => none

/-- Cpu 1 asks for slot 0 and gets slot 1: a rotation by 1, for which the call returns 0. -/
theorem schedParams_rotated :
    ¬ SchedParams 1 slotTaken 1 hSelfLpid thisCpu 1 0 ∧
    (hSetSchedParams 1 slotTaken 1 hSelfLpid thisCpu 1 0).map (fun x => (x.1, x.2.1)) =
      .ok (0, [3, 3, 2]) := by
  refine ⟨?_, by decide +kernel⟩
  rw [schedParams_some (c := 1) (p := 0) rfl]
  rintro (hfit | ⟨hall, -⟩)
  · cases hfit
  · exact hall 1 (by decide) (by decide)

end Rhype
