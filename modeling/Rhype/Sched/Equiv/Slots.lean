import Rhype.Sched.Equiv.Rotation

/-!
# The sets of slots

The owners of the slots, the current sets of the cpus, and the sets of used and of locked slots say
the same thing in four ways (`SlotSets`).  `locked_set_sched_params` keeps them in step as long as
it gives out none of the slots from 32 on, which `0x1 << i` does not reach (`slotSets_iff`).
-/

namespace Rhype

open Function List
open BitVec hiding lt_trichotomy

/-! ### The test of a slot -/

section

variable {slots : SlotMask} {i : Nat}

/-- The mask has none of the slots that the test does not reach. -/
def LowSlots (slots : SlotMask) : Prop := ∀ i, 32 ≤ i → slots.getLsbD i = false

theorem LowSlots.of_lt (hslots : ∀ i, 32 ≤ i → i < numSchedSlots → ¬ slots.getLsbD i = true) :
    LowSlots slots := by
  intro i hi
  by_cases hlt : i < numSchedSlots
  · exact Bool.eq_false_iff.2 (hslots i hi hlt)
  · exact getLsbD_of_ge slots i (Nat.le_of_not_lt hlt)

theorem slotTest_high (hi : 32 ≤ i) : slotTest slots i = false := by
  have hshift : (1 : BitVec 32) <<< i = 0 := shiftLeft_eq_zero hi
  rw [slotTest, hshift]
  simp

/-- Below 32 the test sees the slot, and for the last one all those behind it. -/
theorem LowSlots.slotTest (hlow : LowSlots slots) : slotTest slots i = slots.getLsbD i := by
  by_cases hi : 32 ≤ i
  · rw [slotTest_high hi, hlow i hi]
  have hmask : slots &&& ((1 : BitVec 32) <<< i).signExtend 64 =
      slots &&& (1 : SlotMask) <<< i := by
    refine eq_of_getLsbD_eq fun j hj => ?_
    rw [getLsbD_and, getLsbD_and, (isFlag_one_shiftLeft i).getLsbD]
    by_cases hj32 : 32 ≤ j
    · rw [hlow j hj32, Bool.false_and, Bool.false_and]
    have hbit : ((1 : BitVec 32) <<< i).getLsbD j = decide (i = j) := by
      rw [show (1 : BitVec 32) <<< i = .twoPow 32 i from (twoPow_eq 32 i).symm,
        getLsbD_twoPow, decide_eq_true (by omega), Bool.true_and]
    rw [getLsbD_signExtend, if_pos (by omega), hbit, decide_eq_true hj,
      decide_eq_true (show i < 64 by omega), Bool.true_and]
  rw [Rhype.slotTest, hmask, Bool.eq_iff_iff, bne_iff_ne]
  exact (isFlag_one_shiftLeft i).and_ne_zero_iff

end

/-! ### The sets -/

/-- The owners of the slots of processor `p` are the cpus that have them in their current set, the
used slots are those with an owner, and the locked slots are those that a cpu requires; two cpus
require no slot in common, and a cpu has the slots that it requires. -/
structure SlotSets (s : Scheduler) (p : Nat) : Prop where
  consistent : Consistent s p
  used : ∀ i < numSchedSlots,
    (s.perCpu p).usedSlots.getLsbD i = true ↔ ∃ c, (s.perCpu p).owners i = some c
  locked : ∀ i < numSchedSlots, (s.perCpu p).lockedSlots.getLsbD i = true ↔
    ∃ c, (s.cpu c).logicalCpuNum = p ∧ (s.cpu c).required.getLsbD i = true
  disjoint : ∀ i < numSchedSlots, ∀ c d, (s.cpu c).logicalCpuNum = p →
    (s.cpu d).logicalCpuNum = p → (s.cpu c).required.getLsbD i = true →
    (s.cpu d).required.getLsbD i = true → c = d
  required : ∀ i < numSchedSlots, ∀ c, (s.cpu c).logicalCpuNum = p →
    (s.cpu c).required.getLsbD i = true → (s.cpu c).currSet.getLsbD i = true

/-- None of the slots from 32 on has an owner. -/
def LowOwners (s : Scheduler) (p : Nat) : Prop :=
  ∀ i, 32 ≤ i → i < numSchedSlots → (s.perCpu p).owners i = none

/-- The schedule of processor `p` before the first call. -/
structure EmptySchedule (s : Scheduler) (p : Nat) : Prop where
  perCpu : (s.perCpu p).usedSlots = 0 ∧ (s.perCpu p).lockedSlots = 0 ∧
    ∀ i, (s.perCpu p).owners i = none
  cpu : ∀ c, (s.cpu c).logicalCpuNum = p → (s.cpu c).currSet = 0 ∧ (s.cpu c).required = 0

theorem EmptySchedule.slotSets {s : Scheduler} {p : Nat} (hs : EmptySchedule s p) :
    SlotSets s p := by
  obtain ⟨⟨hused, hlocked, howners⟩, hcpu⟩ := hs
  refine ⟨⟨fun i c howner => ?_, fun i _ c hc => ?_⟩, fun i _ => ?_, fun i _ => ?_,
    fun i _ c d hc _ hreq => ?_, fun i _ c hc hreq => ?_⟩
  · rw [howners] at howner
    cases howner
  · rw [howners, (hcpu c hc).1]
    simp
  · rw [hused, howners]
    simp
  · rw [hlocked]
    refine iff_of_false (by simp) ?_
    rintro ⟨c, hc, hreq⟩
    rw [(hcpu c hc).2] at hreq
    simp at hreq
  all_goals
    rw [(hcpu c hc).2] at hreq
    simp at hreq

/-! ### One call -/

/-- The rotation that the call chooses: the first one that fits next to the used slots of the
others, and when there is none, the first one that fits next to their locked ones. -/
def FirstFit (s : Scheduler) (c : CpuId) (p : Nat) (required : SlotMask) (r : Nat) : Prop :=
  let usedByOthers := (s.perCpu p).usedSlots &&& ~~~(s.cpu c).currSet
  let lockedByOthers := (s.perCpu p).lockedSlots &&& ~~~(s.cpu c).currSet
  let first (fixed : SlotMask) := r < numSchedSlots ∧ required.rotateLeft r &&& fixed = 0 ∧
    ∀ j < r, required.rotateLeft j &&& fixed ≠ 0
  first usedByOthers ∨
    (∀ j < numSchedSlots, required.rotateLeft j &&& usedByOthers ≠ 0) ∧ first lockedByOthers

section

variable {s : Scheduler} {c d : CpuId} {p r j : Nat} {required desired m slots : SlotMask}

theorem matchSlot_eq_some_iff {fixed orig : SlotMask} : matchSlot fixed orig = some (r, m) ↔
    (r < numSchedSlots ∧ orig.rotateLeft r &&& fixed = 0 ∧
      ∀ j < r, orig.rotateLeft j &&& fixed ≠ 0) ∧ m = orig.rotateLeft r := by
  constructor
  · intro hx
    obtain ⟨hr, hm, hfix, hbefore⟩ := matchSlot_some hx
    exact ⟨⟨hr, hm ▸ hfix, hbefore⟩, hm⟩
  · rintro ⟨⟨hr, hfix, hbefore⟩, rfl⟩
    rcases hmatch : matchSlot fixed orig with _ | x
    · exact absurd hfix (matchSlot_none.1 hmatch r hr)
    obtain ⟨k, n⟩ := x
    obtain ⟨-, hn, hnfix, hnbefore⟩ := matchSlot_some hmatch
    rcases lt_trichotomy k r with hlt | rfl | hlt
    · exact absurd (hn ▸ hnfix) (hbefore k hlt)
    · rw [hn]
    · exact absurd hfix (hnbefore r hlt)

theorem chooseSlots_eq_some_iff : chooseSlots s c p required = some (r, m) ↔
    FirstFit s c p required r ∧ m = required.rotateLeft r := by
  unfold chooseSlots FirstFit
  dsimp only
  rw [← matchSlot_none, or_and_right, and_assoc (a := matchSlot _ _ = none),
    ← matchSlot_eq_some_iff, ← matchSlot_eq_some_iff]
  cases matchSlot ((s.perCpu p).usedSlots &&& ~~~(s.cpu c).currSet) required <;> simp

def lockedAfter (s : Scheduler) (c : CpuId) (p : Nat) (m : SlotMask) : SlotMask :=
  ((s.perCpu p).lockedSlots &&& ~~~((s.cpu c).currSet &&& (s.cpu c).required)) ||| m

/-- The state after a call that finds slots, where `m` and `des` are the slots it gives out. -/
structure SlotsGiven (s : Scheduler) (c : CpuId) (p : Nat) (m des : SlotMask) (t : Scheduler) :
    Prop where
  consistent : Consistent t p
  owners : ∀ j < numSchedSlots, (t.perCpu p).owners j =
    if slotTest des j then some c else if slotTest m j then some c
    else if slotTest (s.cpu c).currSet j then none else (s.perCpu p).owners j
  usedSlots : (t.perCpu p).usedSlots =
    ((s.perCpu p).usedSlots &&& ~~~(s.cpu c).currSet) ||| (des ||| m)
  lockedSlots : (t.perCpu p).lockedSlots = lockedAfter s c p m
  logicalCpuNum : ∀ d, (t.cpu d).logicalCpuNum = (s.cpu d).logicalCpuNum
  required : (t.cpu c).required = m
  others : ∀ d, d ≠ c → (t.cpu d).required = (s.cpu d).required

theorem Consistent.congr {t : Scheduler} (hs : Consistent s p)
    (hnum : ∀ c, (t.cpu c).logicalCpuNum = (s.cpu c).logicalCpuNum)
    (hset : ∀ c, (t.cpu c).currSet = (s.cpu c).currSet)
    (howners : (t.perCpu p).owners = (s.perCpu p).owners) : Consistent t p := by
  refine ⟨fun i c hown => ?_, fun i hi c hc => ?_⟩
  · rw [hnum]
    exact hs.here i c (howners ▸ hown)
  · rw [howners, hset]
    exact hs.iff i hi c (hnum c ▸ hc)

/-- The masks of the cpu and the sets of the processor are written. -/
def recorded (s : Scheduler) (c : CpuId) (p : Nat) (required desired locked used : SlotMask) :
    Scheduler :=
  (s.setCpu c { s.cpu c with required := required, desired := desired }).setPerCpu p
    { s.perCpu p with lockedSlots := locked, usedSlots := used }

/-- The slots that were given out are added to the used ones. -/
def addUsed (s : Scheduler) (p : Nat) (slots : SlotMask) : Scheduler :=
  s.setPerCpu p { s.perCpu p with usedSlots := (s.perCpu p).usedSlots ||| slots }

theorem addUsed_perCpu : (addUsed s p slots).perCpu p =
    { s.perCpu p with usedSlots := (s.perCpu p).usedSlots ||| slots } := update_self ..

theorem addUsed_cpu : (addUsed s p slots).cpu = s.cpu := rfl

section

variable {locked used : SlotMask}

theorem recorded_perCpu : (recorded s c p required desired locked used).perCpu p =
    { s.perCpu p with lockedSlots := locked, usedSlots := used } := update_self ..

theorem recorded_self : (recorded s c p required desired locked used).cpu c =
    { s.cpu c with required := required, desired := desired } := update_self ..

theorem recorded_of_ne (hd : d ≠ c) :
    (recorded s c p required desired locked used).cpu d = s.cpu d := update_of_ne hd ..

theorem recorded_logicalCpuNum (d : CpuId) :
    ((recorded s c p required desired locked used).cpu d).logicalCpuNum =
      (s.cpu d).logicalCpuNum := by
  by_cases hd : d = c
  · rw [hd, recorded_self]
  · rw [recorded_of_ne hd]

theorem Consistent.recorded (hs : Consistent s p) :
    Consistent (recorded s c p required desired locked used) p := by
  refine hs.congr recorded_logicalCpuNum (fun d => ?_) (by rw [recorded_perCpu])
  by_cases hd : d = c
  · rw [hd, recorded_self]
  · rw [recorded_of_ne hd]

end

theorem slotsGiven (hs : Consistent s p) (hc : (s.cpu c).logicalCpuNum = p)
    (hx : chooseSlots s c p required = some (r, m)) :
    SlotsGiven s c p m (rotateDesired desired r &&& ~~~lockedAfter s c p m)
      (lockedSetSchedParams s c p required desired).2 := by
  have hhere : ∀ {t : Scheduler}, (t.cpu c).logicalCpuNum = p →
      ∀ c', some c = some c' → (t.cpu c').logicalCpuNum = p := by
    rintro t ht c' ⟨⟩
    exact ht
  rw [lockedSetSchedParams, hx]
  dsimp only
  -- the cpu gives up its slots
  obtain ⟨hcons1, howners1⟩ : Consistent (setSlotOwners p (s.cpu c).currSet none s) p ∧ _ :=
    hs.setSlotOwners fun _ h => by cases h
  have hframe1 := SlotFrame.setSlotOwners p (s.cpu c).currSet none s
  generalize setSlotOwners p (s.cpu c).currSet none s = s1 at *
  have hc1 : (s1.cpu c).logicalCpuNum = p := (hframe1.logicalCpuNum c).trans hc
  -- it takes the slots that it requires
  obtain ⟨hcons2, howners2⟩ : Consistent (setSlotOwners p m (some c) s1) p ∧ _ :=
    hcons1.setSlotOwners (hhere hc1)
  have hframe2 := hframe1.trans (.setSlotOwners p m (some c) s1)
  generalize setSlotOwners p m (some c) s1 = s2 at *
  have hc2 : (s2.cpu c).logicalCpuNum = p := (hframe2.logicalCpuNum c).trans hc
  rw [hframe2.lockedSlots, hframe2.usedSlots, hframe2.required, ← lockedAfter]
  -- the masks are written
  generalize hdes : rotateDesired desired r &&& ~~~lockedAfter s c p m = des
  change SlotsGiven s c p m des (addUsed (setSlotOwners p des (some c)
    (recorded s2 c p m (rotateDesired desired r) (lockedAfter s c p m)
      ((s.perCpu p).usedSlots &&& ~~~(s.cpu c).currSet))) p (des ||| m))
  have hcons3 : Consistent (recorded s2 c p m (rotateDesired desired r) (lockedAfter s c p m)
    ((s.perCpu p).usedSlots &&& ~~~(s.cpu c).currSet)) p := hcons2.recorded
  -- it takes the slots that it would like to have
  obtain ⟨hcons4, howners4⟩ : Consistent (setSlotOwners p des (some c) _) p ∧ _ :=
    hcons3.setSlotOwners (hhere ((recorded_logicalCpuNum c).trans hc2))
  have hframe4 := SlotFrame.setSlotOwners p des (some c)
    (recorded s2 c p m (rotateDesired desired r) (lockedAfter s c p m)
      ((s.perCpu p).usedSlots &&& ~~~(s.cpu c).currSet))
  refine ⟨hcons4.congr (fun _ => rfl) (fun _ => rfl) (by rw [addUsed_perCpu]), fun j hj => ?_,
    ?_, ?_, fun d => ?_, ?_, fun d hd => ?_⟩
  · rw [addUsed_perCpu, howners4 j hj, recorded_perCpu, howners2 j hj, howners1 j hj]
  · rw [addUsed_perCpu, hframe4.usedSlots, recorded_perCpu]
  · rw [addUsed_perCpu, hframe4.lockedSlots, recorded_perCpu]
  · rw [addUsed_cpu, hframe4.logicalCpuNum, recorded_logicalCpuNum, hframe2.logicalCpuNum]
  · rw [addUsed_cpu, hframe4.required, recorded_self]
  · rw [addUsed_cpu, hframe4.required, recorded_of_ne hd, hframe2.required]

/-! ### What a call keeps -/

/-- The slots that the call gives out are below 32. -/
def GivesLow (s : Scheduler) (c : CpuId) (p : Nat) (required desired : SlotMask) : Prop :=
  ∀ r, FirstFit s c p required r →
    LowSlots (required.rotateLeft r) ∧ LowSlots (desired.rotateLeft r)

variable {des : SlotMask} {t : Scheduler}

theorem getLsbD_and_not {a b : SlotMask} (hj : j < numSchedSlots) :
    (a &&& ~~~b).getLsbD j = true ↔ a.getLsbD j = true ∧ ¬ b.getLsbD j = true := by
  rw [getLsbD_and, getLsbD_not, decide_eq_true (show j < 64 from hj),
    Bool.true_and, Bool.and_eq_true, Bool.not_eq_true', Bool.not_eq_true]

theorem getLsbD_or {a b : SlotMask} :
    (a ||| b).getLsbD j = true ↔ a.getLsbD j = true ∨ b.getLsbD j = true := by
  rw [BitVec.getLsbD_or, Bool.or_eq_true]

/-- A slot of the rotated mask is not locked for another cpu. -/
theorem SlotSets.not_required (hs : SlotSets s p) (hc : (s.cpu c).logicalCpuNum = p)
    (hd : (s.cpu d).logicalCpuNum = p) (hcd : d ≠ c) (hfit : FirstFit s c p required r)
    (hj : j < numSchedSlots) (hreq : (s.cpu d).required.getLsbD j = true) :
    ¬ (required.rotateLeft r).getLsbD j = true := by
  intro hbit
  have howner := (hs.consistent.iff j hj d hd).2 (hs.required j hj d hd hreq)
  have hset : ¬ (s.cpu c).currSet.getLsbD j = true := by
    rwa [← hs.consistent.iff j hj c hc, howner, Option.some.injEq]
  have hused := (hs.used j hj).2 ⟨d, howner⟩
  have hlocked := (hs.locked j hj).2 ⟨d, hd, hreq⟩
  have hclash : ∀ {taken : SlotMask}, taken.getLsbD j = true →
      required.rotateLeft r &&& (taken &&& ~~~(s.cpu c).currSet) ≠ 0 := by
    intro taken htaken hzero
    have hget := congrArg (fun x => getLsbD x j) hzero
    simp only [getLsbD_and (x := .rotateLeft _ _), hbit,
      (getLsbD_and_not hj).2 ⟨htaken, hset⟩] at hget
    simp at hget
  rcases hfit with ⟨-, hfix, -⟩ | ⟨-, -, hfix, -⟩
  · exact hclash hused hfix
  · exact hclash hlocked hfix

theorem LowOwners.currSet (hlow : LowOwners s p) (hs : Consistent s p)
    (hc : (s.cpu c).logicalCpuNum = p) : LowSlots (s.cpu c).currSet := by
  refine .of_lt fun i hi hlt => ?_
  rw [← hs.iff i hlt c hc, hlow i hi hlt]
  nofun

theorem SlotsGiven.lowOwners (ht : SlotsGiven s c p m des t) (hlow : LowOwners s p) :
    LowOwners t p := by
  intro i hi hlt
  rw [ht.owners i hlt, slotTest_high hi, slotTest_high hi, slotTest_high hi, hlow i hi hlt]
  rfl

/-- When the slots that it gives out are low, the call keeps the sets in step. -/
theorem SlotsGiven.slotSets (hs : SlotSets s p) (hlow : LowOwners s p)
    (hc : (s.cpu c).logicalCpuNum = p) (hfit : FirstFit s c p required r)
    (hm : m = required.rotateLeft r) (hdes : des = desired &&& ~~~lockedAfter s c p m)
    (hmlow : LowSlots m) (hdlow : LowSlots des) (ht : SlotsGiven s c p m des t) : SlotSets t p := by
  have howners : ∀ j < numSchedSlots, (t.perCpu p).owners j =
      if des.getLsbD j then some c else if m.getLsbD j then some c
      else if (s.cpu c).currSet.getLsbD j then none else (s.perCpu p).owners j := by
    intro j hj
    rw [ht.owners j hj, hdlow.slotTest, hmlow.slotTest, (hlow.currSet hs.consistent hc).slotTest]
  have hnotReq : ∀ {d : CpuId} {j : Nat}, (s.cpu d).logicalCpuNum = p → d ≠ c →
      j < numSchedSlots → (s.cpu d).required.getLsbD j = true → ¬ m.getLsbD j = true := by
    intro d j hd hdc hj hreq
    rw [hm]
    exact hs.not_required hc hd hdc hfit hj hreq
  have hlocked : ∀ j < numSchedSlots, (t.perCpu p).lockedSlots.getLsbD j = true ↔
      ∃ d, (t.cpu d).logicalCpuNum = p ∧ (t.cpu d).required.getLsbD j = true := by
    intro j hj
    rw [ht.lockedSlots, lockedAfter, getLsbD_or, getLsbD_and_not hj, getLsbD_and,
      Bool.and_eq_true, hs.locked j hj]
    constructor
    · rintro (⟨⟨d, hd, hreq⟩, hnot⟩ | hbit)
      · have hdc : d ≠ c := by
          rintro rfl
          exact hnot ⟨hs.required j hj d hd hreq, hreq⟩
        exact ⟨d, (ht.logicalCpuNum d).trans hd, by rwa [ht.others d hdc]⟩
      · exact ⟨c, (ht.logicalCpuNum c).trans hc, by rwa [ht.required]⟩
    · rintro ⟨d, hd, hreq⟩
      rw [ht.logicalCpuNum] at hd
      by_cases hdc : d = c
      · rw [hdc, ht.required] at hreq
        exact .inr hreq
      · rw [ht.others d hdc] at hreq
        refine .inl ⟨⟨d, hd, hreq⟩, fun hand => hdc ?_⟩
        exact hs.disjoint j hj d c hd hc hreq hand.2
  refine ⟨ht.consistent, fun j hj => ?_, hlocked, fun j hj d e hd he hreqd hreqe => ?_,
    fun j hj d hd hreq => ?_⟩
  · rw [ht.usedSlots, howners j hj, getLsbD_or, getLsbD_or, getLsbD_and_not hj, hs.used j hj]
    cases hdj : des.getLsbD j <;> cases hmj : m.getLsbD j <;>
      cases hcj : (s.cpu c).currSet.getLsbD j <;> simp
  · rw [ht.logicalCpuNum] at hd he
    by_cases hdc : d = c
    · by_cases hec : e = c
      · rw [hdc, hec]
      · rw [hdc, ht.required] at hreqd
        rw [ht.others e hec] at hreqe
        exact absurd hreqd (hnotReq he hec hj hreqe)
    rw [ht.others d hdc] at hreqd
    by_cases hec : e = c
    · rw [hec, ht.required] at hreqe
      exact absurd hreqe (hnotReq hd hdc hj hreqd)
    · rw [ht.others e hec] at hreqe
      exact hs.disjoint j hj d e hd he hreqd hreqe
  · have hlockj : (t.perCpu p).lockedSlots.getLsbD j = true := (hlocked j hj).2 ⟨d, hd, hreq⟩
    rw [← ht.consistent.iff j hj d hd, howners j hj]
    rw [ht.logicalCpuNum] at hd
    by_cases hdc : d = c
    · rw [hdc, ht.required] at hreq
      rw [hdc, hreq]
      simp
    -- the slot is locked for `d`, so it is not given to `c`
    rw [ht.others d hdc] at hreq
    have hset := hs.required j hj d hd hreq
    have howner := (hs.consistent.iff j hj d hd).2 hset
    have hnotDes : ¬ des.getLsbD j = true := by
      rw [hdes, getLsbD_and_not hj, ← ht.lockedSlots]
      exact fun hand => hand.2 hlockj
    have hnotSet : ¬ (s.cpu c).currSet.getLsbD j = true := by
      rwa [← hs.consistent.iff j hj c hc, howner, Option.some.injEq]
    rw [if_neg hnotDes, if_neg (hnotReq hd hdc hj hreq), if_neg hnotSet, howner]

/-- The sets are in step after the call only when the slots that it gives out are low. -/
theorem SlotsGiven.low_of_slotSets (ht : SlotsGiven s c p m des t) (hlow : LowOwners s p)
    (hsets : SlotSets t p) : LowSlots m ∧ LowSlots des := by
  have hused : LowSlots (t.perCpu p).usedSlots := by
    refine .of_lt fun i hi hlt => ?_
    rw [hsets.used i hlt, ht.lowOwners hlow i hi hlt]
    nofun
  rw [ht.usedSlots] at hused
  refine ⟨fun i hi => ?_, fun i hi => ?_⟩
  · have hbit := hused i hi
    rw [BitVec.getLsbD_or, BitVec.getLsbD_or, Bool.or_eq_false_iff, Bool.or_eq_false_iff] at hbit
    exact hbit.2.2
  · have hbit := hused i hi
    rw [BitVec.getLsbD_or, BitVec.getLsbD_or, Bool.or_eq_false_iff, Bool.or_eq_false_iff] at hbit
    exact hbit.2.1

theorem lockedAfter_low (hs : SlotSets s p) (hlow : LowOwners s p) (hm : LowSlots m) :
    LowSlots (lockedAfter s c p m) := by
  refine .of_lt fun i hi hlt => ?_
  rw [lockedAfter, getLsbD_or, getLsbD_and_not hlt, hs.locked i hlt, hm i hi]
  rintro (⟨⟨d, hd, hreq⟩, -⟩ | hbit)
  · have howner := (hs.consistent.iff i hlt d hd).2 (hs.required i hlt d hd hreq)
    rw [hlow i hi hlt] at howner
    cases howner
  · cases hbit

/-- **One call** keeps the sets in step exactly when it gives out low slots. -/
theorem lockedSetSchedParams_slotSets (hs : SlotSets s p) (hlow : LowOwners s p)
    (hc : (s.cpu c).logicalCpuNum = p) :
    LowOwners (lockedSetSchedParams s c p required desired).2 p ∧
      (∀ d, ((lockedSetSchedParams s c p required desired).2.cpu d).logicalCpuNum =
        (s.cpu d).logicalCpuNum) ∧
      (SlotSets (lockedSetSchedParams s c p required desired).2 p ↔
        GivesLow s c p required desired) := by
  rcases hchoose : chooseSlots s c p required with _ | x
  · rw [lockedSetSchedParams_none desired hchoose]
    refine ⟨hlow, fun _ => rfl, iff_of_true hs fun r hfit => ?_⟩
    rw [chooseSlots_eq_some_iff.2 ⟨hfit, rfl⟩] at hchoose
    cases hchoose
  obtain ⟨r, m⟩ := x
  have hgiven : SlotsGiven s c p m (rotateDesired desired r &&& _) _ :=
    slotsGiven hs.consistent hc hchoose
  obtain ⟨hfit, hm⟩ := chooseSlots_eq_some_iff.1 hchoose
  have hr := (chooseSlots_some hchoose).1
  rw [rotateDesired_eq hr] at hgiven
  refine ⟨hgiven.lowOwners hlow, hgiven.logicalCpuNum, fun hsets => ?_, fun hgives => ?_⟩
  · obtain ⟨hmlow, hdlow⟩ := hgiven.low_of_slotSets hlow hsets
    intro k hk
    -- there is one rotation only that the call can choose
    have hsame := chooseSlots_eq_some_iff.2 ⟨hk, rfl⟩
    rw [hchoose] at hsame
    obtain ⟨rfl, rfl⟩ := hsame
    refine ⟨hmlow, .of_lt fun i hi hlt hbit => ?_⟩
    have hdes := (getLsbD_and_not hlt).2 ⟨hbit, Bool.eq_false_iff.1
      (lockedAfter_low (c := c) hs hlow hmlow i hi)⟩
    rw [hdlow i hi] at hdes
    cases hdes
  · obtain ⟨hmlow, hdlow⟩ := hgives r hfit
    rw [← hm] at hmlow
    refine hgiven.slotSets hs hlow hc hfit hm rfl hmlow fun i hi => ?_
    rw [getLsbD_and, hdlow i hi, Bool.false_and]

end

/-! ### Sequences of calls -/

/-- A call of `locked_set_sched_params`. -/
structure SlotCall where
  pcpu : CpuId
  required : SlotMask
  desired : SlotMask

/-- The state after a sequence of calls on processor `p`. -/
def slotCalls (p : Nat) (s : Scheduler) (calls : List SlotCall) : Scheduler :=
  calls.foldl (fun s a => (lockedSetSchedParams s a.pcpu p a.required a.desired).2) s

theorem slotCalls_iff {p : Nat} : ∀ (calls : List SlotCall) {s : Scheduler}, SlotSets s p →
    LowOwners s p → (∀ a ∈ calls, (s.cpu a.pcpu).logicalCpuNum = p) →
    ((∀ before, before <+: calls → SlotSets (slotCalls p s before) p) ↔
      ∀ before a, before ++ [a] <+: calls →
        GivesLow (slotCalls p s before) a.pcpu p a.required a.desired)
  | [], s, hs, _, _ => by
    refine iff_of_true (fun before hbefore => ?_) fun before a hbefore => ?_
    · rwa [prefix_nil.1 hbefore]
    · exact absurd (prefix_nil.1 hbefore) (by simp)
  | b :: calls, s, hs, hlow, hhere => by
    obtain ⟨hlow', hnum, hstep⟩ : LowOwners (slotCalls p s [b]) p ∧ _ :=
      lockedSetSchedParams_slotSets hs hlow (hhere b mem_cons_self)
    have hhere' : ∀ a ∈ calls, ((slotCalls p s [b]).cpu a.pcpu).logicalCpuNum = p := fun a ha =>
      (hnum a.pcpu).trans (hhere a (mem_cons_of_mem b ha))
    constructor
    · intro hall
      have hsets : SlotSets (slotCalls p s [b]) p := hall [b] ⟨calls, rfl⟩
      have hrest := (slotCalls_iff calls hsets hlow' hhere').1 fun before hbefore =>
        hall (b :: before) (cons_prefix_cons.2 ⟨rfl, hbefore⟩)
      rintro (_ | ⟨x, before⟩) a hbefore
      · rw [(cons_prefix_cons.1 hbefore).1]
        exact hstep.1 hsets
      · obtain ⟨rfl, htail⟩ := cons_prefix_cons.1 hbefore
        exact hrest before a htail
    · intro hall
      have hsets : SlotSets (slotCalls p s [b]) p := hstep.2 (hall [] b ⟨calls, rfl⟩)
      have hrest := (slotCalls_iff calls hsets hlow' hhere').2 fun before a hbefore =>
        hall (b :: before) a (cons_prefix_cons.2 ⟨rfl, hbefore⟩)
      rintro (_ | ⟨x, before⟩) hbefore
      · exact hs
      · obtain ⟨rfl, htail⟩ := cons_prefix_cons.1 hbefore
        exact hrest before htail

/-- **The owners, the current sets, the used and the locked slots are in step** after every call of
a sequence exactly when no call of it gives out a slot from 32 on. -/
theorem slotSets_iff (s : Scheduler) (p : Nat) (calls : List SlotCall) (hs : EmptySchedule s p)
    (hhere : ∀ a ∈ calls, (s.cpu a.pcpu).logicalCpuNum = p) :
    (∀ before, before <+: calls → SlotSets (slotCalls p s before) p) ↔
      ∀ before a, before ++ [a] <+: calls →
        GivesLow (slotCalls p s before) a.pcpu p a.required a.desired :=
  slotCalls_iff calls hs.slotSets (fun i _ _ => hs.perCpu.2.2 i) hhere

/-- A processor whose cpus have no slots. -/
def noSlots : Scheduler where
  cpu := fun c => ⟨0, c, 0, 0, 0, 0, true⟩
  perCpu := fun _ => ⟨0, 0, fun _ => none, 0⟩
  os := fun o => ⟨BitVec.ofNat 64 (o + 1), fun i => if i = 0 then some o else none⟩
  osHash := fun _ => none

theorem emptySchedule_noSlots : EmptySchedule noSlots 0 :=
  ⟨⟨rfl, rfl, fun _ => rfl⟩, fun _ _ => ⟨rfl, rfl⟩⟩

/-- A cpu that asks for slot 32 gets slot 31; the set of used slots says 32. -/
theorem slotSets_highSlot :
    ¬ SlotSets (slotCalls 0 noSlots [⟨0, 0x100000000, 0⟩]) 0 ∧
    ((slotCalls 0 noSlots [⟨0, 0x100000000, 0⟩]).perCpu 0).usedSlots = 0x100000000 ∧
    ((slotCalls 0 noSlots [⟨0, 0x100000000, 0⟩]).perCpu 0).owners 32 = none ∧
    ((slotCalls 0 noSlots [⟨0, 0x100000000, 0⟩]).perCpu 0).owners 31 = some 0 := by
  have howner : ((slotCalls 0 noSlots [⟨0, 0x100000000, 0⟩]).perCpu 0).owners 32 = none := by
    decide +kernel
  have hused : ((slotCalls 0 noSlots [⟨0, 0x100000000, 0⟩]).perCpu 0).usedSlots = 0x100000000 := by
    decide +kernel
  refine ⟨fun hsets => ?_, hused, howner, by decide +kernel⟩
  have hbit := hsets.used 32 (by decide)
  rw [hused, howner] at hbit
  obtain ⟨_, hnone⟩ := hbit.1 (by decide)
  cases hnone

theorem lowSlots_of_lt {m : SlotMask} (hm : m.toNat < 2 ^ 32) : LowSlots m :=
  fun _ hi => Nat.testBit_lt_two_pow (hm.trans_le (Nat.pow_le_pow_right (by decide) hi))

theorem givesLow_of_choose {s : Scheduler} {c p r : Nat} {required desired m : SlotMask}
    (hx : chooseSlots s c p required = some (r, m)) (hm : m.toNat < 2 ^ 32)
    (hd : (desired.rotateLeft r).toNat < 2 ^ 32) : GivesLow s c p required desired := by
  intro k hk
  cases hx.symm.trans (chooseSlots_eq_some_iff.2 ⟨hk, rfl⟩)
  exact ⟨lowSlots_of_lt hm, lowSlots_of_lt hd⟩

/-- `slotSets_iff` for two cpus, the second of which asks for the slot of the first and gets the
next one. -/
theorem slotSets_iff_twoCalls : SlotSets (slotCalls 0 noSlots [⟨0, 1, 0⟩, ⟨1, 1, 2⟩]) 0 ∧
    ((slotCalls 0 noSlots [⟨0, 1, 0⟩, ⟨1, 1, 2⟩]).perCpu 0).owners 1 = some 1 := by
  refine ⟨(slotSets_iff noSlots 0 [⟨0, 1, 0⟩, ⟨1, 1, 2⟩] emptySchedule_noSlots fun _ _ => rfl).2
    (fun before a hcall => ?_) _ List.prefix_rfl, by decide +kernel⟩
  rcases before with _ | ⟨a1, before⟩
  · obtain ⟨rfl, -⟩ := List.cons_prefix_cons.1 hcall
    exact givesLow_of_choose (r := 0) (m := 1) (by decide +kernel) (by decide) (by decide)
  obtain ⟨rfl, hrest⟩ := List.cons_prefix_cons.1 hcall
  rcases before with _ | ⟨a2, before⟩
  · obtain ⟨rfl, -⟩ := List.cons_prefix_cons.1 hrest
    exact givesLow_of_choose (r := 1) (m := 2) (by decide +kernel) (by decide) (by decide)
  · simpa using (List.cons_prefix_cons.1 hrest).2

end Rhype
