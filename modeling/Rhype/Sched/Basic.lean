import Rhype.Basic

/-!
# The scheduler (`sched.c`, `h_set_sched_params.c`)

The time of a processor is cut into 64 slots.  A cpu of a partition asks for slots with two masks,
one of slots that it requires and one of slots that it would like to have, and gets them rotated to
where they fit.  `sched_next_os` goes around the slots and picks the next one whose owner can run.

The masks are 64-bit words, but `set_slot_owners` tests them with `0x1 << i`, a shift of an `int`.
For a count from 32 on the shift instruction gives 0; the result is extended with its sign.
-/

namespace Rhype

open Function

/-- `slot_mask_t`. -/
abbrev SlotMask := BitVec 64

/-- A `struct cpu *`. -/
abbrev CpuId := Nat

/-- `NUM_SCHED_SLOTS`. -/
def numSchedSlots : Nat := 64

/-- `THIS_CPU`. -/
def thisCpu : Uval := 0xffff

/-- `H_SELF_LPID`. -/
def hSelfLpid : Uval := BitVec.allOnes 64

/-- `struct cpu`, with its `struct sched_poll_s`. -/
structure Cpu where
  logicalCpuNum : Nat
  os : OsId
  currSet : SlotMask
  required : SlotMask
  desired : SlotMask
  nextLpid : Uval
  runnable : Bool
  deriving DecidableEq

/-- `struct hype_scheduler`. -/
structure HypeScheduler where
  usedSlots : SlotMask
  lockedSlots : SlotMask
  owners : Nat → Option CpuId
  currSlot : Uval

/-- `struct os`, as far as the scheduler reads it. -/
structure SchedOs where
  poLpid : Uval
  cpu : Nat → Option CpuId

/-- The cpus, the schedule of each processor (`hype_per_cpu`), and the partitions with their
numbers (`os_hash`). -/
structure Scheduler where
  cpu : CpuId → Cpu
  perCpu : Nat → HypeScheduler
  os : OsId → SchedOs
  osHash : Uval → Option OsId

namespace Scheduler

/-- `*pcpu = x`. -/
def setCpu (s : Scheduler) (c : CpuId) (x : Cpu) : Scheduler :=
  { s with cpu := update s.cpu c x }

/-- `hype_per_cpu[p].hpc_sched = x`. -/
def setPerCpu (s : Scheduler) (p : Nat) (x : HypeScheduler) : Scheduler :=
  { s with perCpu := update s.perCpu p x }

end Scheduler

/-! ### Slots -/

/-- The loop of `match_slot`, with the rounds that are left. -/
def matchLoop (fixed : SlotMask) : Nat → Nat → SlotMask → Option (Nat × SlotMask)
  | 0, _, _ => none
  | n + 1, i, bits =>
    if bits &&& ~~~fixed = bits then some (i, bits)
    else matchLoop fixed n (i + 1) ((bits >>> (numSchedSlots - 1)) ||| (bits <<< 1))

/-- `match_slot`: the rotation and the rotated mask; `none` is `H_UNAVAIL`, which as a `uval` is not
below `NUM_SCHED_SLOTS`. -/
def matchSlot (fixed orig : SlotMask) : Option (Nat × SlotMask) :=
  matchLoop fixed numSchedSlots 0 orig

variable (s : Scheduler)

/-- `os_yield_slot`. -/
def osYieldSlot (pcpu : CpuId) (slotId : Nat) : Scheduler :=
  let cpu := s.cpu pcpu
  let s := s.setCpu pcpu { cpu with currSet := cpu.currSet &&& ~~~((1 : SlotMask) <<< slotId) }
  let sched := s.perCpu cpu.logicalCpuNum
  s.setPerCpu cpu.logicalCpuNum { sched with owners := update sched.owners slotId none }

/-- `os_acquire_slot`. -/
def osAcquireSlot (p : Nat) (pcpu : CpuId) (slotId : Nat) : Scheduler :=
  let sched := s.perCpu p
  let s := s.setPerCpu p { sched with owners := update sched.owners slotId (some pcpu) }
  let cpu := s.cpu pcpu
  s.setCpu pcpu { cpu with currSet := cpu.currSet ||| (1 : SlotMask) <<< slotId }

/-- `slots & (0x1 << i)`. -/
def slotTest (slots : SlotMask) (i : Nat) : Bool :=
  slots &&& ((1 : BitVec 32) <<< i).signExtend 64 != 0

/-- A round of `set_slot_owners`. -/
def slotRound (p : Nat) (slots : SlotMask) (pcpu : Option CpuId) (s : Scheduler) (i : Nat) :
    Scheduler :=
  let owner := (s.perCpu p).owners i
  if slotTest slots i ∧ owner ≠ pcpu then
    let s := match owner with
      | some d => osYieldSlot s d i
      | none => s
    match pcpu with
      | some c => osAcquireSlot s p c i
      | none => s
  else s

/-- `set_slot_owners`. -/
def setSlotOwners (p : Nat) (slots : SlotMask) (pcpu : Option CpuId) (s : Scheduler) : Scheduler :=
  (List.range numSchedSlots).foldl (slotRound p slots pcpu) s

/-- The two attempts of `locked_set_sched_params`: next to all the slots of the others, and next to
their locked ones. -/
def chooseSlots (pcpu : CpuId) (p : Nat) (required : SlotMask) : Option (Nat × SlotMask) :=
  let used := (s.cpu pcpu).currSet
  let hpcs := s.perCpu p
  match matchSlot (hpcs.usedSlots &&& ~~~used) required with
  | some r => some r
  | none => matchSlot (hpcs.lockedSlots &&& ~~~used) required

/-- `desired`, rotated.  For a rotation of 0 the first shift is by the width of the word, for which
the instruction gives 0. -/
def rotateDesired (desired : SlotMask) (rotation : Nat) : SlotMask :=
  (desired >>> (numSchedSlots - rotation)) ||| (desired <<< rotation)

/-- `locked_set_sched_params`. -/
def lockedSetSchedParams (pcpu : CpuId) (p : Nat) (required desired : SlotMask) :
    Sval × Scheduler :=
  let used := (s.cpu pcpu).currSet
  match chooseSlots s pcpu p required with
  | none => (numSchedSlots, s)
  | some (rotation, required) =>
    -- give up what we already have first
    let s := setSlotOwners p used none s
    let s := setSlotOwners p required (some pcpu) s
    let desired := rotateDesired desired rotation
    let hpcs := s.perCpu p
    let cpu := s.cpu pcpu
    let locked := hpcs.lockedSlots &&& ~~~(used &&& cpu.required)
    let usedSlots := hpcs.usedSlots &&& ~~~used
    let s := s.setCpu pcpu { cpu with required := required, desired := desired }
    let locked := locked ||| required
    let s := s.setPerCpu p { hpcs with lockedSlots := locked, usedSlots := usedSlots }
    let desired := desired &&& ~~~locked
    let s := setSlotOwners p desired (some pcpu) s
    let hpcs := s.perCpu p
    let s := s.setPerCpu p { hpcs with usedSlots := hpcs.usedSlots ||| (desired ||| required) }
    (hSuccess, s)

/-! ### The hypercall -/

/-- `os_lookup`, in a call of a thread of the cpu `cur`. -/
def osLookup (cur : CpuId) (lpid : Uval) : Option OsId :=
  if lpid = hSelfLpid then some (s.cpu cur).os else s.osHash lpid

/-- `os->cpu[i]`. -/
def SchedOs.cpuAt (os : SchedOs) (maxCpu i : Nat) : Hv (Option CpuId) :=
  if i < maxCpu then .ok (os.cpu i) else .error (.bounds .cpu i)

/-- The cpu that `h_set_sched_params` is about, and its processor; `none` is `H_Parameter`.
`MAX_CPU` itself passes the check. -/
def schedTarget (maxCpu : Nat) (s : Scheduler) (cur : CpuId) (lpid physCpuNum : Uval) :
    Hv (Option (CpuId × Nat)) :=
  match osLookup s cur lpid with
  | none => .ok none
  | some o =>
    if maxCpu < physCpuNum.toNat ∧ physCpuNum ≠ thisCpu then .ok none
    else do
      let p := if physCpuNum = thisCpu then (s.cpu cur).logicalCpuNum else physCpuNum.toNat
      match ← (s.os o).cpuAt maxCpu p with
      | none => .ok none
      | some c => .ok (some (c, p))

/-- `h_set_sched_params`: the return value, the registers and the state. -/
def hSetSchedParams (maxCpu : Nat) (s : Scheduler) (cur : CpuId)
    (lpid physCpuNum required desired : Uval) : Hv (Sval × List SlotMask × Scheduler) := do
  match ← schedTarget maxCpu s cur lpid physCpuNum with
  | none => .ok (hParameter, [], s)
  | some (c, p) =>
    let (err, s) := lockedSetSchedParams s c p required desired
    .ok (err, [(s.perCpu p).lockedSlots, (s.perCpu p).usedSlots, (s.cpu c).required], s)

/-! ### The next cpu -/

/-- The loop of `sched_next_os`: the slot and its owner at the end, with the rounds that are
left. -/
def nextLoop (s : Scheduler) (owners : Nat → Option CpuId) :
    Nat → Nat → Option CpuId → Nat × Option CpuId
  | 0, slot, next => (slot, next)
  | n + 1, slot, _ =>
    let slot := (slot + 1) % numSchedSlots
    match owners slot with
    | none => nextLoop s owners n slot none
    | some c => if (s.cpu c).runnable then (slot, some c) else nextLoop s owners n slot (some c)

/-- The partition of a directed yield. -/
def directedYield (cur : CpuId) : Option OsId :=
  let cpu := s.cpu cur
  if cpu.nextLpid ≠ (s.os cpu.os).poLpid ∧ cpu.nextLpid ≠ 0 then osLookup s cur cpu.nextLpid
  else none

/-- `sched_next_os`. -/
def schedNextOs (cur : CpuId) : Option CpuId × Scheduler :=
  let p := (s.cpu cur).logicalCpuNum
  let sched := s.perCpu p
  let slot := sched.currSlot.toNat % numSchedSlots
  match directedYield s cur with
  | some o => ((s.os o).cpu p, s)
  | none =>
    match nextLoop s sched.owners numSchedSlots slot none with
    | (_, none) => (some cur, s)
    | (slot, some c) =>
      if (s.cpu c).runnable then
        (some c, s.setPerCpu p { sched with currSlot := BitVec.ofNat 64 slot })
      else (some cur, s)

end Rhype
