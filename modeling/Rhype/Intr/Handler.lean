import Rhype.Intr.Basic

/-!
# Entries into the hypervisor (`x86/handler.c`, `x86/intr.c`, `x86/h_page_dir.c`)

A thread enters the hypervisor through an exception or a trap.  The hypervisor handles it or
forwards it to the partition, and may deliver an interrupt before it goes back to the thread.

How a page fault ends is an argument of an entry: the hypervisor repairs its own page table, or it
forwards the fault, for which the stack of the partition has to be there, which may fault again.
-/

namespace Rhype.Intr

open BitVec Ia32

/-! ### Page faults (`h_page_dir.c`) -/

/-- How a page fault ends. -/
inductive PageFault
  | repaired
  /-- It is forwarded, with an error code and an address. -/
  | forwarded (errorCode cr2 : Word)
  /-- It is forwarded, and the stack of the partition is not there. -/
  | stack (errorCode cr2 : Word) (fault : PageFault)

/-- `page_fault`. -/
def pageFault : PageFault → Handler
  | .repaired => fun t => do
    hassert (t.cs &&& 3 ≠ 0)
    .ok (false, t)
  | .forwarded errorCode cr2 => fun t => do
    hassert (t.cs &&& 3 ≠ 0)
    let (_, t) ← forcePageFault none t errorCode cr2
    .ok (true, t)
  | .stack errorCode cr2 fault => fun t => do
    hassert (t.cs &&& 3 ≠ 0)
    let (_, t) ← forcePageFault (some (pageFault fault)) t errorCode cr2
    .ok (true, t)

/-- The stack of the partition: it is there, or there is a page fault. -/
abbrev StackFault := Option PageFault

/-! ### Exceptions and traps (`handler.c`) -/

/-- `raise_exception`; nothing uses what it returns. -/
def raiseException (stack : StackFault) (t : Thread) (trapno : Word) : Hv Thread :=
  match getIdtDescriptor t trapno with
  | none => .ok t
  | some idt => do
    let (_, t) ← forceSyncException (stack.map pageFault) t idt
    .ok t

/-- `raise_fault`. -/
def raiseFault (stack : StackFault) (t : Thread) (trapno errorCode : Word) : Hv Thread :=
  match getIdtDescriptor t trapno with
  | none => .ok t
  | some idt => do
    let (failed, t) ← forceSyncException (stack.map pageFault) t idt
    .ok (if failed then t else push t errorCode)

variable (t : Thread)

/-- `exception`.  `toggled` is what `handle_partial_seg_fault` returns, and `fault` how the page
fault ends if it is one. -/
def exception (trapno errorCode : Word) (toggled : Bool) (fault : PageFault)
    (stack : StackFault) : Hv Thread :=
  if trapno = pfVector then do
    let (_, t) ← pageFault fault t
    .ok t
  else if trapno = gpVector then
    if toggled then .ok t else raiseFault stack t trapno errorCode
  else if trapno = dfVector ∨ trapno = tsVector ∨ trapno = npVector ∨ trapno = ssVector ∨
      trapno = acVector then raiseFault stack t trapno errorCode
  else raiseException stack t trapno

/-- `pop`. -/
def pop : Word × Thread := (t.mem t.esp, { t with esp := t.esp + 4 })

/-- `iret`, when the stack is there. -/
def popFrame : Thread :=
  let (eip, t) := pop t
  let t := { t with eip := eip }
  let (newCs, t) := pop t
  let (eflags, t) := pop t
  let eflags := eflags &&& ~~~eflagsIoplMask
  -- back to another privilege level
  let t := if rpl newCs ≠ rpl t.cs then
      let (tmpEsp, t) := pop t
      let (ss, t) := pop t
      { t with ss := ss, esp := tmpEsp }
    else t
  let t := { t with cs := newCs, eflags := eflags ||| t.iopl ||| eflagsIf }
  if eflags &&& eflagsIf ≠ 0 then enableIntr t else t

/-- `iret`; a callback changes page tables only. -/
def iret (stack : StackFault) (t : Thread) : Hv Thread := do
  let (failed, t) ← ensureStack (stack.map pageFault) t
  if failed then .ok t else .ok (popFrame t)

/-- The calls of a partition; those that leave what is modelled here are one. -/
inductive Hcall
  | idtEntry (index word0 word1 : Word)
  | sysStack (ss esp : Word)
  | other

/-- `hcall`. -/
def hcall : Hcall → Thread
  | .idtEntry index word0 word1 => (hIdtEntry t index word0 word1).2
  | .sysStack ss esp => (hSysStack t ss esp).2
  | .other => t

/-- `trap`. -/
def trap (trapno : Word) (call : Hcall) (stack : StackFault) : Hv Thread :=
  if baseHcallVector ≤ trapno ∧ rpl t.cs < 3 then
    if trapno = hcallVector then .ok (hcall t call)
    else if trapno = hcallVectorIret then iret stack t
    else .ok t
  else raiseException stack t trapno

/-! ### Interrupts (`intr.c`) -/

/-- `external_interrupt`: the next interrupt in turn. -/
def externalInterrupt : Option Nat :=
  match t.mbox with
  | none => none
  | some mbox =>
    if mbox.intr = 0 then none
    else
      let mask := mbox.irqPending &&& ~~~mbox.irqMasked
      if mask = 0 then none
      else ((List.range nrInterruptHandlers).map fun i =>
        (i + t.lastirq.toNat + 1) % nrInterruptHandlers).find? fun irq => mask.getLsbD irq

/-- `deliver_intr_exception`. -/
def deliverIntrException (stack : StackFault) (t : Thread) : Hv Thread :=
  match externalInterrupt t with
  | none => .ok t
  | some irq =>
    let t := { t with lastirq := BitVec.ofNat 32 irq }
    match getIdtDescriptor t (BitVec.ofNat 32 irq + baseIrqVector) with
    | none => .ok t
    | some idt => do
      let (failed, t) ← forceSyncException (stack.map pageFault) t idt
      if failed then .ok t
      else .ok { t with
        mbox := t.mbox.map fun mbox => { mbox with
          irqMasked := mbox.irqMasked ||| twoPow 32 irq
          irqPending := mbox.irqPending &&& ~~~twoPow 32 irq } }

/-- `check_intr_delivery`. -/
def checkIntrDelivery (stack : StackFault) (t : Thread) : Hv Thread :=
  match t.mbox with
  | none => .ok t
  | some mbox =>
    if mbox.irqPending &&& ~~~mbox.irqMasked ≠ 0 then deliverIntrException stack t else .ok t

/-! ### Sequences of entries -/

/-- What the partition leaves when it enters the hypervisor. -/
structure Guest where
  cs : Word
  ss : Word
  esp : Word
  eip : Word
  eflags : Word
  mbox : Option Mailbox
  mem : Word → Word

/-- What can happen to a thread. -/
inductive Event
  /-- The partition runs. -/
  | guest (g : Guest)
  | exception (trapno errorCode : Word) (toggled : Bool) (fault : PageFault) (stack : StackFault)
  | trap (trapno : Word) (call : Hcall) (stack : StackFault)
  /-- The hypervisor looks for interrupts before it goes back to the thread. -/
  | deliver (stack : StackFault)

/-- One event. -/
def step : Event → Hv Thread
  | .guest g => .ok { t with
      cs := g.cs, ss := g.ss, esp := g.esp, eip := g.eip, eflags := g.eflags
      mbox := g.mbox, mem := g.mem }
  | .exception trapno errorCode toggled fault stack =>
    exception t trapno errorCode toggled fault stack
  | .trap trapno call stack => trap t trapno call stack
  | .deliver stack => checkIntrDelivery stack t

end Rhype.Intr
