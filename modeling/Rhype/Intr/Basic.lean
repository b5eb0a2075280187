import Rhype.Gdt.Basic

/-!
# The saved state of an x86 thread (`x86/arch_os.c`, `x86/idt.c`, `x86/tss.c`, `x86/intr.c`)

When a partition is interrupted the processor saves its registers, and the hypervisor goes back to
it with the registers that it finds there then.  The selectors in `CS` and `SS` have the privilege
level in their two lowest bits: 0 for the hypervisor, 2 for the kernel of a partition and 3 for its
applications.  A partition says with `h_idt_entry` where its handlers are and with `h_sys_stack`
which stack they have.

The memory of the partition is a function of the virtual address, one word for each address.  The
table that the processor itself uses (`thread->idt`) is left out, since nothing here reads it.
-/

namespace Rhype.Intr

open Ia32

/-! ### Constants (`idt.h`, `regs.h`, `asm.h`) -/

def nrIdtEntries : Nat := 256
def nrInterruptHandlers : Nat := 32
def baseIrqVector : Word := 0x20
def baseHcallVector : Word := 0xF0
def hcallVector : Word := 0xF0
def hcallVectorIret : Word := 0xF1

def dfVector : Word := 8
def tsVector : Word := 10
def npVector : Word := 11
def ssVector : Word := 12
def gpVector : Word := 13
def pfVector : Word := 14
def acVector : Word := 17

def gateMask : BitVec 16 := 0x9fff
def taskGate : BitVec 16 := 0x8500
def intrGate : BitVec 16 := 0x8E00
def trapGate : BitVec 16 := 0x8F00

def eflagsTf : Word := 0x100
def eflagsIf : Word := 0x200
def eflagsIoplMask : Word := 0x3000

/-- `__GUEST_CS` and `__GUEST_DS`. -/
def guestCs : Word := 0x22
def guestDs : Word := 0x2a

/-- `RPL`. -/
def rpl (a : Word) : Word := a &&& 3

/-! ### The thread (`cpu_thread.h`, `mailbox.h`) -/

/-- `struct idt_descriptor`. -/
structure IdtDescriptor where
  offset : Word
  segment : BitVec 16
  flags : BitVec 16
  deriving DecidableEq, Repr

/-- The fields of `struct mailbox` that the delivery of interrupts uses.  The first one is `IF`. -/
structure Mailbox where
  intr : Word
  irqMasked : Word
  irqPending : Word
  deriving DecidableEq, Repr

/-- The fields of `struct cpu_thread` that the handlers use, `iopl` of its partition, and the memory
of the partition. -/
structure Thread where
  cs : Word
  ss : Word
  esp : Word
  eip : Word
  eflags : Word
  ss2 : BitVec 16
  esp2 : Word
  regCr2 : Word
  iopl : Word
  idtInfo : Fin nrIdtEntries → IdtDescriptor
  mbox : Option Mailbox
  lastirq : Word
  mem : Word → Word

/-! ### Setting up (`arch_os.c`, `idt.c`, `tss.c`) -/

/-- `arch_init_thread` with `idt_init`, for a thread that was cleared when it was allocated. -/
def archInitThread (iopl pc esp : Word) (mem : Word → Word) : Thread where
  cs := guestCs
  ss := guestDs
  esp := esp
  eip := pc
  eflags := iopl ||| eflagsIf
  ss2 := 0
  esp2 := 0
  regCr2 := 0
  iopl := iopl
  idtInfo := fun _ => ⟨0, 0, 0⟩
  mbox := none
  lastirq := 0
  mem := mem

variable (t : Thread)

/-- `get_idt_descriptor`. -/
def getIdtDescriptor (vector : Word) : Option IdtDescriptor :=
  if h : vector.toNat < nrIdtEntries then some (t.idtInfo ⟨vector.toNat, h⟩) else none

/-- The test of `h_idt_entry` and `h_sys_stack`: the segment is one that the partition may set. -/
def isClientSegment (idx : Nat) : Bool :=
  decide (Gdt.gdtEntryMin ≤ idx) && decide (idx < Gdt.gdtEntryCount)

/-- `h_idt_entry`. -/
def hIdtEntry (index word0 word1 : Word) : Sval × Thread :=
  if h : index.toNat < nrIdtEntries then
    let offset := (word1 &&& 0xffff0000) ||| (word0 &&& 0x0000ffff)
    let segment := (word0 >>> 16).setWidth 16
    let flags := (word1 &&& 0x0000ffff).setWidth 16
    if flags &&& gateMask ≠ taskGate ∧ flags &&& gateMask ≠ intrGate ∧
        flags &&& gateMask ≠ trapGate then (hParameter, t)
    else if !isClientSegment (segment >>> 3).toNat then (hParameter, t)
    else (hSuccess, { t with
      idtInfo := Function.update t.idtInfo ⟨index.toNat, h⟩ ⟨offset, segment, flags⟩ })
  else (hParameter, t)

/-- `h_sys_stack`. -/
def hSysStack (ss esp : Word) : Sval × Thread :=
  if !isClientSegment (ss >>> 3).toNat then (hParameter, t)
  else (hSuccess, { t with ss2 := ss.setWidth 16, esp2 := esp })

/-- `arch_validate`, before the hypervisor goes back to the thread. -/
def archValidate : Hv Unit := do
  hassert (t.cs &&& 3 ≠ 0)
  hassert (2 ≤ t.cs &&& 3)
  hassert (t.ss &&& 3 ≠ 0)
  hassert (2 ≤ t.ss &&& 3)
  hassert (t.eflags &&& eflagsIf ≠ 0)

/-! ### Exceptions of the partition (`intr.c`) -/

/-- `enable_intr`. -/
def enableIntr : Thread :=
  { t with mbox := t.mbox.map fun mbox => { mbox with intr := 1 } }

/-- `disable_intr`. -/
def disableIntr : Thread :=
  { t with mbox := t.mbox.map fun mbox => { mbox with intr := 0 } }

/-- `push`. -/
def push (val : Word) : Thread :=
  { t with esp := t.esp - 4, mem := Function.update t.mem (t.esp - 4) val }

/-- `page_fault`: it returns `true` when the partition has to handle the fault. -/
abbrev Handler := Thread → Hv (Bool × Thread)

/-- The stack of the partition has to be there.  Without a handler it is; otherwise it is not, and
the handler is `page_fault`. -/
def ensureStack (stack : Option Handler) (t : Thread) : Hv (Bool × Thread) :=
  match stack with
  | none => .ok (false, t)
  | some pageFault => do
    let user := decide (rpl t.ss = 3)
    let (forwarded, t) ← pageFault t
    if forwarded then do
      hassert (!user)
      .ok (true, t)
    else .ok (false, t)

/-- `pl_change_required`. -/
def plChangeRequired : Bool := decide (t.cs &&& 3 = 3)

/-- `push_exception_state`. -/
def pushExceptionState (stack : Option Handler) (t : Thread) (plChange : Bool) :
    Hv (Bool × Thread) := do
  let oldSs := t.ss
  let oldEsp := t.esp
  let t := if plChange then { t with ss := t.ss2.setWidth 32, esp := t.esp2 } else t
  let (failed, t) ← ensureStack stack t
  if failed then .ok (true, t)
  else do
    let t := if plChange then push (push t oldSs) oldEsp else t
    hassert (t.eflags &&& eflagsIoplMask = t.iopl)
    .ok (false, push (push (push t (t.eflags ||| eflagsIf)) t.cs) t.eip)

/-- `force_sync_exception`: it returns `true` when it failed. -/
def forceSyncException (stack : Option Handler) (t : Thread) (idt : IdtDescriptor) :
    Hv (Bool × Thread) := do
  let (failed, t) ← pushExceptionState stack t (plChangeRequired t)
  if failed then .ok (true, t)
  else
    let t := { t with
      cs := idt.segment.setWidth 32
      eip := idt.offset
      eflags := t.eflags &&& ~~~eflagsTf }
    .ok (false, if idt.flags &&& gateMask = intrGate then disableIntr t else t)

/-- `force_page_fault`. -/
def forcePageFault (stack : Option Handler) (t : Thread) (errorCode cr2 : Word) :
    Hv (Bool × Thread) :=
  match getIdtDescriptor t pfVector with
  | none => .ok (true, t)
  | some idt => do
    let (failed, t) ← forceSyncException stack t idt
    if failed then .ok (true, t)
    else .ok (false, { push t errorCode with regCr2 := cr2 })

end Rhype.Intr
