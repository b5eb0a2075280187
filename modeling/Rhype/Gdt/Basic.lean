import Rhype.Basic
import Rhype.Ia32.Segment
import Rhype.Machine.Run

/-!
# The global descriptor table of an x86 partition (`x86/gdt.c`, `x86/gdt.h`)

Every thread has a descriptor table of its own, of which the partition may set the entries from
`GDT_ENTRY_MIN` on through `h_gdt_entry`.  The hypervisor lives at the top of every address space,
from `HV_VBASE` on, and cuts the segments so that they end below it.

A segment over all 4 GB with a base other than zero cannot be cut at one end only: it is *partial*.
It covers either the addresses from its base up to the hypervisor or those from zero up to its
base, and the handler of general protection faults toggles between the two.

On this build `uval` is a 32-bit word, as `uval32` is.
-/

namespace Rhype.Gdt

open Function Ia32

/-- `LTEXT`, as `x86/Makefile.isa` sets it. -/
def ltext : Word := 0xFC100000

/-- `HV_VBASE`: the hypervisor has the addresses from here up to 4 GB. -/
def hvVbase : Word := ltext - 0x00100000

/-! ### Descriptors (`gdt.h`) -/

def gdtEntryCount : Nat := 32
def gdtEntryMin : Nat := 4

def segFlagsDplMask : Word := 0x0060
def segFlagsDplShift : Nat := 5
def segFlagsGBit : Word := 0x8000
def segFlagsPBit : Word := 0x0080
def segFlagsNonsysBit : Word := 0x0010
def segFlagsCodeBit : Word := 0x0008
def segFlagsEBit : Word := 0x0004

/-- `pack_descr`.  The limit of the descriptor is `size - 1`, modulo `2^20`. -/
def packDescr (flags base size : Word) : Descriptor where
  word0 := ((base &&& 0x0000ffff#32) <<< 16) ||| ((size - 1#32) &&& 0x0000ffff#32)
  word1 := (base &&& 0xff000000#32) ||| ((base &&& 0x00ff0000#32) >>> 16) |||
    ((size - 1#32) &&& 0x000f0000#32) ||| ((flags &&& 0xf0ff#32) <<< 8)

/-- What `unpack_descr_words` stores through its three pointers. -/
structure Unpacked where
  flags : Word
  base : Word
  size : Word
  deriving DecidableEq, Repr

def unpackDescrWords (word0 word1 : Word) : Unpacked where
  flags := (word1 >>> 8) &&& 0xf0ff#32
  base := (word1 &&& 0xff000000#32) ||| ((word1 <<< 16) &&& 0x00ff0000#32) |||
    ((word0 >>> 16) &&& 0x0000ffff#32)
  size := ((word1 &&& 0x000f0000#32) ||| (word0 &&& 0x0000ffff#32)) + 1#32

def unpackDescr (d : Descriptor) : Unpacked := unpackDescrWords d.word0 d.word1

/-! ### The thread -/

/-- `struct gdt_entry_info`. -/
structure EntryInfo where
  isPartial : Bool
  lastToggleEip : Word
  toggleCount : Word
  deriving DecidableEq, Repr

/-- The fields of `struct cpu_thread` that the code of `gdt.c` uses. -/
structure Thread where
  gdt : Fin gdtEntryCount → Descriptor
  gdtInfo : Fin gdtEntryCount → EntryInfo
  /-- `tss.eip`, `tss.srs.regs.fs` and `tss.srs.regs.gs`, as the last trap saved them. -/
  eip : Word
  fs : Word
  gs : Word

namespace Thread

def setGdt (t : Thread) (i : Fin gdtEntryCount) (d : Descriptor) : Thread :=
  { t with gdt := update t.gdt i d }

def setInfo (t : Thread) (i : Fin gdtEntryCount) (info : EntryInfo) : Thread :=
  { t with gdtInfo := update t.gdtInfo i info }

end Thread

/-- The selectors of `x86/asm.h`, shifted to indices of the table. -/
def hvCs : Fin gdtEntryCount := ⟨0x8 >>> 3, by decide⟩
def hvDs : Fin gdtEntryCount := ⟨0x10 >>> 3, by decide⟩
def tssSel : Fin gdtEntryCount := ⟨0x18 >>> 3, by decide⟩
def guestCs : Fin gdtEntryCount := ⟨0x22 >>> 3, by decide⟩
def guestDs : Fin gdtEntryCount := ⟨0x2a >>> 3, by decide⟩

/-- `gdt_init`, for a thread whose `tss` is at `tss`; `sizeof (thread->tss)` is 140. -/
def gdtInit (t : Thread) (tss : Word) : Thread :=
  { t with
    gdt := update (update (update (update (update
      (fun _ => ⟨0, 0⟩)
      hvCs (packDescr 0xc09a 0 0x100000))
      hvDs (packDescr 0xc092 0 0x100000))
      tssSel (packDescr 0x89 tss 140))
      guestCs (packDescr 0xc0da 0 0xfc000))
      guestDs (packDescr 0xc0d2 0 0xfc000)
    gdtInfo := fun _ => ⟨false, 0, 0⟩ }

/-! ### Setting an entry -/

/-- The test for a partial segment: user-mode data over all 4 GB, with a base other than zero. -/
def recognizedPartial (u : Unpacked) : Bool :=
  (u.base != 0) && decide (u.base ≤ hvVbase) && (u.size == 0x100000) &&
    (u.flags &&& (segFlagsPBit ||| segFlagsGBit ||| segFlagsNonsysBit ||| segFlagsCodeBit |||
      segFlagsEBit ||| segFlagsDplMask) ==
      (segFlagsPBit ||| segFlagsGBit ||| segFlagsNonsysBit ||| (3#32 <<< segFlagsDplShift)))

/-- The test for a data segment that expands down. -/
def refusedDown (flags : Word) : Bool :=
  flags &&& (segFlagsNonsysBit ||| segFlagsCodeBit ||| segFlagsEBit) ==
    (segFlagsNonsysBit ||| segFlagsEBit)

/-- "Force segment privilege level to at least 2." -/
def forceDpl (flags : Word) : Word :=
  if flags &&& segFlagsDplMask < 2#32 <<< segFlagsDplShift then
    (flags &&& ~~~segFlagsDplMask) ||| (2#32 <<< segFlagsDplShift)
  else flags

/-- `max_size`: the room between the base and the hypervisor, in units of the limit. -/
def maxSize (flags base : Word) : Word :=
  let room := if base > hvVbase then 0 else hvVbase - base
  if flags &&& segFlagsGBit ≠ 0 then room >>> 12 else room

/-- "Restrict segment range to exclude HV space." -/
def restrictSize (flags base size : Word) : Word :=
  if size > maxSize flags base then maxSize flags base else size

/-- `h_gdt_entry`. -/
def hGdtEntry (t : Thread) (index word0 word1 : Word) : Sval × Thread :=
  if h : index.toNat < gdtEntryMin ∨ index.toNat ≥ gdtEntryCount then (hParameter, t)
  else
    let i : Fin gdtEntryCount := ⟨index.toNat, by omega⟩
    if word0 = 0 ∧ word1 = 0 then
      (hSuccess, (t.setGdt i ⟨0, 0⟩).setInfo i { t.gdtInfo i with isPartial := false })
    else
      let u := unpackDescrWords word0 word1
      if recognizedPartial u then
        (hSuccess, (t.setGdt i (packDescr u.flags u.base ((hvVbase - u.base) >>> 12))).setInfo i
          ⟨true, 0, 0⟩)
      else if u.flags &&& segFlagsPBit ≠ 0 then
        if refusedDown u.flags then (hParameter, t)
        else
          let flags := forceDpl u.flags
          let size := restrictSize flags u.base u.size
          (hSuccess, (t.setGdt i (packDescr flags u.base size)).setInfo i
            { t.gdtInfo i with isPartial := false })
      else
        (hSuccess, (t.setGdt i (packDescr u.flags u.base u.size)).setInfo i
          { t.gdtInfo i with isPartial := false })

/-! ### The fault handler -/

/-- The bytes that are skipped in front of an instruction. -/
def isPrefixByte (b : BitVec 8) : Bool :=
  b == 0x66 || b == 0x67 || b == 0xF0 || b == 0xF2 || b == 0xF3

/-- The loop over at most `n` bytes of the faulting instruction, which looks for an `%fs` or `%gs`
override; `mem` is the memory as the faulting thread sees it. -/
def segOverride (mem : Word → BitVec 8) (t : Thread) : Nat → Word → Word
  | 0, _ => 0
  | n + 1, pc =>
    let b := mem pc
    if isPrefixByte b then segOverride mem t n (pc + 1)
    else if b = 0x64 then t.fs
    else if b = 0x65 then t.gs
    else 0

/-- The other half of a partial segment. -/
def toggled (d : Descriptor) : Descriptor :=
  let u := unpackDescr d
  if u.flags &&& segFlagsEBit = 0 then
    packDescr (u.flags ||| segFlagsEBit) u.base (0x100000#32 - (u.base >>> 12))
  else
    packDescr (u.flags &&& ~~~segFlagsEBit) u.base ((hvVbase - u.base) >>> 12)

/-- `handle_partial_seg_fault`. -/
def handlePartialSegFault (t : Thread) (mem : Word → BitVec 8) : Bool × Thread :=
  let seg := segOverride mem t 4 t.eip
  let idx := seg >>> 3
  if h : idx.toNat ≥ gdtEntryMin ∧ idx.toNat < gdtEntryCount then
    let i : Fin gdtEntryCount := ⟨idx.toNat, h.2⟩
    if seg &&& 0x4 = 0 ∧ (t.gdtInfo i).isPartial ∧ t.eip ≠ (t.gdtInfo i).lastToggleEip then
      (true, (t.setGdt i (toggled (t.gdt i))).setInfo i
        { t.gdtInfo i with lastToggleEip := t.eip, toggleCount := (t.gdtInfo i).toggleCount + 1 })
    else (false, t)
  else (false, t)

/-! ### The machine -/

/-- What a trap of the partition finds: the registers it saves, and the memory. -/
structure Trap where
  eip : Word
  fs : Word
  gs : Word
  mem : Word → BitVec 8

/-- A general protection fault: the trap saves the registers, and the handler runs. -/
def fault (t : Thread) (trap : Trap) : Thread :=
  (handlePartialSegFault { t with eip := trap.eip, fs := trap.fs, gs := trap.gs } trap.mem).2

/-- What a partition can do to its table. -/
inductive Op
  | entry (index word0 word1 : Word)
  | fault (trap : Trap)

def step (t : Thread) : Op → Hv Thread
  | .entry index word0 word1 => .ok (hGdtEntry t index word0 word1).2
  | .fault trap => .ok (fault t trap)

end Rhype.Gdt
