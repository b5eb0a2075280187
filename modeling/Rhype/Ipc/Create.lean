import Rhype.Ipc.Basic
import Rhype.Vm.Basic

/-!
# The queue of messages in the memory of its partition (`ipc.c`)

`aipc_create` makes a queue in a range of memory that a partition offers, and `__ipc_send` puts
messages there.  What they write is a list of stores, at addresses of the hypervisor.

The partition has the range mapped too, and can change the header of the queue whenever it likes:
each read of the header by `__ipc_send` has a value of its own.  On this build `uval` is a 32-bit
word.  Which interrupt source `xir_find` answers is left open.
-/

namespace Rhype.AipcCreate

open Ia32 Pgcache Vm

/-- A store of the hypervisor. -/
inductive Store
  /-- `memset(addr, 0, size)`. -/
  | clear (addr size : Word)
  /-- A word. -/
  | word (addr value : Word)
  deriving DecidableEq, Repr

def Store.length : Store → Nat
  | .clear _ size => size.toNat
  | .word _ _ => 4

def Store.addr : Store → Word
  | .clear addr _ => addr
  | .word addr _ => addr

/-- The store writes the byte. -/
def Store.Writes (s : Store) (a : Word) : Prop := ∃ k < s.length, a = s.addr + BitVec.ofNat 32 k

/-- `struct aipc`; `target` is the thread. -/
structure Aipc32 where
  buf : Word
  bufSize : Word
  xirr : Xirr
  target : Option Nat
  deriving DecidableEq

/-- `MAX_NUM_AIPC`. -/
def maxNumAipc : Nat := 16

/-- `AIPC_LOCAL`. -/
def aipcLocal : Word := 1

/-- `sizeof (struct msg_queue)`. -/
def msgQueueSize : Word := 12

/-- `sizeof (struct async_msg_s)`. -/
def asyncMsgSize : Word := 20

/-- `XIRR_CLASS_AIPC`. -/
def xirrClassAipc : Nat := 2

/-- What `aipc_create` reads and writes: the memory of the partition and of the hypervisor, the
queues of the partition, and `local_aipc_idx` of the threads. -/
structure AipcWorld where
  lmm : Pgcache.LogicalMap
  physPa : PgAlloc
  vm : HvVm
  aipc : Nat → Option Aipc32
  cleanup : Bool
  localAipcIdx : Nat → Nat

/-- The first free queue, from `i` on, with the rounds that are left. -/
def freeSlot (aipc : Nat → Option Aipc32) : Nat → Nat → Option Nat
  | 0, _ => none
  | n + 1, i => if (aipc i).isNone then some i else freeSlot aipc n (i + 1)

/-- The queue that was made, its place, and what was stored. -/
structure Created where
  slot : Nat
  queue : Aipc32
  stores : List Store

/-- `aipc_create`, called by `thread`, where `vector` is what `xir_find` answers. -/
def aipcCreate (s : AipcWorld) (thread : Nat) (vector : Sval) (lbase size flags : Word) :
    Hv (Sval × Option Created × AipcWorld) :=
  if (size ||| lbase) &&& (Pgcache.pgsize - 1) ≠ 0 then .ok (hInval, none, s)
  else if Vm.chunkSize < lbase + size then .ok (hParameter, none, s)
  else match freeSlot s.aipc maxNumAipc 0 with
  | none => .ok (hSuccess, none, s)
  | some i => do
    match ← hvMapLa s.lmm s.physPa s.vm lbase Pgcache.pgsize with
    | none => .ok (hParameter, none, s)
    | some (rbase, vm) => do
      let bufSize := (size - msgQueueSize) / asyncMsgSize
      hassert (vector ≠ -1)
      let queue : Aipc32 := {
        buf := rbase
        bufSize := bufSize
        xirr := xirrEncode vector.toNat xirrClassAipc
        target := if flags &&& aipcLocal ≠ 0 then some thread else none }
      let aipc := Function.update s.aipc i (some queue)
      let localAipcIdx :=
        if flags &&& aipcLocal ≠ 0 ∧ (aipc (s.localAipcIdx thread)).bind (·.target) ≠ some thread
        then Function.update s.localAipcIdx thread i else s.localAipcIdx
      .ok (vector, some ⟨i, queue, [.clear rbase size, .word rbase bufSize]⟩, { s with
        vm := vm
        aipc := aipc
        cleanup := true
        localAipcIdx := localAipcIdx })

/-- What `__ipc_send` reads in the header: both counters for the test, the head for the slot, and
the head again to count the message. -/
structure HeaderReads where
  head : Word
  tail : Word
  headp : Word
  headInc : Word

/-- `struct async_msg_s`: the sender and four words. -/
structure Msg32 where
  amSource : Word
  amuData : Fin 4 → Word

/-- `__ipc_send`: the answer, and what it stores. -/
def ipcSend (q : Aipc32) (r : HeaderReads) (m : Msg32) : Sval × List Store :=
  match ipcSlot q.bufSize r.head r.tail r.headp r.headInc with
  | none => (hBusy, [])
  | some (slot, head) =>
    let msg := q.buf + msgQueueSize + asyncMsgSize * slot
    (hSuccess, [.word msg m.amSource, .word (msg + 4) (m.amuData 0), .word (msg + 8) (m.amuData 1),
      .word (msg + 12) (m.amuData 2), .word (msg + 16) (m.amuData 3), .word (q.buf + 4) head])

end Rhype.AipcCreate
