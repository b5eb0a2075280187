import Rhype.Machine.Run
import Rhype.Xir.Basic

/-!
# Messages between partitions (`ipc.c`, `include/ipc.h`, `test/ipc.c`)

A partition has a queue of messages in its own memory.  The hypervisor puts the messages of the
senders in, one at a time under a lock, and raises an interrupt when the queue was empty.  The
partition takes the interrupt, empties the queue and ends the interrupt.

The two counters run freely, and the slot of a message is its number modulo the capacity.
-/

namespace Rhype

/-- `struct async_msg_s`. -/
structure AsyncMsg where
  amSource : Uval
  amData0 : Uval
  amData1 : Uval
  amData2 : Uval
  amData3 : Uval
  deriving DecidableEq, Repr

/-- `struct msg_queue`. -/
structure MsgQueue where
  head : Uval
  tail : Uval
  buffer : Nat → AsyncMsg

/-- `struct aipc` after `aipc_create`: it has at least one slot, and a source of the class
`XIRR_CLASS_AIPC`. -/
structure Aipc where
  buf : MsgQueue
  bufSize : Uval
  xirr : Xirr
  bufSize_pos : 0 < bufSize.toNat
  xirr_ne_zero : xirr ≠ 0

/-- Where `__ipc_send` puts a message: the slot and the next head, or nothing if the queue is full.
`headp` and `headInc` are the later reads of the head, for the slot and to count the message. -/
def ipcSlot {w : Nat} (bufSize head tail headp headInc : BitVec w) : Option (BitVec w × BitVec w) :=
  if tail + bufSize ≤ head then none else some (headp % bufSize, headInc + 1)

/-- `__ipc_send`. -/
def ipcSend (aipc : Aipc) (x : Xir) (msg : AsyncMsg) : Hv (Sval × Aipc × Xir) :=
  let mqp := aipc.buf
  match ipcSlot aipc.bufSize mqp.head mqp.tail mqp.head mqp.head with
  | none => .ok (hBusy, aipc, x)
  | some (slot, head) =>
    let mqp : MsgQueue := { mqp with
      buffer := Function.update mqp.buffer slot.toNat msg
      head := head }
    if mqp.head = mqp.tail + 1 then do
      let (ret, x) := xirInject x aipc.xirr
      hassert (0 ≤ ret)
      .ok (hSuccess, { aipc with buf := mqp }, x)
    else .ok (hSuccess, { aipc with buf := mqp }, x)

/-! ### The consumer -/

/-- Where the consumer is in `aipc_handler`. -/
inductive IpcPc
  /-- It waits for an interrupt. -/
  | idle
  /-- It compares the counters. -/
  | test
  /-- It copies the slot at `tail`. -/
  | copy
  /-- It increments `tail`, with the message that it copied. -/
  | advance (msg : AsyncMsg)
  /-- It has seen an empty queue, and ends the interrupt. -/
  | eoi
  deriving DecidableEq

/-- The queue, the interrupt source with its thread, the consumer, and the messages that were
accepted and consumed so far, oldest first. -/
structure IpcWorld where
  aipc : Aipc
  xir : Xir
  pc : IpcPc
  accepted : List AsyncMsg
  consumed : List AsyncMsg

/-- The consumer goes on by one step. -/
def IpcWorld.consume (s : IpcWorld) : IpcWorld :=
  let mq := s.aipc.buf
  match s.pc with
  | .idle =>
    let (xirr, x) := hXirr s.xir
    { s with xir := x, pc := if xirr = s.aipc.xirr then .test else .idle }
  | .test => { s with pc := if mq.tail < mq.head then .copy else .eoi }
  | .copy => { s with pc := .advance (mq.buffer (mq.tail % s.aipc.bufSize).toNat) }
  | .advance msg => { s with
      aipc := { s.aipc with buf := { mq with tail := mq.tail + 1 } }
      pc := .test
      consumed := s.consumed ++ [msg] }
  | .eoi => { s with xir := xirEoi s.xir, pc := .idle }

/-- What can happen. -/
inductive IpcAct
  /-- A sender calls. -/
  | send (msg : AsyncMsg)
  /-- Another source is put into the queue of the thread. -/
  | other (xirr : Xirr)
  /-- The consumer goes on. -/
  | consume
  /-- The consumer looks at the queue without an interrupt. -/
  | poll
  /-- The consumer stops looking, without ending an interrupt. -/
  | leave

def ipcStep (s : IpcWorld) : IpcAct → Hv IpcWorld
  | .send msg => do
    let (ret, aipc, x) ← ipcSend s.aipc s.xir msg
    .ok { s with
      aipc := aipc
      xir := x
      accepted := if ret = hSuccess then s.accepted ++ [msg] else s.accepted }
  | .other xirr =>
    .ok { s with xir := { s.xir with xirq := (xirAdd s.xir.xirq xirr).getD s.xir.xirq } }
  | .consume => .ok s.consume
  | .poll => .ok { s with pc := if s.pc = .idle then .test else s.pc }
  | .leave => .ok { s with pc := if s.pc = .eoi then .idle else s.pc }

end Rhype
