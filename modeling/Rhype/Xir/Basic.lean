import Rhype.Basic

/-!
# External interrupts of a partition (`xir.c`, `xir.h`, `h_xirr.c`, `h_eoi.c`)

An interrupt source has flags, and a thread a queue of the sources that it was told of.  A source
that is outstanding is not put into the queue again until the thread ends its interrupt.  The model
has one source and the queue of its thread; the ring of the queue is a list.
-/

namespace Rhype

/-- `xirr_t`. -/
abbrev Xirr := BitVec 32

/-- `xirr_encode`: 20 bits of the device, and 4 bits of the class above them. -/
def xirrEncode (devId cls : Nat) : Xirr :=
  (BitVec.ofNat 32 devId &&& (0xfffff : Xirr)) ||| ((BitVec.ofNat 32 cls &&& (0xf : Xirr)) <<< 20)

/-- `XIRR_DEVID_SZ`: one entry of the ring stays empty. -/
def xirrDevidSz : Nat := 0x100

def xirrDisabled : BitVec 32 := 1
def xirrPending : BitVec 32 := 2
def xirrOutstanding : BitVec 32 := 4

/-- `XH_DROP`. -/
def xhDrop : Int := -2

/-- `struct xh_data` of a source, and the queue of the thread in it. -/
structure Xir where
  xhFlags : BitVec 32
  /-- The handler is `__xir_raise`; otherwise there is none. -/
  xhHandler : Bool
  xirq : List Xirr

/-- `xir_add`; the slot that it returns is not used. -/
def xirAdd (xq : List Xirr) (xirr : Xirr) : Option (List Xirr) :=
  if xq.length + 1 < xirrDevidSz then some (xq ++ [xirr]) else none

/-- `__xir_enqueue`. -/
def xirEnqueue (x : Xir) (xirr : Xirr) : Int × Xir :=
  if x.xhFlags &&& xirrOutstanding ≠ 0 then (0, x)
  else
    let x := { x with xhFlags := (x.xhFlags ||| xirrOutstanding) &&& ~~~xirrPending }
    match xirAdd x.xirq xirr with
    | some xq => (0, { x with xirq := xq })
    | none => (-1, x)

/-- `xir_inject`. -/
def xirInject (x : Xir) (xirr : Xirr) : Int × Xir :=
  if x.xhFlags &&& xirrDisabled ≠ 0 then
    (xhDrop, { x with xhFlags := x.xhFlags ||| xirrPending })
  else if x.xhHandler then xirEnqueue x xirr
  else (xhDrop, x)

/-- `xir_eoi`. -/
def xirEoi (x : Xir) : Xir := { x with xhFlags := x.xhFlags &&& ~~~xirrOutstanding }

/-- `h_xirr`: the first source of the queue, or 0. -/
def hXirr (x : Xir) : Xirr × Xir :=
  match x.xirq with
  | [] => (0, x)
  | xirr :: xq => (xirr, { x with xirq := xq })

end Rhype
