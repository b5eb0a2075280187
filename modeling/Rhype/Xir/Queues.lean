import Rhype.Vio.Basic
import Rhype.Xir.Basic

/-!
# External interrupts: all the sources and threads (`xir.c`, `xir.h`, `h_xirr.c`, `h_eoi.c`)

A source belongs to a class and has a device id in it.  The data of a source says to which thread
its interrupts go, and every thread has a ring of numbers.  Interrupts of the hardware go to one
thread, and end when they are taken.

* The lock bit of a source is taken and released in each function, and is not part of the flags.
* The threads are a type `τ`; `osOf` is `thr->cpu->os`, and `eicDefault` is `eic_default_thread()`.
* `arch_xir_raise`, `arch_xir_eoi` and `run_partition` are not part of the model.
-/

namespace Rhype

open Function

def hPermission : Sval := -11

def xirrDataThr : BitVec 32 := 8

/-! ### Numbers (`xirr.h`) -/

/-- `XIRR_CLASS_MAX`. -/
def xirrClassMax : Nat := 15

instance : NeZero xirrClassMax := ⟨by decide⟩

instance : NeZero xirrDevidSz := ⟨by decide⟩

/-- `XIRR_CLASS_HWDEV`. -/
def xirrClassHwdev : Fin xirrClassMax := 0

/-- `xirr_class`. -/
def xirrClass (xirr : Xirr) : Nat := (xirr >>> 20 &&& 0xf).toNat

/-- A source of interrupts. -/
structure XirSource where
  cls : Fin xirrClassMax
  dev : Fin xirrDevidSz
  deriving DecidableEq

def XirSource.xirr (src : XirSource) : Xirr := xirrEncode src.dev src.cls

/-- The source with the number; bits that `xirr_class` and `xirr_dev_id` do not read may be set. -/
def xirrSource (xirr : Xirr) : Option XirSource :=
  if h : xirrClass xirr < xirrClassMax ∧ xirrXisr xirr < xirrDevidSz then
    some ⟨⟨_, h.1⟩, ⟨_, h.2⟩⟩
  else none

/-! ### The ring of a thread -/

/-- `struct xir_queue`. -/
structure XirQueue where
  xqHead : BitVec 16
  xqTail : BitVec 16
  xqList : Nat → Xirr
  head_lt : xqHead.toNat < xirrDevidSz
  tail_lt : xqTail.toNat < xirrDevidSz

namespace XirQueue

/-- The place after `i`. -/
def next (i : BitVec 16) : BitVec 16 := if xirrDevidSz ≤ i.toNat + 1 then 0 else i + 1

theorem next_lt {i : BitVec 16} (hi : i.toNat < xirrDevidSz) : (next i).toNat < xirrDevidSz := by
  unfold next xirrDevidSz at *
  split_ifs
  · decide
  · bv_omega

/-- `xirq_pop`, with nothing for an empty ring. -/
def pop (xq : XirQueue) : Option (Xirr × XirQueue) :=
  if xq.xqHead = xq.xqTail then none
  else some (xq.xqList xq.xqHead.toNat,
    { xq with xqHead := next xq.xqHead, head_lt := next_lt xq.head_lt })

/-- `xir_add`, with nothing for a full ring. -/
def add (xq : XirQueue) (xirr : Xirr) : Option (Nat × XirQueue) :=
  if next xq.xqTail ≠ xq.xqHead then
    some (xq.xqTail.toNat, { xq with
      xqList := update xq.xqList xq.xqTail.toNat xirr
      xqTail := next xq.xqTail
      tail_lt := next_lt xq.tail_lt })
  else none

end XirQueue

/-! ### Sources and threads -/

/-- The functions in `xh_handler`. -/
inductive XhHandler
  /-- `__xir_raise`: the interrupt goes to the thread in `xh_data`. -/
  | xirRaise
  /-- `openpic_intr_handler`: it goes to the default thread. -/
  | openpicIntr
  deriving DecidableEq

/-- `struct xh_data`. -/
structure XhData (τ : Type) where
  xhFlags : BitVec 32
  xhHandler : Option XhHandler
  xhData : Option τ

/-- `xirr_classes`, and the rings of the threads. -/
structure XirSys (τ : Type) where
  xcData : Fin xirrClassMax → Option (Fin xirrDevidSz → XhData τ)
  /-- The class has an `eoi_fn`; it is `openpic_eoi`. -/
  eoiFn : Fin xirrClassMax → Bool
  xirq : τ → XirQueue

namespace XirSys

variable {τ : Type} [DecidableEq τ]

/-- `&xirr_classes[class]`; class 15 is past the end of the array. -/
def classOf (xirr : Xirr) : Hv (Fin xirrClassMax) :=
  if h : xirrClass xirr < xirrClassMax then .ok ⟨_, h⟩ else .error .dangling

variable (s : XirSys τ)

/-- `xir_get_xh_data`, with the source. -/
def getXhData (xirr : Xirr) : Hv (Option (XirSource × XhData τ)) := do
  let c ← classOf xirr
  match s.xcData c with
  | none => .ok none
  | some xc =>
    .ok (if h : xirrXisr xirr < xirrDevidSz then some (⟨c, ⟨_, h⟩⟩, xc ⟨_, h⟩) else none)

/-- `xh_flags = flags`. -/
def setFlags (src : XirSource) (flags : BitVec 32) : XirSys τ :=
  { s with
    xcData := update s.xcData src.cls ((s.xcData src.cls).map fun xc =>
      update xc src.dev { xc src.dev with xhFlags := flags }) }

/-- `__xir_enqueue`. -/
def enqueue (src : XirSource) (flags : BitVec 32) (thr : Option τ) : Hv (Int × XirSys τ) :=
  if flags &&& xirrOutstanding ≠ 0 then .ok (0, s)
  else
    let s := s.setFlags src ((flags ||| xirrOutstanding) &&& ~~~xirrPending)
    do
      let thr ← nonNull thr
      match (s.xirq thr).add src.xirr with
      | some (slot, xq) => .ok (slot, { s with xirq := update s.xirq thr xq })
      | none => .ok (-1, s)

/-- `xir_inject`. -/
def inject (eicDefault : Option τ) (s : XirSys τ) (xirr : Xirr) : Hv (Int × XirSys τ) := do
  let (src, xd) ← nonNull (← s.getXhData xirr)
  if xd.xhFlags &&& xirrDisabled ≠ 0 then
    .ok (xhDrop, s.setFlags src (xd.xhFlags ||| xirrPending))
  else
    match xd.xhHandler with
    | none => .ok (xhDrop, s)
    | some .xirRaise => s.enqueue src xd.xhFlags xd.xhData
    | some .openpicIntr => do
      hassert eicDefault.isSome
      s.enqueue src xd.xhFlags eicDefault

/-- `xir_eoi`; `xirr_lock` checks the device id. -/
def eoi (xirr : Xirr) : Hv (XirSys τ) := do
  let c ← classOf xirr
  if h : xirrXisr xirr < xirrDevidSz then do
    let xc ← nonNull (s.xcData c)
    .ok (s.setFlags ⟨c, ⟨_, h⟩⟩ ((xc ⟨_, h⟩).xhFlags &&& ~~~xirrOutstanding))
  else .error .assertion

/-- `xir_get_thread`. -/
def getThread (xirr : Xirr) : Hv (Option τ) := do
  let found ← s.getXhData xirr
  .ok (found.bind fun x => if x.2.xhFlags &&& xirrDataThr ≠ 0 then x.2.xhData else none)

/-- `h_xirr`: the number, or 0. -/
def hXirr (thread : τ) : Hv (Xirr × XirSys τ) :=
  match (s.xirq thread).pop with
  | none => .ok (0, s)
  | some (xirr, xq) => do
    let s := { s with xirq := update s.xirq thread xq }
    let c ← classOf xirr
    if c = xirrClassHwdev then
      if s.eoiFn c then do
        let s ← s.eoi xirr
        .ok (xirr, s)
      else .error .null
    else .ok (xirr, s)

/-- `h_eoi`.  The operation of a class does not ask who the thread is. -/
def hEoi (osOf : τ → OsId) (s : XirSys τ) (thread : τ) (val : Xirr) : Hv (Sval × XirSys τ) := do
  let c ← classOf val
  let thr ← s.getThread val
  if s.eoiFn c then do
    let s ← s.eoi val
    .ok (hSuccess, s)
  else if thr.map osOf ≠ some (osOf thread) then .ok (hPermission, s)
  else do
    let s ← s.eoi val
    .ok (hSuccess, s)

end XirSys

end Rhype
