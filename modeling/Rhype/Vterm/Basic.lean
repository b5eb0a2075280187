import Rhype.Vio.Basic

/-!
# Virtual terminals (`vterm.c`)

A terminal is a server or a client.  A server has two queues of characters in a page of its own, and
is paired with a client, whose queues are then those of the server the other way round.  The clients
without a partner are on the list `vt_unpaired`.

A `struct vt *` is a number that is never given twice, and the page of a server has the number of
the server.  Memory for a new terminal is always available.  The interrupts are not part of the
model; neither are the channels of the console (`vtty.c`), whose numbers are below the devices'.
-/

namespace Rhype

open Function

/-! ### Queues -/

/-- `struct vt_fifo`. -/
structure VtFifo where
  vtfR : BitVec 16
  vtfW : BitVec 16
  vtfSz : BitVec 16
  vtfReap : Bool
  vtfFull : Bool
  vtfB : Nat → BitVec 8

/-- A queue of a new page: what is left of half of it. -/
def newFifo : VtFifo where
  vtfR := 0
  vtfW := 0
  vtfSz := 2036
  vtfReap := false
  vtfFull := false
  vtfB := fun _ => 0

def VtFifo.reset (f : VtFifo) : VtFifo := { f with vtfR := 0, vtfW := 0 }

/-- One round of the loop of `vtf_write`. -/
def VtFifo.put (f : VtFifo) (b : BitVec 8) : VtFifo :=
  { f with
    vtfB := update f.vtfB f.vtfW.toNat b
    vtfW := (f.vtfW + 1) % f.vtfSz }

/-- `vtf_write`: the number of characters that were written. -/
def vtfWrite (f : VtFifo) (c : Uval) (buf : Nat → BitVec 8) : Uval × VtFifo :=
  if f.vtfReap then (0, f)
  else
    let r : Uval := f.vtfR.setWidth 64
    let w : Uval := f.vtfW.setWidth 64
    let sz := (if w < r then r - w else f.vtfSz.setWidth 64 - w + r) - 1
    if c ≤ sz then
      let f := (List.range c.toNat).foldl (fun f i => f.put (buf i)) f
      (c, { f with vtfFull := false })
    else (0, { f with vtfFull := true })

/-- The loop of `vtf_read`. -/
def vtfReadLoop : Nat → VtFifo → List (BitVec 8) × VtFifo
  | 0, f => ([], f)
  | n + 1, f =>
    let b := f.vtfB f.vtfR.toNat
    let (bs, f) := vtfReadLoop n { f with vtfR := (f.vtfR + 1) % f.vtfSz }
    (b :: bs, f)

/-- `vtf_read`. -/
def vtfRead (f : VtFifo) : List (BitVec 8) × VtFifo :=
  let r : Uval := f.vtfR.setWidth 64
  let w : Uval := f.vtfW.setWidth 64
  let sz := if r = w then 0 else if r < w then w - r else f.vtfSz.setWidth 64 - r + w
  let sz := if sz < 16 then sz else 16
  if 0 < sz then
    let (bs, f) := vtfReadLoop sz.toNat f
    let f := if f.vtfR = f.vtfW then f.reset else f
    (bs, { f with vtfFull := false })
  else ([], f)

/-! ### Terminals -/

/-- A `struct vt *`. -/
abbrev VtId := Nat

/-- A `struct vt_fifo *`: the page, and which half of it. -/
abbrev FifoId := VtId × Bool

/-- `struct vt`. -/
structure Vt where
  /-- `vt_getos`: the owner of the resource of the device. -/
  vtOwner : Option OsId
  /-- The number of the device. -/
  vtInterrupt : Nat
  vtValid : Bool
  vtDmaSize : Uval
  vtPartner : Option VtId
  vtGet : Option FifoId
  vtPut : Option FifoId

/-- The terminals by the number of their device and by their address, the pages with the queues, the
cells of the list of clients without a partner, whose head is `none`, and the controlling partition.
`otherDevice` says which numbers of other classes have a device. -/
structure VtSys where
  dev : Nat → Option VtId
  otherDevice : BitVec 32 → Bool
  vt : VtId → Option Vt
  page : VtId → Option (Bool → VtFifo)
  unpaired : Links (Option VtId)
  ctrlOs : OsId
  next : Nat

namespace VtSys

def setVt (s : VtSys) (v : VtId) (vt : Vt) : VtSys :=
  { s with vt := update s.vt v (some vt) }

def fifo (s : VtSys) (f : Option FifoId) : Hv (FifoId × VtFifo) := do
  let f ← nonNull f
  let q ← live (s.page f.1)
  .ok (f, q f.2)

def setFifo (s : VtSys) (f : FifoId) (q : VtFifo) : VtSys :=
  { s with page := update s.page f.1 ((s.page f.1).map (update · f.2 q)) }

def resetFifo (s : VtSys) (f : Option FifoId) : Hv VtSys := do
  let (f, q) ← s.fifo f
  .ok (s.setFifo f q.reset)

/-- The number of a terminal is free again, and so is its memory. -/
def drop (s : VtSys) (v : VtId) (vt : Vt) : VtSys :=
  { s with dev := update s.dev vt.vtInterrupt none, vt := update s.vt v none }

end VtSys

/-- `vt_isserver`. -/
def vtIsserver (vt : Vt) : Bool := 0 < vt.vtDmaSize

variable (s : VtSys) (os : OsId)

/-- `vt_get`.  The class of the number is not checked, so the device may be of another type. -/
def vtGet (ua : Uval) : Hv (Option (VtId × Vt)) :=
  let liobn : BitVec 32 := ua.setWidth 32
  if viosGet (vioType liobn) = some .vterm then
    match xirGetDevice s.dev liobn with
    | none => .ok none
    | some v => do
      let vt ← live (s.vt v)
      .ok (some (v, vt))
  else if s.otherDevice liobn then .error .dangling
  else .ok none

/-! ### Release -/

/-- The first part of `vts_free_internal`: the partner loses its queues, and goes on the list of
clients without one. -/
def vtsUnpair : Option VtId → Hv VtSys
  | none => .ok s
  | some p => do
    let pvt ← live (s.vt p)
    let s := s.setVt p { pvt with vtPut := none, vtGet := none, vtPartner := none }
    .ok { s with unpaired := s.unpaired.insBefore (some p) none }

/-- `vts_free_internal`. -/
def vtsFreeInternal (v : VtId) : Hv VtSys := do
  let vt ← live (s.vt v)
  let s ← vtsUnpair s vt.vtPartner
  let vt ← live (s.vt v)
  let s := s.setVt v { vt with vtPartner := none }
  let s ← s.resetFifo vt.vtGet
  s.resetFifo vt.vtPut

/-- `vtf_free`: the page is kept as long as there is something for the server to read. -/
def vtfFree (f : Option FifoId) : Hv (Bool × VtSys) := do
  let (f, q) ← s.fifo f
  if q.vtfR ≠ q.vtfW then .ok (false, s)
  else .ok (true, { s with page := update s.page f.1 none })

/-- What `vt_release_internal` does with the partner of a client: the server keeps its queues. -/
def vtcUnpair : Option VtId → Hv VtSys
  | none => .ok s
  | some p => do
    let pvt ← live (s.vt p)
    .ok (s.setVt p { pvt with vtPartner := none })

/-- `vt_release_internal`.  Both results are not 0. -/
def vtReleaseInternal (v : VtId) : Hv (Uval × VtSys) := do
  let vt ← live (s.vt v)
  if vtIsserver vt then do
    let s ← vtsFreeInternal s v
    let vt ← live (s.vt v)
    let (freed, s) ← vtfFree s vt.vtGet
    if !freed then .ok (BitVec.ofInt 64 hBusy, s)
    else .ok (1, s.drop v vt)
  else do
    let s ← vtcUnpair s vt.vtPartner
    .ok (1, s.drop v vt)

/-- `vt_release`. -/
def vtRelease (liobn : BitVec 32) : Hv (Sval × VtSys) := do
  match ← vtGet s (liobn.setWidth 64) with
  | none => .ok (hParameter, s)
  | some (v, vt) =>
    if vt.vtOwner ≠ some os then .ok (hParameter, s)
    else do
      let (ret, s) ← vtReleaseInternal s v
      .ok (if ret = 0 then hBusy else hSuccess, s)

/-! ### Acquisition -/

/-- `vt_acquire_internal` and `vt_res_init`: a terminal of the partition, with the first number that
is free. -/
def vtAcquireInternal (dmaSize : Uval) (vtGet vtPut : Option FifoId) : Hv (VtId × VtSys) :=
  match (List.range 0x100).find? fun n => (s.dev n).isNone with
  | none => .error .assertion
  | some n =>
    let v := s.next
    let vt : Vt :=
      { vtOwner := some os, vtInterrupt := n, vtValid := true, vtDmaSize := dmaSize,
        vtPartner := none, vtGet := vtGet, vtPut := vtPut }
    .ok (v, { s.setVt v vt with
      dev := update s.dev n (some v)
      unpaired := s.unpaired.init (some v)
      next := v + 1 })

/-- `vts_acquire`. -/
def vtsAcquire : Hv (Sval × VtSys) := do
  let (v, s) ← vtAcquireInternal s os pgsize (some (s.next, false)) (some (s.next, true))
  .ok (hSuccess, { s with page := update s.page v (some fun _ => newFifo) })

/-- `vtc_acquire`. -/
def vtcAcquire : Hv (Sval × VtSys) := do
  let (v, s) ← vtAcquireInternal s os 0 none none
  .ok (hSuccess, { s with unpaired := s.unpaired.insBefore (some v) none })

/-- `vt_acquire`. -/
def vtAcquire (dmaRange : Uval) : Hv (Sval × VtSys) :=
  if dmaRange = 0 then vtcAcquire s os else vtsAcquire s os

/-! ### Calls -/

/-- `CHANNELS_PER_OS`. -/
def channelsPerOs : Uval := 8

/-- `vts_register`; `pos` is what `os_lookup` returns for the partition of the client. -/
def vtsRegister (ua : Uval) (pos : Option OsId) (pua : Uval) : Hv (Sval × VtSys) := do
  match ← vtGet s ua with
  | none => .ok (hParameter, s)
  | some (v, vt) =>
    if vt.vtOwner ≠ some os then .ok (hParameter, s)
    else match pos with
    | none => .ok (hParameter, s)
    | some pos =>
      if !vtIsserver vt then .ok (hParameter, s)
      else match ← vtGet s pua with
      | none => .ok (hParameter, s)
      | some (p, pvt) =>
        if pvt.vtOwner ≠ some pos ∨ vtIsserver pvt ∨ !vt.vtValid then .ok (hParameter, s)
        else if vt.vtPartner = none ∧ pvt.vtPartner = none then
          let s := s.setVt v { vt with vtPartner := some p }
          let s := s.setVt p
            { pvt with vtPartner := some v, vtPut := vt.vtGet, vtGet := vt.vtPut }
          .ok (hSuccess, { s with unpaired := s.unpaired.detach (some p) })
        else .ok (hParameter, s)

/-- `vts_free`. -/
def vtsFree (ua : Uval) : Hv (Sval × VtSys) := do
  if os ≠ s.ctrlOs then .ok (hParameter, s)
  else if ua < channelsPerOs then .ok (hParameter, s)
  else match ← vtGet s ua with
  | none => .ok (hParameter, s)
  | some (v, _) => do
    let s ← vtsFreeInternal s v
    .ok (hSuccess, s)

/-- `vt_char_put`, for the number of a device. -/
def vtCharPut (chan c : Uval) (buf : Nat → BitVec 8) : Hv (Sval × VtSys) := do
  match ← vtGet s chan with
  | none => .ok (hParameter, s)
  | some (_, vt) =>
    if vt.vtOwner ≠ some os then .ok (hParameter, s)
    else if vt.vtPartner = none then .ok (hClosed, s)
    else do
      let (f, q) ← s.fifo vt.vtPut
      let (sz, q) := vtfWrite q c buf
      .ok (if sz = 0 then hBusy else hSuccess, s.setFifo f q)

/-- `vt_char_get`, for the number of a device. -/
def vtCharGet (chan : Uval) : Hv (Sval × List (BitVec 8) × VtSys) := do
  match ← vtGet s chan with
  | none => .ok (hParameter, [], s)
  | some (_, vt) =>
    if vt.vtOwner ≠ some os then .ok (hParameter, [], s)
    else if vt.vtPartner = none then .ok (hClosed, [], s)
    else do
      let (f, q) ← s.fifo vt.vtGet
      let (bs, q) := vtfRead q
      .ok (hSuccess, bs, s.setFifo f q)

/-! ### Histories -/

/-- A call of a partition. -/
inductive VtCall
  | acquire (os : OsId) (dmaRange : Uval)
  | register (os : OsId) (ua : Uval) (pos : Option OsId) (pua : Uval)
  | free (os : OsId) (ua : Uval)
  | release (os : OsId) (liobn : BitVec 32)
  | put (os : OsId) (chan c : Uval) (buf : Nat → BitVec 8)
  | get (os : OsId) (chan : Uval)

/-- The terminals after a call. -/
def vtStep : VtCall → Hv VtSys
  | .acquire os dmaRange => do
    let (_, s) ← vtAcquire s os dmaRange
    .ok s
  | .register os ua pos pua => do
    let (_, s) ← vtsRegister s os ua pos pua
    .ok s
  | .free os ua => do
    let (_, s) ← vtsFree s os ua
    .ok s
  | .release os liobn => do
    let (_, s) ← vtRelease s os liobn
    .ok s
  | .put os chan c buf => do
    let (_, s) ← vtCharPut s os chan c buf
    .ok s
  | .get os chan => do
    let (_, _, s) ← vtCharGet s os chan
    .ok s

/-- No terminal, as after `vt_sys_init`. -/
def noTerminals (otherDevice : BitVec 32 → Bool) (ctrlOs : OsId) : VtSys where
  dev := fun _ => none
  otherDevice := otherDevice
  vt := fun _ => none
  page := fun _ => none
  unpaired := ⟨id, id⟩
  ctrlOs := ctrlOs
  next := 0

end Rhype
