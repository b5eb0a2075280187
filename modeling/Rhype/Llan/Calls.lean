import Rhype.Llan.Basic

/-!
# Logical LANs (`llan.c`): the calls

A partition registers its device with a page for the lists of free buffers, a queue for the received
frames and a page for the filter, adds buffers, and sends frames.  A call holds the lock of the
device; it does not wait for it, but fails when the device is locked.  A frame goes into a buffer of
the receiver, whose lock is not taken, and an entry of its queue tells about it.

A call returns the entries that it writes into the queues.  The interrupts are not part of the
model.
-/

namespace Rhype

open Function

/-! ### Constants -/

/-- `CACHE_LINE_SIZE`. -/
def cacheLineSize : Uval := 128

/-- `LLAN_BL_SIZE`. -/
def llanBlSize : Uval := pgsize

def llanBlRecvq : Uval := 0
def llanBlFilter : Uval := 1
def llanBlPoolStart : Uval := 2
def llanBlCounter : Uval := 511

/-- `LLAN_SEND_BD_NUM`. -/
def llanSendBdNum : Nat := 6

/-- `LL_MCAST_ENTRIES`. -/
def llMcastEntries : BitVec 16 := 255

def llMcastRecv : BitVec 8 := 1
def llMcastFilter : BitVec 8 := 1

def lmfModr : BitVec 64 := 1 <<< 19
def lmfModf : BitVec 64 := 1 <<< 18
def lmfModrAllow : BitVec 64 := 1 <<< 17
def lmfModfAllow : BitVec 64 := 1 <<< 16
def lmfModcMask : BitVec 64 := 3
def lmfModcAdd : BitVec 64 := 1
def lmfModcRemove : BitVec 64 := 2
def lmfModcClear : BitVec 64 := 3

/-- `bcast`. -/
def bcast : BitVec 64 := 0xffffffffffff

/-! ### The lock -/

/-- `lock_tryacquire`, when the device is not locked: the device is locked then. -/
def LlanDev.acquire (l : LlanDev) : LlanDev := { l with llLock := true }

variable (s : LlanSys) (os : OsId) (uaddr : Uval)

/-- `lock_release`. -/
def LlanSys.release (id : Nat) : LlanSys :=
  { s with llan := update s.llan id ((s.llan id).map fun l => { l with llLock := false }) }

/-! ### Registration -/

/-- `assert(p != NULL)`, and the use of `p`. -/
def assertSome {α : Type} : Option α → Hv α
  | some a => .ok a
  | none => .error .assertion

/-- Descriptor `i` of the buffer list. -/
def LlanDev.blist (l : LlanDev) (i : Uval) : Uval := l.llBlist + 8 * i

/-- `llan_bdesc`. -/
def llanBdesc (l : LlanDev) (sz : Uval) : Hv (Option Uval) :=
  if sz = 0 then .ok none
  else do
    hassert (sz &&& 0x3ff = 0)
    let i := (sz >>> 10) + (llanBlPoolStart - 1)
    .ok (if llanBlCounter ≤ i then none else some (l.blist i))

/-- The check of `bl` and of `fl` in `llan_register_locked`: a page that may be read and written. -/
def llanPage (td : TceData) (a : Uval) : Hv (Option Uval) :=
  if a ≠ alignDown a pgsize then .ok none
  else
    let pg := a >>> logPgsize
    if pg < td.tEntries then do
      let t ← td.get pg
      .ok (if t.tceRead && t.tceWrite then some t.pageAddr else none)
    else .ok none

/-- The descriptor of pool `pg`. -/
def llanPoolBdesc (pg : BitVec 32) (psz : BitVec 24) : TceBdesc :=
  (((⟨0⟩ : TceBdesc).setCtrlV true).setLen psz).setAddr pg

/-- The loop over the pools in `llan_register_locked`. -/
def llanInitPools (mem : Memory) (l : LlanDev) : Hv Memory :=
  [((0 : BitVec 32), (2048 : BitVec 24)), (1, 4096), (2, 10240)].foldlM
    (fun mem p => do
      let pool ← assertSome (← llanBdesc l (p.2.setWidth 64))
      .ok (mem.setDword pool (llanPoolBdesc p.1 p.2).lbdDword)) mem

/-- `llan_register_locked`.  What was written before a check fails stays. -/
def llanRegisterLocked (id : Nat) (l : LlanDev) (bl : Uval) (rq : BitVec 64)
    (fl : Uval) (mac : BitVec 64) : Hv (Sval × LlanSys) := do
  hassert l.llTceData.tTce.isSome
  match ← llanPage l.llTceData bl with
  | none => .ok (hParameter, s.setDev id l)
  | some pg =>
    let bd : TceBdesc := ⟨rq⟩
    hassert bd.lbdCtrlV
    let recvq ← tceBdXlate l.llTceData bd
    let l := { l with llBlist := pg, llRecvq := recvq }
    if recvq = 0 then .ok (hParameter, s.setDev id l)
    else if bd.lbdLen % 16 ≠ 0 then .ok (hParameter, s.setDev id l)
    else do
      let l := { l with
        llRecvqEnd := (bd.lbdLen / 16).setWidth 16
        llRecvqToggle := 1
        llRecvqIdx := 0 }
      let s := { s with mem := s.mem.zero recvq (bd.lbdLen.setWidth 64) }
      match ← llanPage l.llTceData fl with
      | none => .ok (hParameter, s.setDev id l)
      | some pg =>
        let l := { l with llMfilter := pg, llMac := mac }
        let filter := (bd.setAddr (fl.setWidth 32)).setLen (255 * 8)
        let mem := s.mem.zero l.llBlist llanBlSize
        let mem := mem.setDword (l.blist llanBlRecvq) bd.lbdDword
        let mem := mem.setDword (l.blist llanBlFilter) filter.lbdDword
        let mem ← llanInitPools mem l
        let l := { l with llBlistPool := fun _ _ => ⟨0⟩ }
        let (i, s) ← llanMacAdd ({ s with mem := mem }.setDev id l) id mac
        let i ← assertSome i
        .ok (hSuccess, s.setDev id { l with llMacIdx := i, llRegistered := true })

/-- `llan_register`.  A device that is registered already stays locked. -/
def llanRegister (bl : Uval) (rq : BitVec 64) (fl : Uval)
    (mac : BitVec 64) : Hv (Sval × LlanSys) := do
  match ← llanGet s uaddr with
  | none => .ok (hParameter, s)
  | some (id, l) =>
    if l.llOwner ≠ some os then .ok (hParameter, s)
    else if !l.llValid then .ok (hParameter, s)
    else if l.llLock then .ok (hParameter, s)
    else
      let s := s.setDev id l.acquire
      if l.llRegistered then .ok (hHardware, s)
      else do
        let (ret, s) ← llanRegisterLocked s id l.acquire bl rq fl mac
        .ok (ret, s.release id)

/-- `llan_free`. -/
def llanFree : Hv (Sval × LlanSys) := do
  match ← llanGet s uaddr with
  | none => .ok (hParameter, s)
  | some (id, l) =>
    hassert (l.llOwner = some os)
    if l.llLock then .ok (hHardware, s)
    else
      let s := s.setDev id l.acquire
      if l.llRegistered then do
        let s ← llanMacFree s l
        .ok (hSuccess, (s.setDev id { l.acquire with llRegistered := false }).release id)
      else .ok (hParameter, s.release id)

/-- `llan_release`.  A device that is locked is not freed, but goes away all the same. -/
def llanRelease (liobn : BitVec 32) : Hv (Sval × LlanSys) := do
  match ← llanGet s (liobn.setWidth 64) with
  | none => .ok (hParameter, s)
  | some (id, l) =>
    if l.llOwner ≠ some os then .ok (hParameter, s)
    else do
      let (_, s) ← llanFree s os (liobn.setWidth 64)
      .ok (hSuccess, { s with llan := update s.llan id none })

/-- `llan_change_mac`.  The index 0 fails the assertion about the result. -/
def llanChangeMac (mac : BitVec 64) : Hv (Sval × LlanSys) := do
  match ← llanGet s uaddr with
  | none => .ok (hParameter, s)
  | some (id, l) =>
    hassert (l.llOwner = some os)
    if l.llLock then .ok (hHardware, s)
    else
      let s := s.setDev id l.acquire
      if l.llRegistered then do
        let (i, s) ← llanMacChange s id l mac
        let i ← assertSome i
        hassert (0 < i.val)
        .ok (hSuccess, (s.setDev id { l.acquire with llMac := mac, llMacIdx := i }).release id)
      else .ok (hParameter, s.release id)

/-! ### The multicast filter -/

/-- The changes of `ll_mcast_state` in `llan_mcast_ctrl_locked`. -/
def llanMcastState (state : BitVec 8) (fl : BitVec 64) : BitVec 8 :=
  let state :=
    if fl &&& lmfModr ≠ 0 then
      if fl &&& lmfModrAllow ≠ 0 then state ||| llMcastRecv else state &&& ~~~llMcastRecv
    else state
  if fl &&& lmfModf ≠ 0 then
    if fl &&& lmfModfAllow ≠ 0 then state ||| llMcastFilter else state &&& ~~~llMcastFilter
  else state

/-- The `switch` of `llan_mcast_ctrl_locked`. -/
def llanMcastModify (mem : Memory) (l : LlanDev) (modc : BitVec 64) : Sval × LlanDev × Memory :=
  if modc = lmfModcAdd then
    if l.llMcastCount < llMcastEntries then
      (hSuccess, { l with llMcastCount := l.llMcastCount + 1 }, mem)
    else (hConstrained, l, mem)
  else if modc = lmfModcRemove then
    if 0 < l.llMcastCount then (hSuccess, { l with llMcastCount := l.llMcastCount - 1 }, mem)
    else (hNotFound, l, mem)
  else if modc = lmfModcClear then
    (hSuccess, { l with llMcastCount := 0 }, mem.zero l.llMfilter pgsize)
  else (hSuccess, l, mem)

/-- `*state_p`. -/
def LlanDev.mcastOut (l : LlanDev) : BitVec 64 :=
  l.llMcastCount.setWidth 64 |||
    (if l.llMcastState &&& llMcastRecv ≠ 0 then lmfModrAllow else 0) |||
    (if l.llMcastState &&& llMcastFilter ≠ 0 then lmfModfAllow else 0)

/-- `llan_mcast_ctrl_locked`: also `*state_p`, when it is set. -/
def llanMcastCtrlLocked (mem : Memory) (l : LlanDev) (fl : BitVec 64) :
    Sval × Option (BitVec 64) × LlanDev × Memory :=
  if fl &&& ~~~(lmfModr ||| lmfModrAllow ||| lmfModf ||| lmfModfAllow ||| lmfModcMask) ≠ 0 then
    (hParameter, none, l, mem)
  else
    let l := { l with llMcastState := llanMcastState l.llMcastState fl }
    let (ret, l, mem) := llanMcastModify mem l (fl &&& lmfModcMask)
    (ret, some l.mcastOut, l, mem)

/-- `llan_mcast_ctrl`. -/
def llanMcastCtrl (fl : BitVec 64) : Hv (Sval × Option (BitVec 64) × LlanSys) := do
  match ← llanGet s uaddr with
  | none => .ok (hParameter, none, s)
  | some (id, l) =>
    hassert (l.llOwner = some os)
    if l.llLock then .ok (hParameter, none, s)
    else
      let (ret, state, l, mem) := llanMcastCtrlLocked s.mem l.acquire fl
      .ok (ret, state, ({ s with mem := mem }.setDev id l).release id)

/-! ### Buffers -/

/-- `&ll_blist_pool[p]`. -/
def llanPool (p : BitVec 32) : Hv (Fin llanBlPools) :=
  if h : p.toNat < llanBlPools then .ok ⟨p.toNat, h⟩ else .error (.bounds .llanPool p.toNat)

/-- `ll_blist_pool[p][b] = bd`. -/
def LlanDev.setPool (l : LlanDev) (p : Fin llanBlPools) (b : Fin llanBlPoolNum) (bd : TceBdesc) :
    LlanDev :=
  { l with llBlistPool := update l.llBlistPool p (update (l.llBlistPool p) b bd) }

/-- `llan_add_buf`.  If the buffer is not translated the device stays locked. -/
def llanAddBuf (bd : TceBdesc) : Hv (Sval × LlanSys) := do
  hassert (1024 ≤ bd.lbdLen)
  match ← llanGet s uaddr with
  | none => .ok (hParameter, s)
  | some (id, l) =>
    hassert (l.llOwner = some os)
    if l.llLock then .ok (hHardware, s)
    else do
      let s := s.setDev id l.acquire
      hassert bd.lbdCtrlV
      let bdAddr ← tceBdXlate l.llTceData bd
      if bdAddr = 0 then .ok (hParameter, s)
      else do
        let pool ← assertSome (← llanBdesc l (bd.lbdLen.setWidth 64))
        let lbd : TceBdesc := ⟨s.mem.dword pool⟩
        hassert lbd.lbdCtrlV
        hassert (lbd.lbdLen = bd.lbdLen)
        let p ← llanPool lbd.lbdAddr
        match Fin.find? fun b => !(l.llBlistPool p b).lbdCtrlV with
        | some b => .ok (hSuccess, (s.setDev id (l.acquire.setPool p b bd)).release id)
        | none => .ok (hResource, s.release id)

/-- The loop of `llan_getbuf` over the descriptors of the pools: the first pool that is big
enough. -/
def llanFindPool (mem : Memory) (l : LlanDev) (size : Uval) : Hv (Option (Fin llanBlPools)) :=
  let lbd (p : Fin 256) : TceBdesc := ⟨mem.dword (l.blist (llanBlPoolStart + .ofNat 64 p))⟩
  match Fin.find? fun p => decide (size ≤ (lbd p).lbdLen.setWidth 64) with
  | none => .ok none
  | some p => do .ok (some (← llanPool (lbd p).lbdAddr))

/-- A buffer for `size` bytes: the first one in the pool. -/
def llanFindBuf (mem : Memory) (l : LlanDev) (size : Uval) :
    Hv (Option (Fin llanBlPools × Fin llanBlPoolNum)) := do
  match ← llanFindPool mem l size with
  | none => .ok none
  | some p => .ok ((Fin.find? fun b => (l.llBlistPool p b).lbdCtrlV).map (p, ·))

/-- `llan_getbuf`. -/
def llanGetbuf (mem : Memory) (l : LlanDev) (size : Uval) : Hv (Uval × LlanDev × Memory) := do
  match ← llanFindBuf mem l size with
  | some (p, b) =>
    let bd := (l.llBlistPool p b).setCtrlV false
    let rb ← tceBdXlate l.llTceData bd
    .ok (rb, l.setPool p b bd, mem)
  | none =>
    let counter := l.blist llanBlCounter
    .ok (0, l, mem.setDword counter (mem.dword counter + 1))

/-! ### The receive queue -/

/-- `union llan_recvq_entry`, without `lrqe_vtoggle` and `lrqe_handle`. -/
structure LlanRqe where
  lrqeV : Bool
  lrqeOff : BitVec 16
  lrqeLen : BitVec 32
  deriving DecidableEq, Repr

/-- `lrqe_dwords[0]`. -/
def LlanRqe.dword (rq : LlanRqe) (vtoggle : Bool) : BitVec 64 :=
  BitVec.ofBool vtoggle ++ BitVec.ofBool rq.lrqeV ++ (0 : BitVec 14) ++ rq.lrqeOff ++ rq.lrqeLen

/-- An entry that is written: into the queue of which device, which one, about which buffer. -/
structure LlanRecv where
  dst : Nat
  idx : BitVec 16
  rb : Uval
  rqe : LlanRqe
  deriving DecidableEq, Repr

/-- `llan_write_rqe`. -/
def llanWriteRqe (mem : Memory) (l : LlanDev) (rq : LlanRqe) (rb : Uval) : LlanDev × Memory :=
  let rqp := l.llRecvq + 16 * l.llRecvqIdx.setWidth 64
  let vtoggle := l.llRecvqToggle.getLsbD 0
  let idx := l.llRecvqIdx + 1
  let l :=
    if l.llRecvqEnd ≤ idx then { l with llRecvqIdx := 0, llRecvqToggle := l.llRecvqToggle + 1 }
    else { l with llRecvqIdx := idx }
  let handle := mem.dword rb
  let mem := mem.zero rqp 8
  let mem := mem.setDword (rqp + 8) handle
  (l, mem.setDword rqp (rq.dword vtoggle))

/-- A received frame or a buffer that is handed back: `llan_getbuf`, what `fill` does with the
buffer, and `llan_write_rqe`.  Without a buffer the code is `busy`. -/
def llanPut (id : Nat) (size : Uval) (busy : Sval) (rq : LlanRqe)
    (fill : Memory → Uval → Memory) : Hv (Sval × List LlanRecv × LlanSys) := do
  let l ← live (s.llan id)
  let (rb, l, mem) ← llanGetbuf s.mem l size
  if rb = 0 then .ok (busy, [], { s with mem := mem }.setDev id l)
  else
    let w := llanWriteRqe (fill mem rb) l rq rb
    .ok (hSuccess, [⟨id, l.llRecvqIdx, rb, rq⟩], { s with mem := w.2 }.setDev id w.1)

/-- `llan_freebuf`.  The lock is not taken. -/
def llanFreebuf (size : Uval) : Hv (Sval × List LlanRecv × LlanSys) := do
  match ← llanGet s uaddr with
  | none => .ok (hParameter, [], s)
  | some (id, l) =>
    hassert (l.llOwner = some os)
    llanPut s id size hNotFound ⟨false, 0, size.setWidth 32⟩ fun mem _ => mem

/-! ### Frames -/

/-- What `llan_send_locked` reads of a frame: the real addresses and lengths of its fragments, their
sum, and the addresses in its header. -/
structure LlanFrame where
  frags : List (Uval × Uval)
  sum : Uval
  dst : BitVec 64
  src : BitVec 64
  deriving DecidableEq, Repr

/-- The loop over the descriptors: the fragments before the first empty descriptor, and nothing if
one of them is not translated. -/
def llanGather (td : TceData) : List TceBdesc → Hv (Option (List (Uval × Uval)))
  | [] => .ok (some [])
  | bd :: bds =>
    if bd.lbdLen = 0 then .ok (some [])
    else do
      hassert bd.lbdCtrlV
      let pa ← tceBdXlate td bd
      if pa = 0 then .ok none
      else do
        let frags ← llanGather td bds
        .ok (frags.map ((pa, bd.lbdLen.setWidth 64) :: ·))

/-- Six bytes as an address. -/
def Memory.mac (m : Memory) (a : Uval) : BitVec 64 :=
  (m a ++ m (a + 1) ++ m (a + 2) ++ m (a + 3) ++ m (a + 4) ++ m (a + 5)).setWidth 64

/-- The first half of `llan_send_locked`, with nothing for `H_Parameter`. -/
def llanFrame (mem : Memory) (l : LlanDev) (bd : List TceBdesc) : Hv (Option LlanFrame) := do
  match ← llanGather l.llTceData (bd.take llanSendBdNum) with
  | none => .ok none
  | some [] => .ok none
  | some ((pa, sz) :: frags) =>
    let sum := (((pa, sz) :: frags).map Prod.snd).sum
    if l.llSize < sum then .ok none
    else do
      hassert (13 < sz)
      .ok (some ⟨(pa, sz) :: frags, sum, mem.mac pa, mem.mac (pa + 6)⟩)

/-- `align` of `llan_enqueue`. -/
def LlanFrame.align (f : LlanFrame) : Uval :=
  cacheLineSize + ((f.frags.map Prod.fst).headD 0 &&& (cacheLineSize - 1))

/-- The loop of `llan_enqueue`: the fragments one after the other. -/
def LlanFrame.fill (f : LlanFrame) (mem : Memory) (rb : Uval) : Memory :=
  (f.frags.foldl (fun (x : Memory × Uval) frag => (x.1.copy x.2 frag.1 frag.2, x.2 + frag.2))
    (mem, rb + (f.align.setWidth 16).setWidth 64)).1

/-- `llan_enqueue`. -/
def llanEnqueue (d : Nat) (f : LlanFrame) : Hv (Sval × List LlanRecv × LlanSys) :=
  llanPut s d (f.sum + f.align) hBusy ⟨true, f.align.setWidth 16, f.sum.setWidth 32⟩ f.fill

/-- One round of `llan_broadcast`. -/
def llanBroadcastPort (mac : BitVec 64) (f : LlanFrame) (x : Sval × List LlanRecv × LlanSys)
    (i : Fin llanIfaces) : Hv (Sval × List LlanRecv × LlanSys) :=
  let (ret, recvs, s) := x
  let m := s.ports i
  if m.lmMac ≠ 0 ∧ m.lmMac ≠ mac then do
    let d ← nonNull m.lmLan
    let ld ← live (s.llan d)
    if ld.llMcastState &&& llMcastRecv = 0 then .ok (ret, recvs, s)
    else do
      let (lret, recvs', s) ← llanEnqueue s d f
      .ok (if lret ≠ hSuccess then lret else ret, recvs ++ recvs', s)
  else .ok (ret, recvs, s)

/-- `llan_broadcast`. -/
def llanBroadcast (l : LlanDev) (f : LlanFrame) : Hv (Sval × List LlanRecv × LlanSys) :=
  (List.finRange llanIfaces).foldlM (llanBroadcastPort l.llMac f) (hSuccess, [], s)

/-- `llan_send_locked`.  The sender learns the source address before the destination is looked
up. -/
def llanSendLocked (id : Nat) (l : LlanDev) (bd : List TceBdesc) (token : Uval) :
    Hv (Sval × List LlanRecv × LlanSys) := do
  hassert (token = 0)
  match ← llanFrame s.mem l bd with
  | none => .ok (hParameter, [], s)
  | some f =>
    let s := llanMacCacheAdd s id l f.src
    if f.dst ≠ bcast then do
      match ← llanMacFind s f.dst with
      | some (d, _) => llanEnqueue s d f
      | none => llanBroadcast s l f
    else llanBroadcast s l f

/-- `llan_send`. -/
def llanSend (bd : List TceBdesc) (token : Uval) : Hv (Sval × List LlanRecv × LlanSys) := do
  match ← llanGet s uaddr with
  | none => .ok (hParameter, [], s)
  | some (id, l) =>
    hassert (l.llOwner = some os)
    if l.llLock then .ok (hParameter, [], s)
    else do
      let (ret, recvs, s) ← llanSendLocked (s.setDev id l.acquire) id l bd token
      .ok (ret, recvs, s.release id)

/-! ### All the calls -/

/-- A call of the interface of `llan.h`. -/
inductive LlanCall
  | register (os : OsId) (uaddr bl : Uval) (rq : BitVec 64) (fl : Uval) (mac : BitVec 64)
  | free (os : OsId) (uaddr : Uval)
  | mcastCtrl (os : OsId) (uaddr : Uval) (fl : BitVec 64)
  | changeMac (os : OsId) (uaddr : Uval) (mac : BitVec 64)
  | addBuf (os : OsId) (uaddr : Uval) (bd : TceBdesc)
  | send (os : OsId) (uaddr : Uval) (bd : List TceBdesc) (token : Uval)
  | freebuf (os : OsId) (uaddr size : Uval)

/-- The code that a call returns, the entries that it writes, and the system after it. -/
def llanCall : LlanCall → Hv (Sval × List LlanRecv × LlanSys)
  | .register os uaddr bl rq fl mac => do
    let (ret, s) ← llanRegister s os uaddr bl rq fl mac
    .ok (ret, [], s)
  | .free os uaddr => do
    let (ret, s) ← llanFree s os uaddr
    .ok (ret, [], s)
  | .mcastCtrl os uaddr fl => do
    let (ret, _, s) ← llanMcastCtrl s os uaddr fl
    .ok (ret, [], s)
  | .changeMac os uaddr mac => do
    let (ret, s) ← llanChangeMac s os uaddr mac
    .ok (ret, [], s)
  | .addBuf os uaddr bd => do
    let (ret, s) ← llanAddBuf s os uaddr bd
    .ok (ret, [], s)
  | .send os uaddr bd token => llanSend s os uaddr bd token
  | .freebuf os uaddr size => llanFreebuf s os uaddr size

end Rhype
