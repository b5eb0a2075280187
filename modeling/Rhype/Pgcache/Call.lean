import Rhype.Machine.Run
import Rhype.Pgcache.Cache

/-!
# Page faults and the hypercalls on page tables (`x86/h_page_dir.c`, `x86/h_flush_tlb.c`,
`x86/h_get_pte.c`, `x86/vm.c`, `x86/intr.c`, `x86/handler.c`)

A page fault that the page tables of the partition do not explain is forwarded to the partition: an
exception frame is pushed on its stack, which has to be mapped for that, and that may fault in turn.
When the handler of the partition returns through `iret`, `shadow_fault_callback` updates the shadow
for the address of the fault, which is kept in `reg_cr2`.

The partition runs between the calls: the registers are arguments of a call, and `Event.guest` gives
the memory any contents.  What is pushed on the stack is left out, since nothing reads the page
tables of the partition after that in a call.
-/

namespace Rhype.Pgcache

open Ia32

/-! ### The stack of the partition (`vm.c`) -/

/-- The registers of the partition that the handlers look at. -/
structure Regs where
  cs : BitVec 16
  ss : BitVec 16
  esp : Word
  ss2 : BitVec 16
  esp2 : Word
  deriving DecidableEq, Repr

/-- The privilege level of a selector is that of user mode. -/
def isUser (selector : BitVec 16) : Bool := decide (selector &&& 3 = 3)

/-- `getpte`: the entry, and whether it maps 4 MB. -/
def getpte (s : Shadow) (vaddr : Word) : Hv (Word × Bool) := do
  hassert (vaddr < hvVbase)
  let pde := (s.dir s.pgd).hv (pdiOf vaddr)
  if !test pde pteP then .ok (0, false)
  else if test pde ptePs then .ok (pde, true)
  else match (s.dir s.pgd).pgt (pdiOf vaddr) with
  | none => .error .assertion
  | some pgt => .ok ((s.tab pgt).hv (ptiOf vaddr), false)

/-- The loop of `ispresent`: `none` if the range is present, or the error code and the address. -/
def isPresentLoop (s : Shadow) (last mask : Word) : Nat → Word → Hv (Option (Word × Word))
  | 0, _ => .error .spin
  | fuel + 1, vaddr =>
    if vaddr ≤ last then do
      let (pte, large) ← getpte s vaddr
      if !test pte pteP then .ok (some (mask &&& ~~~pteP, vaddr))
      else if pte &&& mask ≠ mask then .ok (some (mask ||| pteP, vaddr))
      else isPresentLoop s last mask fuel (vaddr + if large then lpgsize else pgsize)
    else .ok none

/-- `ispresent`.  The loop ends before the fuel, as it does not get past 4 GB. -/
def isPresent (s : Shadow) (vaddr len mask : Word) : Hv (Option (Word × Word)) :=
  isPresentLoop s (vaddr + len - 1) mask 0x100001 vaddr

/-- `isstackpresent`, for `n` words. -/
def isStackPresent (s : Shadow) (esp : Word) (n : Nat) (mask : Word) :
    Hv (Option (Word × Word)) :=
  let len := BitVec.ofNat 32 (4 * n)
  let bottom := esp - len
  isPresentLoop s (bottom + len - 1) mask 3 bottom

/-! ### Exceptions of the partition (`intr.c`) -/

/-- `page_fault`: it returns `true` when the partition has to handle the fault.  The registers may
be changed on the way. -/
abbrev Handler := Regs → Word → Word → Shadow → Hv (Bool × Regs × Shadow)

/-- `push_exception_state`; `fault` is `page_fault`. -/
def pushExceptionState (fault : Handler) (r : Regs) (plChange except : Bool) (s : Shadow) :
    Hv (Bool × Regs × Shadow) := do
  let room := 3 + (if plChange then 2 else 0) + (if except then 1 else 0)
  let r := if plChange then { r with ss := r.ss2, esp := r.esp2 } else r
  let mask := if isUser r.ss then pteUs ||| pteRw else pteRw
  match ← isStackPresent s r.esp room mask with
  | none => .ok (false, r, s)
  | some (error, addr) => do
    let (forwarded, r, s) ← fault r error addr s
    if forwarded then do
      hassert (mask &&& pteUs = 0)
      .ok (true, r, s)
    else .ok (false, r, s)

/-- `force_sync_exception`; `pl_change_required` looks at the privilege level only. -/
def forceSyncException (fault : Handler) (r : Regs) (except : Bool) (s : Shadow) :
    Hv (Bool × Regs × Shadow) :=
  pushExceptionState fault r (isUser r.cs) except s

/-- `force_page_fault`; the partition has a gate for every vector. -/
def forcePageFault (fault : Handler) (r : Regs) (cr2 : Word) (s : Shadow) :
    Hv (Bool × Regs × Shadow) := do
  let (failed, r, s) ← forceSyncException fault r true s
  if failed then .ok (true, r, s) else .ok (false, r, { s with regCr2 := cr2 })

/-! ### Page faults (`h_page_dir.c`) -/

variable (env : Env) (s : Shadow)

/-- `shadow_fault_callback`. -/
def shadowFaultCallback : Hv Shadow :=
  let s := { s with cb := false }
  let pgd := s.pgd
  let pdi := pdiOf s.regCr2
  let pti := ptiOf s.regCr2
  let lpPde := s.lpDir pgd pdi
  let setEntry := fun (pgt : TabId) (s : Shadow) =>
    let lpPte := s.lpTab pgt pti
    if !test lpPte pteP then .ok s
    else do
      let (_, s) ← setPte env s (.tab pgt) pti lpPte
      .ok s
  if !test lpPde pteP then .ok s
  else if test lpPde ptePs then do
    let (_, s) ← setPte env s (.dir pgd) pdi lpPde
    .ok s
  else match (s.dir pgd).pgt pdi with
  | some pgt => setEntry pgt s
  | none => do
    let (pgt, s) ← graft env s pgd pdi lpPde
    match pgt with
    | none => .ok s
    | some pgt => setEntry pgt s

/-- `if (!force_page_fault(..)) thread->cb = shadow_fault_callback; return 1;` -/
def forwardFault (fault : Handler) (r : Regs) (addr : Word) (s : Shadow) :
    Hv (Bool × Regs × Shadow) := do
  let (failed, r, s) ← forcePageFault fault r addr s
  .ok (true, r, if failed then s else { s with cb := true })

/-- `if (!pgc_set_pte(..)) { forward the fault } return 0;` -/
def setOrForward (fault : Handler) (r : Regs) (addr : Word) (table : PgTable)
    (index : Nat) (entry : Word) (s : Shadow) : Hv (Bool × Regs × Shadow) := do
  let (rc, s) ← setPte env s table index entry
  if rc then .ok (false, r, s) else forwardFault fault r addr s

/-- The entry that `linear_fault` makes up for an address. -/
def linearEntry (addr : Word) : Word :=
  (addr &&& pteLargebase) ||| ptePs ||| pteRw ||| pteA ||| pteD ||| pteP

/-- `linear_fault`. -/
def linearFault (fault : Handler) : Handler := fun r _ addr s => do
  let pdi := pdiOf addr
  hassert (!test ((s.dir s.pgd).hv pdi) pteP)
  let (rc, s) ← setPte env s (.dir s.pgd) pdi (linearEntry addr)
  if rc then .ok (false, r, s)
  else do
    let (_, r, s) ← forcePageFault fault r addr s
    .ok (true, r, s)

/-- The part of `shadow_fault` that looks at the page table. -/
def tableFault (fault : Handler) (r : Regs) (mask addr : Word) (pgt : TabId)
    (s : Shadow) : Hv (Bool × Regs × Shadow) :=
  let pti := ptiOf addr
  let lpPte := s.lpTab pgt pti
  let hvPte := (s.tab pgt).hv pti
  if lpPte &&& mask ≠ mask then forwardFault fault r addr s
  else if !test hvPte pteP && !test lpPte pteP then forwardFault fault r addr s
  else if test mask pteRw && hvPte &&& (pteRw ||| pteP) = pteP && test lpPte pteRw then
    setOrForward env fault r addr (.tab pgt) pti (lpPte ||| (pteA ||| pteD))
      (s.orLp (s.tab pgt).lp pti (pteA ||| pteD))
  else setOrForward env fault r addr (.tab pgt) pti lpPte s

/-- The part of `shadow_fault` after the page table of the address was looked up or allocated. -/
def dirFault (fault : Handler) (r : Regs) (mask addr lpPde hvPde : Word)
    (pgt : Option TabId) (s : Shadow) : Hv (Bool × Regs × Shadow) :=
  -- a large page is written to
  if test mask pteRw && !test hvPde pteRw && lpPde &&& (ptePs ||| pteRw) = ptePs ||| pteRw then
    setOrForward env fault r addr (.dir s.pgd) (pdiOf addr) (lpPde ||| pteA ||| pteD)
      (s.orLp (s.dir s.pgd).lp (pdiOf addr) (pteA ||| pteD))
  else match pgt with
  | none => forwardFault fault r addr s
  | some pgt => tableFault env fault r mask addr pgt s

/-- `shadow_fault`. -/
def shadowFault (fault : Handler) : Handler := fun r error addr s =>
  let mask := error &&& 7
  let pdi := pdiOf addr
  let lpPde := s.lpDir s.pgd pdi
  let hvPde := (s.dir s.pgd).hv pdi
  if lpPde &&& mask ≠ mask then forwardFault fault r addr s
  else if test hvPde pteP then
    dirFault env fault r mask addr lpPde hvPde ((s.dir s.pgd).pgt pdi) s
  else if !test lpPde pteP then forwardFault fault r addr s
  else if test lpPde ptePs then setOrForward env fault r addr (.dir s.pgd) pdi lpPde s
  else do
    let (pgt, s) ← graft env s s.pgd pdi lpPde
    dirFault env fault r mask addr lpPde hvPde pgt s

/-- `page_fault`.  A fault on the stack of the partition, while a fault is forwarded, is a round of
its own. -/
def pageFault (env : Env) : Nat → Handler
  | 0 => fun _ _ _ _ => .error .spin
  | fuel + 1 => fun r error addr s => do
    hassert (r.cs &&& 3 ≠ 0)
    if test error 8 then do
      let (_, r, s) ← forcePageFault (pageFault env fuel) r addr s
      .ok (true, r, s)
    else if (s.dir s.pgd).lpLaddr = invalidPhysicalAddress then
      linearFault env (pageFault env fuel) r error addr s
    else shadowFault env (pageFault env fuel) r error addr s

/-! ### Hypercalls -/

def hPageDirFlush : Word := 1
def hPageDirPrefetch : Word := 2
def hPageDirActivate : Word := 4

/-- `activate`. -/
def activate (p : DirId) : Shadow :=
  { s with
    pgd := p
    cr3 := env.dirPaddr p
    dirs := s.dirs.set p { s.dir p with last := s.ticks.setWidth 32 } }

/-- `h_page_dir` once there is a directory. -/
def switchDir (flags : Word) (pgd : DirId) (s : Shadow) : Hv Shadow := do
  let s ← if test flags hPageDirPrefetch then prefetchPgdir env s pgd
    else if test flags hPageDirFlush then
      match s.flushed with
      | none => .ok { s with flushed := some pgd }
      | some flushed =>
        if flushed = pgd then .ok s
        else do
          let s ← freePgdir s flushed
          .ok { s with flushed := some pgd }
    else .ok s
  .ok (if test flags hPageDirActivate then activate env s pgd else s)

/-- `h_page_dir`. -/
def hPageDir (flags laddr : Word) : Hv (Sval × Shadow) := do
  match ← lookup s laddr with
  | some pgd =>
    if flags = hPageDirActivate then .ok (hSuccess, activate env s pgd)
    else do
      let s ← switchDir env flags pgd s
      .ok (hSuccess, s)
  | none => do
    let (pgd, s) ← allocDir env s laddr
    match pgd with
    | none => .ok (hParameter, s)
    | some pgd => do
      let s ← switchDir env (flags ||| hPageDirPrefetch) pgd (hypervisorMapping env s pgd)
      .ok (hSuccess, s)

def hFlushTlbAll : Word := 1
def hFlushTlbGlobal : Word := 2
def hFlushTlbSingle : Word := 4
def hFlushTlbPrefetch : Word := 8

/-- `flush_single`. -/
def flushSingle (vaddr : Word) (prefetch : Bool) : Hv (Sval × Shadow) :=
  let pdi := pdiOf vaddr
  let pti := ptiOf vaddr
  let pde := (s.dir s.pgd).hv pdi
  -- the end of the function, after the shadow was updated
  let done := fun (rc : Bool) (s : Shadow) =>
    if !rc then (hParameter, s)
    else if prefetch && s.cb && s.regCr2 = vaddr then (hSuccess, { s with cb := false })
    else (hSuccess, s)
  if hvVbase ≤ vaddr then .ok (hParameter, s)
  else if isTable pde then
    match (s.dir s.pgd).pgt pdi with
    | none => .error .null
    | some pgtable => do
      let pte := if prefetch then s.lpTab pgtable pti else 0
      let (rc, s) ← setPte env s (.tab pgtable) pti pte
      .ok (done rc s)
  else if isLarge pde then do
    -- the index is the one of the page table
    let pde := if prefetch then s.lpDir s.pgd pti else 0
    let (rc, s) ← setPte env s (.dir s.pgd) pdi pde
    .ok (done rc s)
  else .ok (done true s)

/-- `flush_all` and `flush_global`, which differ in how they flush the TLB. -/
def flushAll (prefetch : Bool) : Hv (Sval × Shadow) := do
  let s ← if prefetch then prefetchPgdir env s s.pgd else flush env s s.pgd
  .ok (hSuccess, if prefetch then { s with cb := false } else s)

/-- `h_flush_tlb`. -/
def hFlushTlb (flags vaddr : Word) : Hv (Sval × Shadow) :=
  let prefetch := test flags hFlushTlbPrefetch
  if test flags hFlushTlbSingle then flushSingle env s vaddr prefetch
  else if test flags hFlushTlbAll then flushAll env s prefetch
  else if test flags hFlushTlbGlobal then flushAll env s prefetch
  else .ok (hParameter, s)

def hGetEntryPhysical : Word := 1
def hGetEntryRoot : Word := 2
def hGetEntryPde : Word := 4
def hGetEntryPte : Word := 8

/-- `combine`. -/
def combine (lpe hve : Word) : Word :=
  if test hve pteP then (lpe &&& ~~~pteFlagsMask) ||| (hve &&& pteFlagsMask) else lpe

/-- `h_get_pte`, for an entry of a directory. -/
def getPde (flags lpPde hvPde : Word) : Hv (Sval × Word) :=
  if !test lpPde pteP then .ok (hNotFound, 0)
  else if test flags hGetEntryPhysical then do
    hassert (test hvPde pteP)
    .ok (hSuccess, hvPde)
  else .ok (hSuccess, combine lpPde hvPde)

/-- `h_get_pte`: the return code, the entry and the state. -/
def hGetPte (flags vaddr : Word) : Hv (Sval × Word × Shadow) :=
  let pgd := s.dir s.pgd
  let pdi := pdiOf vaddr
  let pti := ptiOf vaddr
  if hvVbase ≤ vaddr then .ok (hNotFound, 0, s)
  else if test flags hGetEntryRoot then
    .ok (hSuccess, if test flags hGetEntryPhysical then env.dirPaddr s.pgd else pgd.lpLaddr, s)
  else if test flags hGetEntryPde then do
    let (rc, e) ← getPde flags (s.lpDir s.pgd pdi) (pgd.hv pdi)
    .ok (rc, e, s)
  else if test flags hGetEntryPte then
    let lpPde := s.lpDir s.pgd pdi
    if !test lpPde pteP then .ok (hNotFound, 0, s)
    else if test lpPde ptePs then do
      let (rc, e) ← getPde flags lpPde (pgd.hv pdi)
      .ok (rc, e, s)
    else match pgd.pgt pdi with
    | none => .error .null
    | some pgt =>
      let lpPte := s.lpTab pgt pti
      let hvPte := (s.tab pgt).hv pti
      if !test lpPte pteP then .ok (hNotFound, 0, s)
      else if test flags hGetEntryPhysical then
        if test hvPte pteP then .ok (hSuccess, hvPte, s)
        else do
          let (rc, s) ← setPte env s (.tab pgt) pti lpPte
          .ok (if rc then hSuccess else hNotFound, if rc then (s.tab pgt).hv pti else 0, s)
      else .ok (hSuccess, combine lpPte hvPte, s)
  else .ok (hParameter, 0, s)

/-! ### The handlers (`handler.c`) -/

/-- The rounds of `page_fault` for the faults on the stack while a fault is forwarded. -/
def faultRounds : Nat := 64

/-- `iret`. -/
def iret (r : Regs) (s : Shadow) : Hv Shadow := do
  let s ← if s.cb then shadowFaultCallback env s else .ok s
  let mask := if isUser r.ss then pteUs else 0
  match ← isStackPresent s r.esp 5 mask with
  | none => .ok s
  | some (error, addr) => do
    let (forwarded, _, s) ← pageFault env faultRounds r error addr s
    if forwarded then do
      hassert (mask &&& pteUs = 0)
      .ok s
    else .ok s

/-! ### Sequences of events -/

/-- What can happen to the shadow of a partition. -/
inductive Event
  /-- The partition runs, and its memory changes. -/
  | guest (mem : Word → Nat → Word)
  | tick
  /-- The processor reports a page fault. -/
  | fault (r : Regs) (error cr2 : Word)
  /-- Another exception or an interrupt is delivered to the partition. -/
  | deliver (r : Regs) (except : Bool)
  | iret (r : Regs)
  | pageDir (flags laddr : Word)
  | flushTlb (flags vaddr : Word)
  | getPte (flags vaddr : Word)

/-- One event. -/
def step : Event → Hv Shadow
  | .guest mem => .ok { s with
      mem := fun p i => match p with
        | .guest paddr => mem paddr i
        | p => s.mem p i }
  | .tick => .ok { s with ticks := s.ticks + 1 }
  | .fault r error cr2 => do
    let (_, _, s) ← pageFault env faultRounds r error cr2 s
    .ok s
  | .deliver r except => do
    let (_, _, s) ← forceSyncException (pageFault env faultRounds) r except s
    .ok s
  | .iret r => Pgcache.iret env r s
  | .pageDir flags laddr => do
    let (_, s) ← hPageDir env s flags laddr
    .ok s
  | .flushTlb flags vaddr => do
    let (_, s) ← hFlushTlb env s flags vaddr
    .ok s
  | .getPte flags vaddr => do
    let (_, _, s) ← hGetPte env s flags vaddr
    .ok s

end Rhype.Pgcache
