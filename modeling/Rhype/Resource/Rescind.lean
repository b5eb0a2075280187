import Rhype.Resource.Basic

/-!
# Rescinding resources and the death of a partition (`resource.c`, `h_rescind_logical.c`)

A rescind has two phases.  `forced_rescind_mark` walks the tree below a resource breadth first, on
the list `nodes` that it is building, and marks and invalidates every resource it meets.  When the
hypercalls in progress are over, `forced_rescind_cleanup` walks the list backwards, unmaps every
resource and destroys it.  Between the two phases the list waits in the queue of deferred work.
-/

namespace Rhype

open Function

/-! ### The first phase -/

variable (h : Hype)

/-- `mark_for_rescind`; the first component is `false` when the resource was marked before. -/
def markForRescind (r : ResId) : Hv (Bool × Hype) := do
  let sr ← live (h.res r)
  if sr.srRescinded then .ok (false, h)
  else .ok (true, h.setRes r { sr with srRescinded := true })

/-- `if (sr->sr_flags & RES_MAPPED) (*ra->invalidate_fn)(sr)`, then
`dlist_ins_before(.., nodes)`. -/
def invalidateAndQueue (ra : ResType) (nodes : DRef) (h : Hype) (r : ResId) : Hv Hype := do
  let sr ← live (h.res r)
  let h ← if sr.srMapped then invalidateFn h ra r else .ok h
  .ok (h.setDl (h.dl.insBefore (.siblings r) nodes))

/-- The body of the inner loop of `forced_rescind_mark`: take `child` from its parent. -/
def takeChild (ra : ResType) (nodes : DRef) (avoid : Option OsId) (h : Hype) (child : ResId) :
    Hv Hype := do
  let sr ← live (h.res child)
  let h := h.setRes child { sr with srParent := none }
  let h := h.setDl ((h.dl.detach (.siblings child)).init (.siblings child))
  -- such a child is left to the death of its partition
  if sr.srOwner = avoid then .ok h
  else do
    -- a child that is already marked is being rescinded by itself
    let (marked, h) ← markForRescind h child
    if marked then invalidateAndQueue ra nodes h child else .ok h

/-- The inner loop of `forced_rescind_mark`, over the children of `r`. -/
def childLoop (ra : ResType) (nodes : DRef) (avoid : Option OsId) (r : ResId) :
    Nat → Hype → Hv Hype
  | 0, _ => .error .spin
  | fuel + 1, h =>
    if h.dl.isEmpty (.children r) then .ok h
    else match h.dl.next (.children r) with
    | .siblings child => do
      let h ← takeChild ra nodes avoid h child
      childLoop ra nodes avoid r fuel h
    | _ => .error .dangling

/-- The outer loop of `forced_rescind_mark`, along the list it is building. -/
def markLoop (ra : ResType) (nodes : DRef) (avoid : Option OsId) : Nat → DRef → Hype → Hv Hype
  | 0, _, _ => .error .spin
  | fuel + 1, curr, h =>
    if curr = nodes then .ok h
    else match curr with
    | .siblings r => do
      let _ ← live (h.res r)
      let h ← childLoop ra nodes avoid r (h.next + 1) h
      markLoop ra nodes avoid fuel (h.dl.next curr) h
    | _ => .error .dangling

/-- `forced_rescind_mark`. -/
def forcedRescindMark (start : ResId) (nodes : DRef) (avoid : Option OsId) : Hv (Sval × Hype) := do
  let (marked, h) ← markForRescind h start
  if !marked then .ok (hRescinded, h)
  else do
    let sr ← live (h.res start)
    let h := if sr.srParent.isSome
      then h.setDl ((h.dl.detach (.siblings start)).init (.siblings start)) else h
    let h ← invalidateAndQueue sr.srType nodes h start
    -- the operations of the type of `start` serve for the whole tree
    let h ← markLoop sr.srType nodes avoid (h.next + 1) (.siblings start) h
    .ok (0, h)

/-! ### The second phase -/

/-- The first section of the body of the loop of `forced_rescind_cleanup`, under the lock of the
list of the owner. -/
def cleanupUnlist (r : ResId) : Hv Hype := do
  let sr ← live (h.res r)
  let o ← nonNull sr.srOwner
  -- the owner is needed for its mutex
  let _ ← live (h.os o)
  .ok (h.setDl (h.dl.detach (.osRes r)))

/-- The second section, under the lock of the resource. -/
def cleanupDestroy (r : ResId) : Hv Hype := do
  let sr ← live (h.res r)
  hassert sr.srRescinded
  hassert (h.dl.isEmpty (.children r))
  let h ← if sr.srMapped then returnFn h sr.srType r else .ok h
  let h ← rescindFn h sr.srType r
  .ok (h.setDl (h.dl.detach (.siblings r)))

/-- The body of the loop of `forced_rescind_cleanup`. -/
def cleanupRes (r : ResId) : Hv Hype := do
  let h ← cleanupUnlist h r
  cleanupDestroy h r

theorem cleanupRes_eq (r : ResId) :
    cleanupRes h r = (do
      let sr ← live (h.res r)
      let o ← nonNull sr.srOwner
      let _ ← live (h.os o)
      let h := h.setDl (h.dl.detach (.osRes r))
      hassert sr.srRescinded
      hassert (h.dl.isEmpty (.children r))
      let h ← if sr.srMapped then returnFn h sr.srType r else .ok h
      let h ← rescindFn h sr.srType r
      .ok (h.setDl (h.dl.detach (.siblings r)))) := by
  unfold cleanupRes cleanupUnlist cleanupDestroy
  cases hsr : h.res r with
  | none => rfl
  | some sr =>
    cases ho : sr.srOwner with
    | none => simp [live, nonNull, ho]
    | some o => cases hos : h.os o <;> simp [live, hsr]

/-- The loop of `forced_rescind_cleanup`. -/
def cleanupLoop (nodes : DRef) : Nat → DRef → Hype → Hv Hype
  | 0, _, _ => .error .spin
  | fuel + 1, curr, h =>
    if curr = nodes then .ok h
    else match curr with
    | .siblings r => do
      -- the walk is backwards, and the cell is unlinked on the way
      let before := h.dl.prev curr
      let h ← cleanupRes h r
      cleanupLoop nodes fuel before h
    | _ => .error .dangling

/-- `forced_rescind_cleanup`. -/
def forcedRescindCleanup (nodes : DRef) : Hv Hype :=
  cleanupLoop nodes (h.next + 1) (h.dl.prev nodes) h

/-! ### `H_RESCIND_LOGICAL` and the death of a partition -/

/-- A new list for the resources that are to be rescinded. -/
def newTodo : Nat × Hype :=
  (h.next, { h with next := h.next + 1, dl := h.dl.init (.todo h.next) })

/-- `h_rescind_logical`, up to its `rcu_pause`: the answer of the call where it returns before, and
`none` where it waits. -/
def hRescindLogical (caller : OsId) (flags cookie : Uval) : Hv (Option HcallRet × Hype) := do
  let (err, r) ← getSysResource h caller cookie
  if err ≠ hSuccess then .ok (some ⟨err, []⟩, h)
  else do
    let r ← nonNull r
    let sr ← live (h.res r)
    -- without force, only an unmapped resource without children is rescinded
    if !flag flags 1 && (sr.srMapped || !h.dl.isEmpty (.children r)) then
      .ok (some ⟨hResource, []⟩, h)
    else do
      let (t, h) := newTodo h
      let (err, h) ← forcedRescindMark h r (.todo t) none
      if err = hRescinded then .ok (some ⟨hSuccess, []⟩, h)
      else .ok (none, h.rcuDefer (.pause t))

/-- The loop of `partition_death_cleanup`. -/
def deathLoop (o : OsId) (t : Nat) : Nat → DRef → Hype → Hv Hype
  | 0, _, _ => .error .spin
  | fuel + 1, curr, h =>
    if curr = .poResources o then .ok h
    else match curr with
    | .osRes r => do
      let sr ← live (h.res r)
      let after := h.dl.next curr
      let h := h.setDl (h.dl.detach curr)
      -- it is being handled already
      if sr.srRescinded then deathLoop o t fuel after h
      else do
        let (_, h) ← forcedRescindMark h r (.todo t) (some o)
        -- the list may have changed, so the loop starts again at its head
        deathLoop o t fuel (h.dl.next (.poResources o)) h
    | _ => .error .dangling

/-- `partition_death_cleanup`. -/
def partitionDeathCleanup (o : OsId) : Hv Hype := do
  let _ ← live (h.os o)
  let (t, h) := newTodo h
  let h ← deathLoop o t (h.next + 1) (h.dl.next (.poResources o)) h
  .ok (h.rcuDefer (.death t o))

/-- `os_free`: the page-share manager is destroyed once the hypercalls in progress are over. -/
def osFree (o : OsId) : Hv Hype := do
  let os ← live (h.os o)
  let h := match os.poPsm with
    | none => h
    | some p => h.rcuDefer (.psm p)
  .ok { h with os := update h.os o none }

/-- The work of a node of the queue. -/
def runNode : RcuNode → Hv Hype
  | .pause t => forcedRescindCleanup h (.todo t)
  | .death t o => do
    let h ← forcedRescindCleanup h (.todo t)
    osFree h o
  | .physMem c => .ok { h with lci := update h.lci c none,
                               res := update h.res c none }
  | .psm c => .ok { h with lci := update h.lci c none,
                           psm := update h.psm c none }

/-- Run one node of the queue.  The order of the nodes is left open. -/
def collect (i : Nat) : Hv Hype :=
  match h.rcu[i]? with
  | none => .ok h
  | some n => runNode { h with rcu := h.rcu.eraseIdx i } n

/-! ### Sequences of operations -/

/-- The operations on memory resources. -/
inductive Op
  | define (o : OsId) (type : MemType) (base size : Uval) (fresh : FreshPsm)
  | grant (caller : OsId) (type : MemType) (logicalLo length : Uval) (dest : OsId)
  | accept (caller : OsId) (cookie : Uval) (fresh : FreshPsm)
  | rescind (caller : OsId) (flags cookie : Uval)
  | destroy (o : OsId)
  | collect (i : Nat)

def step : Op → Hv Hype
  | .define o type base size fresh => do
    let (_, h) ← defineMem h o type base size fresh
    .ok h
  | .grant caller type lo len dest => do
    let (_, h) ← hGrantLogical h caller type lo len dest
    .ok h
  | .accept caller cookie fresh => do
    let (_, h) ← hAcceptLogical h caller cookie fresh (hParameter, 0)
    .ok h
  | .rescind caller flags cookie => do
    let (_, h) ← hRescindLogical h caller flags cookie
    .ok h
  | .destroy o => partitionDeathCleanup h o
  | .collect i => Rhype.collect h i

/-! ### Small states -/

/-- A page-share manager on cleared memory. -/
def clearedPsm : FreshPsm := ⟨0, false, 0, ⟨fun _ => 0⟩, fun _ => none⟩

/-- Two partitions without memory. -/
def twoPartitions : Hype := .boot fun o => if o < 2 then some smallOs else none

/-- A mapped chunk of partition `0` and a part of it that was granted to partition `1`. -/
def oneGrant : Hype :=
  let root : SysResource := ⟨2, .mem .memAddr, true, false, some 0, none⟩
  let part : SysResource := ⟨3, .mem .memAddr, false, false, some 1, some 0⟩
  let links : Links DRef := ⟨id, id⟩
  { Hype.boot (fun _ => none) with
    res := fun r => if r = 0 then some root else if r = 1 then some part else none
    lci := fun _ => some (oneChunkLci 0)
    dl := links.insBefore (.siblings 1) (.children 0)
    next := 2 }

end Rhype
