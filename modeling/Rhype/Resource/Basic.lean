import Rhype.Htab.Unmap

/-!
# System resources (`resource.c`, `mem_resource.c`, `phys_mem.c`)

A resource belongs to a partition, on whose list it is (`sr_os_res`), and to a parent, on whose list
of children it is (`sr_siblings`).  Granting a part of a chunk makes a child of its resource;
accepting a resource maps its chunk in the address space of its owner.

The operations of a resource type (`struct resource_action`) are functions of the type.  Those of
`INTR_SRC` act on the virtual devices, which are not part of this state.
-/

namespace Rhype

/-! ### Lists of resources -/

/-- A loop over the resources of a partition that stops at the first one `f` answers for. -/
def findRes {α : Type} (h : Hype) (o : OsId) (f : ResId → SysResource → Hv (Option α)) :
    Nat → DRef → Hv (Option α)
  | 0, _ => .error .spin
  | fuel + 1, curr =>
    if curr = .poResources o then .ok none
    else match curr with
    | .osRes r => do
      let sr ← live (h.res r)
      match ← f r sr with
      | some a => .ok (some a)
      | none => findRes h o f fuel (h.dl.next curr)
    | _ => .error .dangling

variable (h : Hype) (r : ResId)

/-- `get_sys_resource`. -/
def getSysResource (o : OsId) (cookie : Uval) : Hv (Sval × Option ResId) := do
  let _ ← live (h.os o)
  let found ← findRes h o (fun r sr => .ok (if sr.srCookie = cookie then some (r, sr) else none))
    (h.next + 1) (h.dl.next (.poResources o))
  match found with
  | none => .ok (hParameter, none)
  | some (r, sr) => .ok (if sr.srRescinded then hRescinded else hSuccess, some r)

/-- `resource_init`. -/
def resourceInit (parent : Option ResId) (type : ResType) : Hype :=
  let sr : SysResource :=
    { srCookie := 0, srType := type, srMapped := false, srRescinded := false, srOwner := none,
      srParent := parent }
  (h.setRes r sr).setDl
    (((h.dl.init (.siblings r)).init (.children r)).init (.osRes r))

/-- `mem_conflict`. -/
def memConflict (r1 r2 : ResId) : Hv Bool := do
  let lci1 ← live (h.lci r1)
  let lci2 ← live (h.lci r2)
  hassert (lci1.lciRaddr ≠ invalidPhysicalAddress)
  hassert (lci2.lciRaddr ≠ invalidPhysicalAddress)
  .ok (rangesConflict lci1.lciRaddr lci1.lciSize lci2.lciRaddr lci2.lciSize)

/-- `resource_conflict`, for a memory resource. -/
def resourceConflict (o : OsId) (r : ResId) : Hv Sval := do
  let _ ← live (h.os o)
  let sr ← live (h.res r)
  let found ← findRes h o
    (fun r' sr' =>
      if !sr'.srRescinded && sr'.srType = sr.srType then do
        if ← memConflict h r' r then .ok (some ()) else .ok none
      else .ok none)
    (h.next + 1) (h.dl.next (.poResources o))
  .ok (if found.isSome then hUnavail else hSuccess)

/-- The first section of `insert_resource`, under the locks of the parent and of the resource:
`false` if the parent is being rescinded. -/
def insertLink : Hv (Bool × Hype) := do
  let sr ← live (h.res r)
  let key := fun (h : Hype) =>
    let cookie := h.keys + 1
    ({ h with keys := cookie } : Hype).setRes r { sr with srCookie := cookie }
  match sr.srParent with
  | none => .ok (true, key h)
  | some q => do
    let parent ← live (h.res q)
    if parent.srRescinded then .ok (false, h)
    else .ok (true, key (h.setDl (h.dl.insBefore (.siblings r) (.children q))))

/-- The second section of `insert_resource`, under the lock of the list of the partition; the
result is the cookie. -/
def insertOwn (o : OsId) : Hv (Sval × Hype) := do
  let sr ← live (h.res r)
  let h := h.setRes r { sr with srOwner := some o }
  .ok (sr.srCookie.toInt, h.setDl (h.dl.insBefore (.osRes r) (.poResources o)))

/-- `insert_resource`: the cookie, or `H_Rescinded`. -/
def insertResource (o : OsId) : Hv (Sval × Hype) := do
  let (linked, h) ← insertLink h r
  if linked then insertOwn h r o else .ok (hRescinded, h)

theorem insertResource_eq (o : OsId) :
    insertResource h r o = (do
      let sr ← live (h.res r)
      let link := fun (h : Hype) =>
        let cookie := h.keys + 1
        let h := { h with keys := cookie }
        let h := h.setRes r { sr with srCookie := cookie, srOwner := some o }
        (cookie.toInt, h.setDl (h.dl.insBefore (.osRes r) (.poResources o)))
      match sr.srParent with
      | none => .ok (link h)
      | some q => do
        let parent ← live (h.res q)
        if parent.srRescinded then .ok (hRescinded, h)
        else .ok (link (h.setDl (h.dl.insBefore (.siblings r) (.children q))))) := by
  unfold insertResource insertLink
  rcases hsr : h.res r with _ | sr
  · rfl
  simp only [live, ok_bind]
  rcases hp : sr.srParent with _ | q
  · simp [insertOwn, live, Hype.setRes]
  cases hq : h.res q with
  | none => simp [hq]
  | some parent =>
    by_cases hres : parent.srRescinded = true <;>
      simp [hq, hres, insertOwn, live, Hype.setRes]

/-! ### Plain memory (`phys_mem.c`) -/

/-- `phys_mem_lci_init`, on the cleared memory that `halloc` returns. -/
def physMemLciInit (raddr size : Uval) : Lci where
  lciRaddr := raddr
  lciLaddr := chunkOffsetAddr raddr
  lciSize := size
  lciPtecount := 0
  lciDisabled := false
  lciOps := .physMem
  lciOs := none

/-- A new chunk with its resource. -/
def newLci (lci : Lci) (parent : Option ResId) (type : ResType) : LciId × Hype :=
  let c := h.next
  let h := { h with next := h.next + 1 }
  (c, (resourceInit h c parent type).setLciObj c lci)

/-- `phys_mem_export`: the size as a signed number and the new chunk, or an error. -/
def physMemExport (c : LciId) (lci : Lci) (laddr size : Uval) :
    Hv (Sval × Option LciId × Hype) := do
  if !rangeSubset lci.lciLaddr lci.lciSize laddr size then .ok (hParameter, none, h)
  else do
    let offset := laddr - lci.lciLaddr
    let sr ← live (h.res c)
    let (n, h) := newLci h (physMemLciInit (lci.lciRaddr + offset) size) (some c) sr.srType
    .ok (size.toInt, some n, h)

/-- `psm_export`. -/
def psmExport (c : LciId) (lci : Lci) (laddr size : Uval) : Hv (Sval × Option LciId × Hype) := do
  let idx := psmIndex lci laddr
  hassert (idx < numPsmEntries)
  let psm ← live (h.psm c)
  let parent ← nonNull (psm.psmEntries idx)
  let parentLci ← live (h.lci parent)
  let offset := laddr - parentLci.lciLaddr
  -- the sum is a word
  if parentLci.lciSize < offset + size then .ok (hParameter, none, h)
  else match parentLci.lciOps with
  | .physMem => physMemExport h parent parentLci laddr size
  -- a chunk of the page-share manager is never an entry of one
  | .psm => .error .dangling

/-- `lci_ops->export`. -/
def exportFn (c : LciId) (laddr size : Uval) : Hv (Sval × Option LciId × Hype) := do
  let lci ← live (h.lci c)
  match lci.lciOps with
  | .physMem => physMemExport h c lci laddr size
  | .psm => psmExport h c lci laddr size

/-! ### The operations of the resource types -/

/-- `mem_grant`, of both memory types; the type is that of the chunk that is exported. -/
def memGrant (src : OsId) (logicalLo size : Uval) (dest : OsId) :
    Hv (Sval × Option ResId × Hype) := do
  let os ← live (h.os src)
  match ← laddrToLci os logicalLo with
  | none => .ok (hParameter, none, h)
  | some c => do
    let (err, nlci, h) ← exportFn h c logicalLo size
    -- a size of 2^63 or more is taken for an error, and the new chunk is left behind
    if err < 0 then .ok (err, none, h)
    else do
      let n ← nonNull nlci
      let err ← resourceConflict h dest n
      if err ≠ hSuccess then .ok (err, none, h.rcuDefer (.physMem n))
      else .ok (hSuccess, some n, h)

/-- `mem_accept` gives the chunk slots of its own: it has more than half the size of a slot, or does
not fit in one. -/
def ownSlots (lci : Lci) : Bool :=
  decide (chunkSize < lci.lciSize <<< 1)
    || decide (chunkSize ≤ chunkOffsetAddr lci.lciLaddr + lci.lciSize)

/-- `mem_accept`; the result is the return code and the logical address. -/
def memAccept (fresh : FreshPsm) : Hv (Sval × Uval × Hype) := do
  let sr ← live (h.res r)
  let o ← nonNull sr.srOwner
  let lci ← live (h.lci r)
  if ownSlots lci then do
    -- the result of set_lci is not looked at
    let (_, h) ← setLci h o 0 r
    let h ← lciEnable h r
    let lci ← live (h.lci r)
    .ok (hSuccess, lci.lciLaddr, h)
  else do
    let (p, h) ← initOsPsm h o fresh
    let (err, h) ← psmAccept h p r
    if err = hSuccess then do
      let h ← lciEnable h r
      let lci ← live (h.lci r)
      .ok (hSuccess, lci.lciLaddr, h)
    else .ok (err, 0, h)

/-- `mmio_accept`. -/
def mmioAccept : Hv (Sval × Uval × Hype) := do
  let sr ← live (h.res r)
  let o ← nonNull sr.srOwner
  let lci ← live (h.lci r)
  let (_, h) ← setLci h o lci.lciRaddr r
  let h ← lciEnable h r
  let lci ← live (h.lci r)
  .ok (hSuccess, lci.lciLaddr, h)

/-- `accept_fn`.  What a virtual device answers is `vio`. -/
def acceptFn (type : ResType) (r : ResId) (fresh : FreshPsm) (vio : Sval × Uval) :
    Hv (Sval × Uval × Hype) :=
  match type with
  | .mem .memAddr => memAccept h r fresh
  | .mem .mmioAddr => mmioAccept h r
  | .intrSrc => .ok (vio.1, vio.2, h)

/-- `lci_ops->unmap`; the chunk of a resource is plain memory. -/
def unmapFn (c : LciId) : Hv Hype := do
  let lci ← live (h.lci c)
  match lci.lciOps with
  | .physMem => hpteScanUnmap h c
  | .psm => .error .dangling

/-- `mmio_return`. -/
def mmioReturn : Hv Hype := do
  let (_, h) ← detachLci h r
  unmapFn h r

/-- `mem_return`. -/
def memReturn : Hv Hype := do
  let lci ← live (h.lci r)
  let o ← nonNull lci.lciOs
  let os ← live (h.os o)
  match os.poPsm with
  | none => mmioReturn h r
  | some p => do
    let psmLci ← live (h.lci p)
    -- the address decides, not how the chunk was accepted
    if psmOwns psmLci lci.lciLaddr then psmUnmapLci h p r else mmioReturn h r

/-- `return_fn`. -/
def returnFn (type : ResType) (r : ResId) : Hv Hype :=
  match type with
  | .mem .memAddr => memReturn h r
  | .mem .mmioAddr => mmioReturn h r
  | .intrSrc => .ok h

/-- `mem_invalidate`, `vio_invalidate`; the call is recorded. -/
def invalidateFn (type : ResType) (r : ResId) : Hv Hype := do
  let h := { h with invalidated := h.invalidated ++ [r] }
  match type with
  | .mem _ => lciDisable h r
  | .intrSrc => .ok h

/-- `mem_rescind`: the chunk is destroyed once the hypercalls in progress are over. -/
def rescindFn (type : ResType) (r : ResId) : Hv Hype :=
  match type with
  | .mem _ => do
    let _ ← live (h.lci r)
    .ok (h.rcuDefer (.physMem r))
  | .intrSrc => .ok h

/-- `accept_locked_resource`. -/
def acceptLockedResource (fresh : FreshPsm) (vio : Sval × Uval) : Hv (Sval × Uval × Hype) := do
  let sr ← live (h.res r)
  let (err, ret, h) ← acceptFn h sr.srType r fresh vio
  if err = hSuccess then do
    let sr ← live (h.res r)
    .ok (err, ret, h.setRes r { sr with srMapped := true })
  else .ok (err, ret, h)

/-- `grant_resource`, of a memory type: the cookie, or an error. -/
def grantResource (src : OsId) (type : MemType) (logicalLo length : Uval)
    (dest : OsId) : Hv (Sval × Hype) := do
  let (err, res, h) ← memGrant h src logicalLo length dest
  if err ≠ hSuccess then .ok (err, h)
  else do
    let r ← nonNull res
    let sr ← live (h.res r)
    -- a new resource is not marked, so this branch is never taken
    if sr.srRescinded then do
      let h ← rescindFn h (.mem type) r
      .ok (hRescinded, h)
    else do
      let (err, h) ← insertResource h r dest
      if 0 < err then .ok (err, h)
      else do
        let h ← rescindFn h (.mem type) r
        .ok (err, h)

/-- `define_mem`, called with a memory type. -/
def defineMem (o : OsId) (type : MemType) (base size : Uval) (fresh : FreshPsm) :
    Hv (Uval × Hype) := do
  if size = 0 then .ok (invalidLogicalAddress, h)
  else do
    let (c, h') := newLci h (physMemLciInit base size) none (.mem type)
    let err ← resourceConflict h' o c
    if err < 0 then .ok (invalidLogicalAddress, h)
    else do
      let (err, h) ← insertResource h' c o
      hassert (0 ≤ err)
      let (err, ret, h) ← acceptLockedResource h c fresh (0, 0)
      hassert (err = hSuccess)
      .ok (ret, h)

/-! ### The hypercalls -/

/-- `h_grant_logical`, for a memory type; `dest` is the partition with the number in the call. -/
def hGrantLogical (caller : OsId) (type : MemType) (logicalLo length : Uval)
    (dest : OsId) : Hv (HcallRet × Hype) := do
  if (h.os dest).isNone then .ok (⟨hParameter, []⟩, h)
  else do
    let (err, h) ← grantResource h caller type logicalLo length dest
    if 0 ≤ err then .ok (⟨hSuccess, [(4, BitVec.ofInt 64 err)]⟩, h) else .ok (⟨err, []⟩, h)

/-- `h_accept_logical`. -/
def hAcceptLogical (caller : OsId) (cookie : Uval) (fresh : FreshPsm)
    (vio : Sval × Uval) : Hv (HcallRet × Hype) := do
  let (err, r) ← getSysResource h caller cookie
  if err ≠ hSuccess then .ok (⟨err, []⟩, h)
  else do
    let r ← nonNull r
    let (err, ret, h) ← acceptLockedResource h r fresh vio
    .ok (⟨err, if err = hSuccess then [(4, ret)] else []⟩, h)

end Rhype
