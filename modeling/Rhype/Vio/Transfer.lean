import Rhype.Vio.Basic

/-!
# Whose a virtual device is (`resource.c`, `vio.c`, `crq.c`, `llan.c`)

A CRQ and a logical LAN have two resource records each, and `cp_owner_res` or `ll_owner_res` says
which of them is in use.  A grant puts the other record in its place and rescinds the old one; the
rest of the rescind is left until no call is in progress any more (`rcu_defer`).

The state is that of one device, with the counter from which all resources get their cookies; the
lists of resources of the partitions and the other end of a CRQ are not part of it.
-/

namespace Rhype

/-! ### The device -/

/-- `struct vios_resource` of a device, without the number of the device. -/
structure ViosResource where
  srCookie : Uval
  srOwner : Option OsId
  /-- `RES_MAPPED`. -/
  srMapped : Bool
  /-- `RES_RESCINDED`. -/
  srRescinded : Bool
  deriving DecidableEq, Repr

/-- The classes of which a partition can acquire a device and give it away. -/
inductive VioKind
  | crq
  | llan
  deriving DecidableEq, Repr

/-- `struct crq_partner` or `struct llan`, as far as the owner is concerned. -/
structure VioDevice where
  kind : VioKind
  /-- `xh_device` of the interrupt of the device is the device. -/
  xhDevice : Bool
  /-- The memory of the device has been given back. -/
  freed : Bool
  /-- `cp_os`; a logical LAN does not have it. -/
  cpOs : Option OsId
  /-- `CRQ_FLAG_USED`; a logical LAN does not have it. -/
  used : Bool
  /-- `CRQ_FLAG_VALID` or `ll_valid`. -/
  valid : Bool
  ownerRes : Bool
  res : Bool → ViosResource
  /-- `keys`. -/
  keys : Uval
  /-- The records for which `rescind_rcu_cleanup` is still to be called. -/
  todo : List Bool

namespace VioDevice

def setRes (d : VioDevice) (r : Bool) (sr : ViosResource) : VioDevice :=
  { d with res := Function.update d.res r sr }

@[simp]
theorem setRes_self (d : VioDevice) (r : Bool) (sr : ViosResource) : (d.setRes r sr).res r = sr :=
  Function.update_self ..

theorem setRes_not (d : VioDevice) (r : Bool) (sr : ViosResource) :
    (d.setRes r sr).res (!r) = d.res (!r) :=
  Function.update_of_ne (by cases r <;> decide) ..

/-- `crq_getos` and `llan_getos`. -/
def getos (d : VioDevice) : Option OsId :=
  match d.kind with
  | .crq => d.cpOs
  | .llan => (d.res d.ownerRes).srOwner

end VioDevice

/-- `resource_init` of a record.  It does not touch the owner. -/
def viosResourceInit (sr : ViosResource) : ViosResource :=
  { sr with srCookie := 0, srMapped := false, srRescinded := false }

/-! ### Operations of the device -/

variable (d : VioDevice) (r : Bool)

/-- `crq_accept` and `llan_accept`. -/
def vioAccept : Sval :=
  if d.xhDevice ∧ (d.res r).srOwner = d.getos then hSuccess else hParameter

/-- `crq_invalidate` and `llan_invalidate`. -/
def vioInvalidate : VioDevice :=
  if d.xhDevice ∧ (d.res r).srOwner = d.getos then { d with valid := false } else d

/-- `force_rescind_resource`. -/
def vioForceRescind : VioDevice :=
  let sr := d.res r
  if sr.srRescinded then d
  else
    let d := d.setRes r { sr with srRescinded := true }
    let d := if sr.srMapped then vioInvalidate d r else d
    { d with todo := d.todo ++ [r] }

/-- `crq_release` and `llan_release`, by the owner of the device. -/
def vioReleaseOwned : VioDevice :=
  match d.kind with
  | .crq => { d with used := false, valid := false }
  | .llan => { d with xhDevice := false, freed := true }

/-- `crq_rescind` and `llan_rescind`. -/
def vioRescind : VioDevice :=
  if d.xhDevice ∧ (d.res r).srOwner = d.getos then
    let other := !d.ownerRes
    let d := if (d.res other).srOwner ≠ none then vioForceRescind d other else d
    vioReleaseOwned d
  else d

/-- What `crq_grant` and `llan_grant` do when the source is the owner.  The record that is granted
is the one that is in use then. -/
def vioGrantOwned (dst : OsId) : Hv (Sval × VioDevice) := do
  let old := d.ownerRes
  let new := !old
  hassert ((d.res new).srOwner = none)
  let d := { d with xhDevice := false, ownerRes := new }
  let d := d.setRes new (viosResourceInit { d.res new with srOwner := some dst })
  let d := vioForceRescind d old
  .ok (hSuccess, { d with xhDevice := true })

/-- `crq_grant`.  The new owner is set before the record is looked at. -/
def crqGrant (src dst : OsId) : Hv (Sval × VioDevice) :=
  if !d.xhDevice then .ok (hParameter, d)
  else if d.getos ≠ some src then .ok (hParameter, d)
  else vioGrantOwned { d with cpOs := some dst } dst

/-- `llan_grant`. -/
def llanGrant (src dst : OsId) : Hv (Sval × VioDevice) :=
  if !d.xhDevice then .ok (hParameter, d)
  else do
    hassert (d.getos = some src)
    vioGrantOwned d dst

/-- `vio_grant`. -/
def vioGrant (src dst : OsId) : Hv (Sval × VioDevice) :=
  match d.kind with
  | .crq => crqGrant d src dst
  | .llan => llanGrant d src dst

/-! ### Resources -/

/-- `insert_resource`: the cookie as a signed number. -/
def vioInsertResource (os : OsId) : Sval × VioDevice :=
  let cookie := d.keys + 1
  let d := { d with keys := cookie }
  (cookie.toInt, d.setRes r { d.res r with srCookie := cookie, srOwner := some os })

/-- `accept_locked_resource`. -/
def vioAcceptLocked : Sval × VioDevice :=
  let err := vioAccept d r
  (err, if err = hSuccess then d.setRes r { d.res r with srMapped := true } else d)

/-- `grant_resource` of the device. -/
def vioGrantResource (src dst : OsId) : Hv (Sval × VioDevice) := do
  let (err, d) ← vioGrant d src dst
  if err ≠ hSuccess then .ok (err, d)
  else
    let r := d.ownerRes
    if (d.res r).srRescinded then .ok (hRescinded, vioRescind d r)
    else
      let (err, d) := vioInsertResource d r dst
      .ok (err, if 0 < err then d else vioRescind d r)

/-- `resource_transfer` of the device, by partition `src`. -/
def vioTransfer (src dst : OsId) : Hv (Sval × VioDevice) := do
  let (rc, d) ← vioGrantResource d src dst
  if 0 ≤ rc then
    let (rc, d) := vioAcceptLocked d d.ownerRes
    if rc = hSuccess then .ok (hSuccess, d)
    else do
      -- it is granted back
      let (rc, d) ← vioGrantResource d dst src
      hassert (0 ≤ rc)
      .ok (hParameter, d)
  else .ok (hParameter, d)

/-- `rescind_rcu_cleanup` of the first record that waits for it.  The record is taken off the list
after its device has been released. -/
def vioCleanup : Hv VioDevice :=
  match d.todo with
  | [] => .ok d
  | r :: todo => do
    let _ ← nonNull (d.res r).srOwner
    hassert (d.res r).srRescinded
    let d := vioRescind { d with todo := todo } r
    if d.freed then .error .dangling else .ok d

/-! ### A new device -/

/-- The memory of a device after `memset`. -/
def zeroDevice (kind : VioKind) (keys : Uval) : VioDevice where
  kind := kind
  xhDevice := false
  freed := false
  cpOs := none
  used := false
  valid := false
  ownerRes := false
  res := fun _ => ⟨0, none, false, false⟩
  keys := keys
  todo := []

/-- The resource of a new device is made, given to the partition and accepted. -/
def vioBind (os : OsId) : Hv VioDevice := do
  let r := d.ownerRes
  let d := d.setRes r (viosResourceInit (d.res r))
  let (rc, d) := vioInsertResource { d with xhDevice := true } r os
  hassert (0 ≤ rc)
  let (rc, d) := vioAcceptLocked d r
  hassert (rc = hSuccess)
  .ok d

/-- `crq_struct_init`, for one end of a pair. -/
def crqStructInit (keys : Uval) (os : OsId) : Hv VioDevice :=
  vioBind { zeroDevice .crq keys with cpOs := some os, valid := true } os

/-- `llan_acquire`. -/
def llanAcquire (keys : Uval) (os : OsId) : Hv VioDevice :=
  vioBind { zeroDevice .llan keys with valid := true } os

/-- `vs_acquire`. -/
def vioAcquire (kind : VioKind) (keys : Uval) (os : OsId) : Hv VioDevice :=
  match kind with
  | .crq => crqStructInit keys os
  | .llan => llanAcquire keys os

/-! ### Histories -/

/-- What can happen to the device: a partition transfers it, a rescind is completed, or another
resource gets a cookie. -/
inductive VioOp
  | transfer (src dst : OsId)
  | cleanup
  | cookie
  deriving DecidableEq, Repr

def vioStep : VioOp → Hv VioDevice
  | .transfer src dst => do
    let (_, d) ← vioTransfer d src dst
    .ok d
  | .cleanup => vioCleanup d
  | .cookie => .ok { d with keys := d.keys + 1 }

end Rhype
