import Rhype.Machine.Run
import Rhype.Vio.Transfer

/-!
# Chains of transfers of a virtual device

A transfer that fails should leave the owner of the device as it is, and after one that succeeds
exactly the new owner should be able to use the device and to transfer it again.  But the owner of
the record that is replaced is never cleared, and a grant stops the hypervisor when the record that
it is about to use has an owner.  `transfers_iff` says which chains are as they should be, and
`transfers_users` what holds of all of them.
-/

namespace Rhype

open List VioDevice

/-! ### What a partition can do with a device -/

/-- The calls of `crq.c` and `llan.c` find the device and accept the partition as its owner. -/
def VioDevice.Usable (d : VioDevice) (p : OsId) : Prop :=
  d.xhDevice = true ∧ d.getos = some p ∧ (d.kind = .llan → d.valid = true)

/-- The partition can transfer the device to some partition. -/
def VioDevice.Transferable (d : VioDevice) (p : OsId) : Prop :=
  ∃ q d', vioTransfer d p q = .ok (hSuccess, d')

/-- A transfer that returns has done what its result says: it has kept the owner, or the destination
is the one that can use the device. -/
def UsersKept (d : VioDevice) (dst : OsId) (rc : Sval) (d' : VioDevice) : Prop :=
  (rc ≠ hSuccess → d'.getos = d.getos) ∧ (rc = hSuccess → ∀ p, d'.Usable p ↔ p = dst)

/-- The operation is as it should be. -/
def TransferCorrect (d : VioDevice) : VioOp → Prop
  | .transfer src dst => ∃ rc d', vioTransfer d src dst = .ok (rc, d') ∧ UsersKept d dst rc d' ∧
      (rc = hSuccess → ∀ p, d'.Transferable p ↔ p = dst)
  | .cleanup => ∃ d', vioCleanup d = .ok d' ∧ ∀ p, d'.Usable p ↔ d.Usable p
  | .cookie => True

/-- The operation leaves the users as it should, if it returns. -/
def UsersCorrect (d : VioDevice) : VioOp → Prop
  | .transfer src dst => ∀ rc d', vioTransfer d src dst = .ok (rc, d') → UsersKept d dst rc d'
  | .cleanup => ∀ d', vioCleanup d = .ok d' → ∀ p, d'.Usable p ↔ d.Usable p
  | .cookie => True

variable {d : VioDevice} {o q src dst : OsId} {op : VioOp} {r : Bool}

theorem getos_crq (hk : d.kind = .crq) : d.getos = d.cpOs := by
  rw [getos, hk]

theorem getos_llan (hk : d.kind = .llan) : d.getos = (d.res d.ownerRes).srOwner := by
  rw [getos, hk]

theorem getos_setRes {sr : ViosResource} (howner : d.getos = some o)
    (hsr : sr.srOwner = some o) : (d.setRes d.ownerRes sr).getos = some o := by
  cases hk : d.kind with
  | crq =>
    rw [getos_crq hk] at howner
    rwa [getos_crq (d := d.setRes d.ownerRes sr) hk]
  | llan =>
    rw [getos_llan (d := d.setRes d.ownerRes sr) hk]
    exact (congrArg ViosResource.srOwner (setRes_self ..)).trans hsr

/-! ### Grants -/

/-- `force_rescind_resource` of a device that is not found marks a record, and that is all. -/
theorem vioForceRescind_hidden (h : d.xhDevice = false) (r : Bool) :
    vioForceRescind d r = if (d.res r).srRescinded then d
      else { d.setRes r { d.res r with srRescinded := true } with todo := d.todo ++ [r] } := by
  simp [vioForceRescind, vioInvalidate, setRes, h]

/-- What a grant by the owner leaves: the records have changed places. -/
def VioDevice.swapped (d : VioDevice) (dst : OsId) : VioDevice :=
  { d with
    xhDevice := true
    ownerRes := !d.ownerRes
    res := Function.update (fun _ => ⟨0, some dst, false, false⟩) d.ownerRes
      { d.res d.ownerRes with srRescinded := true }
    todo := if (d.res d.ownerRes).srRescinded then d.todo else d.todo ++ [d.ownerRes] }

theorem vioGrantOwned_eq (hfree : (d.res (!d.ownerRes)).srOwner = none)
    (dst : OsId) : vioGrantOwned d dst = .ok (hSuccess, d.swapped dst) := by
  simp only [vioGrantOwned, hfree, decide_true, (hassert_ok (u := ())).2]
  rw [vioForceRescind_hidden rfl]
  have hsame : (d.res d.ownerRes).srRescinded = true →
      { d.res d.ownerRes with srRescinded := true } = d.res d.ownerRes := fun hr => by rw [← hr]
  cases ho : d.ownerRes <;> cases hr : (d.res d.ownerRes).srRescinded <;>
    simp_all [swapped, setRes, viosResourceInit, funext_iff]

theorem vioGrantOwned_refused (hother : (d.res (!d.ownerRes)).srOwner ≠ none)
    (dst : OsId) : vioGrantOwned d dst = .error .assertion := by
  simp [vioGrantOwned, hassert, hother]

theorem vioAcceptLocked_owner (hfound : d.xhDevice = true) (howner : (d.res r).srOwner = d.getos) :
    vioAcceptLocked d r = (hSuccess, d.setRes r { d.res r with srMapped := true }) := by
  simp [vioAcceptLocked, vioAccept, hfound, howner]

theorem vioGrant_crq (hk : d.kind = .crq) (hfound : d.xhDevice = true)
    (src dst : OsId) : vioGrant d src dst =
      if d.getos = some src then vioGrantOwned { d with cpOs := some dst } dst
      else .ok (hParameter, d) := by
  simp [vioGrant, hk, crqGrant, hfound]

theorem vioGrant_llan (hk : d.kind = .llan) (hfound : d.xhDevice = true)
    (src dst : OsId) : vioGrant d src dst =
      if d.getos = some src then vioGrantOwned d dst else .error .assertion := by
  by_cases hsrc : d.getos = some src <;> simp [vioGrant, hk, llanGrant, hfound, hassert, hsrc]

/-! ### Transfers -/

/-- A partition acquired the device and still owns it. -/
structure Acquired (o : OsId) (d : VioDevice) : Prop where
  found : d.xhDevice = true
  freed : d.freed = false
  owner : d.getos = some o
  valid : d.valid = true
  record : (d.res d.ownerRes).srOwner = some o
  other : (d.res (!d.ownerRes)).srOwner = none
  todo : d.todo = []

/-- A partition transferred the device to another one, or to itself. -/
structure Moved (o q : OsId) (d : VioDevice) : Prop where
  found : d.xhDevice = true
  freed : d.freed = false
  owner : d.getos = some q
  valid : d.valid = true
  other : (d.res (!d.ownerRes)).srOwner = some o
  rescinded : (d.res (!d.ownerRes)).srRescinded = true
  todo : ∀ r ∈ d.todo, r = !d.ownerRes

theorem vioTransfer_of_error {e : Fault}
    (h : vioGrant d src dst = .error e) : vioTransfer d src dst = .error e := by
  rw [vioTransfer, vioGrantResource, h]
  rfl

theorem vioTransfer_of_parameter {d d' : VioDevice}
    (h : vioGrant d src dst = .ok (hParameter, d')) :
    vioTransfer d src dst = .ok (hParameter, d') := by
  rw [vioTransfer, vioGrantResource, h]
  rfl

/-- A transfer after whose grant the destination is the owner. -/
theorem vioTransfer_of_granted {d d1 : VioDevice} (h : vioGrant d src dst = .ok (hSuccess, d1))
    (hfound : d1.xhDevice = true) (howner : d1.getos = some dst)
    (hnew : d1.res d1.ownerRes = ⟨0, some dst, false, false⟩) (hpos : 0 < (d1.keys + 1).toInt) :
    vioTransfer d src dst = .ok (hSuccess,
      { d1 with keys := d1.keys + 1 }.setRes d1.ownerRes ⟨d1.keys + 1, some dst, true, false⟩) := by
  let d2 := { d1 with keys := d1.keys + 1 }.setRes d1.ownerRes ⟨d1.keys + 1, some dst, false, false⟩
  have hgrant : vioGrantResource d src dst = .ok ((d1.keys + 1).toInt, d2) := by
    simp only [vioGrantResource, h, ok_bind, ne_eq, not_true_eq_false, if_false, hnew,
      vioInsertResource, if_pos hpos, Bool.false_eq_true]
    rfl
  have hrec : (d2.res d1.ownerRes).srOwner = d2.getos := by
    have howner2 : d2.getos = some dst :=
      getos_setRes (d := { d1 with keys := d1.keys + 1 }) howner rfl
    rw [howner2, setRes_self]
  have haccept : vioAcceptLocked d2 d2.ownerRes = (hSuccess, d2.setRes d1.ownerRes
      { d2.res d1.ownerRes with srMapped := true }) := vioAcceptLocked_owner hfound hrec
  simp only [vioTransfer, hgrant, ok_bind, if_pos hpos.le, haccept]
  simp [d2, setRes]

theorem toInt_add_one_pos {k : Uval} (h : k.toNat + 1 < 2 ^ 63) : 0 < (k + 1).toInt := by
  have hnat : (k + 1).toNat = k.toNat + 1 := by
    have hone : (1 : Uval).toNat = 1 := rfl
    exact Nat.mod_eq_of_lt (by omega)
  rw [BitVec.toInt_eq_toNat_of_lt (by omega)]
  omega

section

variable (hfound : d.xhDevice = true)
include hfound

theorem usable_iff
    (howner : d.getos = some o) (hvalid : d.valid = true) (p : OsId) : d.Usable p ↔ p = o := by
  simp [Usable, hfound, howner, hvalid, eq_comm]

/-- **No transfer of a device both records of which have an owner succeeds.** -/
theorem transfer_refused (hother : (d.res (!d.ownerRes)).srOwner ≠ none) (src dst : OsId) :
    vioTransfer d src dst =
      if d.kind = .crq ∧ d.getos ≠ some src then .ok (hParameter, d) else .error .assertion := by
  cases hk : d.kind with
  | crq =>
    have hgrant := vioGrant_crq hk hfound src dst
    rw [vioGrantOwned_refused (d := { d with cpOs := some dst }) hother] at hgrant
    split_ifs at hgrant with hsrc
    · rw [if_neg (fun h => h.2 hsrc)]
      exact vioTransfer_of_error hgrant
    · rw [if_pos ⟨rfl, hsrc⟩]
      exact vioTransfer_of_parameter hgrant
  | llan =>
    have hgrant := vioGrant_llan hk hfound src dst
    rw [vioGrantOwned_refused hother, ite_self] at hgrant
    exact vioTransfer_of_error hgrant

/-- A transfer by a partition that does not own the device changes nothing if it is a CRQ, and stops
the hypervisor if it is a logical LAN. -/
theorem transfer_stranger (hsrc : d.getos ≠ some src) (dst : OsId) :
    vioTransfer d src dst =
      if d.kind = .crq then .ok (hParameter, d) else .error .assertion := by
  cases hk : d.kind with
  | crq => exact vioTransfer_of_parameter ((vioGrant_crq hk hfound src dst).trans (if_neg hsrc))
  | llan => exact vioTransfer_of_error ((vioGrant_llan hk hfound src dst).trans (if_neg hsrc))

end

/-- **The first transfer**: it succeeds, and the destination is the owner then. -/
theorem transfer_owner (h : Acquired o d) (hkeys : d.keys.toNat + 1 < 2 ^ 63) (dst : OsId) :
    ∃ d', vioTransfer d o dst = .ok (hSuccess, d') ∧ Moved o dst d' ∧ d'.keys = d.keys + 1 := by
  -- the other record is granted of the device with its owner set already, if it is a CRQ
  obtain ⟨cp, hgrant, hcp⟩ : ∃ cp, vioGrant d o dst = vioGrantOwned { d with cpOs := cp } dst ∧
      (d.kind = .crq → cp = some dst) := by
    obtain hk | hk : d.kind = .crq ∨ d.kind = .llan := by cases d.kind <;> simp
    · exact ⟨_, (vioGrant_crq hk h.found o dst).trans (if_pos h.owner), fun _ => rfl⟩
    · exact ⟨d.cpOs, (vioGrant_llan hk h.found o dst).trans (if_pos h.owner),
        fun hc => absurd (hk.symm.trans hc) nofun⟩
  rw [vioGrantOwned_eq (d := { d with cpOs := cp }) h.other] at hgrant
  let d1 := { d with cpOs := cp }.swapped dst
  have hnew : d1.res d1.ownerRes = ⟨0, some dst, false, false⟩ := by
    simp [d1, swapped]
  have hold : d1.res (!d1.ownerRes) = { d.res d.ownerRes with srRescinded := true } := by
    simp [d1, swapped]
  have howner : d1.getos = some dst := by
    cases hk : d.kind with
    | crq => exact (getos_crq (d := d1) hk).trans (hcp hk)
    | llan => exact (getos_llan (d := d1) hk).trans (congrArg _ hnew)
  refine ⟨_, vioTransfer_of_granted hgrant rfl howner hnew (toInt_add_one_pos hkeys), ?_, rfl⟩
  exact
    { found := rfl
      freed := h.freed
      owner := getos_setRes (d := { d1 with keys := d.keys + 1 }) howner rfl
      valid := h.valid
      other := (congrArg _ ((setRes_not ..).trans hold)).trans h.record
      rescinded := congrArg _ ((setRes_not ..).trans hold)
      todo := by simp [swapped, setRes, h.todo] }

theorem vioBind_acquired {d e : VioDevice} (h : vioBind d o = .ok e)
    (hos : d.kind = .crq → d.cpOs = some o) (hvalid : d.valid = true) (hfreed : d.freed = false)
    (hother : (d.res (!d.ownerRes)).srOwner = none) (htodo : d.todo = []) :
    e.kind = d.kind ∧ Acquired o e ∧ e.keys = d.keys + 1 := by
  let d1 := { d with xhDevice := true, keys := d.keys + 1 }.setRes d.ownerRes
    ⟨d.keys + 1, some o, false, false⟩
  have hinsert : vioInsertResource
      { d.setRes d.ownerRes (viosResourceInit (d.res d.ownerRes)) with xhDevice := true }
      d.ownerRes o = ((d.keys + 1).toInt, d1) := by
    simp [vioInsertResource, setRes, viosResourceInit, d1]
  have hrec : (d1.res d.ownerRes).srOwner = some o := by rw [setRes_self]
  have howner : d1.getos = some o := by
    cases hk : d.kind with
    | crq => exact (getos_crq (d := d1) hk).trans (hos hk)
    | llan => exact (getos_llan (d := d1) hk).trans hrec
  simp only [vioBind, hinsert, vioAcceptLocked_owner (d := d1) rfl (hrec.trans howner.symm),
    seq_ok] at h
  obtain ⟨_, _, _, _, h⟩ := h
  cases h
  refine ⟨rfl, ?_, rfl⟩
  exact
    { found := rfl
      freed := hfreed
      owner := getos_setRes (d := d1) howner hrec
      valid := hvalid
      record := (congrArg _ (setRes_self ..)).trans hrec
      other := by
        rw [← hother]
        exact (congrArg _ (setRes_not ..)).trans (congrArg _ (setRes_not ..))
      todo := htodo }

theorem vioAcquire_acquired {kind : VioKind} {keys : Uval}
    (h : vioAcquire kind keys o = .ok d) : d.kind = kind ∧ Acquired o d ∧ d.keys = keys + 1 := by
  cases kind with
  | crq => exact vioBind_acquired h (fun _ => rfl) rfl rfl rfl rfl
  | llan => exact vioBind_acquired h nofun rfl rfl rfl rfl

theorem vioAcquire_first (kind : VioKind) : ∃ d, vioAcquire kind 1 0 = .ok d := by
  cases kind with
  | crq | llan => exact ⟨_, rfl⟩

theorem Moved.refused (h : Moved o q d) (src dst : OsId) :
    vioTransfer d src dst =
      if d.kind = .crq ∧ d.getos ≠ some src then .ok (hParameter, d) else .error .assertion :=
  transfer_refused h.found (by rw [h.other]; exact Option.some_ne_none o) src dst

/-! ### Chains -/

/-- The transfer is one that `crq_grant` refuses to a partition that does not own the CRQ. -/
def NotByOwner (kind : VioKind) (o : OsId) : VioOp → Prop
  | .transfer src _ => kind = .crq ∧ src ≠ o
  | .cleanup => True
  | .cookie => True

theorem usersKept_refused (d : VioDevice) (dst : OsId) : UsersKept d dst hParameter d :=
  ⟨fun _ => rfl, nofun⟩

theorem Acquired.stranger {o p : OsId} (h : Acquired o d) : d.getos ≠ some p ↔ p ≠ o := by
  rw [h.owner, ne_eq, Option.some_inj, eq_comm]

theorem vioCleanup_idle (h : d.todo = []) : vioCleanup d = .ok d := by
  rw [vioCleanup, h]

theorem toNat_add_one_le (k : Uval) : (k + 1).toNat ≤ k.toNat + 1 := by
  exact Nat.mod_le ..

section

variable (h : Acquired o d)
include h

theorem Acquired.correct (hop : NotByOwner d.kind o op) : TransferCorrect d op := by
  cases op with
  | cookie => trivial
  | cleanup => exact ⟨d, vioCleanup_idle h.todo, fun _ => .rfl⟩
  | transfer src dst =>
    have hx := transfer_stranger h.found (h.stranger.2 hop.2) dst
    rw [if_pos hop.1] at hx
    exact ⟨hParameter, d, hx, usersKept_refused d dst, nofun⟩

/-- While the partition that acquired the device owns it, no other transfer is as it should be. -/
theorem Acquired.notByOwner (hkeys : d.keys.toNat + 1 < 2 ^ 63) (hop : TransferCorrect d op) :
    NotByOwner d.kind o op := by
  cases op with
  | cookie => trivial
  | cleanup => trivial
  | transfer src dst =>
    obtain ⟨rc, d', hx, -, hagain⟩ := hop
    by_cases hsrc : src = o
    · -- the transfer succeeds, and no partition can transfer the device after it
      exfalso
      subst hsrc
      obtain ⟨e, he, hm, -⟩ := transfer_owner h hkeys dst
      obtain ⟨rfl, rfl⟩ : hSuccess = rc ∧ e = d' := by simpa using he.symm.trans hx
      obtain ⟨q, e', hq⟩ := (hagain rfl dst).2 rfl
      rw [hm.refused] at hq
      split_ifs at hq
      simp [hParameter, hSuccess] at hq
    cases hk : d.kind with
    | crq => exact ⟨rfl, hsrc⟩
    | llan =>
      rw [transfer_stranger h.found (h.stranger.2 hsrc), hk] at hx
      cases hx

/-- An operation that is not a transfer by the owner returns and keeps the owner. -/
theorem Acquired.step (hop : NotByOwner d.kind o op) :
    ∃ d', vioStep d op = .ok d' ∧ Acquired o d' ∧ d'.kind = d.kind ∧
      d'.keys.toNat ≤ d.keys.toNat + 1 := by
  cases op with
  | cookie =>
    refine ⟨_, rfl, ⟨h.found, h.freed, h.owner, h.valid, h.record, h.other, h.todo⟩, rfl, ?_⟩
    exact toNat_add_one_le d.keys
  | cleanup => exact ⟨d, vioCleanup_idle h.todo, h, rfl, Nat.le_succ _⟩
  | transfer src dst =>
    refine ⟨d, ?_, h, rfl, Nat.le_succ _⟩
    rw [vioStep, transfer_stranger h.found (h.stranger.2 hop.2), if_pos hop.1, ok_bind]

end

theorem Acquired.alongSteps (ops : List VioOp) :
    ∀ {d : VioDevice}, Acquired o d → (∀ op ∈ ops, NotByOwner d.kind o op) →
      AlongSteps vioStep TransferCorrect d ops := by
  induction ops with
  | nil => exact fun _ _ => trivial
  | cons op ops ih =>
    intro d h hops
    rw [forall_mem_cons] at hops
    refine ⟨h.correct hops.1, fun e he => ?_⟩
    obtain ⟨d', hx, h', hk, -⟩ := h.step hops.1
    cases hx.symm.trans he
    exact ih h' (hk.symm ▸ hops.2)

theorem Acquired.notByOwner_of_alongSteps (ops : List VioOp) :
    ∀ {d : VioDevice}, Acquired o d → d.keys.toNat + ops.length < 2 ^ 63 →
      AlongSteps vioStep TransferCorrect d ops → ∀ op ∈ ops, NotByOwner d.kind o op := by
  induction ops with
  | nil => exact fun _ _ _ => forall_mem_nil _
  | cons op ops ih =>
    intro d h hkeys hall
    rw [length_cons] at hkeys
    have hop : NotByOwner d.kind o op := h.notByOwner (by omega) hall.1
    obtain ⟨d', hx, h', hk, hle⟩ := h.step hop
    have hrest := ih h' (by omega) (hall.2 d' hx)
    rw [hk] at hrest
    exact forall_mem_cons.2 ⟨hop, hrest⟩

/-! ### The users -/

/-- The transfer is not one of a partition to itself. -/
def BetweenTwo : VioOp → Prop
  | .transfer src dst => src ≠ dst
  | .cleanup => True
  | .cookie => True

/-- The partition that acquired the device owns it, or has transferred it to another one. -/
def Owned (o : OsId) (d : VioDevice) : Prop := Acquired o d ∨ ∃ q, q ≠ o ∧ Moved o q d

/-- What a transfer does, if it is refused or stops the hypervisor. -/
theorem usersCorrect_of_refused {c : Prop} [Decidable c]
    (hx : vioTransfer d src dst = if c then .ok (hParameter, d) else .error .assertion) :
    UsersCorrect d (.transfer src dst) ∧
      ∀ d', vioStep d (.transfer src dst) = .ok d' → d' = d := by
  split_ifs at hx with hc
  · constructor
    · intro rc d' h
      cases hx.symm.trans h
      exact usersKept_refused d dst
    · intro d' h
      rw [vioStep, hx] at h
      cases h
      rfl
  constructor
  · intro rc d' h
    cases hx.symm.trans h
  · intro d' h
    rw [vioStep, hx] at h
    cases h

/-- One operation while the partition that acquired the device owns it. -/
theorem Acquired.usersCorrect (h : Acquired o d)
    (hop : BetweenTwo op) (hkeys : d.keys.toNat + 1 < 2 ^ 63) :
    UsersCorrect d op ∧ ∀ d', vioStep d op = .ok d' →
      Owned o d' ∧ d'.keys.toNat ≤ d.keys.toNat + 1 := by
  have hquiet : NotByOwner d.kind o op → ∀ d', vioStep d op = .ok d' →
      Owned o d' ∧ d'.keys.toNat ≤ d.keys.toNat + 1 := by
    intro hnot d' hx
    obtain ⟨e, he, h', -, hle⟩ := h.step hnot
    cases he.symm.trans hx
    exact ⟨.inl h', hle⟩
  cases op with
  | cookie => exact ⟨trivial, hquiet trivial⟩
  | cleanup =>
    refine ⟨fun d' hx => ?_, hquiet trivial⟩
    cases (vioCleanup_idle h.todo).symm.trans hx
    exact fun _ => .rfl
  | transfer src dst =>
    by_cases hsrc : src = o
    · subst hsrc
      obtain ⟨e, he, hm, hk⟩ := transfer_owner h hkeys dst
      constructor
      · intro rc d' hx
        cases he.symm.trans hx
        exact ⟨nofun, fun _ => usable_iff hm.found hm.owner hm.valid⟩
      · intro d' hx
        rw [vioStep, he] at hx
        cases hx
        exact ⟨.inr ⟨dst, hop.symm, hm⟩, hk ▸ toNat_add_one_le d.keys⟩
    obtain ⟨hcorrect, hkeep⟩ :=
      usersCorrect_of_refused (transfer_stranger h.found (h.stranger.2 hsrc) dst)
    refine ⟨hcorrect, fun d' hx => ?_⟩
    rw [hkeep d' hx]
    exact ⟨.inl h, Nat.le_succ _⟩

theorem vioRescind_stranger (h : (d.res r).srOwner ≠ d.getos) : vioRescind d r = d :=
  if_neg fun hc => h hc.2

/-- The rescind of the old record finds that its partition does not own the device any more. -/
theorem Moved.cleanup (h : Moved o q d) (hne : q ≠ o) :
    vioCleanup d = .ok { d with todo := d.todo.tail } := by
  rcases ht : d.todo with _ | ⟨r, todo⟩
  · rw [vioCleanup_idle ht, tail_nil, ← ht]
  have hr : r = !d.ownerRes := h.todo r (by simp [ht])
  have hleave : vioRescind { d with todo := todo } (!d.ownerRes) = { d with todo := todo } := by
    refine vioRescind_stranger fun hc => hne ?_
    exact (Option.some_inj.1 (h.other.symm.trans (hc.trans h.owner))).symm
  rw [vioCleanup, ht]
  simp only [hr, h.other, h.rescinded, hleave]
  exact if_neg (by rw [h.freed]; exact nofun)

/-- One operation after the transfer: no second one succeeds. -/
theorem Moved.usersCorrect (h : Moved o q d) (hne : q ≠ o)
    (op : VioOp) : UsersCorrect d op ∧ ∀ d', vioStep d op = .ok d' →
      Moved o q d' ∧ d'.keys.toNat ≤ d.keys.toNat + 1 := by
  cases op with
  | cookie =>
    refine ⟨trivial, fun d' hx => ?_⟩
    cases hx
    exact ⟨⟨h.found, h.freed, h.owner, h.valid, h.other, h.rescinded, h.todo⟩,
      toNat_add_one_le d.keys⟩
  | cleanup =>
    have hnext : ∀ d', vioCleanup d = .ok d' → d' = { d with todo := d.todo.tail } := by
      intro d' hx
      cases (h.cleanup hne).symm.trans hx
      rfl
    constructor
    · intro d' hx
      rw [hnext d' hx]
      exact fun _ => .rfl
    · intro d' hx
      rw [hnext d' hx]
      exact ⟨⟨h.found, h.freed, h.owner, h.valid, h.other, h.rescinded,
        fun r hr => h.todo r (mem_of_mem_tail hr)⟩, Nat.le_succ _⟩
  | transfer src dst =>
    obtain ⟨hcorrect, hkeep⟩ := usersCorrect_of_refused (h.refused src dst)
    refine ⟨hcorrect, fun d' hx => ?_⟩
    rw [hkeep d' hx]
    exact ⟨h, Nat.le_succ _⟩

theorem Owned.step (h : Owned o d) (hop : BetweenTwo op) (hkeys : d.keys.toNat + 1 < 2 ^ 63) :
    UsersCorrect d op ∧ ∀ d', vioStep d op = .ok d' →
      Owned o d' ∧ d'.keys.toNat ≤ d.keys.toNat + 1 := by
  rcases h with h | ⟨q, hne, h⟩
  · exact h.usersCorrect hop hkeys
  · obtain ⟨hcorrect, hnext⟩ := h.usersCorrect hne op
    exact ⟨hcorrect, fun d' hx => ⟨.inr ⟨q, hne, (hnext d' hx).1⟩, (hnext d' hx).2⟩⟩

/-- **The users along a chain** of transfers between different partitions: a transfer that fails
leaves the owner as it is, and after one that succeeds exactly the destination can use the device,
also after the old record has been rescinded. -/
theorem transfers_users (ops : List VioOp) :
    ∀ {d : VioDevice}, Owned o d → (∀ op ∈ ops, BetweenTwo op) →
      d.keys.toNat + ops.length < 2 ^ 63 → AlongSteps vioStep UsersCorrect d ops := by
  induction ops with
  | nil => exact fun _ _ _ => trivial
  | cons op ops ih =>
    intro d h hops hkeys
    rw [length_cons] at hkeys
    rw [forall_mem_cons] at hops
    obtain ⟨hcorrect, hnext⟩ := h.step hops.1 (by omega)
    refine ⟨hcorrect, fun d' hx => ?_⟩
    obtain ⟨h', hle⟩ := hnext d' hx
    exact ih h' hops.2 (by omega)

/-! ### Both together -/

/-- **Chains of transfers** of a device that a partition has acquired, with cookies given to other
resources and rescinds completed in between.  If no transfer is by the owner, or of a logical LAN,
all are as they should be.  As long as the counter of the cookies does not reach the sign bit, this
is the only case; what holds of the other chains is that the device has the right user. -/
theorem transfers_iff {kind : VioKind} {keys : Uval} {o : OsId} {d : VioDevice}
    (h : vioAcquire kind keys o = .ok d) (ops : List VioOp) :
    ((∀ op ∈ ops, NotByOwner kind o op) → AlongSteps vioStep TransferCorrect d ops) ∧
    (d.keys.toNat + ops.length < 2 ^ 63 →
      (AlongSteps vioStep TransferCorrect d ops ↔ ∀ op ∈ ops, NotByOwner kind o op) ∧
      ((∀ op ∈ ops, BetweenTwo op) → AlongSteps vioStep UsersCorrect d ops)) := by
  obtain ⟨rfl, hacq, -⟩ := vioAcquire_acquired h
  refine ⟨hacq.alongSteps ops, fun hkeys => ⟨⟨?_, hacq.alongSteps ops⟩, ?_⟩⟩
  · exact hacq.notByOwner_of_alongSteps ops hkeys
  · exact fun hops => transfers_users ops (.inl hacq) hops hkeys

theorem transfers_iff_refused : ∃ d, vioAcquire .crq 1 0 = .ok d ∧
    AlongSteps vioStep TransferCorrect d [.transfer 1 2, .cookie, .cleanup] ∧
    AlongSteps vioStep UsersCorrect d [.transfer 0 1, .cleanup, .transfer 0 2] := by
  obtain ⟨d, hd⟩ := vioAcquire_first .crq
  have hkeys : d.keys = 2 := (vioAcquire_acquired hd).2.2
  refine ⟨d, hd, (transfers_iff hd _).1 (by simp [NotByOwner]), ?_⟩
  exact ((transfers_iff hd _).2 (by rw [hkeys]; decide)).2 (by simp [BetweenTwo])

/-- Partition 0 acquires a device and transfers it to partition 1, which cannot transfer it to
partition 2: the record that partition 0 had still names it as the owner. -/
theorem transfer_stuck (kind : VioKind) : ∃ d d', vioAcquire kind 1 0 = .ok d ∧
    vioTransfer d 0 1 = .ok (hSuccess, d') ∧ vioTransfer d' 1 2 = .error .assertion ∧
    ¬ AlongSteps vioStep TransferCorrect d [.transfer 0 1] := by
  obtain ⟨d, hd⟩ := vioAcquire_first kind
  obtain ⟨-, hacq, hkeys⟩ := vioAcquire_acquired hd
  obtain ⟨d', hx, hm, -⟩ := transfer_owner hacq (by rw [hkeys]; decide) 1
  refine ⟨d, d', hd, hx, ?_, fun hall => ?_⟩
  · rw [hm.refused, if_neg (fun h => h.2 hm.owner)]
  · have hops := hacq.notByOwner_of_alongSteps _ (by rw [hkeys]; decide) hall
    exact absurd rfl (hops _ mem_cons_self).2

theorem transfer_twice : ∃ d d', vioAcquire .crq 1 0 = .ok d ∧
    vioTransfer d 0 1 = .ok (hSuccess, d') ∧ vioTransfer d' 1 2 = .error .assertion ∧
    ¬ AlongSteps vioStep TransferCorrect d [.transfer 0 1] :=
  transfer_stuck .crq

end Rhype
