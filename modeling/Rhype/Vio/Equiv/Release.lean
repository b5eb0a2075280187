import Rhype.Crq.Equiv.Protocol
import Rhype.Llan.Equiv.Lock
import Rhype.Vio.Release
import Rhype.Vterm.Equiv.Calls

/-!
# What `HVIO_RELEASE` reports

The result should be `H_Success` exactly when the device was released, and a device that is reported
as not released should be left as it is.

* `crq_release` takes the result of `crq_release_internal` as a truth value, but that is 0 when the
  close event was delivered.  A CRQ whose other end is connected is released and reported as busy.
* A terminal is always released, except that a server whose client was freed by the controlling
  partition has no queues any more, and a pointer that is `NULL` is followed.
-/

namespace Rhype

/-! ### Released devices -/

/-- The partition has an end of the pair with this number, and after the call the end is neither
used nor valid, and the other one is without a partner. -/
def CrqReleased (p p' : CrqPair) (os : OsId) (liobn : BitVec 32) : Prop :=
  ∃ e, crqGetCrq p (liobn.setWidth 64) = some e ∧ (p.ends e).cpOs = some os ∧
    (p'.ends e).cpFlags &&& (crqFlagUsed ||| crqFlagValid) = 0 ∧
    (p'.ends (!e)).cpFlags &&& crqFlagHasPartner = 0

/-- The partition has a terminal with this number, and after the call the terminal is gone. -/
def VtReleased (s s' : VtSys) (os : OsId) (liobn : BitVec 32) : Prop :=
  ∃ v vt, vtGet s (liobn.setWidth 64) = .ok (some (v, vt)) ∧ vt.vtOwner = some os ∧ s'.vt v = none

/-- The CRQ or the terminal with this number was released. -/
def DeviceReleased (s s' : VioSys) (os : OsId) (liobn : BitVec 32) : Prop :=
  match viosGet (vioType liobn) with
  | some .crq => CrqReleased s.crq s'.crq os liobn
  | some .vterm => VtReleased s.vt s'.vt os liobn
  | _ => False

/-- The call returns, its result says whether the device was released, and if not nothing has
changed. -/
def ReleaseReported (s : VioSys) (os : OsId) (liobn : BitVec 32) : Prop :=
  ∃ rc ws s', vioRelease s os liobn = .ok (rc, ws, s') ∧
    (rc = hSuccess ↔ DeviceReleased s s' os liobn) ∧ (rc ≠ hSuccess → s' = s ∧ ws = [])

/-- The number is that of a CRQ of the partition whose other end is connected. -/
def PeerConnected (s : VioSys) (os : OsId) (liobn : BitVec 32) : Prop :=
  viosGet (vioType liobn) = some .crq ∧ ∃ e, crqGetCrq s.crq (liobn.setWidth 64) = some e ∧
    (s.crq.ends e).cpOs = some os ∧ crqHaspartner (s.crq.ends (!e)) = true

/-- The number is that of a terminal of the partition that has lost its queues. -/
def ServerStripped (s : VioSys) (os : OsId) (liobn : BitVec 32) : Prop :=
  viosGet (vioType liobn) = some .vterm ∧ ∃ v vt,
    vtGet s.vt (liobn.setWidth 64) = .ok (some (v, vt)) ∧ vt.vtOwner = some os ∧ QueuesLost vt

/-! ### CRQs -/

variable {p : CrqPair} {s : VioSys} {os : OsId} {liobn : BitVec 32}

theorem crqReleaseLocked_flags (p : CrqPair) (e : Bool) :
    ((crqReleaseLocked p e).2.2.ends e).cpFlags &&& (crqFlagUsed ||| crqFlagValid) = 0 ∧
    ((crqReleaseLocked p e).2.2.ends (!e)).cpFlags &&& crqFlagHasPartner = 0 := by
  unfold crqReleaseLocked
  dsimp only
  constructor
  · rw [CrqPair.ends_setEnd_self, BitVec.and_assoc]
    exact BitVec.and_zero
  · rw [CrqPair.ends_setEnd_not, CrqPair.ends_setEnd_self, BitVec.and_assoc]
    exact BitVec.and_zero

theorem crqReleaseLocked_ret (p : CrqPair) (e : Bool) :
    (crqReleaseLocked p e).1 = if crqHaspartner (p.ends (!e)) then hSuccess else hClosed := by
  have hret : (crqReleaseLocked p e).1 = (crqPutEntryRawLocked p (!e) closeMsg).1 := rfl
  rw [hret, crqPutEntryRawLocked]
  split_ifs <;> rfl

theorem crqRelease_refused
    (h : ∀ e, crqGetCrq p (liobn.setWidth 64) = some e → (p.ends e).cpOs ≠ some os) :
    crqRelease p os liobn = (hParameter, [], p) := by
  unfold crqRelease
  cases he : crqGetCrq p (liobn.setWidth 64) with
  | none => rfl
  | some e => exact if_pos fun hos => h e he hos.symm

theorem crqRelease_owned {e : Bool}
    (he : crqGetCrq p (liobn.setWidth 64) = some e) (hos : (p.ends e).cpOs = some os) :
    crqRelease p os liobn =
      (if crqHaspartner (p.ends (!e)) then hBusy else hSuccess, (crqReleaseLocked p e).2) := by
  rw [crqRelease, he]
  dsimp only
  rw [if_neg (not_not_intro hos.symm), crqReleaseLocked_ret]
  cases crqHaspartner (p.ends (!e)) <;> rfl

theorem vioRelease_crq (hclass : viosGet (vioType liobn) = some .crq) {rc : Sval}
    {ws : List CrqWrite} (hx : crqRelease s.crq os liobn = (rc, ws, p)) :
    vioRelease s os liobn = .ok (rc, ws, { s with crq := p }) := by
  rw [vioRelease, hclass, hx]

theorem reported_of_refused (hx : vioRelease s os liobn = .ok (hParameter, [], s))
    (hnot : ¬ DeviceReleased s s os liobn) : ReleaseReported s os liobn := by
  refine ⟨hParameter, [], s, hx, iff_of_false (by decide) hnot, fun _ => ⟨rfl, rfl⟩⟩

/-- **The result for a CRQ** is right exactly if the other end is not connected. -/
theorem crq_reported_iff (hclass : viosGet (vioType liobn) = some .crq) :
    ReleaseReported s os liobn ↔ ¬ PeerConnected s os liobn := by
  by_cases hown : ∃ e, crqGetCrq s.crq (liobn.setWidth 64) = some e ∧ (s.crq.ends e).cpOs = some os
  · obtain ⟨e, he, hos⟩ := hown
    have hx := vioRelease_crq hclass (crqRelease_owned he hos)
    have hreleased :
        DeviceReleased s { s with crq := (crqReleaseLocked s.crq e).2.2 } os liobn := by
      rw [DeviceReleased, hclass]
      exact ⟨e, he, hos, crqReleaseLocked_flags s.crq e⟩
    constructor
    · rintro ⟨rc, ws, s', hx', hiff, -⟩ ⟨-, e', he', -, hhas⟩
      cases he.symm.trans he'
      rw [if_pos hhas] at hx
      cases hx.symm.trans hx'
      cases hiff.2 hreleased
    · intro hnot
      have hhas : ¬ crqHaspartner (s.crq.ends (!e)) = true :=
        fun hhas => hnot ⟨hclass, e, he, hos, hhas⟩
      rw [if_neg hhas] at hx
      exact ⟨_, _, _, hx, iff_of_true rfl hreleased, nofun⟩
  · have hrefused : ∀ e, crqGetCrq s.crq (liobn.setWidth 64) = some e →
        (s.crq.ends e).cpOs ≠ some os := fun e he hos => hown ⟨e, he, hos⟩
    refine iff_of_true ?_ ?_
    · refine reported_of_refused (vioRelease_crq hclass (crqRelease_refused hrefused)) ?_
      rw [DeviceReleased, hclass]
      rintro ⟨e, he, hos, -⟩
      exact hown ⟨e, he, hos⟩
    · rintro ⟨-, e, he, hos, -⟩
      exact hown ⟨e, he, hos⟩

/-! ### Terminals -/

theorem vioRelease_vterm (hclass : viosGet (vioType liobn) = some .vterm) :
    vioRelease s os liobn =
      vtRelease s.vt os liobn >>= fun x => .ok (x.1, [], { s with vt := x.2 }) := by
  rw [vioRelease, hclass]

theorem vtGet_ok {s : VtSys} (h : VtOk s) (hclass : viosGet (vioType liobn) = some .vterm) :
    ∃ o, vtGet s (liobn.setWidth 64) = .ok o := by
  have hnum : (liobn.setWidth 64).setWidth 32 = liobn := by simp
  rw [vtGet, hnum, if_pos hclass]
  rcases hx : xirGetDevice s.dev liobn with _ | v
  · exact ⟨none, rfl⟩
  have hdev : s.dev (xirrXisr liobn) = some v := by
    unfold xirGetDevice at hx
    split_ifs at hx
    exact hx
  obtain ⟨vt, hv, -⟩ := h.dev _ v hdev
  exact ⟨some (v, vt), by simp only [hv, live, ok_bind]⟩

/-- **The result for a terminal** is right exactly if it is not a server without its queues. -/
theorem vterm_reported_iff (h : VtOk s.vt) (hclass : viosGet (vioType liobn) = some .vterm) :
    ReleaseReported s os liobn ↔ ¬ ServerStripped s os liobn := by
  obtain ⟨o, hget⟩ := vtGet_ok h hclass
  by_cases hown : ∃ v vt, o = some (v, vt) ∧ vt.vtOwner = some os
  · obtain ⟨v, vt, rfl, hos⟩ := hown
    have hrel := vtRelease_eq h hget hos
    split_ifs at hrel with hq
    · refine iff_of_false ?_ (not_not_intro ⟨hclass, v, vt, hget, hos, hq⟩)
      rintro ⟨rc, ws, s', hx, -⟩
      rw [vioRelease_vterm hclass, hrel] at hx
      cases hx
    obtain ⟨t, ht, hgone, -⟩ := hrel
    refine iff_of_true ?_ ?_
    · refine ⟨hSuccess, [], { s with vt := t }, ?_, iff_of_true rfl ?_, nofun⟩
      · rw [vioRelease_vterm hclass, ht]
        rfl
      · rw [DeviceReleased, hclass]
        exact ⟨v, vt, hget, hos, hgone⟩
    · rintro ⟨-, v', vt', hget', -, hq'⟩
      cases hget.symm.trans hget'
      exact hq hq'
  · have hrefused : ∀ v vt, o = some (v, vt) → vt.vtOwner ≠ some os :=
      fun v vt ho hos => hown ⟨v, vt, ho, hos⟩
    refine iff_of_true ?_ ?_
    · refine reported_of_refused ?_ ?_
      · rw [vioRelease_vterm hclass, vtRelease_refused hget hrefused]
        rfl
      · rw [DeviceReleased, hclass]
        rintro ⟨v, vt, hget', hos, -⟩
        cases hget.symm.trans hget'
        exact hrefused v vt rfl hos
    · rintro ⟨-, v, vt, hget', hos, -⟩
      cases hget.symm.trans hget'
      exact hrefused v vt rfl hos

/-! ### Both -/

/-- **What `HVIO_RELEASE` reports** for a CRQ or a terminal is right, and a device that is reported
as not released is as it was, exactly if the device is not a CRQ of the partition whose other end is
connected, nor one of its terminals that has lost its queues. -/
theorem release_reported_iff {s : VioSys} {os : OsId} {liobn : BitVec 32} (h : VtOk s.vt)
    (hclass : viosGet (vioType liobn) = some .crq ∨ viosGet (vioType liobn) = some .vterm) :
    ReleaseReported s os liobn ↔ ¬ PeerConnected s os liobn ∧ ¬ ServerStripped s os liobn := by
  rcases hclass with hclass | hclass
  · have hno : ¬ ServerStripped s os liobn := fun hs => by cases hclass.symm.trans hs.1
    rw [crq_reported_iff hclass, and_iff_left hno]
  · have hno : ¬ PeerConnected s os liobn := fun hs => by cases hclass.symm.trans hs.1
    rw [vterm_reported_iff h hclass, and_iff_right hno]

/-- A pair of CRQs, and no terminals. -/
def crqOnly (p : CrqPair) : VioSys := ⟨p, lanSys fun _ => 0, noTerminals (fun _ => false) 0⟩

/-- Both partitions have registered their ends. -/
def connectedPair : CrqPair :=
  { onePagePair with ends := fun e =>
      { onePagePair.ends e with cpFlags := crqFlagUsed ||| crqFlagHasPartner } }

/-- The controlling partition, which has the server, frees the client of partition 1. -/
def stripServer : List VtCall :=
  [.acquire 0 0x1000, .acquire 1 0, .register 0 0x400000 (some 1) 0x400001, .free 0 0x400001]

theorem release_reported_iff_onePagePair : ReleaseReported (crqOnly onePagePair) 0 0x300000 := by
  refine (release_reported_iff (vtOk_noTerminals _ _) (.inl (by decide))).2 ⟨?_, ?_⟩
  · rintro ⟨-, e, he, -, hhas⟩
    cases (show crqGetCrq onePagePair 0x300000 = some false by decide).symm.trans he
    cases hhas
  · exact nofun

/-- A CRQ that is connected is released, and reported as busy.  A server whose client was freed
cannot be released. -/
theorem release_misreported :
    (∃ ws s', vioRelease (crqOnly connectedPair) 0 0x300000 = .ok (hBusy, ws, s') ∧
      DeviceReleased (crqOnly connectedPair) s' 0 0x300000) ∧
    (do
      let s ← stripServer.foldlM vtStep (noTerminals (fun _ => false) 0)
      let x ← vtRelease s 0 0x400000
      .ok x.1) = (.error .null : Hv Sval) := by
  refine ⟨⟨_, _, rfl, ?_⟩, by decide +kernel⟩
  show CrqReleased connectedPair (crqReleaseLocked connectedPair false).2.2 0 0x300000
  exact ⟨false, by decide, rfl, crqReleaseLocked_flags connectedPair false⟩

end Rhype
