import Rhype.Llan.Equiv.Calls
import Rhype.Tce.Equiv.Xlate

/-!
# The lock of a device

Two early returns leave a device locked: `llan_register` of a device that is registered already, and
`llan_add_buf` of a buffer that is not translated.  After every other call that returns, the locks
are as before: `locked_kept_iff`.
-/

namespace Rhype

open Function LlanSys

/-! ### Acquire and release -/

section

variable {s t : LlanSys} {uaddr : Uval} {id : Nat} {l l' : LlanDev}

theorem locked_release (s : LlanSys) (id : Nat) :
    (s.release id).locked = update s.locked id ((s.locked id).map fun _ => false) := by
  refine (comp_update (Option.map LlanDev.llLock) s.llan id _).trans ?_
  rw [locked, Option.map_map, Option.map_map]
  rfl

theorem LlanSys.Locks.release (hlocks : s.Locks uaddr id l)
    (ht : t.locked = (s.setDev id l.acquire).locked) : (t.release id).locked = s.locked := by
  rw [locked_release, ht, locked_setDev, update_self, update_idem]
  refine update_eq_self_iff.2 ?_
  rw [locked_of_llan hlocks.llan, hlocks.unlocked]
  rfl

theorem LlanSys.Locks.acquire_ne (hlocks : s.Locks uaddr id l) :
    (s.setDev id l.acquire).locked ≠ s.locked := by
  intro heq
  have hid := congrFun heq id
  rw [locked_setDev, update_self, locked_of_llan hlocks.llan, hlocks.unlocked] at hid
  cases hid

/-! ### The calls that release the lock -/

variable {os : OsId} {ret : Sval} {recvs : List LlanRecv}

theorem LlanSys.Tends.locked (ht : s.Tends t) : t.locked = s.locked := by
  refine ht.comp (Option.map LlanDev.llLock) fun l l' hl' => ?_
  rw [hl']
  rfl

theorem locked_llanSend {bd : List TceBdesc} {token : Uval}
    (hx : llanSend s os uaddr bd token = .ok (ret, recvs, t)) : t.locked = s.locked := by
  rcases llanSend_spec hx with ⟨rfl, -⟩ | ⟨id, l, u, hlocks, -, rfl, hsend⟩
  · rfl
  apply hlocks.release
  rcases llanSendLocked_spec hsend with ⟨rfl, -⟩ | ⟨f, -, hr⟩
  · rfl
  · exact hr.keeps.locked.trans (locked_congr llan_llanMacCacheAdd)

/-! ### All the calls -/

/-- The call takes the lock, and returns without releasing it. -/
def LlanCall.LeavesLocked (s : LlanSys) : LlanCall → Prop
  | .register os uaddr _ _ _ _ => ∃ id l, llanGet s uaddr = .ok (some (id, l)) ∧
      l.llOwner = some os ∧ l.llValid = true ∧ l.llLock = false ∧ l.llRegistered = true
  | .addBuf _ uaddr bd => ∃ id l, llanGet s uaddr = .ok (some (id, l)) ∧
      l.llLock = false ∧ l.llTceData.Refuses bd
  | _ => False

variable {os : OsId} {ret : Sval} {recvs : List LlanRecv}

theorem locked_llanRegister_iff {bl fl : Uval} {rq mac : BitVec 64}
    (hx : llanRegister s os uaddr bl rq fl mac = .ok (ret, t)) :
    t.locked = s.locked ↔ ¬ (LlanCall.register os uaddr bl rq fl mac).LeavesLocked s := by
  rcases llanRegister_spec hx with
    ⟨rfl, hnot⟩ | ⟨id, l, hlocks, howner, hvalid, ⟨hreg, rfl⟩ | ⟨hreg, u, rfl, hlocked⟩⟩
  · refine iff_of_true rfl ?_
    rintro ⟨id, l, hget, howner, hvalid, hlock, -⟩
    exact hnot id l ⟨hget, hlock⟩ ⟨howner, hvalid⟩
  · -- the lock is held here
    refine iff_of_false hlocks.acquire_ne (not_not_intro ?_)
    exact ⟨id, l, hlocks.get, howner, hvalid, hlocks.unlocked, hreg⟩
  refine iff_of_true (hlocks.release ?_) ?_
  · rcases llanRegisterLocked_spec (update_self _ _ _) hlocked with
      hkeep | ⟨mem, l', i, v, -, hlock', hadd, rfl⟩
    · exact hkeep.locked
    · rw [locked_setDev, locked_congr (llan_llanMacAdd hadd), locked_setDev, update_idem]
      rw [hlock']
      refine update_eq_self_iff.2 (locked_of_llan ?_).symm
      exact update_self _ _ _
  · rintro ⟨id', l', hget', -, -, hlock', hreg'⟩
    obtain ⟨rfl, rfl⟩ := hlocks.unique ⟨hget', hlock'⟩
    rw [hreg] at hreg'
    cases hreg'

theorem locked_llanAddBuf_iff {bd : TceBdesc} (hx : llanAddBuf s os uaddr bd = .ok (ret, t)) :
    t.locked = s.locked ↔ ¬ (LlanCall.addBuf os uaddr bd).LeavesLocked s := by
  rcases llanAddBuf_spec hx with
    ⟨rfl, hnot⟩ | ⟨id, l, r, hlocks, hxlate, ⟨rfl, rfl⟩ | ⟨hr, u, rfl, hkeep, -⟩⟩
  · refine iff_of_true rfl ?_
    rintro ⟨id, l, hget, hlock, -⟩
    exact hnot id l ⟨hget, hlock⟩
  · -- the lock is held here
    refine iff_of_false hlocks.acquire_ne (not_not_intro ?_)
    exact ⟨id, l, hlocks.get, hlocks.unlocked, (tceBdXlate_eq_null_iff l.setUp).1 hxlate⟩
  refine iff_of_true (hlocks.release hkeep.locked) ?_
  rintro ⟨id', l', hget', hlock', hrefuses⟩
  obtain ⟨rfl, rfl⟩ := hlocks.unique ⟨hget', hlock'⟩
  rw [← tceBdXlate_eq_null_iff l.setUp, hxlate] at hrefuses
  exact hr (Except.ok.inj hrefuses)

end

/-- A device of partition `k` whose eight I/O pages are the real pages from `16 * (k + 1)` on. -/
def lanDev (k : Nat) : LlanDev where
  llSize := 0x10000000
  llTceData := ⟨8, some fun p => ⟨.ofNat 64 ((16 * (k + 1) + p) * 4096 + 3)⟩⟩
  llOwner := some k
  llMac := 0
  llBlistPool := fun _ _ => ⟨0⟩
  llRecvq := 0
  llBlist := 0
  llMfilter := 0
  llLock := false
  llMcastState := 0
  llRegistered := false
  llRecvqToggle := 0
  llValid := true
  llMacIdx := 0
  llMcastCount := 0
  llRecvqIdx := 0
  llRecvqEnd := 0
  setUp := rfl

def lanSys (mem : Memory) : LlanSys where
  llan k := if k < 3 then some (lanDev k) else none
  otherDevice _ := false
  ports _ := ⟨0, fun _ => 0, none, 0⟩
  mem := mem

/-- A descriptor of `len` bytes at `addr`. -/
def lanBdesc (len : BitVec 24) (addr : BitVec 32) : TceBdesc :=
  (((⟨0⟩ : TceBdesc).setCtrlV true).setLen len).setAddr addr

/-- Partition `k` registers its device under `mac`. -/
def lanRegister (k : Nat) (mac : BitVec 64) : LlanCall :=
  .register k (0x100000 + .ofNat 64 k) 0 (lanBdesc 0x100 0x1000).lbdDword 0x2000 mac

end Rhype
