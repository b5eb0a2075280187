import Mathlib.Order.BooleanAlgebra.Set
import Rhype.Llan.Equiv.Ports

/-!
# The buffers in the pools

`LlanSys.bufs s id` is the set of the buffers that device `id` has, each with its pool.  Received
frames take buffers away, and a registration empties the pools; only `llan_add_buf` puts a buffer
into one, and it takes the number of the pool from the page of the buffer list.
-/

namespace Rhype

open Function

/-! ### Buffers -/

/-- The valid descriptors in the pools. -/
def LlanDev.bufs (l : LlanDev) : Set (Fin llanBlPools × TceBdesc) :=
  {x | x.2.lbdCtrlV = true ∧ ∃ b, l.llBlistPool x.1 b = x.2}

/-- The buffers of each device. -/
def LlanSys.bufs (s : LlanSys) (id : Nat) : Set (Fin llanBlPools × TceBdesc) :=
  (s.llan id).elim ∅ LlanDev.bufs

section

variable {s t : LlanSys} {id : Nat} {l l' : LlanDev} {mem : Memory} {x : Fin llanBlPools × TceBdesc}

theorem bufs_of_llan (hl : s.llan id = some l) : s.bufs id = l.bufs := by
  rw [LlanSys.bufs, hl, Option.elim_some]

theorem bufs_congr (hllan : t.llan = s.llan) : t.bufs = s.bufs := by
  unfold LlanSys.bufs
  rw [hllan]

theorem bufs_setDev (s : LlanSys) (id : Nat) (l : LlanDev) :
    (s.setDev id l).bufs = update s.bufs id l.bufs :=
  comp_update (fun o : Option LlanDev => o.elim ∅ LlanDev.bufs) s.llan id (some l)

theorem bufs_release (s : LlanSys) (id : Nat) : (s.release id).bufs = s.bufs :=
  LlanSys.comp_map (fun o : Option LlanDev => o.elim ∅ LlanDev.bufs)
    (f := fun l => { l with llLock := false }) (fun _ => rfl) s id

theorem bufs_acquire (hl : s.llan id = some l) : (s.setDev id l.acquire).bufs = s.bufs :=
  LlanSys.comp_put (fun o : Option LlanDev => o.elim ∅ LlanDev.bufs) hl rfl

theorem bufs_put (hl : s.llan id = some l) (hbufs : l'.bufs ⊆ l.bufs) :
    ({ s with mem := mem }.setDev id l').bufs ≤ s.bufs := by
  rw [bufs_setDev]
  refine update_le_iff.2 ⟨?_, fun d _ => le_rfl⟩
  rw [bufs_of_llan hl]
  exact hbufs

theorem LlanSys.Locks.bufs_le {uaddr : Uval} (hlocks : s.Locks uaddr id l)
    (ht : t.bufs ≤ (s.setDev id l.acquire).bufs) : (t.release id).bufs ≤ s.bufs := by
  rw [bufs_acquire hlocks.llan] at ht
  rw [bufs_release]
  exact ht

/-! ### Descriptors -/

@[simp]
theorem lbdCtrlV_setCtrlV (bd : TceBdesc) (v : Bool) : (bd.setCtrlV v).lbdCtrlV = v := by
  unfold TceBdesc.setCtrlV TceBdesc.lbdCtrlV
  rw [BitVec.getLsbD_append]
  simp

theorem mem_bufs_setPool {l : LlanDev} {p : Fin llanBlPools} {b : Fin llanBlPoolNum} {bd : TceBdesc}
    (hx : x ∈ (l.setPool p b bd).bufs) : x ∈ l.bufs ∨ x = (p, bd) ∧ bd.lbdCtrlV = true := by
  obtain ⟨q, d⟩ := x
  obtain ⟨hvalid, c, hc⟩ := hx
  dsimp only [LlanDev.setPool] at hvalid hc
  by_cases hq : q = p
  · subst hq
    rw [update_self] at hc
    by_cases hcb : c = b
    · subst hcb
      rw [update_self] at hc
      subst hc
      exact .inr ⟨rfl, hvalid⟩
    · rw [update_of_ne hcb] at hc
      exact .inl ⟨hvalid, c, hc⟩
  · rw [update_of_ne hq] at hc
    exact .inl ⟨hvalid, c, hc⟩

/-! ### Received frames -/

variable {mem' : Memory} {size rb : Uval} {ret : Sval} {recvs : List LlanRecv} {f : LlanFrame}

theorem llanGetbuf_bufs (hx : llanGetbuf mem l size = .ok (rb, l', mem')) : l'.bufs ⊆ l.bufs := by
  rcases llanGetbuf_cases hx with rfl | ⟨p, b, bd, rfl⟩
  · exact subset_rfl
  intro x hx
  rcases mem_bufs_setPool hx with hmem | ⟨-, hvalid⟩
  · exact hmem
  · rw [lbdCtrlV_setCtrlV] at hvalid
    cases hvalid

theorem llanPut_bufs {busy : Sval} {rq : LlanRqe} {fill : Memory → Uval → Memory}
    (hx : llanPut s id size busy rq fill = .ok (ret, recvs, t)) : t.bufs ≤ s.bufs := by
  obtain ⟨l, hl, hx⟩ := of_seq hx
  obtain ⟨⟨rb, l', mem⟩, hbuf, hx⟩ := of_seq hx
  rw [live_ok] at hl
  have hbufs := llanGetbuf_bufs hbuf
  dsimp only at hx
  split_ifs at hx with hnull
  · cases hx
    exact bufs_put hl hbufs
  cases hx
  obtain ⟨idx, toggle, hrqe⟩ := llanWriteRqe_eq (fill mem rb) l' rq rb
  rw [hrqe]
  exact bufs_put hl hbufs

theorem Receives.bufs (hr : Receives s recvs t) : t.bufs ≤ s.bufs := by
  induction hr with
  | nil => exact le_rfl
  | put _ hx ih => exact (llanPut_bufs hx).trans ih

/-! ### The other calls -/

variable {os : OsId} {uaddr : Uval} {ret : Sval} {recvs : List LlanRecv} {mac rq : BitVec 64}

theorem llanRegisterLocked_bufs {bl fl : Uval} (hl : s.llan id = some l)
    (hx : llanRegisterLocked s id l bl rq fl mac = .ok (ret, t)) : t.bufs ≤ s.bufs := by
  rcases llanRegisterLocked_cases hx with ⟨-, mem, l', rfl, -, -, hpool⟩ |
    ⟨-, mem, -, pg, recvq, fpg, l', i, u, rfl, -, -, hadd, rfl⟩
  · refine bufs_put hl ?_
    rw [LlanDev.bufs, hpool]
    rfl
  -- the pools were emptied before the port was taken, and so they are still
  rw [bufs_setDev, bufs_congr (llan_llanMacAdd hadd), bufs_setDev, update_idem]
  refine update_le_iff.2 ⟨?_, fun d _ => le_rfl⟩
  rintro x ⟨hvalid, b, hb⟩
  rw [← hb] at hvalid
  exact absurd hvalid (show ¬ (⟨0⟩ : TceBdesc).lbdCtrlV = true by decide)

theorem llanRegister_bufs {bl fl : Uval}
    (hx : llanRegister s os uaddr bl rq fl mac = .ok (ret, t)) : t.bufs ≤ s.bufs := by
  rcases llanRegister_spec hx with
    ⟨rfl, -⟩ | ⟨id, l, hlocks, -, -, ⟨-, rfl⟩ | ⟨-, u, rfl, hlocked⟩⟩
  · exact le_rfl
  · exact (bufs_acquire hlocks.llan).le
  · exact hlocks.bufs_le (llanRegisterLocked_bufs (update_self ..) hlocked)

theorem LlanSys.Tends.bufs (ht : s.Tends t) : t.bufs = s.bufs := by
  refine ht.comp (fun o => o.elim ∅ LlanDev.bufs) fun l l' hl' => ?_
  rw [hl']
  rfl

theorem llanSend_bufs {bd : List TceBdesc} {token : Uval}
    (hx : llanSend s os uaddr bd token = .ok (ret, recvs, t)) : t.bufs ≤ s.bufs := by
  rcases llanSend_spec hx with ⟨rfl, -⟩ | ⟨id, l, u, hlocks, -, rfl, hsend⟩
  · exact le_rfl
  refine hlocks.bufs_le ?_
  rcases llanSendLocked_spec hsend with ⟨rfl, -⟩ | ⟨f, -, hr⟩
  · exact le_rfl
  · exact hr.bufs.trans (bufs_congr llan_llanMacCacheAdd).le

/-! ### `llan_add_buf` -/

variable {os : OsId} {uaddr : Uval} {ret : Sval} {bd d : TceBdesc}

/-- What is in the pools after the call was there before, or it is the new buffer, in the pool of
the descriptor in the page. -/
theorem llanAddBuf_bufs (hx : llanAddBuf s os uaddr bd = .ok (ret, t)) (k : Nat)
    (hmem : x ∈ t.bufs k) :
    x ∈ s.bufs k ∨ ∃ d id l, AddReads s os uaddr bd d id l ∧ d.lbdAddr.toNat = x.1 ∧ x.2 = bd := by
  rcases llanAddBuf_spec hx with ⟨rfl, -⟩ |
    ⟨id, l, r, hlocks, -, ⟨-, rfl⟩ | ⟨-, _, rfl, -, rfl | ⟨d, p, b, hreads, hp, rfl⟩⟩⟩
  · exact .inl hmem
  · rw [bufs_acquire hlocks.llan] at hmem
    exact .inl hmem
  · rw [bufs_release, bufs_acquire hlocks.llan] at hmem
    exact .inl hmem
  rw [bufs_release, bufs_setDev, bufs_acquire hlocks.llan] at hmem
  by_cases hk : k = id
  · subst hk
    rw [update_self] at hmem
    rcases mem_bufs_setPool hmem with hold | ⟨rfl, -⟩
    · rw [bufs_of_llan hlocks.llan]
      exact .inl hold
    · exact .inr ⟨d, k, l, hreads, hp, rfl⟩
  · rw [update_of_ne hk] at hmem
    exact .inl hmem

end

end Rhype
