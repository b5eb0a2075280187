import Mathlib.Data.Fin.VecNotation
import Mathlib.Tactic.Ring
import Rhype.Llan.Equiv.Bufs

/-!
# The page of the buffer list

`llan_register_locked` clears the page and stores one descriptor for each pool.  As long as the
page is as it was left then (`HonestPage`), a descriptor has the number of a pool, and no more bytes
than the buffers of that pool.
-/

namespace Rhype

open BitVec

/-! ### Doublewords in memory -/

namespace Memory

variable {m m' : Memory} {a b : Uval}

theorem dword_congr (h : ∀ k : Uval, k < 8 → m (a + k) = m' (a + k)) : m.dword a = m'.dword a := by
  have h0 := h 0 (by decide)
  rw [add_zero] at h0
  unfold dword
  rw [h0, h 1 (by decide), h 2 (by decide), h 3 (by decide), h 4 (by decide), h 5 (by decide),
    h 6 (by decide), h 7 (by decide)]

theorem dword_zero {n : Uval} (h : ∀ k : Uval, k < 8 → b + k - a < n) :
    (m.zero a n).dword b = 0 := by
  have hbytes : (m.zero a n).dword b = dword (fun _ => 0) b :=
    dword_congr fun k hk => if_pos (h k hk)
  rw [hbytes]
  show dword (fun _ => 0) 0 = 0
  decide

theorem dword_setDword_of_disjoint (x : BitVec 64) (h : ∀ k : Uval, k < 8 → 8 ≤ b + k - a) :
    (m.setDword a x).dword b = m.dword b :=
  dword_congr fun k hk => if_neg (BitVec.not_lt.2 (h k hk))

theorem setDword_add (m : Memory) (a : Uval) (x : BitVec 64) {k : Uval} (hk : k < 8) :
    m.setDword a x (a + k) = x.extractLsb' (56 - 8 * k.toNat) 8 := by
  have hsub : a + k - a = k := by ring
  rw [setDword, hsub, if_pos hk]

theorem append_bytes (x : BitVec 64) :
    x.extractLsb' 56 8 ++ x.extractLsb' 48 8 ++ x.extractLsb' 40 8 ++ x.extractLsb' 32 8 ++
      x.extractLsb' 24 8 ++ x.extractLsb' 16 8 ++ x.extractLsb' 8 8 ++ x.extractLsb' 0 8 = x := by
  apply eq_of_getLsbD_eq
  intro i hi
  simp only [getLsbD_append, getLsbD_extractLsb']
  split_ifs
  all_goals
    rw [decide_eq_true (by omega), Bool.true_and]
    congr 1
    omega

theorem dword_setDword_self (m : Memory) (a : Uval) (x : BitVec 64) :
    (m.setDword a x).dword a = x := by
  have hzero := setDword_add m a x (k := 0) (by decide)
  rw [add_zero] at hzero
  unfold dword
  rw [hzero, setDword_add m a x (k := 1) (by decide), setDword_add m a x (k := 2) (by decide),
    setDword_add m a x (k := 3) (by decide), setDword_add m a x (k := 4) (by decide),
    setDword_add m a x (k := 5) (by decide), setDword_add m a x (k := 6) (by decide),
    setDword_add m a x (k := 7) (by decide)]
  exact append_bytes x

end Memory

/-! ### Descriptors of the pools -/

/-- The sizes with which `llan_register_locked` sets up the pools. -/
def poolSize : Fin llanBlPools → BitVec 24 := ![2048, 4096, 10240]

/-- The descriptor has the number of a pool, no more bytes than its buffers, and as many if it is
valid. -/
def TceBdesc.Honest (d : TceBdesc) : Prop :=
  ∃ p : Fin llanBlPools, d.lbdAddr.toNat = p ∧ d.lbdLen.toNat ≤ (poolSize p).toNat ∧
    (d.lbdCtrlV = true → d.lbdLen = poolSize p)

/-- The descriptors between that of the filter and the counter. -/
def HonestPage (mem : Memory) (l : LlanDev) : Prop :=
  ∀ i : Uval, llanBlPoolStart ≤ i → i < llanBlCounter →
    (⟨mem.dword (l.blist i)⟩ : TceBdesc).Honest

/-- What `llan_register_locked` stores between the descriptor of the filter and the counter. -/
def poolDword (i : Uval) : BitVec 64 :=
  if i = 11 then (llanPoolBdesc 2 10240).lbdDword
  else if i = 5 then (llanPoolBdesc 1 4096).lbdDword
  else if i = 3 then (llanPoolBdesc 0 2048).lbdDword
  else 0

/-- The page is as `llan_register_locked` left it, but for the counter. -/
def PoolPage (mem : Memory) (l : LlanDev) : Prop :=
  ∀ i : Uval, llanBlPoolStart ≤ i → i < llanBlCounter → mem.dword (l.blist i) = poolDword i

section

variable {mem : Memory} {l : LlanDev} {i j : Uval}

theorem honest_zero : (⟨0⟩ : TceBdesc).Honest := ⟨0, by decide, by decide, by decide⟩

theorem honest_llanPoolBdesc (p : Fin llanBlPools) :
    (llanPoolBdesc (.ofNat 32 p) (poolSize p)).Honest := by
  refine ⟨p, ?_⟩
  revert p
  decide

theorem dword_blist_setDword_self (x : BitVec 64) :
    (mem.setDword (l.blist i) x).dword (l.blist i) = x :=
  Memory.dword_setDword_self ..

theorem dword_blist_setDword (x : BitVec 64) (hi : i < 512) (hj : j < 512) (hij : i ≠ j) :
    (mem.setDword (l.blist j) x).dword (l.blist i) = mem.dword (l.blist i) := by
  refine Memory.dword_setDword_of_disjoint x fun k hk => ?_
  unfold LlanDev.blist
  bv_omega

theorem dword_blist_zero (hi : i < 512) :
    (mem.zero l.llBlist llanBlSize).dword (l.blist i) = 0 := by
  refine Memory.dword_zero fun k hk => ?_
  unfold LlanDev.blist llanBlSize pgsize
  bv_omega

theorem llanInitPools_eq (mem : Memory) (l : LlanDev) : llanInitPools mem l =
    .ok (((mem.setDword (l.blist 3) (llanPoolBdesc 0 2048).lbdDword).setDword (l.blist 5)
      (llanPoolBdesc 1 4096).lbdDword).setDword (l.blist 11) (llanPoolBdesc 2 10240).lbdDword) :=
  rfl

theorem llanInitPools_page {mem' : Memory}
    (hpage : ∀ i : Uval, llanBlPoolStart ≤ i → i < llanBlCounter → mem.dword (l.blist i) = 0)
    (hx : llanInitPools mem l = .ok mem') : PoolPage mem' l := by
  rw [llanInitPools_eq] at hx
  cases hx
  intro i hlo hhi
  have hi : i < 512 := by
    unfold llanBlCounter at hhi
    bv_omega
  unfold poolDword
  split_ifs with h11 h5 h3
  · rw [h11, dword_blist_setDword_self]
  · rw [dword_blist_setDword _ hi (by decide) h11, h5, dword_blist_setDword_self]
  · rw [dword_blist_setDword _ hi (by decide) h11, dword_blist_setDword _ hi (by decide) h5, h3,
      dword_blist_setDword_self]
  · rw [dword_blist_setDword _ hi (by decide) h11, dword_blist_setDword _ hi (by decide) h5,
      dword_blist_setDword _ hi (by decide) h3, hpage i hlo hhi]

theorem PoolPage.honest (hpage : PoolPage mem l) : HonestPage mem l := by
  intro i hlo hhi
  rw [hpage i hlo hhi]
  unfold poolDword
  split_ifs
  · exact honest_llanPoolBdesc 2
  · exact honest_llanPoolBdesc 1
  · exact honest_llanPoolBdesc 0
  · exact honest_zero

end

/-! ### Registration -/

section

variable {s t : LlanSys} {id : Nat} {l : LlanDev} {mac rq : BitVec 64} {i : Option (Fin llanIfaces)}
  {os : OsId}

theorem mem_llanMacCacheFree : (llanMacCacheFree s id l mac).mem = s.mem := by
  unfold llanMacCacheFree
  dsimp only
  split_ifs <;> rfl

theorem mem_llanMacTake (hx : llanMacTake s id mac = .ok (i, t)) : t.mem = s.mem := by
  unfold llanMacTake at hx
  split at hx
  · cases hx
    rfl
  · obtain ⟨-, -, hx⟩ := of_seq hx
    cases hx
    rfl

theorem mem_llanMacAdd (hx : llanMacAdd s id mac = .ok (i, t)) : t.mem = s.mem := by
  obtain ⟨_ | ⟨d, _ | _⟩, -, hx⟩ := of_seq hx
  · exact mem_llanMacTake hx
  · cases hx
    rfl
  · obtain ⟨ld, -, hx⟩ := of_seq hx
    exact (mem_llanMacTake hx).trans mem_llanMacCacheFree

/-- A device that was registered with the descriptor `rq` of the receive queue. -/
structure Registered (s : LlanSys) (os : OsId) (uaddr : Uval) (rq : BitVec 64) (l : LlanDev) :
    Prop where
  get : llanGet s uaddr = .ok (some (lanNumber uaddr, l))
  owner : l.llOwner = some os
  page : PoolPage s.mem l
  pools : l.llBlistPool = fun _ _ => ⟨0⟩
  recvqLen : (⟨rq⟩ : TceBdesc).lbdLen % 16 = 0
  recvqEnd : l.llRecvqEnd = ((⟨rq⟩ : TceBdesc).lbdLen / 16).setWidth 16
  recvqToggle : l.llRecvqToggle = 1
  recvqIdx : l.llRecvqIdx = 0

theorem llanRegisterLocked_registered {uaddr bl fl : Uval} {x : Nat × LlanDev} {s0 : LlanSys}
    (hget : llanGet s0 uaddr = .ok (some x)) (howner : l.llOwner = some os)
    (hx : llanRegisterLocked s (lanNumber uaddr) l bl rq fl mac = .ok (hSuccess, t)) :
    ∃ l', Registered t os uaddr rq l' := by
  rcases llanRegisterLocked_cases hx with ⟨hret, -⟩ |
    ⟨mem0, mem, filter, pg, recvq, fpg, l', i, u, hl', hlen, hinit, hadd, rfl⟩
  · cases hret
  have hpage : PoolPage u.mem l' := by
    rw [mem_llanMacAdd hadd]
    -- the page was cleared, and the first two doublewords are not those of pools
    refine llanInitPools_page (fun i hlo hhi => ?_) hinit
    have hi : i < 512 ∧ i ≠ 0 ∧ i ≠ 1 := by
      unfold llanBlPoolStart at hlo
      unfold llanBlCounter at hhi
      bv_omega
    refine (dword_blist_setDword (j := llanBlFilter) _ hi.1 (by decide) hi.2.2).trans ?_
    refine (dword_blist_setDword (j := llanBlRecvq) _ hi.1 (by decide) hi.2.1).trans ?_
    exact dword_blist_zero hi.1
  refine ⟨_, ⟨llanGet_congr hget (Function.update_self ..), ?_, hpage, ?_, hlen, ?_, ?_, ?_⟩⟩
  · rw [hl']
    exact howner
  all_goals
    rw [hl']
    rfl

/-- **What registration leaves.** -/
theorem llanRegister_registered {uaddr bl fl : Uval}
    (hx : llanRegister s os uaddr bl rq fl mac = .ok (hSuccess, t)) :
    ∃ l, Registered t os uaddr rq l := by
  obtain ⟨_ | ⟨id, l⟩, hget, hx⟩ := of_seq hx
  · cases hx
  dsimp only at hx
  split_ifs at hx with howner hvalid hlock hreg
  · cases hx
  · cases hx
  · cases hx
  · cases hx
  obtain ⟨⟨ret, u⟩, hlocked, hx⟩ := of_seq hx
  cases hx
  obtain ⟨rfl, -⟩ := llanGet_eq_some hget
  have howner' : l.acquire.llOwner = some os := not_not.1 howner
  obtain ⟨l', hl'⟩ := llanRegisterLocked_registered hget howner' hlocked
  have hrelease : (u.release (lanNumber uaddr)).llan (lanNumber uaddr) =
      some { l' with llLock := false } := by
    refine (Function.update_self ..).trans ?_
    rw [(llanGet_eq_some hl'.get).2, Option.map_some]
  exact ⟨_, llanGet_congr hget hrelease, hl'.owner, hl'.page, hl'.pools, hl'.recvqLen,
    hl'.recvqEnd, hl'.recvqToggle, hl'.recvqIdx⟩

/-- **Registration leaves an honest page.** -/
theorem llanRegister_honest {uaddr bl fl : Uval}
    (hx : llanRegister s os uaddr bl rq fl mac = .ok (hSuccess, t)) :
    ∃ l, t.llan (lanNumber uaddr) = some l ∧ HonestPage t.mem l := by
  obtain ⟨l, hl⟩ := llanRegister_registered hx
  exact ⟨l, (llanGet_eq_some hl.get).2, hl.page.honest⟩

end

end Rhype
