import Mathlib.Data.Finset.Max
import Rhype.Llan.Equiv.Pools
import Rhype.Slots.Held

/-!
# Buffers are handed out once

A device that was registered gets buffers with `llan_add_buf`, and `llan_getbuf` hands them out.  As
long as the partition leaves its page alone, the two agree about the pools: what was added with the
length of a pool was handed out from it or is still in it, with multiplicities (`Handing.balance`).
-/

namespace Rhype

open BitVec Finset Function LlanDev Multiset Option TceBdesc

/-! ### Descriptors -/

@[simp]
theorem lbdLen_setCtrlV (bd : TceBdesc) (v : Bool) : (bd.setCtrlV v).lbdLen = bd.lbdLen := by
  apply eq_of_getLsbD_eq
  intro i hi
  unfold setCtrlV lbdLen
  rw [getLsbD_extractLsb', getLsbD_append, if_pos (by omega),
    getLsbD_extractLsb', getLsbD_extractLsb', Nat.zero_add,
    decide_eq_true (show 32 + i < 63 by omega), Bool.true_and]

@[simp]
theorem lbdAddr_setCtrlV (bd : TceBdesc) (v : Bool) : (bd.setCtrlV v).lbdAddr = bd.lbdAddr := by
  apply eq_of_getLsbD_eq
  intro i hi
  unfold setCtrlV lbdAddr
  rw [getLsbD_extractLsb', getLsbD_append, if_pos (by omega),
    getLsbD_extractLsb', getLsbD_extractLsb', Nat.zero_add, Nat.zero_add,
    decide_eq_true (show i < 63 by omega), Bool.true_and]

theorem tceBdXlate_setCtrlV (td : TceData) (bd : TceBdesc) (v : Bool) :
    tceBdXlate td (bd.setCtrlV v) = tceBdXlate td bd := by
  unfold tceBdXlate
  rw [lbdLen_setCtrlV, lbdAddr_setCtrlV]

/-! ### The smallest pool -/

/-- The pool with the smallest buffers of at least `size` bytes. -/
structure SmallestPool (size : Uval) (p : Fin llanBlPools) : Prop where
  covers : size.toNat ≤ (poolSize p).toNat
  least : ∀ q, size.toNat ≤ (poolSize q).toNat → (poolSize p).toNat ≤ (poolSize q).toNat

theorem poolSize_injective {p q : Fin llanBlPools} (h : (poolSize p).toNat = (poolSize q).toNat) :
    p = q := by
  revert p q
  decide

theorem le_poolSize (p : Fin llanBlPools) : 1024 ≤ poolSize p := by
  revert p
  decide

theorem poolSize_zero_le (p : Fin llanBlPools) : (poolSize 0).toNat ≤ (poolSize p).toNat := by
  revert p
  decide

theorem SmallestPool.unique {size : Uval} {p q : Fin llanBlPools} (hp : SmallestPool size p)
    (hq : SmallestPool size q) : p = q :=
  poolSize_injective (le_antisymm (hp.least q hq.covers) (hq.least p hp.covers))

theorem exists_smallestPool {size : Uval} {p : Fin llanBlPools}
    (hp : size.toNat ≤ (poolSize p).toNat) : ∃ q, SmallestPool size q := by
  let enough := univ.filter fun q => size.toNat ≤ (poolSize q).toNat
  obtain ⟨q, hq, hmin⟩ := enough.exists_min_image (fun q => (poolSize q).toNat)
    ⟨p, mem_filter.2 ⟨mem_univ p, hp⟩⟩
  exact ⟨q, (mem_filter.1 hq).2, fun r hr => hmin r (mem_filter.2 ⟨mem_univ r, hr⟩)⟩

/-- Where the descriptor of a pool is, from the first place on. -/
def poolPlace : Fin llanBlPools → Fin 256 := ![1, 3, 9]

section

variable {mem : Memory} {l : LlanDev} {size : Uval} {p : Fin llanBlPools}

theorem PoolPage.poolDesc_eq (hpage : PoolPage mem l) (q : Fin 256) :
    l.poolDesc mem q = ⟨poolDword (llanBlPoolStart + .ofNat 64 q)⟩ := by
  unfold poolDesc
  rw [hpage _ (by unfold llanBlPoolStart; bv_omega)
    (by unfold llanBlPoolStart llanBlCounter; bv_omega)]

theorem lbdLen_before_poolPlace : ∀ (p : Fin llanBlPools) (q : Fin 256), q < poolPlace p →
    (⟨poolDword (llanBlPoolStart + .ofNat 64 q)⟩ : TceBdesc).lbdLen = 0 ∨
    ∃ r, (⟨poolDword (llanBlPoolStart + .ofNat 64 q)⟩ : TceBdesc).lbdLen = poolSize r ∧
      (poolSize r).toNat < (poolSize p).toNat := by
  decide +kernel

theorem lbdLen_le_poolSize : ∀ q : Fin 256, ∃ p,
    (⟨poolDword (llanBlPoolStart + .ofNat 64 q)⟩ : TceBdesc).lbdLen.toNat ≤ (poolSize p).toNat := by
  decide +kernel

theorem poolDesc_poolPlace : ∀ p : Fin llanBlPools,
    (⟨poolDword (llanBlPoolStart + .ofNat 64 (poolPlace p))⟩ : TceBdesc) =
      llanPoolBdesc (.ofNat 32 p) (poolSize p) := by
  decide

theorem llanPoolBdesc_fields : ∀ p : Fin llanBlPools,
    (llanPoolBdesc (.ofNat 32 p) (poolSize p)).lbdLen = poolSize p ∧
    (llanPoolBdesc (.ofNat 32 p) (poolSize p)).lbdAddr.toNat = p ∧
    (llanPoolBdesc (.ofNat 32 p) (poolSize p)).lbdCtrlV = true := by
  decide

theorem le_setWidth_iff {len : BitVec 24} : size ≤ len.setWidth 64 ↔ size.toNat ≤ len.toNat := by
  rw [le_def, toNat_setWidth, Nat.mod_eq_of_lt (by omega)]

theorem PoolPage.chosen (hpage : PoolPage mem l) (hp : SmallestPool size p) :
    ∃ d, l.chosen mem size = some d ∧ d.lbdAddr.toNat = p := by
  by_cases hzero : size = 0
  · -- the first descriptor is empty, and has the number 0
    subst hzero
    refine ⟨l.poolDesc mem 0, ?_, ?_⟩
    · unfold LlanDev.chosen
      rw [Fin.find?_eq_some_iff.2 ⟨decide_eq_true (le_setWidth_iff.2 (Nat.zero_le _)),
        fun q hq => absurd hq (Fin.not_lt_zero q)⟩]
      rfl
    · obtain rfl : p = 0 :=
        poolSize_injective (le_antisymm (hp.least 0 (Nat.zero_le _)) (poolSize_zero_le p))
      rw [hpage.poolDesc_eq]
      decide
  · refine ⟨l.poolDesc mem (poolPlace p), ?_, ?_⟩
    · rw [LlanDev.chosen, Fin.find?_eq_some_iff.2 ⟨?_, ?_⟩]
      · rfl
      · rw [decide_eq_true_iff, le_setWidth_iff, hpage.poolDesc_eq, poolDesc_poolPlace,
          (llanPoolBdesc_fields p).1]
        exact hp.covers
      · intro q hq
        rw [decide_eq_false_iff_not, le_setWidth_iff, hpage.poolDesc_eq]
        rcases lbdLen_before_poolPlace p q hq with hempty | ⟨r, hr, hlt⟩
        · rw [hempty]
          have : size.toNat ≠ 0 := fun h => hzero (eq_of_toNat_eq h)
          simpa using this
        · rw [hr]
          intro hle
          exact absurd (hp.least r hle) (Nat.not_le.2 hlt)
    · rw [hpage.poolDesc_eq, poolDesc_poolPlace]
      exact (llanPoolBdesc_fields p).2.1

theorem PoolPage.findPool (hpage : PoolPage mem l) (hp : SmallestPool size p) :
    llanFindPool mem l size = .ok (some p) := by
  obtain ⟨d, hd, hnumber⟩ := hpage.chosen hp
  rw [llanFindPool_eq, hd]
  dsimp only
  rw [llanPool_eq_ok.2 hnumber, ok_bind]

theorem PoolPage.findPool_none (hpage : PoolPage mem l) (hnone : ∀ p, ¬ SmallestPool size p) :
    llanFindPool mem l size = .ok none := by
  have hchosen : l.chosen mem size = none := by
    rw [LlanDev.chosen, map_eq_none_iff, Fin.find?_eq_none_iff]
    intro q
    rw [decide_eq_false_iff_not, hpage.poolDesc_eq]
    intro hle
    obtain ⟨p, hp⟩ := lbdLen_le_poolSize q
    obtain ⟨r, hr⟩ := exists_smallestPool (hle.trans hp)
    exact hnone r hr
  rw [llanFindPool_eq, hchosen]

end

/-! ### The two calls -/

def LlanDev.held (l : LlanDev) (p : Fin llanBlPools) : Multiset TceBdesc :=
  Slots.held lbdCtrlV (l.llBlistPool p)

section

variable {l : LlanDev} {p q : Fin llanBlPools} {b : Fin llanBlPoolNum} {bd : TceBdesc}

theorem held_setPool_of_ne (hq : q ≠ p) : (l.setPool p b bd).held q = l.held q := by
  unfold held setPool
  dsimp only
  rw [update_of_ne hq]

theorem held_setPool_put (hb : (l.llBlistPool p b).lbdCtrlV = false) (hbd : bd.lbdCtrlV = true) :
    (l.setPool p b bd).held p = bd ::ₘ l.held p := by
  unfold held setPool
  dsimp only
  rw [update_self]
  exact Slots.held_put hb hbd

theorem held_setPool_take (hb : (l.llBlistPool p b).lbdCtrlV = true) (hbd : bd.lbdCtrlV = false) :
    l.held p = l.llBlistPool p b ::ₘ (l.setPool p b bd).held p := by
  unfold held setPool
  dsimp only
  rw [update_self]
  exact Slots.held_take hb hbd

variable {s : LlanSys} {os : OsId} {uaddr size : Uval} {mem : Memory}

theorem PoolPage.addReads (hpage : PoolPage mem l) (hlen : bd.lbdLen = poolSize p) :
    ∃ pool, llanBdesc l (bd.lbdLen.setWidth 64) = .ok (some pool) ∧
      (⟨mem.dword pool⟩ : TceBdesc) = llanPoolBdesc (.ofNat 32 p) (poolSize p) := by
  refine ⟨l.blist (llanBlPoolStart + .ofNat 64 (poolPlace p)), ?_, ?_⟩
  · rw [hlen]
    revert p
    intro p _
    match p with
    | 0 => rfl
    | 1 => rfl
    | 2 => rfl
  · exact (hpage.poolDesc_eq (poolPlace p)).trans (poolDesc_poolPlace p)

/-- What `llan_add_buf` does with a buffer of the right length: it is put into an unused slot of its
pool, or the call fails and the buffers are as before. -/
theorem PoolPage.addBuf (hget : llanGet s uaddr = .ok (some (lanNumber uaddr, l)))
    (howner : l.llOwner = some os) (hpage : PoolPage s.mem l) (hctrl : bd.lbdCtrlV = true)
    (hlen : bd.lbdLen = poolSize p) :
    ∃ ret t l', llanAddBuf s os uaddr bd = .ok (ret, t) ∧
      llanGet t uaddr = .ok (some (lanNumber uaddr, l')) ∧ t.mem = s.mem ∧
      l'.toLlan = l.toLlan ∧ l'.llBlist = l.llBlist ∧
      (ret = hSuccess ∧ l.llTceData.Xlates bd ∧ (∃ b, (l.llBlistPool p b).lbdCtrlV = false ∧
          l'.llBlistPool = (l.setPool p b bd).llBlistPool) ∨
        ret ≠ hSuccess ∧ l'.llBlistPool = l.llBlistPool) := by
  have hlong : 1024 ≤ bd.lbdLen := hlen ▸ le_poolSize p
  have hsize : 0 < bd.size := lt_of_lt_of_le (by decide) (le_def.1 hlong)
  obtain ⟨pool, hpool, hdesc⟩ := hpage.addReads hlen
  obtain ⟨hdlen, hdaddr, hdctrl⟩ := llanPoolBdesc_fields p
  obtain ⟨r, hr⟩ := tceBdXlate_ok l.setUp hsize
  have hupdate : ∀ (t : LlanSys) (l' : LlanDev), llanGet (t.setDev (lanNumber uaddr) l') uaddr =
      .ok (some (lanNumber uaddr, l')) := fun t l' => llanGet_congr hget (update_self ..)
  have hrelease : ∀ (t : LlanSys) (l' : LlanDev),
      llanGet ((t.setDev (lanNumber uaddr) l').release (lanNumber uaddr)) uaddr =
        .ok (some (lanNumber uaddr, { l' with llLock := false })) := by
    intro t l'
    refine llanGet_congr hget ((update_self ..).trans ?_)
    show Option.map _ (update t.llan (lanNumber uaddr) (some l') (lanNumber uaddr)) = _
    rw [update_self]
    rfl
  have hpass : ∀ {c : Bool}, c = true → hassert c = .ok () := fun hc => hassert_ok.2 hc
  rw [llanAddBuf, hpass (decide_eq_true hlong), ok_bind, hget, ok_bind]
  dsimp only
  rw [hpass (decide_eq_true howner), ok_bind]
  split_ifs with hlock
  · exact ⟨hHardware, s, l, rfl, hget, rfl, rfl, rfl, .inr ⟨by decide, rfl⟩⟩
  rw [hpass hctrl, ok_bind, hr, ok_bind]
  by_cases hnull : r = 0
  · rw [if_pos hnull]
    exact ⟨hParameter, _, l.acquire, rfl, hupdate _ _, rfl, rfl, rfl, .inr ⟨by decide, rfl⟩⟩
  have hread : (⟨(s.setDev (lanNumber uaddr) l.acquire).mem.dword pool⟩ : TceBdesc) =
      llanPoolBdesc (.ofNat 32 p) (poolSize p) := hdesc
  have hfound : assertSome (some pool) = .ok pool := rfl
  rw [if_neg hnull, hpool, ok_bind, hfound, ok_bind, hread, hpass hdctrl, ok_bind,
    hpass (decide_eq_true (hdlen.trans hlen.symm)), ok_bind, llanPool_eq_ok.2 hdaddr, ok_bind]
  cases hfind : Fin.find? fun b => !(l.llBlistPool p b).lbdCtrlV with
  | none =>
    exact ⟨hResource, _, _, rfl, hrelease _ _, rfl, rfl, rfl, .inr ⟨by decide, rfl⟩⟩
  | some b =>
    have hb := Fin.eq_true_of_find?_eq_some hfind
    exact ⟨hSuccess, _, _, rfl, hrelease _ _, rfl, rfl, rfl,
      .inl ⟨rfl, ⟨r, hr, hnull⟩, b, by simpa using hb, rfl⟩⟩

/-- What `llan_getbuf` does when every buffer is translated: the smallest pool has no buffer (or
there is none that is big enough) and the counter goes up, or a buffer of that pool is returned. -/
theorem PoolPage.getbuf (hpage : PoolPage mem l)
    (hxlates : ∀ p, ∀ bd ∈ l.held p, l.llTceData.Xlates bd) (size : Uval) :
    (llanFindBuf mem l size = .ok none ∧
      llanGetbuf mem l size = .ok (0, l, mem.setDword (l.blist llanBlCounter)
        (mem.dword (l.blist llanBlCounter) + 1)) ∧ ∀ p, SmallestPool size p → l.held p = 0) ∨
    ∃ p b rb, SmallestPool size p ∧ llanFindBuf mem l size = .ok (some (p, b)) ∧
      (l.llBlistPool p b).lbdCtrlV = true ∧
      tceBdXlate l.llTceData (l.llBlistPool p b) = .ok rb ∧ rb ≠ 0 ∧
      llanGetbuf mem l size =
        .ok (rb, l.setPool p b ((l.llBlistPool p b).setCtrlV false), mem) := by
  by_cases hsome : ∃ p, SmallestPool size p
  · obtain ⟨p, hp⟩ := hsome
    have hfindbuf : llanFindBuf mem l size =
        .ok ((Fin.find? fun b => (l.llBlistPool p b).lbdCtrlV).map (p, ·)) := by
      rw [llanFindBuf, hpage.findPool hp, ok_bind]
    rcases hfind : Fin.find? fun b => (l.llBlistPool p b).lbdCtrlV with _ | b
    · rw [hfind] at hfindbuf
      refine .inl ⟨hfindbuf, ?_, fun q hq => ?_⟩
      · rw [llanGetbuf, hfindbuf]
        rfl
      · obtain rfl := hp.unique hq
        exact Slots.held_eq_zero_iff.2 fun b => Fin.eq_false_of_find?_eq_none hfind b
    rw [hfind] at hfindbuf
    have hb := Fin.eq_true_of_find?_eq_some hfind
    obtain ⟨rb, hrb, hne⟩ := hxlates p _ (Slots.mem_held.2 ⟨⟨b, rfl⟩, hb⟩)
    refine .inr ⟨p, b, rb, hp, hfindbuf, hb, hrb, hne, ?_⟩
    rw [llanGetbuf, hfindbuf]
    show (tceBdXlate l.llTceData ((l.llBlistPool p b).setCtrlV false) >>= _) = _
    rw [tceBdXlate_setCtrlV, hrb]
    rfl
  · have hnone : ∀ p, ¬ SmallestPool size p := not_exists.1 hsome
    have hfindbuf : llanFindBuf mem l size = .ok none := by
      rw [llanFindBuf, hpage.findPool_none hnone]
      rfl
    refine .inl ⟨hfindbuf, ?_, fun p hp => absurd hp (hnone p)⟩
    rw [llanGetbuf, hfindbuf]
    rfl

end

/-! ### Sequences of calls -/

/-- A buffer that `llan_getbuf` has returned: for which request, out of which pool, and its
address. -/
structure Handout where
  size : Uval
  pool : Fin llanBlPools
  bd : TceBdesc
  rb : Uval

/-- The system, the buffers that `llan_add_buf` has taken, and those that were handed out; the last
ones first. -/
structure Handouts where
  sys : LlanSys
  added : List TceBdesc
  handed : List Handout

/-- A call for a device, or a store of its partition. -/
inductive BufAct
  | add (bd : TceBdesc)
  | get (size : Uval)
  | store (a : Uval) (b : BitVec 8)

/-- One step of partition `os` and its device. -/
def bufStep (os : OsId) (uaddr : Uval) (w : Handouts) : BufAct → Hv Handouts
  | .add bd => do
    let (ret, s) ← llanAddBuf w.sys os uaddr bd
    .ok { w with sys := s, added := if ret = hSuccess then bd :: w.added else w.added }
  | .get size => do
    let l ← live (w.sys.llan (lanNumber uaddr))
    let found ← llanFindBuf w.sys.mem l size
    let (rb, l', mem) ← llanGetbuf w.sys.mem l size
    let new := if rb = 0 then none else found.map fun b => ⟨size, b.1, l.llBlistPool b.1 b.2, rb⟩
    .ok { w with
      sys := { w.sys with mem := mem }.setDev (lanNumber uaddr) l'
      handed := new.toList ++ w.handed }
  | .store a b => .ok { w with sys := { w.sys with mem := update w.sys.mem a b } }

/-- The descriptor of a call meets the assertions of `llan_add_buf`, and a store leaves the page of
the buffer list alone. -/
def BufAct.Allowed (l : LlanDev) : BufAct → Prop
  | .add bd => bd.lbdCtrlV = true ∧ ∃ p, bd.lbdLen = poolSize p
  | .get _ => True
  | .store a _ => llanBlSize ≤ a - l.llBlist

/-- The buffers of pool `p` among those that were added. -/
def Handouts.addedTo (w : Handouts) (p : Fin llanBlPools) : List TceBdesc :=
  w.added.filter fun bd => bd.lbdLen = poolSize p

/-- The buffers that were handed out from pool `p`. -/
def Handouts.handedFrom (w : Handouts) (p : Fin llanBlPools) : List TceBdesc :=
  (w.handed.filter fun h => h.pool = p).map Handout.bd

/-- The device was registered as `l0`; since then only buffers were added and handed out. -/
structure Handing (uaddr : Uval) (l0 : LlanDev) (w : Handouts) (l : LlanDev) : Prop where
  get : llanGet w.sys uaddr = .ok (some (lanNumber uaddr, l))
  same : l.toLlan = l0.toLlan
  blist : l.llBlist = l0.llBlist
  page : PoolPage w.sys.mem l
  balance : ∀ p, (w.addedTo p : Multiset TceBdesc) = w.handedFrom p + l.held p
  xlates : ∀ p, ∀ bd ∈ l.held p, l.llTceData.Xlates bd
  handed : ∀ h ∈ w.handed, SmallestPool h.size h.pool ∧
    tceBdXlate l.llTceData h.bd = .ok h.rb ∧ h.rb ≠ 0

section

variable {os : OsId} {uaddr : Uval} {l0 l : LlanDev} {w : Handouts}

theorem PoolPage.congr {mem mem' : Memory} {l l' : LlanDev} (hpage : PoolPage mem l)
    (hblist : l'.llBlist = l.llBlist) (hsame : ∀ i : Uval, i < llanBlCounter →
      mem'.dword (l.blist i) = mem.dword (l.blist i)) : PoolPage mem' l' := by
  intro i hlo hhi
  have hplace : l'.blist i = l.blist i := by
    unfold blist
    rw [hblist]
  rw [hplace, hsame i hhi]
  exact hpage i hlo hhi

theorem dword_blist_update {mem : Memory} {a i : Uval} (b : BitVec 8) (hi : i < llanBlCounter)
    (ha : llanBlSize ≤ a - l.llBlist) :
    Memory.dword (update mem a b) (l.blist i) = mem.dword (l.blist i) := by
  refine Memory.dword_congr fun k hk => update_of_ne ?_ _ _
  rintro rfl
  unfold blist llanBlSize pgsize at ha
  unfold llanBlCounter at hi
  bv_omega

section

variable (hw : Handing uaddr l0 w l)
include hw

theorem Handing.add {bd : TceBdesc} (howner : l0.llOwner = some os)
    (hctrl : bd.lbdCtrlV = true) {p : Fin llanBlPools} (hlen : bd.lbdLen = poolSize p) :
    ∃ w' l', bufStep os uaddr w (.add bd) = .ok w' ∧ Handing uaddr l0 w' l' := by
  have howner' : l.llOwner = some os := by
    rwa [hw.same]
  obtain ⟨ret, t, l', hcall, hget, hmem, hsame, hblist, hcases⟩ :=
    hw.page.addBuf hw.get howner' hctrl hlen
  have hpage : PoolPage t.mem l' := by
    rw [hmem]
    exact hw.page.congr hblist fun _ _ => rfl
  have htable : l'.llTceData = l.llTceData := congrArg Llan.llTceData hsame
  rw [bufStep, hcall]
  rcases hcases with ⟨hret, hxlates, b, hb, hpools⟩ | ⟨hret, hpools⟩
  · -- the buffer is new in its pool, and the other pools stay
    have hheld : ∀ q, l'.held q = (l.setPool p b bd).held q := fun q => by
      unfold held
      rw [hpools]
    refine ⟨_, l', rfl, hget, hsame.trans hw.same, hblist.trans hw.blist, hpage, ?_, ?_, ?_⟩
    · intro q
      dsimp only [Handouts.addedTo]
      rw [if_pos hret, hheld q, List.filter_cons]
      by_cases hq : q = p
      · subst hq
        rw [if_pos (decide_eq_true hlen), ← cons_coe, held_setPool_put hb hctrl, add_cons]
        exact congrArg _ (hw.balance q)
      have hother : ¬ bd.lbdLen = poolSize q := by
        intro heq
        exact hq (poolSize_injective (congrArg BitVec.toNat (heq.symm.trans hlen)))
      rw [if_neg (by simpa using hother), held_setPool_of_ne hq]
      exact hw.balance q
    · intro q d hd
      rw [hheld q] at hd
      rw [htable]
      by_cases hq : q = p
      · subst hq
        rw [held_setPool_put hb hctrl] at hd
        rcases mem_cons.1 hd with rfl | hd
        · exact hxlates
        · exact hw.xlates q d hd
      · rw [held_setPool_of_ne hq] at hd
        exact hw.xlates q d hd
    · rw [htable]
      exact hw.handed
  · have hheld : ∀ q, l'.held q = l.held q := fun q => by
      unfold held
      rw [hpools]
    refine ⟨_, l', rfl, hget, hsame.trans hw.same, hblist.trans hw.blist, hpage, ?_, ?_, ?_⟩
    · intro q
      rw [if_neg hret, hheld q]
      exact hw.balance q
    · intro q d hd
      rw [hheld q] at hd
      rw [htable]
      exact hw.xlates q d hd
    · rw [htable]
      exact hw.handed

theorem Handing.getbuf (size : Uval) :
    ∃ w' l', bufStep os uaddr w (.get size) = .ok w' ∧ Handing uaddr l0 w' l' := by
  have hlive : live (w.sys.llan (lanNumber uaddr)) = .ok l :=
    live_ok.2 (llan_of_llanGet hw.get)
  rw [bufStep, hlive, ok_bind]
  rcases hw.page.getbuf hw.xlates size with ⟨hfind, hcall, -⟩ |
    ⟨p, b, rb, hp, hfind, hb, hrb, hne, hcall⟩
  · rw [hfind, hcall]
    refine ⟨_, l, rfl, llanGet_congr hw.get (update_self ..), hw.same, hw.blist, ?_,
      hw.balance, hw.xlates, hw.handed⟩
    -- the counter is the last word of the page
    refine hw.page.congr rfl fun i hi => dword_blist_setDword _ ?_ (by decide) ?_
    · unfold llanBlCounter at hi
      bv_omega
    · rintro rfl
      exact absurd hi (BitVec.lt_irrefl _)
  rw [hfind, ok_bind, hcall, ok_bind]
  have htake : l.held p = l.llBlistPool p b ::ₘ
      (l.setPool p b ((l.llBlistPool p b).setCtrlV false)).held p :=
    held_setPool_take hb (lbdCtrlV_setCtrlV _ _)
  dsimp only
  rw [if_neg hne]
  refine ⟨_, l.setPool p b ((l.llBlistPool p b).setCtrlV false), rfl,
    llanGet_congr hw.get (update_self ..), hw.same, hw.blist, hw.page, ?_, ?_, ?_⟩
  · intro q
    refine (hw.balance q).trans ?_
    dsimp only [Handouts.handedFrom, map_some, toList_some, List.singleton_append]
    rw [List.filter_cons]
    by_cases hq : q = p
    · subst hq
      rw [if_pos (decide_eq_true rfl), List.map_cons, ← cons_coe, htake, add_cons, cons_add]
    · rw [if_neg (by simpa using fun h => hq h.symm), held_setPool_of_ne hq]
  · intro q d hd
    by_cases hq : q = p
    · subst hq
      exact hw.xlates q d (htake ▸ mem_cons_of_mem hd)
    · rw [held_setPool_of_ne hq] at hd
      exact hw.xlates q d hd
  · intro h hh
    rcases List.mem_cons.1 hh with rfl | hh
    · exact ⟨hp, hrb, hne⟩
    · exact hw.handed h hh

theorem Handing.step {a : BufAct} (howner : l0.llOwner = some os)
    (ha : a.Allowed l0) : ∃ w', bufStep os uaddr w a = .ok w' ∧ ∃ l', Handing uaddr l0 w' l' := by
  cases a with
  | add bd =>
    obtain ⟨hctrl, p, hlen⟩ := ha
    obtain ⟨w', l', hstep, hw'⟩ := hw.add howner hctrl hlen
    exact ⟨w', hstep, l', hw'⟩
  | get size =>
    obtain ⟨w', l', hstep, hw'⟩ := @Handing.getbuf os _ _ _ _ hw size
    exact ⟨w', hstep, l', hw'⟩
  | store a b =>
    refine ⟨_, rfl, l, llanGet_congr hw.get (llan_of_llanGet hw.get), hw.same, hw.blist, ?_,
      hw.balance, hw.xlates, hw.handed⟩
    refine hw.page.congr rfl fun i hi => dword_blist_update b hi ?_
    rwa [hw.blist]

end

end

/-- **Buffers are handed out once.**  After a registration, every sequence of `llan_add_buf` and
`llan_getbuf` calls and of stores elsewhere goes through, and then
* the buffers that were added with the length of a pool are those that were handed out from it and
  those that it holds;
* each one was handed out, with its address, from the smallest pool for the request;
* `llan_getbuf` returns `NULL` exactly when the smallest pool for the request is empty. -/
theorem buffers_handed_out (s0 s : LlanSys) (os : OsId) (uaddr bl fl : Uval) (rq mac : BitVec 64)
    (l0 : LlanDev) (acts : List BufAct)
    (hregister : llanRegister s0 os uaddr bl rq fl mac = .ok (hSuccess, s))
    (hl0 : s.llan (lanNumber uaddr) = some l0) (hacts : ∀ a ∈ acts, a.Allowed l0) :
    ∃ w l, acts.foldlM (bufStep os uaddr) ⟨s, [], []⟩ = .ok w ∧
      w.sys.llan (lanNumber uaddr) = some l ∧
      (∀ p, (w.addedTo p : Multiset TceBdesc) = w.handedFrom p + l.held p) ∧
      (∀ h ∈ w.handed, SmallestPool h.size h.pool ∧
        tceBdXlate l0.llTceData h.bd = .ok h.rb ∧ h.rb ≠ 0) ∧
      ∀ size : Uval, size.toNat ≤ 10240 → ∃ p rb l' mem', SmallestPool size p ∧
        llanGetbuf w.sys.mem l size = .ok (rb, l', mem') ∧ (rb = 0 ↔ l.held p = 0) := by
  obtain ⟨l, hreg⟩ := llanRegister_registered hregister
  obtain rfl : l = l0 := some.inj ((llan_of_llanGet hreg.get).symm.trans hl0)
  have hempty : ∀ p, l.held p = 0 := by
    intro p
    refine Slots.held_eq_zero_iff.2 fun b => ?_
    rw [hreg.pools]
    exact (by decide : (⟨0⟩ : TceBdesc).lbdCtrlV = false)
  have hstart : Handing uaddr l ⟨s, [], []⟩ l := by
    refine ⟨hreg.get, rfl, rfl, hreg.page, fun p => ?_, fun p bd hbd => ?_, nofun⟩
    · rw [hempty p]
      rfl
    · rw [hempty p] at hbd
      cases hbd
  have hruns : ∃ w, acts.foldlM (bufStep os uaddr) ⟨s, [], []⟩ = .ok w ∧
      ∃ l', Handing uaddr l w l' :=
    Run.foldlM_ok (fun w a ha ⟨l', hw⟩ => hw.step hreg.owner (hacts a ha)) ⟨l, hstart⟩
  obtain ⟨w, hrun, l', hw⟩ := hruns
  have htable : l'.llTceData = l.llTceData := congrArg Llan.llTceData hw.same
  refine ⟨w, l', hrun, llan_of_llanGet hw.get, hw.balance, htable ▸ hw.handed, fun size hsize => ?_⟩
  have hlargest : size.toNat ≤ (poolSize 2).toNat := hsize
  obtain ⟨p, hp⟩ := exists_smallestPool hlargest
  rcases hw.page.getbuf hw.xlates size with ⟨-, hcall, hnone⟩ |
    ⟨q, b, rb, hq, -, hb, -, hne, hcall⟩
  · exact ⟨p, 0, _, _, hp, hcall, iff_of_true rfl (hnone p hp)⟩
  refine ⟨q, rb, _, _, hq, hcall, iff_of_false hne fun hzero => ?_⟩
  have hmem : l'.llBlistPool q b ∈ l'.held q := Slots.mem_held.2 ⟨⟨b, rfl⟩, hb⟩
  rw [hzero] at hmem
  cases hmem

/-- `buffers_handed_out` for one buffer of 2048 bytes and two requests of 2000. -/
theorem buffers_handed_out_lanSys :
    ∃ s l0 w l, llanRegister (lanSys fun _ => 0) 0 0x100000 0 (lanBdesc 0x100 0x1000).lbdDword
        0x2000 0xa = .ok (hSuccess, s) ∧ s.llan 0 = some l0 ∧
      [.add (lanBdesc 2048 0x3000), .get 2000, .get 2000].foldlM (bufStep 0 0x100000) ⟨s, [], []⟩ =
        .ok w ∧ w.sys.llan 0 = some l ∧
      ∀ p, (w.addedTo p : Multiset TceBdesc) = w.handedFrom p + l.held p := by
  have hret : (llanRegister (lanSys fun _ => 0) 0 0x100000 0 (lanBdesc 0x100 0x1000).lbdDword
      0x2000 0xa).map Prod.fst = .ok hSuccess := by
    decide +kernel
  cases hx : llanRegister (lanSys fun _ => 0) 0 0x100000 0 (lanBdesc 0x100 0x1000).lbdDword
      0x2000 0xa with
  | error e =>
    rw [hx] at hret
    cases hret
  | ok x =>
    obtain ⟨ret, s⟩ := x
    rw [hx] at hret
    obtain rfl : ret = hSuccess := by simpa [Except.map] using hret
    obtain ⟨l0, hreg⟩ := llanRegister_registered hx
    have hl0 := llan_of_llanGet hreg.get
    have hallowed : ∀ a ∈ [.add (lanBdesc 2048 0x3000), .get 2000, .get 2000],
        BufAct.Allowed l0 a := by
      simp only [List.forall_mem_cons]
      exact ⟨⟨by decide, 0, by decide⟩, trivial, trivial, nofun⟩
    obtain ⟨w, l, hrun, hl, hbalance, -⟩ :=
      buffers_handed_out _ s 0 0x100000 0 0x2000 _ 0xa l0 _ hx hl0 hallowed
    exact ⟨s, l0, w, l, rfl, hl0, hrun, hl, hbalance⟩

end Rhype
