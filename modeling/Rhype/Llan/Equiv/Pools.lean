import Rhype.Llan.Equiv.Lock
import Rhype.Llan.Equiv.Page
import Rhype.Logical.Equiv.InBounds

/-!
# Which accesses to the pools are safe

`llan_add_buf` and `llan_getbuf` take the number of a pool from the page of the buffer list, and
`llan_getbuf` also its length.  The partition can store into that page at any time, and neither
function checks what it reads there.  `pools_safe_iff` says which contents of the page are harmless;
what registration stores is (`HonestPage`).
-/

namespace Rhype

open Avoids

/-! ### The buffers in a pool -/

/-- Every buffer is in the pool for its length. -/
def PoolInv (s : LlanSys) : Prop := ∀ id, ∀ x ∈ s.bufs id, x.2.lbdLen = poolSize x.1

/-- If the step adds a buffer, the descriptor in the page sends it to the pool for its length. -/
def AddsToItsPool (s : LlanSys) : LlanAct → Prop
  | .call (.addBuf os uaddr bd) => ∀ d id l, AddReads s os uaddr bd d id l →
      ∀ p : Fin llanBlPools, d.lbdAddr.toNat = p → bd.lbdLen = poolSize p
  | _ => True

section

variable {s t : LlanSys}

theorem PoolInv.of_le (hs : PoolInv s) (hle : t.bufs ≤ s.bufs) : PoolInv t :=
  fun id x hx => hs id x (hle id hx)

theorem PoolInv.call {c : LlanCall} {ret : Sval} {recvs : List LlanRecv} (hs : PoolInv s)
    (hok : AddsToItsPool s (.call c)) (hx : llanCall s c = .ok (ret, recvs, t)) : PoolInv t := by
  cases c with
  | register os uaddr bl rq fl mac =>
    obtain ⟨hcall, rfl⟩ := of_llanCall hx
    exact hs.of_le (llanRegister_bufs hcall)
  | free os uaddr | mcastCtrl os uaddr _ | changeMac os uaddr _ =>
    exact hs.of_le (llanCall_tends hx).1.bufs.le
  | addBuf os uaddr bd =>
    obtain ⟨hcall, rfl⟩ := of_llanCall hx
    intro k x hmem
    rcases llanAddBuf_bufs hcall k hmem with hold | ⟨d, id, l, hreads, hp, hbd⟩
    · exact hs k x hold
    · rw [hbd]
      exact hok d id l hreads x.1 hp
  | send os uaddr bd token => exact hs.of_le (llanSend_bufs hx)
  | freebuf os uaddr size => exact hs.of_le (llanFreebuf_receives hx).bufs

/-- The step lemma: stores and new entries of the tables do not touch the pools. -/
theorem PoolInv.step {a : LlanAct} (hs : PoolInv s) (hok : AddsToItsPool s a)
    (hx : llanStep s a = .ok t) : PoolInv t := by
  cases a with
  | call c =>
    obtain ⟨⟨ret, recvs, u⟩, hcall, hx⟩ := of_seq hx
    cases hx
    exact hs.call hok hcall
  | store a b =>
    cases hx
    exact hs.of_le le_rfl
  | putTce id p x =>
    cases hx
    exact hs.of_le (LlanSys.comp_map (fun o : Option LlanDev => o.elim ∅ LlanDev.bufs)
      (f := fun l => l.putTce p x) (fun _ => rfl) s id).le

/-- **Every buffer is in the pool for its length**, after every run of that kind. -/
theorem poolInv_run {acts : List LlanAct} (hs : s.bufs = fun _ => ∅)
    (hrun : Run llanStep AddsToItsPool s acts t) : PoolInv t := by
  refine hrun.invariant (fun _ _ _ hs hok hx => hs.step hok hx) fun id x hx => ?_
  rw [hs] at hx
  cases hx

end

/-! ### What stays out of the pools -/

namespace InBounds

variable {T : Table → Prop} (hT : ¬ T .tce) (td : TceData)

theorem assertSome {α : Type} (x : Option α) : InBounds T (Rhype.assertSome x) := by
  cases x with
  | none => exact .error nofun
  | some a => exact .ok a

theorem llanGet (s : LlanSys) (uaddr : Uval) : InBounds T (Rhype.llanGet s uaddr) := by
  unfold Rhype.llanGet
  dsimp only
  split_ifs
  · exact .ok _
  · exact .error nofun
  · exact .ok _

theorem llanBdesc (l : LlanDev) (sz : Uval) : InBounds T (Rhype.llanBdesc l sz) := by
  unfold Rhype.llanBdesc
  split_ifs
  · exact .ok _
  · exact .bind_ok (hassert _) _

include hT

theorem tce (i : Uval) : InBounds T (td.get i) := by
  refine .bind (nonNull _) fun tce _ => ?_
  split_ifs
  · exact .ok _
  · exact bounds hT _

theorem bdXlateLoop (ep : Uval) : ∀ n s, InBounds T (Rhype.bdXlateLoop td ep n s)
  | 0, s => by
    unfold Rhype.bdXlateLoop
    split_ifs
    · refine .error ?_
      rintro ⟨-, -, -, ⟨⟩⟩
    · exact .ok _
  | n + 1, s => by
    unfold Rhype.bdXlateLoop
    split_ifs
    · exact .ok _
    · refine .bind (tce hT td s) fun t _ => ?_
      split_ifs
      · exact .ok _
      · exact bdXlateLoop ep n (s + 1)
    · exact .ok _

theorem tceBdXlate (bd : TceBdesc) : InBounds T (Rhype.tceBdXlate td bd) := by
  refine .bind (bdXlateLoop hT td _ _ _) fun all _ => ?_
  cases all with
  | false => exact .ok _
  | true => exact .bind_ok (tce hT td _) _

end InBounds

/-! ### `llan_add_buf` -/

theorem llanPool_inBounds_iff {a : BitVec 32} :
    InBounds (· = .llanPool) (llanPool a) ↔ a.toNat < llanBlPools := by
  unfold llanPool
  split_ifs with h
  · exact iff_of_true (.ok _) h
  · exact iff_of_false (fun hin => hin _ rfl ⟨_, _, rfl, rfl⟩) h

section

variable {s : LlanSys} {os : OsId} {uaddr : Uval} {bd d : TceBdesc} {id : Nat} {l : LlanDev}

/-- `llan_add_buf` stays inside the pools unless the descriptor that it reads has another number. -/
theorem llanAddBuf_inBounds_iff : InBounds (· = .llanPool) (llanAddBuf s os uaddr bd) ↔
    ∀ d id l, AddReads s os uaddr bd d id l → d.lbdAddr.toNat < llanBlPools := by
  constructor
  · intro hin d id l hreads
    obtain ⟨hlen, hlocks, howner, hctrl, ⟨r, hxlate, hr⟩, ⟨pool, hbdesc, rfl⟩, hvalid, hsame⟩ :=
      hreads
    have hunlocked : ¬ l.llLock = true := by simp [hlocks.unlocked]
    -- the call gets past one check after the other
    have hin := (bind_iff.1 hin).2 () (hassert_ok.2 (decide_eq_true hlen))
    have hin := (bind_iff.1 hin).2 _ hlocks.get
    have hin := (bind_iff.1 hin).2 () (hassert_ok.2 (decide_eq_true howner))
    rw [if_neg hunlocked] at hin
    have hin := (bind_iff.1 hin).2 () (hassert_ok.2 hctrl)
    have hin := (bind_iff.1 hin).2 r hxlate
    rw [if_neg hr] at hin
    have hin := (bind_iff.1 hin).2 _ hbdesc
    have hin := (bind_iff.1 hin).2 pool rfl
    have hin := (bind_iff.1 hin).2 () (hassert_ok.2 hvalid)
    have hin := (bind_iff.1 hin).2 () (hassert_ok.2 (decide_eq_true hsame))
    exact llanPool_inBounds_iff.1 (bind_iff.1 hin).1
  · intro hsafe
    refine .bind (InBounds.hassert _) fun _ hlen => ?_
    refine .bind (InBounds.llanGet s uaddr) fun found hget => ?_
    rcases found with _ | ⟨id, l⟩
    · exact .ok _
    refine .bind (InBounds.hassert _) fun _ howner => ?_
    split_ifs with hlock
    · exact .ok _
    refine .bind (InBounds.hassert _) fun _ hctrl => ?_
    refine .bind (InBounds.tceBdXlate nofun _ _) fun r hxlate => ?_
    split_ifs with hnull
    · exact .ok _
    refine .bind (InBounds.llanBdesc _ _) fun o hbdesc => ?_
    refine .bind (InBounds.assertSome o) fun pool hpool => ?_
    refine .bind (InBounds.hassert _) fun _ hvalid => ?_
    refine .bind (InBounds.hassert _) fun _ hsame => ?_
    refine .bind (llanPool_inBounds_iff.2 ?_) fun p _ => ?_
    · rcases o with _ | pool'
      · cases hpool
      cases hpool
      rw [hassert_ok] at hvalid hsame
      exact hsafe _ id l ⟨by simpa using hlen, ⟨hget, by simpa using hlock⟩,
        by simpa using howner, by simpa using hctrl, ⟨r, hxlate, hnull⟩, ⟨_, hbdesc, rfl⟩,
        hvalid, of_decide_eq_true hsame⟩
    · split
      all_goals exact .ok _

/-! ### `llan_getbuf` -/

/-- The descriptor for pool `p` in the page. -/
def LlanDev.poolDesc (l : LlanDev) (mem : Memory) (p : Fin 256) : TceBdesc :=
  ⟨mem.dword (l.blist (llanBlPoolStart + .ofNat 64 p))⟩

/-- The first descriptor in the page for at least `size` bytes. -/
def LlanDev.chosen (l : LlanDev) (mem : Memory) (size : Uval) : Option TceBdesc :=
  (Fin.find? fun p => decide (size ≤ (l.poolDesc mem p).lbdLen.setWidth 64)).map (l.poolDesc mem)

/-- The pool has a buffer, and the first one is translated. -/
def LlanDev.Hands (l : LlanDev) (p : Fin llanBlPools) (bd : TceBdesc) : Prop :=
  ∃ b, (Fin.find? fun b => (l.llBlistPool p b).lbdCtrlV) = some b ∧ bd = l.llBlistPool p b ∧
    ∃ rb, tceBdXlate l.llTceData (bd.setCtrlV false) = .ok rb ∧ rb ≠ 0

/-- `llan_getbuf` returns the buffer `bd`. -/
def Returns (mem : Memory) (l : LlanDev) (size : Uval) (bd : TceBdesc) : Prop :=
  ∃ p b rb l' mem', llanFindBuf mem l size = .ok (some (p, b)) ∧ bd = l.llBlistPool p b ∧
    llanGetbuf mem l size = .ok (rb, l', mem') ∧ rb ≠ 0

/-- `llan_getbuf` stays inside the pools, and returns a buffer of at least `size` bytes. -/
structure GetbufSafe (mem : Memory) (l : LlanDev) (size : Uval) : Prop where
  inBounds : InBounds (· = .llanPool) (llanGetbuf mem l size)
  length : ∀ bd, Returns mem l size bd → size.toNat ≤ bd.lbdLen.toNat

/-- The descriptor that is chosen has the number of a pool, and if a buffer of that pool is returned
then the buffers of the pool are long enough. -/
def PoolFits (mem : Memory) (l : LlanDev) (size : Uval) : Prop :=
  ∀ d, l.chosen mem size = some d → ∃ p : Fin llanBlPools, d.lbdAddr.toNat = p ∧
    ∀ bd, l.Hands p bd → size.toNat ≤ (poolSize p).toNat

variable {mem : Memory} {size : Uval} {p : Fin llanBlPools}

theorem llanFindPool_eq (mem : Memory) (l : LlanDev) (size : Uval) :
    llanFindPool mem l size = match l.chosen mem size with
      | none => .ok none
      | some d => llanPool d.lbdAddr >>= fun p => .ok (some p) := by
  unfold llanFindPool LlanDev.chosen LlanDev.poolDesc
  dsimp only
  split
  case h_1 hfind =>
    rw [hfind]
    rfl
  case h_2 p hfind =>
    rw [hfind]
    rfl

theorem LlanDev.Hands.mem_bufs (hbd : l.Hands p bd) : (p, bd) ∈ l.bufs := by
  obtain ⟨b, hb, rfl, -⟩ := hbd
  exact ⟨Fin.eq_true_of_find?_eq_some hb, b, rfl⟩

theorem llanGetbuf_inBounds_iff : InBounds (· = .llanPool) (llanGetbuf mem l size) ↔
    ∀ d, l.chosen mem size = some d → d.lbdAddr.toNat < llanBlPools := by
  -- what comes after the choice of the pool leaves no pool
  have hfind : InBounds (· = .llanPool) (llanGetbuf mem l size) ↔
      InBounds (· = .llanPool) (llanFindPool mem l size) := by
    refine (bind_iff_left fun found => ?_).trans (bind_iff_left fun found => ?_)
    · rcases found with _ | ⟨p, b⟩
      · exact .ok _
      · exact .bind_ok (InBounds.tceBdXlate nofun _ _) _
    · cases found with
      | none | some p => exact .ok _
  rw [hfind, llanFindPool_eq]
  cases l.chosen mem size with
  | none => exact iff_of_true (.ok _) nofun
  | some d =>
    refine ((bind_iff_left fun p => .ok _).trans llanPool_inBounds_iff).trans ?_
    simp

theorem returns_iff : Returns mem l size bd ↔
    ∃ d p, l.chosen mem size = some d ∧ d.lbdAddr.toNat = p.val ∧ l.Hands p bd := by
  constructor
  · rintro ⟨p, b, rb, l', mem', hfind, rfl, hget, hrb⟩
    rw [llanGetbuf, hfind, ok_bind] at hget
    obtain ⟨rb', hxlate, hget⟩ := of_seq hget
    cases hget
    obtain ⟨found, hpool, hfind⟩ := of_seq hfind
    rw [llanFindPool_eq] at hpool
    rcases hd : l.chosen mem size with _ | d
    · rw [hd] at hpool
      cases hpool
      cases hfind
    rw [hd] at hpool
    obtain ⟨q, hq, hpool⟩ := of_seq hpool
    cases hpool
    rw [Except.ok.injEq, Option.map_eq_some_iff] at hfind
    obtain ⟨c, hc, heq⟩ := hfind
    cases heq
    exact ⟨d, p, rfl, llanPool_eq_ok.1 hq, b, hc, rfl, rb, hxlate, hrb⟩
  · rintro ⟨d, p, hd, hp, b, hb, rfl, rb, hxlate, hrb⟩
    have hfind : llanFindBuf mem l size = .ok (some (p, b)) := by
      rw [llanFindBuf, llanFindPool_eq, hd]
      dsimp only
      rw [llanPool_eq_ok.2 hp, ok_bind, ok_bind]
      dsimp only
      rw [hb, Option.map_some]
    refine ⟨p, b, rb, l.setPool p b ((l.llBlistPool p b).setCtrlV false), mem, hfind, rfl, ?_, hrb⟩
    rw [llanGetbuf, hfind, ok_bind]
    dsimp only
    rw [hxlate, ok_bind]

theorem getbufSafe_iff (hbufs : ∀ x ∈ l.bufs, x.2.lbdLen = poolSize x.1) :
    GetbufSafe mem l size ↔ PoolFits mem l size := by
  constructor
  · intro hsafe d hd
    refine ⟨⟨_, llanGetbuf_inBounds_iff.1 hsafe.inBounds d hd⟩, rfl, fun bd hbd => ?_⟩
    rw [← hbufs _ hbd.mem_bufs]
    exact hsafe.length bd (returns_iff.2 ⟨d, _, hd, rfl, hbd⟩)
  · intro hfits
    refine ⟨llanGetbuf_inBounds_iff.2 fun d hd => ?_, fun bd hbd => ?_⟩
    · obtain ⟨p, hp, -⟩ := hfits d hd
      rw [hp]
      exact p.isLt
    · obtain ⟨d, p, hd, hp, hhands⟩ := returns_iff.1 hbd
      obtain ⟨q, hq, hle⟩ := hfits d hd
      obtain rfl : q = p := Fin.ext (hq.symm.trans hp)
      rw [hbufs _ hhands.mem_bufs]
      exact hle bd hhands

end

/-! ### Pages as registration leaves them -/

section

variable {s : LlanSys} {mem : Memory} {l : LlanDev} {uaddr : Uval}

theorem HonestPage.addReads {os : OsId} {bd d : TceBdesc} {id : Nat}
    (hpage : HonestPage s.mem l) (hreads : AddReads s os uaddr bd d id l) :
    ∃ p : Fin llanBlPools, d.lbdAddr.toNat = p ∧ bd.lbdLen = poolSize p := by
  obtain ⟨hlen, -, -, -, -, ⟨pool, hbdesc, rfl⟩, hvalid, hsame⟩ := hreads
  unfold llanBdesc at hbdesc
  split_ifs at hbdesc with hzero
  · cases hbdesc
  obtain ⟨-, -, hbdesc⟩ := of_seq hbdesc
  rw [Except.ok.injEq] at hbdesc
  split_ifs at hbdesc with hend
  cases hbdesc
  -- the buffer has at least 1024 bytes, so that this is not the descriptor of the filter
  have hstart : llanBlPoolStart ≤
      (bd.lbdLen.setWidth 64 >>> 10 + (llanBlPoolStart - 1) : Uval) := by
    unfold llanBlPoolStart
    bv_omega
  obtain ⟨p, hp, -, hpool⟩ := hpage _ hstart (BitVec.not_le.1 hend)
  exact ⟨p, hp, hsame.symm.trans (hpool hvalid)⟩

theorem HonestPage.addsToItsPool (hl : s.llan (lanNumber uaddr) = some l)
    (hpage : HonestPage s.mem l) (os : OsId) (bd : TceBdesc) :
    AddsToItsPool s (.call (.addBuf os uaddr bd)) := by
  intro d id l' hreads q hq
  obtain ⟨rfl, hl'⟩ := llanGet_eq_some hreads.locks.get
  obtain rfl : l = l' := Option.some.inj (hl.symm.trans hl')
  obtain ⟨p, hp, hlen⟩ := hpage.addReads hreads
  obtain rfl : p = q := Fin.ext (hp.symm.trans hq)
  exact hlen

end

/-! ### The main theorem -/

/-- **Which contents of the page are safe**, in a state `u` that is reached by calls, or in the
course of one, when every buffer was added to the pool for its length: for `llan_add_buf` those
where the descriptor that is read has the number of a pool, and for `llan_getbuf` those that
fit. -/
theorem pools_safe_iff (s0 s u : LlanSys) (acts : List LlanAct) (hempty : s0.bufs = fun _ => ∅)
    (hrun : Run llanStep AddsToItsPool s0 acts s) (hu : u.bufs ≤ s.bufs) :
    (∀ os uaddr bd, InBounds (· = .llanPool) (llanAddBuf u os uaddr bd) ↔
      ∀ d id l, AddReads u os uaddr bd d id l → d.lbdAddr.toNat < llanBlPools) ∧
    ∀ id l mem size, u.llan id = some l → (GetbufSafe mem l size ↔ PoolFits mem l size) := by
  refine ⟨fun os uaddr bd => llanAddBuf_inBounds_iff, fun id l mem size hl => getbufSafe_iff ?_⟩
  have hinv := (poolInv_run hempty hrun).of_le hu id
  rwa [bufs_of_llan hl] at hinv

/-- `pools_safe_iff` after a registration and a buffer of 2048 bytes: another one can be added, and
a frame of 2000 bytes gets a buffer. -/
theorem pools_safe_iff_lanSys :
    ∃ s l, Run llanStep AddsToItsPool (lanSys fun _ => 0)
        [.call (lanRegister 0 0xa), .call (.addBuf 0 0x100000 (lanBdesc 2048 0x3000))] s ∧
      s.llan 0 = some l ∧
      InBounds (· = .llanPool) (llanAddBuf s 0 0x100000 (lanBdesc 2048 0x4000)) ∧
      GetbufSafe s.mem l 2000 ∧ (llanGetbuf s.mem l 2000).map Prod.fst = .ok 0x13000 := by
  have hfacts : (do
      let x ← llanRegister (lanSys fun _ => 0) 0 0x100000 0
        (lanBdesc 0x100 0x1000).lbdDword 0x2000 0xa
      let y ← llanAddBuf x.2 0 0x100000 (lanBdesc 2048 0x3000)
      let l ← live (y.2.llan 0)
      .ok (x.1, l.llBlist, y.2.mem.dword 0x10018, l.chosen y.2.mem 2000,
        (llanGetbuf y.2.mem l 2000).map Prod.fst)) =
      (.ok (hSuccess, 0x10000, (llanPoolBdesc 0 2048).lbdDword, some (llanPoolBdesc 0 2048),
        .ok 0x13000) : Hv _) := by
    decide +kernel
  obtain ⟨⟨ret, s1⟩, hregister, hfacts⟩ := of_seq hfacts
  obtain ⟨⟨ret', s⟩, hadd, hfacts⟩ := of_seq hfacts
  obtain ⟨l, hl, hfacts⟩ := of_seq hfacts
  simp only [Except.ok.injEq, Prod.mk.injEq] at hfacts
  obtain ⟨rfl, hblist, hdword, hchosen, hget⟩ := hfacts
  rw [live_ok] at hl
  have hempty : (lanSys fun _ => 0).bufs = fun _ => ∅ := by
    funext id
    refine Set.eq_empty_of_forall_notMem fun x hx => ?_
    unfold LlanSys.bufs lanSys at hx
    dsimp only at hx
    split_ifs at hx
    · obtain ⟨hvalid, b, hb⟩ := hx
      rw [← hb] at hvalid
      exact absurd hvalid (show ¬ (⟨0⟩ : TceBdesc).lbdCtrlV = true by decide)
    · cases hx
  have hrun : Run llanStep AddsToItsPool (lanSys fun _ => 0)
      [.call (lanRegister 0 0xa), .call (.addBuf 0 0x100000 (lanBdesc 2048 0x3000))] s := by
    obtain ⟨l1, hl1, hpage⟩ := llanRegister_honest hregister
    refine .cons trivial ?_ (.cons (hpage.addsToItsPool hl1 _ _) ?_ (.nil s))
    · show (llanRegister _ _ 0x100000 _ _ _ _ >>= _) >>= _ = _
      rw [hregister]
      rfl
    · show (llanAddBuf _ _ _ _ >>= _) >>= _ = _
      rw [hadd]
      rfl
  have hsafe := pools_safe_iff _ s s _ hempty hrun le_rfl
  refine ⟨s, l, hrun, hl, (hsafe.1 _ _ _).2 fun d id l' hreads => ?_,
    (hsafe.2 0 l s.mem 2000 hl).2 fun d hd => ?_, hget⟩
  · obtain ⟨rfl, hl'⟩ := llanGet_eq_some hreads.locks.get
    obtain rfl : l = l' := Option.some.inj (hl.symm.trans hl')
    obtain ⟨pool, hpool, rfl⟩ := hreads.bdesc
    have hbdesc : llanBdesc l 2048 = .ok (some (l.llBlist + 0x18)) := rfl
    rw [hblist] at hbdesc
    cases hbdesc.symm.trans hpool
    show (⟨s.mem.dword 0x10018⟩ : TceBdesc).lbdAddr.toNat < llanBlPools
    rw [hdword]
    decide
  · rw [hchosen] at hd
    cases hd
    exact ⟨0, by decide, fun _ _ => by decide⟩

/-- In its page at `0x10000` a partition stores 3 as the number of the pool for 2048 bytes, and
`llan_add_buf` leaves the pools; or it stores 0 as that for 10240 bytes, and 8192 bytes get a buffer
of 2048 bytes. -/
theorem pools_corrupted :
    (do
      let s ← [.call (lanRegister 0 0xa), .store 0x1001f 3].foldlM llanStep (lanSys fun _ => 0)
      let x ← llanAddBuf s 0 0x100000 (lanBdesc 2048 0x3000)
      .ok x.1) = (.error (.bounds .llanPool 3) : Hv _) ∧
    (do
      let s ← [.call (lanRegister 0 0xa), .call (.addBuf 0 0x100000 (lanBdesc 2048 0x3000)),
        .store 0x1005f 0].foldlM llanStep (lanSys fun _ => 0)
      let l ← live (s.llan 0)
      let found ← llanFindBuf s.mem l 8192
      let x ← llanGetbuf s.mem l 8192
      .ok (l.llBlist, found.map fun b => (l.llBlistPool b.1 b.2).lbdLen, x.1)) =
      (.ok (0x10000, some 2048, 0x13000) : Hv _) := by
  decide +kernel

end Rhype
