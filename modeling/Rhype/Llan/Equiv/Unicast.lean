import Rhype.Llan.Equiv.Lock
import Rhype.Llan.Equiv.Ports

/-!
# Where a frame goes

`llan_mac_find` takes the first port that has the address or has learned it, so a frame goes to the
port under whose address it is sent only if no port before it has learned that address.  A partition
that sends a frame with the address of another one as its source gets the frames for it
(`unicast_stolen`).

As long as nobody sends under the address of another device and every new address is really new
(`MacSafe`), a frame goes to the port with its address and to no other one: `unicast_enqueued`.
-/

namespace Rhype

open Function LlanPort

/-! ### The condition -/

/-- The source of a frame is not the address of another device, and a new address is not 0, is not
in use, and is not in the caches except for the one entry that a registration removes. -/
def MacSafe (s : LlanSys) : LlanAct → Prop
  | .call (.register _ _ _ _ _ mac) => mac ≠ 0 ∧ ∀ i c j c', (s.ports i).lmCache c = mac →
      (s.ports j).lmCache c' = mac → i = j ∧ c = c'
  | .call (.changeMac _ uaddr mac) => mac ≠ 0 ∧ ∀ i, (s.ports i).lmLan ≠ some (lanNumber uaddr) →
      (s.ports i).lmMac ≠ mac ∧ ∀ c, (s.ports i).lmCache c ≠ mac
  | .call (.send os uaddr bd _) => ∀ f, sentFrame s os uaddr bd = .ok (some f) →
      ∀ i d, (s.ports i).lmLan = some d → d ≠ lanNumber uaddr → (s.ports i).lmMac ≠ f.src
  | _ => True

/-- The same for a move. -/
def PortOp.Safe (s : LlanSys) : PortOp → Prop
  | .take _ mac => mac ≠ 0 ∧ ∀ i c j c', (s.ports i).lmCache c = mac →
      (s.ports j).lmCache c' = mac → i = j ∧ c = c'
  | .change id mac => mac ≠ 0 ∧ ∀ i, (s.ports i).lmLan ≠ some id →
      (s.ports i).lmMac ≠ mac ∧ ∀ c, (s.ports i).lmCache c ≠ mac
  | .learn id mac => ∀ i d, (s.ports i).lmLan = some d → d ≠ id → (s.ports i).lmMac ≠ mac
  | _ => True

theorem PortOp.Cause.safe {s : LlanSys} {a : LlanAct} {op : PortOp} (hcause : op.Cause s a)
    (hsafe : MacSafe s a) : op.Safe s := by
  cases op with
  | keep => trivial
  | free id => trivial
  | learn id mac =>
    obtain ⟨os, uaddr, bd, token, f, rfl, rfl, hframe, rfl⟩ := hcause
    exact hsafe f hframe
  | take id mac =>
    obtain ⟨os, uaddr, bl, rq, fl, rfl⟩ := hcause
    exact hsafe
  | change id mac =>
    obtain ⟨os, uaddr, rfl, rfl⟩ := hcause
    exact hsafe

/-! ### The invariant -/

/-- The address of a port in use is not 0, and no other port has it or has learned it. -/
structure MacInv (s : LlanSys) : Prop extends PortInv s where
  nonzero : ∀ i d, (s.ports i).lmLan = some d → (s.ports i).lmMac ≠ 0
  alone : ∀ i d, (s.ports i).lmLan = some d → ∀ j, j ≠ i →
    (s.ports j).lmMac ≠ (s.ports i).lmMac ∧ ∀ c, (s.ports j).lmCache c ≠ (s.ports i).lmMac

section

variable {s t : LlanSys} {op : PortOp} {i : Fin llanIfaces} {d : Nat} {mac : BitVec 64}

theorem LlanSys.Fresh.macInv (hs : s.Fresh) : MacInv s := by
  refine ⟨hs.portInv, fun i d hlan => ?_, fun i d hlan => ?_⟩
  all_goals
    rw [hs.ports i] at hlan
    cases hlan

theorem MacInv.keep (hs : MacInv s) (ht : PortInv t) (hports : t.ports = s.ports) : MacInv t := by
  refine ⟨ht, ?_, ?_⟩
  · rw [hports]
    exact hs.nonzero
  · rw [hports]
    exact hs.alone

section

variable {m : LlanPort} (hs : MacInv s) (ht : PortInv t) (hports : t.ports = update s.ports i m)
include hs ht hports

theorem MacInv.recache (hmmac : m.lmMac = (s.ports i).lmMac) (hmlan : m.lmLan = (s.ports i).lmLan)
    (hcache : ∀ k d, (s.ports k).lmLan = some d → i ≠ k → ∀ c, m.lmCache c ≠ (s.ports k).lmMac) :
    MacInv t := by
  have hkeep := port_recache hports hmmac hmlan
  refine ⟨ht, fun k d hk => ?_, fun k d hk j hjk => ⟨?_, fun c => ?_⟩⟩
  · rw [(hkeep k).1]
    exact hs.nonzero k d ((hkeep k).2 ▸ hk)
  · rw [(hkeep j).1, (hkeep k).1]
    exact (hs.alone k d ((hkeep k).2 ▸ hk) j hjk).1
  · rw [(hkeep k).2] at hk
    rw [(hkeep k).1, hports]
    by_cases hji : j = i
    · rw [hji, update_self]
      exact hcache k d hk (hji ▸ hjk) c
    · rw [update_of_ne hji]
      exact (hs.alone k d hk j hjk).2 c

theorem MacInv.setMac (hzero : mac ≠ 0)
    (hnew : ∀ j, j ≠ i → (s.ports j).lmMac ≠ mac ∧ ∀ c, (s.ports j).lmCache c ≠ mac)
    (hmmac : m.lmMac = mac) (hmcache : m.lmCache = (s.ports i).lmCache)
    (hcache : ∀ k d, (s.ports k).lmLan = some d → k ≠ i →
      ∀ c, (s.ports i).lmCache c ≠ (s.ports k).lmMac) :
    MacInv t := by
  refine ⟨ht, fun k d hk => ?_, fun k d hk j hjk => ?_⟩
  · by_cases hki : k = i
    · rwa [hki, hports, update_self, hmmac]
    · rw [hports, update_of_ne hki] at hk ⊢
      exact hs.nonzero k d hk
  · by_cases hki : k = i
    · -- the port with the new address
      rw [hki] at hjk ⊢
      rw [hports, update_self, update_of_ne hjk, hmmac]
      exact hnew j hjk
    · rw [hports, update_of_ne hki] at hk ⊢
      by_cases hji : j = i
      · rw [hji, update_self, hmmac, hmcache]
        exact ⟨(hnew k hki).1.symm, hcache k d hk hki⟩
      · rw [update_of_ne hji]
        exact hs.alone k d hk j hjk

theorem MacInv.clear (hmlan : m.lmLan = none) (hmmac : m.lmMac = 0)
    (hmcache : ∀ c, m.lmCache c = 0) : MacInv t := by
  have hne : ∀ k d, (t.ports k).lmLan = some d → k ≠ i := by
    rintro k d hk rfl
    rw [hports, update_self, hmlan] at hk
    cases hk
  refine ⟨ht, fun k d hk => ?_, fun k d hk j hjk => ?_⟩
  · have hki := hne k d hk
    rw [hports, update_of_ne hki] at hk ⊢
    exact hs.nonzero k d hk
  · have hki := hne k d hk
    rw [hports, update_of_ne hki] at hk ⊢
    by_cases hji : j = i
    · rw [hji, update_self, hmmac]
      exact ⟨(hs.nonzero k d hk).symm, fun c => by rw [hmcache c]; exact (hs.nonzero k d hk).symm⟩
    · rw [update_of_ne hji]
      exact hs.alone k d hk j hjk

end

theorem MacInv.forget {ports : Fin llanIfaces → LlanPort} (hs : MacInv s)
    (hforgets : Forgets s.ports mac ports) (hsafe : (PortOp.take d mac).Safe s) :
    MacInv { s with ports := ports } ∧
    ∀ j, (ports j).lmMac ≠ mac ∧ ∀ c, (ports j).lmCache c ≠ mac := by
  have hp := hs.toPortInv.forget hforgets
  obtain ⟨hzero, hunique⟩ := hsafe
  rcases hforgets with ⟨rfl, hnone⟩ | ⟨j, e, hlan, hmac, hcache, rfl⟩
  · refine ⟨hs.keep hp rfl, fun j => ?_⟩
    have hj := hnone j
    simp only [answers, decide_eq_false_iff_not, not_and, not_or, not_exists] at hj
    by_cases hjmac : (s.ports j).lmMac = 0
    · -- an empty port
      cases hlan : (s.ports j).lmLan with
      | none =>
        rw [hjmac]
        exact ⟨hzero.symm, fun c => by rw [(hs.empty j hlan).2 c]; exact hzero.symm⟩
      | some e => exact absurd hjmac (hs.nonzero j e hlan)
    · exact ⟨(hj hjmac).1, (hj hjmac).2⟩
  · obtain ⟨c, hc, hfree⟩ := cacheFree_eq hcache
    rw [hfree] at hp ⊢
    constructor
    · refine hs.recache hp rfl rfl rfl fun k e' hk hjk c' => ?_
      dsimp only
      by_cases hcc : c' = c
      · rw [hcc, update_self]
        exact (hs.nonzero k e' hk).symm
      · rw [update_of_ne hcc]
        exact (hs.alone k e' hk j hjk).2 c'
    · intro k
      have hkmac : (s.ports k).lmMac ≠ mac := by
        intro heq
        cases hk : (s.ports k).lmLan with
        | none => exact hzero (heq ▸ (hs.empty k hk).1)
        | some e' =>
          by_cases hjk : j = k
          · exact hmac (hjk ▸ heq)
          · exact (hs.alone k e' hk j hjk).2 c (hc.trans heq.symm)
      by_cases hkj : k = j
      · rw [hkj, update_self]
        refine ⟨hmac, fun c' => ?_⟩
        dsimp only
        by_cases hcc : c' = c
        · rw [hcc, update_self]
          exact hzero.symm
        · rw [update_of_ne hcc]
          exact fun hc' => hcc (hunique j c' j c hc' hc).2
      · rw [update_of_ne hkj]
        exact ⟨hkmac, fun c' hc' => hkj (hunique k c' j c hc' hc).1⟩

/-- **A safe move keeps the addresses apart.** -/
theorem MacInv.move (hs : MacInv s) (hmove : PortMove s op t) (hsafe : op.Safe s) : MacInv t := by
  have ht := hs.toPortInv.move hmove
  cases hmove with
  | keep hports hident => exact hs.keep ht hports
  | @learn _ id mac i hlan hports hident =>
    obtain ⟨c, next, hadd⟩ := cacheAdd_eq (s.ports i) mac
    rw [hadd] at hports
    refine hs.recache ht hports rfl rfl fun k d hk hik c' => ?_
    dsimp only
    by_cases hcc : c' = c
    · rw [hcc, update_self]
      refine (hsafe k d hk ?_).symm
      rintro rfl
      exact hik (hs.port_unique hlan hk)
    · rw [update_of_ne hcc]
      exact (hs.alone k d hk i hik).2 c'
  | @take _ id mac old i j ports hid hforgets hi hports hident =>
    obtain ⟨hinv, hnew⟩ := hs.forget hforgets hsafe
    refine hinv.setMac ht hports hsafe.1 (fun j _ => hnew j) rfl rfl fun k d hk _ c => ?_
    rw [(hinv.empty i hi).2 c]
    exact (hinv.nonzero k d hk).symm
  | @change _ id mac old i hid hports hident =>
    have hlan := hs.port id old i hid
    refine hs.setMac ht hports hsafe.1 (fun j hji => hsafe.2 j fun hj => ?_) rfl rfl
      fun k d hk hki => (hs.alone k d hk i hki.symm).2
    exact hji (hs.port_unique hj hlan)
  | free hid hports hident => exact hs.clear ht hports rfl rfl fun _ => rfl

/-- **Runs**: the addresses stay apart. -/
theorem macInv_run {acts : List LlanAct} (hs : s.Fresh) (hrun : Run llanStep MacSafe s acts t) :
    MacInv t := by
  refine hrun.invariant (P := MacInv) (fun s a t hs hsafe hstep => ?_) hs.macInv
  obtain ⟨op, hmove, hcause⟩ := llanStep_move hs.toPortInv hstep
  exact hs.move hmove (hcause.safe hsafe)

/-! ### Frames -/

/-- The buffer for a frame of `size` bytes: that of the first descriptor in the first pool which is
big enough. -/
def lanBuffer (s : LlanSys) (d : Nat) (size : Uval) : Hv Uval := do
  let l ← live (s.llan d)
  match ← llanFindBuf s.mem l size with
  | none => .ok 0
  | some (p, b) => tceBdXlate l.llTceData ((l.llBlistPool p b).setCtrlV false)

variable {p : Fin llanIfaces} {id : Nat}

theorem MacInv.llanMacFind_eq (hs : MacInv s) (hlan : (s.ports p).lmLan = some d)
    (hmac : (s.ports p).lmMac = mac) : llanMacFind s mac = .ok (some (d, false)) := by
  have hfind : (Fin.find? fun i => (s.ports i).answers mac) = some p := by
    rw [Fin.find?_eq_some_iff]
    constructor
    · have hzero := hs.nonzero p d hlan
      simpa [answers, hmac] using hzero
    · intro j hj
      obtain ⟨hjmac, hjcache⟩ := hs.alone p d hlan j (ne_of_lt hj)
      rw [hmac] at hjmac hjcache
      simp [answers, hjmac, hjcache]
  unfold llanMacFind
  simp only [hfind, hlan, hmac, bne_self_eq_false]

theorem llanPut_eq_ok {size rb : Uval} (hbuf : lanBuffer s d size = .ok rb) (hrb : rb ≠ 0)
    (busy : Sval) (rq : LlanRqe) (fill : Memory → Uval → Memory) :
    ∃ r t, llanPut s d size busy rq fill = .ok (hSuccess, [r], t) ∧ r.dst = d := by
  obtain ⟨l, hl, hbuf⟩ := of_seq hbuf
  obtain ⟨_ | x, hfound, hbuf⟩ := of_seq hbuf
  · cases hbuf
    exact absurd rfl hrb
  unfold llanPut llanGetbuf
  rw [hl, ok_bind, hfound, ok_bind]
  dsimp only at hbuf ⊢
  rw [hbuf]
  simp only [ok_bind, if_neg hrb]
  exact ⟨_, _, rfl, rfl⟩

theorem llanFindBuf_acquire (mem : Memory) (l : LlanDev) (size : Uval) :
    llanFindBuf mem l.acquire size = llanFindBuf mem l size := by
  have hblist : l.acquire.blist = l.blist := rfl
  have hpool : l.acquire.llBlistPool = l.llBlistPool := rfl
  unfold llanFindBuf llanFindPool
  rw [hblist, hpool]

theorem llanMacCacheAdd_port {l : LlanDev} (q : Fin llanIfaces) :
    ((llanMacCacheAdd s id l mac).ports q).lmMac = (s.ports q).lmMac ∧
    ((llanMacCacheAdd s id l mac).ports q).lmLan = (s.ports q).lmLan := by
  obtain ⟨c, next, hadd⟩ := cacheAdd_eq (s.ports l.llMacIdx) mac
  unfold llanMacCacheAdd
  dsimp only
  split_ifs
  · exact port_recache rfl (by rw [hadd]) (by rw [hadd]) q
  · exact ⟨rfl, rfl⟩

theorem lanBuffer_learn {l : LlanDev} {size : Uval} (hl : s.llan id = some l) :
    lanBuffer (llanMacCacheAdd (s.setDev id l.acquire) id l mac) d size = lanBuffer s d size := by
  have hmem : (llanMacCacheAdd (s.setDev id l.acquire) id l mac).mem = s.mem := by
    unfold llanMacCacheAdd
    dsimp only
    split_ifs <;> rfl
  unfold lanBuffer
  rw [llan_llanMacCacheAdd, hmem]
  by_cases hdid : d = id
  · rw [hdid, hl, LlanSys.setDev_llan, update_self]
    simp only [live, ok_bind, llanFindBuf_acquire]
    rfl
  · rw [LlanSys.setDev_llan, update_of_ne hdid]

theorem llanSend_of_find {os : OsId} {uaddr : Uval} {bd : List TceBdesc} {f : LlanFrame}
    {l : LlanDev} {b : Bool} {r : LlanRecv} {t : LlanSys}
    (hget : llanGet s uaddr = .ok (some (id, l))) (howner : l.llOwner = some os)
    (hlock : l.llLock = false) (hframe : llanFrame s.mem l bd = .ok (some f))
    (hbcast : f.dst ≠ bcast)
    (hfind : llanMacFind (llanMacCacheAdd (s.setDev id l.acquire) id l f.src) f.dst =
      .ok (some (d, b)))
    (hput : llanEnqueue (llanMacCacheAdd (s.setDev id l.acquire) id l f.src) d f =
      .ok (hSuccess, [r], t)) :
    llanSend s os uaddr bd 0 = .ok (hSuccess, [r], t.release id) := by
  have hframe' : llanFrame (s.setDev id l.acquire).mem l bd = .ok (some f) := hframe
  have hlocked : llanSendLocked (s.setDev id l.acquire) id l bd 0 = .ok (hSuccess, [r], t) := by
    rw [llanSendLocked, decide_eq_true rfl, hassert, if_pos rfl, ok_bind, hframe', ok_bind]
    dsimp only
    rwa [if_pos hbcast, hfind]
  rw [llanSend, hget, ok_bind]
  dsimp only
  rw [howner, hlock, decide_eq_true rfl, hassert, if_pos rfl, ok_bind, if_neg (by decide), hlocked,
    ok_bind]

end

/-- **Unicast**: in every run under the condition, a frame to the address of a port, for which the
device of the port has a buffer, is enqueued at that port and at no other one. -/
theorem unicast_enqueued (s0 s : LlanSys) (acts : List LlanAct) (hfresh : s0.Fresh)
    (hrun : Run llanStep MacSafe s0 acts s) (os : OsId) (uaddr : Uval) (bd : List TceBdesc)
    (hsafe : MacSafe s (.call (.send os uaddr bd 0))) (f : LlanFrame)
    (hframe : sentFrame s os uaddr bd = .ok (some f)) (hunicast : f.dst.getLsbD 40 = false)
    (p : Fin llanIfaces) (d : Nat) (hlan : (s.ports p).lmLan = some d)
    (hdst : (s.ports p).lmMac = f.dst) (rb : Uval)
    (hbuf : lanBuffer s d (f.sum + f.align) = .ok rb) (hrb : rb ≠ 0) :
    ∃ r t, llanSend s os uaddr bd 0 = .ok (hSuccess, [r], t) ∧
      ∀ q, (s.ports q).lmLan = some r.dst ↔ q = p := by
  have hs := macInv_run hfresh hrun
  have hbcast : f.dst ≠ bcast := by
    intro heq
    rw [heq] at hunicast
    cases hunicast
  obtain ⟨_ | ⟨id, l⟩, hget, hsent⟩ := of_seq hframe
  · cases hsent
  obtain ⟨rfl, hl⟩ := llanGet_eq_some hget
  dsimp only at hsent
  split_ifs at hsent with hsender
  · -- the state in which the destination is looked up
    have hlearned : MacInv (llanMacCacheAdd (s.setDev (lanNumber uaddr) l.acquire)
        (lanNumber uaddr) l f.src) := by
      rcases @llanMacCacheAdd_move s _ l f.src hl with hmove | hmove
      · exact hs.move hmove trivial
      · exact hs.move hmove (hsafe f hframe)
    have hport := @llanMacCacheAdd_port (s.setDev (lanNumber uaddr) l.acquire) f.src
      (lanNumber uaddr) l p
    have hfind := hlearned.llanMacFind_eq (hport.2.trans hlan) (hport.1.trans hdst)
    rw [← @lanBuffer_learn s d f.src _ l _ hl] at hbuf
    obtain ⟨r, t, hput, hr⟩ := llanPut_eq_ok hbuf hrb hBusy
      ⟨true, f.align.setWidth 16, f.sum.setWidth 32⟩ f.fill
    refine ⟨r, _, llanSend_of_find hget hsender.1 hsender.2 hsent hbcast hfind hput, fun q => ?_⟩
    rw [hr]
    constructor
    · exact fun hq => hs.port_unique hq hlan
    · rintro rfl
      exact hlan
  · cases hsent

/-- In the page at `0x15000` of partition 0 is a broadcast under the address `0xb`, and in that at
`0x35000` of partition 2 a frame from `0xc` to `0xb`. -/
def lanFrames : Memory := fun a =>
  if a - 0x15000 < 6 then 0xff
  else if a = 0x1500b ∨ a = 0x35005 then 0xb
  else if a = 0x3500b then 0xc
  else 0

/-- The devices 0 and 1 are registered, and have a buffer each. -/
def lanSetup : List LlanAct :=
  [.call (lanRegister 0 0xa), .call (lanRegister 1 0xb),
    .call (.addBuf 0 0x100000 (lanBdesc 2048 0x3000)),
    .call (.addBuf 1 0x100001 (lanBdesc 2048 0x3000))]

/-- Partition 2 sends its frame. -/
def lanSend (s : LlanSys) : Hv (Sval × List LlanRecv × LlanSys) :=
  llanSend s 2 0x100002 [lanBdesc 60 0x5000] 0

/-- The frame to the address of port 1 goes to device 1; but after device 0 has sent a frame under
that address, it goes to device 0. -/
theorem unicast_stolen :
    (do
      let s ← lanSetup.foldlM llanStep (lanSys lanFrames)
      let x ← lanSend s
      let s ← llanStep s (.call (.send 0 0x100000 [lanBdesc 60 0x5000] 0))
      let y ← lanSend s
      .ok ((s.ports 1).lmLan, (s.ports 1).lmMac, x.2.1.map LlanRecv.dst, y.2.1.map LlanRecv.dst)) =
      (.ok (some 1, 0xb, [1], [0]) : Hv _) ∧
    (lanFrames.mac 0x35000).getLsbD 40 = false ∧ lanFrames.mac 0x35000 = 0xb := by
  decide +kernel

/-- `unicast_enqueued` for that frame, when only device 1 is registered. -/
theorem unicast_enqueued_lanSys :
    ∃ s r t, Run llanStep MacSafe (lanSys lanFrames)
        [.call (lanRegister 1 0xb), .call (.addBuf 1 0x100001 (lanBdesc 2048 0x3000))] s ∧
      lanSend s = .ok (hSuccess, [r], t) ∧ ∀ q, (s.ports q).lmLan = some r.dst ↔ q = 0 := by
  -- what has to be known about the state after the two calls
  have hfacts : (do
      let s1 ← llanStep (lanSys lanFrames) (.call (lanRegister 1 0xb))
      let s ← llanStep s1 (.call (.addBuf 1 0x100001 (lanBdesc 2048 0x3000)))
      let f ← sentFrame s 2 0x100002 [lanBdesc 60 0x5000]
      let rb ← lanBuffer s 1 188
      .ok (f, rb, (s.ports 0).lmLan, (s.ports 0).lmMac,
        decide (∀ i, i ≠ 0 → (s.ports i).lmLan = none))) =
      (.ok (some ⟨[(0x35000, 60)], 60, 0xb, 0xc⟩, 0x23000, some 1, 0xb, true) : Hv _) := by
    decide +kernel
  obtain ⟨s1, hfirst, hfacts⟩ := of_seq hfacts
  obtain ⟨s, hsecond, hfacts⟩ := of_seq hfacts
  obtain ⟨f, hframe, hfacts⟩ := of_seq hfacts
  obtain ⟨rb, hbuf, hfacts⟩ := of_seq hfacts
  simp only [Except.ok.injEq, Prod.mk.injEq, decide_eq_true_eq] at hfacts
  obtain ⟨rfl, rfl, hlan, hmac, hothers⟩ := hfacts
  have hfresh : (lanSys lanFrames).Fresh := by
    refine ⟨fun _ => rfl, fun id l hl => ?_⟩
    obtain ⟨-, rfl⟩ : id < 3 ∧ lanDev id = l := by simpa [lanSys] using hl
    rfl
  have hnew : MacSafe (lanSys lanFrames) (.call (lanRegister 1 0xb)) :=
    ⟨by decide, nofun⟩
  have hsafe : MacSafe s (.call (.send 2 0x100002 [lanBdesc 60 0x5000] 0)) := by
    intro f hf i d hi _
    rw [hframe] at hf
    cases hf
    by_cases hi0 : i = 0
    · rw [hi0, hmac]
      decide
    · rw [hothers i hi0] at hi
      cases hi
  have hbuffer : MacSafe s1 (.call (.addBuf 1 0x100001 (lanBdesc 2048 0x3000))) := trivial
  have hrun := Run.cons hnew hfirst (.cons hbuffer hsecond (.nil s))
  obtain ⟨r, t, hsend⟩ := unicast_enqueued _ s _ hfresh hrun 2 0x100002 _ hsafe _ hframe
    (by decide) 0 1 hlan hmac _ hbuf (by decide)
  exact ⟨s, r, t, hrun, hsend⟩

/-- **The ports and the devices agree** in every state of every run. -/
theorem portInv_run {s t : LlanSys} {acts : List LlanAct} {ok : LlanSys → LlanAct → Prop}
    (hs : s.Fresh) (hrun : Run llanStep ok s acts t) : PortInv t := by
  refine hrun.invariant (P := PortInv) (fun s a t hs _ hstep => ?_) hs.portInv
  obtain ⟨op, hmove, -⟩ := llanStep_move hs hstep
  exact hs.move hmove

/-- `portInv_run` for a system in which device 1 is registered. -/
theorem portInv_run_lanSys : ∃ t, llanStep (lanSys lanFrames) (.call (lanRegister 1 0xb)) = .ok t ∧
    (t.ports 0).lmLan = some 1 ∧ PortInv t := by
  have hfacts : (do
      let t ← llanStep (lanSys lanFrames) (.call (lanRegister 1 0xb))
      .ok (t.ports 0).lmLan) = (.ok (some 1) : Hv _) := by decide +kernel
  obtain ⟨t, hstep, hport⟩ := of_seq hfacts
  have hfresh : (lanSys lanFrames).Fresh := by
    refine ⟨fun _ => rfl, fun id l hl => ?_⟩
    obtain ⟨-, rfl⟩ : id < 3 ∧ lanDev id = l := by simpa [lanSys] using hl
    rfl
  have hrun : Run llanStep (fun _ _ => True) _ _ t := .cons trivial hstep (.nil t)
  exact ⟨t, hstep, Except.ok.inj hport, portInv_run hfresh hrun⟩

end Rhype
