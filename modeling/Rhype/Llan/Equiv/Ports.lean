import Rhype.Llan.Equiv.Calls

/-!
# Ports and devices

What the calls, the stores of the partitions and the changes of the tables do to the ports is one of
five moves.  Every move keeps the agreement of the ports with the devices (`PortInv`): a port in use
belongs to one registered device and has its address, and a port that is not in use is empty.
-/

namespace Rhype

open Function LlanIdent LlanSys Option

/-! ### Steps -/

/-- What happens: a call, a byte that a partition stores, or an entry of the table of a device. -/
inductive LlanAct
  | call (c : LlanCall)
  | store (a : Uval) (b : BitVec 8)
  | putTce (id p : Nat) (x : Tce)

/-- The device with another entry in its table. -/
def LlanDev.putTce (l : LlanDev) (p : Nat) (x : Tce) : LlanDev :=
  { l with
    llTceData := { l.llTceData with
      tTce := l.llTceData.tTce.map fun tce => update tce p x }
    setUp := by simp [l.setUp] }

def llanStep (s : LlanSys) : LlanAct → Hv LlanSys
  | .call c => do
    let x ← llanCall s c
    .ok x.2.2
  | .store a b => .ok { s with mem := update s.mem a b }
  | .putTce id p x =>
    .ok { s with llan := update s.llan id ((s.llan id).map fun l => l.putTce p x) }

/-! ### Moves -/

/-- What a step does to the ports. -/
inductive PortOp
  | keep
  | learn (id : Nat) (mac : BitVec 64)
  | take (id : Nat) (mac : BitVec 64)
  | change (id : Nat) (mac : BitVec 64)
  | free (id : Nat)

/-- No port answers to the address, or it is removed from the cache of a port. -/
def Forgets (ports : Fin llanIfaces → LlanPort) (mac : BitVec 64)
    (ports' : Fin llanIfaces → LlanPort) : Prop :=
  ports' = ports ∧ (∀ i, (ports i).answers mac = false) ∨
  ∃ j d, (ports j).lmLan = some d ∧ (ports j).lmMac ≠ mac ∧ (∃ c, (ports j).lmCache c = mac) ∧
    ports' = update ports j ((ports j).cacheFree mac)

inductive PortMove (s : LlanSys) : PortOp → LlanSys → Prop
  | keep {t : LlanSys} (hports : t.ports = s.ports) (hident : t.ident = s.ident) :
      PortMove s .keep t
  | learn {t : LlanSys} {id : Nat} {mac : BitVec 64} {i : Fin llanIfaces}
      (hlan : (s.ports i).lmLan = some id)
      (hports : t.ports = update s.ports i ((s.ports i).cacheAdd mac))
      (hident : t.ident = s.ident) : PortMove s (.learn id mac) t
  | take {t : LlanSys} {id : Nat} {mac old : BitVec 64} {i j : Fin llanIfaces}
      {ports : Fin llanIfaces → LlanPort} (hid : s.ident id = some ⟨old, false, j⟩)
      (hforgets : Forgets s.ports mac ports) (hi : (ports i).lmLan = none)
      (hports : t.ports = update ports i { ports i with lmLan := some id, lmMac := mac })
      (hident : t.ident = update s.ident id (some ⟨mac, true, i⟩)) :
      PortMove s (.take id mac) t
  | change {t : LlanSys} {id : Nat} {mac old : BitVec 64} {i : Fin llanIfaces}
      (hid : s.ident id = some ⟨old, true, i⟩)
      (hports : t.ports = update s.ports i { s.ports i with lmMac := mac })
      (hident : t.ident = update s.ident id (some ⟨mac, true, i⟩)) :
      PortMove s (.change id mac) t
  | free {t : LlanSys} {id : Nat} {mac : BitVec 64} {i : Fin llanIfaces}
      (hid : s.ident id = some ⟨mac, true, i⟩)
      (hports : t.ports = update s.ports i
        { s.ports i with lmMac := 0, lmLan := none, lmCache := fun _ => 0 })
      (hident : t.ident = update s.ident id (some ⟨mac, false, i⟩)) :
      PortMove s (.free id) t

/-! ### The cache of a port -/

section

variable {m : LlanPort} {mac : BitVec 64}

theorem LlanPort.cacheAdd_eq (m : LlanPort) (mac : BitVec 64) : ∃ c next, m.cacheAdd mac =
    { m with lmCache := update m.lmCache c mac, lmNext := next } := by
  unfold cacheAdd
  split
  case h_1 c hfind =>
    split_ifs with heq
    · refine ⟨c, m.lmNext, ?_⟩
      rw [← heq, update_eq_self]
    · exact ⟨c, c + 1, rfl⟩
  case h_2 => exact ⟨m.lmNext, m.lmNext + 1, rfl⟩

theorem LlanPort.cacheFree_eq (hmac : ∃ c, m.lmCache c = mac) : ∃ c, m.lmCache c = mac ∧
    m.cacheFree mac = { m with lmCache := update m.lmCache c 0, lmNext := c } := by
  unfold cacheFree
  split
  case h_1 c hfind =>
    exact ⟨c, by simpa using Fin.eq_true_of_find?_eq_some hfind, rfl⟩
  case h_2 hfind =>
    obtain ⟨c, hc⟩ := hmac
    have hnot := Fin.eq_false_of_find?_eq_none hfind c
    simp [hc] at hnot

end

/-! ### The invariant -/

/-- The ports and the devices agree. -/
structure PortInv (s : LlanSys) : Prop where
  owner : ∀ i d, (s.ports i).lmLan = some d → s.ident d = some ⟨(s.ports i).lmMac, true, i⟩
  port : ∀ d mac i, s.ident d = some ⟨mac, true, i⟩ → (s.ports i).lmLan = some d
  empty : ∀ i, (s.ports i).lmLan = none → (s.ports i).lmMac = 0 ∧ ∀ c, (s.ports i).lmCache c = 0

/-- The state in which no device is registered. -/
structure LlanSys.Fresh (s : LlanSys) : Prop where
  ports : ∀ i, s.ports i = ⟨0, fun _ => 0, none, 0⟩
  devices : ∀ id l, s.llan id = some l → l.llRegistered = false

section

variable {s t : LlanSys} {op : PortOp} {i j : Fin llanIfaces} {d d' : Nat} {mac old : BitVec 64}
  {m : LlanPort}

theorem LlanSys.Fresh.portInv (hs : s.Fresh) : PortInv s := by
  refine ⟨fun i d hlan => ?_, fun d mac i hd => ?_, fun i _ => ?_⟩
  · rw [hs.ports i] at hlan
    cases hlan
  · obtain ⟨l, hl, hident⟩ := map_eq_some_iff.1 hd
    have hreg : l.llRegistered = true := congrArg registered hident
    rw [hs.devices d l hl] at hreg
    cases hreg
  · rw [hs.ports i]
    exact ⟨rfl, fun _ => rfl⟩

theorem PortInv.port_unique (hs : PortInv s) (hi : (s.ports i).lmLan = some d)
    (hj : (s.ports j).lmLan = some d) : i = j := by
  have heq := (hs.owner i d hi).symm.trans (hs.owner j d hj)
  exact congrArg macIdx (some.inj heq)

theorem port_recache (hports : t.ports = update s.ports i m) (hmmac : m.lmMac = (s.ports i).lmMac)
    (hmlan : m.lmLan = (s.ports i).lmLan) (j : Fin llanIfaces) :
    (t.ports j).lmMac = (s.ports j).lmMac ∧ (t.ports j).lmLan = (s.ports j).lmLan := by
  rw [hports]
  by_cases hji : j = i
  · rw [hji, update_self]
    exact ⟨hmmac, hmlan⟩
  · rw [update_of_ne hji]
    exact ⟨rfl, rfl⟩

theorem PortInv.recache (hs : PortInv s) (hlan : (s.ports i).lmLan = some d)
    (hmmac : m.lmMac = (s.ports i).lmMac) (hmlan : m.lmLan = (s.ports i).lmLan)
    (hports : t.ports = update s.ports i m) (hident : t.ident = s.ident) : PortInv t := by
  have hkeep := port_recache hports hmmac hmlan
  refine ⟨fun j e hj => ?_, fun e mac j he => ?_, fun j hj => ?_⟩
  · rw [(hkeep j).2] at hj
    rw [hident, (hkeep j).1]
    exact hs.owner j e hj
  · rw [(hkeep j).2]
    exact hs.port e mac j (hident ▸ he)
  · rw [(hkeep j).2] at hj
    have hji : j ≠ i := by
      rintro rfl
      rw [hlan] at hj
      cases hj
    rw [hports, update_of_ne hji]
    exact hs.empty j hj

theorem PortInv.keep (hs : PortInv s) (hports : t.ports = s.ports) (hident : t.ident = s.ident) :
    PortInv t := by
  refine ⟨?_, ?_, ?_⟩
  · rw [hports, hident]
    exact hs.owner
  · rw [hports, hident]
    exact hs.port
  · rw [hports]
    exact hs.empty

/-- One port and one device change together: the port is that of the device, or both are free. -/
theorem PortInv.reassign {x : LlanIdent} (hs : PortInv s)
    (hports : t.ports = update s.ports i m) (hident : t.ident = update s.ident d (some x))
    (hother : ∀ k, k ≠ i → (s.ports k).lmLan ≠ some d)
    (hport : ∀ e, (s.ports i).lmLan = some e → e = d)
    (hnew : m.lmLan = some d ∧ x = ⟨m.lmMac, true, i⟩ ∨
      m.lmLan = none ∧ x.registered = false ∧ m.lmMac = 0 ∧ ∀ c, m.lmCache c = 0) : PortInv t := by
  have hi : t.ports i = m := by rw [hports, update_self]
  have hk : ∀ {k}, k ≠ i → t.ports k = s.ports k := fun hki => by rw [hports, update_of_ne hki]
  have hd : t.ident d = some x := by rw [hident, update_self]
  have he : ∀ {e}, e ≠ d → t.ident e = s.ident e := fun hed => by rw [hident, update_of_ne hed]
  refine ⟨fun k e hlan => ?_, fun e mac k hreg => ?_, fun k hnone => ?_⟩
  · rcases eq_or_ne k i with rfl | hki
    · rw [hi] at hlan ⊢
      rcases hnew with ⟨hm, rfl⟩ | ⟨hm, -⟩
      · cases hm.symm.trans hlan
        exact hd
      · cases hm.symm.trans hlan
    · rw [hk hki] at hlan ⊢
      rw [he fun heq => hother k hki (heq ▸ hlan)]
      exact hs.owner k e hlan
  · rcases eq_or_ne e d with rfl | hed
    · cases hd.symm.trans hreg
      rcases hnew with ⟨hm, hx⟩ | ⟨-, hx, -⟩
      · cases hx
        rwa [hi]
      · cases hx
    · rw [he hed] at hreg
      have hlan := hs.port e mac k hreg
      have hki : k ≠ i := by
        rintro rfl
        exact hed (hport e hlan)
      rwa [hk hki]
  · rcases eq_or_ne k i with rfl | hki
    · rw [hi] at hnone ⊢
      rcases hnew with ⟨hm, -⟩ | ⟨-, -, hempty⟩
      · cases hm.symm.trans hnone
      · exact hempty
    · rw [hk hki] at hnone ⊢
      exact hs.empty k hnone

section

variable (hs : PortInv s)
include hs

theorem PortInv.take (hid : s.ident d = some ⟨old, false, j⟩) (hi : (s.ports i).lmLan = none)
    (hports : t.ports = update s.ports i { s.ports i with lmLan := some d, lmMac := mac })
    (hident : t.ident = update s.ident d (some ⟨mac, true, i⟩)) : PortInv t := by
  refine hs.reassign hports hident (fun k _ hk => ?_) (fun e he => ?_) (.inl ⟨rfl, rfl⟩)
  · have heq := hid.symm.trans (hs.owner k d hk)
    simp at heq
  · cases hi.symm.trans he

theorem PortInv.own (hid : s.ident d = some ⟨mac, true, i⟩) :
    (∀ k, k ≠ i → (s.ports k).lmLan ≠ some d) ∧ ∀ e, (s.ports i).lmLan = some e → e = d :=
  have hlan := hs.port d mac i hid
  ⟨fun _ hki hk => hki (hs.port_unique hk hlan), fun _ he => some.inj (he.symm.trans hlan)⟩

theorem PortInv.change (hid : s.ident d = some ⟨old, true, i⟩)
    (hports : t.ports = update s.ports i { s.ports i with lmMac := mac })
    (hident : t.ident = update s.ident d (some ⟨mac, true, i⟩)) : PortInv t :=
  hs.reassign hports hident (hs.own hid).1 (hs.own hid).2 (.inl ⟨hs.port d old i hid, rfl⟩)

theorem PortInv.free (hid : s.ident d = some ⟨mac, true, i⟩)
    (hports : t.ports = update s.ports i
      { s.ports i with lmMac := 0, lmLan := none, lmCache := fun _ => 0 })
    (hident : t.ident = update s.ident d (some ⟨mac, false, i⟩)) : PortInv t :=
  hs.reassign hports hident (hs.own hid).1 (hs.own hid).2 (.inr ⟨rfl, rfl, rfl, fun _ => rfl⟩)

theorem PortInv.forget {ports : Fin llanIfaces → LlanPort}
    (hforgets : Forgets s.ports mac ports) : PortInv { s with ports := ports } := by
  rcases hforgets with ⟨rfl, -⟩ | ⟨j, d, hlan, -, hcache, rfl⟩
  · exact hs.keep rfl rfl
  · obtain ⟨c, -, hfree⟩ := LlanPort.cacheFree_eq hcache
    refine hs.recache hlan ?_ ?_ rfl rfl <;> rw [hfree]

/-- **Every move keeps the agreement.** -/
theorem PortInv.move (hmove : PortMove s op t) : PortInv t := by
  cases hmove with
  | keep hports hident => exact hs.keep hports hident
  | @learn _ id mac i hlan hports hident =>
    obtain ⟨c, next, hadd⟩ := LlanPort.cacheAdd_eq (s.ports i) mac
    refine hs.recache hlan ?_ ?_ hports hident <;> rw [hadd]
  | take hid hforgets hi hports hident => exact (hs.forget hforgets).take hid hi hports hident
  | change hid hports hident => exact hs.change hid hports hident
  | free hid hports hident => exact hs.free hid hports hident

end

end

/-! ### The moves of the calls -/

/-- The frame that a partition sends with its device. -/
def sentFrame (s : LlanSys) (os : OsId) (uaddr : Uval) (bd : List TceBdesc) :
    Hv (Option LlanFrame) := do
  match ← llanGet s uaddr with
  | none => .ok none
  | some (_, l) => if l.llOwner = some os ∧ l.llLock = false then llanFrame s.mem l bd else .ok none

/-- The action that makes the move. -/
def PortOp.Cause (s : LlanSys) (a : LlanAct) : PortOp → Prop
  | .learn id mac => ∃ os uaddr bd token f, a = .call (.send os uaddr bd token) ∧
      id = lanNumber uaddr ∧ sentFrame s os uaddr bd = .ok (some f) ∧ f.src = mac
  | .take _ mac => ∃ os uaddr bl rq fl, a = .call (.register os uaddr bl rq fl mac)
  | .change id mac => ∃ os uaddr, a = .call (.changeMac os uaddr mac) ∧ id = lanNumber uaddr
  | _ => True

section

variable {s t u v : LlanSys} {os : OsId} {uaddr : Uval} {ret : Sval} {recvs : List LlanRecv}
  {id : Nat} {l : LlanDev} {mac : BitVec 64} {bd : List TceBdesc}

theorem ident_congr (hllan : t.llan = s.llan) : t.ident = s.ident := by
  unfold ident
  rw [hllan]

theorem ident_acquire (hl : s.llan id = some l) : (s.setDev id l.acquire).ident = s.ident :=
  comp_put (Option.map LlanDev.ident) hl rfl

theorem llanMacAdd_move {i : Fin llanIfaces} (hx : llanMacAdd v id mac = .ok (some i, u))
    (hidx : ∀ j d ld, (v.ports j).lmLan = some d → v.llan d = some ld → ld.llMacIdx = j) :
    ∃ ports, Forgets v.ports mac ports ∧ (ports i).lmLan = none ∧
      u.ports = update ports i { ports i with lmLan := some id, lmMac := mac } := by
  have htake : ∀ {w : LlanSys}, llanMacTake w id mac = .ok (some i, u) →
      (w.ports i).lmLan = none ∧
      u.ports = update w.ports i { w.ports i with lmLan := some id, lmMac := mac } := by
    intro w hw
    unfold llanMacTake at hw
    split at hw
    · cases hw
    next k hfind =>
    obtain ⟨-, -, hw⟩ := of_seq hw
    cases hw
    exact ⟨by simpa using Fin.eq_true_of_find?_eq_some hfind, rfl⟩
  obtain ⟨found, hfind, hx⟩ := of_seq hx
  unfold llanMacFind at hfind
  split at hfind
  · -- nobody answers
    next hnone =>
    cases hfind
    exact ⟨v.ports, .inl ⟨rfl, fun j => Fin.eq_false_of_find?_eq_none hnone j⟩, htake hx⟩
  next j hsome =>
  rcases hlan : (v.ports j).lmLan with _ | d
  · rw [hlan] at hfind
    cases hfind
  rw [hlan] at hfind
  cases hfind
  have hanswers := Fin.eq_true_of_find?_eq_some hsome
  simp only [LlanPort.answers, decide_eq_true_eq] at hanswers
  by_cases heq : (v.ports j).lmMac = mac
  · simp only [heq, bne_self_eq_false] at hx
    cases hx
  -- the address is in the cache of port `j`
  have hcached : ((v.ports j).lmMac != mac) = true := by simpa using heq
  simp only [hcached] at hx
  obtain ⟨ld, hld, hx⟩ := of_seq hx
  rw [live_ok] at hld
  have hj := hidx j d ld hlan hld
  have hbelongs : (v.ports j).BelongsTo d := ⟨hanswers.1, hlan⟩
  rw [llanMacCacheFree, hj, if_pos hbelongs] at hx
  exact ⟨_, .inr ⟨j, d, hlan, heq, hanswers.2.resolve_left heq, rfl⟩, htake hx⟩

theorem llanRegister_move {bl fl : Uval} {rq : BitVec 64} (hs : PortInv s)
    (hx : llanRegister s os uaddr bl rq fl mac = .ok (ret, t)) :
    PortMove s .keep t ∨ ∃ id, PortMove s (.take id mac) t := by
  rcases llanRegister_spec hx with
    ⟨rfl, -⟩ | ⟨id, l, hlocks, -, -, ⟨-, rfl⟩ | ⟨hreg, u, rfl, hlocked⟩⟩
  · exact .inl (.keep rfl rfl)
  · exact .inl (.keep rfl (ident_acquire hlocks.llan))
  have hacq := ident_acquire hlocks.llan
  have hunreg : s.ident id = some ⟨l.llMac, false, l.llMacIdx⟩ := by
    rw [ident_of_llan hlocks.llan, LlanDev.ident, hreg]
  rcases llanRegisterLocked_spec (update_self _ _ _) hlocked with
    hkeep | ⟨mem, l', i, v, hl', -, hadd, rfl⟩
  · exact .inl (.keep hkeep.ports ((ident_release _ _).trans (hkeep.ident.trans hacq)))
  -- the index of another device is that of its port
  have hidx : ∀ j d ld, (s.ports j).lmLan = some d →
      (({ s.setDev id l.acquire with mem := mem } : LlanSys).setDev id l').llan d = some ld →
      ld.llMacIdx = j := by
    intro j d ld hj hld
    have howner := hs.owner j d hj
    have hne : d ≠ id := by
      rintro rfl
      rw [hunreg] at howner
      simp at howner
    simp only [setDev_llan, update_of_ne hne] at hld
    rw [ident_of_llan hld] at howner
    exact congrArg macIdx (some.inj howner)
  obtain ⟨ports, hforgets, hi, hports⟩ := llanMacAdd_move hadd hidx
  refine .inr ⟨id, .take hunreg hforgets hi hports ?_⟩
  rw [ident_release, ident_setDev, ident_congr (llan_llanMacAdd hadd), ident_setDev, update_idem]
  have hmac : l'.llMac = mac := congrArg LlanIdent.mac hl'
  show update (s.setDev id l.acquire).ident id (some ⟨l'.llMac, true, i⟩) = _
  rw [hacq, hmac]

theorem llanFree_move (hx : llanFree s os uaddr = .ok (ret, t)) :
    PortMove s .keep t ∨ ∃ id, PortMove s (.free id) t := by
  rcases llanFree_spec hx with rfl | ⟨id, l, u, hlocks, rfl, rfl | ⟨hreg, v, hfree, rfl⟩⟩
  · exact .inl (.keep rfl rfl)
  · exact .inl (.keep rfl ((ident_release _ _).trans (ident_acquire hlocks.llan)))
  have hident : s.ident id = some ⟨l.llMac, true, l.llMacIdx⟩ := by
    rw [ident_of_llan hlocks.llan, LlanDev.ident, hreg]
  have hllan := llan_llanMacFree hfree
  obtain ⟨-, -, hfree⟩ := of_seq hfree
  cases hfree
  refine .inr ⟨id, .free hident rfl ?_⟩
  rw [ident_release, ident_setDev, ident_congr hllan, ident_acquire hlocks.llan]
  rfl

theorem llanChangeMac_move (hs : PortInv s) (hx : llanChangeMac s os uaddr mac = .ok (ret, t)) :
    PortMove s .keep t ∨ PortMove s (.change (lanNumber uaddr) mac) t := by
  rcases llanChangeMac_spec hx with
    rfl | ⟨id, l, u, hlocks, rfl, rfl | ⟨hreg, i, v, hchange, rfl⟩⟩
  · exact .inl (.keep rfl rfl)
  · exact .inl (.keep rfl ((ident_release _ _).trans (ident_acquire hlocks.llan)))
  obtain ⟨rfl, hl⟩ := llanGet_eq_some hlocks.get
  have hllan := llan_llanMacChange hchange
  unfold llanMacChange at hchange
  split at hchange
  · cases hchange
  next j hfind =>
  obtain ⟨-, -, hchange⟩ := of_seq hchange
  cases hchange
  have hlan : (s.ports i).lmLan = some (lanNumber uaddr) := by
    simpa using Fin.eq_true_of_find?_eq_some hfind
  refine .inr (.change (hs.owner i _ hlan) rfl ?_)
  rw [ident_release, ident_setDev, ident_congr hllan, ident_acquire hl]
  rw [LlanDev.ident]
  simp only [LlanDev.acquire, hreg]

theorem llanMcastCtrl_move {fl : BitVec 64} {state : Option (BitVec 64)}
    (hx : llanMcastCtrl s os uaddr fl = .ok (ret, state, t)) : PortMove s .keep t := by
  rcases llanMcastCtrl_spec hx with rfl | ⟨id, l, mem, state, count, hlocks, rfl⟩
  · exact .keep rfl rfl
  · refine .keep rfl ((ident_release _ _).trans ?_)
    exact comp_put (Option.map LlanDev.ident) hlocks.llan rfl

theorem llanAddBuf_move {bd : TceBdesc} (hx : llanAddBuf s os uaddr bd = .ok (ret, t)) :
    PortMove s .keep t := by
  rcases llanAddBuf_spec hx with
    ⟨rfl, -⟩ | ⟨id, l, r, hlocks, -, ⟨-, rfl⟩ | ⟨-, u, rfl, hkeep, -⟩⟩
  · exact .keep rfl rfl
  · exact .keep rfl (ident_acquire hlocks.llan)
  · refine .keep hkeep.ports ((ident_release _ _).trans ?_)
    exact hkeep.ident.trans (ident_acquire hlocks.llan)

theorem PortMove.congr {op : PortOp} (hmove : PortMove s op t) (hports : u.ports = t.ports)
    (hident : u.ident = t.ident) : PortMove s op u := by
  cases hmove with
  | keep hp hi => exact .keep (hports.trans hp) (hident.trans hi)
  | learn hlan hp hi => exact .learn hlan (hports.trans hp) (hident.trans hi)
  | take hid hf hn hp hi => exact .take hid hf hn (hports.trans hp) (hident.trans hi)
  | change hid hp hi => exact .change hid (hports.trans hp) (hident.trans hi)
  | free hid hp hi => exact .free hid (hports.trans hp) (hident.trans hi)

theorem llanMacCacheAdd_move (hl : s.llan id = some l) :
    PortMove s .keep (llanMacCacheAdd (s.setDev id l.acquire) id l mac) ∨
    PortMove s (.learn id mac) (llanMacCacheAdd (s.setDev id l.acquire) id l mac) := by
  have hident := (ident_congr (@llan_llanMacCacheAdd (s.setDev id l.acquire) id l mac)).trans
    (ident_acquire hl)
  by_cases hbelongs : ((s.setDev id l.acquire).ports l.llMacIdx).BelongsTo id
  · exact .inr (.learn hbelongs.2 (congrArg ports (if_pos hbelongs)) hident)
  have hsame : llanMacCacheAdd (s.setDev id l.acquire) id l mac = s.setDev id l.acquire :=
    if_neg hbelongs
  refine .inl (.keep ?_ hident)
  rw [hsame]
  rfl

theorem sentFrame_eq (hget : llanGet s uaddr = .ok (some (id, l))) (howner : l.llOwner = some os)
    (hlock : l.llLock = false) : sentFrame s os uaddr bd = llanFrame s.mem l bd := by
  rw [sentFrame, hget]
  exact if_pos ⟨howner, hlock⟩

/-- The sender learns the source of the frame if it has a port. -/
theorem llanSend_move {token : Uval} (hx : llanSend s os uaddr bd token = .ok (ret, recvs, t)) :
    PortMove s .keep t ∨ ∃ f, sentFrame s os uaddr bd = .ok (some f) ∧
      PortMove s (.learn (lanNumber uaddr) f.src) t := by
  rcases llanSend_spec hx with ⟨rfl, -⟩ | ⟨id, l, u, hlocks, howner, rfl, hsend⟩
  · exact .inl (.keep rfl rfl)
  obtain ⟨rfl, hl⟩ := llanGet_eq_some hlocks.get
  have hsent := @sentFrame_eq _ _ _ _ _ bd hlocks.get howner hlocks.unlocked
  rcases llanSendLocked_spec hsend with ⟨rfl, -⟩ | ⟨f, hframe, hr⟩
  · exact .inl (.keep rfl ((ident_release _ _).trans (ident_acquire hl)))
  have hkeep := hr.keeps
  have hident := (ident_release u (lanNumber uaddr)).trans hkeep.ident
  rcases @llanMacCacheAdd_move s _ l f.src hl with hmove | hmove
  · exact .inl (hmove.congr hkeep.ports hident)
  · exact .inr ⟨f, hsent.trans hframe, hmove.congr hkeep.ports hident⟩

/-- A call is one of the moves. -/
theorem llanCall_move {c : LlanCall} (hs : PortInv s) (hx : llanCall s c = .ok (ret, recvs, t)) :
    ∃ op, PortMove s op t ∧ op.Cause s (.call c) := by
  cases c with
  | register os uaddr bl rq fl mac =>
    obtain ⟨hret, rfl⟩ := of_llanCall hx
    rcases llanRegister_move hs hret with hmove | ⟨id, hmove⟩
    · exact ⟨.keep, hmove, trivial⟩
    · exact ⟨_, hmove, os, uaddr, bl, rq, fl, rfl⟩
  | free os uaddr =>
    obtain ⟨hret, rfl⟩ := of_llanCall hx
    rcases llanFree_move hret with hmove | ⟨id, hmove⟩
    · exact ⟨.keep, hmove, trivial⟩
    · exact ⟨_, hmove, trivial⟩
  | mcastCtrl os uaddr fl =>
    obtain ⟨x, hret, hcall⟩ := of_seq hx
    cases hcall
    exact ⟨.keep, llanMcastCtrl_move hret, trivial⟩
  | changeMac os uaddr mac =>
    obtain ⟨hret, rfl⟩ := of_llanCall hx
    rcases llanChangeMac_move hs hret with hmove | hmove
    · exact ⟨.keep, hmove, trivial⟩
    · exact ⟨_, hmove, os, uaddr, rfl, rfl⟩
  | addBuf os uaddr bd =>
    obtain ⟨hret, rfl⟩ := of_llanCall hx
    exact ⟨.keep, llanAddBuf_move hret, trivial⟩
  | send os uaddr bd token =>
    rcases llanSend_move hx with hmove | ⟨f, hframe, hmove⟩
    · exact ⟨.keep, hmove, trivial⟩
    · exact ⟨_, hmove, os, uaddr, bd, token, f, rfl, rfl, hframe, rfl⟩
  | freebuf os uaddr size =>
    have hkeep := (llanFreebuf_receives hx).keeps
    exact ⟨.keep, .keep hkeep.ports hkeep.ident, trivial⟩

/-- **One step** is one of the moves. -/
theorem llanStep_move {a : LlanAct} (hs : PortInv s) (hx : llanStep s a = .ok t) :
    ∃ op, PortMove s op t ∧ op.Cause s a := by
  cases a with
  | call c =>
    obtain ⟨⟨ret, recvs, u⟩, hcall, hx⟩ := of_seq hx
    cases hx
    exact llanCall_move hs hcall
  | store a b =>
    cases hx
    exact ⟨.keep, .keep rfl rfl, trivial⟩
  | putTce id p x =>
    cases hx
    exact ⟨.keep, .keep rfl (comp_map (Option.map LlanDev.ident)
      (f := fun l => l.putTce p x) (fun _ => rfl) s id), trivial⟩

end

end Rhype
