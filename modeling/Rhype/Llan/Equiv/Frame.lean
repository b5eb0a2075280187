import Rhype.Llan.Calls
import Rhype.Machine.Run

/-!
# What a call leaves alone

A received frame changes the buffers and the queue of its receiver, and the memory.  The ports, the
address and the port of every device, and the locks stay as they are: `LlanSys.Keeps`.
-/

namespace Rhype

open Function

/-! ### Devices and ports -/

/-- What the device says about its port. -/
structure LlanIdent where
  mac : BitVec 64
  registered : Bool
  macIdx : Fin llanIfaces

def LlanDev.ident (l : LlanDev) : LlanIdent := ⟨l.llMac, l.llRegistered, l.llMacIdx⟩

namespace LlanSys

def ident (s : LlanSys) (id : Nat) : Option LlanIdent := (s.llan id).map LlanDev.ident

/-- The state of the lock, for the numbers with a device. -/
def locked (s : LlanSys) (id : Nat) : Option Bool := (s.llan id).map LlanDev.llLock

/-- The ports, what the devices say about them, and the locks are as before. -/
structure Keeps (s t : LlanSys) : Prop where
  ports : t.ports = s.ports
  ident : t.ident = s.ident
  locked : t.locked = s.locked

section

variable {s t u : LlanSys} {id : Nat} {l l' : LlanDev} {mem : Memory} {β : Type*}

theorem Keeps.refl (s : LlanSys) : s.Keeps s := ⟨rfl, rfl, rfl⟩

theorem Keeps.trans (hst : s.Keeps t) (htu : t.Keeps u) : s.Keeps u :=
  ⟨htu.ports.trans hst.ports, htu.ident.trans hst.ident, htu.locked.trans hst.locked⟩

theorem comp_put (F : Option LlanDev → β) (hl : s.llan id = some l)
    (hF : F (some l') = F (some l)) : F ∘ (s.setDev id l').llan = F ∘ s.llan := by
  refine (comp_update F s.llan id (some l')).trans ?_
  rw [hF, ← hl]
  exact update_eq_self id (F ∘ s.llan)

theorem comp_map (F : Option LlanDev → β) {f : LlanDev → LlanDev}
    (hf : ∀ l, F (some (f l)) = F (some l)) (s : LlanSys) (id : Nat) :
    F ∘ update s.llan id ((s.llan id).map f) = F ∘ s.llan := by
  rw [comp_update]
  refine update_eq_self_iff.2 ?_
  rw [comp_apply]
  cases s.llan id with
  | none => rfl
  | some l => exact hf l

theorem ident_of_llan (hl : s.llan id = some l) : s.ident id = some l.ident := by
  rw [LlanSys.ident, hl, Option.map_some]

theorem locked_of_llan (hl : s.llan id = some l) : s.locked id = some l.llLock := by
  rw [locked, hl, Option.map_some]

theorem ident_setDev (s : LlanSys) (id : Nat) (l : LlanDev) :
    (s.setDev id l).ident = update s.ident id (some l.ident) :=
  comp_update (Option.map LlanDev.ident) s.llan id (some l)

theorem locked_setDev (s : LlanSys) (id : Nat) (l : LlanDev) :
    (s.setDev id l).locked = update s.locked id (some l.llLock) :=
  comp_update (Option.map LlanDev.llLock) s.llan id (some l)

theorem ident_release (s : LlanSys) (id : Nat) : (s.release id).ident = s.ident :=
  comp_map (Option.map LlanDev.ident) (f := fun l => { l with llLock := false }) (fun _ => rfl) s id

theorem Keeps.put (hl : s.llan id = some l) (hident : l'.ident = l.ident)
    (hlock : l'.llLock = l.llLock) : s.Keeps ({ s with mem := mem }.setDev id l') where
  ports := rfl
  ident := comp_put (Option.map LlanDev.ident) hl (congrArg some hident)
  locked := comp_put (Option.map LlanDev.llLock) hl (congrArg some hlock)

end

end LlanSys

/-! ### Received frames -/

section

variable {s t : LlanSys} {id : Nat} {l l' : LlanDev} {mem mem' : Memory} {size rb : Uval}
  {ret : Sval} {recvs : List LlanRecv} {f : LlanFrame}

theorem llanGetbuf_cases (hx : llanGetbuf mem l size = .ok (rb, l', mem')) :
    l' = l ∨ ∃ p b, ∃ bd : TceBdesc, l' = l.setPool p b (bd.setCtrlV false) := by
  obtain ⟨found, -, hx⟩ := of_seq hx
  cases found with
  | none =>
    cases hx
    exact .inl rfl
  | some b =>
    obtain ⟨_, -, hx⟩ := of_seq hx
    cases hx
    exact .inr ⟨_, _, _, rfl⟩

theorem llanWriteRqe_eq (mem : Memory) (l : LlanDev) (rq : LlanRqe) (rb : Uval) :
    ∃ idx toggle, (llanWriteRqe mem l rq rb).1 =
      { l with llRecvqIdx := idx, llRecvqToggle := toggle } := by
  unfold llanWriteRqe
  dsimp only
  split_ifs
  all_goals exact ⟨_, _, rfl⟩

theorem llanPut_keeps {busy : Sval} {rq : LlanRqe} {fill : Memory → Uval → Memory}
    (hx : llanPut s id size busy rq fill = .ok (ret, recvs, t)) : s.Keeps t := by
  obtain ⟨l, hl, hx⟩ := of_seq hx
  obtain ⟨⟨rb, l', mem⟩, hbuf, hx⟩ := of_seq hx
  rw [live_ok] at hl
  have hkeep : l'.ident = l.ident ∧ l'.llLock = l.llLock := by
    rcases llanGetbuf_cases hbuf with rfl | ⟨p, b, bd, rfl⟩
    all_goals exact ⟨rfl, rfl⟩
  dsimp only at hx
  split_ifs at hx with hnull
  · cases hx
    exact .put hl hkeep.1 hkeep.2
  cases hx
  obtain ⟨idx, toggle, hrqe⟩ := llanWriteRqe_eq (fill mem rb) l' rq rb
  rw [hrqe]
  exact .put hl hkeep.1 hkeep.2

/-- **Received frames**, with the entries that are written for them. -/
inductive Receives (s : LlanSys) : List LlanRecv → LlanSys → Prop
  | nil : Receives s [] s
  | put {t u : LlanSys} {recvs recvs' : List LlanRecv} {id : Nat} {size : Uval} {busy ret : Sval}
      {rq : LlanRqe} {fill : Memory → Uval → Memory} (hs : Receives s recvs t)
      (hx : llanPut t id size busy rq fill = .ok (ret, recvs', u)) : Receives s (recvs ++ recvs') u

theorem Receives.keeps (hr : Receives s recvs t) : s.Keeps t := by
  induction hr with
  | nil => exact .refl s
  | put _ hx ih => exact ih.trans (llanPut_keeps hx)

theorem llanBroadcastPort_receives {mac : BitVec 64} {x y : Sval × List LlanRecv × LlanSys}
    {i : Fin llanIfaces} (hx : llanBroadcastPort mac f x i = .ok y)
    (hs : Receives s x.2.1 x.2.2) : Receives s y.2.1 y.2.2 := by
  unfold llanBroadcastPort at hx
  dsimp only at hx
  split_ifs at hx
  · obtain ⟨d, -, hx⟩ := of_seq hx
    obtain ⟨ld, -, hx⟩ := of_seq hx
    split_ifs at hx
    · cases hx
      exact hs
    · obtain ⟨⟨lret, recvs', t⟩, hput, hx⟩ := of_seq hx
      cases hx
      exact hs.put hput
  · cases hx
    exact hs

theorem llanBroadcast_receives (hx : llanBroadcast s l f = .ok (ret, recvs, t)) :
    Receives s recvs t :=
  Run.foldlM_invariant (P := fun x : Sval × List LlanRecv × LlanSys => Receives s x.2.1 x.2.2)
    (fun _ _ _ _ hs hstep => llanBroadcastPort_receives hstep hs) hx .nil

/-! ### The filter and the buffers -/

theorem llanMcastModify_eq (mem : Memory) (l : LlanDev) (modc : BitVec 64) :
    ∃ count, (llanMcastModify mem l modc).2.1 = { l with llMcastCount := count } := by
  unfold llanMcastModify
  split_ifs
  all_goals exact ⟨_, rfl⟩

theorem llanMcastCtrlLocked_eq (mem : Memory) (l : LlanDev) (fl : BitVec 64) :
    ∃ state count, (llanMcastCtrlLocked mem l fl).2.2.1 =
      { l with llMcastState := state, llMcastCount := count } := by
  unfold llanMcastCtrlLocked
  split_ifs
  · exact ⟨_, _, rfl⟩
  · exact ⟨_, llanMcastModify_eq mem _ _⟩

/-! ### Ports -/

variable {mac rq : BitVec 64} {i : Option (Fin llanIfaces)}

theorem llan_llanMacCacheAdd : (llanMacCacheAdd s id l mac).llan = s.llan := by
  unfold llanMacCacheAdd
  dsimp only
  split_ifs <;> rfl

theorem llan_llanMacCacheFree : (llanMacCacheFree s id l mac).llan = s.llan := by
  unfold llanMacCacheFree
  dsimp only
  split_ifs <;> rfl

theorem llan_llanMacTake (hx : llanMacTake s id mac = .ok (i, t)) : t.llan = s.llan := by
  unfold llanMacTake at hx
  split at hx
  · cases hx
    rfl
  · obtain ⟨-, -, hx⟩ := of_seq hx
    cases hx
    rfl

theorem llan_llanMacAdd (hx : llanMacAdd s id mac = .ok (i, t)) : t.llan = s.llan := by
  obtain ⟨_ | ⟨d, _ | _⟩, -, hx⟩ := of_seq hx
  · exact llan_llanMacTake hx
  · cases hx
    rfl
  · obtain ⟨ld, -, hx⟩ := of_seq hx
    exact (llan_llanMacTake hx).trans llan_llanMacCacheFree

theorem llan_llanMacChange (hx : llanMacChange s id l mac = .ok (i, t)) : t.llan = s.llan := by
  unfold llanMacChange at hx
  split at hx
  · cases hx
    rfl
  · obtain ⟨-, -, hx⟩ := of_seq hx
    cases hx
    rfl

theorem llan_llanMacFree (hx : llanMacFree s l = .ok t) : t.llan = s.llan := by
  obtain ⟨-, -, hx⟩ := of_seq hx
  cases hx
  rfl

theorem locked_congr (hllan : t.llan = s.llan) : t.locked = s.locked := by
  unfold LlanSys.locked
  rw [hllan]

/-- The device with the fields that `llan_register_locked` sets before it takes a port. -/
def LlanDev.prepared (l : LlanDev) (bl recvq fl : Uval) (rq mac : BitVec 64) : LlanDev :=
  { l with
    llBlist := bl
    llRecvq := recvq
    llRecvqEnd := ((⟨rq⟩ : TceBdesc).lbdLen / 16).setWidth 16
    llRecvqToggle := 1
    llRecvqIdx := 0
    llMfilter := fl
    llMac := mac
    llBlistPool := fun _ _ => ⟨0⟩ }

theorem llanRegisterLocked_cases {bl fl : Uval} {ret : Sval}
    (hx : llanRegisterLocked s id l bl rq fl mac = .ok (ret, t)) :
    (ret = hParameter ∧ ∃ mem l', t = { s with mem := mem }.setDev id l' ∧ l'.ident = l.ident ∧
      l'.llLock = l.llLock ∧ l'.llBlistPool = l.llBlistPool) ∨
    ∃ (mem0 mem : Memory) (filter : BitVec 64) (pg recvq fpg : Uval) (l' : LlanDev)
      (i : Fin llanIfaces) (u : LlanSys),
      l' = l.prepared pg recvq fpg rq mac ∧ (⟨rq⟩ : TceBdesc).lbdLen % 16 = 0 ∧
      llanInitPools (((mem0.zero l'.llBlist llanBlSize).setDword (l'.blist llanBlRecvq)
        rq).setDword (l'.blist llanBlFilter) filter) l' = .ok mem ∧
      llanMacAdd ({ s with mem := mem }.setDev id l') id mac = .ok (some i, u) ∧
      t = u.setDev id { l' with llMacIdx := i, llRegistered := true } := by
  obtain ⟨-, -, hx⟩ := of_seq hx
  obtain ⟨_ | pg, -, hx⟩ := of_seq hx
  · cases hx
    exact .inl ⟨rfl, s.mem, l, rfl, rfl, rfl, rfl⟩
  obtain ⟨-, -, hx⟩ := of_seq hx
  obtain ⟨recvq, -, hx⟩ := of_seq hx
  split_ifs at hx with hnull hlen
  · cases hx
    exact .inl ⟨rfl, s.mem, _, rfl, rfl, rfl, rfl⟩
  · cases hx
    exact .inl ⟨rfl, s.mem, _, rfl, rfl, rfl, rfl⟩
  obtain ⟨_ | fpg, -, hx⟩ := of_seq hx
  · cases hx
    exact .inl ⟨rfl, _, _, rfl, rfl, rfl, rfl⟩
  obtain ⟨mem, hinit, hx⟩ := of_seq hx
  obtain ⟨⟨_ | i, u⟩, hadd, hx⟩ := of_seq hx
  · cases hx
  cases hx
  exact .inr ⟨s.mem.zero recvq ((⟨rq⟩ : TceBdesc).lbdLen.setWidth 64), mem,
    (((⟨rq⟩ : TceBdesc).setAddr (fl.setWidth 32)).setLen (255 * 8)).lbdDword, pg, recvq,
    fpg, _, i, u, rfl, not_not.1 hlen, hinit, hadd, rfl⟩

theorem llanRegisterLocked_spec {bl fl : Uval} {ret : Sval}
    (hl : s.llan id = some l) (hx : llanRegisterLocked s id l bl rq fl mac = .ok (ret, t)) :
    s.Keeps t ∨ ∃ mem l' i u,
      l'.ident = ⟨mac, l.llRegistered, l.llMacIdx⟩ ∧ l'.llLock = l.llLock ∧
      llanMacAdd ({ s with mem := mem }.setDev id l') id mac = .ok (some i, u) ∧
      t = u.setDev id { l' with llMacIdx := i, llRegistered := true } := by
  rcases llanRegisterLocked_cases hx with ⟨-, mem, l', rfl, hident, hlock, -⟩ |
    ⟨-, mem, -, pg, recvq, fpg, l', i, u, rfl, -, -, hadd, ht⟩
  · exact .inl (.put hl hident hlock)
  · exact .inr ⟨mem, l.prepared pg recvq fpg rq mac, i, u, rfl, rfl, hadd, ht⟩

end

end Rhype
