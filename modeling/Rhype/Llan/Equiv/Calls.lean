import Rhype.Llan.Equiv.Frame

/-!
# What the calls do

One lemma for each call: either it returns before it takes the lock of the device, and nothing has
changed, or it goes on from the state in which the device is locked, and says whether it releases
the lock.
-/

namespace Rhype

open Function

/-! ### Devices -/

/-- The number of the device that a call names. -/
def lanNumber (uaddr : Uval) : Nat := xirrXisr (uaddr.setWidth 32)

theorem llanGet_eq_some {s : LlanSys} {uaddr : Uval} {id : Nat} {l : LlanDev}
    (hget : llanGet s uaddr = .ok (some (id, l))) : id = lanNumber uaddr ∧ s.llan id = some l := by
  unfold llanGet xirGetDevice at hget
  dsimp only at hget
  split_ifs at hget
  · simp only [Except.ok.injEq, Option.map_eq_some_iff, Prod.mk.injEq] at hget
    obtain ⟨l', hl, hid, rfl⟩ := hget
    rw [← hid]
    exact ⟨rfl, hl⟩
  · cases hget
  · cases hget

theorem llan_of_llanGet {s : LlanSys} {uaddr : Uval} {id : Nat} {l : LlanDev}
    (hget : llanGet s uaddr = .ok (some (id, l))) : s.llan id = some l := (llanGet_eq_some hget).2

theorem llanGet_congr {s t : LlanSys} {uaddr : Uval} {x : Nat × LlanDev} {l : LlanDev}
    (hget : llanGet s uaddr = .ok (some x)) (hl : t.llan (lanNumber uaddr) = some l) :
    llanGet t uaddr = .ok (some (lanNumber uaddr, l)) := by
  unfold llanGet xirGetDevice at hget ⊢
  dsimp only at hget ⊢
  split_ifs at hget with hclass hnumber
  · rw [if_pos hclass, if_pos hnumber]
    show Except.ok ((t.llan (lanNumber uaddr)).map _) = _
    rw [hl]
    rfl
  all_goals cases hget

/-! ### The calls -/

/-- The call finds the device, and the device is not locked. -/
structure LlanSys.Locks (s : LlanSys) (uaddr : Uval) (id : Nat) (l : LlanDev) : Prop where
  get : llanGet s uaddr = .ok (some (id, l))
  unlocked : l.llLock = false

section

variable {s t : LlanSys} {os : OsId} {uaddr : Uval} {ret : Sval} {recvs : List LlanRecv} {id : Nat}
  {l l' : LlanDev} {mac : BitVec 64} {bd : List TceBdesc} {token : Uval}

theorem of_llanCall {x : Hv (Sval × LlanSys)}
    (hx : (x >>= fun (ret, s) => .ok (ret, [], s)) = Except.ok (ret, recvs, t)) :
    x = .ok (ret, t) ∧ recvs = [] := by
  obtain ⟨⟨_, _⟩, hcall, hx⟩ := of_seq hx
  cases hx
  exact ⟨hcall, rfl⟩

theorem LlanSys.Locks.llan (hlocks : s.Locks uaddr id l) : s.llan id = some l :=
  llan_of_llanGet hlocks.get

theorem LlanSys.Locks.unique {id' : Nat} (hlocks : s.Locks uaddr id l)
    (hlocks' : s.Locks uaddr id' l') : id = id' ∧ l = l' := by
  simpa using hlocks.get.symm.trans hlocks'.get

theorem llanRegister_spec {bl fl : Uval} {rq : BitVec 64}
    (hx : llanRegister s os uaddr bl rq fl mac = .ok (ret, t)) :
    (t = s ∧ ∀ id l, s.Locks uaddr id l → ¬ (l.llOwner = some os ∧ l.llValid = true)) ∨
    ∃ id l, s.Locks uaddr id l ∧ l.llOwner = some os ∧ l.llValid = true ∧
      (l.llRegistered = true ∧ t = s.setDev id l.acquire ∨
        l.llRegistered = false ∧ ∃ u, t = u.release id ∧
          llanRegisterLocked (s.setDev id l.acquire) id l.acquire bl rq fl mac = .ok (ret, u)) := by
  obtain ⟨_ | ⟨id, l⟩, hget, hx⟩ := of_seq hx
  · cases hx
    refine .inl ⟨rfl, fun id l hlocks => ?_⟩
    cases hget.symm.trans hlocks.get
  dsimp only at hx
  split_ifs at hx with howner hvalid hlock hreg
  · cases hx
    refine .inl ⟨rfl, fun id' l' hlocks h => howner ?_⟩
    cases hget.symm.trans hlocks.get
    exact h.1
  · cases hx
    refine .inl ⟨rfl, fun id' l' hlocks h => ?_⟩
    cases hget.symm.trans hlocks.get
    simp [h.2] at hvalid
  · cases hx
    refine .inl ⟨rfl, fun id' l' hlocks _ => ?_⟩
    cases hget.symm.trans hlocks.get
    simp [hlocks.unlocked] at hlock
  all_goals
    have hlocks : s.Locks uaddr id l := ⟨hget, by simpa using hlock⟩
    have howner' : l.llOwner = some os := by simpa using howner
    have hvalid' : l.llValid = true := by simpa using hvalid
  · cases hx
    exact .inr ⟨id, l, hlocks, howner', hvalid', .inl ⟨hreg, rfl⟩⟩
  · obtain ⟨⟨ret', u⟩, hlocked, hx⟩ := of_seq hx
    cases hx
    exact .inr ⟨id, l, hlocks, howner', hvalid', .inr ⟨by simpa using hreg, u, rfl, hlocked⟩⟩

theorem llanFree_spec (hx : llanFree s os uaddr = .ok (ret, t)) :
    t = s ∨ ∃ id l u, s.Locks uaddr id l ∧ t = u.release id ∧ (u = s.setDev id l.acquire ∨
      l.llRegistered = true ∧ ∃ v, llanMacFree (s.setDev id l.acquire) l = .ok v ∧
        u = v.setDev id { l.acquire with llRegistered := false }) := by
  obtain ⟨_ | ⟨id, l⟩, hget, hx⟩ := of_seq hx
  · cases hx
    exact .inl rfl
  obtain ⟨-, -, hx⟩ := of_seq hx
  split_ifs at hx with hlock hreg
  · cases hx
    exact .inl rfl
  · obtain ⟨v, hfree, hx⟩ := of_seq hx
    cases hx
    exact .inr ⟨id, l, _, ⟨hget, by simpa using hlock⟩, rfl, .inr ⟨hreg, v, hfree, rfl⟩⟩
  · cases hx
    exact .inr ⟨id, l, _, ⟨hget, by simpa using hlock⟩, rfl, .inl rfl⟩

theorem llanChangeMac_spec (hx : llanChangeMac s os uaddr mac = .ok (ret, t)) :
    t = s ∨ ∃ id l u, s.Locks uaddr id l ∧ t = u.release id ∧ (u = s.setDev id l.acquire ∨
      l.llRegistered = true ∧ ∃ i v,
        llanMacChange (s.setDev id l.acquire) id l mac = .ok (some i, v) ∧
        u = v.setDev id { l.acquire with llMac := mac, llMacIdx := i }) := by
  obtain ⟨_ | ⟨id, l⟩, hget, hx⟩ := of_seq hx
  · cases hx
    exact .inl rfl
  obtain ⟨-, -, hx⟩ := of_seq hx
  split_ifs at hx with hlock hreg
  · cases hx
    exact .inl rfl
  · obtain ⟨⟨_ | i, v⟩, hchange, hx⟩ := of_seq hx
    · cases hx
    obtain ⟨j, hj, hx⟩ := of_seq hx
    cases hj
    obtain ⟨-, -, hx⟩ := of_seq hx
    cases hx
    exact .inr ⟨id, l, _, ⟨hget, by simpa using hlock⟩, rfl, .inr ⟨hreg, i, v, hchange, rfl⟩⟩
  · cases hx
    exact .inr ⟨id, l, _, ⟨hget, by simpa using hlock⟩, rfl, .inl rfl⟩

theorem llanMcastCtrl_spec {fl : BitVec 64} {state : Option (BitVec 64)}
    (hx : llanMcastCtrl s os uaddr fl = .ok (ret, state, t)) :
    t = s ∨ ∃ id l mem state count, s.Locks uaddr id l ∧ t = ({ s with mem := mem }.setDev id
      { l.acquire with llMcastState := state, llMcastCount := count }).release id := by
  obtain ⟨_ | ⟨id, l⟩, hget, hx⟩ := of_seq hx
  · cases hx
    exact .inl rfl
  obtain ⟨-, -, hx⟩ := of_seq hx
  dsimp only at hx
  split_ifs at hx with hlock
  · cases hx
    exact .inl rfl
  cases hx
  obtain ⟨state, count, heq⟩ := llanMcastCtrlLocked_eq s.mem l.acquire fl
  rw [heq]
  exact .inr ⟨id, l, _, state, count, ⟨hget, by simpa using hlock⟩, rfl⟩

/-- Only the address, the port and the filter of the device differ. -/
def LlanDev.Tended (l l' : LlanDev) : Prop :=
  l' = { l with llMac := l'.llMac, llMacIdx := l'.llMacIdx, llRegistered := l'.llRegistered,
                llMcastState := l'.llMcastState, llMcastCount := l'.llMcastCount }

def LlanSys.Tends (s t : LlanSys) : Prop :=
  ∀ k, t.llan k = s.llan k ∨ ∃ l l', s.llan k = some l ∧ t.llan k = some l' ∧ l.Tended l'

theorem LlanSys.Tends.comp {β : Type*} (ht : s.Tends t) (F : Option LlanDev → β)
    (hF : ∀ l l', l.Tended l' → F (some l') = F (some l)) : F ∘ t.llan = F ∘ s.llan := by
  funext k
  rcases ht k with hk | ⟨l, l', hl, hl', htended⟩
  · exact congrArg F hk
  · rw [comp_apply, comp_apply, hl', hl, hF l l' htended]

theorem LlanSys.Locks.tends (hlocks : s.Locks uaddr id l) (ht : ∀ k ≠ id, t.llan k = s.llan k)
    (hl' : l.acquire.Tended l') : s.Tends ((t.setDev id l').release id) := by
  intro k
  rcases eq_or_ne k id with rfl | hk
  · refine .inr ⟨l, { l' with llLock := false }, hlocks.llan, ?_, ?_⟩
    · exact (update_self ..).trans (congrArg _ (update_self ..))
    · rw [hl', LlanDev.Tended, ← hlocks.unlocked]
      rfl
  · exact .inl ((update_of_ne hk ..).trans ((update_of_ne hk ..).trans (ht k hk)))

theorem llanCall_tends {c : LlanCall} (hx : llanCall s c = .ok (ret, recvs, t)) :
    match c with
    | .free .. | .mcastCtrl .. | .changeMac .. => s.Tends t ∧ recvs = []
    | _ => True := by
  have hkeep : ∀ {id l} {u : LlanSys}, u.llan = (s.setDev id l).llan →
      ∀ k ≠ id, u.llan k = s.llan k := by
    intro id l u hu k hk
    rw [hu]
    exact update_of_ne hk ..
  cases c with
  | free os uaddr =>
    obtain ⟨hcall, rfl⟩ := of_llanCall hx
    refine ⟨?_, rfl⟩
    rcases llanFree_spec hcall with rfl | ⟨id, l, u, hlocks, rfl, rfl | ⟨-, v, hfree, rfl⟩⟩
    · exact fun _ => .inl rfl
    · exact hlocks.tends (fun _ _ => rfl) rfl
    · exact hlocks.tends (hkeep (llan_llanMacFree hfree)) rfl
  | mcastCtrl os uaddr fl =>
    obtain ⟨x, hcall, hx⟩ := of_seq hx
    cases hx
    refine ⟨?_, rfl⟩
    rcases llanMcastCtrl_spec hcall with hsame | ⟨id, l, mem, state, count, hlocks, heq⟩
    · rw [hsame]
      exact fun _ => .inl rfl
    · rw [heq]
      exact hlocks.tends (fun _ _ => rfl) rfl
  | changeMac os uaddr mac =>
    obtain ⟨hcall, rfl⟩ := of_llanCall hx
    refine ⟨?_, rfl⟩
    rcases llanChangeMac_spec hcall with
      rfl | ⟨id, l, u, hlocks, rfl, rfl | ⟨-, i, v, hchange, rfl⟩⟩
    · exact fun _ => .inl rfl
    · exact hlocks.tends (fun _ _ => rfl) rfl
    · exact hlocks.tends (hkeep (llan_llanMacChange hchange)) rfl
  | _ => trivial

/-- `llan_add_buf` gets as far as the pool, and `d` is what it has read from the page. -/
structure AddReads (s : LlanSys) (os : OsId) (uaddr : Uval) (bd d : TceBdesc) (id : Nat)
    (l : LlanDev) : Prop where
  len : 1024 ≤ bd.lbdLen
  locks : s.Locks uaddr id l
  owner : l.llOwner = some os
  ctrl : bd.lbdCtrlV = true
  xlate : ∃ r, tceBdXlate l.llTceData bd = .ok r ∧ r ≠ 0
  bdesc : ∃ pool, llanBdesc l (bd.lbdLen.setWidth 64) = .ok (some pool) ∧ d = ⟨s.mem.dword pool⟩
  valid : d.lbdCtrlV = true
  sameLen : d.lbdLen = bd.lbdLen

theorem llanPool_eq_ok {a : BitVec 32} {p : Fin llanBlPools} :
    llanPool a = .ok p ↔ a.toNat = p := by
  unfold llanPool
  split_ifs with h
  · rw [Except.ok.injEq, Fin.ext_iff]
  · refine iff_of_false nofun fun heq => h ?_
    rw [heq]
    exact p.isLt

theorem llanAddBuf_spec {bd : TceBdesc} (hx : llanAddBuf s os uaddr bd = .ok (ret, t)) :
    (t = s ∧ ∀ id l, ¬ s.Locks uaddr id l) ∨ ∃ id l r, s.Locks uaddr id l ∧
      tceBdXlate l.llTceData bd = .ok r ∧ (r = 0 ∧ t = s.setDev id l.acquire ∨
        r ≠ 0 ∧ ∃ u, t = u.release id ∧ (s.setDev id l.acquire).Keeps u ∧
          (u = s.setDev id l.acquire ∨ ∃ d p b, AddReads s os uaddr bd d id l ∧
            d.lbdAddr.toNat = (p : Fin llanBlPools).val ∧
            u = (s.setDev id l.acquire).setDev id (l.acquire.setPool p b bd))) := by
  obtain ⟨_, hlen, hx⟩ := of_seq hx
  obtain ⟨_ | ⟨id, l⟩, hget, hx⟩ := of_seq hx
  · cases hx
    refine .inl ⟨rfl, fun id l hlocks => ?_⟩
    cases hget.symm.trans hlocks.get
  obtain ⟨_, howner, hx⟩ := of_seq hx
  split_ifs at hx with hlock
  · cases hx
    refine .inl ⟨rfl, fun id' l' hlocks => ?_⟩
    cases hget.symm.trans hlocks.get
    simp [hlocks.unlocked] at hlock
  obtain ⟨_, hctrl, hx⟩ := of_seq hx
  obtain ⟨r, hxlate, hx⟩ := of_seq hx
  have hlocks : s.Locks uaddr id l := ⟨hget, by simpa using hlock⟩
  refine .inr ⟨id, l, r, hlocks, hxlate, ?_⟩
  split_ifs at hx with hnull
  · cases hx
    exact .inl ⟨hnull, rfl⟩
  obtain ⟨_ | pool, hbdesc, hx⟩ := of_seq hx
  · cases hx
  obtain ⟨_, hpool, hx⟩ := of_seq hx
  cases hpool
  obtain ⟨_, hvalid, hx⟩ := of_seq hx
  obtain ⟨_, hsame, hx⟩ := of_seq hx
  obtain ⟨p, hp, hx⟩ := of_seq hx
  rw [hassert_ok] at hvalid hsame
  refine .inr ⟨hnull, ?_⟩
  split at hx
  · cases hx
    exact ⟨_, rfl, .put (update_self ..) rfl rfl, .inr ⟨_, p, _, ⟨by simpa using hlen, hlocks,
      by simpa using howner, by simpa using hctrl, ⟨r, hxlate, hnull⟩, ⟨pool, hbdesc, rfl⟩,
      hvalid, of_decide_eq_true hsame⟩, llanPool_eq_ok.1 hp, rfl⟩⟩
  · cases hx
    exact ⟨_, rfl, .refl _, .inl rfl⟩

theorem llanSendLocked_spec (hx : llanSendLocked s id l bd token = .ok (ret, recvs, t)) :
    t = s ∧ recvs = [] ∨ ∃ f, llanFrame s.mem l bd = .ok (some f) ∧
      Receives (llanMacCacheAdd s id l f.src) recvs t := by
  obtain ⟨-, -, hx⟩ := of_seq hx
  obtain ⟨_ | f, hframe, hx⟩ := of_seq hx
  · cases hx
    exact .inl ⟨rfl, rfl⟩
  refine .inr ⟨f, hframe, ?_⟩
  dsimp only at hx
  split_ifs at hx
  · obtain ⟨_ | ⟨d, _⟩, -, hx⟩ := of_seq hx
    · exact llanBroadcast_receives hx
    · exact Receives.nil.put hx
  · exact llanBroadcast_receives hx

theorem llanSend_spec (hx : llanSend s os uaddr bd token = .ok (ret, recvs, t)) :
    t = s ∧ recvs = [] ∨ ∃ id l u, s.Locks uaddr id l ∧ l.llOwner = some os ∧ t = u.release id ∧
      llanSendLocked (s.setDev id l.acquire) id l bd token = .ok (ret, recvs, u) := by
  obtain ⟨_ | ⟨id, l⟩, hget, hx⟩ := of_seq hx
  · cases hx
    exact .inl ⟨rfl, rfl⟩
  obtain ⟨_, howner, hx⟩ := of_seq hx
  split_ifs at hx with hlock
  · cases hx
    exact .inl ⟨rfl, rfl⟩
  · obtain ⟨⟨ret', recvs', u⟩, hsend, hx⟩ := of_seq hx
    cases hx
    exact .inr ⟨id, l, u, ⟨hget, by simpa using hlock⟩, by simpa using howner, rfl, hsend⟩

theorem llanFreebuf_receives {size : Uval}
    (hx : llanFreebuf s os uaddr size = .ok (ret, recvs, t)) : Receives s recvs t := by
  obtain ⟨_ | ⟨id, l⟩, -, hx⟩ := of_seq hx
  · cases hx
    exact .nil
  obtain ⟨-, -, hx⟩ := of_seq hx
  exact Receives.nil.put hx

end

end Rhype
