import Rhype.Crq.Equiv.Copy
import Rhype.Crq.Step
import Rhype.Slots.Basic

/-!
# The buffer of a registered end

After its registration an end has a number of slots, an index and the address of the buffer.  A call
either leaves them alone or writes one entry at the index (`RingMove`), as long as the end does not
register again.  So the entries go to the slots in turn (`ring_of_run`).

The number of slots has 16 bits, the length of the descriptor 24, and nothing looks at the result of
the translation: a buffer has to translate as a whole and to have at most `2^20` bytes.
-/

namespace Rhype

open CrqPair List

/-! ### The ends of a pair -/

section

variable (p : CrqPair) (e : Bool) (cp : CrqEnd)

@[simp]
theorem CrqPair.ends_setEnd_self : (p.setEnd e cp).ends e = cp := Function.update_self ..

@[simp]
theorem CrqPair.ends_setEnd_not : (p.setEnd e cp).ends (!e) = p.ends (!e) :=
  Function.update_of_ne (Bool.not_ne_self e) ..

@[simp]
theorem CrqPair.ends_setEnd_of_not : (p.setEnd (!e) cp).ends e = p.ends e :=
  Function.update_of_ne (Bool.not_ne_self e).symm ..

theorem CrqPair.setEnd_keeps {α : Type} {p : CrqPair} {d : Bool} {cp : CrqEnd} (f : CrqEnd → α)
    (hf : f cp = f (p.ends d)) (e : Bool) : f ((p.setEnd d cp).ends e) = f (p.ends e) := by
  rcases Bool.eq_or_eq_not e d with rfl | rfl
  · rw [ends_setEnd_self, hf]
  · rw [ends_setEnd_not]

theorem writesTo_append (ws ws' : List CrqWrite) :
    writesTo e (ws ++ ws') = writesTo e ws ++ writesTo e ws' := filter_append ..

end

/-! ### What a call does to a ring -/

/-- The two values of an end have the same buffer, slots and index. -/
structure SameRing (cp cp' : CrqEnd) : Prop where
  crqs : cp'.cpCrqs = cp.cpCrqs
  num : cp'.cpNumEntries = cp.cpNumEntries
  next : cp'.cpNextEntry = cp.cpNextEntry

/-- What a call does to the ring of end `e`: nothing, or one entry is written at the index. -/
inductive RingMove (e : Bool) (cp cp' : CrqEnd) (ws : List CrqWrite) : Prop
  | keep (same : SameRing cp cp') (hws : writesTo e ws = [])
  | put (msg : CrqEntry) (crqs : cp'.cpCrqs = cp.cpCrqs)
      (num : cp'.cpNumEntries = cp.cpNumEntries)
      (next : cp'.cpNextEntry =
        if cp.cpNextEntry + 1 = cp.cpNumEntries then 0 else cp.cpNextEntry + 1)
      (hws : writesTo e ws = [⟨e, cp.cpCrqs + 16 * cp.cpNextEntry.setWidth 64, msg⟩])

/-- The calls that set the end up anew: a registration that passes the checks of its arguments, by
the owner of the end, while it is not used. -/
structure SetsUp (p : CrqPair) (os : OsId) (uaddr queue len : Uval) (e : Bool) : Prop where
  size : crqMinBufferSize ≤ len
  multiple : len &&& (crqMinBufferSize - 1) = 0
  aligned : queue = alignDown queue len
  device : crqGetCrq p uaddr = some e
  owner : some os = (p.ends e).cpOs
  unused : crqCheckUnused (p.ends e) = true

section

variable {p p' : CrqPair} {e : Bool} {cp cp' cp'' : CrqEnd} {ws : List CrqWrite} {os : OsId}
  {uaddr queue len : Uval} {msg : CrqEntry} {ret : Sval}

theorem SameRing.rfl : SameRing cp cp := ⟨.refl _, .refl _, .refl _⟩

theorem SameRing.trans (hs : SameRing cp cp') (hs' : SameRing cp' cp'') : SameRing cp cp'' :=
  ⟨hs'.crqs.trans hs.crqs, hs'.num.trans hs.num, hs'.next.trans hs.next⟩

theorem SameRing.setEnd {d : Bool} (hs : SameRing (p.ends d) cp) (e : Bool) :
    SameRing (p.ends e) ((p.setEnd d cp).ends e) where
  crqs := setEnd_keeps (·.cpCrqs) hs.crqs e
  num := setEnd_keeps (·.cpNumEntries) hs.num e
  next := setEnd_keeps (·.cpNextEntry) hs.next e

theorem RingMove.same (hm : RingMove e cp cp' ws) (hs : SameRing cp' cp'') :
    RingMove e cp cp'' ws := by
  cases hm with
  | keep same hws => exact .keep (same.trans hs) hws
  | put msg crqs num next hws =>
    exact .put msg (hs.crqs.trans crqs) (hs.num.trans num) (hs.next.trans next) hws

theorem putEntryRaw_move (p : CrqPair) (dst : Bool) (msg : CrqEntry) (e : Bool) :
    RingMove e (p.ends e) ((crqPutEntryRawLocked p dst msg).2.2.ends e)
      (crqPutEntryRawLocked p dst msg).2.1 := by
  unfold crqPutEntryRawLocked
  by_cases hhas : crqHaspartner (p.ends dst) = true
  swap
  · rw [if_neg hhas]
    exact .keep .rfl rfl
  rw [if_pos hhas]
  rcases Bool.eq_or_eq_not dst e with rfl | rfl
  · refine .put msg ?_ ?_ ?_ ?_
    · rw [ends_setEnd_self]
    · rw [ends_setEnd_self]
    · rw [ends_setEnd_self]
    · simp [writesTo]
  refine .keep ?_ ?_
  · rw [ends_setEnd_of_not]
    exact .rfl
  · simp [writesTo]

theorem putEntry_move (p : CrqPair) (dst : Bool) (msg : CrqEntry) (e : Bool) :
    RingMove e (p.ends e) ((crqPutEntryLocked p dst msg).2.2.ends e)
      (crqPutEntryLocked p dst msg).2.1 := by
  unfold crqPutEntryLocked
  split_ifs
  · exact putEntryRaw_move p dst msg e
  · exact .keep .rfl rfl

theorem send_move (p : CrqPair) (os : OsId) (uaddr : Uval) (msg : CrqEntry) (e : Bool) :
    RingMove e (p.ends e) ((crqSend p os uaddr msg).2.2.ends e)
      (crqSend p os uaddr msg).2.1 := by
  unfold crqSend
  split
  · exact .keep .rfl rfl
  split_ifs
  · exact .keep .rfl rfl
  · exact putEntry_move _ _ _ _
  · exact .keep .rfl rfl

theorem release_move (p : CrqPair) (d e : Bool) :
    RingMove e (p.ends e) ((crqReleaseLocked p d).2.2.ends e) (crqReleaseLocked p d).2.1 := by
  have hput := putEntryRaw_move p (!d) closeMsg e
  -- only flags change behind the entry
  refine hput.same (.trans (.setEnd ?_ e) (.setEnd ?_ e))
  all_goals exact ⟨rfl, rfl, rfl⟩

theorem free_move (p : CrqPair) (os : OsId) (uaddr : Uval) (e : Bool) :
    RingMove e (p.ends e) ((crqFreeCrq p os uaddr).2.2.ends e) (crqFreeCrq p os uaddr).2.1 := by
  unfold crqFreeCrq
  split
  · exact .keep .rfl rfl
  · split_ifs
    · exact .keep .rfl rfl
    · exact release_move _ _ _

theorem accepted_ite (b : Bool) : Accepted (if b then hClosed else hSuccess) := by
  cases b <;> decide

theorem crqReg_cases (p : CrqPair) (os : OsId) (uaddr queue len : Uval) :
    (∃ e, SetsUp p os uaddr queue len e ∧ crqReg p os uaddr queue len =
      crqSetupOsdata p e queue len >>= fun p =>
        .ok (if crqCheckUnused (p.ends (!e)) then hClosed else hSuccess, p)) ∨
    ((∀ e, ¬ SetsUp p os uaddr queue len e) ∧ ∃ ret, ¬ Accepted ret ∧
      crqReg p os uaddr queue len = .ok (ret, p)) := by
  have hparam : ¬ Accepted hParameter := by decide
  unfold crqReg
  by_cases hargs : len < crqMinBufferSize ∨ len &&& (crqMinBufferSize - 1) ≠ 0 ∨
      queue ≠ alignDown queue len
  · rw [if_pos hargs]
    refine .inr ⟨fun e hs => ?_, _, hparam, rfl⟩
    rcases hargs with hsize | hmult | hal
    · exact absurd hs.size (BitVec.not_le.2 hsize)
    · exact hmult hs.multiple
    · exact hal hs.aligned
  rw [if_neg hargs]
  rw [not_or, not_or, BitVec.not_lt, not_not, not_not] at hargs
  rcases hdev : crqGetCrq p uaddr with _ | e
  · refine .inr ⟨fun e hs => ?_, _, hparam, rfl⟩
    rw [hs.device] at hdev
    cases hdev
  have hunique : ∀ e', SetsUp p os uaddr queue len e' → e' = e := fun e' hs =>
    Option.some.inj (hs.device.symm.trans hdev)
  dsimp only
  split_ifs with hown hunused
  · refine .inr ⟨fun e' hs => ?_, _, hparam, rfl⟩
    obtain rfl := hunique e' hs
    exact hown hs.owner
  · rw [not_not] at hown
    exact .inl ⟨e, ⟨hargs.1, hargs.2.1, hargs.2.2, hdev, hown, hunused⟩, rfl⟩
  · refine .inr ⟨fun e' hs => ?_, _, show ¬ Accepted hResource by decide, rfl⟩
    obtain rfl := hunique e' hs
    exact hunused hs.unused

theorem crqSetupOsdata_ok (hx : crqSetupOsdata p e queue len = .ok p') :
    ∃ r, crqAddrLookup (p.ends e) queue len = .ok r ∧
      p'.ends e = { p.ends e with
        cpFlags := crqFlagUsed ||| crqFlagHasPartner
        cpNumEntries := (len / 16).setWidth 16
        cpNextEntry := 0
        cpCrqs := r } ∧
      p'.ends (!e) = { p.ends (!e) with
        cpFlags := (p.ends (!e)).cpFlags ||| crqFlagHasPartner } ∧
      p'.devId = p.devId := by
  obtain ⟨r, hr, heq⟩ := of_seq hx
  cases heq
  refine ⟨r, hr, ?_, ?_, rfl⟩
  · rw [ends_setEnd_self]
  · rw [ends_setEnd_not, ends_setEnd_self]

theorem reg_move (hno : ¬ SetsUp p os uaddr queue len e)
    (hx : crqReg p os uaddr queue len = .ok (ret, p')) : RingMove e (p.ends e) (p'.ends e) [] := by
  refine .keep ?_ rfl
  rcases crqReg_cases p os uaddr queue len with ⟨d, hs, heq⟩ | ⟨-, ret', -, heq⟩
  · rw [heq] at hx
    obtain ⟨p1, hp1, hret⟩ := of_seq hx
    cases hret
    obtain ⟨r, -, -, hother, -⟩ := crqSetupOsdata_ok hp1
    have hne : e ≠ d := by
      rintro rfl
      exact hno hs
    obtain rfl : d = !e := Bool.eq_not.2 hne.symm
    rw [Bool.not_not] at hother
    rw [hother]
    exact ⟨rfl, rfl, rfl⟩
  · rw [heq] at hx
    cases hx
    exact .rfl

/-- The call sets end `e` up. -/
def CrqCall.SetsUp (p : CrqPair) (e : Bool) : CrqCall → Prop
  | .reg os uaddr queue len => Rhype.SetsUp p os uaddr queue len e
  | _ => False

/-- **What a call does to the ring of an end** that it does not set up. -/
theorem crqCall_move {c : CrqCall} (hno : ¬ c.SetsUp p e)
    (hx : crqCall p c = .ok (ret, ws, p')) : RingMove e (p.ends e) (p'.ends e) ws := by
  cases c with
  | reg os uaddr queue len =>
    obtain ⟨⟨ret', p1⟩, hp1, heq⟩ := of_seq hx
    cases heq
    exact reg_move hno hp1
  | send os uaddr msg =>
    have hmove := send_move p os uaddr msg e
    rwa [Except.ok.inj hx] at hmove
  | free os uaddr =>
    have hmove := free_move p os uaddr e
    rwa [Except.ok.inj hx] at hmove
  | tce d tce =>
    cases hx
    refine .keep (.setEnd ?_ e) rfl
    exact ⟨rfl, rfl, rfl⟩

end

/-! ### The entries of a run -/

/-- Slot `i mod n` of the buffer at `r`. -/
def crqSlotAddr (r : Uval) (n i : Nat) : Uval := r + 16 * BitVec.ofNat 64 (i % n)

/-- The ring of an end with a buffer of `n` slots at `r`: the index counts the entries that were
written, and they went to the slots in turn. -/
structure RingInv (e : Bool) (r : Uval) (n : Nat) (s : CrqWorld) : Prop where
  crqs : (s.pair.ends e).cpCrqs = r
  num : (s.pair.ends e).cpNumEntries = BitVec.ofNat 16 n
  next : (s.pair.ends e).cpNextEntry.toNat = (writesTo e s.written).length % n
  slots : ∀ i w, (writesTo e s.written)[i]? = some w → w.addr = crqSlotAddr r n i

section

variable {s s' : CrqWorld} {c : CrqCall} {calls : List CrqCall} {e : Bool} {r : Uval} {n : Nat}

theorem RingInv.step (hn : 0 < n) (hmax : n ≤ 2 ^ 16) (hi : RingInv e r n s)
    (hno : ¬ c.SetsUp s.pair e) (hx : crqStep s c = .ok s') : RingInv e r n s' := by
  obtain ⟨⟨ret, ws, p⟩, hcall, heq⟩ := of_seq hx
  cases heq
  have happend := writesTo_append e s.written ws
  cases crqCall_move hno hcall with
  | keep same hws =>
    rw [hws, append_nil] at happend
    refine ⟨same.crqs.trans hi.crqs, same.num.trans hi.num, ?_, ?_⟩
    · rw [same.next, happend]
      exact hi.next
    · rw [happend]
      exact hi.slots
  | put msg crqs num next hws =>
    have hlt : (s.pair.ends e).cpNextEntry.toNat < n := by
      rw [hi.next]
      exact Nat.mod_lt _ hn
    rw [hws] at happend
    refine ⟨crqs.trans hi.crqs, num.trans hi.num, ?_, ?_⟩
    · rw [next, hi.num, Slots.toNat_next hmax hlt, hi.next, happend, length_append,
        length_singleton, Nat.mod_add_mod]
    · rw [happend]
      intro i w hw
      rcases Nat.lt_or_ge i (writesTo e s.written).length with hold | hnew
      · rw [getElem?_append_left hold] at hw
        exact hi.slots i w hw
      -- the new entry is at the index
      rw [getElem?_append_right hnew, getElem?_singleton] at hw
      split_ifs at hw with hlast
      cases hw
      have hlen : i = (writesTo e s.written).length := by omega
      have hidx : (s.pair.ends e).cpNextEntry.setWidth 64 = .ofNat 64 (i % n) := by
        rw [hlen, ← hi.next, BitVec.ofNat_toNat]
      rw [crqSlotAddr, hi.crqs, hidx]

/-- In every run in which the end is not set up again the entries go to the slots in turn. -/
theorem ring_of_run (hn : 0 < n) (hmax : n ≤ 2 ^ 16) (hi : RingInv e r n s)
    (hrun : Run crqStep (fun s c => ¬ c.SetsUp s.pair e) s calls s') : RingInv e r n s' :=
  Run.invariant (fun _ _ _ hi hno hx => hi.step hn hmax hno hx) hrun hi

end

/-! ### Registrations -/

/-- The buffer translates as a whole to the real addresses from `r` on. -/
def Translates (td : TceData) (queue len r : Uval) : Prop :=
  tceBdXlate td (crqBdesc queue len) = .ok r ∧ r ≠ 0 ∧
    ∀ o < len.toNat, td.MapsTo (queue.toNat + o) (r + BitVec.ofNat 64 o)

/-- The entry that is written as number `i` is in slot `i mod (len / 16)`, inside the buffer. -/
def EntryInside (r : Uval) (len i : Nat) (w : CrqWrite) : Prop :=
  w.addr = crqSlotAddr r (len / 16) i ∧ 16 * (i % (len / 16)) + 16 ≤ len

/-- A registration that is accepted is that of a buffer that translates, and all the entries of
later calls are written into the buffer, slot by slot.  Otherwise both ends are as before. -/
def RegisterSafe (p : CrqPair) (os : OsId) (uaddr queue len : Uval) : Prop :=
  ∃ ret p', crqReg p os uaddr queue len = .ok (ret, p') ∧
    (Accepted ret → ∃ e r, crqGetCrq p uaddr = some e ∧
      Translates (p.ends e).cpTceData queue len r ∧
      ∀ registered calls s,
        Run crqStep (fun s c => ¬ c.SetsUp s.pair e) ⟨p', [], registered⟩ calls s →
        ∀ i w, (writesTo e s.written)[i]? = some w → EntryInside r len.toNat i w) ∧
    (¬ Accepted ret → p' = p)

/-- The buffer is inside the I/O addresses that a descriptor can name and not longer than the number
of slots allows, its pages pass the loop of `tce_bd_xlate`, the first byte is not at address 0, and
the entries grant access to real pages that follow each other. -/
structure GoodBuffer (td : TceData) (queue len : Uval) : Prop where
  low : queue.toNat < 2 ^ 32
  short : len.toNat ≤ 2 ^ 20
  passes : td.Passes (crqBdesc queue len)
  first : ∃ t, td.entry (crqBdesc queue len).page = some t ∧ t.realAddr (crqBdesc queue len) ≠ 0
  consecutive : td.Consecutive (crqBdesc queue len)

section

variable {p p' : CrqPair} {os : OsId} {uaddr queue len : Uval} {e : Bool} {td : TceData}

theorem GoodBuffer.translates (hg : GoodBuffer td queue len) : ∃ r, Translates td queue len r := by
  obtain ⟨t, ht, hr⟩ := hg.first
  have hstart : (crqBdesc queue len).start = queue.toNat := by
    rw [start_crqBdesc, Nat.mod_eq_of_lt hg.low]
  have hsize : (crqBdesc queue len).size = len.toNat := by
    have hshort := hg.short
    rw [size_crqBdesc, Nat.mod_eq_of_lt (by omega)]
  have hx := (tceBdXlate_eq_ok_iff hr).2 ⟨hg.passes, t, ht, rfl⟩
  refine ⟨_, hx, hr, ?_⟩
  have hbytes := mapsBytes_of_consecutive (fun _ _ => hg.consecutive) _ hx hr
  rwa [hsize, hstart] at hbytes

theorem RingInv.start {r : Uval} (registered : Bool → Bool)
    (hr : crqAddrLookup (p.ends e) queue len = .ok r) (hx : crqSetupOsdata p e queue len = .ok p') :
    RingInv e r (len.toNat / 16) ⟨p', [], registered⟩ := by
  obtain ⟨r', hr', hend, -, -⟩ := crqSetupOsdata_ok hx
  rw [hr] at hr'
  cases hr'
  have hnum : (len / 16).setWidth 16 = .ofNat 16 (len.toNat / 16) := by
    apply BitVec.eq_of_toNat_eq
    rw [BitVec.toNat_setWidth, BitVec.toNat_udiv, BitVec.toNat_ofNat]
    rfl
  constructor
  · rw [hend]
  · rwa [hend]
  · rw [hend]
    rfl
  · rintro i w ⟨⟩

/-- **A registration is safe**, for all later calls, when a buffer with which the end is set up is a
good one. -/
theorem register_safe (hgood : ∀ e, SetsUp p os uaddr queue len e →
      GoodBuffer (p.ends e).cpTceData queue len) : RegisterSafe p os uaddr queue len := by
  rcases crqReg_cases p os uaddr queue len with ⟨e, hs, heq⟩ | ⟨-, ret, hret, heq⟩
  swap
  · exact ⟨ret, p, heq, fun hacc => absurd hacc hret, fun _ => rfl⟩
  have hg := hgood e hs
  obtain ⟨r, htrans⟩ := hg.translates
  have hlookup : crqAddrLookup (p.ends e) queue len = .ok r := htrans.1
  obtain ⟨p', hp'⟩ : ∃ p', crqSetupOsdata p e queue len = .ok p' := by
    unfold crqSetupOsdata
    have hsame : ∀ cp : CrqEnd, cp.cpTceData = (p.ends e).cpTceData →
        crqAddrLookup cp queue len = .ok r := by
      intro cp htd
      rw [crqAddrLookup, htd]
      exact htrans.1
    dsimp only
    rw [hsame]
    · exact ⟨_, rfl⟩
    · rfl
  have hacc := accepted_ite (crqCheckUnused (p'.ends (!e)))
  refine ⟨_, p', ?_, fun _ => ⟨e, r, hs.device, htrans, ?_⟩, fun hno => absurd hacc hno⟩
  · rw [heq, hp', ok_bind]
  · intro registered calls s hrun i w hw
    have hsize : 4096 ≤ len.toNat := hs.size
    have hshort := hg.short
    have hring := ring_of_run (by omega) (by omega) (.start registered hlookup hp') hrun
    have hslot : i % (len.toNat / 16) < len.toNat / 16 := Nat.mod_lt _ (by omega)
    exact ⟨hring.slots i w hw, by omega⟩

/-- A page of entries at I/O address 0. -/
theorem register_safe_onePage : RegisterSafe onePagePair 0 0x300000 0 0x1000 := by
  apply register_safe
  intro e hs
  obtain rfl : e = false := Option.some.inj (hs.device.symm.trans rfl)
  have htouch : ∀ q, (crqBdesc 0 0x1000).page ≤ q → q < (crqBdesc 0 0x1000).endPage → q = 0 := by
    intro q _ hq
    have hend : (crqBdesc 0 0x1000).endPage = 1 := by decide +kernel
    omega
  refine ⟨by decide, by decide, ?_, ⟨⟨0x1003⟩, by decide +kernel, by decide +kernel⟩, ?_⟩
  · intro q hlo hq
    rw [htouch q hlo hq]
    exact ⟨⟨0x1003⟩, by decide +kernel, by decide⟩
  · intro t0 ht0 q t hq ht
    obtain ⟨-, hlo, hq⟩ := TceBdesc.touches_iff.1 hq
    obtain rfl := htouch q hlo hq
    cases ht
    cases ht0
    exact ⟨by decide, by decide +kernel⟩

/-- An end of partition 0 with one page that can only be read. -/
def readOnlyPair : CrqPair :=
  { onePagePair with ends := fun _ => freshEnd 0 1 fun _ => ⟨0x1001⟩ }

/-- A buffer that does not translate is registered all the same. -/
theorem register_not_safe : ¬ ∀ p os uaddr queue len, RegisterSafe p os uaddr queue len := by
  intro hall
  obtain ⟨ret, p', hx, hacc, -⟩ := hall readOnlyPair 0 0x300000 0 0x1000
  have hret : ret = hClosed := by
    have hcode : (crqReg readOnlyPair 0 0x300000 0 0x1000).map Prod.fst = .ok hClosed := by rfl
    rw [hx] at hcode
    exact Except.ok.inj hcode
  obtain ⟨e, r, hdev, ⟨hxlate, hr, -⟩, -⟩ := hacc (hret ▸ .inr rfl)
  exact hr (Except.ok.inj hxlate).symm

end

end Rhype
