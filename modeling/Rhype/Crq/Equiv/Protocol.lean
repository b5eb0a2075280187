import Rhype.Crq.Equiv.Ring

/-!
# The protocol of a pair

Each end has two flags: that it is used, and that it has a partner.  A registration sets both flags
of the end, and the second one of the other end; freeing an end clears its first flag and the second
one of the other end (`LinkInv`).

The second flag is also set when only one end is registered, so the other end can send without being
registered itself.  `crq_protocol` says that the protocol holds in all runs without such sends.
-/

namespace Rhype

open BitVec CrqEnd CrqWorld Function Prod

/-! ### Flags -/

/-- `CRQ_FLAG_USED` is set. -/
def CrqEnd.used (cp : CrqEnd) : Bool := cp.cpFlags.getLsbD 0

/-- `CRQ_FLAG_HAS_PARTNER` is set. -/
def CrqEnd.partnered (cp : CrqEnd) : Bool := cp.cpFlags.getLsbD 1

section

variable (cp : CrqEnd)

theorem crqHaspartner_eq : crqHaspartner cp = (cp.used && cp.partnered) := by
  have hmask : crqFlagUsed ||| crqFlagHasPartner = 3#16 := rfl
  rw [crqHaspartner, crqFlagsTest, hmask, Bool.eq_iff_iff, beq_iff_eq, Bool.and_eq_true]
  constructor
  · intro h
    have hbit : ∀ i, (3#16).getLsbD i = true → cp.cpFlags.getLsbD i = true := by
      intro i hi
      rw [h, getLsbD_and, Bool.and_eq_true] at hi
      exact hi.1
    exact ⟨hbit 0 rfl, hbit 1 rfl⟩
  · rintro ⟨h0, h1⟩
    refine eq_of_getLsbD_eq fun i hi => ?_
    rw [getLsbD_and]
    match i with
    | 0 => rw [show cp.cpFlags.getLsbD 0 = true from h0, Bool.true_and]
    | 1 => rw [show cp.cpFlags.getLsbD 1 = true from h1, Bool.true_and]
    | i + 2 =>
      have hzero : (3#16).getLsbD (i + 2) = false := by
        have hlt : 3 < 2 ^ (i + 2) := lt_of_lt_of_le (by norm_num) (Nat.pow_le_pow_right
          (by norm_num) (Nat.le_add_left 2 i))
        rw [getLsbD_ofNat, Nat.testBit_lt_two_pow hlt, Bool.and_false]
      rw [hzero, Bool.and_false]

end

/-! ### What a call does to the flags -/

def CrqEnd.link (cp : CrqEnd) : Bool × Bool := (cp.used, cp.partnered)

/-- What a step does to the flags, and to what the observer knows. -/
inductive LinkMove (s s' : CrqWorld) (c : CrqCall) : Prop
  | keep (hreg : s'.registered = s.registered)
      (hsame : ∀ e, (s'.pair.ends e).link = (s.pair.ends e).link)
  | register (e : Bool) (hset : c.SetsUp s.pair e)
      (hreg : s'.registered = update s.registered e true)
      (hend : (s'.pair.ends e).link = (true, true))
      (hother : (s'.pair.ends (!e)).link = ((s.pair.ends (!e)).used, true))
  | free (e : Bool) (hreg : s'.registered = update s.registered e false)
      (hend : (s'.pair.ends e).used = false)
      (hother : (s'.pair.ends (!e)).link = ((s.pair.ends (!e)).used, false))

section

variable {p p' : CrqPair} {e : Bool} {os : OsId} {uaddr : Uval} {msg : CrqEntry}

theorem putEntryRaw_flags (p : CrqPair) (dst : Bool) (msg : CrqEntry) (e : Bool) :
    ((crqPutEntryRawLocked p dst msg).2.2.ends e).cpFlags = (p.ends e).cpFlags := by
  unfold crqPutEntryRawLocked
  by_cases hhas : crqHaspartner (p.ends dst) = true
  · rw [if_pos hhas]
    refine CrqPair.setEnd_keeps (·.cpFlags) ?_ e
    rfl
  · rw [if_neg hhas]

theorem send_flags (p : CrqPair) (os : OsId) (uaddr : Uval) (msg : CrqEntry) (e : Bool) :
    ((crqSend p os uaddr msg).2.2.ends e).cpFlags = (p.ends e).cpFlags := by
  unfold crqSend
  split
  · rfl
  split_ifs
  · rfl
  · unfold crqPutEntryLocked
    split_ifs
    · exact putEntryRaw_flags _ _ _ _
    · rfl
  · rfl

theorem link_congr {cp cp' : CrqEnd} (hflags : cp'.cpFlags = cp.cpFlags) : cp'.link = cp.link := by
  unfold link used partnered
  rw [hflags]

theorem release_flags (p : CrqPair) (e : Bool) :
    (((crqReleaseLocked p e).2.2.ends e).used = false) ∧
    ((crqReleaseLocked p e).2.2.ends (!e)).link = ((p.ends (!e)).used, false) := by
  unfold crqReleaseLocked
  constructor
  · rw [used]
    simp [crqFlagUsed]
  · rw [CrqPair.ends_setEnd_not, CrqPair.ends_setEnd_self, link, used, partnered, used]
    simp [crqFlagHasPartner, putEntryRaw_flags]

theorem release_ret (p : CrqPair) (e : Bool) : (crqReleaseLocked p e).1 ≠ hParameter := by
  have hret : (crqReleaseLocked p e).1 = (crqPutEntryRawLocked p (!e) closeMsg).1 := rfl
  rw [hret, crqPutEntryRawLocked]
  split_ifs
  · exact show hSuccess ≠ hParameter by decide
  · exact show hClosed ≠ hParameter by decide

variable {s s' : CrqWorld} {c : CrqCall}

/-- **What a step does to the flags**. -/
theorem crqStep_link (hx : crqStep s c = .ok s') : LinkMove s s' c := by
  obtain ⟨⟨ret, ws, p⟩, hcall, heq⟩ := of_seq hx
  cases heq
  cases c with
  | reg os uaddr queue len =>
    obtain ⟨⟨ret', p'⟩, hreg, heq⟩ := of_seq hcall
    cases heq
    rcases crqReg_cases s.pair os uaddr queue len with ⟨e, hs, hset⟩ | ⟨-, ret'', hret, href⟩
    · rw [hset] at hreg
      obtain ⟨p'', hp, heq⟩ := of_seq hreg
      cases heq
      obtain ⟨r, -, hend, hother, -⟩ := crqSetupOsdata_ok hp
      have hacc := accepted_ite (crqCheckUnused (p.ends (!e)))
      refine .register e hs ?_ ?_ ?_
      · simp only [observe, hs.device, if_pos hacc]
      · have hflags : (p.ends e).cpFlags = crqFlagUsed ||| crqFlagHasPartner := by rw [hend]
        rw [link, used, partnered, hflags]
        decide
      · rw [hother, link, used, partnered, used]
        simp [crqFlagHasPartner]
    · rw [href] at hreg
      cases hreg
      refine .keep ?_ fun e => rfl
      simp only [observe, if_neg hret]
      cases crqGetCrq s.pair uaddr <;> rfl
  | send os uaddr msg =>
    refine .keep rfl fun e => link_congr ?_
    rw [← send_flags s.pair os uaddr msg e, Except.ok.inj hcall]
  | free os uaddr =>
    have hfree := Except.ok.inj hcall
    unfold crqFreeCrq at hfree
    rcases hdev : crqGetCrq s.pair uaddr with _ | e
    · rw [hdev] at hfree
      cases hfree
      refine .keep ?_ fun e => rfl
      simp only [observe, hdev]
    rw [hdev] at hfree
    dsimp only at hfree
    split_ifs at hfree with hown
    · cases hfree
      refine .keep ?_ fun e => rfl
      simp only [observe, hdev, if_true]
    have hret := release_ret s.pair e
    obtain ⟨hend, hother⟩ := release_flags s.pair e
    rw [hfree] at hret hend hother
    refine .free e ?_ hend hother
    simp only [observe, hdev, if_neg hret]
  | tce d tce =>
    cases hcall
    refine .keep rfl fun e => link_congr (CrqPair.setEnd_keeps (·.cpFlags) ?_ e)
    rfl

end

/-! ### The invariant -/

/-- An end is used when it is registered, and an end knows its partner when both are. -/
structure LinkInv (s : CrqWorld) : Prop where
  used : ∀ e, (s.pair.ends e).used = s.registered e
  partnered : ∀ e, s.registered e = true → s.registered (!e) = true →
    (s.pair.ends e).partnered = true

/-- A pair after `crq_pair_setup`. -/
structure FreshPair (s : CrqWorld) : Prop where
  flags : ∀ e, (s.pair.ends e).cpFlags = crqFlagValid
  registered : ∀ e, s.registered e = false

section

variable {s s' : CrqWorld} {c : CrqCall} {calls : List CrqCall} {ok : CrqWorld → CrqCall → Prop}

theorem FreshPair.linkInv (hf : FreshPair s) : LinkInv s := by
  constructor
  · intro e
    rw [used, hf.flags, hf.registered]
    rfl
  · intro e he
    rw [hf.registered] at he
    cases he

theorem LinkInv.step (hi : LinkInv s) (hx : crqStep s c = .ok s') : LinkInv s' := by
  cases crqStep_link hx with
  | keep hreg hsame =>
    constructor
    · intro e
      rw [hreg, ← hi.used e]
      exact congrArg fst (hsame e)
    · intro e he hne
      rw [hreg] at he hne
      exact (congrArg snd (hsame e)).trans (hi.partnered e he hne)
  | register e hset hreg hend hother =>
    have hne := Bool.not_ne_self e
    constructor
    · intro d
      rw [hreg]
      rcases Bool.eq_or_eq_not d e with rfl | rfl
      · rw [update_self]
        exact congrArg fst hend
      · rw [update_of_ne hne, ← hi.used]
        exact congrArg fst hother
    · intro d _ _
      rcases Bool.eq_or_eq_not d e with rfl | rfl
      · exact congrArg snd hend
      · exact congrArg snd hother
  | free e hreg hend hother =>
    have hne := Bool.not_ne_self e
    have hgone : s'.registered e = false := by rw [hreg, update_self]
    constructor
    · intro d
      rcases Bool.eq_or_eq_not d e with rfl | rfl
      · rwa [hgone]
      · rw [hreg, update_of_ne hne, ← hi.used]
        exact congrArg fst hother
    · -- one of the two ends is the one that was freed
      intro d hd hnd
      rcases Bool.eq_or_eq_not d e with rfl | rfl
      · exact absurd hd (by rw [hgone]; decide)
      · rw [Bool.not_not, hgone] at hnd
        cases hnd

theorem LinkInv.run (hi : LinkInv s) (hrun : Run crqStep ok s calls s') : LinkInv s' :=
  Run.invariant (fun _ _ _ hi _ hx => hi.step hx) hrun hi

/-- An end stays unregistered until it is set up. -/
theorem registered_of_run {e : Bool} (hrun : Run crqStep ok s calls s')
    (hno : ∀ s c, ok s c → ¬ c.SetsUp s.pair e) (hs : s.registered e = false) :
    s'.registered e = false := by
  refine Run.invariant (P := fun s => s.registered e = false) ?_ hrun hs
  intro s c t hs hok hx
  cases crqStep_link hx with
  | keep hreg _ => rwa [hreg]
  | register d hset hreg _ _ =>
    have hd : e ≠ d := by
      rintro rfl
      exact hno s c hok hset
    rwa [hreg, update_of_ne hd]
  | free d hreg _ _ =>
    rw [hreg]
    by_cases hd : e = d
    · rw [hd, update_self]
    · rwa [update_of_ne hd]

end

/-! ### Messages -/

/-- A transport event: the first byte is `0xff`. -/
def CrqEntry.Transport (m : CrqEntry) : Prop := m.msgHi.extractLsb' 56 8 = 0xff

/-- A command or a response: the first bit is set. -/
def CrqEntry.CmdResp (m : CrqEntry) : Prop := m.msgHi.msb = true

instance (m : CrqEntry) : Decidable m.Transport := inferInstanceAs (Decidable (_ = _))

instance (m : CrqEntry) : Decidable m.CmdResp := inferInstanceAs (Decidable (_ = _))

/-- The messages that are written, and for which end. -/
def messages (ws : List CrqWrite) : List (Bool × CrqEntry) := ws.map fun w => (w.dst, w.entry)

section

variable {m : CrqEntry}

theorem transport_iff : m.Transport ↔ m.msgHi &&& crqTransEvtMask = crqTransEvtMask := by
  have hmask : crqTransEvtMask = BitVec.allOnes 64 <<< 56 := by decide
  have hvalue : crqTransEvtMask.toNat = 255 * 2 ^ 56 := rfl
  rw [CrqEntry.Transport, ← toNat_inj, ← toNat_inj (y := crqTransEvtMask), hvalue,
    hmask, Word.toNat_and_allOnes_shiftLeft, extractLsb'_toNat, Nat.shiftRight_eq_div_pow,
    show BitVec.toNat (0xff : BitVec 8) = 255 from rfl]
  omega

theorem cmdResp_iff : m.CmdResp ↔ m.msgHi &&& crqCmdRespMask ≠ 0 := by
  have hmask : crqCmdRespMask = .twoPow 64 63 := by decide
  rw [CrqEntry.CmdResp, hmask, and_twoPow, msb_eq_getLsbD_last]
  cases m.msgHi.getLsbD (64 - 1) <;> simp

variable {p : CrqPair} {os : OsId} {uaddr : Uval} {e : Bool}

theorem putEntryRaw_messages (p : CrqPair) (dst : Bool) (m : CrqEntry) :
    messages (crqPutEntryRawLocked p dst m).2.1
      = if crqHaspartner (p.ends dst) then [(dst, m)] else [] := by
  unfold crqPutEntryRawLocked
  dsimp only
  split_ifs <;> rfl

/-- What a send of the owner of an end delivers. -/
theorem send_messages (hdev : crqGetCrq p uaddr = some e) (hown : some os = (p.ends e).cpOs) :
    messages (crqSend p os uaddr m).2.1
      = if crqHaspartner (p.ends (!e)) ∧ ¬ m.Transport ∧ m.CmdResp then [(!e, m)] else [] := by
  rw [crqSend, hdev]
  dsimp only
  rw [if_neg (not_not.2 hown)]
  by_cases hhas : crqHaspartner (p.ends (!e)) = true
  · have hcheck : m.msgHi &&& crqTransEvtMask ≠ crqTransEvtMask ∧ m.msgHi &&& crqCmdRespMask ≠ 0 ↔
        ¬ m.Transport ∧ m.CmdResp := and_congr transport_iff.not.symm cmdResp_iff.symm
    rw [if_pos hhas, crqPutEntryLocked]
    by_cases hvalid : ¬ m.Transport ∧ m.CmdResp
    · rw [if_pos (hcheck.2 hvalid), if_pos ⟨hhas, hvalid⟩, putEntryRaw_messages, if_pos hhas]
    · rw [if_neg (mt hcheck.1 hvalid), if_neg fun hc => hvalid hc.2]
      rfl
  · rw [if_neg hhas, if_neg fun hc => hhas hc.1]
    rfl

/-- What the owner of an end delivers when it frees it. -/
theorem free_messages (hdev : crqGetCrq p uaddr = some e) (hown : some os = (p.ends e).cpOs) :
    messages (crqFreeCrq p os uaddr).2.1
      = if crqHaspartner (p.ends (!e)) then [(!e, closeMsg)] else [] := by
  rw [crqFreeCrq, hdev]
  dsimp only
  rw [if_neg (not_not.2 hown)]
  exact putEntryRaw_messages p (!e) closeMsg

end

/-! ### The protocol -/

/-- A send by an end that is not registered finds no partner in the other end, and a message between
registered ends is a command or a response (or a transport event, which is one). -/
def CallOk (s : CrqWorld) : CrqCall → Prop
  | .send os uaddr msg => ∀ e, crqGetCrq s.pair uaddr = some e → some os = (s.pair.ends e).cpOs →
      (s.registered e = false → crqHaspartner (s.pair.ends (!e)) = false) ∧
      (s.registered e = true → s.registered (!e) = true → msg.CmdResp)
  | _ => True

/-- The protocol at a state, for calls that meet the condition `ok`. -/
structure ProtocolHolds (ok : CrqWorld → CrqCall → Prop) (s : CrqWorld) : Prop where
  /-- A send is delivered exactly when both ends are registered (and it is not a transport
  event). -/
  send : ∀ os uaddr msg e, crqGetCrq s.pair uaddr = some e → some os = (s.pair.ends e).cpOs →
    ok s (.send os uaddr msg) → messages (crqSend s.pair os uaddr msg).2.1 =
      if s.registered e = true ∧ s.registered (!e) = true ∧ ¬ msg.Transport then [(!e, msg)] else []
  /-- No send delivers a transport event. -/
  noTransport : ∀ os uaddr msg, ∀ w ∈ (crqSend s.pair os uaddr msg).2.1, ¬ w.entry.Transport
  /-- Freeing a registered end delivers one close event to a registered peer. -/
  close : ∀ os uaddr e, crqGetCrq s.pair uaddr = some e → some os = (s.pair.ends e).cpOs →
    s.registered e = true → messages (crqFreeCrq s.pair os uaddr).2.1 =
      if s.registered (!e) = true then [(!e, closeMsg)] else []
  /-- From then on nothing is delivered, in both directions, until the end is set up again. -/
  closed : ∀ os uaddr e s1 calls s2, crqGetCrq s.pair uaddr = some e →
    some os = (s.pair.ends e).cpOs → crqStep s (.free os uaddr) = .ok s1 →
    Run crqStep (fun s c => ok s c ∧ ¬ c.SetsUp s.pair e) s1 calls s2 →
    ∀ os' uaddr' msg, ok s2 (.send os' uaddr' msg) → (crqSend s2.pair os' uaddr' msg).2.1 = []

section

variable {s s' s0 : CrqWorld} {calls : List CrqCall} {uaddr : Uval} {os : OsId} {e : Bool}
  {msg : CrqEntry}

theorem LinkInv.haspartner (hi : LinkInv s) (he : s.registered e = true) :
    crqHaspartner (s.pair.ends (!e)) = s.registered (!e) := by
  rw [crqHaspartner_eq, hi.used]
  cases hne : s.registered (!e) with
  | false => rfl
  | true =>
    have hself : s.registered (!!e) = true := by rwa [Bool.not_not]
    rw [hi.partnered (!e) hne hself, Bool.true_and]

theorem LinkInv.send (hi : LinkInv s)
    (hdev : crqGetCrq s.pair uaddr = some e) (hown : some os = (s.pair.ends e).cpOs)
    (hok : CallOk s (.send os uaddr msg)) : messages (crqSend s.pair os uaddr msg).2.1 =
      if s.registered e = true ∧ s.registered (!e) = true ∧ ¬ msg.Transport then [(!e, msg)]
      else [] := by
  obtain ⟨halone, hcmd⟩ := hok e hdev hown
  rw [send_messages hdev hown]
  congr 1
  rw [eq_iff_iff]
  rcases he : s.registered e with _ | _
  · simp [halone he]
  rw [hi.haspartner he]
  constructor
  · rintro ⟨hne, htrans, -⟩
    exact ⟨rfl, hne, htrans⟩
  · rintro ⟨-, hne, htrans⟩
    exact ⟨hne, htrans, hcmd he hne⟩

/-- A call that does not come from the owner of an end delivers nothing. -/
theorem send_foreign {p : CrqPair}
    (hno : ∀ e, crqGetCrq p uaddr = some e → some os ≠ (p.ends e).cpOs) :
    (crqSend p os uaddr msg).2.1 = [] := by
  unfold crqSend
  cases hdev : crqGetCrq p uaddr with
  | none => rfl
  | some e =>
    dsimp only
    rw [if_pos (hno e hdev)]

theorem send_noTransport (p : CrqPair) (os : OsId) (uaddr : Uval) (msg : CrqEntry) :
    ∀ w ∈ (crqSend p os uaddr msg).2.1, ¬ w.entry.Transport := by
  intro w hw
  by_cases hown : ∃ e, crqGetCrq p uaddr = some e ∧ some os = (p.ends e).cpOs
  · obtain ⟨e, hdev, hown⟩ := hown
    have hmem : (w.dst, w.entry) ∈ messages (crqSend p os uaddr msg).2.1 :=
      List.mem_map_of_mem (f := fun w : CrqWrite => (w.dst, w.entry)) hw
    rw [send_messages hdev hown] at hmem
    split_ifs at hmem with hvalid
    · rw [List.mem_singleton, Prod.mk.injEq] at hmem
      rw [hmem.2]
      exact hvalid.2.1
    · cases hmem
  · rw [send_foreign fun e hdev howner => hown ⟨e, hdev, howner⟩] at hw
    cases hw

theorem registered_of_free
    (hdev : crqGetCrq s.pair uaddr = some e) (hown : some os = (s.pair.ends e).cpOs)
    (hx : crqStep s (.free os uaddr) = .ok s') : s'.registered e = false := by
  have hfree : crqFreeCrq s.pair os uaddr = crqReleaseLocked s.pair e := by
    rw [crqFreeCrq, hdev]
    dsimp only
    rw [if_neg (not_not.2 hown)]
  have hret := release_ret s.pair e
  have hobserve : s'.registered = s.observe (crqFreeCrq s.pair os uaddr).1 (.free os uaddr) := by
    cases hx
    rfl
  rw [hobserve, hfree]
  simp only [observe, hdev, if_neg hret, update_self]

/-- **The protocol of a pair** holds in every state that is reached, in runs whose sends all meet
the condition. -/
theorem crq_protocol (hfresh : FreshPair s0) (hrun : Run crqStep CallOk s0 calls s) :
    ProtocolHolds CallOk s := by
  have hi : LinkInv s := hfresh.linkInv.run hrun
  constructor
  · exact fun os uaddr msg e hdev hown hok => hi.send hdev hown hok
  · exact fun os uaddr msg => send_noTransport s.pair os uaddr msg
  · intro os uaddr e hdev hown he
    rw [free_messages hdev hown, hi.haspartner he]
  · intro os uaddr e s1 calls' s2 hdev hown hx hrun' os' uaddr' msg hok
    have hgone := registered_of_run hrun' (fun s c hc => hc.2) (registered_of_free hdev hown hx)
    have hi2 : LinkInv s2 := (hi.step hx).run hrun'
    by_cases hsend : ∃ d, crqGetCrq s2.pair uaddr' = some d ∧ some os' = (s2.pair.ends d).cpOs
    swap
    · exact send_foreign fun d hd howner => hsend ⟨d, hd, howner⟩
    obtain ⟨d, hd, howner⟩ := hsend
    have hnone := hi2.send hd howner hok
    rw [if_neg] at hnone
    · exact List.map_eq_nil_iff.1 hnone
    · -- one of the two ends is the one that was freed
      rintro ⟨hd1, hd2, -⟩
      by_cases hde : e = d
      · rw [← hde, hgone] at hd1
        cases hd1
      · obtain rfl : e = !d := Bool.eq_not.2 hde
        rw [hgone] at hd2
        cases hd2

/-- The ends of the partitions 0 and 1, before any call. -/
def onePageWorld : CrqWorld := ⟨onePagePair, [], fun _ => false⟩

theorem onePageWorld_fresh : FreshPair onePageWorld := by
  constructor
  · intro e
    cases e <;> rfl
  · intro e
    rfl

/-- Both ends register a page. -/
theorem crq_protocol_onePage : ∃ s,
    Run crqStep CallOk onePageWorld [.reg 0 0x300000 0 0x1000, .reg 1 0x300001 0 0x1000] s ∧
      s.registered false = true ∧ s.registered true = true ∧ ProtocolHolds CallOk s := by
  have hrun : Run crqStep CallOk onePageWorld
      [.reg 0 0x300000 0 0x1000, .reg 1 0x300001 0 0x1000] _ :=
    .cons trivial rfl (.cons trivial rfl (.nil _))
  exact ⟨_, hrun, rfl, rfl, crq_protocol onePageWorld_fresh hrun⟩

/-- The other end is not registered, and its send is delivered. -/
theorem unregistered_sends : ¬ ∀ s0 calls s, FreshPair s0 →
    Run crqStep (fun _ _ => True) s0 calls s → ProtocolHolds (fun _ _ => True) s := by
  intro hall
  have hrun : Run crqStep (fun _ _ => True) onePageWorld [.reg 0 0x300000 0 0x1000] _ :=
    .cons trivial rfl (.nil _)
  have hsend := (hall _ _ _ onePageWorld_fresh hrun).send 1 0x300001 ⟨0x8000000000000000, 0⟩ true
    rfl rfl trivial
  exact absurd hsend (by decide +kernel)

end

end Rhype
