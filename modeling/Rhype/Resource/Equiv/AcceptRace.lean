import Rhype.Resource.Equiv.AcceptFrame
import Rhype.Resource.Equiv.Cleanup
import Rhype.Resource.Equiv.OwnerList
import Rhype.Resource.Sections

/-!
# An accept in a race with a rescind

A rescind marks a resource, disables its chunk if it is mapped, and destroys it after the hypercalls
in progress.  An accept looks the resource up, locks it, and enables its chunk; that the resource is
not rescinded is only checked in the lookup.  If the rescind runs in between, the chunk is enabled
for good.

`duel_disabled` is the property for the schedules in which this does not happen.
-/

namespace Rhype

open Function

/-! ### Chunks that translate nothing -/

/-- A translation by way of the chunk of `r` succeeds. -/
def TranslatesBy (h : Hype) (r : ResId) : Prop :=
  ∃ o os a len c lci pa, h.os o = some os ∧ laddrToLci os a = .ok (some c) ∧ Backing h c a r lci ∧
    lciTranslate h c a len = .ok pa ∧ pa ≠ invalidPhysicalAddress

/-- The chunk is disabled, and no page-share manager has it. -/
structure Quenched (h : Hype) (r : ResId) : Prop where
  disabled : ∀ lci, h.lci r = some lci → lci.lciDisabled = true
  entries : ∀ p psm i, h.psm p = some psm → psm.psmEntries i ≠ some r

/-- `lci_translate` looks at the flag of the chunk in the slot, and not at that of the chunk in the
entry of a page-share manager. -/
theorem Quenched.not_translates {h : Hype} {r : ResId} (hq : Quenched h r) :
    ¬ TranslatesBy h r := by
  rintro ⟨o, os, a, len, c, lci, pa, -, -, hback, hx, hpa⟩
  obtain ⟨⟨slotLci, hslot, hen⟩, -⟩ := lciTranslate_ok hx hpa
  cases hback with
  | plain hn hlci _ =>
    subst hn
    cases (hq.disabled slotLci hslot).symm.trans hen
  | shared psmLci psm _ _ _ hpsm hentry =>
    unfold Psm.entry at hentry
    split_ifs at hentry
    exact hq.entries c psm _ hpsm (Except.ok.inj hentry)

/-! ### What keeps a chunk disabled -/

/-- Chunks stay disabled, page-share managers get no entries, and the resources keep what they are
found by; the flag `RESCINDED` stays. -/
structure HoldFrame (h h' : Hype) : Prop where
  lci : ∀ c lci', h'.lci c = some lci' → ∃ lci, h.lci c = some lci ∧
    (lci.lciDisabled = true → lci'.lciDisabled = true)
  entry : ∀ p psm' i q, h'.psm p = some psm' → psm'.psmEntries i = some q →
    ∃ psm, h.psm p = some psm ∧ psm.psmEntries i = some q
  res : ∀ q sr', h'.res q = some sr' → ∃ sr, h.res q = some sr ∧ sr'.srCookie = sr.srCookie ∧
    sr'.srType = sr.srType ∧ (sr.srRescinded = true → sr'.srRescinded = true)

namespace HoldFrame

variable {h h' h'' : Hype} {r : ResId}

theorem refl (h : Hype) : HoldFrame h h :=
  ⟨fun _ lci hlci => ⟨lci, hlci, id⟩, fun _ psm _ _ hpsm he => ⟨psm, hpsm, he⟩,
    fun _ sr hsr => ⟨sr, hsr, rfl, rfl, id⟩⟩

theorem trans (h1 : HoldFrame h h') (h2 : HoldFrame h' h'') : HoldFrame h h'' where
  lci := by
    intro c lci'' hlci''
    obtain ⟨lci', hlci', hd'⟩ := h2.lci c lci'' hlci''
    obtain ⟨lci, hlci, hd⟩ := h1.lci c lci' hlci'
    exact ⟨lci, hlci, fun hdis => hd' (hd hdis)⟩
  entry := by
    intro p psm'' i q hpsm'' he''
    obtain ⟨psm', hpsm', he'⟩ := h2.entry p psm'' i q hpsm'' he''
    exact h1.entry p psm' i q hpsm' he'
  res := by
    intro q sr'' hsr''
    obtain ⟨sr', hsr', hc', ht', hr'⟩ := h2.res q sr'' hsr''
    obtain ⟨sr, hsr, hc, ht, hr⟩ := h1.res q sr' hsr'
    exact ⟨sr, hsr, hc'.trans hc, ht'.trans ht, fun hres => hr' (hr hres)⟩

theorem quenched (hf : HoldFrame h h') (hq : Quenched h r) : Quenched h' r where
  disabled := by
    intro lci' hlci'
    obtain ⟨lci, hlci, hd⟩ := hf.lci r lci' hlci'
    exact hd (hq.disabled lci hlci)
  entries := by
    intro p psm' i hpsm' he'
    obtain ⟨psm, hpsm, he⟩ := hf.entry p psm' i r hpsm' he'
    exact hq.entries p psm i hpsm he

/-! ### The elementary changes -/

theorem of_eq (hlci : h'.lci = h.lci) (hpsm : h'.psm = h.psm) (hres : h'.res = h.res) :
    HoldFrame h h' := by
  refine ⟨?_, ?_, ?_⟩
  · rw [hlci]
    exact (refl h).lci
  · rw [hpsm]
    exact (refl h).entry
  · rw [hres]
    exact (refl h).res

theorem of_lci {c : LciId} {lci lci' : Lci} (hlci : h.lci c = some lci)
    (hl : h'.lci = update h.lci c (some lci')) (hpsm : h'.psm = h.psm) (hres : h'.res = h.res)
    (hd : lci.lciDisabled = true → lci'.lciDisabled = true) : HoldFrame h h' := by
  refine ⟨?_, ?_, ?_⟩
  · intro d l hdl
    rw [hl] at hdl
    rcases update_some_eq_some.1 hdl with ⟨rfl, rfl⟩ | ⟨-, hdl⟩
    · exact ⟨lci, hlci, hd⟩
    · exact ⟨l, hdl, id⟩
  · rw [hpsm]
    exact (refl h).entry
  · rw [hres]
    exact (refl h).res

theorem of_mark (hf : MarkFrame h h') : HoldFrame h h' where
  lci := by
    intro c lci' hlci'
    obtain ⟨lci, hlci, hd⟩ := rel_some_right (hf.lci c) hlci'
    refine ⟨lci, hlci, fun hdis => ?_⟩
    rcases hd with rfl | rfl
    · exact hdis
    · rfl
  entry := by
    rw [hf.psm]
    exact (refl h).entry
  res := by
    intro q sr' hsr'
    obtain ⟨sr, hsr, hm⟩ := rel_some_right (hf.res q) hsr'
    exact ⟨sr, hsr, hm.cookie, hm.type, hm.rescinded⟩

end HoldFrame

/-! ### The sections of a cleanup -/

section

variable {h h' : Hype} {r : ResId} {c p : LciId} {type : ResType}

theorem UnmapStep.hold (hs : UnmapStep h c h') : HoldFrame h h' := by
  cases hs with
  | none => exact .refl h
  | @some lci o os psms ht n hlci hos _ hentry =>
    have hpsm : HoldFrame h { h with psm := psms } := { HoldFrame.refl h with entry := hentry }
    exact hpsm.trans (.of_lci hlci rfl rfl rfl id)

theorem detachLci_hold {rc : Uval} (hx : detachLci h c = .ok (rc, h')) : HoldFrame h h' := by
  rcases detachLci_ok hx with ⟨rfl, -⟩ | ⟨lci, o, os, m, pLci, usage, st⟩
  · exact .refl h'
  · rw [st.state]
    exact .of_lci st.lci_eq rfl rfl rfl fun _ => rfl

theorem returnFn_hold (hx : returnFn h type r = .ok h') : HoldFrame h h' := by
  cases type with
  | mem t =>
    rcases returnFn_ok hx with ⟨rc, h1, hdet, hun⟩ | ⟨-, hun⟩
    · exact (detachLci_hold hdet).trans hun.hold
    · exact hun.hold
  | intrSrc =>
    cases hx
    exact .refl _

theorem cleanupUnlist_hold (hx : cleanupUnlist h r = .ok h') : HoldFrame h h' := by
  obtain ⟨sr, -, hx⟩ := of_seq hx
  obtain ⟨o, -, hx⟩ := of_seq hx
  obtain ⟨os, -, hx⟩ := of_seq hx
  cases hx
  exact .of_eq rfl rfl rfl

theorem rescindFn_hold (hx : rescindFn h type r = .ok h') : HoldFrame h h' := by
  rcases rescindFn_ok hx with ⟨rfl, -⟩ | rfl
  · exact .refl _
  · exact .of_eq rfl rfl rfl

theorem cleanupDestroy_hold (hx : cleanupDestroy h r = .ok h') : HoldFrame h h' := by
  obtain ⟨sr, -, hx⟩ := of_seq hx
  obtain ⟨_, -, hx⟩ := of_seq hx
  obtain ⟨_, -, hx⟩ := of_seq hx
  dsimp only at hx
  split_ifs at hx
  · obtain ⟨h1, hret, hx⟩ := of_seq hx
    obtain ⟨h2, hresc, hx⟩ := of_seq hx
    cases hx
    exact ((returnFn_hold hret).trans (rescindFn_hold hresc)).trans (.of_eq rfl rfl rfl)
  rw [ok_bind] at hx
  obtain ⟨h2, hresc, hx⟩ := of_seq hx
  cases hx
  exact (rescindFn_hold hresc).trans (.of_eq rfl rfl rfl)

end

/-! ### One action -/

/-- The rescind has marked the resource, and not yet locked it: the chunk is not yet disabled. -/
def RescindPc.opening : RescindPc → Bool
  | .marking _ _ .unlink => true
  | .marking _ _ .queue => true
  | _ => false

/-- **The condition on a schedule.**  When the accept locks the resource, the rescind has not had
its section under this lock.  When the rescind has that section, the resource is mapped, and no
page-share manager has it as an entry. -/
def DuelOk (r : ResId) (s : Duel) : DuelAct → Prop
  | .accept => s.acc = .found r → ∀ sr, s.h.res r = some sr → sr.srRescinded = true →
      s.resc.opening = true
  | .rescind => ∀ t, s.resc = .marking r t .queue →
      (∀ sr, s.h.res r = some sr → sr.srMapped = true) ∧
        ∀ p psm i, s.h.psm p = some psm → psm.psmEntries i ≠ some r
  | .free _ => True

/-- **The property**: once the resource is marked, its chunk is disabled and translates nothing, as
long as it exists. -/
def DeadOnceMarked (r : ResId) (s : Duel) : Prop :=
  ∀ sr, s.h.res r = some sr → sr.srRescinded = true →
    (∀ lci, s.h.lci r = some lci → lci.lciDisabled = true) ∧ ¬ TranslatesBy s.h r

def Unmarked (h : Hype) (r : ResId) : Prop := ∀ sr, h.res r = some sr → sr.srRescinded = false

def MarkedRes (h : Hype) (r : ResId) : Prop := ∀ sr, h.res r = some sr → sr.srRescinded = true

/-- What holds of the resource `r` in each phase of its rescind. -/
def RescindPc.Phase (h : Hype) (r : ResId) : RescindPc → Prop
  | .lookup => Unmarked h r
  | .marking q _ .mark => q = r ∧ Unmarked h r
  | .marking q _ .unlink => q = r ∧ MarkedRes h r
  | .marking q _ .queue => q = r ∧ MarkedRes h r
  | .marking q _ (.walk ..) => q = r ∧ MarkedRes h r ∧ Quenched h r
  | .marking _ _ (.ended _) => False
  | .ended => Unmarked h r ∨ MarkedRes h r ∧ Quenched h r
  | _ => MarkedRes h r ∧ Quenched h r

/-- What holds between the sections, for the memory resource `r` with the cookie. -/
structure DuelInv (cookie : Uval) (r : ResId) (s : Duel) : Prop where
  named : ∀ q sr, s.h.res q = some sr → sr.srCookie = cookie → q = r
  memory : ∀ sr, s.h.res r = some sr → ∃ t, sr.srType = .mem t
  found : ∀ q, s.acc = .found q → q = r
  phase : s.resc.Phase s.h r

section

variable {c : DuelCalls} {cookie : Uval} {r : ResId} {h h' : Hype} {acc : AcceptPc}
  {resc resc' : RescindPc} {s s' : Duel}

theorem HoldFrame.marked (hf : HoldFrame h h') (hm : MarkedRes h r) : MarkedRes h' r := by
  intro sr' hsr'
  obtain ⟨sr, hsr, -, -, hres⟩ := hf.res r sr' hsr'
  exact hres (hm sr hsr)

theorem DuelInv.keep (hi : DuelInv cookie r ⟨h, acc, resc⟩)
    (hres : ∀ q sr', h'.res q = some sr' → ∃ sr, h.res q = some sr ∧
      sr'.srCookie = sr.srCookie ∧ sr'.srType = sr.srType) {acc' : AcceptPc}
    (hfound : ∀ q, acc' = .found q → q = r) (hphase : resc'.Phase h' r) :
    DuelInv cookie r ⟨h', acc', resc'⟩ where
  named := by
    intro q sr' hsr' hcookie
    obtain ⟨sr, hsr, hc, -⟩ := hres q sr' hsr'
    exact hi.named q sr hsr (hc.symm.trans hcookie)
  memory := by
    intro sr' hsr'
    obtain ⟨sr, hsr, -, ht⟩ := hres r sr' hsr'
    obtain ⟨t, hmem⟩ := hi.memory sr hsr
    exact ⟨t, ht.trans hmem⟩
  found := hfound
  phase := hphase

theorem DuelInv.next (hi : DuelInv cookie r ⟨h, acc, resc⟩) (hf : HoldFrame h h')
    (hphase : resc'.Phase h' r) : DuelInv cookie r ⟨h', acc, resc'⟩ := by
  refine hi.keep (fun q sr' hsr' => ?_) hi.found hphase
  obtain ⟨sr, hsr, hc, ht, -⟩ := hf.res q sr' hsr'
  exact ⟨sr, hsr, hc, ht⟩

theorem acceptLockedResource_res {fresh : FreshPsm} {vio : Sval × Uval} {rc : Sval} {a : Uval}
    {q p : ResId} (hx : acceptLockedResource h q fresh vio = .ok (rc, a, h')) {sr' : SysResource}
    (hsr' : h'.res p = some sr') : ∃ sr, h.res p = some sr ∧ sr'.srCookie = sr.srCookie ∧
      sr'.srType = sr.srType ∧ sr'.srRescinded = sr.srRescinded := by
  obtain ⟨sr, h1, -, haccept, hend⟩ := acceptLockedResource_ok hx
  have hres := (acceptFn_frame haccept).res
  rcases hend with ⟨-, rfl⟩ | ⟨-, sr1, hsr1, rfl⟩
  · exact ⟨sr', hres ▸ hsr', rfl, rfl, rfl⟩
  · rcases update_some_eq_some.1 hsr' with ⟨rfl, rfl⟩ | ⟨-, hsr'⟩
    · exact ⟨sr1, hres ▸ hsr1, rfl, rfl, rfl⟩
    · exact ⟨sr', hres ▸ hsr', rfl, rfl, rfl⟩

theorem RescindPc.Phase.mono (hp : resc.Phase h r) (hun : Unmarked h r → Unmarked h' r)
    (hma : MarkedRes h r → MarkedRes h' r)
    (hq : resc.opening = false → MarkedRes h r → Quenched h r → Quenched h' r) :
    resc.Phase h' r := by
  match resc, hp with
  | .lookup, hp => exact hun hp
  | .marking q t .mark, hp => exact ⟨hp.1, hun hp.2⟩
  | .marking q t .unlink, hp => exact ⟨hp.1, hma hp.2⟩
  | .marking q t .queue, hp => exact ⟨hp.1, hma hp.2⟩
  | .marking q t (.walk ra curr), hp => exact ⟨hp.1, hma hp.2.1, hq rfl hp.2.1 hp.2.2⟩
  | .paused t, hp => exact ⟨hma hp.1, hq rfl hp.1 hp.2⟩
  | .cleaning t curr, hp => exact ⟨hma hp.1, hq rfl hp.1 hp.2⟩
  | .unlisted t q before, hp => exact ⟨hma hp.1, hq rfl hp.1 hp.2⟩
  | .ended, .inl hp => exact .inl (hun hp)
  | .ended, .inr hp => exact .inr ⟨hma hp.1, hq rfl hp.1 hp.2⟩

/-- The phases that an accept of an unmarked resource, or of one that is about to be locked, does
not end. -/
theorem RescindPc.Phase.accept (hp : resc.Phase h r) (hlive : ∃ sr, h.res r = some sr)
    (hok : ∀ sr, h.res r = some sr → sr.srRescinded = true → resc.opening = true)
    (hres : ∀ sr', h'.res r = some sr' → ∃ sr, h.res r = some sr ∧
      sr'.srRescinded = sr.srRescinded) : resc.Phase h' r := by
  obtain ⟨sr, hsr⟩ := hlive
  refine hp.mono ?_ ?_ ?_
  · intro hu sr' hsr'
    obtain ⟨s, hs, he⟩ := hres sr' hsr'
    exact he.trans (hu s hs)
  · intro hm sr' hsr'
    obtain ⟨s, hs, he⟩ := hres sr' hsr'
    exact he.trans (hm s hs)
  -- once the rescind has locked the resource, the accept is too late
  · intro hopen hm
    cases hopen.symm.trans (hok sr hsr (hm sr hsr))

theorem DuelInv.accept (hi : DuelInv c.cookie r s) (hok : DuelOk r s .accept)
    (hx : duelStep c s .accept = .ok s') : DuelInv c.cookie r s' := by
  obtain ⟨h, acc, resc⟩ := s
  obtain ⟨⟨acc', h'⟩, hsec, hx⟩ := of_seq hx
  cases hx
  cases acc with
  | ended =>
    cases hsec
    exact hi
  | lookup =>
    obtain ⟨⟨err, res⟩, hget, hsec⟩ := of_seq hsec
    dsimp only at hsec
    split_ifs at hsec with herr
    · cases hsec
      exact { hi with found := nofun}
    obtain ⟨q, hq, hsec⟩ := of_seq hsec
    cases hsec
    rw [not_not] at herr
    rw [herr, nonNull_ok.1 hq] at hget
    obtain ⟨sr, hsr, hcookie, -⟩ := getSysResource_found hget
    refine { hi with found := fun p hp => ?_ }
    cases hp
    exact hi.named q sr hsr hcookie
  | found q =>
    obtain ⟨⟨rc, a, h1⟩, haccept, hsec⟩ := of_seq hsec
    cases hsec
    cases hi.found q rfl
    have hres := fun {p sr'} => @acceptLockedResource_res h h' c.fresh _ rc a r p haccept sr'
    obtain ⟨sr, -, hsr, -⟩ := acceptLockedResource_ok haccept
    refine hi.keep (fun p sr' hsr' => ?_) nofun ?_
    · obtain ⟨sr, hsr, hc, ht, -⟩ := hres hsr'
      exact ⟨sr, hsr, hc, ht⟩
    · apply hi.phase.accept ⟨sr, hsr⟩ (hok rfl)
      intro sr' hsr'
      obtain ⟨sr, hsr, -, -, he⟩ := hres hsr'
      exact ⟨sr, hsr, he⟩

theorem invalidateAndQueue_quenched {t : MemType} {nodes : DRef} (hnodes : ∀ q, nodes ≠ .osRes q)
    (hmapped : ∀ sr, h.res r = some sr → sr.srMapped = true)
    (hentries : ∀ p psm i, h.psm p = some psm → psm.psmEntries i ≠ some r)
    (hx : invalidateAndQueue (.mem t) nodes h r = .ok h') : Quenched h' r := by
  have hframe := HoldFrame.of_mark (invalidateAndQueue_frame hnodes hx)
  refine ⟨?_, ?_⟩
  · obtain ⟨sr, hsr, hx⟩ := of_live hx
    dsimp only at hx
    rw [if_pos (hmapped sr hsr)] at hx
    obtain ⟨h1, hinv, hx⟩ := of_seq hx
    cases hx
    obtain ⟨lci, -, hinv⟩ := of_seq hinv
    cases hinv
    intro lci' hlci'
    cases (update_self ..).symm.trans hlci'
    rfl
  · intro p psm' i hpsm' he'
    obtain ⟨psm, hpsm, he⟩ := hframe.entry p psm' i r hpsm' he'
    exact hentries p psm i hpsm he

theorem DuelInv.marking {t : Nat} {q : ResId} {pc pc' : MarkPc}
    (hi : DuelInv cookie r ⟨h, acc, .marking q t pc⟩)
    (hok : DuelOk r ⟨h, acc, .marking q t pc⟩ .rescind)
    (hx : markSection q (.todo t) none h pc = .ok (pc', h')) :
    HoldFrame h h' ∧ ((pc' = .ended 0 ∧ MarkedRes h' r ∧ Quenched h' r) ∨
      RescindPc.Phase h' r (.marking q t pc')) := by
  have hnodes : ∀ p, DRef.todo t ≠ .osRes p := nofun
  cases pc with
  | mark =>
    obtain ⟨rfl, hun⟩ := hi.phase
    obtain ⟨⟨marked, h1⟩, hmark, hx⟩ := of_seq hx
    have hframe := HoldFrame.of_mark (markForRescind_frame hmark)
    obtain ⟨sr, hsr, hmark⟩ := of_live hmark
    rw [if_neg (by simp [hun sr hsr])] at hmark
    cases hmark
    cases hx
    refine ⟨hframe, .inr ⟨rfl, fun sr' hsr' => ?_⟩⟩
    rw [Hype.setRes_res_self] at hsr'
    cases hsr'
    rfl
  | unlink =>
    obtain ⟨rfl, hma⟩ := hi.phase
    obtain ⟨sr, -, hx⟩ := of_seq hx
    have hframe : HoldFrame h h' := by
      cases hx
      split_ifs <;> exact .of_eq rfl rfl rfl
    cases hx
    exact ⟨hframe, .inr ⟨rfl, hframe.marked hma⟩⟩
  | queue =>
    obtain ⟨rfl, hma⟩ := hi.phase
    obtain ⟨sr, hsr, hx⟩ := of_live hx
    obtain ⟨h1, hqueue, hx⟩ := of_seq hx
    cases hx
    obtain ⟨mt, hmem⟩ := hi.memory sr hsr
    rw [hmem] at hqueue
    obtain ⟨hmapped, hentries⟩ := hok t rfl
    have hframe := HoldFrame.of_mark (invalidateAndQueue_frame hnodes hqueue)
    exact ⟨hframe, .inr ⟨rfl, hframe.marked hma,
      invalidateAndQueue_quenched hnodes hmapped hentries hqueue⟩⟩
  | walk ra curr =>
    obtain ⟨rfl, hma, hq⟩ := hi.phase
    simp only [markSection] at hx
    split_ifs at hx with hend
    · cases hx
      exact ⟨.refl _, .inl ⟨rfl, hma, hq⟩⟩
    cases curr with
    | siblings p =>
      obtain ⟨sr, -, hx⟩ := of_seq hx
      obtain ⟨h1, hloop, hx⟩ := of_seq hx
      cases hx
      have hframe := HoldFrame.of_mark (childLoop_frame hnodes hloop)
      exact ⟨hframe, .inr ⟨rfl, hframe.marked hma, hframe.quenched hq⟩⟩
    | _ => cases hx
  | ended err => exact absurd hi.phase id

theorem DuelInv.rescind (hi : DuelInv c.cookie r s) (hok : DuelOk r s .rescind)
    (hx : duelStep c s .rescind = .ok s') : DuelInv c.cookie r s' := by
  obtain ⟨h, acc, resc⟩ := s
  obtain ⟨⟨resc', h'⟩, hsec, hx⟩ := of_seq hx
  cases hx
  cases resc with
  | lookup =>
    have hun : Unmarked h r := hi.phase
    obtain ⟨⟨err, res⟩, hget, hsec⟩ := of_seq hsec
    dsimp only at hsec
    split_ifs at hsec with herr
    · cases hsec
      exact hi.next (.refl h) (.inl hun)
    obtain ⟨q, hq, hsec⟩ := of_seq hsec
    obtain ⟨sr, hsr, hsec⟩ := of_seq hsec
    split_ifs at hsec
    · cases hsec
      exact hi.next (.refl h) (.inl hun)
    cases hsec
    rw [not_not] at herr
    rw [herr, nonNull_ok.1 hq] at hget
    obtain ⟨sr, hsr, hcookie, -⟩ := getSysResource_found hget
    have hphase : RescindPc.Phase (newTodo h).2 r (.marking q (newTodo h).1 .mark) :=
      ⟨hi.named q sr hsr hcookie, hun⟩
    have hframe : HoldFrame h (newTodo h).2 := .of_eq rfl rfl rfl
    exact hi.next hframe hphase
  | marking q t pc =>
    obtain ⟨⟨pc', h1⟩, hmark, hsec⟩ := of_seq hsec
    obtain ⟨hframe, ⟨rfl, hdead⟩ | hphase⟩ := hi.marking hok hmark
    · cases hsec
      exact hi.next hframe hdead
    cases pc' with
    | ended err => exact absurd hphase id
    | _ =>
      cases hsec
      exact hi.next hframe hphase
  | paused t =>
    cases hsec
    refine hi.next (.refl h) ?_
    split_ifs
    all_goals exact hi.phase
  | cleaning t curr =>
    obtain ⟨hma, hq⟩ := hi.phase
    simp only [rescindSection] at hsec
    split_ifs at hsec with hend
    · cases hsec
      exact hi.next (.refl h) (.inr ⟨hma, hq⟩)
    cases curr with
    | siblings q =>
      obtain ⟨h1, hun, hsec⟩ := of_seq hsec
      cases hsec
      have hframe := cleanupUnlist_hold hun
      exact hi.next hframe ⟨hframe.marked hma, hframe.quenched hq⟩
    | _ => cases hsec
  | unlisted t q before =>
    obtain ⟨hma, hq⟩ := hi.phase
    obtain ⟨h1, hdes, hsec⟩ := of_seq hsec
    cases hsec
    have hframe := cleanupDestroy_hold hdes
    exact hi.next hframe ⟨hframe.marked hma, hframe.quenched hq⟩
  | ended =>
    cases hsec
    exact hi

theorem collect_hold {i : Nat} {q : LciId} (hnode : h.rcu[i]? = some (.physMem q))
    (hx : collect h i = .ok h') :
    HoldFrame h h' ∧ ∀ p sr', h'.res p = some sr' → h.res p = some sr' := by
  rw [collect, hnode] at hx
  cases hx
  have hgone : ∀ p sr', update h.res q none p = some sr' → h.res p = some sr' :=
    fun _ _ hsr => (update_none_eq_some.1 hsr).2
  exact ⟨⟨fun _ lci hlci => ⟨lci, (update_none_eq_some.1 hlci).2, id⟩,
    fun _ psm _ _ hpsm he => ⟨psm, hpsm, he⟩, fun _ sr hsr => ⟨sr, hgone _ _ hsr, rfl, rfl, id⟩⟩,
    hgone⟩

theorem RescindPc.Phase.free (hp : resc.Phase h r) (hf : HoldFrame h h')
    (hres : ∀ p sr', h'.res p = some sr' → h.res p = some sr') : resc.Phase h' r :=
  hp.mono (fun hu sr' hsr' => hu sr' (hres r sr' hsr')) hf.marked fun _ _ => hf.quenched

/-- **One action keeps the invariant.** -/
theorem DuelInv.step {act : DuelAct} (hi : DuelInv c.cookie r s) (hok : DuelOk r s act)
    (hx : duelStep c s act = .ok s') : DuelInv c.cookie r s' := by
  cases act with
  | accept => exact hi.accept hok hx
  | rescind => exact hi.rescind hok hx
  | free i =>
    simp only [duelStep] at hx
    split at hx
    · next q hnode =>
      obtain ⟨h', hcollect, hx⟩ := of_seq hx
      cases hx
      obtain ⟨hframe, hres⟩ := collect_hold hnode hcollect
      exact hi.next hframe (hi.phase.free hframe hres)
    · cases hx
      exact hi

theorem DuelInv.dead (hi : DuelInv cookie r s) (hopen : s.resc.opening = false) :
    DeadOnceMarked r s := by
  intro sr hsr hres
  have hquench : Quenched s.h r := by
    have hnot : ¬ Unmarked s.h r := fun hu => absurd (hres.symm.trans (hu sr hsr)) nofun
    have hphase := hi.phase
    match hpc : s.resc, hphase, hopen with
    | .lookup, hp, _ => exact absurd hp hnot
    | .marking q t .mark, hp, _ => exact absurd hp.2 hnot
    | .marking q t (.walk ra curr), hp, _ => exact hp.2.2
    | .paused t, hp, _ => exact hp.2
    | .cleaning t curr, hp, _ => exact hp.2
    | .unlisted t q before, hp, _ => exact hp.2
    | .ended, .inl hp, _ => exact absurd hp hnot
    | .ended, .inr hp, _ => exact hp.2
  exact ⟨hquench.disabled, hquench.not_translates⟩

end

/-- The calls of the duel are for the memory resource `r`, which is not marked. -/
structure DuelStart (c : DuelCalls) (r : ResId) (h : Hype) : Prop where
  named : ∀ q sr, h.res q = some sr → sr.srCookie = c.cookie → q = r
  memory : ∀ sr, h.res r = some sr → ∃ t, sr.srType = .mem t
  unmarked : Unmarked h r

/-- **Rescinded memory stays disabled.**  In every run of an accept and a rescind of one memory
resource whose steps meet the condition, and in every state but those between the mark and the
section in which the rescind has locked the resource. -/
theorem duel_disabled {c : DuelCalls} {r : ResId} {h : Hype} {acts : List DuelAct} {s : Duel}
    (hstart : DuelStart c r h)
    (hrun : Run (duelStep c) (DuelOk r) ⟨h, .lookup, .lookup⟩ acts s)
    (hopen : s.resc.opening = false) : DeadOnceMarked r s := by
  have hi : DuelInv c.cookie r ⟨h, .lookup, .lookup⟩ :=
    ⟨hstart.named, hstart.memory, nofun, hstart.unmarked⟩
  exact (hrun.invariant (fun _ _ _ hi hok hx => hi.step hok hx) hi).dead hopen

/-- Partition 0 has 128 MiB, and has granted 64 MiB of it to partition 1. -/
def granting : List Op :=
  [.define 0 .memAddr 0x10000000 0x8000000 clearedPsm, .grant 0 .memAddr 0 0x4000000 1]

/-- The owner of resource 1 accepts it, and rescinds it by force. -/
def grantCalls : DuelCalls where
  cookie := 3
  accepter := 1
  fresh := clearedPsm
  rescinder := 1
  flags := 1

theorem duelStart_grantCalls {h : Hype} (hx : granting.foldlM step twoPartitions = .ok h) :
    DuelStart grantCalls 1 h := by
  obtain ⟨h', hh, ⟨sr0, hsr0, hcookie⟩, ⟨sr1, hsr1, hun, ht⟩, hmore⟩ :
      ∃ h, granting.foldlM step twoPartitions = .ok h ∧
        (∃ sr, h.res 0 = some sr ∧ sr.srCookie ≠ 3) ∧
        (∃ sr, h.res 1 = some sr ∧ sr.srRescinded = false ∧ sr.srType = .mem .memAddr) ∧
        ∀ q, h.res (q + 2) = none :=
    ⟨_, rfl, ⟨_, rfl, by decide⟩, ⟨_, rfl, rfl, rfl⟩, fun _ => rfl⟩
  cases hh.symm.trans hx
  refine ⟨?_, ?_, ?_⟩
  · intro q sr hsr hc
    match q with
    | 0 =>
      cases hsr0.symm.trans hsr
      exact absurd hc hcookie
    | 1 => rfl
    | q + 2 => cases (hmore q).symm.trans hsr
  · intro sr hsr
    cases hsr1.symm.trans hsr
    exact ⟨_, ht⟩
  · intro sr hsr
    cases hsr1.symm.trans hsr
    exact hun

/-- The accept is over before the rescind begins. -/
theorem duel_disabled_afterwards :
    ∃ h s, granting.foldlM step twoPartitions = .ok h ∧
      Run (duelStep grantCalls) (DuelOk 1) ⟨h, .lookup, .lookup⟩
        [.accept, .accept, .rescind, .rescind, .rescind, .rescind, .rescind] s ∧
      (∃ sr, s.h.res 1 = some sr ∧ sr.srRescinded = true) ∧ s.resc.opening = false ∧
      DeadOnceMarked 1 s := by
  obtain ⟨h, s, hh, hrun, hmarked, hopen⟩ :
      ∃ h s, granting.foldlM step twoPartitions = .ok h ∧
        Run (duelStep grantCalls) (DuelOk 1) ⟨h, .lookup, .lookup⟩
          [.accept, .accept, .rescind, .rescind, .rescind, .rescind, .rescind] s ∧
        (∃ sr, s.h.res 1 = some sr ∧ sr.srRescinded = true) ∧ s.resc.opening = false := by
    refine ⟨_, _, rfl, .cons ?_ rfl (.cons ?_ rfl (.cons ?_ rfl (.cons ?_ rfl (.cons ?_ rfl
      (.cons ?_ rfl (.cons ?_ rfl (.nil _))))))), ⟨_, rfl, rfl⟩, rfl⟩
    · exact nofun
    · intro _ sr hsr hres
      cases hsr
      cases hres
    · exact nofun
    · rintro t ⟨⟩
    · rintro t ⟨⟩
    -- the rescind locks the resource
    · refine fun t ht => ⟨fun sr hsr => ?_, fun p psm i hpsm => ?_⟩
      · cases hsr
        rfl
      · cases hpsm
    · rintro t ⟨⟩
  exact ⟨h, s, hh, hrun, hmarked, hopen, duel_disabled (duelStart_grantCalls hh) hrun hopen⟩

/-- The rescind runs between the lookup of the accept and its section under the lock: the accept
maps and enables the chunk, which translates.  And when the accept is over before, the chunk still
translates while the resource is marked and not yet locked. -/
theorem duel_enables_rescinded :
    (¬ ∀ (c : DuelCalls) (r : ResId) (h : Hype) (acts : List DuelAct) (s : Duel),
      DuelStart c r h → Run (duelStep c) (fun _ _ => True) ⟨h, .lookup, .lookup⟩ acts s →
        s.resc.opening = false → DeadOnceMarked r s) ∧
    ∃ h s, granting.foldlM step twoPartitions = .ok h ∧ DuelStart grantCalls 1 h ∧
      Run (duelStep grantCalls) (DuelOk 1) ⟨h, .lookup, .lookup⟩
        [.accept, .accept, .rescind, .rescind] s ∧ ¬ DeadOnceMarked 1 s := by
  constructor
  · intro hall
    obtain ⟨h, s, hh, hs, ⟨sr, hsr, hmarked⟩, hopen, htranslates⟩ :
        ∃ h s, granting.foldlM step twoPartitions = .ok h ∧
          [.accept, .rescind, .rescind, .rescind, .rescind, .rescind, .rescind,
            .accept].foldlM (duelStep grantCalls) ⟨h, .lookup, .lookup⟩ = .ok s ∧
          (∃ sr, s.h.res 1 = some sr ∧ sr.srRescinded = true) ∧
          s.resc.opening = false ∧ TranslatesBy s.h 1 :=
      ⟨_, _, rfl, rfl, ⟨_, rfl, rfl⟩, rfl,
        1, _, 0, 1, 1, _, 0x10000000, rfl, rfl, .plain rfl rfl (by decide), rfl, by decide⟩
    have hdead := hall grantCalls 1 h _ s (duelStart_grantCalls hh)
      (.of_foldlM (fun _ _ _ => trivial) hs) hopen
    exact (hdead sr hsr hmarked).2 htranslates
  · refine ⟨_, _, rfl, duelStart_grantCalls rfl, .cons ?_ rfl (.cons ?_ rfl (.cons ?_ rfl
      (.cons ?_ rfl (.nil _)))), fun hdead => ?_⟩
    · exact nofun
    · intro _ sr hsr hres
      cases hsr
      cases hres
    · exact nofun
    · rintro t ⟨⟩
    · exact (hdead _ rfl rfl).2
        ⟨1, _, 0, 1, 1, _, 0x10000000, rfl, rfl, .plain rfl rfl (by decide), rfl, by decide⟩

end Rhype
