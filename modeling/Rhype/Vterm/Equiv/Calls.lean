import Rhype.Vterm.Equiv.Unpaired

/-!
# The calls of the terminals

`vtReleaseInternal_released` says what a release does: it always succeeds, whatever is in the queues
and whoever is the partner, since the cursors are set back before the queue of the server is looked
at.  Only a server that has lost its queues cannot be released (`vtReleaseInternal_null`).
-/

namespace Rhype

open Function

section

variable {s t : VtSys} {v p : VtId} {vt : Vt} {os : OsId} {liobn : BitVec 32} {rc : Sval}
  {c : VtCall} {ua chan : Uval}

/-! ### Lookup -/

theorem vt_of_vtGet (h : vtGet s ua = .ok (some (v, vt))) : s.vt v = some vt := by
  unfold vtGet at h
  dsimp only at h
  split_ifs at h with hclass hother
  · rcases hx : xirGetDevice s.dev (ua.setWidth 32) with _ | w
    · rw [hx] at h
      cases h
    rw [hx] at h
    simp only [seq_ok, live_ok] at h
    obtain ⟨wt, hw, h⟩ := h
    cases h
    exact hw
  · cases h

/-! ### The partner -/

theorem setVt_clear (hv : s.vt v = some vt) (hnone : vt.vtPartner = none) :
    s.setVt v { vt with vtPartner := none } = s := by
  have hself : ({ vt with vtPartner := none } : Vt) = vt := by rw [← hnone]
  rw [hself, VtSys.setVt, ← hv, update_eq_self]

section

variable (h : VtOk s) (hv : s.vt v = some vt)
include h hv

theorem VtOk.vt_partner (hp : vt.vtPartner = some p) :
    v ≠ p ∧ ∃ pvt, s.vt p = some pvt ∧ vtIsserver pvt = !vtIsserver vt := by
  have hpart := (partner_of_vt hv).trans hp
  obtain ⟨b, hb, hnot⟩ := h.kinds v p hpart
  obtain ⟨pvt, hpvt, hserver⟩ := Option.map_eq_some_iff.1 hnot
  rw [server_of_vt hv, Option.some_inj] at hb
  exact ⟨h.ne_partner hpart, pvt, hpvt, hb ▸ hserver⟩

theorem vtsUnpair_spec :
    ∃ t, vtsUnpair s vt.vtPartner = .ok t ∧ t.vt v = some vt ∧ t.page = s.page ∧
      VtOk (t.setVt v { vt with vtPartner := none }) ∧ (vt.vtPartner = none → t = s) := by
  rcases hp : vt.vtPartner with _ | p
  · exact ⟨s, rfl, hv, rfl, (setVt_clear hv hp).symm ▸ h, fun _ => rfl⟩
  obtain ⟨hne, pvt, hpvt, -⟩ := h.vt_partner hv hp
  have hx : vtsUnpair s (some p) = .ok
      { s.setVt p { pvt with vtPut := none, vtGet := none, vtPartner := none } with
        unpaired := s.unpaired.insBefore (some p) none } := by
    rw [vtsUnpair, hpvt]
    rfl
  refine ⟨_, hx, ?_, rfl, ?_, nofun⟩
  · simp [hne, hv]
  · have hok := h.unpair hv hp hpvt { pvt with vtPut := none, vtGet := none, vtPartner := none }
      rfl ⟨rfl, rfl⟩ (.inr ⟨rfl, rfl⟩)
    exact hok.of_sameTerminals ⟨rfl, rfl, rfl, fun _ => rfl⟩

theorem vtcUnpair_spec (hclient : vtIsserver vt = false) :
    ∃ t, vtcUnpair s vt.vtPartner = .ok t ∧ t.vt v = some vt ∧
      VtOk (t.setVt v { vt with vtPartner := none }) ∧ (UnpairedRing s → UnpairedRing t) := by
  rcases hp : vt.vtPartner with _ | p
  · exact ⟨s, rfl, hv, (setVt_clear hv hp).symm ▸ h, id⟩
  obtain ⟨hne, pvt, hpvt, hserver⟩ := h.vt_partner hv hp
  have hx : vtcUnpair s (some p) = .ok (s.setVt p { pvt with vtPartner := none }) := by
    rw [vtcUnpair, hpvt]
    rfl
  refine ⟨_, hx, ?_, ?_, fun hring => hring.of_ne (v := p) rfl (fun x hx => ?_) ?_ ?_⟩
  · simp [hne, hv]
  · exact h.unpair hv hp hpvt _ rfl ⟨rfl, rfl⟩ (.inl ⟨rfl, rfl⟩)
  · exact update_of_ne hx ..
  -- the partner is a server
  · simp [idle_of_vt hpvt, hserver, hclient]
  · rw [idle_of_vt (update_self ..)]
    exact fun hi => absurd (hi.1.symm.trans hserver) (by simp [hclient])

end

/-! ### The queues -/

section

variable {b : Bool} {q : Bool → VtFifo} (hq : s.page v = some q)
include hq

theorem fifo_eq : s.fifo (some (v, b)) = .ok ((v, b), q b) := by
  rw [VtSys.fifo, nonNull, ok_bind, hq]
  rfl

theorem resetFifo_eq : s.resetFifo (some (v, b)) = .ok (s.setFifo (v, b) (q b).reset) := by
  rw [VtSys.resetFifo, fifo_eq hq]
  rfl

theorem setFifo_page (f : VtFifo) : (s.setFifo (v, b) f).page v = some (update q b f) := by
  simp [VtSys.setFifo, hq]

end

section

variable (h : VtOk s) (hv : s.vt v = some vt)
include h hv

/-- `vts_free_internal`: the terminal is unpaired, and then its queues are set back. -/
theorem vtsFreeInternal_eq :
    ∃ t, VtOk t ∧ t.vt v = some { vt with vtPartner := none } ∧ t.page = s.page ∧
      (vt.vtPartner = none → t = s) ∧
      vtsFreeInternal s v = t.resetFifo vt.vtGet >>= fun u => u.resetFifo vt.vtPut := by
  obtain ⟨t, ht, htv, hpage, hok, hsame⟩ := vtsUnpair_spec h hv
  refine ⟨_, hok, update_self .., hpage, fun hnone => ?_, ?_⟩
  · exact (setVt_clear htv hnone).trans (hsame hnone)
  · rw [vtsFreeInternal, hv]
    simp only [live, ok_bind, ht, htv]

theorem vtsFreeInternal_queues (hqueues : HasQueues s v vt) :
    ∃ t q, vtsFreeInternal s v = .ok t ∧ t.page v = some q ∧ (q false).vtfR = (q false).vtfW := by
  obtain ⟨t, -, -, hpage, -, hx⟩ := vtsFreeInternal_eq h hv
  obtain ⟨hget, hput, hsome⟩ := hqueues
  obtain ⟨q, hq⟩ := Option.isSome_iff_exists.1 hsome
  have hq1 : t.page v = some q := (congrFun hpage v).trans hq
  have hq2 := setFifo_page (b := false) hq1 (q false).reset
  rw [hget, hput, resetFifo_eq hq1, ok_bind, resetFifo_eq hq2] at hx
  refine ⟨_, _, hx, setFifo_page hq2 _, ?_⟩
  simp [VtFifo.reset]

theorem vtsFreeInternal_null (hget : vt.vtGet = none) : vtsFreeInternal s v = .error .null := by
  obtain ⟨t, -, -, -, -, hx⟩ := vtsFreeInternal_eq h hv
  rw [hx, hget]
  rfl

theorem vtsFreeInternal_ok (hx : vtsFreeInternal s v = .ok t) :
    VtOk t ∧ t.vt v = some { vt with vtPartner := none } ∧
      (vt.vtPartner = none → UnpairedRing s → UnpairedRing t) := by
  obtain ⟨u, hok, huv, -, hsame, heq⟩ := vtsFreeInternal_eq h hv
  rw [heq, seq_ok] at hx
  obtain ⟨u1, h1, h2⟩ := hx
  obtain ⟨hs1, hl1⟩ := sameTerminals_resetFifo h1
  obtain ⟨hs2, hl2⟩ := sameTerminals_resetFifo h2
  have hst := hs1.trans hs2
  refine ⟨hok.of_sameTerminals hst, hst.vt ▸ huv, fun hnone hring => ?_⟩
  exact (hsame hnone ▸ hring).of_vt (hl2.trans hl1) fun x => idle_congr (congrFun hst.vt x)

end

/-! ### Release -/

/-- The terminal cannot be released: it is a server that has lost its queues. -/
def QueuesLost (vt : Vt) : Prop := vtIsserver vt = true ∧ vt.vtGet = none

instance (vt : Vt) : Decidable (QueuesLost vt) := inferInstanceAs (Decidable (_ ∧ _))

/-- **A release of a terminal** with its queues, whatever is in them, and of any client: the
terminal is gone. -/
theorem vtReleaseInternal_released (h : VtOk s) (hv : s.vt v = some vt) (hq : ¬ QueuesLost vt) :
    ∃ t, vtReleaseInternal s v = .ok (1, t) ∧ VtOk t ∧ t.vt v = none ∧
      ((vtIsserver vt = true ↔ vt.vtPartner = none) → UnpairedRing s → UnpairedRing t) := by
  cases hs : vtIsserver vt with
  | true =>
    have hget : ¬ (vt.vtGet = none ∧ vt.vtPut = none) := fun hc => hq ⟨hs, hc.1⟩
    have hqueues : HasQueues s v vt := (h.queues v vt hv hs).resolve_left hget
    obtain ⟨t, q, ht, hpage, hempty⟩ := vtsFreeInternal_queues h hv hqueues
    obtain ⟨hok, htv, hkeep⟩ := vtsFreeInternal_ok h hv ht
    have hfree : vtfFree t (some (v, false)) =
        .ok (true, { t with page := update t.page v none }) := by
      rw [vtfFree, fifo_eq hpage]
      exact if_neg (not_not_intro hempty)
    have hdrop := hok.drop (update t.page v none) htv
      ((partner_of_vt htv).trans rfl) (fun x hx => update_of_ne hx ..)
    refine ⟨_, ?_, hdrop, update_self .., fun hiff hring => ?_⟩
    · rw [vtReleaseInternal, hv]
      simp only [live, ok_bind, hs, if_true, ht, htv, hqueues.1, hfree, Bool.not_true,
        Bool.false_eq_true, if_false]
      rfl
    · refine (hkeep (hiff.1 rfl) hring).drop rfl (fun x hx => update_of_ne hx ..) ?_
        (update_self ..)
      rw [idle_of_vt htv]
      exact fun hi => Bool.false_ne_true (hi.1.symm.trans hs)
  | false =>
    obtain ⟨t, ht, htv, hok, hkeep⟩ := vtcUnpair_spec h hv hs
    have hdrop := hok.drop t.page (update_self ..)
      ((partner_of_vt (update_self ..)).trans rfl) (fun _ _ => rfl)
    refine ⟨t.drop v vt, ?_, ?_, update_self .., fun hiff hring => ?_⟩
    · rw [vtReleaseInternal, hv]
      simp only [live, ok_bind, hs, ht]
      rfl
    · refine hdrop.of_sameTerminals ⟨rfl, ?_, rfl, fun _ => rfl⟩
      exact (update_idem ..).symm
    · refine (hkeep hring).drop rfl (fun x hx => update_of_ne hx ..) ?_ (update_self ..)
      rw [idle_of_vt htv]
      exact fun hi => Bool.false_ne_true (hiff.2 hi.2)

theorem vtReleaseInternal_null (h : VtOk s) (hv : s.vt v = some vt) (hq : QueuesLost vt) :
    vtReleaseInternal s v = .error .null := by
  rw [vtReleaseInternal, hv]
  simp only [live, ok_bind, hq.1, vtsFreeInternal_null h hv hq.2]
  rfl

theorem vtRelease_eq (h : VtOk s) (hget : vtGet s (liobn.setWidth 64) = .ok (some (v, vt)))
    (howner : vt.vtOwner = some os) :
    if QueuesLost vt then vtRelease s os liobn = .error .null
    else ∃ t, vtRelease s os liobn = .ok (hSuccess, t) ∧ t.vt v = none ∧
      Keeps s (.release os liobn) t := by
  have hv := vt_of_vtGet hget
  split_ifs with hq
  · rw [vtRelease, hget]
    simp only [ok_bind, howner, ne_eq, vtReleaseInternal_null h hv hq]
    rfl
  obtain ⟨t, ht, hok, hgone, hkeep⟩ := vtReleaseInternal_released h hv hq
  refine ⟨t, ?_, hgone, hok, fun hgentle => hkeep (hgentle v vt hget howner)⟩
  rw [vtRelease, hget]
  simp only [ok_bind, howner, ne_eq, ht]
  rfl

theorem vtRelease_refused {o : Option (VtId × Vt)} (hget : vtGet s (liobn.setWidth 64) = .ok o)
    (howner : ∀ v vt, o = some (v, vt) → vt.vtOwner ≠ some os) :
    vtRelease s os liobn = .ok (hParameter, s) := by
  rw [vtRelease, hget]
  cases o with
  | none => rfl
  | some x =>
    obtain ⟨v, vt⟩ := x
    exact if_pos (howner v vt rfl)

/-! ### Every call keeps the invariant -/

theorem Keeps.refl (h : VtOk s) : Keeps s c s := ⟨h, fun _ => id⟩

theorem vtRelease_keeps (h : VtOk s) (hx : vtRelease s os liobn = .ok (rc, t)) :
    Keeps s (.release os liobn) t := by
  rcases hget : vtGet s (liobn.setWidth 64) with e | o
  · rw [vtRelease, hget] at hx
    cases hx
  by_cases hown : ∃ v vt, o = some (v, vt) ∧ vt.vtOwner = some os
  · obtain ⟨v, vt, rfl, howner⟩ := hown
    have hrel := vtRelease_eq h hget howner
    split_ifs at hrel
    · cases hrel.symm.trans hx
    · obtain ⟨u, hu, -, hkeeps⟩ := hrel
      cases hu.symm.trans hx
      exact hkeeps
  · rw [vtRelease_refused hget fun v vt ho hos => hown ⟨v, vt, ho, hos⟩] at hx
    cases hx
    exact .refl h

theorem vtsFree_keeps (h : VtOk s) (hx : vtsFree s os ua = .ok (rc, t)) :
    Keeps s (.free os ua) t := by
  unfold vtsFree at hx
  split_ifs at hx with hctrl
  · cases hx
    exact .refl h
  · cases hx
    exact .refl h
  obtain ⟨_ | x, hget, hx⟩ := of_seq hx
  · cases hx
    exact .refl h
  obtain ⟨u, hu, hx⟩ := of_seq hx
  cases hx
  obtain ⟨hok, -, hkeep⟩ := vtsFreeInternal_ok h (vt_of_vtGet hget) hu
  exact ⟨hok, fun hgentle => hkeep (hgentle (not_not.1 hctrl) _ _ hget).2⟩

theorem vtsRegister_keeps {pua : Uval} {pos : Option OsId} (h : VtOk s)
    (hx : vtsRegister s os ua pos pua = .ok (rc, t)) : Keeps s (.register os ua pos pua) t := by
  obtain ⟨_ | ⟨v, vt⟩, hget, hx⟩ := of_seq hx
  · cases hx
    exact .refl h
  rcases pos with _ | pos
  · dsimp only at hx
    split_ifs at hx <;> cases hx <;> exact .refl h
  dsimp only at hx
  split_ifs at hx with howner hserver
  · cases hx
    exact .refl h
  · cases hx
    exact .refl h
  obtain ⟨_ | ⟨p, pvt⟩, hpget, hx⟩ := of_seq hx
  · cases hx
    exact .refl h
  dsimp only at hx
  split_ifs at hx with hclient hfree
  · cases hx
    exact .refl h
  · cases hx
    have hv := vt_of_vtGet hget
    have hp := vt_of_vtGet hpget
    have hserver : vtIsserver vt = true := by simpa using hserver
    have hclient : vtIsserver pvt = false := by
      simpa using fun hs => hclient (.inr (.inl hs))
    have hok := h.pair hv hp hserver hclient hfree.1 hfree.2 vt.vtPut vt.vtGet
    refine ⟨hok.of_sameTerminals ⟨rfl, rfl, rfl, fun _ => rfl⟩, fun _ hring => ?_⟩
    have hvp : v ≠ p := by
      rintro rfl
      cases hv.symm.trans hp
      exact Bool.false_ne_true (hclient.symm.trans hserver)
    refine hring.pair (v := v) (p := p) ?_ ((idle_of_vt hp).2 ⟨hclient, hfree.2⟩) rfl
      (fun x hxv hxp => (update_of_ne hxp ..).trans (update_of_ne hxv ..)) ?_ ?_
    · simp [idle_of_vt hv, hserver]
    · rw [idle_of_vt ((update_of_ne hvp ..).trans (update_self ..))]
      exact nofun
    · rw [idle_of_vt (update_self ..)]
      exact nofun
  · cases hx
    exact .refl h

/-- `vt_acquire_internal` gives a terminal that was not there. -/
theorem vtAcquireInternal_eq {dma : Uval} {get put : Option FifoId}
    (hx : vtAcquireInternal s os dma get put = .ok (v, t)) :
    v = s.next ∧ ∃ n, t =
      { s.setVt s.next ⟨some os, n, true, dma, none, get, put⟩ with
        dev := update s.dev n (some s.next)
        unpaired := s.unpaired.init (some s.next)
        next := s.next + 1 } := by
  unfold vtAcquireInternal at hx
  cases hn : (List.range 0x100).find? fun n => (s.dev n).isNone with
  | none =>
    rw [hn] at hx
    cases hx
  | some n =>
    rw [hn] at hx
    cases hx
    exact ⟨rfl, n, rfl⟩

theorem vtAcquire_keeps {dmaRange : Uval} (h : VtOk s)
    (hx : vtAcquire s os dmaRange = .ok (rc, t)) : Keeps s (.acquire os dmaRange) t := by
  have hfree := h.fresh s.next le_rfl
  unfold vtAcquire vtcAcquire vtsAcquire at hx
  split_ifs at hx
  · obtain ⟨⟨v, u⟩, hu, hx⟩ := of_seq hx
    cases hx
    obtain ⟨rfl, n, rfl⟩ := vtAcquireInternal_eq hu
    refine ⟨h.acquire rfl rfl (fun _ _ => rfl) (fun hs => by simp [vtIsserver] at hs),
      fun _ hring => hring.acquire hfree (fun x hx => update_of_ne hx ..) (.inr ⟨rfl, ?_⟩)⟩
    exact (idle_of_vt (update_self ..)).2 ⟨rfl, rfl⟩
  obtain ⟨⟨v, u⟩, hu, hx⟩ := of_seq hx
  cases hx
  obtain ⟨rfl, n, rfl⟩ := vtAcquireInternal_eq hu
  refine ⟨h.acquire rfl rfl (fun x hx => update_of_ne hx ..) fun _ => ⟨rfl, rfl, by simp⟩,
    fun _ hring => hring.acquire hfree (fun x hx => update_of_ne hx ..) (.inl ⟨rfl, ?_⟩)⟩
  rw [idle_of_vt (update_self ..)]
  rintro ⟨⟨⟩, -⟩

theorem keeps_setFifo (h : VtOk s) (f : FifoId) (q : VtFifo) : Keeps s c (s.setFifo f q) :=
  ⟨h.of_sameTerminals (sameTerminals_setFifo ..), fun _ hring => hring.of_vt rfl fun _ => .rfl⟩

theorem vtCharPut_keeps {c : Uval} {buf : Nat → BitVec 8} (h : VtOk s)
    (hx : vtCharPut s os chan c buf = .ok (rc, t)) : Keeps s (.put os chan c buf) t := by
  obtain ⟨_ | x, -, hx⟩ := of_seq hx
  · cases hx
    exact .refl h
  dsimp only at hx
  split_ifs at hx
  · cases hx
    exact .refl h
  · cases hx
    exact .refl h
  · obtain ⟨⟨f, q⟩, -, hx⟩ := of_seq hx
    cases hx
    exact keeps_setFifo h f _

theorem vtCharGet_keeps {bs : List (BitVec 8)} (h : VtOk s)
    (hx : vtCharGet s os chan = .ok (rc, bs, t)) : Keeps s (.get os chan) t := by
  obtain ⟨_ | x, -, hx⟩ := of_seq hx
  · cases hx
    exact .refl h
  dsimp only at hx
  split_ifs at hx
  · cases hx
    exact .refl h
  · cases hx
    exact .refl h
  · obtain ⟨⟨f, q⟩, -, hx⟩ := of_seq hx
    cases hx
    exact keeps_setFifo h f _

theorem of_vtStep {x : Hv (Sval × VtSys)}
    (h : (x >>= fun y => .ok y.2) = (.ok t : Hv VtSys)) : ∃ rc, x = .ok (rc, t) := by
  obtain ⟨⟨rc, u⟩, hu, h⟩ := of_seq h
  cases h
  exact ⟨rc, hu⟩

/-- **Every call keeps the invariant**, and a gentle one keeps the list. -/
theorem vtStep_keeps (h : VtOk s) (hx : vtStep s c = .ok t) : Keeps s c t := by
  cases c with
  | acquire os dmaRange =>
    obtain ⟨rc, hx⟩ := of_vtStep hx
    exact vtAcquire_keeps h hx
  | register os ua pos pua =>
    obtain ⟨rc, hx⟩ := of_vtStep hx
    exact vtsRegister_keeps h hx
  | free os ua =>
    obtain ⟨rc, hx⟩ := of_vtStep hx
    exact vtsFree_keeps h hx
  | release os liobn =>
    obtain ⟨rc, hx⟩ := of_vtStep hx
    exact vtRelease_keeps h hx
  | put os chan c buf =>
    obtain ⟨rc, hx⟩ := of_vtStep hx
    exact vtCharPut_keeps h hx
  | get os chan =>
    obtain ⟨⟨rc, bs, u⟩, hu, hx⟩ := of_seq hx
    cases hx
    exact vtCharGet_keeps h hu

theorem vtOk_noTerminals (otherDevice : BitVec 32 → Bool) (ctrlOs : OsId) :
    VtOk (noTerminals otherDevice ctrlOs) :=
  ⟨nofun, .empty, nofun, nofun, fun _ _ => rfl⟩

/-- The invariant holds after every history. -/
theorem vtOk_run {ok : VtSys → VtCall → Prop} {otherDevice : BitVec 32 → Bool} {ctrlOs : OsId}
    {calls : List VtCall} (hrun : Run vtStep ok (noTerminals otherDevice ctrlOs) calls s) :
    VtOk s :=
  hrun.invariant (fun _ _ _ h _ hx => (vtStep_keeps h hx).1) (vtOk_noTerminals _ _)

/-- **The terminals after any history.**  Partners have each other, and the list has exactly the
clients without a partner if every call was gentle. -/
theorem terminals_linked {otherDevice : BitVec 32 → Bool} {ctrlOs : OsId} {calls : List VtCall}
    (hrun : Run vtStep (fun _ _ => True) (noTerminals otherDevice ctrlOs) calls s) :
    (∀ v p, s.partner v = some p → s.partner p = some v ∧ (s.vt p).isSome = true) ∧
      (Run vtStep Gentle (noTerminals otherDevice ctrlOs) calls s → UnpairedRing s) := by
  refine ⟨fun v p hp => ?_, fun hgentle => ?_⟩
  · have hback := (vtOk_run hrun).paired v p hp
    obtain ⟨pvt, hpvt, -⟩ := vt_of_partner hback
    exact ⟨hback, Option.isSome_iff_exists.2 ⟨pvt, hpvt⟩⟩
  · have hkeep : ∀ s c t, VtOk s ∧ UnpairedRing s → Gentle s c → vtStep s c = .ok t →
        VtOk t ∧ UnpairedRing t := by
      rintro s c t ⟨h, hring⟩ hc hx
      exact (vtStep_keeps h hx).imp_right fun hk => hk hc hring
    have hnil : UnpairedRing (noTerminals otherDevice ctrlOs) :=
      ⟨[], Links.isRing_nil_iff.2 ⟨rfl, rfl⟩, fun v => iff_of_false nofun nofun⟩
    exact (hgentle.invariant hkeep ⟨vtOk_noTerminals _ _, hnil⟩).2

end

/-- A client and a server are acquired and paired. -/
def pairedCalls : List VtCall :=
  [.acquire 1 0, .acquire 0 4096, .register 0 0x400001 (some 1) 0x400000]

theorem terminals_linked_paired : ∃ s,
    Run vtStep Gentle (noTerminals (fun _ => false) 0) pairedCalls s ∧
      s.partner 0 = some 1 ∧ s.partner 1 = some 0 ∧ UnpairedRing s := by
  have hrun : Run vtStep Gentle (noTerminals (fun _ => false) 0) pairedCalls _ :=
    .cons trivial rfl (.cons trivial rfl (.cons trivial rfl (.nil _)))
  obtain ⟨hback, hring⟩ := terminals_linked (hrun.mono fun _ _ _ => trivial)
  exact ⟨_, hrun, rfl, (hback 0 1 rfl).1, hring hrun⟩

/-- A client that is released stays on the list. -/
theorem client_stays_listed : ∃ s, Run vtStep (fun _ _ => True) (noTerminals (fun _ => false) 0)
    [.acquire 1 0, .release 1 0x400000] s ∧ ¬ UnpairedRing s := by
  refine ⟨_, .cons trivial rfl (.cons trivial rfl (.nil _)), ?_⟩
  rintro ⟨vs, hring, hmem⟩
  have hnext := hring.next_head
  cases vs with
  | nil => cases hnext
  | cons v vs =>
    cases hnext
    exact absurd ((hmem 0).1 List.mem_cons_self).1 (by decide)

end Rhype
