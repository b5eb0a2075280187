import Rhype.Machine.Run
import Rhype.Pairing.Basic
import Rhype.Vterm.Basic

/-!
# What the calls keep of the terminals

A terminal that is found by its number exists, partners are paired with each other, one of them a
server and the other one a client, and a server has the two queues of its page or none.  A server
loses its queues when the controlling partition frees its client with `vts_free`, and has nothing
that it could set back when it is released then.

* `VtOk`: the invariant, which every call keeps.
-/

namespace Rhype

open Function VtSys

/-! ### The invariant -/

namespace VtSys

def partner (s : VtSys) (v : VtId) : Option VtId := (s.vt v).bind Vt.vtPartner

def server (s : VtSys) (v : VtId) : Option Bool := (s.vt v).map vtIsserver

end VtSys

/-- The server has the queues of its page. -/
def HasQueues (s : VtSys) (v : VtId) (vt : Vt) : Prop :=
  vt.vtGet = some (v, false) ∧ vt.vtPut = some (v, true) ∧ (s.page v).isSome = true

/-- What holds of the terminals between two calls. -/
structure VtOk (s : VtSys) : Prop where
  dev : ∀ n v, s.dev n = some v → ∃ vt, s.vt v = some vt ∧ vt.vtInterrupt = n
  paired : Pairing s.partner
  kinds : ∀ v p, s.partner v = some p → ∃ b, s.server v = some b ∧ s.server p = some !b
  queues : ∀ v vt, s.vt v = some vt → vtIsserver vt = true →
    vt.vtGet = none ∧ vt.vtPut = none ∨ HasQueues s v vt
  fresh : ∀ v, s.next ≤ v → s.vt v = none

theorem VtOk.ne_partner {s : VtSys} {v p : VtId} (h : VtOk s) (hp : s.partner v = some p) :
    v ≠ p := by
  rintro rfl
  obtain ⟨b, hb, hnot⟩ := h.kinds v v hp
  cases b <;> simp [hb] at hnot

/-! ### Stores -/

section

variable (s : VtSys) (v : VtId) (vt : Vt)

@[simp]
theorem setVt_vt : (s.setVt v vt).vt = update s.vt v (some vt) := rfl

theorem partner_setVt : (s.setVt v vt).partner = update s.partner v vt.vtPartner := by
  funext x
  by_cases hx : x = v
  · subst hx
    simp [partner]
  · simp [partner, hx]

variable {s v vt}

theorem partner_of_vt (hv : s.vt v = some vt) : s.partner v = vt.vtPartner := by
  rw [partner, hv, Option.bind_some]

theorem server_of_vt (hv : s.vt v = some vt) : s.server v = some (vtIsserver vt) := by
  rw [server, hv, Option.map_some]

theorem vt_of_partner {p : VtId} (hv : s.partner v = some p) :
    ∃ vt, s.vt v = some vt ∧ vt.vtPartner = some p :=
  Option.bind_eq_some_iff.1 hv

end

/-! ### Queues -/

/-- Only the contents of queues differ. -/
structure SameTerminals (s t : VtSys) : Prop where
  dev : t.dev = s.dev
  vt : t.vt = s.vt
  next : t.next = s.next
  page : ∀ v, (t.page v).isSome = (s.page v).isSome

theorem VtOk.of_sameTerminals {s t : VtSys} (h : VtOk s) (hst : SameTerminals s t) : VtOk t := by
  have hpartner : t.partner = s.partner := by
    funext v
    rw [partner, partner, hst.vt]
  have hserver : t.server = s.server := by
    funext v
    rw [server, server, hst.vt]
  refine ⟨?_, ?_, ?_, ?_, ?_⟩
  · rw [hst.dev, hst.vt]
    exact h.dev
  · rw [hpartner]
    exact h.paired
  · rw [hpartner, hserver]
    exact h.kinds
  · intro v vt hv hs
    rw [hst.vt] at hv
    rw [HasQueues, hst.page]
    exact h.queues v vt hv hs
  · rw [hst.next, hst.vt]
    exact h.fresh

theorem SameTerminals.trans {s t u : VtSys} (hst : SameTerminals s t) (htu : SameTerminals t u) :
    SameTerminals s u :=
  ⟨htu.dev.trans hst.dev, htu.vt.trans hst.vt, htu.next.trans hst.next,
    fun v => (htu.page v).trans (hst.page v)⟩

theorem sameTerminals_setFifo (s : VtSys) (f : FifoId) (q : VtFifo) :
    SameTerminals s (s.setFifo f q) := by
  refine ⟨rfl, rfl, rfl, fun v => ?_⟩
  by_cases hv : v = f.1
  · subst hv
    simp [setFifo]
  · simp [setFifo, hv]

theorem sameTerminals_resetFifo {s t : VtSys} {f : Option FifoId} (h : s.resetFifo f = .ok t) :
    SameTerminals s t ∧ t.unpaired = s.unpaired := by
  rw [resetFifo, seq_ok] at h
  obtain ⟨⟨f', q⟩, -, h⟩ := h
  cases h
  exact ⟨sameTerminals_setFifo .., rfl⟩

/-! ### Pairs -/

section

variable {s : VtSys} {v p : VtId} {vt pvt : Vt}

section

variable (h : VtOk s) (hv : s.vt v = some vt)
include h hv

/-- What is left to show when two terminals get other partners and queues. -/
theorem VtOk.setTwo (hp : s.vt p = some pvt) (vt' pvt' : Vt)
    (hvt : vt'.vtInterrupt = vt.vtInterrupt ∧ vt'.vtDmaSize = vt.vtDmaSize)
    (hpvt : pvt'.vtInterrupt = pvt.vtInterrupt ∧ pvt'.vtDmaSize = pvt.vtDmaSize)
    (hpaired : Pairing (update (update s.partner v vt'.vtPartner) p pvt'.vtPartner))
    (hkinds : ∀ x y, update (update s.partner v vt'.vtPartner) p pvt'.vtPartner x = some y →
      ∃ b, s.server x = some b ∧ s.server y = some !b)
    (hqv : vtIsserver vt = true → vt'.vtGet = none ∧ vt'.vtPut = none ∨ HasQueues s v vt')
    (hqp : vtIsserver pvt = true → pvt'.vtGet = none ∧ pvt'.vtPut = none ∨ HasQueues s p pvt') :
    VtOk ((s.setVt v vt').setVt p pvt') := by
  have hserver : ((s.setVt v vt').setVt p pvt').server = s.server := by
    funext x
    simp only [server, setVt_vt, update_apply]
    split_ifs with hxp hxv
    · simp [hxp, hp, vtIsserver, hpvt.2]
    · simp [hxv, hv, vtIsserver, hvt.2]
    · rfl
  refine ⟨fun n x hn => ?_, ?_, ?_, fun x xt hx hs => ?_, fun x hle => ?_⟩
  · obtain ⟨xt, hx, hint⟩ := h.dev n x hn
    simp only [setVt_vt, update_apply]
    split_ifs with hxp hxv
    · cases hp.symm.trans (hxp ▸ hx)
      exact ⟨pvt', rfl, hpvt.1.trans hint⟩
    · cases hv.symm.trans (hxv ▸ hx)
      exact ⟨vt', rfl, hvt.1.trans hint⟩
    · exact ⟨xt, hx, hint⟩
  · rwa [partner_setVt, partner_setVt]
  · rwa [partner_setVt, partner_setVt, hserver]
  · simp only [setVt_vt, update_apply] at hx
    split_ifs at hx with hxp hxv
    · cases hx
      rw [vtIsserver, hpvt.2] at hs
      exact hxp ▸ hqp hs
    · cases hx
      rw [vtIsserver, hvt.2] at hs
      exact hxv ▸ hqv hs
    · exact h.queues x xt hx hs
  · have hx := h.fresh x hle
    simp only [setVt_vt, update_apply]
    split_ifs with hxp hxv
    · cases hp.symm.trans (hxp ▸ hx)
    · cases hv.symm.trans (hxv ▸ hx)
    · exact hx

/-- A pair is taken apart; the partner keeps its queues or loses both of them. -/
theorem VtOk.unpair (hvp : vt.vtPartner = some p)
    (hp : s.vt p = some pvt) (pvt' : Vt) (hnone : pvt'.vtPartner = none)
    (hpvt : pvt'.vtInterrupt = pvt.vtInterrupt ∧ pvt'.vtDmaSize = pvt.vtDmaSize)
    (hq : pvt'.vtGet = pvt.vtGet ∧ pvt'.vtPut = pvt.vtPut ∨ pvt'.vtGet = none ∧ pvt'.vtPut = none) :
    VtOk ((s.setVt p pvt').setVt v { vt with vtPartner := none }) := by
  have hpart : s.partner v = some p := (partner_of_vt hv).trans hvp
  refine h.setTwo hp hv _ _ hpvt ⟨rfl, rfl⟩ ?_ ?_ ?_ (h.queues v vt hv)
  · rw [hnone]
    exact h.paired.unpair hpart
  · intro x y hxy
    rw [hnone] at hxy
    simp only [update_apply] at hxy
    split_ifs at hxy
    exact h.kinds x y hxy
  · intro hs
    rcases hq with ⟨hget, hput⟩ | hnone
    · rw [HasQueues, hget, hput]
      exact h.queues p pvt hp hs
    · exact .inl hnone

theorem VtOk.pair (hp : s.vt p = some pvt)
    (hserver : vtIsserver vt = true) (hclient : vtIsserver pvt = false)
    (hvn : vt.vtPartner = none) (hpn : pvt.vtPartner = none) (get put : Option FifoId) :
    VtOk ((s.setVt v { vt with vtPartner := some p }).setVt p
      { pvt with vtPartner := some v, vtPut := put, vtGet := get }) := by
  refine h.setTwo hv hp _ _ ⟨rfl, rfl⟩ ⟨rfl, rfl⟩ ?_ ?_ (h.queues v vt hv) ?_
  · exact h.paired.pair ((partner_of_vt hv).trans hvn) ((partner_of_vt hp).trans hpn)
  · intro x y hxy
    simp only [update_apply] at hxy
    have hsv : s.server v = some true := by rw [server_of_vt hv, hserver]
    have hsp : s.server p = some false := by rw [server_of_vt hp, hclient]
    split_ifs at hxy with hxp hxv
    · cases hxy
      exact ⟨false, hxp ▸ hsp, hsv⟩
    · cases hxy
      exact ⟨true, hxv ▸ hsv, hsp⟩
    · exact h.kinds x y hxy
  · exact fun hs => absurd (hclient.symm.trans hs) nofun

end

/-! ### Terminals that come and go -/

variable {t : VtSys} {page : VtId → Option (Bool → VtFifo)}

/-- What is left to show when a terminal without a partner comes or goes. -/
theorem VtOk.replace (h : VtOk s) (hkeep : ∀ x, x ≠ v → t.vt x = s.vt x ∧ t.page x = s.page x)
    (hs : s.partner v = none) (ht : t.partner v = none)
    (hdev : ∀ n x, t.dev n = some x →
      (∃ vt, x = v ∧ t.vt v = some vt ∧ vt.vtInterrupt = n) ∨ x ≠ v ∧ s.dev n = some x)
    (hqueues : ∀ vt, t.vt v = some vt → vtIsserver vt = true → HasQueues t v vt)
    (hfresh : ∀ x, t.next ≤ x → t.vt x = none) : VtOk t := by
  have hpartner : t.partner = s.partner := by
    funext x
    rcases eq_or_ne x v with rfl | hx
    · rw [hs, ht]
    · rw [partner, partner, (hkeep x hx).1]
  refine ⟨?_, hpartner ▸ h.paired, ?_, ?_, hfresh⟩
  · intro n x hn
    rcases hdev n x hn with ⟨xt, rfl, hx⟩ | ⟨hxv, hx⟩
    · exact ⟨xt, hx⟩
    · rw [(hkeep x hxv).1]
      exact h.dev n x hx
  · intro x p hx
    rw [hpartner] at hx
    have hxv : x ≠ v := by
      rintro rfl
      cases hs.symm.trans hx
    have hpv : p ≠ v := fun hpv => h.paired.ne_some_of_none hs x (hpv ▸ hx)
    rw [server, server, (hkeep x hxv).1, (hkeep p hpv).1]
    exact h.kinds x p hx
  · intro x xt hx hserver
    rcases eq_or_ne x v with rfl | hxv
    · exact .inr (hqueues xt hx hserver)
    · rw [HasQueues, (hkeep x hxv).2]
      exact h.queues x xt ((hkeep x hxv).1 ▸ hx) hserver

theorem VtOk.drop (h : VtOk s) (page : VtId → Option (Bool → VtFifo)) (hv : s.vt v = some vt)
    (hnone : s.partner v = none) (hpage : ∀ x, x ≠ v → page x = s.page x) :
    VtOk { s.drop v vt with page := page } := by
  have hgone : (s.drop v vt).vt v = none := update_self ..
  refine h.replace (fun x hx => ⟨update_of_ne hx .., hpage x hx⟩) hnone ?_ ?_ ?_ ?_
  · exact congrArg (·.bind Vt.vtPartner) hgone
  · intro n x hn
    by_cases hnv : n = vt.vtInterrupt
    · exact absurd hn (by simp [VtSys.drop, hnv])
    have hx : s.dev n = some x := by simpa [VtSys.drop, hnv] using hn
    refine .inr ⟨?_, hx⟩
    rintro rfl
    obtain ⟨xt, hxt, hint⟩ := h.dev n x hx
    cases hv.symm.trans hxt
    exact hnv hint.symm
  · exact fun _ hx => absurd (hgone.symm.trans hx) nofun
  · intro x hle
    rcases eq_or_ne x v with rfl | hxv
    · exact hgone
    · exact (update_of_ne hxv ..).trans (h.fresh x hle)

/-- A new terminal without a partner, under a number that was free; a server has its page. -/
theorem VtOk.acquire {n : Nat} {unpaired : Links (Option VtId)} (h : VtOk s)
    (hint : vt.vtInterrupt = n) (hnone : vt.vtPartner = none)
    (hpage : ∀ x, x ≠ s.next → page x = s.page x)
    (hserver : vtIsserver vt = true → vt.vtGet = some (s.next, false) ∧
      vt.vtPut = some (s.next, true) ∧ (page s.next).isSome = true) :
    VtOk { s.setVt s.next vt with
      dev := update s.dev n (some s.next)
      page := page
      unpaired := unpaired
      next := s.next + 1 } := by
  have hfree : s.vt s.next = none := h.fresh s.next le_rfl
  have hnew : (s.setVt s.next vt).vt s.next = some vt := update_self ..
  refine h.replace (v := s.next) (fun x hx => ⟨update_of_ne hx .., hpage x hx⟩) ?_ ?_ ?_ ?_ ?_
  · rw [partner, hfree, Option.bind_none]
  · exact (congrArg (·.bind Vt.vtPartner) hnew).trans hnone
  · intro m x hm
    by_cases hmn : m = n
    · subst hmn
      exact .inl ⟨vt, by simpa using hm.symm, hnew, hint⟩
    have hx : s.dev m = some x := by simpa [hmn] using hm
    refine .inr ⟨?_, hx⟩
    rintro rfl
    obtain ⟨xt, hxt, -⟩ := h.dev m _ hx
    cases hfree.symm.trans hxt
  · intro xt hx hs
    cases hnew.symm.trans hx
    exact hserver hs
  · intro x hle
    have hgt : s.next < x := hle
    exact (update_of_ne hgt.ne' ..).trans (h.fresh x hgt.le)

end

end Rhype
