import Rhype.Ring.Equiv
import Rhype.Vterm.Equiv.Invariant

/-!
# The list of the clients without a partner

A client goes on the list `vt_unpaired` when it is acquired and leaves it when it is registered.
The cell of a client that leaves it is not set back, and a client that is released while it is on
the list stays there.  So the list is right only as long as nobody releases a client without a
partner, or frees or releases a server that has one; `Gentle` is the condition on a call.
-/

namespace Rhype

open Function List

/-- A client without a partner. -/
def Idle (s : VtSys) (v : VtId) : Prop := s.server v = some false ∧ s.partner v = none

/-- The list has exactly the clients without a partner. -/
def UnpairedRing (s : VtSys) : Prop :=
  ∃ vs : List VtId, s.unpaired.IsRing none (vs.map some) ∧ ∀ v, v ∈ vs ↔ Idle s v

/-- A terminal that is freed is a server without a partner, and one that is released is a server
without or a client with a partner. -/
def Gentle (s : VtSys) : VtCall → Prop
  | .free os ua => os = s.ctrlOs → ∀ v vt, vtGet s ua = .ok (some (v, vt)) →
      vtIsserver vt = true ∧ vt.vtPartner = none
  | .release os liobn => ∀ v vt, vtGet s (liobn.setWidth 64) = .ok (some (v, vt)) →
      vt.vtOwner = some os → (vtIsserver vt = true ↔ vt.vtPartner = none)
  | _ => True

/-- What a call keeps. -/
def Keeps (s : VtSys) (c : VtCall) (t : VtSys) : Prop :=
  VtOk t ∧ (Gentle s c → UnpairedRing s → UnpairedRing t)

section

variable {s t : VtSys} {v p : VtId} {vt pvt : Vt}

theorem idle_congr (hvt : t.vt v = s.vt v) : Idle t v ↔ Idle s v := by
  rw [Idle, VtSys.server, VtSys.partner, hvt]
  rfl

theorem idle_of_vt (hv : s.vt v = some vt) :
    Idle s v ↔ vtIsserver vt = false ∧ vt.vtPartner = none := by
  rw [Idle, server_of_vt hv, partner_of_vt hv, Option.some_inj]

section

variable (h : UnpairedRing s) (hun : t.unpaired = s.unpaired)
include h hun

theorem UnpairedRing.of_vt (hidle : ∀ v, Idle t v ↔ Idle s v) : UnpairedRing t := by
  obtain ⟨vs, hring, hmem⟩ := h
  exact ⟨vs, hun ▸ hring, fun v => (hmem v).trans (hidle v).symm⟩

/-- A terminal that is not on the list changes into one that should not be there either. -/
theorem UnpairedRing.of_ne (hkeep : ∀ x, x ≠ v → t.vt x = s.vt x) (hs : ¬ Idle s v)
    (ht : ¬ Idle t v) : UnpairedRing t := by
  refine h.of_vt hun fun x => ?_
  rcases eq_or_ne x v with rfl | hx
  · exact iff_of_false ht hs
  · exact idle_congr (hkeep x hx)

theorem UnpairedRing.drop (hkeep : ∀ x, x ≠ v → t.vt x = s.vt x) (hs : ¬ Idle s v)
    (hgone : t.vt v = none) : UnpairedRing t := by
  refine h.of_ne hun hkeep hs ?_
  rw [Idle, VtSys.server, hgone]
  rintro ⟨⟨⟩, -⟩

end

theorem UnpairedRing.pair (h : UnpairedRing s) (hv : ¬ Idle s v) (hp : Idle s p)
    (hun : t.unpaired = s.unpaired.detach (some p)) (hkeep : ∀ x, x ≠ v → x ≠ p → t.vt x = s.vt x)
    (htv : ¬ Idle t v) (htp : ¬ Idle t p) : UnpairedRing t := by
  obtain ⟨vs, hring, hmem⟩ := h
  obtain ⟨l1, l2, rfl⟩ := append_of_mem ((hmem p).2 hp)
  have hnodup : p ∉ l1 ++ l2 :=
    (nodup_cons.1 (nodup_middle.1 (nodup_cons.1 hring.1).2.of_map)).1
  rw [map_append] at hring
  refine ⟨l1 ++ l2, by rw [hun, map_append]; exact hring.detach_mem, fun x => ?_⟩
  rcases eq_or_ne x p with rfl | hxp
  · exact iff_of_false hnodup htp
  have hx : x ∈ l1 ++ l2 ↔ Idle s x := by
    rw [← hmem x, mem_append, mem_append, mem_cons, or_iff_right hxp]
  rw [hx]
  rcases eq_or_ne x v with rfl | hxv
  · exact iff_of_false hv htv
  · exact (idle_congr (hkeep x hxv hxp)).symm

/-- A new terminal goes on the list if it is a client. -/
theorem UnpairedRing.acquire (h : UnpairedRing s) (hv : s.vt v = none)
    (hkeep : ∀ x, x ≠ v → t.vt x = s.vt x)
    (hun : t.unpaired = s.unpaired.init (some v) ∧ ¬ Idle t v ∨
      t.unpaired = (s.unpaired.init (some v)).insBefore (some v) none ∧ Idle t v) :
    UnpairedRing t := by
  obtain ⟨vs, hring, hmem⟩ := h
  have hnot : v ∉ vs := by
    rw [hmem, Idle, VtSys.server, hv]
    rintro ⟨⟨⟩, -⟩
  have hcell : some v ∉ none :: vs.map some := by simpa using hnot
  have hinit := hring.init_of_notMem hcell
  rcases hun with ⟨hun, ht⟩ | ⟨hun, ht⟩
  · refine ⟨vs, hun ▸ hinit, fun x => ?_⟩
    rcases eq_or_ne x v with rfl | hx
    · exact iff_of_false hnot ht
    · exact (hmem x).trans (idle_congr (hkeep x hx)).symm
  refine ⟨vs ++ [v], ?_, fun x => ?_⟩
  · rw [hun, map_append]
    exact hinit.insBefore_head (Links.isRing_init _ _) hcell
  · rcases eq_or_ne x v with rfl | hx
    · exact iff_of_true (by simp) ht
    · rw [idle_congr (hkeep x hx), ← hmem x]
      simp [hx]

end

end Rhype
