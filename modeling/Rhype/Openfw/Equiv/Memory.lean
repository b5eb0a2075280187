import Rhype.Machine.Run
import Rhype.Openfw.Memory

/-!
# Claimed ranges are disjoint

`claim` compares the two ends of the new range with every entry.  It does not notice an entry that
the new range encloses, and it does not notice that no entry is left.
-/

namespace Rhype

open Function

def OfMalloc.Has (m : OfMalloc) (a : Nat) : Prop := m.ofmStart.toNat ≤ a ∧ a < m.ofmEnd.toNat

/-- No address is in two ranges. -/
def ClaimsDisjoint (cp : Claimed) : Prop := ∀ i j a, (cp i).Has a → (cp j).Has a → i = j

/-- The range that is claimed overlaps with another one. -/
def ClaimsOverlap (cp : Claimed) : OfReq → Prop
  | .claim virt size _ => ∃ i a, (cp i).Has a ∧ virt.toNat ≤ a ∧ a < virt.toNat + size.toNat
  | .release .. => False

/-- **The condition on a request.**  Its range does not wrap; a range to be claimed encloses no
claimed one, and an entry is empty. -/
def OfOk (cp : Claimed) : OfReq → Prop
  | .claim virt size _ => virt.toNat + size.toNat < 2 ^ 64 ∧
      (∀ i, virt < (cp i).ofmStart → (cp i).ofmStart < (cp i).ofmEnd →
        virt.toNat + size.toNat < (cp i).ofmEnd.toNat) ∧ ∃ i, (cp i).ofmEnd = 0
  | .release virt size => virt.toNat + size.toNat < 2 ^ 64

/-- The request only writes to the table.  It keeps the ranges disjoint, and is refused if it would
overlap with one. -/
def Served (start stop : Uval) (cp : Claimed) (req : OfReq) : Prop :=
  ∃ base cp', ofStep start stop cp req = .ok (base, cp') ∧ ClaimsDisjoint cp' ∧
    (ClaimsOverlap cp req → base = none ∧ cp' = cp)

section

variable {start stop virt size align : Uval} {cp : Claimed}

theorem ClaimsDisjoint.update (hcp : ClaimsDisjoint cp) {m : OfMalloc}
    (hm : ∀ i a, (cp i).Has a → ¬ m.Has a) (e : Fin 64) : ClaimsDisjoint (update cp e m) := by
  intro i j a hi hj
  rw [update_apply] at hi hj
  split_ifs at hi hj with hie hje hje
  · exact hie.trans hje.symm
  · exact absurd hi (hm j a hj)
  · exact absurd hj (hm i a hi)
  · exact hcp i j a hi hj

/-- An overlap without an enclosed range has one of its ends in an entry. -/
theorem hit_of_overlap (hok : OfOk cp (.claim virt size align))
    (hover : ClaimsOverlap cp (.claim virt size align)) :
    ∃ i, (cp i).ofmEnd ≠ 0 ∧ ((cp i).hit virt ∨ (cp i).hit (virt + size)) := by
  obtain ⟨hfit, hinside, -⟩ := hok
  obtain ⟨i, a, ⟨hlo, hhi⟩, hvirt, hend⟩ := hover
  have hinside := hinside i
  refine ⟨i, fun he => ?_, ?_⟩
  · rw [he] at hhi
    exact absurd hhi (Nat.not_lt_zero a)
  · simp only [OfMalloc.hit, Bool.and_eq_true, decide_eq_true_eq]
    bv_omega

theorem claim_served (hcp : ClaimsDisjoint cp) (hok : OfOk cp (.claim virt size align)) :
    Served start stop cp (.claim virt size align) := by
  unfold Served ofStep claim
  dsimp only
  split_ifs with hown hany
  · exact ⟨none, cp, rfl, hcp, fun _ => ⟨rfl, rfl⟩⟩
  · exact ⟨none, cp, rfl, hcp, fun _ => ⟨rfl, rfl⟩⟩
  have hno : ¬ ClaimsOverlap cp (.claim virt size align) := by
    intro hover
    obtain ⟨i, hne, hhit⟩ := hit_of_overlap hok hover
    exact hany (List.any_eq_true.2 ⟨i, List.mem_finRange i, by simpa [hhit] using hne⟩)
  obtain ⟨hfit, -, i, hi⟩ := hok
  cases hfind : (List.finRange 64).find? fun i => (cp i).ofmEnd = 0 with
  | none => exact absurd hi (by simpa using List.find?_eq_none.1 hfind i (List.mem_finRange i))
  | some e =>
    refine ⟨_, _, rfl, hcp.update (fun i a hi hm => hno ⟨i, a, hi, hm.1, ?_⟩) e, (absurd · hno)⟩
    rw [← BitVec.toNat_add_of_lt hfit]
    exact hm.2

theorem release_served (hcp : ClaimsDisjoint cp) : Served start stop cp (.release virt size) := by
  have hrel : ClaimsDisjoint (release start stop cp virt size).2 := by
    unfold release
    split_ifs
    · exact hcp
    split
    · exact hcp.update (m := ⟨0, 0⟩) (fun _ a _ hm => absurd hm.2 (Nat.not_lt_zero a)) _
    · exact hcp
  exact ⟨_, _, rfl, hrel, False.elim⟩

end

/-- **Claimed ranges are disjoint** after every run of requests under the condition, and the next
such request is served. -/
theorem claims_disjoint (start stop : Uval) {reqs : List OfReq} {cp : Claimed}
    (hrun : Run (ofTable start stop) OfOk (fun _ => ⟨0, 0⟩) reqs cp) :
    ClaimsDisjoint cp ∧ ∀ req, OfOk cp req → Served start stop cp req := by
  have hserved : ∀ cp req, ClaimsDisjoint cp → OfOk cp req → Served start stop cp req := by
    intro cp req hcp hok
    cases req with
    | claim => exact claim_served hcp hok
    | release => exact release_served hcp
  have hcp : ClaimsDisjoint cp := by
    refine hrun.invariant (fun cp req cp' hcp hok hx => ?_)
      fun _ _ a hi => absurd hi.2 (Nat.not_lt_zero a)
    obtain ⟨base, cp1, hstep, hcp1, -⟩ := hserved cp req hcp hok
    rw [ofTable, hstep] at hx
    cases hx
    exact hcp1
  exact ⟨hcp, fun req hok => hserved cp req hcp hok⟩

/-- Two ranges are claimed, and a third one that overlaps the first is refused. -/
theorem claims_disjoint_two :
    ∃ cp, Run (ofTable 0 0) OfOk (fun _ => ⟨0, 0⟩)
        [.claim 0x2000 0x1000 0, .claim 0x4000 0x1000 0] cp ∧
      ClaimsDisjoint cp ∧ ClaimsOverlap cp (.claim 0x2800 0x1000 0) ∧
      Served 0 0 cp (.claim 0x2800 0x1000 0) := by
  obtain ⟨cp, hrun, hover, hok⟩ : ∃ cp,
      Run (ofTable 0 0) OfOk (fun _ => ⟨0, 0⟩) [.claim 0x2000 0x1000 0, .claim 0x4000 0x1000 0] cp ∧
        ClaimsOverlap cp (.claim 0x2800 0x1000 0) ∧ OfOk cp (.claim 0x2800 0x1000 0) :=
    ⟨_, .cons ⟨by decide, by decide +kernel, 0, rfl⟩ rfl
      (.cons ⟨by decide, by decide +kernel, 1, rfl⟩ rfl (.nil _)),
      ⟨0, 0x2800, ⟨by decide, by decide⟩, by decide, by decide⟩, by decide, by decide +kernel, 2,
      rfl⟩
  obtain ⟨hcp, hserved⟩ := claims_disjoint 0 0 hrun
  exact ⟨cp, hrun, hcp, hover, hserved _ hok⟩

/-- A claim that encloses another one is granted, and the claim after 64 others is stored in front
of the table. -/
theorem claims_overlap :
    (∃ cp, [OfReq.claim 0x2000 0x1000 0, .claim 0x1000 0x4000 0].foldlM (ofTable 0 0)
      (fun _ => ⟨0, 0⟩) = .ok cp ∧ ¬ ClaimsDisjoint cp) ∧
    ((List.range 65).map fun i => OfReq.claim (.ofNat 64 i * 0x2000) 0x1000 0).foldlM (ofTable 0 0)
      (fun _ => ⟨0, 0⟩) = .error (.bounds .claimed (2 ^ 64 - 1)) := by
  refine ⟨⟨_, rfl, fun hcp => ?_⟩, by decide +kernel⟩
  have hboth := hcp 0 1 0x2000 ⟨by decide, by decide⟩ ⟨by decide, by decide⟩
  exact absurd hboth (by decide)

end Rhype
