import Rhype.Logical.Equiv.Place
import Rhype.Resource.Basic

/-!
# What accepting a resource does

One inversion lemma for each function of an accept.  A chunk is placed in the chunk table
(`PlacedBy`) or accepted into the page-share manager of its owner (`SharedBy`); the resource is then
marked as mapped.
-/

namespace Rhype

section

variable {h h' : Hype} {r : ResId} {fresh : FreshPsm} {rc : Sval} {a : Uval}

theorem lciEnable_ok {c : LciId} (hx : lciEnable h c = .ok h') :
    ∃ lci, h.lci c = some lci ∧ h' = h.setLciObj c { lci with lciDisabled := false } := by
  obtain ⟨lci, hlci, hx⟩ := of_live hx
  cases hx
  exact ⟨lci, hlci, rfl⟩

theorem initOsPsm_poPsm {o : OsId} {p : LciId} (hx : initOsPsm h o fresh = .ok (p, h')) :
    ∃ os, h'.os o = some os ∧ os.poPsm = some p := by
  obtain ⟨os, hos, ⟨hp, rfl⟩ | ⟨-, rfl, os1, _, _, _, _, hstep⟩⟩ := initOsPsm_ok hx
  · exact ⟨os, hos, hp⟩
  have hos1 : os1 = { os with poPsm := some h.next } := by
    have hinst : (installPsm h o os fresh).os o = some { os with poPsm := some h.next } :=
      Function.update_self ..
    exact Option.some.inj (hstep.os_eq.symm.trans hinst)
  rw [hstep.state]
  exact ⟨_, Function.update_self .., by rw [hos1]⟩

/-- The chunk of `r` is given slots of partition `o`, as far as there are any, and enabled. -/
def PlacedBy (h : Hype) (o : OsId) (hint : Uval) (r : ResId) (h' : Hype) : Prop :=
  ∃ ret h1, setLci h o hint r = .ok (ret, h1) ∧ lciEnable h1 r = .ok h'

/-- The chunk of `r` is accepted into the page-share manager of partition `o`, with the result
`rc`. -/
def SharedBy (h : Hype) (o : OsId) (fresh : FreshPsm) (r : ResId) (rc : Sval) (h' : Hype) : Prop :=
  ∃ p h1 h2, initOsPsm h o fresh = .ok (p, h1) ∧ psmAccept h1 p r = .ok (rc, h2) ∧
    ((rc ≠ hSuccess ∧ h' = h2) ∨ rc = hSuccess ∧ lciEnable h2 r = .ok h')

theorem memAccept_ok (hx : memAccept h r fresh = .ok (rc, a, h')) :
    ∃ sr o lci, h.res r = some sr ∧ sr.srOwner = some o ∧ h.lci r = some lci ∧
      (rc = hSuccess → ∃ lci', h'.lci r = some lci' ∧ a = lci'.lciLaddr) ∧
      ((ownSlots lci = true ∧ rc = hSuccess ∧ PlacedBy h o 0 r h') ∨
        ownSlots lci = false ∧ SharedBy h o fresh r rc h') := by
  obtain ⟨sr, hsr, hx⟩ := of_live hx
  obtain ⟨o, ho, hx⟩ := of_seq hx
  obtain ⟨lci, hlci, hx⟩ := of_live hx
  refine ⟨sr, o, lci, hsr, nonNull_ok.1 ho, hlci, ?_⟩
  split_ifs at hx with hown
  · obtain ⟨⟨ret, h1⟩, hset, hx⟩ := of_seq hx
    obtain ⟨h2, hen, hx⟩ := of_seq hx
    obtain ⟨lci', hlci', hx⟩ := of_seq hx
    cases hx
    exact ⟨fun _ => ⟨lci', live_ok.1 hlci', rfl⟩, .inl ⟨hown, rfl, ret, h1, hset, hen⟩⟩
  obtain ⟨⟨p, h1⟩, hinit, hx⟩ := of_seq hx
  obtain ⟨⟨err, h2⟩, hpsm, hx⟩ := of_seq hx
  have hown : ownSlots lci = false := by simpa using hown
  dsimp only at hx
  split_ifs at hx with herr
  · obtain ⟨h3, hen, hx⟩ := of_seq hx
    obtain ⟨lci', hlci', hx⟩ := of_live hx
    cases hx
    subst herr
    exact ⟨fun _ => ⟨lci', hlci', rfl⟩, .inr ⟨hown, p, h1, h2, hinit, hpsm, .inr ⟨rfl, hen⟩⟩⟩
  · cases hx
    exact ⟨fun hrc => absurd hrc herr, .inr ⟨hown, p, h1, _, hinit, hpsm, .inl ⟨herr, rfl⟩⟩⟩

theorem mmioAccept_ok (hx : mmioAccept h r = .ok (rc, a, h')) :
    ∃ sr o lci lci', h.res r = some sr ∧ sr.srOwner = some o ∧ h.lci r = some lci ∧
      rc = hSuccess ∧ PlacedBy h o lci.lciRaddr r h' ∧
      h'.lci r = some lci' ∧ a = lci'.lciLaddr := by
  obtain ⟨sr, hsr, hx⟩ := of_live hx
  obtain ⟨o, ho, hx⟩ := of_seq hx
  obtain ⟨lci, hlci, hx⟩ := of_live hx
  obtain ⟨⟨ret, h1⟩, hset, hx⟩ := of_seq hx
  obtain ⟨h2, hen, hx⟩ := of_seq hx
  obtain ⟨lci', hlci', hx⟩ := of_live hx
  cases hx
  exact ⟨sr, o, lci, lci', hsr, nonNull_ok.1 ho, hlci, rfl, ⟨ret, h1, hset, hen⟩, hlci', rfl⟩

theorem acceptLockedResource_ok {vio : Sval × Uval}
    (hx : acceptLockedResource h r fresh vio = .ok (rc, a, h')) :
    ∃ sr h1, h.res r = some sr ∧ acceptFn h sr.srType r fresh vio = .ok (rc, a, h1) ∧
      ((rc ≠ hSuccess ∧ h' = h1) ∨
        rc = hSuccess ∧ ∃ sr1, h1.res r = some sr1 ∧
          h' = h1.setRes r { sr1 with srMapped := true }) := by
  obtain ⟨sr, hsr, hx⟩ := of_live hx
  obtain ⟨⟨err, ret, h1⟩, haccept, hx⟩ := of_seq hx
  refine ⟨sr, h1, hsr, ?_⟩
  dsimp only at hx
  split_ifs at hx with herr
  · obtain ⟨sr1, hsr1, hx⟩ := of_live hx
    cases hx
    exact ⟨haccept, .inr ⟨herr, sr1, hsr1, rfl⟩⟩
  · cases hx
    exact ⟨haccept, .inl ⟨herr, rfl⟩⟩

end

end Rhype
