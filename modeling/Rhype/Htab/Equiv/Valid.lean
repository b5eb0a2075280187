import Rhype.Htab.Equiv.Bounds

/-!
# Which calls can make an entry valid

`H_PROTECT` and `H_CLEAR_MOD` clear the valid bit of an entry, change the entry and set the bit
again.  `H_PROTECT` looks at the bit first; `H_CLEAR_MOD` does not, so on an invalid entry whose
changed bit is set it makes the entry valid.  That is the only way around `H_ENTER`:
`htabStep_keeps_invalid_iff` says so for one call, and `run_keeps_invalid` for a sequence of calls.
-/

namespace Rhype

open Function

/-- Entry `i` of the hash table of the partition is valid. -/
def ValidAt (h : Hype) (o : OsId) (i : Nat) : Prop :=
  ∃ os, h.os o = some os ∧ (os.htab.pte i).v = true

/-- The calls other than `H_ENTER`. -/
def HtabCall.notEnter : HtabCall → Bool
  | .enter .. => false
  | _ => true

/-- The call is not an `H_CLEAR_MOD` of an invalid entry whose changed bit is set. -/
def ClearsValid (h : Hype) (x : OsId × HtabCall) : Prop :=
  ∀ flags ptex os, x.2 = .clearMod flags ptex → h.os x.1 = some os →
    ptex.toNat < os.htab.numPtes → (os.htab.pte ptex.toNat).c = true →
      (os.htab.pte ptex.toNat).v = true

/-! ### One call -/

section

variable {h h' h1 : Hype} {o : OsId} {os : Os} {i : Nat} {p : Pte}

theorem validAt_of_wrotePte (hos : h.os o = some os) (heq : h1.os = h.os)
    (hp : p.v = true → (os.htab.pte i).v = true) {o' : OsId} {j : Nat}
    (hv : ValidAt (wrotePte h1 o os i p) o' j) : ValidAt h o' j := by
  obtain ⟨os', hos', hv⟩ := hv
  rw [wrotePte, Hype.setOs] at hos'
  dsimp only at hos'
  by_cases ho : o' = o
  · subst ho
    rw [update_self, Option.some.injEq] at hos'
    subst hos'
    refine ⟨os, hos, ?_⟩
    rw [Htab.withPte] at hv
    dsimp only at hv
    rw [update_apply] at hv
    split_ifs at hv with hj
    · subst hj
      exact hp hv
    · exact hv
  · rw [update_of_ne ho, heq] at hos'
    exact ⟨os', hos', hv⟩

theorem validAt_clearMod {flags ptex : Uval} {ret : HcallRet} (hos : h.os o = some os)
    (hi : ptex.toNat < os.htab.numPtes) (hc : (os.htab.pte ptex.toNat).c = true)
    (hx : hClearMod h o flags ptex = .ok (ret, h')) : ValidAt h' o ptex.toNat := by
  rw [hClearMod, hos, live, ok_bind, if_neg (by simpa [checkIndex] using hi.le)] at hx
  obtain ⟨p, hget, hx⟩ := of_seq hx
  obtain ⟨-, rfl⟩ := Htab.get_eq_ok.1 hget
  rw [if_neg (by simp [hc])] at hx
  obtain ⟨ht, hset, hx⟩ := of_seq hx
  cases hx
  obtain ⟨-, rfl⟩ := Htab.set_eq_ok.1 hset
  exact ⟨_, update_self .., by simp [Htab.withPte]⟩

/-- A call other than `H_ENTER` makes no entry valid, exactly when it is not an `H_CLEAR_MOD` of an
invalid entry with the changed bit. -/
theorem htabStep_keeps_invalid_iff {x : OsId × HtabCall} (hx : htabStep h x = .ok h')
    (hne : x.2.notEnter = true) :
    (∀ o i, ¬ ValidAt h o i → ¬ ValidAt h' o i) ↔ ClearsValid h x := by
  obtain ⟨o, call⟩ := x
  obtain ⟨⟨ret, h''⟩, hx, hret⟩ := of_seq hx
  cases hret
  constructor
  · intro hkeep flags ptex os hcall hos hi hc
    subst hcall
    have hx : hClearMod h o flags ptex = .ok (ret, h') := hx
    -- an invalid entry with the changed bit would become valid
    by_contra hv
    refine hkeep o ptex.toNat ?_ (validAt_clearMod hos hi hc hx)
    rintro ⟨os', hos', hv'⟩
    cases hos.symm.trans hos'
    exact hv hv'
  · intro hcond o' j hnv hv
    refine hnv ?_
    cases call with
    | enter flags ptex vsidWord rpnWord => cases hne
    | read flags ptex =>
      rwa [hRead_ok hx] at hv
    | remove flags ptex avpn =>
      rcases hRemove_ok hx with rfl | ⟨os, h1, hos, -, rfl, hcase⟩
      · exact hv
      refine validAt_of_wrotePte hos ?_ (by simp) hv
      rcases hcase with ⟨-, rfl⟩ | ⟨-, c, h2, -, hrem, hadd⟩
      · rfl
      · rw [addPtecount_os hadd, amoRemPtep_os hrem]
    | protect flags ptex avpn =>
      rcases hProtect_ok hx with rfl | ⟨os, hos, -, hval, rfl⟩
      · exact hv
      · exact validAt_of_wrotePte hos rfl (fun _ => hval) hv
    | clearMod flags ptex =>
      rw [exec] at hx
      rcases hClearMod_ok hx with rfl | ⟨os, hos, hi, hc, rfl⟩
      · exact hv
      · exact validAt_of_wrotePte hos rfl (fun _ => hcond flags ptex os rfl hos hi hc) hv
    | clearRef flags ptex =>
      rw [exec] at hx
      rcases hClearRef_ok hx with rfl | ⟨os, hos, -, rfl⟩
      · exact hv
      · refine validAt_of_wrotePte hos rfl ?_ hv
        exact id

end

/-! ### Sequences of calls -/

/-- **An invalid entry stays invalid** under every sequence of calls other than `H_ENTER` in which
no `H_CLEAR_MOD` is made on an invalid entry with the changed bit. -/
theorem run_keeps_invalid {h h' : Hype} {calls : List (OsId × HtabCall)}
    (hrun : Run htabStep (fun h x => x.2.notEnter = true ∧ ClearsValid h x) h calls h')
    (o : OsId) (i : Nat) (hv : ¬ ValidAt h o i) : ¬ ValidAt h' o i := by
  refine hrun.related (R := fun h h' => ∀ o i, ¬ ValidAt h o i → ¬ ValidAt h' o i)
    (fun _ _ _ => id) (fun _ _ _ h1 h2 o i => h2 o i ∘ h1 o i) ?_ o i hv
  intro s x t hok hstep
  exact (htabStep_keeps_invalid_iff hstep hok.1).2 hok.2

/-- `run_keeps_invalid` for an `H_CLEAR_REF` and an `H_CLEAR_MOD` of a cleared entry. -/
theorem run_keeps_invalid_clear :
    ∃ h', Run htabStep (fun h x => x.2.notEnter = true ∧ ClearsValid h x)
      (.boot fun _ => some smallOs) [(0, .clearRef 0 5), (0, .clearMod 0 5)] h' ∧
      ¬ ValidAt h' 0 5 := by
  have hrun : Run htabStep (fun h x => x.2.notEnter = true ∧ ClearsValid h x)
      (.boot fun _ => some smallOs) [(0, .clearRef 0 5), (0, .clearMod 0 5)]
      (.boot fun _ => some smallOs) := by
    refine .cons ⟨rfl, nofun⟩ rfl (.cons ⟨rfl, ?_⟩ rfl (.nil _))
    intro flags ptex os hcall hos _ hc
    cases hcall
    cases hos
    cases hc
  refine ⟨_, hrun, run_keeps_invalid hrun 0 5 ?_⟩
  rintro ⟨os, hos, hv⟩
  cases hos
  cases hv

/-- A partition with an entry as `H_REMOVE` leaves it: the valid bit is clear, the page number and
the changed bit are still there. -/
def removedOs : Os :=
  { smallOs with htab := smallOs.htab.withPte 0 (.ofWords 0 0x1080) }

/-- `H_CLEAR_MOD` makes a removed entry valid again. -/
theorem clearMod_revives_removed :
    ¬ ∀ h calls h', Run htabStep (fun _ x => x.2.notEnter = true) h calls h' →
      ∀ o i, ¬ ValidAt h o i → ¬ ValidAt h' o i := by
  intro hall
  refine hall (.boot fun _ => some removedOs) [(0, .clearMod 0 0)] _
    (.cons rfl rfl (.nil _)) 0 0 ?_ ⟨_, rfl, rfl⟩
  rintro ⟨os, hos, hv⟩
  cases hos
  cases hv

end Rhype
