import Rhype.Devtree.Basic

/-!
# A property that could not be set

A call of `ofd_setprop` that finds no room for a new property has stored nothing.  The value of a
property that is there is lost: it is taken out of the list before the room for its longer copy is
looked for.
-/

namespace Rhype

open Function

namespace OfdMem

variable {m m' : OfdMem} {node p : Nat} {r : OfdProp} {name src : List (BitVec 8)}

/-- `ofd_prop_create` finds no room. -/
def NoRoom (m : OfdMem) (name src : List (BitVec 8)) : Prop :=
  (m.omNum : Int) ≤
    m.omNext + (((16 + src.length + (name.length + 1) + 7) / 8 : Nat) : Int).bmod (2 ^ 32)

/-- The property is there, with a shorter value, and is not its own successor. -/
def Outgrown (m : OfdMem) (node : Nat) (name src : List (BitVec 8)) : Prop :=
  ∃ p r, p ≠ 0 ∧ m.ofdPropFind node name = .ok p ∧ m.ofdPropGet p = .ok r ∧
    r.opObjsz < src.length ∧ r.opNext ≠ p

theorem ofdPropCreate_zero_iff :
    m.ofdPropCreate node name src = .ok (0, m') ↔ m.NoRoom name src ∧ m = m' := by
  unfold ofdPropCreate
  dsimp only
  split_ifs with hroom hcells
  · simp only [Except.ok.injEq, Prod.mk.injEq, true_and, iff_and_self]
    exact fun _ => hroom
  · exact iff_of_false (by rintro ⟨⟩) fun h => hroom h.1
  refine iff_of_false (fun hx => ?_) fun h => hroom h.1
  -- a property that is stored has the index `om_next`, which is not 0
  obtain ⟨-, -, hx⟩ := of_seq hx
  obtain ⟨first, -, hx⟩ := of_seq hx
  split_ifs at hx
  · simp only [Except.ok.injEq, Prod.mk.injEq] at hx
    exact absurd hx.1 m.omNext_pos.ne'
  obtain ⟨pn, -, hx⟩ := of_seq hx
  obtain ⟨m1, -, hx⟩ := of_seq hx
  simp only [Except.ok.injEq, Prod.mk.injEq] at hx
  exact absurd hx.1 m.omNext_pos.ne'

theorem stored_iff {m1 : OfdMem} {q : Nat} : (if 0 < q then do
      let pp ← m1.ofdPropGet q
      .ok ((pp.opObjsz : Int), m1)
    else .ok (-1, m1) : Hv (Sval × OfdMem)) = .ok (-1, m') ↔ q = 0 ∧ m1 = m' := by
  split_ifs with hq
  · refine iff_of_false (fun hx => ?_) fun h => hq.ne' h.1
    obtain ⟨pp, -, hx⟩ := of_seq hx
    have hneg : (pp.opObjsz : Int) = -1 := congrArg Prod.fst (Except.ok.inj hx)
    omega
  · simp [show q = 0 by omega]

theorem ofdPropGet_ok : m.ofdPropGet p = .ok r ↔ p < m.omNext ∧ m.prop p = some r := by
  unfold ofdPropGet
  split_ifs with hp <;> cases m.prop p <;> simp [hp]

/-- What precedes a property that is found is found too. -/
theorem exists_before {cond : OfdProp → Bool} {first fuel : Nat}
    (hx : m.propFrom cond first fuel = .ok p) (hp : p ≠ 0) (hne : first ≠ p) :
    ∃ pn q, m.propFrom (fun r => r.opNext = p) first fuel = .ok pn ∧ m.ofdPropGet pn = .ok q ∧
      q.opNext = p := by
  induction fuel generalizing first with
  | zero => cases hx
  | succ fuel ih =>
    unfold propFrom at hx ⊢
    split_ifs at hx ⊢ with hzero
    · exact absurd (Except.ok.inj hx).symm hp
    obtain ⟨q, hq, hx⟩ := of_seq hx
    rw [hq, ok_bind]
    split_ifs at hx
    · exact absurd (Except.ok.inj hx) hne
    by_cases hnext : q.opNext = p
    · exact ⟨first, q, by simp [hnext], hq, hnext⟩
    · simpa [hnext] using ih hx hnext

/-- A property that is found can be taken out, and then the tree is another one, unless the property
is its own successor. -/
theorem ofdPropRemove_spec (hfind : m.ofdPropFind node name = .ok p) (hp : p ≠ 0)
    (hr : m.ofdPropGet p = .ok r) : ∃ m', m.ofdPropRemove node p = .ok m' ∧
      m'.omNum = m.omNum ∧ m'.omNext = m.omNext ∧ (m' = m ↔ r.opNext = p) := by
  obtain ⟨first, hfirst, hfind⟩ := of_seq hfind
  have hnode : m.onProp node = some first := by
    unfold ofdNodeProp at hfirst
    split_ifs at hfirst
    cases hprop : m.onProp node <;> simp_all
  split_ifs at hfind
  · exact absurd (Except.ok.inj hfind).symm hp
  unfold ofdPropRemove
  rw [hfirst, ok_bind, hr, ok_bind]
  by_cases heq : first = p
  · refine ⟨_, if_pos heq, rfl, rfl, fun h => ?_, fun h => ?_⟩
    · have hsame : update m.onProp node (some r.opNext) node = m.onProp node :=
        congrFun (congrArg onProp h) node
      rw [update_self, hnode, heq] at hsame
      exact Option.some.inj hsame
    · rw [h, ← heq, ← hnode, update_eq_self]
  · obtain ⟨pn, q, hfrom, hq, hqp⟩ := exists_before hfind hp heq
    have hpn := (ofdPropGet_ok.1 hq).2
    rw [if_neg heq, hfrom, ok_bind, setNext, hq, ok_bind]
    refine ⟨_, rfl, rfl, rfl, fun h => ?_, fun h => ?_⟩
    · have hsame : update m.prop pn (some { q with opNext := r.opNext }) pn = m.prop pn :=
        congrFun (congrArg prop h) pn
      rw [update_self, hpn] at hsame
      exact (congrArg OfdProp.opNext (Option.some.inj hsame)).trans hqp
    · rw [h, ← hqp, ← hpn, update_eq_self]

/-- **A property that could not be set** has left the tree as it is, exactly when it is not one that
is there, grows and finds no room. -/
theorem setprop_failure_iff : (∀ m', m.ofdSetprop node name src = .ok (-1, m') → m' = m) ↔
    ¬ (m.Outgrown node name src ∧ m.NoRoom name src) := by
  have hroom {m1 : OfdMem} (hnum : m1.omNum = m.omNum) (hnext : m1.omNext = m.omNext) :
      m1.NoRoom name src ↔ m.NoRoom name src := by rw [NoRoom, NoRoom, hnum, hnext]
  constructor
  · rintro hsame ⟨⟨p, r, hp, hfind, hr, hlen, hnext⟩, hno⟩
    obtain ⟨m1, hremove, hnum, hnext1, hiff⟩ := ofdPropRemove_spec hfind hp hr
    have hcreate : m1.ofdPropCreate node name src = .ok (0, m1) :=
      ofdPropCreate_zero_iff.2 ⟨(hroom hnum hnext1).2 hno, rfl⟩
    refine hnext (hiff.1 (hsame m1 ?_))
    have hset : m.ofdPropSet node name src = .ok (0, m1) := by
      rw [ofdPropSet, hfind, ok_bind, hr, ok_bind, if_neg hlen.not_ge, hremove, ok_bind, hcreate]
    rw [ofdSetprop, hfind, ok_bind]
    dsimp only
    rw [if_neg hp, hset, ok_bind]
    exact stored_iff.2 ⟨rfl, rfl⟩
  · intro hnot m' hx
    obtain ⟨p, hfind, hx⟩ := of_seq hx
    dsimp only at hx
    split_ifs at hx with hp
    · obtain ⟨⟨q, m1⟩, hcreate, hx⟩ := of_seq hx
      obtain ⟨rfl, rfl⟩ := stored_iff.1 hx
      exact (ofdPropCreate_zero_iff.1 hcreate).2.symm
    obtain ⟨⟨q, m1⟩, hset, hx⟩ := of_seq hx
    obtain ⟨rfl, rfl⟩ := stored_iff.1 hx
    rw [ofdPropSet, hfind, ok_bind] at hset
    obtain ⟨r, hr, hset⟩ := of_seq hset
    by_cases hlen : src.length ≤ r.opObjsz
    · rw [if_pos hlen] at hset
      cases hset
      exact absurd rfl hp
    rw [if_neg hlen] at hset
    obtain ⟨m2, hremove, hset⟩ := of_seq hset
    obtain ⟨hno, rfl⟩ := ofdPropCreate_zero_iff.1 hset
    obtain ⟨m3, hremove3, hnum, hnext, hiff⟩ := ofdPropRemove_spec hfind hp hr
    cases hremove.symm.trans hremove3
    by_contra hne
    exact hnot ⟨⟨p, r, hp, hfind, hr, by omega, fun h => hne (hiff.2 h)⟩, (hroom hnum hnext).1 hno⟩

/-- The property `a` of the root has the value 1.  A value of fifty bytes does not fit, and then `a`
is not found. -/
theorem setprop_lost : ∃ t m m', ofdCreate 160 = some t ∧
    t.ofdSetprop 1 [0x61] [1] = .ok (1, m) ∧ m.ofdGetprop 1 [0x61] 8 = .ok (1, [1]) ∧
    m.ofdSetprop 1 [0x61] (.replicate 50 2) = .ok (-1, m') ∧
    m'.ofdGetprop 1 [0x61] 8 = .ok (-1, []) :=
  ⟨_, _, _, rfl, rfl, rfl, rfl, rfl⟩

end OfdMem

end Rhype
