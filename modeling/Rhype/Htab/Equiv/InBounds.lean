import Rhype.Htab.Call
import Rhype.Logical.Equiv.InBounds

/-!
# Accesses inside the tables: the parts of the hash table calls

The rules of `InBounds` for what the hypercalls on the hash table are made of.  An access to an
entry is in bounds when its index is below the number of entries, and always where the table and its
shadow are not among the tables in question (`Htab.SafeAt`).
-/

namespace Rhype

/-- An access to entry `i` or to its shadow leaves no table of `T`. -/
def Htab.SafeAt (T : Table → Prop) (ht : Htab) (i : Nat) : Prop :=
  (¬ T .htab ∧ ¬ T .shadow) ∨ i < ht.numPtes

namespace InBounds

section

variable {T : Table → Prop} {ht : Htab} {i : Nat} (hi : ht.SafeAt T i)

include hi

theorem get : InBounds T (ht.get i) := by
  unfold Htab.get
  split_ifs with h
  · exact .ok _
  · exact bounds (hi.resolve_right h).1 i

theorem set (p : Pte) : InBounds T (ht.set i p) := by
  unfold Htab.set
  split_ifs with h
  · exact .ok _
  · exact bounds (hi.resolve_right h).1 i

theorem getShadow : InBounds T (ht.getShadow i) := by
  unfold Htab.getShadow
  split_ifs with h
  · exact .ok _
  · exact bounds (hi.resolve_right h).2 i

theorem setShadow (x : Uval) : InBounds T (ht.setShadow i x) := by
  unfold Htab.setShadow
  split_ifs with h
  · exact .ok _
  · exact bounds (hi.resolve_right h).2 i

theorem savePte (vi ri : Nat) : InBounds T (Rhype.savePte ht i vi ri) := by
  refine .bind (get hi) fun p _ => ?_
  split_ifs
  · exact .bind_ok (getShadow hi) _
  · exact .ok _

theorem pteInsert (vsidWord rpnWord lrpn : Uval) :
    InBounds T (Rhype.pteInsert ht i vsidWord rpnWord lrpn) := by
  refine .bind (get hi) fun p _ => .bind (hassert _) fun _ _ =>
    .bind (set hi _) fun ht' h => ?_
  obtain ⟨-, rfl⟩ := Htab.set_eq_ok.1 h
  have hi' : (ht.withPte i (.ofWords vsidWord rpnWord)).SafeAt T i := hi
  exact setShadow hi' _

end

variable {T : Table → Prop} (hT : ¬ T .psm) (h : Hype) (c : LciId)

theorem addPtecount (n : BitVec 32) : InBounds T (Rhype.addPtecount h c n) :=
  .bind_ok (live _) _

theorem physMemAmoCheckWimg (p : Pte) : InBounds T (Rhype.physMemAmoCheckWimg h c p) := by
  refine .bind (live _) fun sr _ => ?_
  rcases sr.srType with (_ | _) | _ <;> exact .ok _

include hT

theorem psmRecord (laddr : Uval) (f : HashTable Nat → HashTable Nat) (n : BitVec 32) :
    InBounds T (Rhype.psmRecord h c laddr f n) :=
  .bind (live _) fun _ _ => .bind (live _) fun _ _ =>
    .bind (entry _ (.inl hT)) fun _ _ => .bind (nonNull _) fun _ _ => addPtecount _ _ _

theorem amoRecord (laddr : Uval) (f : HashTable Nat → HashTable Nat) (n : BitVec 32) :
    InBounds T (Rhype.live (h.lci c) >>= fun lci =>
      match lci.lciOps with
      | .physMem => .ok h
      | .psm => Rhype.psmRecord h c laddr f n) := by
  refine .bind (live _) fun lci _ => ?_
  cases lci.lciOps with
  | physMem => exact .ok _
  | psm => exact psmRecord hT _ _ _ _ _

theorem amoSavPtep (laddr : Uval) (i : Nat) : InBounds T (Rhype.amoSavPtep h c laddr i) :=
  amoRecord hT h c laddr _ _

theorem amoRemPtep (laddr : Uval) (i : Nat) : InBounds T (Rhype.amoRemPtep h c laddr i) :=
  amoRecord hT h c laddr _ _

theorem amoCheckWimg (p : Pte) : InBounds T (Rhype.amoCheckWimg h c p) := by
  refine .bind (live _) fun lci _ => ?_
  cases lci.lciOps with
  | physMem => exact physMemAmoCheckWimg _ _ _
  | psm =>
    refine .bind (live _) fun psm _ => .bind (entry _ (.inl hT)) fun x _ => ?_
    cases x with
    | none => exact .ok _
    | some n => exact physMemAmoCheckWimg _ _ _

theorem enterLoop {o : OsId} {os : Os} (hos : h.os o = some os) (laddr lrpn : Uval) (p : Pte) :
    ∀ n i, (∀ j, i ≤ j → j < i + n → os.htab.SafeAt T j) →
      InBounds T (Rhype.enterLoop h o c laddr lrpn p n i)
  | 0, _, _ => .ok _
  | n + 1, i, hsafe => by
    have hi := hsafe i le_rfl (by omega)
    refine .bind (live _) fun os' hos' => ?_
    cases hos.symm.trans (live_ok.1 hos')
    refine .bind (get hi) fun q _ => ?_
    split_ifs
    · exact .bind (amoSavPtep hT _ _ _ _) fun _ _ =>
        .bind (pteInsert hi _ _ _) fun _ _ =>
          .bind_ok (addPtecount _ _ _) _
    · exact enterLoop hos laddr lrpn p n (i + 1) fun j hj hjn => hsafe j (by omega) (by omega)

end InBounds

end Rhype
