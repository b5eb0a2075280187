import Rhype.Logical.Basic
import Rhype.Machine.Avoid

/-!
# Accesses inside the tables

`InBounds T x` says that the computation `x` accesses no table of `T` outside its bounds.  What does
not access a table of `T` at all is in bounds; an access is in bounds when its index is.
-/

namespace Rhype

/-- The fault of an access outside a table of `T`. -/
def OutOf (T : Table → Prop) (e : Fault) : Prop := ∃ t i, T t ∧ e = .bounds t i

/-- The computation accesses no table of `T` outside its bounds. -/
def InBounds {α : Type} (T : Table → Prop) (x : Hv α) : Prop := Avoids (OutOf T) x

namespace InBounds

variable {α : Type} {T : Table → Prop} {i : Nat}

theorem bounds {t : Table} (ht : ¬ T t) (i : Nat) : InBounds T (.error (.bounds t i) : Hv α) := by
  refine .error ?_
  rintro ⟨t', i', hT, heq⟩
  cases heq
  exact ht hT

theorem live (x : Option α) : InBounds T (Rhype.live x) := by
  cases x with
  | none => exact .error nofun
  | some a => exact .ok a

theorem nonNull (x : Option α) : InBounds T (Rhype.nonNull x) := by
  cases x with
  | none => exact .error nofun
  | some a => exact .ok a

theorem hassert (b : Bool) : InBounds T (Rhype.hassert b) := by
  cases b with
  | false => exact .error nofun
  | true => exact .ok ()

theorem slot (os : Os) (h : ¬ T .chunk ∨ i < maxLogicalMemChunks) : InBounds T (os.slot i) := by
  unfold Os.slot
  split_ifs with hi
  · exact .ok _
  · exact bounds (h.resolve_right hi) i

theorem entry (psm : Psm) (h : ¬ T .psm ∨ i < numPsmEntries) : InBounds T (psm.entry i) := by
  unfold Psm.entry
  split_ifs with hi
  · exact .ok _
  · exact bounds (h.resolve_right hi) i

theorem lciTranslate (hT : ¬ T .psm) (h : Hype) (c : LciId) (laddr size : Uval) :
    InBounds T (Rhype.lciTranslate h c laddr size) := by
  refine .bind (live _) fun lci _ => ?_
  split_ifs
  · exact .ok _
  · cases lci.lciOps with
    | physMem => exact .error nofun
    | psm =>
      refine .bind (live _) fun psm _ => .bind (entry _ (.inl hT)) fun x _ => ?_
      cases x with
      | none => exact .ok _
      | some n =>
        exact .bind (live _) fun _ _ => .bind (hassert _) fun _ _ =>
          .bind_ok (hassert _) _
  · exact .ok _
  · exact .ok _

theorem logicalToPhysicalAddress (hchunk : ¬ T .chunk) (hpsm : ¬ T .psm) (h : Hype) (o : OsId)
    (a len : Uval) : InBounds T (Rhype.logicalToPhysicalAddress h o a len) := by
  refine .bind (live _) fun os _ => ?_
  refine .bind (slot os (.inl hchunk)) fun oc _ => ?_
  cases oc with
  | none => exact .ok _
  | some c => exact lciTranslate hpsm _ _ _ _

end InBounds

end Rhype
