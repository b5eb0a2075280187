import Rhype.Os.Basic
import Rhype.Ring.Equiv

/-!
# What `run_event` leaves of the registrations

`run_event` unlinks a cell before it calls the function, and means to put it back in front of the
next one.  The arguments of `dlist_insert` are the wrong way around, and the cell still has its old
pointers: the stores put its neighbours together once more (`insBefore_detach`), so the cell stays
out of the list.  The mask is not looked at.
-/

namespace Rhype

open Function Links List

/-! ### Putting a cell back -/

namespace Links

variable {α : Type} [DecidableEq α] {L : Links α} {h x : α} {xs : List α}

theorem next_detach_self (L : Links α) (x : α) : (L.detach x).next x = L.next x := by
  simp only [detach, next_setPrev, next_setNext]
  split_ifs with hx
  · rfl
  · rfl

theorem insBefore_detach :
    (L.detach x).insBefore (L.next x) x = L.detach x := by
  have hlast : (L.detach x).prev (L.next x) = L.prev x := by simp [detach]
  have hbefore : (L.detach x).prev x = L.prev x := by simp [detach]
  have hnext : (L.detach x).next (L.prev x) = L.next x := by simp [detach]
  -- the first store is undone by the third, and the others write what is there
  have hnexts : update (update (L.detach x).next (L.prev x) x) (L.prev x)
      (L.next x) = (L.detach x).next := by
    rw [update_idem]
    exact update_eq_self_iff.2 hnext.symm
  have hprevs : update (update (L.detach x).prev x (L.prev x)) (L.next x)
      (L.prev x) = (L.detach x).prev := by
    have hfirst : update (L.detach x).prev x (L.prev x) = (L.detach x).prev :=
      update_eq_self_iff.2 hbefore.symm
    rw [hfirst]
    exact update_eq_self_iff.2 hlast.symm
  unfold insBefore setNext setPrev
  dsimp only
  rw [hlast, hbefore, hnexts, hprevs]

theorem insBefore_lone (hx : L.prev x = x) (hne : x ≠ h) (hlast : L.prev h ≠ x) :
    L.insBefore h x = L.insBefore x h := by
  unfold insBefore setNext setPrev
  dsimp only
  rw [hx]
  congr 1
  · exact update_comm hlast _ _ _
  · exact update_comm hne _ _ _

end Links

section

variable {α σ : Type} [DecidableEq α] {L : Links α} {oeList le : α} {xs : List α}

theorem isRing_registerEvent (hr : L.IsRing oeList xs) (hle : le ∉ oeList :: xs) :
    (registerEvent L oeList le).IsRing oeList (xs ++ [le]) := by
  have hne : le ≠ oeList := fun heq => hle (heq ▸ mem_cons_self)
  have hr' : (L.init le).IsRing oeList xs := hr.init_of_notMem hle
  have hlone := isRing_init L le
  have hlast : (L.init le).prev oeList ≠ le :=
    fun heq => hle (heq ▸ hr'.prev_mem mem_cons_self)
  unfold registerEvent
  rw [insBefore_lone (isRing_nil_iff.1 hlone).2 hne hlast]
  exact hr'.insBefore_head hlone hle

/-- The loop calls every function once, in the order of the list, and leaves an empty list. -/
theorem runEventLoop_spec {events : α → LparEvent σ} {event : Uval} (hdie : event ≠ lparDie) :
    ∀ {fuel : Nat} {L : Links α} {xs : List α} (w : σ), L.IsRing oeList xs → xs.length ≤ fuel →
      (∀ x ∈ xs, ∀ w, ((events x).leFunc event w).1 = 0) →
      ∃ L' w', runEventLoop events oeList event fuel L (L.next oeList) w = .ok (xs, L', w') ∧
        L'.IsRing oeList []
  | fuel, L, [], w, hr, _, _ => by
    have hend : L.next oeList = oeList := hr.next_head
    refine ⟨L, w, ?_, hr⟩
    cases fuel <;> simp [runEventLoop, hend]
  | 0, L, x :: xs, _, _, hfuel, _ => absurd hfuel (by simp)
  | fuel + 1, L, x :: xs, w, hr, hfuel, hzero => by
    have hfirst : L.next oeList = x := hr.next_head
    have hnd := nodup_cons.1 hr.1
    have hx : x ≠ oeList := fun heq => hnd.1 (heq ▸ mem_cons_self)
    have hsplit : L.IsRing oeList ([] ++ x :: xs) := hr
    have hrest : (L.detach x).IsRing oeList xs := hsplit.detach_mem
    have hnext : L.next x = (L.detach x).next oeList := by
      rw [hrest.next_head]
      exact hsplit.next_cell
    have hret := hzero x mem_cons_self w
    obtain ⟨L', w', hrun, hempty⟩ := runEventLoop_spec hdie
      ((events x).leFunc event w).2 hrest (Nat.le_of_succ_le_succ hfuel)
      fun y hy => hzero y (mem_cons_of_mem x hy)
    refine ⟨L', w', ?_, hempty⟩
    rw [runEventLoop, hfirst, if_neg hx]
    dsimp only
    rw [next_detach_self, if_pos ⟨hret, hdie⟩, insBefore_detach, hnext, hrun]
    rfl

/-- **`run_event` calls every function that is registered**, whatever its mask is, once and in the
order of the registrations, and none of them is registered any more afterwards.  So it does what it
should only for a partition without registrations. -/
theorem runEvent_keeps_iff (events : α → LparEvent σ) (L : Links α) (oeList : α) (xs : List α)
    (event : Uval) (w : σ) (fuel : Nat) (hr : L.IsRing oeList xs) (hdie : event ≠ lparDie)
    (hzero : ∀ x ∈ xs, ∀ w, ((events x).leFunc event w).1 = 0) (hfuel : xs.length ≤ fuel) :
    ∃ L' w', runEvent events fuel L oeList event w = .ok (xs, L', w') ∧ L'.IsRing oeList [] ∧
      (xs = xs.filter (fun x => (events x).includes event) ∧ L'.IsRing oeList xs ↔ xs = []) := by
  obtain ⟨L', w', hrun, hempty⟩ := runEventLoop_spec hdie w hr hfuel hzero
  refine ⟨L', w', hrun, hempty, ?_, ?_⟩
  · rintro ⟨-, hsame⟩
    exact hsame.unique hempty
  · rintro rfl
    exact ⟨rfl, hempty⟩

end

/-! ### A partition with two registrations -/

/-- Two registrations, 1 and 2; the second one is for the end of the partition only. -/
def twoEvents (x : Nat) : LparEvent (List Nat) where
  leMask := if x = 1 then 3 else lparDie
  leFunc _ w := (0, w ++ [x])

/-- The list with head 0 after the two registrations. -/
def twoLinks : Links Nat :=
  registerEvent (registerEvent (init ⟨id, id⟩ 0) 0 1) 0 2

theorem twoLinks_ring : twoLinks.IsRing 0 [1, 2] := by
  have hempty : (.init ⟨id, id⟩ 0 : Links Nat).IsRing 0 [] := isRing_init _ 0
  have hone := isRing_registerEvent hempty (show 1 ∉ [0] by decide)
  exact isRing_registerEvent hone (show 2 ∉ [0, 1] by decide)

theorem runEvent_keeps_iff_twoEvents :
    ∃ L' w', runEvent twoEvents 2 twoLinks 0 2 [] = .ok ([1, 2], L', w') ∧ L'.IsRing 0 [] ∧
      ([1, 2] = [1, 2].filter (fun x => (twoEvents x).includes 2) ∧ L'.IsRing 0 [1, 2] ↔
        [1, 2] = ([] : List Nat)) :=
  runEvent_keeps_iff twoEvents twoLinks 0 [1, 2] 2 [] 2 twoLinks_ring (by decide)
    (fun _ _ _ => rfl) le_rfl

/-- The event 2 is not in the mask of the second registration, and its function is called all the
same; afterwards the head points to itself. -/
theorem runEvent_loses :
    (runEvent twoEvents 2 twoLinks 0 2 []).map (fun x => (x.1, x.2.1.next 0, x.2.1.prev 0, x.2.2)) =
      .ok ([1, 2], 0, 0, [1, 2]) ∧ (twoEvents 2).includes 2 = false := by
  decide

end Rhype
