import Mathlib.Logic.Relation
import Rhype.Pgcache.Call

/-!
# The check of a range (`ispresent`)

`ispresent` goes through a range in steps of the page that it is in, from wherever in a page the
range begins.  A step passes by the last page when the range ends before the offset at which it
began, and by pages of 4 KB when it begins far inside a page of 4 MB.  The answer is right if and
only if the steps come to the first page that fails (`Stepped`).
-/

namespace Rhype.Pgcache

open BitVec Ia32 Shadow

variable (s : Shadow)

/-- The entry of the active directory for an address. -/
def Shadow.pde (a : Word) : Word := (s.dir s.pgd).hv (pdiOf a)

/-- The frame that is linked for an address. -/
def Shadow.pgtOf (a : Word) : Option TabId := (s.dir s.pgd).pgt (pdiOf a)

/-- The entry of the page of `a`, of 4 KB or 4 MB. -/
def Shadow.entry (a : Word) : Word :=
  if isTable (s.pde a) then (s.pgtOf a).elim 0 fun t => (s.tab t).hv (ptiOf a) else s.pde a

/-- The page of `a` is present, with all bits of the mask. -/
def Shadow.Grants (mask a : Word) : Prop :=
  test (s.entry a) pteP = true ∧ s.entry a &&& mask = mask

/-- An address of a range. -/
def Within (vaddr len a : Word) : Prop :=
  vaddr.toNat ≤ a.toNat ∧ a.toNat < vaddr.toNat + len.toNat

/-- Two addresses of one page, of 4 MB or of 4 KB.  Where no page is mapped it is of 4 KB. -/
def Shadow.SamePage (a b : Word) : Prop :=
  pdiOf a = pdiOf b ∧ (isLarge (s.pde a) = true ∨ ptiOf a = ptiOf b)

/-- The answer for a range: all its pages are granted, or it is an address in the first page that
is not. -/
def Reports (vaddr len mask : Word) (r : Option (Word × Word)) : Prop :=
  (r = none ↔ ∀ a, Within vaddr len a → s.Grants mask a) ∧
    ∀ error fault, r = some (error, fault) → Within vaddr len fault ∧ ¬ s.Grants mask fault ∧
      ∀ a, Within vaddr len a → a < fault → s.Grants mask a ∨ s.SamePage a fault

/-- The address passes the assertions of `getpte`. -/
def Shadow.Readable (a : Word) : Prop :=
  a < hvVbase ∧ (isTable (s.pde a) = true → (s.pgtOf a).isSome = true)

/-- The address one page behind `a`. -/
def Shadow.nextPage (a : Word) : Word := a + if isLarge (s.pde a) then lpgsize else pgsize

/-- A step from a page that is granted to the next one of a range. -/
def Shadow.Steps (last mask v w : Word) : Prop :=
  s.Readable v ∧ s.Grants mask v ∧ w = s.nextPage v ∧ w ≤ last

/-- The steps from `vaddr` come to `v`. -/
def Shadow.Visits (vaddr last mask v : Word) : Prop :=
  vaddr ≤ last ∧ Relation.ReflTransGen (s.Steps last mask) vaddr v

/-- The steps stay in the range, and come to the first page that fails. -/
structure Stepped (s : Shadow) (vaddr len mask : Word) : Prop where
  inside : ∀ v, s.Visits vaddr (vaddr + len - 1) mask v → s.Readable v ∧ Within vaddr len v
  first : ∀ a, Within vaddr len a → ¬ s.Grants mask a →
    ∃ v, s.Visits vaddr (vaddr + len - 1) mask v ∧ ¬ s.Grants mask v ∧ (v ≤ a ∨ s.SamePage a v)

/-- What the loop answers at the last address that it comes to. -/
inductive Ends (s : Shadow) (last mask w : Word) : Hv (Option (Word × Word)) → Prop
  | asserts (fault : Fault) : ¬ s.Readable w → Ends s last mask w (.error fault)
  | fails (error : Word) : s.Readable w → ¬ s.Grants mask w →
    Ends s last mask w (.ok (some (error, w)))
  | passes : s.Readable w → s.Grants mask w → ¬ s.nextPage w ≤ last →
    Ends s last mask w (.ok none)

section

variable {s : Shadow} {vaddr len mask a v w last : Word} {x : Hv (Option (Word × Word))}

theorem getpte_error (ha : ¬ s.Readable a) : getpte s a = .error .assertion := by
  unfold getpte
  by_cases hlt : a < hvVbase
  · have hnot : ¬ (isTable (s.pde a) = true → (s.pgtOf a).isSome = true) := fun h => ha ⟨hlt, h⟩
    obtain ⟨htable, hnone⟩ := Classical.not_imp.1 hnot
    obtain ⟨hp, hps⟩ : test (s.pde a) pteP = true ∧ test (s.pde a) ptePs = false := by
      simpa [isTable] using htable
    rw [Bool.not_eq_true, Option.isSome_eq_false_iff, Option.isNone_iff_eq_none] at hnone
    unfold pde at hp hps
    unfold pgtOf at hnone
    simp [hassert, hlt, hp, hps, hnone]
  · rw [hassert, if_neg (by simpa using hlt), error_bind]

theorem getpte_of_readable (mask : Word) (ha : s.Readable a) :
    ∃ e, getpte s a = .ok (e, isLarge (s.pde a)) ∧
      (s.Grants mask a ↔ test e pteP = true ∧ e &&& mask = mask) := by
  unfold Grants entry
  have hok : hassert (a < hvVbase) = .ok () := if_pos (decide_eq_true ha.1)
  rcases hp : test (s.pde a) pteP with _ | _
  · have hpde : getpte s a = .ok (0, false) := by
      unfold pde at hp
      simp [getpte, hok, hp]
    have hzero : test 0#32 pteP = false := rfl
    exact ⟨0, by rw [hpde, isLarge, hp, Bool.false_and], by simp [isTable, hp, hzero]⟩
  cases hps : test (s.pde a) ptePs with
  | true =>
    refine ⟨s.pde a, ?_, by simp [isTable, hps]⟩
    unfold pde at hp hps ⊢
    simp [getpte, hok, isLarge, hp, hps]
  | false =>
    obtain ⟨t, ht⟩ := Option.isSome_iff_exists.1 (ha.2 (by simp [isTable, hp, hps]))
    refine ⟨(s.tab t).hv (ptiOf a), ?_, by simp [isTable, hp, hps, ht]⟩
    unfold pde pgtOf at *
    simp [getpte, hok, isLarge, hp, hps, ht]

theorem toNat_nextPage (hv : s.Readable v) :
    (s.nextPage v).toNat = v.toNat + if isLarge (s.pde v) then 0x400000 else 0x1000 := by
  have hlt : v.toNat < 0xFC000000 := hv.1
  have hbig : lpgsize.toNat = 0x400000 := rfl
  have hsmall : pgsize.toNat = 0x1000 := rfl
  unfold nextPage
  rw [toNat_add]
  split_ifs <;> omega

theorem isPresentLoop_ends (mask : Word) (fuel : Nat) (v : Word) (hle : v ≤ last)
    (hfuel : 0x100001 ≤ v.toNat / 0x1000 + fuel) :
    ∃ w, Relation.ReflTransGen (s.Steps last mask) v w ∧
      Ends s last mask w (isPresentLoop s last mask fuel v) := by
  induction fuel generalizing v with
  | zero => omega
  | succ fuel ih =>
    rw [isPresentLoop, if_pos hle]
    by_cases hv : s.Readable v
    swap
    · exact ⟨v, .refl, by rw [getpte_error hv, error_bind]; exact .asserts _ hv⟩
    obtain ⟨e, hget, hg⟩ := getpte_of_readable mask hv
    rw [hget, ok_bind]
    dsimp only
    by_cases hgrants : s.Grants mask v
    swap
    · refine ⟨v, .refl, ?_⟩
      by_cases hp : test e pteP = true
      · have hm : e &&& mask ≠ mask := fun hm => hgrants (hg.2 ⟨hp, hm⟩)
        rw [if_neg (by simp [hp]), if_pos hm]
        exact .fails _ hv hgrants
      · rw [if_pos (by simpa using hp)]
        exact .fails _ hv hgrants
    obtain ⟨hp, hm⟩ := hg.1 hgrants
    rw [if_neg (by simp [hp]), if_neg (not_ne_iff.2 hm)]
    have hnext := toNat_nextPage hv
    by_cases hmore : s.nextPage v ≤ last
    · obtain ⟨w, hrun, hends⟩ := ih (s.nextPage v) hmore (by split_ifs at hnext <;> omega)
      exact ⟨w, .head ⟨hv, hgrants, rfl, hmore⟩ hrun, hends⟩
    · obtain ⟨k, rfl⟩ : ∃ k, fuel = k + 1 := ⟨fuel - 1, by omega⟩
      refine ⟨v, .refl, ?_⟩
      unfold nextPage at hmore
      rw [isPresentLoop, if_neg hmore]
      exact .passes hv hgrants hmore

theorem le_of_run (hrun : Relation.ReflTransGen (s.Steps last mask) v w) : v ≤ w := by
  induction hrun with
  | refl => exact BitVec.le_refl v
  | tail _ hstep ih =>
    obtain ⟨hv, _, hw, _⟩ := hstep
    rw [hw]
    have hnext := toNat_nextPage hv
    rw [le_def] at ih ⊢
    omega

theorem Shadow.Visits.bounds (hv : s.Visits vaddr last mask v) : vaddr ≤ v ∧ v ≤ last := by
  refine ⟨le_of_run hv.2, ?_⟩
  rcases Relation.ReflTransGen.cases_tail hv.2 with rfl | ⟨u, _, hstep⟩
  · exact hv.1
  · exact hstep.2.2.2

theorem Ends.eq_or_granted (hends : Ends s last mask w x)
    (hw : Relation.ReflTransGen (s.Steps last mask) vaddr w)
    (hv : Relation.ReflTransGen (s.Steps last mask) vaddr v) :
    v = w ∨ s.Readable v ∧ s.Grants mask v ∧ v ≤ w := by
  have hunique : Relator.RightUnique (s.Steps last mask) := by
    rintro u b c ⟨_, _, rfl, _⟩ ⟨_, _, rfl, _⟩
    rfl
  have hstop : ∀ u, ¬ s.Steps last mask w u := by
    rintro u ⟨hr, hg, rfl, hle⟩
    cases hends with
    | asserts _ hnot => exact hnot hr
    | fails _ _ hnot => exact hnot hg
    | passes _ _ hnot => exact hnot hle
  rcases Relation.ReflTransGen.total_of_right_unique hunique hv hw with hrun | hrun
  · rcases Relation.ReflTransGen.cases_head hrun with rfl | ⟨u, hstep, _⟩
    · exact .inl rfl
    · exact .inr ⟨hstep.1, hstep.2.1, le_of_run hrun⟩
  · rcases Relation.ReflTransGen.cases_head hrun with rfl | ⟨u, hstep, _⟩
    · exact .inl rfl
    · exact absurd hstep (hstop u)

theorem reports_none : Reports s vaddr len mask none ↔ ∀ a, Within vaddr len a → s.Grants mask a :=
  ⟨fun h => h.1.1 rfl, fun hall => ⟨iff_of_true rfl hall, fun _ _ h => by cases h⟩⟩

theorem reports_some {error : Word} : Reports s vaddr len mask (some (error, w)) ↔
    Within vaddr len w ∧ ¬ s.Grants mask w ∧
      ∀ a, Within vaddr len a → a < w → s.Grants mask a ∨ s.SamePage a w := by
  refine ⟨fun h => h.2 error w rfl, fun h => ⟨iff_of_false (fun he => by cases he)
    fun hall => h.2.1 (hall w h.1), fun e f hf => ?_⟩⟩
  cases hf
  exact h

theorem Ends.reports_iff (hle : vaddr ≤ vaddr + len - 1)
    (hw : Relation.ReflTransGen (s.Steps (vaddr + len - 1) mask) vaddr w)
    (hends : Ends s (vaddr + len - 1) mask w x) :
    (∃ r, x = .ok r ∧ Reports s vaddr len mask r) ↔ Stepped s vaddr len mask := by
  have hvisit : s.Visits vaddr (vaddr + len - 1) mask w := ⟨hle, hw⟩
  have hseen {v} (hv : s.Visits vaddr (vaddr + len - 1) mask v) := hends.eq_or_granted hw hv.2
  cases hends with
  | asserts fault hnot =>
    exact iff_of_false (fun ⟨_, hx, _⟩ => by cases hx) fun h => hnot (h.inside w hvisit).1
  | fails error hr hnot =>
    constructor
    · rintro ⟨r, hx, hreports⟩
      cases hx
      obtain ⟨hin, _, hbefore⟩ := reports_some.1 hreports
      refine ⟨fun v hv => ?_, fun a ha hbad => ⟨w, hvisit, hnot, ?_⟩⟩
      · rcases hseen hv with rfl | ⟨hvr, _, hvw⟩
        · exact ⟨hr, hin⟩
        · exact ⟨hvr, hv.bounds.1, lt_of_le_of_lt hvw hin.2⟩
      · by_cases haw : w ≤ a
        · exact .inl haw
        · exact .inr ((hbefore a ha (BitVec.not_le.1 haw)).resolve_left hbad)
    · intro h
      refine ⟨_, rfl, reports_some.2 ⟨(h.inside w hvisit).2, hnot, fun a ha haw => ?_⟩⟩
      by_cases hbad : s.Grants mask a
      · exact .inl hbad
      obtain ⟨v, hv, hvbad, hor⟩ := h.first a ha hbad
      rcases hseen hv with rfl | ⟨_, hvg, _⟩
      · exact .inr (hor.resolve_left (BitVec.not_le.2 haw))
      · exact absurd hvg hvbad
  | passes hr hg hend =>
    have hgranted {v} (hv : s.Visits vaddr (vaddr + len - 1) mask v) : s.Grants mask v := by
      rcases hseen hv with rfl | ⟨_, hvg, _⟩
      exacts [hg, hvg]
    constructor
    · rintro ⟨r, hx, hreports⟩
      cases hx
      refine ⟨fun v hv => ?_, fun a ha hbad => absurd (reports_none.1 hreports a ha) hbad⟩
      obtain ⟨hlow, hhigh⟩ := hv.bounds
      -- the loop has passed the end of the range, which is below 4 GB
      have hlt : w.toNat < 0xFC000000 := hr.1
      have hnext := toNat_nextPage hr
      rw [le_def] at hend hhigh
      rw [toNat_sub, toNat_add, show (1 : Word).toNat = 1 from rfl] at hend hhigh
      refine ⟨?_, hlow, by split_ifs at hnext <;> omega⟩
      rcases hseen hv with rfl | ⟨hvr, _⟩
      exacts [hr, hvr]
    · intro h
      refine ⟨_, rfl, reports_none.2 fun a ha => ?_⟩
      by_contra hbad
      obtain ⟨v, hv, hvbad, _⟩ := h.first a ha hbad
      exact hvbad (hgranted hv)

end

/-- The first 4 MB are mapped, and nothing else. -/
def onePage : Shadow := (pgcInit 0 fun _ _ => 0).setHv (.dir 0) 0 0x83

end Rhype.Pgcache
