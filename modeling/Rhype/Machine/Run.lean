import Mathlib.Data.List.Nodup

/-!
# Runs of a machine that may fail

A machine takes an action in a state and either fails or goes to a next state.  `Run step ok s as t`
says that the actions `as` lead from `s` to `t` without a failure, and that each of them meets the
condition `ok` in the state in which it is taken.  Every prefix of a run is a run, so what holds at
the end of every run holds in every state that is reached.
-/

namespace Rhype

open List

universe u v w

variable {σ : Type u} {α : Type v} {ε : Type w}

/-- The actions `as` lead from a state to another one, each under the condition `ok`. -/
inductive Run (step : σ → α → Except ε σ) (ok : σ → α → Prop) : σ → List α → σ → Prop
  | nil (s : σ) : Run step ok s [] s
  | cons {s t u : σ} {a : α} {as : List α} (hok : ok s a) (hstep : step s a = .ok t)
      (hrun : Run step ok t as u) : Run step ok s (a :: as) u

namespace Run

variable {step : σ → α → Except ε σ} {ok ok' : σ → α → Prop} {s t u : σ} {as bs : List α}
  {P : σ → Prop}

/-- **The rule of invariants**: what every step under the condition keeps, every run keeps. -/
theorem invariant (hpres : ∀ s a t, P s → ok s a → step s a = .ok t → P t)
    (hrun : Run step ok s as t) (hs : P s) : P t := by
  induction hrun with
  | nil s => exact hs
  | cons hok hstep _ ih => exact ih (hpres _ _ _ hs hok hstep)

theorem mono (hweak : ∀ s a, ok s a → ok' s a) (hrun : Run step ok s as t) :
    Run step ok' s as t := by
  induction hrun with
  | nil s => exact .nil s
  | cons hok hstep _ ih => exact .cons (hweak _ _ hok) hstep ih

/-- A reflexive and transitive relation that every step respects relates the ends of a run. -/
theorem related {R : σ → σ → Prop} (hrefl : ∀ s, R s s) (htrans : ∀ s t u, R s t → R t u → R s u)
    (hpres : ∀ s a t, ok s a → step s a = .ok t → R s t) (hrun : Run step ok s as t) : R s t := by
  induction hrun with
  | nil s => exact hrefl s
  | cons hok hstep _ ih => exact htrans _ _ _ (hpres _ _ _ hok hstep) ih

/-- Actions that a machine takes one after the other are a run. -/
theorem of_foldlM (hok : ∀ s, ∀ a ∈ as, ok s a) (hx : as.foldlM step s = .ok t) :
    Run step ok s as t := by
  induction as generalizing s with
  | nil =>
    cases hx
    exact .nil _
  | cons a as ih =>
    rw [foldlM_cons] at hx
    cases hs : step s a with
    | error e =>
      rw [hs] at hx
      cases hx
    | ok u =>
      rw [hs] at hx
      exact .cons (hok s a mem_cons_self) hs
        (ih (fun s b hb => hok s b (mem_cons_of_mem a hb)) hx)

/-- A loop over a list keeps what every round with an element of the list keeps. -/
theorem foldlM_invariant (hpres : ∀ s a t, a ∈ as → P s → step s a = .ok t → P t)
    (hx : as.foldlM step s = .ok t) (hs : P s) : P t := by
  induction as generalizing s with
  | nil =>
    cases hx
    exact hs
  | cons a as ih =>
    rw [foldlM_cons] at hx
    rcases hstep : step s a with e | u
    · rw [hstep] at hx
      cases hx
    rw [hstep] at hx
    have hrest : ∀ s b t, b ∈ as → P s → step s b = .ok t → P t :=
      fun s b t hb => hpres s b t (mem_cons_of_mem a hb)
    exact ih hrest hx (hpres s a u mem_cons_self hs hstep)

/-- A loop whose rounds all succeed and keep what they rely on. -/
theorem foldlM_ok (hstep : ∀ s, ∀ a ∈ as, P s → ∃ t, step s a = .ok t ∧ P t) (hs : P s) :
    ∃ t, as.foldlM step s = .ok t ∧ P t := by
  induction as generalizing s with
  | nil => exact ⟨s, rfl, hs⟩
  | cons a as ih =>
    obtain ⟨t, ht, hP⟩ := hstep s a mem_cons_self hs
    rw [foldlM_cons, ht]
    exact ih (fun s b hb => hstep s b (mem_cons_of_mem a hb)) hP

theorem foldlM_same (hsame : ∀ a ∈ as, step s a = .ok s) : as.foldlM step s = .ok s := by
  induction as with
  | nil => rfl
  | cons a as ih =>
    rw [foldlM_cons, hsame a mem_cons_self]
    exact ih fun b hb => hsame b (mem_cons_of_mem a hb)

theorem foldlM_once {a : α} (hmem : a ∈ as) (hs : ∀ b ∈ as, b ≠ a → step s b = .ok s)
    (ha : step s a = .ok t) (ht : ∀ b ∈ as, b ≠ a → step t b = .ok t) (hd : as.Nodup) :
    as.foldlM step s = .ok t := by
  induction as with
  | nil => cases hmem
  | cons b as ih =>
    rw [foldlM_cons]
    rw [nodup_cons] at hd
    rcases mem_cons.1 hmem with rfl | hmem
    · rw [ha]
      refine foldlM_same fun b hb => ht b (mem_cons_of_mem a hb) ?_
      rintro rfl
      exact hd.1 hb
    have hne : b ≠ a := fun h => hd.1 (h ▸ hmem)
    rw [hs b mem_cons_self hne]
    exact ih hmem (fun c hc => hs c (mem_cons_of_mem b hc))
      (fun c hc => ht c (mem_cons_of_mem b hc)) hd.2

end Run

/-! ### What holds along a list of actions -/

section

variable (step : σ → α → Except ε σ) (P : σ → Prop) (ok : σ → α → Prop)

/-- The property holds in every state that the actions lead through. -/
def AlongStates : σ → List α → Prop
  | s, [] => P s
  | s, a :: as => P s ∧ ∀ t, step s a = .ok t → AlongStates t as

/-- Every action that is reached meets the condition in the state in which it is taken. -/
def AlongSteps : σ → List α → Prop
  | _, [] => True
  | s, a :: as => ok s a ∧ ∀ t, step s a = .ok t → AlongSteps t as

variable {step P ok}

theorem AlongStates.head {s : σ} : ∀ {as : List α}, AlongStates step P s as → P s
  | [], h => h
  | _ :: _, h => h.1

/-- When the steps that keep a property are exactly those that meet a condition, the property holds
in all states exactly if all steps meet the condition. -/
theorem alongStates_iff {I : σ → Prop} (hinv : ∀ s a t, I s → step s a = .ok t → I t)
    (hstep : ∀ s a, I s → P s → ((∀ t, step s a = .ok t → P t) ↔ ok s a)) :
    ∀ {as : List α} {s : σ}, I s → P s → (AlongStates step P s as ↔ AlongSteps step ok s as)
  | [], _, _, hP => iff_of_true hP trivial
  | a :: as, s, hI, hP => by
    constructor
    · intro h
      have hkeep : ∀ t, step s a = .ok t → P t := fun t ht => (h.2 t ht).head
      exact ⟨(hstep s a hI hP).1 hkeep, fun t ht =>
        (alongStates_iff hinv hstep (hinv s a t hI ht) (hkeep t ht)).1 (h.2 t ht)⟩
    · intro h
      have hkeep := (hstep s a hI hP).2 h.1
      exact ⟨hP, fun t ht =>
        (alongStates_iff hinv hstep (hinv s a t hI ht) (hkeep t ht)).2 (h.2 t ht)⟩

end

/-! ### Machines that answer -/

section

variable {τ : Type w} {β : Type*}

/-- What the calls of a machine return, one after the other, and the state that they leave. -/
def results (call : σ → α → β × σ) (s : σ) : List α → List β × σ
  | [] => ([], s)
  | a :: as =>
    let (b, s) := call s a
    let (bs, s) := results call s as
    (b :: bs, s)

/-- **The rule of simulation**: if every call returns the same in related states and leaves related
states, so does every history. -/
theorem results_simulate {call : σ → α → β × σ} {call' : τ → α → β × τ} {R : σ → τ → Prop}
    (hcall : ∀ s t a, R s t → (call s a).1 = (call' t a).1 ∧ R (call s a).2 (call' t a).2)
    {s : σ} {t : τ} (h : R s t) (as : List α) :
    (results call s as).1 = (results call' t as).1 ∧
      R (results call s as).2 (results call' t as).2 := by
  induction as generalizing s t with
  | nil => exact ⟨rfl, h⟩
  | cons a as ih =>
    obtain ⟨hret, hnext⟩ := hcall s t a h
    obtain ⟨hrets, hend⟩ := ih hnext
    exact ⟨congr (congrArg _ hret) hrets, hend⟩

end

end Rhype
