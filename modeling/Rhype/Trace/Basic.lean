import Mathlib.Data.List.Basic

/-!
# Traces of events

A trace is the list of the events so far, oldest first.  `Open x stop l` says that the event `x` has
happened and no event of `stop` since; `Answered x y stop l` says that an event of `stop` is between
every `x` and every later `y`.  Both grow with the trace by one event at a time.
-/

namespace Rhype.Trace

open List

variable {ε : Type} {x y e : ε} {stop : ε → Prop} {l : List ε}

/-- The event `x` has happened, and no event of `stop` since. -/
def Open (x : ε) (stop : ε → Prop) (l : List ε) : Prop :=
  ∃ before after, l = before ++ x :: after ∧ ∀ e ∈ after, ¬ stop e

/-- Between `x` and a later `y` there is an event of `stop`. -/
def Answered (x y : ε) (stop : ε → Prop) (l : List ε) : Prop :=
  ∀ before between after, l = before ++ x :: (between ++ y :: after) → ∃ e ∈ between, stop e

theorem open_nil : ¬ Open x stop [] := by
  rintro ⟨before, after, heq, -⟩
  simp at heq

theorem Open.mem (hx : Open x stop l) : x ∈ l := by
  obtain ⟨before, after, rfl, -⟩ := hx
  simp

theorem answered_nil : Answered x y stop [] := by
  intro before between after heq
  simp at heq

theorem open_concat : Open x stop (l ++ [e]) ↔ Open x stop l ∧ ¬ stop e ∨ e = x := by
  constructor
  · rintro ⟨before, after, heq, hstop⟩
    rcases eq_nil_or_concat after with rfl | ⟨after, f, rfl⟩
    · obtain ⟨-, he⟩ := append_inj' heq rfl
      exact .inr (by simpa using he)
    have hsplit : l ++ [e] = (before ++ x :: after) ++ [f] := by simpa using heq
    obtain ⟨hl, he⟩ := append_inj' hsplit rfl
    obtain rfl : e = f := by simpa using he
    exact .inl ⟨⟨before, after, hl, fun a ha => hstop a (by simp [ha])⟩, hstop e (by simp)⟩
  · rintro (⟨⟨before, after, rfl, hstop⟩, he⟩ | rfl)
    · refine ⟨before, after ++ [e], by simp, fun a ha => ?_⟩
      rcases mem_append.1 ha with ha | ha
      · exact hstop a ha
      · rwa [mem_singleton.1 ha]
    · exact ⟨l, [], rfl, by simp⟩

/-- One more event: if it is `y`, no `x` may be open. -/
theorem answered_concat (hl : Answered x y stop l) (he : e = y → ¬ Open x stop l) :
    Answered x y stop (l ++ [e]) := by
  intro before between after heq
  rcases eq_nil_or_concat after with rfl | ⟨after, f, rfl⟩
  · have hsplit : l ++ [e] = (before ++ x :: between) ++ [y] := by simpa using heq
    obtain ⟨hbefore, hy⟩ := append_inj' hsplit rfl
    by_contra hnone
    apply he (by simpa using hy)
    exact ⟨before, between, hbefore, fun a ha hstop => hnone ⟨a, ha, hstop⟩⟩
  · have hsplit : l ++ [e] = (before ++ x :: (between ++ y :: after)) ++ [f] := by
      simpa using heq
    exact hl before between after (append_inj' hsplit rfl).1

end Rhype.Trace
