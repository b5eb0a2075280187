import Rhype.Lbm.Acquire

/-!
# No bit is acquired twice

The invariant for at most 32 bits is that the bits of the word are those that are held.  With more
bits it is lost at bit 32, which `lbm_acquire` returns without setting it.
-/

namespace Rhype.LbmThreads

open BitVec Function

variable {num : Nat} {τ : Type} {s s' : LbmThreads num τ} {t : τ}

structure Inv (s : LbmThreads num τ) : Prop where
  bits : ∀ b < 64, (s.map.lbmBits 0).getLsbD b = decide (b ∈ s.held)
  size : ∀ b ∈ s.held, b < num
  once : s.held.Nodup
  fits : ∀ t i map, s.pc t = .set i map → i * 64 + ffz map < num
  -- a bit is released by one thread
  owns : ∀ t b, (s.pc t).releasing = some b → b ∈ s.held ∧
    ∀ t', (s.pc t').releasing = some b → t' = t
  done : s.failed = false

theorem ffz_clear {w : Uval} (h : ffz w < 64) : w.getLsbD (ffz w) = false := by
  have hne : ~~~w ≠ 0#64 := fun h0 => by
    rw [ffz, h0] at h
    exact absurd h (by decide +kernel)
  have hbit := getLsbD_true_ctz_of_ne_zero hne
  rw [← ffz, getLsbD_not] at hbit
  simpa [h] using hbit

theorem Inv.bit_set (hnum : num ≤ 32) (hs : Inv s) {b : Nat} (hrel : (s.pc t).releasing = some b) :
    (s.map.lbmBits (b / 64)).getLsbD (b % 64) = true := by
  have hheld := (hs.owns t b hrel).1
  have hlt := hs.size b hheld
  rw [Nat.div_eq_of_lt (by omega), Nat.mod_eq_of_lt (by omega), hs.bits b (by omega)]
  exact decide_eq_true hheld

variable [DecidableEq τ]

theorem Inv.goto (hs : Inv s) {pc : LbmPc}
    (hfits : ∀ i map, pc = .set i map → i * 64 + ffz map < num)
    (howns : ∀ b, pc.releasing = some b → b ∈ s.held ∧
      ∀ t', (s.pc t').releasing = some b → t' = t) : Inv (s.goto t pc) := by
  have hpc : ∀ t', (s.goto t pc).pc t' = if t' = t then pc else s.pc t' := fun t' =>
    update_apply ..
  refine ⟨hs.bits, hs.size, hs.once, fun t1 i map h => ?_, fun t1 b h => ?_, hs.done⟩
  · rw [hpc] at h
    split_ifs at h
    · exact hfits i map h
    · exact hs.fits t1 i map h
  · rw [hpc] at h
    split_ifs at h with ht1
    · refine ⟨(howns b h).1, fun t2 h2 => ?_⟩
      rw [hpc] at h2
      split_ifs at h2 with ht2
      · rw [ht1, ht2]
      · rw [ht1, (howns b h).2 t2 h2]
    refine ⟨(hs.owns t1 b h).1, fun t2 h2 => ?_⟩
    rw [hpc] at h2
    split_ifs at h2 with ht2
    · exact absurd ((howns b h2).2 t1 h) ht1
    · exact (hs.owns t1 b h).2 t2 h2

/-- **The steps inside the two functions.** -/
theorem Inv.go (hnum : num ≤ 32) (hs : Inv s) (t : τ) : Inv (s.go t) := by
  have hout : Inv (s.goto t .out) := hs.goto nofun nofun
  unfold LbmThreads.go
  split
  case h_1 => exact hs.goto nofun nofun
  case h_2 i hpc =>
    dsimp only
    split_ifs with hi hbit
    · refine hs.goto (fun _ _ h => ?_) nofun
      cases h
      exact hbit.2
    · exact hs.goto nofun nofun
    · exact hout
  case h_3 i map hpc =>
    have hlt := hs.fits t i map hpc
    obtain rfl : i = 0 := by omega
    rw [Nat.zero_mul, Nat.zero_add] at hlt ⊢
    split_ifs with hmap
    · -- the bit was clear when the word was swapped, so nobody held it
      have hfree : ffz map ∉ s.held := by
        have hbit := hs.bits (ffz map) (by omega)
        rw [hmap, ffz_clear (by omega)] at hbit
        simpa using hbit
      refine ⟨fun b hb => ?_, List.forall_mem_cons.2 ⟨hlt, hs.size⟩, hs.once.cons hfree, hout.fits,
        fun t' b h => (hout.owns t' b h).imp_left (.tail _), hs.done⟩
      dsimp only
      rw [update_self, BitVec.getLsbD_or, ← hmap, hs.bits b hb, getLsbD_setWidth,
        getLsbD_shiftLeft, getLsbD_one, Bool.eq_iff_iff]
      simp only [Bool.or_eq_true, decide_eq_true_eq, List.mem_cons, hmap]
      rw [Or.comm]
      refine or_congr_left ?_
      simp
      omega
    · exact hs.goto nofun nofun
  case h_4 bit hpc =>
    have hrel : (s.pc t).releasing = some bit := by rw [hpc]; rfl
    rw [if_pos (hs.bit_set hnum hrel)]
    refine hs.goto nofun fun b hb => ?_
    cases hb
    exact hs.owns t bit hrel
  case h_5 bit map hpc =>
    have hrel : (s.pc t).releasing = some bit := by rw [hpc]; rfl
    obtain ⟨hheld, halone⟩ := hs.owns t bit hrel
    have hlt := hs.size bit hheld
    rw [Nat.div_eq_of_lt (by omega), Nat.mod_eq_of_lt (by omega)]
    split_ifs with hmap
    · refine ⟨fun b hb => ?_, fun b hb => hs.size b (List.mem_of_mem_erase hb),
        hs.once.erase bit, hout.fits, fun t' b h => ?_, hs.done⟩
      · dsimp only
        rw [update_self, ← hmap, BitVec.getLsbD_and, hs.bits b hb, getLsbD_not, getLsbD_shiftLeft,
          getLsbD_one, Bool.eq_iff_iff]
        simp [hs.once.mem_erase_iff, hb]
        rw [And.comm]
        exact and_congr_left' (by omega)
      · refine (hout.owns t' b h).imp_left (hs.once.mem_erase_iff.2 ⟨?_, ·⟩)
        -- no other thread is releasing the bit
        rintro rfl
        by_cases ht : t' = t
        · simp [LbmThreads.goto, ht, LbmPc.releasing] at h
        · exact ht (halone t' ((congrArg _ (update_of_ne ht ..)).symm.trans h))
    · refine hs.goto nofun fun b hb => ?_
      cases hb
      exact ⟨hheld, halone⟩

theorem Inv.step (hnum : num ≤ 32) (hs : Inv s) {a : LbmAct τ} (hok : Ok s a)
    (hx : step s a = .ok s') : Inv s' := by
  cases a with
  | release t bit =>
    obtain ⟨-, -, hx⟩ := of_seq hx
    cases hx
    refine hs.goto nofun fun b hb => ?_
    cases hb
    exact ⟨hok.2.1, fun t' h => absurd h (hok.2.2 t')⟩
  | go t =>
    cases hx
    exact hs.go hnum t

/-- With at most 32 bits no bit is held twice, every bit that is held is below the size, no release
returns -1, and a release is done when its read and its `cas_uval` are not interrupted. -/
theorem held_of_run (hnum : num ≤ 32) (as : List (LbmAct τ)) (s : LbmThreads num τ)
    (hrun : Run step Ok (start num τ) as s) :
    s.held.Nodup ∧ (∀ b ∈ s.held, b < num) ∧ s.failed = false ∧
      ∀ t b, s.pc t = .find b → ∃ s', [.go t, .go t].foldlM step s = .ok s' ∧ s'.pc t = .out ∧
        s'.held = s.held.erase b ∧ s'.failed = false := by
  have hs : Inv s := hrun.invariant (fun _ _ _ hs hok => hs.step hnum hok)
    ⟨by simp [start], nofun, .nil, nofun, nofun, rfl⟩
  refine ⟨hs.once, hs.size, hs.done, fun t b hpc => ⟨(s.go t).go t, rfl, ?_⟩⟩
  have hset := hs.bit_set hnum (show (s.pc t).releasing = some b by rw [hpc]; rfl)
  have hgo : s.go t = s.goto t (.clear b (s.map.lbmBits (b / 64))) := by
    simp only [LbmThreads.go, hpc, if_pos hset]
  have hdone := ((hs.go hnum t).go hnum t).done
  rw [hgo] at hdone ⊢
  refine ⟨?_, ?_, hdone⟩ <;> simp [LbmThreads.go, LbmThreads.goto]

/-- A thread has acquired a bit and begins to release it. -/
theorem held_of_run_one : ∃ (as : List (LbmAct Bool)) (s s' : LbmThreads 2 Bool),
    Run step Ok (start 2 Bool) as s ∧ s.held = [0] ∧ s.pc true = .find 0 ∧
      [.go true, .go true].foldlM step s = .ok s' ∧ s'.held = [] := by
  obtain ⟨s, hrun, hheld, hpc⟩ : ∃ s, Run step Ok (start 2 Bool)
      [.go true, .go true, .go true, .release true 0] s ∧ s.held = [0] ∧ s.pc true = .find 0 := by
    refine ⟨_, .cons trivial rfl (.cons trivial rfl (.cons trivial rfl
      (.cons ⟨?_, ?_, ?_⟩ rfl (.nil _)))), ?_, ?_⟩
    all_goals decide +kernel
  obtain ⟨s', hx, -, hheld', -⟩ := (held_of_run (by decide) _ _ hrun).2.2.2 true 0 hpc
  exact ⟨_, s, s', hrun, hheld, hpc, hx, by rw [hheld', hheld]; rfl⟩

/-- With 64 bits the mask of bit 32 is 0: its `cas_uval` sets nothing, and the next call returns the
same bit again. -/
theorem held_twice : ∃ as s, Run step Ok (start 64 Unit) as s ∧ ¬ s.held.Nodup := by
  have hx : (do
      let s ← (List.replicate 102 (.go ())).foldlM step (start 64 Unit)
      .ok (decide s.held.Nodup)) = (.ok false : Hv Bool) := by
    decide +kernel
  obtain ⟨s, hs, hx⟩ := of_seq hx
  exact ⟨_, s, .of_foldlM (fun s => by simp [Ok]) hs, of_decide_eq_false (Except.ok.inj hx)⟩

end Rhype.LbmThreads
