import Rhype.Lbm.Basic

/-!
# `lbm_set_bits` changes exactly the bits of its run

`setBits_spec`: when the run lies inside the bitmap, the call succeeds, and afterwards exactly the
bits of the run have the value.  The loop writes one word a round; a round writes the part of the
run that lies in its word (`getLsbD_setRound`), and the rest of the run starts at the next word.
-/

namespace Rhype.Lbm

open BitVec

variable {num : Nat} {val : Bool}

/-! ### Words -/

theorem bit_update (l : Lbm num) (w i : Nat) (v : Uval) :
    (⟨Function.update l.lbmBits w v⟩ : Lbm num).bit i
      = if i / 64 = w then v.getLsbD (i % 64) else l.bit i := by
  unfold bit
  by_cases h : i / 64 = w <;> simp [h]

theorem eq_of_bit_eq {l l' : Lbm num} (h : ∀ i, l.bit i = l'.bit i) : l = l' := by
  obtain ⟨f⟩ := l
  congr 1
  funext w
  refine eq_of_getLsbD_eq fun k hk => ?_
  have hbit := h (64 * w + k)
  unfold bit at hbit
  rwa [show (64 * w + k) / 64 = w by omega, show (64 * w + k) % 64 = k by omega] at hbit

theorem lt_words_of_lt {i : Nat} (h : i < num) : i / 64 < words num := by
  unfold words
  omega

/-! ### One round -/

theorem getLsbD_runMask {start stop k : Nat} (hk : k < 64) (hss : start ≤ stop) :
    (runMask start stop).getLsbD k = decide (start ≤ k ∧ k < stop) := by
  unfold runMask
  split_ifs with h
  · simp only [getLsbD_shiftLeft, getLsbD_allOnes, hk]
    by_cases hs : start ≤ k
    · simp [hs, show k - start < 64 by omega, show k < stop by omega]
    · simp [hs]
  simp only [getLsbD_xor, getLsbD_shiftLeft, getLsbD_allOnes, hk, decide_true, Bool.true_and]
  by_cases hs : start ≤ k
  · by_cases he : k < stop
    · simp [hs, he, show k - start < 64 by omega]
    · simp [hs, he, show ¬ k < start by omega, show k - start < 64 by omega,
        show k - stop < 64 by omega]
  · simp [hs, show k < stop by omega]

theorem getLsbD_setRound (w : Uval) {start stop k : Nat} (hk : k < 64) (hss : start ≤ stop) :
    (if val then w ||| runMask start stop else w &&& ~~~runMask start stop).getLsbD k
      = if start ≤ k ∧ k < stop then val else w.getLsbD k := by
  have hm := getLsbD_runMask hk hss
  cases val with
  | true =>
    rw [if_pos rfl, BitVec.getLsbD_or, hm]
    by_cases h : start ≤ k ∧ k < stop <;> simp [h]
  | false =>
    rw [if_neg (by simp), getLsbD_and, getLsbD_not, hm]
    by_cases h : start ≤ k ∧ k < stop <;> simp [h, hk]

/-! ### The loop -/

theorem setBitsLoop_spec : ∀ (fuel : Nat) (l : Lbm num) (startBit numBits : Nat),
    startBit + numBits ≤ num → (numBits = 0 ∨ words num ≤ startBit / 64 + fuel) →
    ∃ l', setBitsLoop val fuel l startBit numBits = .ok l' ∧
      ∀ i, l'.bit i = if startBit ≤ i ∧ i < startBit + numBits then val else l.bit i
  | fuel, l, startBit, 0, _, _ => by
    refine ⟨l, by cases fuel <;> rfl, fun i => ?_⟩
    rw [if_neg (by omega)]
  | 0, l, startBit, numBits + 1, hle, hfuel => by
    have hw : startBit / 64 < words num := lt_words_of_lt (by omega)
    omega
  | fuel + 1, l, startBit, numBits + 1, hle, hfuel => by
    have hw : startBit / 64 < words num := lt_words_of_lt (by omega)
    simp only [setBitsLoop, word, setWord, hw, if_true, ok_bind]
    generalize hl1 : (⟨Function.update l.lbmBits _ _⟩ : Lbm num) = l1
    -- the rest of the run is empty, or it starts at the next word
    obtain ⟨l', hl', hbit⟩ := setBitsLoop_spec fuel l1
      (startBit + (min (startBit % 64 + (numBits + 1)) 64 - startBit % 64))
      (numBits + 1 - (min (startBit % 64 + (numBits + 1)) 64 - startBit % 64))
      (by omega) (by simp only [words] at hfuel ⊢; omega)
    refine ⟨l', hl', fun i => ?_⟩
    rw [hbit i, ← hl1, bit_update]
    by_cases hi : i / 64 = startBit / 64
    · rw [if_pos hi, getLsbD_setRound _ (Nat.mod_lt i (by omega)) (by omega), ← hi]
      show (if _ then val else if _ then val else l.bit i) = _
      split_ifs <;> first | rfl | omega
    · rw [if_neg hi]
      split_ifs <;> first | rfl | omega

/-- **`lbm_set_bits`**: a run inside the bitmap gets the value, and every other bit is kept. -/
theorem setBits_spec (l : Lbm num) (val : Bool) {startBit numBits : Nat}
    (hle : startBit + numBits ≤ num) (hnum : num < 2 ^ 64) :
    ∃ l', l.setBits startBit numBits val = .ok l' ∧
      ∀ i, l'.bit i = if startBit ≤ i ∧ i < startBit + numBits then val else l.bit i := by
  have hwrap : wadd startBit numBits = startBit + numBits := Nat.mod_eq_of_lt (by omega)
  rw [setBits, if_neg (by omega)]
  exact setBitsLoop_spec _ l startBit numBits hle (by omega)

/-- A run that starts inside the bitmap is cut at its end. -/
theorem setBits_clipped (l : Lbm num) (val : Bool) {startBit numBits : Nat}
    (hstart : startBit ≤ num) (hnum : num < 2 ^ 64) (hwrap : startBit + numBits < 2 ^ 64) :
    ∃ l', l.setBits startBit numBits val = .ok l' ∧
      ∀ i, l'.bit i = if startBit ≤ i ∧ i < min (startBit + numBits) num then val else l.bit i := by
  have hadd : wadd startBit numBits = startBit + numBits := Nat.mod_eq_of_lt hwrap
  have hsub : wsub num startBit = num - startBit := by
    unfold wsub
    omega
  have hlen : (if num < startBit + numBits then num - startBit else numBits)
      = min (startBit + numBits) num - startBit := by
    split_ifs <;> omega
  rw [setBits, hadd, hsub, hlen]
  obtain ⟨l', hl', hbit⟩ := @setBitsLoop_spec num val (words num + 1) l startBit
    (min (startBit + numBits) num - startBit) (by omega) (by omega)
  refine ⟨l', hl', fun i => ?_⟩
  rw [hbit i, Nat.add_sub_cancel' (by omega)]

theorem setBits_clipped_ten : ∃ l', (⟨fun _ => 0⟩ : Lbm 10).setBits 8 5 true = .ok l' ∧
    ∀ i, l'.bit i =
      if 8 ≤ i ∧ i < min (8 + 5) 10 then true else (⟨fun _ => 0⟩ : Lbm 10).bit i :=
  setBits_clipped ⟨fun _ => 0⟩ true (by decide) (by decide) (by decide)

end Rhype.Lbm
