import Rhype.Lbm.Basic

/-!
# What `lbm_find_range` and `test_bits` find

`findRange_sound`: a run that `lbm_find_range` returns lies inside the words of the bitmap, and all
of its bits have the value that was asked for.  The loop invariant is `Matched`: the last `matched`
bits before `i` have the value.

`testBits_true` is what an accepted `test_bits` says: it looks at the bits from `bit` up to the
*length* of the run, so it covers the whole run only when `bit` is `0`.
-/

namespace Rhype.Lbm

open BitVec

variable {num : Nat} {l : Lbm num} {val numBits : Nat} {v : Bool}

theorem word_eq_ok {w : Nat} {v : Uval} : l.word w = .ok v ↔ w < words num ∧ l.lbmBits w = v := by
  unfold word
  split_ifs with h <;> simp [h]

/-! ### The test of a round -/

theorem getLsbD_testMask {m k : Nat} (hm : m ≤ 64) :
    (allOnes 64 >>> (64 - m) : Uval).getLsbD k = decide (k < m) := by
  rw [getLsbD_ushiftRight, getLsbD_allOnes]
  by_cases h : k < m
  · simp only [h, decide_true, decide_eq_true_eq]
    omega
  · simp only [h, decide_false, decide_eq_false_iff_not]
    omega

theorem bit_of_test {i j m : Nat} (hm : m ≤ 64 - i % 64) (hij : i ≤ j) (hjm : j < i + m)
    (h : (val = 1 ∧ (l.lbmBits (i / 64) >>> (i % 64)) &&& (allOnes 64 >>> (64 - m))
            = allOnes 64 >>> (64 - m)) ∨
      (val = 0 ∧ (l.lbmBits (i / 64) >>> (i % 64)) &&& (allOnes 64 >>> (64 - m)) = 0)) :
    l.bit j = decide (val = 1) := by
  have hdiv : j / 64 = i / 64 := by omega
  have hmod : j % 64 = i % 64 + (j - i) := by omega
  have hmask : (allOnes 64 >>> (64 - m) : Uval).getLsbD (j - i) = true := by
    rw [getLsbD_testMask (by omega)]
    exact decide_eq_true (by omega)
  have hbit : l.bit j = (l.lbmBits (i / 64) >>> (i % 64)
      &&& (allOnes 64 >>> (64 - m) : Uval)).getLsbD (j - i) := by
    rw [getLsbD_and, hmask, Bool.and_true, getLsbD_ushiftRight, bit, hdiv, hmod]
  rcases h with ⟨rfl, h⟩ | ⟨rfl, h⟩
  · rw [hbit, h, hmask]
    rfl
  · rw [hbit, h]
    simp

/-! ### The loop -/

/-- The invariant of the loop of `lbm_find_range`. -/
structure Matched (l : Lbm num) (val numBits i matched : Nat) : Prop where
  le : matched ≤ numBits
  run : matched ≠ 0 → matched ≤ i ∧ i ≤ words num * 64
  bits : ∀ j, j < i → i ≤ j + matched → l.bit j = decide (val = 1)

theorem matched_zero (i : Nat) : Matched l val numBits i 0 :=
  ⟨Nat.zero_le _, nofun, fun j _ _ => by omega⟩

theorem Matched.extend {i matched m : Nat} (h : Matched l val numBits i matched)
    (hw : i / 64 < words num) (hm : m ≤ 64 - i % 64) (hle : matched + m ≤ numBits)
    (hrun : ∀ j, i ≤ j → j < i + m → l.bit j = decide (val = 1)) :
    Matched l val numBits (i + m) (matched + m) := by
  refine ⟨hle, fun _ => ⟨?_, by omega⟩, fun j hj hjm => ?_⟩
  · rcases Nat.eq_zero_or_pos matched with h0 | hpos
    · omega
    · have := (h.run (by omega)).1
      omega
  · by_cases hij : i ≤ j
    · exact hrun j hij hj
    · exact h.bits j (by omega) (by omega)

theorem findLoop_matched {align base : Nat} : ∀ (fuel i matched : Nat) (r : Nat × Nat),
    Matched l val numBits i matched → findLoop l val numBits align base fuel i matched = .ok r →
    Matched l val numBits r.1 r.2
  | 0, _, _, _, _, h => by simp [findLoop] at h
  | fuel + 1, i, matched, r, hI, h => by
    unfold findLoop at h
    by_cases hloop : wsub i matched ≤ wsub (words num * 64) numBits
    · rw [if_pos hloop] at h
      obtain ⟨w, -, h⟩ := of_seq h
      by_cases hfast : (val ≠ 0 ∧ w = 0) ∨ (val = 0 ∧ w = .allOnes 64)
      · rw [if_pos hfast] at h
        exact findLoop_matched fuel _ 0 r (matched_zero _) h
      rw [if_neg hfast] at h
      dsimp only at h
      -- the position after the alignment of a first bit
      generalize hi' : (if matched = 0 then roundUp i align base else i) = i' at h
      have hI' : Matched l val numBits i' matched := by
        split_ifs at hi' with h0
        · rw [h0]
          exact matched_zero _
        · rwa [← hi']
      generalize hm : (if 64 - i' % 64 < numBits - matched then 64 - i' % 64
        else numBits - matched) = m at h
      have hm1 : m ≤ 64 - i' % 64 ∧ matched + m ≤ numBits := by
        have := hI'.le
        split_ifs at hm <;> omega
      obtain ⟨w', hw', h⟩ := of_seq h
      obtain ⟨hlt, rfl⟩ := word_eq_ok.1 hw'
      split_ifs at h with htest hdone
      · cases h
        exact hI'.extend hlt hm1.1 hm1.2 fun j hij hjm => bit_of_test hm1.1 hij hjm htest
      · exact findLoop_matched fuel _ _ r (hI'.extend hlt hm1.1 hm1.2 fun j hij hjm =>
          bit_of_test hm1.1 hij hjm htest) h
      · exact findLoop_matched fuel _ 0 r (matched_zero _) h
    · rw [if_neg hloop] at h
      cases h
      exact hI

/-- **`lbm_find_range`** returns a run of the value that was asked for, inside the bitmap. -/
theorem findRange_sound {logAlign base i : Nat}
    (h : l.findRange val numBits logAlign base = .ok (some i)) :
    i + numBits ≤ words num * 64 ∧ ∀ j, i ≤ j → j < i + numBits → l.bit j = decide (val = 1) := by
  unfold findRange at h
  split_ifs at h with h0
  · cases h
  obtain ⟨⟨k, matched⟩, hloop, h⟩ := of_seq h
  have hI := findLoop_matched _ _ _ _ (matched_zero _) hloop
  dsimp only at h hI
  split_ifs at h with hfull
  · cases h
    have hrun := hI.run (by omega)
    exact ⟨by omega, fun j hij hjn => hI.bits j (by omega) (by omega)⟩
  · cases h

/-! ### `test_bits` -/

/-- The loop reads its bits, and says whether all of them have the value. -/
theorem testBitsLoop_spec : ∀ (n b : Nat), b + n ≤ num →
    ∃ r, l.testBitsLoop v n b = .ok r ∧ (r = true ↔ ∀ j, b ≤ j → j < b + n → l.bit j = v)
  | 0, b, _ => ⟨true, rfl, iff_of_true rfl fun j hbj hj => by omega⟩
  | n + 1, b, hle => by
    have hbit : l.testBit b = .ok (l.bit b) := by
      rw [testBit, (hassert_ok (u := ())).2 (decide_eq_true (by omega)), ok_bind,
        word_eq_ok.2 ⟨by unfold words; omega, rfl⟩]
      rfl
    obtain ⟨r, hloop, hr⟩ := testBitsLoop_spec n (b + 1) (by omega)
    rw [testBitsLoop, hbit, ok_bind]
    split_ifs with hv
    · refine ⟨r, hloop, hr.trans
        ⟨fun h j hbj hj => ?_, fun h j hbj hj => h j (by omega) (by omega)⟩⟩
      rcases Nat.eq_or_lt_of_le hbj with rfl | hlt
      · exact hv
      · exact h j hlt (by omega)
    · exact ⟨false, rfl, iff_of_false nofun fun h => hv (h b le_rfl (by omega))⟩

/-- `test_bits` of a run inside the bitmap answers for the bits below the length of the run. -/
theorem testBits_spec {b n : Nat} (hle : b + n ≤ num) :
    ∃ r, l.testBits b n v = .ok r ∧ (r = true ↔ ∀ j, b ≤ j → j < n → l.bit j = v) := by
  rw [testBits, (hassert_ok (u := ())).2 (decide_eq_true hle)]
  obtain ⟨r, hloop, hr⟩ := testBitsLoop_spec (l := l) (v := v) (n - b) b (by omega)
  refine ⟨r, hloop, hr.trans ?_⟩
  constructor
  all_goals exact fun h j hbj hj => h j hbj (by omega)

/-- What an accepted `test_bits` says: only the bits below the length of the run were read. -/
theorem testBits_true {b n : Nat} (h : l.testBits b n v = .ok true) :
    b + n ≤ num ∧ ∀ j, b ≤ j → j < n → l.bit j = v := by
  have hle : b + n ≤ num := by
    obtain ⟨_, hle, -⟩ := of_seq h
    rwa [hassert_ok, decide_eq_true_eq] at hle
  obtain ⟨r, htest, hr⟩ := testBits_spec (l := l) (v := v) hle
  cases h.symm.trans htest
  exact ⟨hle, hr.1 rfl⟩

end Rhype.Lbm
