import Rhype.Lbm.Equiv.FindRange
import Rhype.Word.Align

/-!
# Which runs `lbm_find_range` misses

The loop looks at the runs that start at a multiple of the alignment, counted from `base`.  When a
run fails in its first word the loop goes on with the next one.  When it fails in a later word the
loop adds the alignment to the position of that *word* and rounds up, which is the next run only if
the alignment is not greater than a word, and `base` is a multiple of it (`findRange_spec`).
-/

namespace Rhype.Lbm

open BitVec Nat

variable {num : Nat} {l : Lbm num} {val n align base i matched k m : Nat}

/-- Some bit of the run is set. -/
def Taken (l : Lbm num) (s n : Nat) : Prop := ∃ j, s ≤ j ∧ j < s + n ∧ l.bit j = true

/-- Some bit of the run does not have the value. -/
def Spoiled (l : Lbm num) (val s n : Nat) : Prop :=
  ∃ j, s ≤ j ∧ j < s + n ∧ l.bit j ≠ decide (val = 1)

/-- No bit of the word has the value. -/
abbrev Spent (l : Lbm num) (val w : Nat) : Prop :=
  (val ≠ 0 ∧ l.lbmBits w = 0) ∨ (val = 0 ∧ l.lbmBits w = allOnes 64)

/-! ### Words and bits -/

theorem wsub_of_le {a b : Nat} (hle : b ≤ a) (ha : a < 2 ^ 64) : wsub a b = a - b := by
  unfold wsub
  omega

theorem alignOf_eq (hk : k < 31) : alignOf k = 2 ^ k := by
  rw [alignOf, mod_eq_of_lt (by omega), if_pos hk]

theorem bit_of_spent (hval : val ≤ 1) (hw : Spent l val (i / 64)) {j : Nat}
    (hj : j / 64 = i / 64) : l.bit j ≠ decide (val = 1) := by
  rw [bit, hj]
  rcases hw with ⟨hne, hw⟩ | ⟨rfl, hw⟩
  · simp [hw, show val = 1 by omega]
  · rw [hw, getLsbD_allOnes]
    simp [mod_lt]

theorem spoiled_of_test (hval : val ≤ 1) (hm : m ≤ 64 - i % 64)
    (h : ¬ ((val = 1 ∧ (l.lbmBits (i / 64) >>> (i % 64)) &&& (allOnes 64 >>> (64 - m))
            = allOnes 64 >>> (64 - m)) ∨
      (val = 0 ∧ (l.lbmBits (i / 64) >>> (i % 64)) &&& (allOnes 64 >>> (64 - m)) = 0))) :
    Spoiled l val i m := by
  by_contra hfree
  have hbit : ∀ k < m, (l.lbmBits (i / 64)).getLsbD (i % 64 + k) = decide (val = 1) := by
    intro k hk
    by_contra hne
    refine hfree ⟨i + k, by omega, by omega, ?_⟩
    rwa [bit, show (i + k) / 64 = i / 64 by omega, show (i + k) % 64 = i % 64 + k by omega]
  refine h ?_
  obtain rfl | rfl : val = 0 ∨ val = 1 := by omega
  · refine .inr ⟨rfl, eq_of_getLsbD_eq fun k _ => ?_⟩
    rw [getLsbD_and, getLsbD_testMask (by omega), getLsbD_ushiftRight]
    by_cases hk : k < m <;> simp [hk, hbit]
  · refine .inl ⟨rfl, eq_of_getLsbD_eq fun k _ => ?_⟩
    rw [getLsbD_and, getLsbD_testMask (by omega), getLsbD_ushiftRight]
    by_cases hk : k < m <;> simp [hk, hbit]

theorem roundUp_spec (hlt : i + base + 2 ^ k < 2 ^ 64) :
    i ≤ roundUp i (2 ^ k) base ∧ roundUp i (2 ^ k) base < i + 2 ^ k ∧
      2 ^ k ∣ roundUp i (2 ^ k) base + base := by
  have hpos : 0 < 2 ^ k := Nat.two_pow_pos k
  have hmask : 2 ^ 64 - 1 - wsub (2 ^ k) 1 = 2 ^ 64 - (2 ^ k - 1 + 1) := by
    unfold wsub
    omega
  have hsum : wsub (wadd (wadd i base) (2 ^ k)) 1 = i + base + (2 ^ k - 1) := by
    unfold wsub wadd
    omega
  have hy : i + base + (2 ^ k - 1) < 2 ^ 64 := by omega
  -- the bits below the alignment are cleared
  have hround : (i + base + (2 ^ k - 1)) &&& (2 ^ 64 - (2 ^ k - 1 + 1)) =
      2 ^ k * ((i + base + (2 ^ k - 1)) / 2 ^ k) := by
    refine eq_of_testBit_eq fun b => ?_
    rw [testBit_and, testBit_two_pow_sub_succ (by omega), testBit_two_pow_sub_one,
      testBit_two_pow_mul, testBit_div_two_pow]
    by_cases hb : k ≤ b
    · by_cases hb64 : b < 64
      · simp [hb, hb64]
      · have hhigh := testBit_lt_two_pow (hy.trans_le (Nat.pow_le_pow_right (by decide)
          (Nat.le_of_not_lt hb64)))
        simp [hb, hhigh]
    · simp [hb, Nat.lt_of_not_le hb]
  have hdiv := Nat.div_add_mod (i + base + (2 ^ k - 1)) (2 ^ k)
  have hmod := mod_lt (i + base + (2 ^ k - 1)) hpos
  have hres : roundUp i (2 ^ k) base + base = 2 ^ k * ((i + base + (2 ^ k - 1)) / 2 ^ k) := by
    rw [roundUp, hsum, hmask, hround, wsub]
    omega
  exact ⟨by omega, by omega, hres ▸ dvd_mul_right ..⟩

theorem roundUp_of_dvd (hlt : i + base + 2 ^ k < 2 ^ 64) (hdvd : 2 ^ k ∣ i + base) :
    roundUp i (2 ^ k) base = i := by
  obtain ⟨hle, hnear, hres⟩ := roundUp_spec hlt
  have hsub := eq_zero_of_dvd_of_lt (dvd_sub hres hdvd) (by omega)
  omega

theorem align_le (halign : align ∣ 64) (hi : align ∣ i) : align ≤ 64 - i % 64 :=
  le_of_dvd (by omega) (dvd_sub halign ((dvd_mod_iff halign).2 hi))

/-! ### The invariant -/

/-- The loop has come to `i`, and the last `matched` bits have the value: if `base` is aligned, no
run before that one has it. -/
structure Searched (l : Lbm num) (val n align base i matched : Nat) : Prop where
  lt : matched < n
  le : matched ≤ i
  near : matched = 0 → i ≤ words num * 64 - n → align ∣ i ∨ align ∣ i + base
  /-- A run goes on in the next word. -/
  word : matched ≠ 0 → 64 ∣ i ∧ align ∣ i - matched + base
  /-- The test of a whole word is made at its first bit. -/
  fresh : align ∣ base → matched = 0 → 64 ∣ i ∨ ¬ Spent l val (i / 64)
  none : align ∣ base → ∀ s, align ∣ s → s < i - matched → s + n ≤ words num * 64 →
    Spoiled l val s n

namespace Searched

theorem skip (hs : Searched l val n align base i matched) (hval : val ≤ 1)
    (halign : align ∣ 64 ∨ n = words num * 64) (hw : Spent l val (i / 64)) :
    Searched l val n align base (i + 64) 0 := by
  have hlt := hs.lt
  have h64 : align ∣ base → 64 ∣ i := by
    intro hb
    by_cases h0 : matched = 0
    · exact (hs.fresh hb h0).resolve_right (not_not.2 hw)
    · exact (hs.word h0).1
  refine ⟨by omega, zero_le _, fun _ hnext => ?_, nofun, fun hb _ => .inl (by
    have := h64 hb
    omega), fun hb s hdvd hlt' hfit => ?_⟩
  · rcases halign with halign | halign
    · by_cases h0 : matched = 0
      · refine (hs.near h0 (by omega)).imp (Nat.dvd_add · halign) fun h => ?_
        rw [add_right_comm]
        exact Nat.dvd_add h halign
      · exact .inl (Nat.dvd_add (halign.trans (hs.word h0).1) halign)
    · omega
  · have := h64 hb
    by_cases hbefore : s < i - matched
    · exact hs.none hb s hdvd hbefore hfit
    -- the run has a bit of the word
    by_cases hsi : s ≤ i
    · exact ⟨i, hsi, by omega, bit_of_spent hval hw rfl⟩
    · exact ⟨s, le_rfl, by omega, bit_of_spent hval hw (by omega)⟩

theorem round (hs : Searched l val n (2 ^ k) base i matched)
    (halign : 2 ^ k ∣ 64 ∨ 2 ^ k ∣ base ∧ 64 ∣ 2 ^ k ∧ n = words num * 64)
    (hguard : i - matched ≤ words num * 64 - n) (hlt : i + base + 2 ^ k < 2 ^ 64) {i' : Nat}
    (hi' : (if matched = 0 then roundUp i (2 ^ k) base else i) = i') :
    Searched l val n (2 ^ k) base i' matched ∧ 2 ^ k ∣ i' - matched + base ∧ i ≤ i' ∧
      i' / 64 = i / 64 ∧ (2 ^ k ∣ base → i' = i) := by
  split_ifs at hi' with h0
  · subst hi' h0
    obtain ⟨hle, hnear, hdvd⟩ := roundUp_spec hlt
    have hsame : 2 ^ k ∣ base → roundUp i (2 ^ k) base = i := by
      intro hb
      refine roundUp_of_dvd hlt ?_
      exact (hs.near rfl hguard).elim (Nat.dvd_add · hb) id
    have hword : roundUp i (2 ^ k) base / 64 = i / 64 := by
      rcases halign with halign | ⟨hb, -⟩
      · rcases hs.near rfl hguard with h | h
        · have := align_le halign h
          omega
        · rw [roundUp_of_dvd hlt h]
      · rw [hsame hb]
    refine ⟨⟨hs.lt, zero_le _, fun _ _ => .inr hdvd, nofun, fun hb => ?_, fun hb => ?_⟩, ?_, hle,
      hword, hsame⟩
    · rw [hsame hb]
      exact hs.fresh hb
    · rw [hsame hb]
      exact hs.none hb
    · rwa [Nat.sub_zero]
  · subst hi'
    exact ⟨hs, (hs.word h0).2, le_rfl, rfl, fun _ => rfl⟩

theorem fail (hs : Searched l val n align base i matched) (hstart : align ∣ i - matched + base)
    (hpos : 0 < align) (halign : align ∣ 64 ∨ 64 ∣ align ∧ n = words num * 64 ∧ i ≤ matched)
    (hw : ¬ Spent l val (i / 64)) (hm : matched + m ≤ n) (ht : Spoiled l val i m) :
    Searched l val n align base (i + align) 0 := by
  obtain ⟨j, hij, hjm, hbit⟩ := ht
  have hlt := hs.lt
  have hle := hs.le
  have hbefore : align ∣ base → ∀ s, align ∣ s → s ≤ i → s + n ≤ words num * 64 →
      Spoiled l val s n := by
    intro hb s hdvd hsi hfit
    by_cases hlt' : s < i - matched
    · exact hs.none hb s hdvd hlt' hfit
    · exact ⟨j, by omega, by omega, hbit⟩
  rcases halign with halign | ⟨halign, hall, hzero⟩
  · have hnear : align ∣ i ∨ align ∣ i + base := by
      by_cases h0 : matched = 0
      · rw [h0] at hstart
        exact .inr hstart
      · exact .inl (halign.trans (hs.word h0).1)
    have hdvd : align ∣ base → align ∣ i := fun hb => hnear.elim id (Nat.dvd_add_iff_left hb).2
    refine ⟨by omega, zero_le _, fun _ _ => ?_, nofun, fun hb _ => ?_,
      fun hb s hs' hlt' hfit => hbefore hb s hs' ?_ hfit⟩
    · refine hnear.imp (Nat.dvd_add · dvd_rfl) fun h => ?_
      rw [add_right_comm]
      exact Nat.dvd_add h dvd_rfl
    · -- the next position is in the same word, or it is the first one of the next word
      have hle64 := align_le halign (hdvd hb)
      by_cases hend : align = 64 - i % 64
      · exact .inl (by omega)
      · exact .inr (by rwa [show (i + align) / 64 = i / 64 by omega])
    · by_contra hgt
      have hgap : align ≤ s - i := le_of_dvd (by omega) (dvd_sub hs' (hdvd hb))
      omega
  · -- the only run is the one that starts at 0
    have h64 : 64 ∣ i := by
      by_cases h0 : matched = 0
      · rw [show i = 0 by omega]
        exact dvd_zero _
      · exact (hs.word h0).1
    exact ⟨by omega, zero_le _, fun _ _ => by omega, nofun,
      fun _ _ => .inl (Nat.dvd_add h64 halign),
      fun hb s hs' _ hfit => hbefore hb s hs' (by omega) hfit⟩

theorem more (hs : Searched l val n align base i matched) (hstart : align ∣ i - matched + base)
    (hm : matched + (64 - i % 64) < n) :
    Searched l val n align base (i + (64 - i % 64)) (matched + (64 - i % 64)) := by
  have hle := hs.le
  have hsub : i + (64 - i % 64) - (matched + (64 - i % 64)) = i - matched := by omega
  refine ⟨hm, by omega, fun h => by omega, fun _ => ⟨by omega, ?_⟩, fun _ h => by omega, ?_⟩
  · rwa [hsub]
  · rw [hsub]
    exact hs.none

end Searched

/-! ### The search -/

/-- What the loop has found: a run of the alignment before which there is none, or none at all. -/
def Finds (l : Lbm num) (val n align base : Nat) (r : Nat × Nat) : Prop :=
  (r.2 = n → align ∣ r.1 - n + base ∧
      (align ∣ base → ∀ s, align ∣ s → s < r.1 - n → Spoiled l val s n)) ∧
    (r.2 ≠ n → align ∣ base → ∀ s, align ∣ s → s + n ≤ words num * 64 → Spoiled l val s n)

theorem findLoop_finds (hval : val ≤ 1)
    (hwrap : words num * 64 + base + 2 ^ (k + 1) + 64 < 2 ^ 64) (hn : n ≤ words num * 64)
    (halign : 2 ^ k ∣ 64 ∨ 2 ^ k ∣ base ∧ 64 ∣ 2 ^ k ∧ n = words num * 64) :
    ∀ (fuel i matched : Nat), Searched l val n (2 ^ k) base i matched →
      i < words num * 64 + 2 ^ (k + 1) + 64 → 0 < fuel → words num * 64 < i + fuel →
      ∃ r, findLoop l val n (2 ^ k) base fuel i matched = .ok r ∧ Finds l val n (2 ^ k) base r
  | 0, _, _, _, _, hfuel, _ => absurd hfuel (lt_irrefl 0)
  | fuel + 1, i, matched, hs, hi, _, hfuel => by
    have hlt := hs.lt
    have hle := hs.le
    have hpos : 0 < 2 ^ k := Nat.two_pow_pos k
    have hpow : 2 ^ (k + 1) = 2 * 2 ^ k := pow_succ'
    rw [findLoop, wsub_of_le hle (by omega), wsub_of_le hn (by omega)]
    by_cases hguard : i - matched ≤ words num * 64 - n
    · have hword : l.word (i / 64) = .ok (l.lbmBits (i / 64)) := word_eq_ok.2 ⟨by omega, rfl⟩
      rw [if_pos hguard, hword, ok_bind]
      by_cases hw : Spent l val (i / 64)
      · rw [if_pos hw, show wadd i 64 = i + 64 from mod_eq_of_lt (by omega)]
        exact findLoop_finds hval hwrap hn halign fuel _ 0
          (hs.skip hval (halign.imp_right fun h => h.2.2) hw) (by omega) (by omega) (by omega)
      rw [if_neg hw]
      dsimp only
      generalize hi' : (if matched = 0 then roundUp i (2 ^ k) base else i) = i'
      obtain ⟨hs', hstart, hii, hdiv, hsame⟩ := hs.round halign hguard (by omega) hi'
      rw [hdiv, hword, ok_bind]
      rw [← hdiv] at hw ⊢
      generalize hm : (if 64 - i' % 64 < n - matched then 64 - i' % 64 else n - matched) = m
      have hm1 : m ≤ 64 - i' % 64 ∧ matched + m ≤ n := by split_ifs at hm <;> omega
      split_ifs with htest hdone
      · have hsub : i' + m - n = i' - matched := by omega
        refine ⟨_, rfl, fun _ => ?_, fun h => absurd hdone h⟩
        rw [hsub]
        exact ⟨hstart, fun hb s hdvd hs => hs'.none hb s hdvd hs (by omega)⟩
      · -- the run goes on, so the rest of the word was looked at
        have hm64 : m = 64 - i' % 64 := by split_ifs at hm <;> omega
        subst hm64
        exact findLoop_finds hval hwrap hn halign fuel _ _ (hs'.more hstart (by omega))
          (by omega) (by omega) (by omega)
      have halign' : 2 ^ k ∣ 64 ∨ 64 ∣ 2 ^ k ∧ n = words num * 64 ∧ i' ≤ matched := by
        refine halign.imp_right fun hand => ⟨hand.2.1, hand.2.2, ?_⟩
        rw [hsame hand.1]
        omega
      rw [show wadd i' (2 ^ k) = i' + 2 ^ k from mod_eq_of_lt (by omega)]
      exact findLoop_finds hval hwrap hn halign fuel _ 0 (hs'.fail hstart hpos halign' hw
        hm1.2 (spoiled_of_test hval hm1.1 htest)) (by omega) (by omega) (by omega)
    · rw [if_neg hguard]
      exact ⟨_, rfl, fun h => absurd h hlt.ne,
        fun _ hb s hdvd hfit => hs.none hb s hdvd (by omega) hfit⟩

/-- **`lbm_find_range`** ends inside the bitmap, with the first run of the value and the alignment
if `base` is aligned, when the alignment is not greater than a word or the run is as long as the
bitmap. -/
theorem findRange_spec (hval : val ≤ 1) (hk : k < 31)
    (hwrap : words num * 64 + base + 2 ^ (k + 1) + 64 < 2 ^ 64) (hpos : 0 < n)
    (hn : n ≤ words num * 64)
    (halign : 2 ^ k ∣ 64 ∨ 2 ^ k ∣ base ∧ 64 ∣ 2 ^ k ∧ n = words num * 64) :
    ∃ r, l.findRange val n k base = .ok r ∧
      (∀ i, r = some i → 2 ^ k ∣ i + base ∧
        (2 ^ k ∣ base → ∀ s, 2 ^ k ∣ s → s < i → Spoiled l val s n)) ∧
      (r = none → 2 ^ k ∣ base → ∀ s, 2 ^ k ∣ s → s + n ≤ words num * 64 →
        Spoiled l val s n) := by
  have hpow : 2 ^ (k + 1) = 2 * 2 ^ k := pow_succ'
  obtain ⟨-, hnear, hdvd⟩ := @roundUp_spec base 0 k (by omega)
  have hzero : 2 ^ k ∣ base → roundUp 0 (2 ^ k) base = 0 := by
    intro hb
    exact roundUp_of_dvd (by omega) (by rwa [zero_add])
  have hstart : Searched l val n (2 ^ k) base (roundUp 0 (2 ^ k) base) 0 :=
    ⟨hpos, zero_le _, fun _ _ => .inr hdvd, nofun,
      fun hb _ => .inl (by rw [hzero hb]; exact dvd_zero _),
      fun hb s _ hs => by rw [hzero hb] at hs; omega⟩
  obtain ⟨r, hloop, hfound, hnone⟩ := findLoop_finds hval hwrap hn halign (words num * 64 + 1) _ 0
    hstart (by omega) (by omega) (by omega)
  rw [findRange, if_neg (by omega), alignOf_eq hk, hloop, ok_bind]
  dsimp only
  split_ifs with hfull
  · refine ⟨_, rfl, ?_, nofun⟩
    rintro _ ⟨⟩
    rw [hfull]
    exact hfound hfull
  · exact ⟨_, rfl, nofun, fun _ => hnone hfull⟩

theorem findRange_complete (hk : k < 31) (hnum : words num * 64 < 2 ^ 62) (hpos : 0 < n)
    (hn : n ≤ words num * 64) (halign : 2 ^ k ∣ 64 ∨ 64 ∣ 2 ^ k ∧ n = words num * 64) :
    ∃ r, l.findRange 0 n k 0 = .ok r ∧
      (r = none → ∀ s, 2 ^ k ∣ s → s + n ≤ words num * 64 → Taken l s n) := by
  have hpow : 2 ^ (k + 1) ≤ 2 ^ 31 := Nat.pow_le_pow_right (by decide) hk
  obtain ⟨r, hr, -, hnone⟩ := @findRange_spec num l 0 n 0 k (zero_le 1) hk (by omega) hpos hn
    (halign.imp_right fun h => ⟨dvd_zero _, h⟩)
  refine ⟨r, hr, fun h s hdvd hfit => ?_⟩
  obtain ⟨j, hsj, hj, hbit⟩ := hnone h (dvd_zero _) s hdvd hfit
  exact ⟨j, hsj, hj, by simpa using hbit⟩

/-! ### Small alignments -/

theorem words_mul (h64 : 64 ∣ num) : words num * 64 = num := by
  unfold words
  omega

theorem align_small (hk : k ≤ 6) : 2 ^ k ∣ 64 ∧ 2 ^ (k + 1) ≤ 128 :=
  ⟨pow_dvd_pow 2 hk, Nat.pow_le_pow_right (by decide) (succ_le_succ hk)⟩

/-- For every bitmap of the size, and every length and base, the search reads only words of the
bitmap, and a run that it returns is aligned, inside and of the value. -/
def Contained (num k : Nat) : Prop :=
  ∀ (l : Lbm num) (val n base : Nat), val ≤ 1 → n ≤ num →
    num + base + 2 ^ (k + 1) + 128 < 2 ^ 64 →
    ∃ r, l.findRange val n k base = .ok r ∧ ∀ i, r = some i → 2 ^ k ∣ i + base ∧ i + n ≤ num ∧
      ∀ j, i ≤ j → j < i + n → l.bit j = decide (val = 1)

theorem contained (hk : k ≤ 6) (h64 : 64 ∣ num) : Contained num k := by
  intro l val n base hval hn hwrap
  rcases Nat.eq_zero_or_pos n with rfl | hpos
  · exact ⟨none, rfl, nofun⟩
  have hwords := words_mul h64
  obtain ⟨r, hr, hfound, -⟩ := @findRange_spec num l val n base k hval (by omega) (by omega)
    hpos (by omega) (.inl (align_small hk).1)
  refine ⟨r, hr, fun i hi => ⟨(hfound i hi).1, ?_⟩⟩
  rw [hi] at hr
  have hsound := findRange_sound hr
  rwa [hwords] at hsound

/-- The bitmap in which the first word is in use, and the first bit of each other one. -/
def firstFull (num : Nat) : Lbm num := ⟨fun w => if w = 0 then allOnes 64 else 1⟩

/-- With a greater alignment the position is rounded up beyond the bitmap. -/
theorem not_contained (h7 : 7 ≤ k) (hk : k < 31) : ¬ Contained (2 ^ k) k := by
  intro hall
  have hbig : 2 ^ 7 ≤ 2 ^ k := Nat.pow_le_pow_right (by decide) h7
  have hpow : 2 ^ (k + 1) ≤ 2 ^ 31 := Nat.pow_le_pow_right (by decide) hk
  have hsucc : 2 ^ (k + 1) = 2 * 2 ^ k := pow_succ'
  have hwords : words (2 ^ k) * 64 = 2 ^ k := words_mul (pow_dvd_pow 2 (by omega : 6 ≤ k))
  obtain ⟨r, hr, -⟩ := hall (firstFull _) 0 1 0 (by decide) (by omega) (by omega)
  obtain ⟨hle, hnear, hdvd⟩ := @roundUp_spec 0 64 k (by omega)
  rw [add_zero] at hdvd
  have hround := eq_of_dvd_of_lt_two_mul (by omega) hdvd (by omega)
  have hfuel : words (2 ^ k) * 64 + 1 = 2 ^ k - 1 + 1 + 1 := by omega
  have hword {w : Nat} (hw : w < words (2 ^ k)) :
      (firstFull (2 ^ k)).word w = .ok (if w = 0 then allOnes 64 else 1) :=
    word_eq_ok.2 ⟨hw, rfl⟩
  have hout : (firstFull (2 ^ k)).word (2 ^ k / 64) = .error (.bounds .lbm (2 ^ k / 64)) :=
    if_neg (by omega)
  rw [findRange, if_neg (by decide), alignOf_eq hk,
    roundUp_of_dvd (by omega) (by rw [zero_add]; exact dvd_zero _), hfuel, findLoop,
    wsub_of_le le_rfl (by decide), wsub_of_le (by omega) (by omega), if_pos (by omega),
    hword (by omega), ok_bind, if_pos (.inr ⟨rfl, rfl⟩), findLoop] at hr
  rw [show wadd 0 64 = 64 from rfl, wsub_of_le (zero_le _) (by decide),
    wsub_of_le (by omega) (by omega), if_pos (by omega), hword (by omega), ok_bind,
    if_neg (by decide)] at hr
  dsimp only at hr
  rw [if_pos rfl, hround, hout] at hr
  cases hr

/-- A run of the last word may lie behind the bits of the bitmap, if all of these are in use. -/
theorem dvd_of_contained (hnum : num < 2 ^ 63) (hall : Contained num 0) : 64 ∣ num := by
  by_contra h64
  let l : Lbm num :=
    ⟨fun w => if w = num / 64 then allOnes 64 >>> (64 - num % 64) else allOnes 64⟩
  have hbit : ∀ j < words num * 64, l.bit j = decide (j < num) := by
    intro j hj
    unfold words at hj
    by_cases hlast : j / 64 = num / 64
    · have hmod : (j % 64 < num % 64) = (j < num) := propext (by omega)
      simp only [bit, l, if_pos hlast, getLsbD_testMask (mod_lt num (by decide)).le, hmod]
    · simp only [bit, l, if_neg hlast, getLsbD_allOnes, mod_lt j (by decide : 0 < 64), decide_true]
      exact (decide_eq_true (by omega)).symm
  have hwords : num < words num * 64 := by
    unfold words
    omega
  have hupper : words num * 64 ≤ num + 64 := by
    unfold words
    omega
  obtain ⟨r, hr, -, hnone⟩ := @findRange_spec num l 0 1 0 0 (by decide) (by decide) (by omega)
    (by decide) (by omega) (.inl (by decide))
  obtain ⟨r', hr', hin⟩ := hall l 0 1 0 (by decide) (by omega) (by omega)
  cases hr.symm.trans hr'
  rcases r with _ | i
  · obtain ⟨j, hj, hj', hwrong⟩ := hnone rfl (dvd_zero _) num (one_dvd _) (by omega)
    rw [hbit j (by omega)] at hwrong
    exact hwrong (decide_eq_false (by omega))
  · obtain ⟨-, hfits, hclear⟩ := hin i rfl
    have hused := hclear i le_rfl (by omega)
    rw [hbit i (by omega), decide_eq_true (by omega)] at hused
    cases hused

/-- For every bitmap and every length the search ends, and finds a run if there is one. -/
def Complete (k base : Nat) : Prop :=
  ∀ (num : Nat) (l : Lbm num) (val n : Nat), val ≤ 1 → 0 < n → n ≤ num →
    num + base + 2 ^ (k + 1) + 128 < 2 ^ 64 →
    ∃ r, l.findRange val n k base = .ok r ∧
      (r = none → ∀ s, 2 ^ k ∣ s + base → s + n ≤ num → Spoiled l val s n)

theorem complete (hk : k ≤ 6) (hb : 2 ^ k ∣ base) : Complete k base := by
  intro num l val n hval hpos hn hwrap
  have hwords : num ≤ words num * 64 ∧ words num * 64 < num + 64 := by
    unfold words
    omega
  obtain ⟨r, hr, -, hnone⟩ := @findRange_spec num l val n base k hval (by omega) (by omega)
    hpos (by omega) (.inl (align_small hk).1)
  refine ⟨r, hr, fun h s hdvd hfit => hnone h hb s ((Nat.dvd_add_iff_left hb).2 hdvd) ?_⟩
  omega

/-- The bitmap in which only the first bit of a word is in use. -/
def oneUsed (num w : Nat) : Lbm num := ⟨fun w' => if w' = w then 1 else 0⟩

/-- The run at `i` fails at the first bit of the next word, and the run at `i + d` is passed by. -/
theorem findLoop_jumps {d : Nat} (h64 : 64 ∣ d) (hlow : 64 * (i / 64) + 64 < i + d)
    (hhigh : i + d < 64 * (i / 64) + 64 + 2 ^ k) (hdvd : 2 ^ k ∣ i + base)
    (hwrap : i + d + base + 2 ^ (k + 1) + 128 < 2 ^ 64) (fuel : Nat) :
    findLoop (oneUsed (d + 64 * (i / 64) + 128) (i / 64 + 1)) 0 (64 * (i / 64) + 128 - i) (2 ^ k)
      base (fuel + 3) i 0 = .ok (64 * (i / 64) + 64 + 2 ^ k, 0) := by
  have hsucc : 2 ^ (k + 1) = 2 * 2 ^ k := pow_succ'
  have hwords : words (d + 64 * (i / 64) + 128) * 64 = d + 64 * (i / 64) + 128 :=
    words_mul (by omega)
  have hword {w : Nat} (hw : w < words (d + 64 * (i / 64) + 128)) :
      (oneUsed (d + 64 * (i / 64) + 128) (i / 64 + 1)).word w =
        .ok (if w = i / 64 + 1 then 1 else 0) := word_eq_ok.2 ⟨hw, rfl⟩
  have hroom : wsub (words (d + 64 * (i / 64) + 128) * 64) (64 * (i / 64) + 128 - i) = i + d := by
    rw [wsub_of_le (by omega) (by omega)]
    omega
  rw [findLoop, hroom, wsub_of_le (zero_le _) (by omega), if_pos (by omega), hword (by omega),
    ok_bind, if_neg (by simp)]
  -- the rest of the first word is free
  dsimp only
  rw [if_pos rfl, roundUp_of_dvd (by omega) hdvd, if_pos (by omega), hword (by omega), ok_bind,
    if_pos (by simp), if_neg (by omega), findLoop, hroom, wsub_of_le (by omega) (by omega),
    if_pos (by omega), hword (by omega), ok_bind, if_neg (by split_ifs <;> simp)]
  -- the first bit of the second word is not
  dsimp only
  have hnext : i + (64 - i % 64) = 64 * (i / 64) + 64 := by omega
  rw [if_neg (by omega), hnext, if_neg (by omega), hword (by omega), ok_bind, if_neg ?_, findLoop,
    hroom, wadd, mod_eq_of_lt (by omega), wsub_of_le (zero_le _) (by omega), if_neg (by omega)]
  rw [show (64 * (i / 64) + 64) / 64 = i / 64 + 1 by omega,
    show (64 * (i / 64) + 64) % 64 = 0 by omega,
    show 64 * (i / 64) + 128 - i - (0 + (64 - i % 64)) = 64 by omega, if_pos rfl]
  decide

theorem not_complete (hk : k < 31) (hbase : base < 2 ^ 63) (hnot : ¬ (k ≤ 6 ∧ 2 ^ k ∣ base)) :
    ¬ Complete k base := by
  intro hall
  have hsucc : 2 ^ (k + 1) = 2 * 2 ^ k := pow_succ'
  have hpow : 2 ^ (k + 1) ≤ 2 ^ 31 := Nat.pow_le_pow_right (by decide) hk
  obtain ⟨-, hnear, hdvd⟩ := @roundUp_spec base 0 k (by omega)
  generalize hi : roundUp 0 (2 ^ k) base = i at hnear hdvd
  -- the next run that does not begin at the position where the first one fails
  obtain ⟨d, h64, hd, hlow, hhigh, hle⟩ : ∃ d, 64 ∣ d ∧ 2 ^ k ∣ d ∧
      64 * (i / 64) + 64 < i + d ∧ i + d < 64 * (i / 64) + 64 + 2 ^ k ∧ d ≤ 2 ^ 31 := by
    by_cases h6 : k ≤ 6
    · have hsmall : 2 ^ k ≤ 64 := le_of_dvd (by decide) (align_small h6).1
      have hpos : i ≠ 0 := by
        rintro rfl
        rw [zero_add] at hdvd
        exact hnot ⟨h6, hdvd⟩
      exact ⟨64, dvd_rfl, (align_small h6).1, by omega, by omega, by decide⟩
    · have hbig : 2 ^ 7 ≤ 2 ^ k := Nat.pow_le_pow_right (by decide) (by omega)
      exact ⟨2 ^ k, pow_dvd_pow 2 (by omega : 6 ≤ k), dvd_rfl, by omega, by omega, by omega⟩
  obtain ⟨r, hr, hnone⟩ := hall _ (oneUsed (d + 64 * (i / 64) + 128) (i / 64 + 1)) 0
    (64 * (i / 64) + 128 - i) (by decide) (by omega) (by omega) (by omega)
  have hwords : words (d + 64 * (i / 64) + 128) * 64 = d + 64 * (i / 64) + 128 :=
    words_mul (by omega)
  have hfuel : words (d + 64 * (i / 64) + 128) * 64 + 1 = d + 64 * (i / 64) + 126 + 3 := by omega
  rw [findRange, if_neg (by omega), alignOf_eq hk, hi, hfuel,
    findLoop_jumps h64 hlow hhigh hdvd (by omega), ok_bind] at hr
  dsimp only at hr
  rw [if_neg (by omega)] at hr
  cases hr
  obtain ⟨j, hj, -, hwrong⟩ := hnone rfl (i + d) (by rw [add_right_comm]; exact Nat.dvd_add hdvd hd)
    (by omega)
  by_cases hw : j / 64 = i / 64 + 1
  · simp [bit, oneUsed, hw, show j % 64 ≠ 0 by omega] at hwrong
  · simp [bit, oneUsed, hw] at hwrong

end Rhype.Lbm
