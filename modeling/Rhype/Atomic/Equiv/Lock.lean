import Rhype.Atomic.Lock

/-!
# What the lock word says

The two interfaces agree because every mark of an exclusive holder has the sign bit: the reader's
`cas_uval32` compares with a value without it, so it fails as long as somebody holds the lock alone.
It also fails when there are `2^31` readers, so the count stays within the word.
-/

namespace Rhype.LockThreads

open Finset Function

variable {τ : Type} [Fintype τ] {s : LockThreads τ} {t u : τ} {pc : LockPc} {w : BitVec 32}

/-- A thread that holds the lock alone has its mark in the word; without one the word counts the
holders. -/
structure Inv (s : LockThreads τ) : Prop where
  alone : ∀ t k, s.pc t = .held k → s.word = k.mark ∧ s.holders = {t}
  count : (∀ t k, s.pc t ≠ .held k) → s.word.toNat = #s.holders
  masked : ∀ t val, s.pc t = .readCas val → val.toNat < 2 ^ 31

theorem mem_holders : u ∈ s.holders ↔ (s.pc u).holds = true := by
  simp [holders]

theorem Inv.shared (hs : Inv s) (hlt : s.word.toNat < 2 ^ 31) (t : τ) (k : LockKind) :
    s.pc t ≠ .held k := by
  intro ht
  rw [(hs.alone t k ht).1] at hlt
  cases k <;> exact absurd hlt (by decide)

variable [DecidableEq τ]

omit [Fintype τ] in
theorem pc_goto : (s.goto t w pc).pc u = if u = t then pc else s.pc u := update_apply ..

theorem holders_goto : (s.goto t w pc).holders =
    if pc.holds then insert t s.holders else s.holders.erase t := by
  ext u
  rw [mem_holders, pc_goto]
  split_ifs with hu hpc hpc <;> simp [hu, hpc, mem_holders]

theorem Inv.goto_shared (hs : Inv s) (hnone : ∀ u ≠ t, ∀ k, s.pc u ≠ .held k)
    (hnew : ∀ k, pc ≠ .held k) (hval : ∀ val, pc ≠ .readCas val)
    (hcount : w.toNat = #(s.goto t w pc).holders) : Inv (s.goto t w pc) := by
  refine ⟨fun u k h => ?_, fun _ => hcount, fun u val h => ?_⟩
  all_goals rw [pc_goto] at h; split_ifs at h with hu
  · exact absurd h (hnew k)
  · exact absurd h (hnone u hu k)
  · exact absurd h (hval val)
  · exact hs.masked u val h

theorem Inv.goto (hs : Inv s) (hpc : pc.holds = (s.pc t).holds) (hold : ∀ k, s.pc t ≠ .held k)
    (hnew : ∀ k, pc ≠ .held k) (hval : ∀ val, pc = .readCas val → val.toNat < 2 ^ 31) :
    Inv (s.goto t s.word pc) := by
  have hholders : (s.goto t s.word pc).holders = s.holders := by
    rw [holders_goto, hpc]
    split_ifs with ht
    · exact insert_eq_of_mem (mem_holders.2 ht)
    · exact erase_eq_of_notMem (mt mem_holders.1 ht)
  refine ⟨fun u k h => ?_, fun hnone => ?_, fun u val h => ?_⟩
  · rw [pc_goto] at h
    split_ifs at h
    · exact absurd h (hnew k)
    · exact hholders ▸ hs.alone u k h
  · refine (hs.count fun u k h => ?_).trans (congrArg card hholders.symm)
    obtain rfl | hu := eq_or_ne u t
    · exact hold k h
    · exact hnone u k (by rw [pc_goto, if_neg hu, h])
  · rw [pc_goto] at h
    split_ifs at h
    · exact hval val h
    · exact hs.masked u val h

/-- **One access.** -/
theorem Inv.go (hs : Inv s) (t : τ) (op : LockOp) : Inv (s.go t op) := by
  unfold LockThreads.go
  split
  case h_1 k hpc =>
    split_ifs with hzero
    · have hnone := hs.shared (by rw [hzero]; decide)
      have hempty : s.holders = ∅ := by
        rw [← card_eq_zero, ← hs.count hnone, hzero]
        rfl
      have hself : (s.goto t k.mark (.held k)).pc t = .held k := update_self ..
      refine ⟨fun u k' h => ?_, fun h => absurd hself (h t k), fun u val h => ?_⟩
      all_goals rw [pc_goto] at h; split_ifs at h with hu
      · cases h
        exact ⟨rfl, by rw [hu, holders_goto, hempty]; rfl⟩
      · exact absurd h (hnone u k')
      · exact hs.masked u val h
    · exact hs
  case h_2 hpc =>
    refine hs.goto (by rw [hpc]; rfl) (by simp [hpc]) (by simp) fun val h => ?_
    cases h
    rw [BitVec.toNat_and]
    exact Nat.and_lt_two_pow _ (by decide)
  case h_3 _ val hpc =>
    split_ifs with hval
    · -- the value is without the sign bit, so the word is
      have hlt := hs.masked t val hpc
      have hnone := hs.shared (hval ▸ hlt)
      have hnew : t ∉ s.holders := by simp [mem_holders, hpc, LockPc.holds]
      have hin : (s.goto t (val + 1) .reading).holders = insert t s.holders := holders_goto
      refine hs.goto_shared (fun u _ => hnone u) (by simp) (by simp) ?_
      rw [hin, card_insert_of_notMem hnew, ← hs.count hnone, hval, BitVec.toNat_add]
      exact Nat.mod_eq_of_lt (Nat.succ_lt_succ hlt |>.trans (by decide))
    · exact hs.goto (by rw [hpc]; rfl) (by simp [hpc]) (by simp) (by simp)
  case h_4 hpc => exact hs.goto (by rw [hpc]; rfl) (by simp [hpc]) (by simp) (by simp)
  case h_5 _ val hpc =>
    split_ifs with hval
    · have ht : t ∈ s.holders := by simp [mem_holders, hpc, LockPc.holds]
      have hnone : ∀ u k, s.pc u ≠ .held k := by
        intro u k hu
        rw [(hs.alone u k hu).2, mem_singleton] at ht
        cases hpc.symm.trans (ht ▸ hu)
      have hout : (s.goto t (val - 1) .out).holders = s.holders.erase t := holders_goto
      have hpos := card_pos.2 ⟨t, ht⟩
      rw [← hs.count hnone, hval] at hpos
      refine hs.goto_shared (fun u _ => hnone u) (by simp) (by simp) ?_
      rw [hout, card_erase_of_mem ht, ← hs.count hnone, hval]
      exact BitVec.toNat_sub_of_le (BitVec.le_def.2 hpos)
    · exact hs.goto (by rw [hpc]; rfl) (by simp [hpc]) (by simp) (by simp)
  case h_6 _ k hpc =>
    obtain ⟨-, halone⟩ := hs.alone t k hpc
    have hout : (s.goto t 0 .out).holders = s.holders.erase t := holders_goto
    refine hs.goto_shared (fun u hu k' h => hu ?_) (by simp) (by simp) ?_
    · rw [← mem_singleton, ← halone, mem_holders, h]
      rfl
    · rw [hout, halone, erase_singleton]
      rfl

/-- **The lock word.**  After every interleaving of the two interfaces, a writer or plain holder is
the only holder, the word is the number of readers when only readers hold the lock, and 0 when
nobody does. -/
theorem lock_excludes (as : List (τ × LockOp)) :
    (∀ t k, (run as).pc t = .held k → (run as).holders = {t}) ∧
    ((∀ t k, (run as).pc t ≠ .held k) → (run as).word.toNat = #(run as).holders) ∧
    ((run as).holders = ∅ → (run as).word = 0) := by
  have hstart : Inv (⟨0, fun _ => .out⟩ : LockThreads τ) :=
    ⟨by simp, by simp [holders, LockPc.holds], by simp⟩
  have hs : Inv (run as) := as.foldlRecOn _ hstart fun s hs a _ => hs.go a.1 a.2
  refine ⟨fun t k ht => (hs.alone t k ht).2, hs.count, fun hempty => ?_⟩
  apply BitVec.eq_of_toNat_eq
  refine (hs.count fun t k ht => ?_).trans (card_eq_zero.2 hempty)
  rw [(hs.alone t k ht).2] at hempty
  exact singleton_ne_empty t hempty

end Rhype.LockThreads
