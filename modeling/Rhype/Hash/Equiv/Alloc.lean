import Rhype.Hash.Alloc

/-!
# What a hash table gives back to `hfree`

No call of `hfree` is right: the size is a number of slots and not of bytes, and the first one is
given the embedded table.  So the calls match exactly as long as there are none.
-/

namespace Rhype.HashMem

open HashTable (bytes newTable)
open List Nat

variable {α : Type} {hash : Uval → Nat → Uval} {mem mem' : Nat → Nat → List (Uval × α)}
  {m : HashMem α}

structure Inv (m : HashMem α) : Prop where
  sized : m.table = none ∨ m.table = some (bytes m.ht.htLogTblSize)
  freed : ∀ x ∈ m.hfrees, x.1 ≠ some x.2
  -- every growth is a call
  grown : m.ht.htLogTblSize = HashTable.logInitTblSize + m.hfrees.length

theorem Inv.hfree (h : Inv m) : ∀ x ∈ m.hfree, x.1 ≠ some x.2 := by
  intro x hx
  rcases mem_append.1 hx with hx | hx
  · exact h.freed x hx
  rw [mem_singleton.1 hx]
  rcases h.sized with hnone | hsome
  · simp [hnone]
  · have := Nat.two_pow_pos m.ht.htLogTblSize
    rw [hsome, bytes]
    grind

theorem log_grow : (m.grow hash mem).ht.htLogTblSize = m.ht.htLogTblSize + 1 :=
  foldlRecOn _ _ (motive := fun t : HashTable α => t.htLogTblSize = m.ht.htLogTblSize + 1) rfl
    fun _ h _ _ => h

theorem log_remove (ht : HashTable α) (key : Uval) :
    (ht.remove hash key).2.htLogTblSize = ht.htLogTblSize := by
  unfold HashTable.remove
  dsimp only
  split <;> rfl

theorem Inv.call (h : Inv m) (op : HashOp α) : Inv (m.call hash mem op) := by
  cases op with
  | insert e =>
    have hinsert : Inv { m with ht := m.ht.insertEntry hash e } := ⟨h.sized, h.freed, h.grown⟩
    unfold HashMem.call
    dsimp only
    split_ifs
    · refine ⟨.inr (by rw [log_grow]; rfl), hinsert.hfree, ?_⟩
      rw [log_grow, hinsert.grown]
      simp [HashMem.grow, HashMem.hfree, Nat.add_assoc]
    · exact hinsert
  | remove key =>
    have hlog := @log_remove α hash m.ht key
    exact ⟨hlog.symm ▸ h.sized, h.freed, hlog.trans h.grown⟩

/-- A small table is clear when `halloc` returns it. -/
theorem newTable_small {log : Nat} (hlog : log ≤ 7) : newTable mem log = fun _ => [] := by
  refine if_pos ?_
  calc bytes log ≤ bytes 7 := Nat.mul_le_mul_left 8 (Nat.pow_le_pow_right (by decide) hlog)
    _ < 2 ^ 11 := by decide

theorem call_eq (op : HashOp α) (hlog : (m.call hash mem op).ht.htLogTblSize ≤ 7) :
    m.call hash mem op = m.call hash mem' op := by
  cases op with
  | insert e =>
    unfold HashMem.call at hlog ⊢
    dsimp only at hlog ⊢
    split_ifs at hlog ⊢
    · rw [log_grow] at hlog
      simp only [HashMem.grow, HashTable.grow, newTable_small hlog]
    · rfl
  | remove key => rfl

theorem log_le_call (op : HashOp α) : m.ht.htLogTblSize ≤ (m.call hash mem op).ht.htLogTblSize := by
  cases op with
  | insert e =>
    unfold HashMem.call
    dsimp only
    split_ifs
    · rw [log_grow]
      exact Nat.le_succ _
    · exact le_rfl
  | remove key => exact (log_remove m.ht key).ge

/-- **The memory of a hash table.**  After any inserts and removals, and the destruction, the calls
of `hfree` match those of `halloc` only if there was none: the table is the embedded one, and the
destruction is refused.  The buckets do not depend on new memory as long as a table has at most 128
slots. -/
theorem hash_memory (hash : Uval → Nat → Uval) (mem : Nat → Nat → List (Uval × α))
    (ops : List (HashOp α)) :
    ((calls hash mem ops).destroy.FreesMatch ↔
      (calls hash mem ops).ht.htLogTblSize = HashTable.logInitTblSize ∧
        (calls hash mem ops).ht.htCount ≠ 0) ∧
    ((calls hash mem ops).ht.htLogTblSize ≤ 7 →
      ∀ mem', calls hash mem' ops = calls hash mem ops) := by
  constructor
  · have h : Inv (calls hash mem ops) :=
      foldlRecOn ops _ ⟨.inl rfl, by simp, rfl⟩ fun _ h op _ => h.call op
    unfold destroy
    split_ifs with hzero
    · refine iff_of_false (fun hall => ?_) fun hand => hand.2 hzero
      exact h.hfree _ mem_concat_self (hall _ mem_concat_self)
    · rw [and_iff_left hzero, h.grown, Nat.add_eq_left, length_eq_zero_iff]
      exact ⟨fun hall => eq_nil_iff_forall_not_mem.2 fun x hx => h.freed x hx (hall x hx),
        fun hnil => by simp [FreesMatch, hnil]⟩
  · intro hlog mem'
    induction ops using List.reverseRecOn with
    | nil => rfl
    | append_singleton ops op ih =>
      unfold calls at hlog ih ⊢
      rw [foldl_concat] at hlog
      rw [foldl_concat, foldl_concat, ih ((log_le_call op).trans hlog)]
      exact (call_eq op hlog).symm

/-- With 16 entries the embedded table, of 4 slots, is given to `hfree` as 4 bytes. -/
theorem hash_memory_grown :
    let m := calls (fun key _ => key) (fun _ _ => [])
      ((List.range 16).map fun i => .insert (BitVec.ofNat 64 i, ()))
    m.hfrees = [(none, 4)] ∧ ¬ m.FreesMatch := by
  decide +kernel

end Rhype.HashMem
