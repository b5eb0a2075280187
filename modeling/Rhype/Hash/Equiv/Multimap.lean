import Mathlib.Algebra.Order.Group.Multiset
import Rhype.Hash.Basic
import Rhype.Machine.Run

/-!
# Hash tables are multimaps

`Holds hash ht n m`: the chains of the table are the entries `m`, each in the chain of its key, and
`n` of them are counted.  An insertion adds its entry also when the table grows, since `__ht_grow`
inserts every entry anew, and a removal takes one out.

The count is another matter: `ht_remove` lowers it when it finds nothing, and `psm_rem_ptep` unlinks
without lowering it.  `ht_pop` trusts it.
-/

namespace Rhype.HashTable

open BitVec Function Multiset Option

variable {α : Type} {hash : Uval → Nat → Uval} {ht : HashTable α} {n key : Uval} {a : α}
  {m : Multiset (Uval × α)} {e : Uval × α} {pages : Nat → Nat → List (Uval × α)}

/-! ### What a table holds -/

/-- The table holds the entries `m` and has counted `n`. -/
structure Holds (hash : Uval → Nat → Uval) (ht : HashTable α) (n : Uval)
    (m : Multiset (Uval × α)) : Prop where
  chains : ∀ b, (ht.htTable b : Multiset (Uval × α)) = m.filter fun e => ht.bucket hash e.1 = b
  count : ht.htCount = n

namespace Holds

theorem init : (HashTable.init : HashTable α).Holds hash 0 0 := ⟨fun _ => rfl, rfl⟩

variable (h : ht.Holds hash n m)
include h

theorem insertEntry : (ht.insertEntry hash e).Holds hash (n + 1) (e ::ₘ m) := by
  refine ⟨fun b => ?_, congrArg (· + 1) h.count⟩
  show ((update ht.htTable _ _ b : List _) : Multiset _) =
    (e ::ₘ m).filter fun e' => ht.bucket hash e'.1 = b
  rw [update_apply]
  split_ifs with hb
  · subst hb
    rw [← cons_coe, chain, h.chains, filter_cons, if_pos rfl, singleton_add]
  · rw [h.chains, filter_cons, if_neg (Ne.symm hb), zero_add]

theorem entries : (ht.entries (2 ^ ht.htLogTblSize) : Multiset (Uval × α)) = m := by
  have hfirst : ∀ k, (ht.entries k : Multiset (Uval × α)) =
      m.filter fun e => ht.bucket hash e.1 < k := by
    intro k
    induction k with
    | zero => simp [HashTable.entries]
    | succ k ih =>
      have hno : (m.filter fun e => ht.bucket hash e.1 < k ∧ ht.bucket hash e.1 = k) = 0 :=
        filter_eq_nil.2 fun e _ he => he.1.ne he.2
      rw [HashTable.entries, ← coe_add, ih, h.chains, filter_add_filter, hno, add_zero]
      simp only [Nat.lt_succ_iff_lt_or_eq]
  rw [hfirst, filter_eq_self]
  exact fun e _ => Nat.mod_lt _ (Nat.two_pow_pos _)

theorem move (xs : List (Uval × α)) :
    (xs.foldl (fun t e => HashTable.insertEntry hash { t with htCount := t.htCount - 1 } e)
      ht).Holds hash n (m + xs) := by
  induction xs generalizing ht m with
  | nil => exact (add_zero m).symm ▸ h
  | cons e xs ih =>
    have hout : Holds hash { ht with htCount := ht.htCount - 1 } (n - 1) m :=
      ⟨h.chains, congrArg (· - 1) h.count⟩
    have hin := hout.insertEntry (e := e)
    rw [sub_add_cancel] at hin
    rw [← cons_coe, add_cons, ← cons_add]
    exact ih hin

theorem grow (hnew : newTable pages (ht.htLogTblSize + 1) = fun _ => []) :
    (ht.grow hash pages).Holds hash n m := by
  let fresh : HashTable α := ⟨ht.htCount, ht.htLogTblSize + 1, fun _ => []⟩
  have hfresh : fresh.Holds hash n 0 := ⟨fun _ => rfl, h.count⟩
  have hmove := hfresh.move (ht.entries (2 ^ ht.htLogTblSize))
  rw [zero_add, h.entries] at hmove
  unfold HashTable.grow
  rwa [hnew]

theorem insert (hnew : (ht.insertEntry hash e).Full →
    newTable pages (ht.htLogTblSize + 1) = fun _ => []) :
    (ht.insert hash pages e).Holds hash (n + 1) (e ::ₘ m) := by
  unfold HashTable.insert
  dsimp only
  split_ifs with hfull
  · exact h.insertEntry.grow (hnew hfull)
  · exact h.insertEntry

/-! ### What a key finds -/

theorem mem_chain : e ∈ ht.chain hash key ↔ e ∈ m ∧ ht.bucket hash e.1 = ht.bucket hash key := by
  rw [chain, ← mem_coe, h.chains, mem_filter]

theorem lookup_eq_none : ht.lookup hash key = none ↔ ∀ a, (key, a) ∉ m := by
  unfold lookup
  rw [map_eq_none_iff, List.find?_eq_none]
  constructor
  · exact fun hnone a ha => hnone _ (h.mem_chain.2 ⟨ha, rfl⟩) (beq_self_eq_true key)
  · intro hnone e he hkey
    obtain rfl := eq_of_beq hkey
    exact hnone e.2 (h.mem_chain.1 he).1

theorem remove_none (hx : ht.lookup hash key = none) :
    (ht.remove hash key).2.Holds hash (n - 1) m := by
  unfold HashTable.remove
  simp only [map_eq_none_iff.1 hx]
  exact ⟨h.chains, congrArg (· - 1) h.count⟩

theorem remove (hx : ht.lookup hash key = some a) :
    ∃ m', m = (key, a) ::ₘ m' ∧ (ht.remove hash key).2.Holds hash (n - 1) m' := by
  obtain ⟨e, hfind, rfl⟩ := map_eq_some_iff.1 hx
  obtain rfl : e.1 = key := by simpa using List.find?_some hfind
  obtain ⟨m, rfl⟩ := exists_cons_of_mem
    (h.mem_chain.1 (List.mem_of_find?_eq_some hfind)).1
  unfold HashTable.remove
  simp only [hfind]
  refine ⟨m, rfl, fun b => ?_, congrArg (· - 1) h.count⟩
  show ((update ht.htTable (ht.bucket hash e.1) _ b : List _) : Multiset _) =
    m.filter fun e' => ht.bucket hash e'.1 = b
  have hb := h.chains b
  rw [update_apply]
  split_ifs with heq
  · subst heq
    -- the chain is the entries before the one found, that one and the rest
    obtain ⟨hp, l, r, hl, hbefore⟩ := List.find?_eq_some_iff_append.1 hfind
    rw [filter_cons, if_pos rfl, singleton_add, show ht.htTable _ = _ from hl,
      coe_eq_coe.2 List.perm_middle, ← cons_coe,
      cons_inj_right] at hb
    rw [hl, List.eraseP_append_right (e :: r) fun x hx => by simpa using hbefore x hx,
      List.eraseP_cons_of_pos (p := fun e' : Uval × α => e'.1 == e.1) hp, hb]
  · rwa [filter_cons, if_neg (Ne.symm heq), zero_add] at hb

end Holds

theorem remove_fst : (ht.remove hash key).1 = ht.lookup hash key := by
  unfold remove lookup
  dsimp only
  cases (ht.chain hash key).find? fun e => e.1 == key <;> rfl

/-! ### Runs -/

/-- A call of the users of a table. -/
inductive Call (α : Type)
  | insert (e : Uval × α)
  | lookup (key : Uval)
  | remove (key : Uval)

/-- A table, and the entries that were inserted and not removed. -/
structure History (α : Type) where
  ht : HashTable α
  present : Multiset (Uval × α)

/-- A call, with new tables that are clear; what `ht_remove` hands out is present no longer. -/
def History.step [DecidableEq α] (hash : Uval → Nat → Uval) (s : History α) :
    Call α → Hv (History α)
  | .insert e => .ok ⟨s.ht.insert hash (fun _ _ => []) e, e ::ₘ s.present⟩
  | .lookup _ => .ok s
  | .remove key =>
    .ok ⟨(s.ht.remove hash key).2,
      (s.ht.remove hash key).1.elim s.present fun a => s.present.erase (key, a)⟩

/-- Only objects without a linked entry are inserted. -/
def History.Fresh (s : History α) : Call α → Prop
  | .insert e => e.2 ∉ s.present.map Prod.snd
  | _ => True

/-- **Multimap refinement**: the chains are the entries inserted and not removed, every object once
and in the chain of its key, and a key finds an entry exactly when one is present. -/
theorem chains_of_run [DecidableEq α] {calls : List (Call α)} {s : History α}
    (hrun : Run (History.step hash) History.Fresh ⟨init, 0⟩ calls s) :
    (∀ b, (s.ht.htTable b : Multiset (Uval × α)) =
        s.present.filter fun e => s.ht.bucket hash e.1 = b) ∧
      (s.present.map Prod.snd).Nodup ∧
      ∀ key, (s.ht.remove hash key).1 = s.ht.lookup hash key ∧
        (∀ a, s.ht.lookup hash key = some a → (key, a) ∈ s.present) ∧
        (s.ht.lookup hash key = none ↔ ∀ a, (key, a) ∉ s.present) := by
  obtain ⟨hd, n, h⟩ : (s.present.map Prod.snd).Nodup ∧ ∃ n, s.ht.Holds hash n s.present := by
    refine hrun.invariant (P := fun s => (s.present.map Prod.snd).Nodup ∧
      ∃ n, s.ht.Holds hash n s.present) ?_ ⟨nodup_zero, 0, .init⟩
    rintro s c t ⟨hd, n, h⟩ hok hstep
    cases c with obtain rfl := Except.ok.inj hstep
    | insert e =>
      refine ⟨?_, _, h.insert fun _ => ite_self _⟩
      rw [map_cons]
      exact nodup_cons.2 ⟨hok, hd⟩
    | lookup key => exact ⟨hd, n, h⟩
    | remove key =>
      rw [remove_fst]
      rcases hx : s.ht.lookup hash key with _ | a
      · exact ⟨hd, _, h.remove_none hx⟩
      obtain ⟨m, hm, hrem⟩ := h.remove hx
      rw [hm, map_cons] at hd
      rw [hm, Option.elim, erase_cons_head]
      exact ⟨(nodup_cons.1 hd).2, _, hrem⟩
  refine ⟨h.chains, hd, fun key => ⟨remove_fst, fun a hx => ?_, h.lookup_eq_none⟩⟩
  obtain ⟨m, hm, -⟩ := h.remove hx
  exact hm ▸ mem_cons_self _ m

theorem run_inserts [DecidableEq α] : ∀ (es : List (Uval × α)) {s : History α},
    (es.map Prod.snd).Nodup → (∀ e ∈ es, e.2 ∉ s.present.map Prod.snd) →
    ∃ t, Run (History.step hash) History.Fresh s (es.map .insert) t ∧
      t.ht = es.foldl (fun ht => ht.insert hash fun _ _ => []) s.ht
  | [], s, _, _ => ⟨s, .nil s, rfl⟩
  | e :: es, s, hnd, hnew => by
    rw [List.map_cons, List.nodup_cons] at hnd
    obtain ⟨t, hrun, ht⟩ := run_inserts es
      (s := ⟨s.ht.insert hash (fun _ _ => []) e, e ::ₘ s.present⟩) hnd.2 fun x hx hmem => by
        rcases mem_cons.1 (map_cons Prod.snd e s.present ▸ hmem) with heq | hmem
        · exact hnd.1 (heq ▸ List.mem_map_of_mem hx)
        · exact hnew x (.tail _ hx) hmem
    exact ⟨t, .cons (hnew e (.head _)) rfl hrun, ht⟩

/-- With 16 entries the table grows. -/
theorem chains_of_run_grown : ∃ s, Run (History.step fun key _ => key) History.Fresh ⟨init, 0⟩
    (((List.range 16).map fun i => (BitVec.ofNat 64 i, i)).map .insert) s ∧ s.ht.htLogTblSize = 3 ∧
    (s.present.map Prod.snd).Nodup := by
  obtain ⟨s, hrun, hs⟩ := @run_inserts _ (fun key _ => key) _
    ((List.range 16).map fun i => (BitVec.ofNat 64 i, i)) ⟨init, 0⟩ (by decide)
    (fun _ _ => notMem_zero _)
  refine ⟨s, hrun, ?_, (chains_of_run hrun).2.1⟩
  rw [hs]
  decide +kernel

/-! ### The count -/

/-- A call that changes a table; `unlink` is the page-share manager's own. -/
inductive Change (α : Type)
  | insert (e : Uval × α)
  | remove (key : Uval)
  | pop
  | unlink (key : Uval) (a : α)

def step [BEq α] (hash : Uval → Nat → Uval) (pages : Nat → Nat → List (Uval × α))
    (ht : HashTable α) : Change α → Hv (HashTable α)
  | .insert e => .ok (ht.insert hash pages e)
  | .remove key => .ok (ht.remove hash key).2
  | .pop => .ok (ht.pop hash).2
  | .unlink key a => .ok (ht.unlink hash key a)

/-- A table that grows gets a clear one, a removed key is present, and the page-share manager's
unlinking finds nothing. -/
def Counted (hash : Uval → Nat → Uval) (pages : Nat → Nat → List (Uval × α)) (ht : HashTable α) :
    Change α → Prop
  | .insert e => (ht.insertEntry hash e).Full → newTable pages (ht.htLogTblSize + 1) = fun _ => []
  | .remove key => ht.lookup hash key ≠ none
  | .unlink key a => (key, a) ∉ ht.chain hash key
  | .pop => True

theorem Holds.pop (h : ht.Holds hash n m) :
    (n = 0 ∨ m = 0) ∧ ht.pop hash = (none, ht) ∨
      ∃ key, ht.lookup hash key ≠ none ∧ ht.pop hash = ht.remove hash key := by
  unfold HashTable.pop
  rw [h.count]
  split_ifs with hn
  · exact .inl ⟨.inl hn, rfl⟩
  have hm := h.entries
  cases hhead : (ht.entries (2 ^ ht.htLogTblSize)).head? with
  | none =>
    rw [List.head?_eq_none_iff.1 hhead] at hm
    exact .inl ⟨.inr hm.symm, rfl⟩
  | some e =>
    have he : e ∈ m := hm ▸ List.mem_of_head? hhead
    exact .inr ⟨e.1, fun hnone => h.lookup_eq_none.1 hnone e.2 he, rfl⟩

theorem unlink_of_notMem [BEq α] [LawfulBEq α] (hx : (key, a) ∉ ht.chain hash key) :
    ht.unlink hash key a = ht := by
  have hnone : ∀ e ∈ ht.chain hash key, ¬ (e.1 == key && e.2 == a) = true := by
    rintro ⟨k, b⟩ he heq
    obtain ⟨rfl, rfl⟩ : k = key ∧ b = a := by simpa using heq
    exact hx he
  rw [unlink, List.eraseP_of_forall_not hnone]
  exact congrArg (HashTable.mk _ _) (update_eq_self _ _)

theorem Holds.remove_counted (h : ht.Holds hash (BitVec.ofNat 64 m.card) m)
    (hx : ht.lookup hash key ≠ none) :
    ∃ m', (ht.remove hash key).2.Holds hash (BitVec.ofNat 64 m'.card) m' := by
  obtain ⟨a, ha⟩ := ne_none_iff_exists'.1 hx
  obtain ⟨m', rfl, hrem⟩ := h.remove ha
  rw [card_cons, ofNat_add, show (1 : Uval) = 1#64 from rfl, add_sub_cancel] at hrem
  exact ⟨m', hrem⟩

/-- **The count** is the number of the linked entries as long as new tables are clear, only present
keys are removed and nothing is unlinked from outside, and `ht_pop` then finds an entry if there is
one. -/
theorem count_of_run [DecidableEq α] {changes : List (Change α)}
    (hrun : Run (step hash pages) (Counted hash pages) init changes ht)
    (hfit : (ht.entries (2 ^ ht.htLogTblSize)).length < 2 ^ 64) :
    ht.htCount.toNat = (ht.entries (2 ^ ht.htLogTblSize)).length ∧
      ((ht.pop hash).1 = none → ht.entries (2 ^ ht.htLogTblSize) = []) := by
  obtain ⟨m, h⟩ : ∃ m, ht.Holds hash (BitVec.ofNat 64 m.card) m := by
    refine hrun.invariant (P := fun ht => ∃ m, ht.Holds hash (BitVec.ofNat 64 m.card) m) ?_
      ⟨0, .init⟩
    rintro ht c t ⟨m, h⟩ hok hstep
    cases c with obtain rfl := Except.ok.inj hstep
    | insert e =>
      refine ⟨e ::ₘ m, ?_⟩
      rw [card_cons, ofNat_add]
      exact h.insert hok
    | remove key => exact h.remove_counted hok
    | pop =>
      rcases h.pop with ⟨-, hpop⟩ | ⟨key, hkey, hpop⟩
      · exact hpop ▸ ⟨m, h⟩
      · exact hpop ▸ h.remove_counted hkey
    | unlink key a => exact (unlink_of_notMem hok).symm ▸ ⟨m, h⟩
  rw [← coe_card, h.entries] at hfit ⊢
  rw [← coe_eq_zero, h.entries, h.count, toNat_ofNat, Nat.mod_eq_of_lt hfit]
  refine ⟨rfl, fun hnone => ?_⟩
  rcases h.pop with ⟨hz | hz, -⟩ | ⟨key, hkey, hpop⟩
  · have hcard := congrArg BitVec.toNat hz
    rw [toNat_ofNat, Nat.mod_eq_of_lt hfit] at hcard
    exact card_eq_zero.1 hcard
  · exact hz
  · rw [hpop, remove_fst] at hnone
    exact absurd hnone hkey

theorem count_of_run_one :
    ∃ ht, Run (step (fun key _ => key) fun _ _ => [])
      (Counted (fun key _ => key) fun _ _ => []) init [.insert (1, 7), .unlink 2 7, .pop] ht ∧
      ht.htCount.toNat = (ht.entries 4).length := by
  have hrun : Run (step (fun key _ => key) fun _ _ => [])
      (Counted (fun key _ => key) fun _ _ => []) init [.insert (1, 7), .unlink 2 7, .pop] _ :=
    .cons (fun _ => rfl) rfl (.cons (by unfold Counted; decide) rfl (.cons trivial rfl (.nil _)))
  exact ⟨_, hrun, (count_of_run hrun (by decide)).1⟩

/-- After the removal of an absent key `ht_pop` misses the entry that is linked. -/
theorem pop_misses :
    let ht :=
      ((init.insert (fun key _ => key) (fun _ _ => []) (1, 7)).remove (fun key _ => key) 2).2
    ht.htCount = 0 ∧ ht.entries 4 = [(1, 7)] ∧ (ht.pop fun key _ => key).1 = none := by
  decide

end Rhype.HashTable
