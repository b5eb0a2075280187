import Rhype.Hash.Basic

/-!
# The memory of a hash table (`lib/hash.c`, `lib/objalloc.c`)

The first table is embedded in the structure, and every growth takes a new one from `halloc`.
-/

namespace Rhype

/-- A hash table with the place of its table, and the calls of `hfree` so far. -/
@[ext]
structure HashMem (α : Type) where
  ht : HashTable α
  /-- `ht_table`: the size that `halloc` was asked for, or `none` for `ht_init_table`. -/
  table : Option Nat
  /-- The tables and sizes that `hfree` was called with. -/
  hfrees : List (Option Nat × Nat)

/-- A call. -/
inductive HashOp (α : Type)
  | insert (e : Uval × α)
  | remove (key : Uval)

namespace HashMem

variable {α : Type} (hash : Uval → Nat → Uval) (mem : Nat → Nat → List (Uval × α))

/-- The calls with the one for the present table, whose size is given as the number of slots. -/
def hfree (m : HashMem α) : List (Option Nat × Nat) :=
  m.hfrees ++ [(m.table, 2 ^ m.ht.htLogTblSize)]

/-- `__ht_grow`: also the embedded table goes to `hfree`. -/
def grow (m : HashMem α) : HashMem α where
  ht := m.ht.grow hash mem
  table := some (HashTable.bytes (m.ht.htLogTblSize + 1))
  hfrees := m.hfree

/-- `ht_insert` and `ht_remove`. -/
def call (m : HashMem α) : HashOp α → HashMem α
  | .insert e =>
    let m := { m with ht := m.ht.insertEntry hash e }
    if m.ht.Full then m.grow hash mem else m
  | .remove key => { m with ht := (m.ht.remove hash key).2 }

/-- `ht_destroy`. -/
def destroy (m : HashMem α) : HashMem α :=
  if m.ht.htCount = 0 then { m with hfrees := m.hfree } else m

/-- The calls of a list, after `ht_init`. -/
def calls (ops : List (HashOp α)) : HashMem α :=
  ops.foldl (call hash mem) ⟨HashTable.init, none, []⟩

/-- Every call of `hfree` is given a table from `halloc` and the size that it was asked for. -/
def FreesMatch (m : HashMem α) : Prop := ∀ x ∈ m.hfrees, x.1 = some x.2

instance (m : HashMem α) : Decidable m.FreesMatch :=
  inferInstanceAs (Decidable (∀ x ∈ m.hfrees, _))

end HashMem

end Rhype
