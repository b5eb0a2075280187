import Rhype.Basic

/-!
# Hash tables (`include/hash.h`, `lib/hash.c`)

A table of `2^htLogTblSize` chains.  A chain is the list of the entries met by following `he_next`;
an entry is its key and the object that the entry is embedded in.  The functions take the hash
function of the table (`ht_hash`) as their first argument.

`halloc` clears an object that comes from a cache, but not pages: their contents are `pages`, by the
size and the slot, as the chain that the pointer there leads to.
-/

namespace Rhype

/-- `struct hash_table`. -/
structure HashTable (α : Type) where
  htCount : Uval
  htLogTblSize : Nat
  htTable : Nat → List (Uval × α)

namespace HashTable

variable {α : Type}

/-- `LOG_INIT_TBL_SIZE`. -/
def logInitTblSize : Nat := 2

/-- `RESIZE_MULTIPLE`. -/
def resizeMultiple : Nat := 4

variable (hash : Uval → Nat → Uval) (ht : HashTable α)

/-- The index of the chain of a key: `ht_hash(key) & ((1UL << ht_log_tbl_size) - 1)`. -/
def bucket (key : Uval) : Nat :=
  (hash key ht.htLogTblSize).toNat % 2 ^ ht.htLogTblSize

/-- The chain of a key. -/
def chain (key : Uval) : List (Uval × α) :=
  ht.htTable (ht.bucket hash key)

def setChain (key : Uval) (xs : List (Uval × α)) : HashTable α :=
  { ht with htTable := Function.update ht.htTable (ht.bucket hash key) xs }

/-- `ht_init`. -/
def init : HashTable α where
  htCount := 0
  htLogTblSize := logInitTblSize
  htTable := fun _ => []

/-- `__ht_insert`: the new entry is the first of its chain. -/
def insertEntry (e : Uval × α) : HashTable α :=
  let ht := ht.setChain hash e.1 (e :: ht.chain hash e.1)
  { ht with htCount := ht.htCount + 1 }

/-- The entries of the first `n` chains, in the order `__ht_grow` moves them. -/
def entries (ht : HashTable α) : Nat → List (Uval × α)
  | 0 => []
  | n + 1 => ht.entries n ++ ht.htTable n

/-- `sizeof(struct hash_entry*) * (1ULL << log)`. -/
def bytes (log : Nat) : Nat := 8 * 2 ^ log

/-- The table that `halloc` returns. -/
def newTable (pages : Nat → Nat → List (Uval × α)) (log : Nat) : Nat → List (Uval × α) :=
  if bytes log < 2 ^ 11 then fun _ => [] else pages (bytes log)

/-- `__ht_grow`: every entry is taken from the old table and inserted in one of twice the size. -/
def grow (pages : Nat → Nat → List (Uval × α)) : HashTable α :=
  let move := fun (t : HashTable α) (e : Uval × α) =>
    insertEntry hash { t with htCount := t.htCount - 1 } e
  (ht.entries (2 ^ ht.htLogTblSize)).foldl move
    { ht with
      htLogTblSize := ht.htLogTblSize + 1
      htTable := newTable pages (ht.htLogTblSize + 1) }

/-- The table is to grow. -/
def Full : Prop := resizeMultiple * 2 ^ ht.htLogTblSize ≤ ht.htCount.toNat

instance : Decidable ht.Full := inferInstanceAs (Decidable (_ ≤ _))

/-- `ht_insert`. -/
def insert (pages : Nat → Nat → List (Uval × α)) (e : Uval × α) : HashTable α :=
  let ht := ht.insertEntry hash e
  if ht.Full then ht.grow hash pages else ht

/-- `ht_lookup`: the first entry of the chain with the key. -/
def lookup (key : Uval) : Option α :=
  ((ht.chain hash key).find? fun e => e.1 == key).map Prod.snd

/-- `ht_remove`: unlink the first entry with the key; the count goes down in any case. -/
def remove (key : Uval) : Option α × HashTable α :=
  let xs := ht.chain hash key
  let ht := { ht with htCount := ht.htCount - 1 }
  match xs.find? fun e => e.1 == key with
  | none => (none, ht)
  | some e => (some e.2, ht.setChain hash key (xs.eraseP fun e => e.1 == key))

/-- `ht_pop`: the key to remove is that of the first entry of the first chain that is not empty. -/
def pop : Option α × HashTable α :=
  if ht.htCount = 0 then (none, ht)
  else
    match (ht.entries (2 ^ ht.htLogTblSize)).head? with
    | none => (none, ht)
    | some e => ht.remove hash e.1

/-- Unlink the first entry with this key and this object, without counting it. -/
def unlink [BEq α] (hash : Uval → Nat → Uval) (ht : HashTable α) (key : Uval) (a : α) :
    HashTable α :=
  ht.setChain hash key ((ht.chain hash key).eraseP fun e => e.1 == key && e.2 == a)

end HashTable

end Rhype
