import Mathlib.Data.BitVec
import Mathlib.Logic.Function.Basic

/-!
# Machine words, constants and faults

The hypervisor is modelled for the 64-bit PowerPC build: `uval` is a 64-bit word.  Signed return
values (`sval`) are integers, with the codes of `include/lpar.h`.

Every access to a table of the hypervisor is checked against the bound of that table.  An access
outside it, the use of a `NULL` or freed pointer and a failed `assert` end the computation with a
`Fault`: the C program either stops there or goes on with memory it does not own.
-/

namespace Rhype

open Function

/-- `uval`: the unsigned machine word of the 64-bit build. -/
abbrev Uval := BitVec 64

/-- `sval`: a signed return value. -/
abbrev Sval := Int

/-- A `struct logical_chunk_info *`. -/
abbrev LciId := Nat

/-- A `struct sys_resource *`.  The resource embedded in a chunk has the number of the chunk. -/
abbrev ResId := Nat

/-- A `struct os *`. -/
abbrev OsId := Nat

/-! ### Faults -/

/-- The tables whose accesses are checked. -/
inductive Table
  | htab
  | shadow
  | chunk
  | psm
  | lbm
  | tce
  | dart
  | cpu
  | llanPool
  | claimed
  | devtree
  | hexBuf
  deriving DecidableEq, Repr

/-- Where the C program stops, or goes on with memory that is not its own. -/
inductive Fault
  /-- Entry `i` of table `t` is accessed, and `i` is not below the size of the table. -/
  | bounds (t : Table) (i : Nat)
  /-- A `NULL` pointer (or a `NULL` operation) is used. -/
  | null
  /-- The object behind the pointer was freed, or is of another type. -/
  | dangling
  /-- An `assert` failed: `assprint` ends in `breakpoint`, which hangs. -/
  | assertion
  /-- A loop is still running after its number of rounds. -/
  | spin
  deriving DecidableEq, Repr

/-- A computation of the hypervisor. -/
abbrev Hv := Except Fault

/-- `assert(EX, MSG...)`. -/
def hassert (b : Bool) : Hv Unit :=
  if b then .ok () else .error .assertion

/-- Dereference of a pointer that may be `NULL`. -/
def nonNull {α : Type} : Option α → Hv α
  | some a => .ok a
  | none => .error .null

/-- Lookup of an object in the heap. -/
def live {α : Type} : Option α → Hv α
  | some a => .ok a
  | none => .error .dangling

@[simp]
theorem hassert_ok {b : Bool} {u : Unit} : hassert b = .ok u ↔ b = true := by
  cases b <;> simp [hassert]

@[simp]
theorem nonNull_ok {α : Type} {o : Option α} {a : α} : nonNull o = .ok a ↔ o = some a := by
  cases o <;> simp [nonNull]

@[simp]
theorem live_ok {α : Type} {o : Option α} {a : α} : live o = .ok a ↔ o = some a := by
  cases o <;> simp [live]

/-- A sequence of two computations succeeds exactly when both do. -/
theorem seq_ok {α β : Type} {x : Hv α} {f : α → Hv β} {b : β} :
    (x >>= f) = .ok b ↔ ∃ a, x = .ok a ∧ f a = .ok b := by
  rcases x with e | a
  · exact ⟨nofun, nofun⟩
  · exact ⟨fun h => ⟨a, rfl, h⟩, fun ⟨_, h, hf⟩ => by cases h; exact hf⟩

theorem of_seq {α β : Type} {x : Hv α} {f : α → Hv β} {b : β} (h : (x >>= f) = .ok b) :
    ∃ a, x = .ok a ∧ f a = .ok b :=
  seq_ok.1 h

theorem of_live {α β : Type} {o : Option α} {f : α → Hv β} {b : β} (h : (live o >>= f) = .ok b) :
    ∃ a, o = some a ∧ f a = .ok b := by
  simpa only [seq_ok, live_ok] using h

@[simp]
theorem ok_bind {α β : Type} (a : α) (f : α → Hv β) : ((.ok a : Hv α) >>= f) = f a := rfl

@[simp]
theorem error_bind {α β : Type} (e : Fault) (f : α → Hv β) :
    ((.error e : Hv α) >>= f) = .error e := rfl

/-! ### Stores -/

section

variable {α β γ : Type*} [DecidableEq α] {i j : α} {f : α → Option β} {b : β}

theorem apply_update_eq {f : α → β} {g : β → γ} {y : γ} :
    g (update f i b j) = y ↔ j = i ∧ g b = y ∨ j ≠ i ∧ g (f j) = y := by
  rw [update_apply]
  split_ifs with h <;> simp [h]

theorem update_some_eq_some {a : β} :
    update f i (some a) j = some b ↔ j = i ∧ a = b ∨ j ≠ i ∧ f j = some b := by
  rw [update_apply]
  split_ifs with h <;> simp [h]

theorem update_none_eq_some : update f i none j = some b ↔ j ≠ i ∧ f j = some b := by
  rw [update_apply]
  split_ifs with h <;> simp [h]

end

/-! ### Sizes (`mmu_defs.h`, `logical.h`, `psm.h`) -/

/-- `LOG_PGSIZE`. -/
def logPgsize : Nat := 12

/-- `PGSIZE`. -/
def pgsize : Uval := 4096

/-- `LOG_CHUNKSIZE`, the default of `configure`. -/
def logChunksize : Nat := 26

/-- `CHUNK_SIZE`. -/
def chunkSize : Uval := 67108864

/-- `MAX_LOGICAL_MEM_CHUNKS`: one page of pointers. -/
def maxLogicalMemChunks : Nat := 512

/-- `MAX_LOGICAL_ADDRESS`: the first logical address past the chunk table. -/
def maxLogicalAddress : Uval := 34359738368

/-- `NUM_PSM_ENTRIES`: the pages of the sixteen chunks the page-share manager covers. -/
def numPsmEntries : Nat := 262144

/-- `INVALID_PHYSICAL_ADDRESS`. -/
def invalidPhysicalAddress : Uval := BitVec.allOnes 64

/-- `INVALID_LOGICAL_ADDRESS`. -/
def invalidLogicalAddress : Uval := BitVec.allOnes 64

/-- `ALIGN_UP(a, s)`, for a power of two `s`. -/
def alignUp (a s : Uval) : Uval := (a + (s - 1)) &&& ~~~(s - 1)

/-- `ALIGN_DOWN(a, s)`. -/
def alignDown (a s : Uval) : Uval := a &&& ~~~(s - 1)

/-- `PGNUMS(s)`: the number of pages for a size `s`. -/
def pgnums (s : Uval) : Uval := alignUp s pgsize >>> logPgsize

/-- `chunk_number_addr(i)`. -/
def chunkNumberAddr (a : Uval) : Nat := (a >>> logChunksize).toNat

/-- `chunk_offset_addr(i)`. -/
def chunkOffsetAddr (a : Uval) : Uval := a &&& (chunkSize - 1)

/-! ### Ranges (`lib.h`) -/

/-- First range is a superset of the second range; the ends are computed modulo `2^64`. -/
def rangeSubset (start1 size1 start2 size2 : Uval) : Bool :=
  decide (start1 ≤ start2) && decide (start2 + size2 ≤ start1 + size1)

def rangeContains (start size val : Uval) : Bool := rangeSubset start size val 1

def rangesConflict (start1 size1 start2 size2 : Uval) : Bool :=
  if rangeContains start2 size2 start1 then true
  else if rangeContains start1 size1 start2 then true
  else false

/-! ### Return codes and flags (`lpar.h`) -/

def hConstrained : Sval := 4
def hClosed : Sval := 2
def hBusy : Sval := 1
def hSuccess : Sval := 0
def hHardware : Sval := -1
def hPrivilege : Sval := -3
def hParameter : Sval := -4
def hPtegFull : Sval := -6
def hNotFound : Sval := -7
def hUnavail : Sval := -9
def hInval : Sval := -10
def hResource : Sval := -16
def hRescinded : Sval := -18

def hExact : Uval := 1 <<< 39
def hRXlate : Uval := 1 <<< 38
def hRead4 : Uval := 1 <<< 37
def hAvpn : Uval := 1 <<< 31
def hAndcond : Uval := 1 <<< 30
def hIcacheInvalidate : Uval := 1 <<< 23
def hIcacheSynchronize : Uval := 1 <<< 22
def hZeroPage : Uval := 1 <<< 15
def hCopyPage : Uval := 1 <<< 14
def hN : Uval := 1 <<< 2
def hPp1 : Uval := 1 <<< 1
def hPp2 : Uval := 1

/-- `flags & F` as a C condition. -/
def flag (flags f : Uval) : Bool := flags &&& f != 0

/-- `CHECK_UNSUP(flags)`. -/
def checkUnsup (flags : Uval) : Bool :=
  flag flags (hIcacheInvalidate ||| hIcacheSynchronize ||| hZeroPage ||| hRXlate)

end Rhype
