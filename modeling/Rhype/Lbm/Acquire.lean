import Rhype.Lbm.Basic
import Rhype.Machine.Run

/-!
# Bits acquired and released by several threads (`lib/bitmap.c`)

`lbm_acquire` looks for a clear bit in a word that it has read, and sets it by a compare-and-swap;
`lbm_release` clears a bit in the same way.  A step of a thread is one read or one `cas_uval`.
The mask of `lbm_acquire` is `1U << bit`, of 32 bits, so it is 0 from bit 32 on.

`held` is kept beside the state: the bits that `lbm_acquire` has returned and whose release is not
yet done.
-/

namespace Rhype

open Function

/-- `ffz`: the lowest bit that is clear, and 64 if there is none. -/
def ffz (i : Uval) : Nat := (~~~i).ctz.toNat

/-- Where a thread is, with its local variables. -/
inductive LbmPc
  /-- It is in no call. -/
  | out
  /-- `lbm_acquire` comes to word `i`, if there is one. -/
  | look (i : Nat)
  /-- Its `cas_uval`. -/
  | set (i : Nat) (map : Uval)
  /-- `lbm_release` reads the word of its bit. -/
  | find (bit : Nat)
  /-- Its `cas_uval`. -/
  | clear (bit : Nat) (map : Uval)
  deriving DecidableEq

def LbmPc.releasing : LbmPc → Option Nat
  | .find bit | .clear bit _ => some bit
  | _ => none

/-- The bitmap, the threads, the bits that are held, and whether a release has returned -1. -/
structure LbmThreads (num : Nat) (τ : Type) where
  map : Lbm num
  pc : τ → LbmPc
  held : List Nat
  failed : Bool

/-- A thread calls `lbm_release`, or goes on; if it is in no call, it calls `lbm_acquire`. -/
inductive LbmAct (τ : Type)
  | release (t : τ) (bit : Nat)
  | go (t : τ)

namespace LbmThreads

variable {num : Nat} {τ : Type} [DecidableEq τ]

/-- All bits are clear, and no thread is in a call. -/
def start (num : Nat) (τ : Type) : LbmThreads num τ := ⟨⟨fun _ => 0⟩, fun _ => .out, [], false⟩

/-- Thread `t` is at `pc`. -/
def goto (s : LbmThreads num τ) (t : τ) (pc : LbmPc) : LbmThreads num τ :=
  { s with pc := update s.pc t pc }

/-- The next step of thread `t`. -/
def go (s : LbmThreads num τ) (t : τ) : LbmThreads num τ :=
  match s.pc t with
  | .out => s.goto t (.look 0)
  | .look i =>
    if i < Lbm.words num then
      let map := s.map.lbmBits i
      if ffz map < 64 ∧ i * 64 + ffz map < num then s.goto t (.set i map)
      else s.goto t (.look (i + 1))
    else s.goto t .out
  | .set i map =>
    if s.map.lbmBits i = map then
      { s.goto t .out with
        map := ⟨update s.map.lbmBits i (map ||| (1#32 <<< ffz map).setWidth 64)⟩
        held := (i * 64 + ffz map) :: s.held }
    -- the loop around it is do { .. } while (0)
    else s.goto t (.look (i + 1))
  | .find bit =>
    let map := s.map.lbmBits (bit / 64)
    if map.getLsbD (bit % 64) then s.goto t (.clear bit map)
    else { s.goto t .out with failed := true }
  | .clear bit map =>
    if s.map.lbmBits (bit / 64) = map then
      { s.goto t .out with
        map := ⟨update s.map.lbmBits (bit / 64) (map &&& ~~~(1#64 <<< (bit % 64)))⟩
        held := s.held.erase bit }
    else s.goto t (.find bit)

def step (s : LbmThreads num τ) : LbmAct τ → Hv (LbmThreads num τ)
  | .release t bit => do
    hassert (bit < num)
    .ok (s.goto t (.find bit))
  | .go t => .ok (s.go t)

/-- Only a bit that is held is released, and only once. -/
def Ok (s : LbmThreads num τ) : LbmAct τ → Prop
  | .release t bit => s.pc t = .out ∧ bit ∈ s.held ∧ ∀ t', (s.pc t').releasing ≠ some bit
  | .go _ => True

end LbmThreads

end Rhype
