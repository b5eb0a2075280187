import Mathlib.Data.BitVec

/-!
# Segment descriptors of the IA-32 architecture

A descriptor is two 32-bit words.  The processor reads from it a base, a 20-bit limit and a few
attribute bits, and translates an offset that the limit allows to the linear address
`base + offset`, modulo `2^32`.

* With the granularity bit the limit counts pages of 4096 bytes, and its last page is included.
* For a data segment that expands down the limit is the last offset that is *not* allowed: the
  allowed ones lie above it, up to `2^32 - 1`, or `2^16 - 1` for a segment whose `B` bit is clear.
-/

namespace Rhype.Ia32

open BitVec

/-- A 32-bit word of the processor. -/
abbrev Word := BitVec 32

/-- The two words of a descriptor. -/
structure Descriptor where
  word0 : Word
  word1 : Word
  deriving DecidableEq, Repr

namespace Descriptor

/-! ### Fields -/

variable (d : Descriptor)

def base : Word :=
  d.word1.extractLsb' 24 8 ++ d.word1.extractLsb' 0 8 ++ d.word0.extractLsb' 16 16

def rawLimit : BitVec 20 :=
  d.word1.extractLsb' 16 4 ++ d.word0.extractLsb' 0 16

def present : Bool := d.word1.getLsbD 15

def dpl : BitVec 2 := d.word1.extractLsb' 13 2

/-- The descriptor is one of a code or data segment, not of a gate or a task. -/
def codeOrData : Bool := d.word1.getLsbD 12

def code : Bool := d.word1.getLsbD 11

/-- Bit 10: the segment expands down if it is a data segment, and is conforming if it has code. -/
def expandBit : Bool := d.word1.getLsbD 10

def big : Bool := d.word1.getLsbD 22

def granular : Bool := d.word1.getLsbD 23

def expandsDown : Bool := !d.code && d.expandBit

theorem two_le_dpl_iff (d : Descriptor) : 2 ≤ d.dpl.toNat ↔ d.word1.getLsbD 14 = true := by
  have hbit : d.dpl.getLsbD 1 = d.word1.getLsbD 14 := by simp [dpl]
  rw [← hbit]
  generalize d.dpl = x
  revert x
  decide

/-! ### Addresses -/

/-- The bytes that one unit of the limit stands for. -/
def unit : Nat := if d.granular then 4096 else 1

/-- The first offset past the limit. -/
def span : Nat := (d.rawLimit.toNat + 1) * d.unit

/-- The offsets below this one are representable in a segment that expands down. -/
def ceiling : Nat := if d.big then 2 ^ 32 else 2 ^ 16

/-- The limit allows the offset. -/
def Allows (off : Word) : Prop :=
  if d.expandsDown then d.span ≤ off.toNat ∧ off.toNat < d.ceiling else off.toNat < d.span

/-- Some allowed offset has this linear address. -/
def Covers (lin : Word) : Prop :=
  ∃ off, d.Allows off ∧ lin = d.base + off

section

variable {d : Descriptor} {lin : Word}

/-- The limit allows the distance of a covered address from the base. -/
theorem covers_iff : d.Covers lin ↔ d.Allows (lin - d.base) := by
  refine ⟨?_, fun h => ⟨_, h, by simp⟩⟩
  rintro ⟨off, hoff, rfl⟩
  simpa using hoff

/-- **A segment that expands up** covers the addresses from its base on, if it does not wrap. -/
theorem covers_iff_of_up (hup : d.expandsDown = false) (hend : d.base.toNat + d.span ≤ 2 ^ 32) :
    d.Covers lin ↔ d.base.toNat ≤ lin.toNat ∧ lin.toNat < d.base.toNat + d.span := by
  rw [covers_iff, Allows, hup, if_neg nofun, toNat_sub]
  omega

/-- **A segment that expands down** covers no address at or above its base if the offsets it allows
are those that wrap around. -/
theorem Covers.lt_of_down (h : d.Covers lin) (hdown : d.expandsDown = true)
    (hspan : 2 ^ 32 ≤ d.base.toNat + d.span) : lin.toNat < d.base.toNat := by
  rw [covers_iff, Allows, if_pos hdown, toNat_sub] at h
  omega

/-- With the `B` bit it covers all the addresses below its base, if these offsets are all of them
that wrap around. -/
theorem covers_iff_of_down (hdown : d.expandsDown = true) (hbig : d.big = true)
    (hspan : d.base.toNat + d.span = 2 ^ 32) : d.Covers lin ↔ lin.toNat < d.base.toNat := by
  have hbase := d.base.isLt
  refine ⟨fun h => h.lt_of_down hdown hspan.ge, fun h => ?_⟩
  rw [covers_iff, Allows, if_pos hdown, ceiling, if_pos hbig, toNat_sub]
  omega

theorem unit_pos (d : Descriptor) : 0 < d.unit := by
  unfold unit
  split_ifs <;> omega

theorem covers_base (hup : d.expandsDown = false) : d.Covers d.base := by
  have hspan : 0 < d.span := Nat.mul_pos (Nat.succ_pos _) d.unit_pos
  simpa [covers_iff, Allows, hup] using hspan

/-- With the largest limit and the granularity bit a segment that expands up covers everything. -/
theorem covers_of_full (hup : d.expandsDown = false) (hlimit : d.rawLimit = allOnes 20)
    (hgran : d.granular = true) (lin : Word) : d.Covers lin := by
  have hspan : d.span = 2 ^ 32 := by simp [span, unit, hlimit, hgran]
  rw [covers_iff, Allows, hup, hspan]
  exact (lin - d.base).isLt

end

end Descriptor

end Rhype.Ia32
