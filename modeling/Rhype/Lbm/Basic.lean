import Rhype.Basic

/-!
# Large bitmaps (`include/bitmap.h`, `lib/bitmap.c`)

A bitmap of `num` bits, kept in words of 64 bits; `lbm_num` is set by `lbm_init` and never changes,
so it is a parameter of the type.  Bit numbers and lengths are `uval`s; they are natural numbers
here, with `wadd` and `wsub` where the sum or the difference of two of them can leave the word.

`testBits` follows its source: the loop runs while `bit < num_bits`, with `num_bits` the *length*
of the run, so a run that starts at or after its own length is not looked at.
-/

namespace Rhype

open BitVec

/-- `a + b` on words. -/
def wadd (a b : Nat) : Nat := (a + b) % 2 ^ 64

/-- `a - b` on words. -/
def wsub (a b : Nat) : Nat := (a + (2 ^ 64 - b)) % 2 ^ 64

/-- `struct lbm` with `lbm_num = num`: the words that hold the bits. -/
structure Lbm (num : Nat) where
  lbmBits : Nat → Uval

namespace Lbm

variable {num : Nat}

/-- The number of words of a bitmap of `num` bits. -/
def words (num : Nat) : Nat := (num + 63) / 64

variable (l : Lbm num)

/-- Bit `i`, as stored. -/
def bit (i : Nat) : Bool := (l.lbmBits (i / 64)).getLsbD (i % 64)

/-- `l->lbm_bits[w]`. -/
def word (w : Nat) : Hv Uval :=
  if w < words num then .ok (l.lbmBits w) else .error (.bounds .lbm w)

/-- `l->lbm_bits[w] = v`. -/
def setWord (w : Nat) (v : Uval) : Hv (Lbm num) :=
  if w < words num then .ok ⟨Function.update l.lbmBits w v⟩
  else .error (.bounds .lbm w)

/-- `test_bit`. -/
def testBit (bit : Nat) : Hv Bool := do
  hassert (bit < num)
  let w ← l.word (bit / 64)
  .ok (w.getLsbD (bit % 64))

/-- The loop of `test_bits`, with the number of rounds left. -/
def testBitsLoop (l : Lbm num) (val : Bool) : Nat → Nat → Hv Bool
  | 0, _ => .ok true
  | n + 1, bit => do
    let b ← l.testBit bit
    if b = val then testBitsLoop l val n (bit + 1) else .ok false

/-- `test_bits`. -/
def testBits (bit numBits : Nat) (val : Bool) : Hv Bool := do
  hassert (bit + numBits ≤ num)
  -- while (bit < num_bits)
  testBitsLoop l val (numBits - bit) bit

/-- The mask of a round of `lbm_set_bits`: the bits from `start` to `stop`, or to the end of the
word. -/
def runMask (start stop : Nat) : Uval :=
  let mask := allOnes 64 <<< start
  if 64 ≤ stop then mask else mask ^^^ (allOnes 64 <<< stop)

/-- The loop of `lbm_set_bits`: one word a round. -/
def setBitsLoop (val : Bool) : Nat → Lbm num → Nat → Nat → Hv (Lbm num)
  | _, l, _, 0 => .ok l
  | 0, _, _, _ + 1 => .error .spin
  | fuel + 1, l, startBit, numBits + 1 => do
    let start := startBit % 64
    let stop := start + (numBits + 1)
    let mask := runMask start stop
    let stop := min stop 64
    let w ← l.word (startBit / 64)
    let l ← l.setWord (startBit / 64) (if val then w ||| mask else w &&& ~~~mask)
    setBitsLoop val fuel l (startBit + (stop - start)) (numBits + 1 - (stop - start))

/-- `lbm_set_bits`. -/
def setBits (startBit numBits : Nat) (val : Bool) : Hv (Lbm num) :=
  let numBits := if num < wadd startBit numBits then wsub num startBit else numBits
  setBitsLoop val (words num + 1) l startBit numBits

/-- `1<<log_align`, an `int` shift that is then widened: the PowerPC shifts by the low six bits of
the count, in 32 bits. -/
def alignOf (logAlign : Nat) : Nat :=
  let n := logAlign % 64
  if n < 31 then 2 ^ n else if n = 31 then 2 ^ 64 - 2 ^ 31 else 0

/-- `i = i + base; i = (i + align - 1) & ~(align - 1); i = i - base`. -/
def roundUp (i align base : Nat) : Nat :=
  wsub (wsub (wadd (wadd i base) align) 1 &&& (2 ^ 64 - 1 - wsub align 1)) base

/-- The loop of `lbm_find_range`; the result is the final `(i, matched)`. -/
def findLoop (l : Lbm num) (val numBits align base : Nat) : Nat → Nat → Nat → Hv (Nat × Nat)
  | 0, _, _ => .error .spin
  | fuel + 1, i, matched =>
    if wsub i matched ≤ wsub (words num * 64) numBits then do
      let w ← l.word (i / 64)
      -- fast check to see if the entire block of bits is already used
      if (val ≠ 0 ∧ w = 0) ∨ (val = 0 ∧ w = allOnes 64) then
        findLoop l val numBits align base fuel (wadd i 64) 0
      else
        -- the first matched bit must match the alignment requirement
        let i := if matched = 0 then roundUp i align base else i
        let maskBits :=
          if 64 - i % 64 < numBits - matched then 64 - i % 64 else numBits - matched
        let mask : Uval := allOnes 64 >>> (64 - maskBits)
        let w ← l.word (i / 64)
        let test := w >>> (i % 64)
        if (val = 1 ∧ test &&& mask = mask) ∨ (val = 0 ∧ test &&& mask = 0) then
          if matched + maskBits = numBits then .ok (i + maskBits, matched + maskBits)
          else findLoop l val numBits align base fuel (i + maskBits) (matched + maskBits)
        else findLoop l val numBits align base fuel (wadd i align) 0
    else .ok (i, matched)

/-- `lbm_find_range`; `none` is `LARGE_BITMAP_ERROR`. -/
def findRange (val numBits logAlign base : Nat) : Hv (Option Nat) :=
  if numBits = 0 then .ok none
  else do
    let (i, matched) ← findLoop l val numBits (alignOf logAlign) base (words num * 64 + 1)
      (roundUp 0 (alignOf logAlign) base) 0
    if matched = numBits then .ok (some (i - matched)) else .ok none

end Lbm

/-- `bit_log2`: `63 - cntlzd x`, so `-1` for `0`. -/
def bitLog2 (x : Nat) : Nat := if x = 0 then 2 ^ 64 - 1 else x.log2

/-- `bit_log2(n & ~(n - 1))`: the exponent of the greatest power of two that divides `n`. -/
def logAlignOf (n : Nat) : Nat := bitLog2 (n &&& (2 ^ 64 - 1 - wsub n 1))

end Rhype
