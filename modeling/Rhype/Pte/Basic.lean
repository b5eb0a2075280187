import Rhype.Basic

/-!
# Page table entries (`include/powerpc/64/htab.h`)

`union pte` is a pair of words and, over the same memory, a list of bit fields.  `Pte` is the list
of bit fields; `Pte.vsidWord` and `Pte.rpnWord` are the words, and `Pte.ofWords` reads the fields
from them.  The build is big-endian, so the first field of a word is its most significant one: the
valid bit is bit `0` of the first word.
-/

namespace Rhype

open BitVec

/-- `struct pte_bits`. -/
structure Pte where
  avpn : BitVec 57
  lock : Bool
  res : Bool
  bolted : Bool
  sw : Bool
  l : Bool
  h : Bool
  v : Bool
  pp0 : Bool
  ts : Bool
  rpn : BitVec 50
  res2 : BitVec 2
  ac : Bool
  r : Bool
  c : Bool
  w : Bool
  i : Bool
  m : Bool
  g : Bool
  n : Bool
  pp1 : BitVec 2
  deriving DecidableEq

namespace Pte

open BitVec (ofBool)

/-- `words.vsidWord`. -/
def vsidWord (p : Pte) : Uval :=
  p.avpn ++ (ofBool p.lock ++ (ofBool p.res ++ (ofBool p.bolted ++ (ofBool p.sw ++
    (ofBool p.l ++ (ofBool p.h ++ ofBool p.v))))))

/-- `words.rpnWord`. -/
def rpnWord (p : Pte) : Uval :=
  ofBool p.pp0 ++ (ofBool p.ts ++ (p.rpn ++ (p.res2 ++ (ofBool p.ac ++ (ofBool p.r ++
    (ofBool p.c ++ (ofBool p.w ++ (ofBool p.i ++ (ofBool p.m ++ (ofBool p.g ++
      (ofBool p.n ++ p.pp1)))))))))))

/-- The bit fields of two words. -/
def ofWords (vsidWord rpnWord : Uval) : Pte where
  avpn := vsidWord.extractLsb' 7 57
  lock := vsidWord.getLsbD 6
  res := vsidWord.getLsbD 5
  bolted := vsidWord.getLsbD 4
  sw := vsidWord.getLsbD 3
  l := vsidWord.getLsbD 2
  h := vsidWord.getLsbD 1
  v := vsidWord.getLsbD 0
  pp0 := rpnWord.getLsbD 63
  ts := rpnWord.getLsbD 62
  rpn := rpnWord.extractLsb' 12 50
  res2 := rpnWord.extractLsb' 10 2
  ac := rpnWord.getLsbD 9
  r := rpnWord.getLsbD 8
  c := rpnWord.getLsbD 7
  w := rpnWord.getLsbD 6
  i := rpnWord.getLsbD 5
  m := rpnWord.getLsbD 4
  g := rpnWord.getLsbD 3
  n := rpnWord.getLsbD 2
  pp1 := rpnWord.extractLsb' 0 2

/-! ### The fields of the words are the fields -/

theorem avpn_vsidWord (p : Pte) : p.vsidWord.extractLsb' 7 57 = p.avpn :=
  extractLsb'_append_eq_left

theorem rpn_rpnWord (p : Pte) : p.rpnWord.extractLsb' 12 50 = p.rpn := by
  refine eq_of_getLsbD_eq fun k hk => ?_
  rw [getLsbD_extractLsb', rpnWord]
  simp only [getLsbD_append]
  simp [hk, show 12 + k < 62 by omega, show 12 + k < 63 by omega]

theorem res2_rpnWord (p : Pte) : p.rpnWord.extractLsb' 10 2 = p.res2 := by
  refine eq_of_getLsbD_eq fun k hk => ?_
  rw [getLsbD_extractLsb', rpnWord]
  simp only [getLsbD_append]
  simp [hk, show 10 + k < 62 by omega, show 10 + k < 63 by omega, show 10 + k < 12 by omega]

theorem pp1_rpnWord (p : Pte) : p.rpnWord.extractLsb' 0 2 = p.pp1 := by
  refine eq_of_getLsbD_eq fun k hk => ?_
  rw [getLsbD_extractLsb', rpnWord]
  simp only [getLsbD_append]
  rcases (show k = 0 ∨ k = 1 by omega) with rfl | rfl <;> simp

@[simp]
theorem ofWords_words (p : Pte) : ofWords p.vsidWord p.rpnWord = p := by
  rw [ofWords, avpn_vsidWord, rpn_rpnWord, res2_rpnWord, pp1_rpnWord]
  simp only [vsidWord, rpnWord, getLsbD_append]
  simp

end Pte

end Rhype
