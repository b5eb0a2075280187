import Rhype.Htab.Basic

/-!
# The place of an entry, and its invalidation (`lib/powerpc/64/pte.c`, `mmu.h`, `vm.c`)

A partition makes an entry with `pte_init` and puts it into the group that `get_pteg` computes from
the segment and the page.  The entry has the segment and the five highest bits of the page; when
`do_tlbie` invalidates the translation of an entry, it takes the other bits from the index of the
entry, by the inverse of the hash.  A virtual address is 64 bits wide here, as the operand of the
instruction is.
-/

namespace Rhype

/-- `VSID_HASH_MASK`. -/
def vsidHashMask : Uval := 0x7fffffffff

/-- `LOG_SEGMENT_SIZE`. -/
def logSegmentSize : Nat := 28

/-- `LOG_PTEG_SIZE`. -/
def logPtegSize : Nat := 7

/-- `VADDR_TO_API`. -/
def vaddrToApi (vaddr : Uval) : Uval := (vaddr &&& ((0x1f : Uval) <<< 23)) >>> 23

/-- The address in the segment, as `insert_ea_map` computes it. -/
def segmentAddr (vsid ea : Uval) : Uval := (vsid <<< logSegmentSize) ||| (ea &&& 0xfffffff)

/-- `get_log_pgsize`. -/
def getLogPgsize (largePageSize : Fin 2 → LargePageSize) (l : Bool) (ls : BitVec 8) : Nat :=
  if l then getLargePageShift (if ls = 0 then largePageSize 0 else largePageSize 1)
  else logPgsize

/-- The loop of `pte_init` over `lp_selection`. -/
def lpSelectionBits : Nat → BitVec 8
  | 0 => 0
  | n + 1 => (lpSelectionBits n <<< 1) ||| 1

/-- `pte_init`. -/
def pteInit (eaddr raddr vsid : Uval) (bolted isLarge : Bool) (lpSelection : BitVec 8) : Pte where
  avpn := (vsid <<< 5).setWidth 57 ||| (vaddrToApi eaddr).setWidth 57
  lock := false
  res := false
  bolted := bolted
  sw := false
  l := isLarge
  h := false
  v := true
  pp0 := false
  ts := false
  rpn := (raddr >>> 12).setWidth 50 |||
    if isLarge then (lpSelectionBits lpSelection.toNat).setWidth 50 else 0
  res2 := 0
  ac := false
  r := false
  c := false
  w := false
  i := false
  m := false
  g := false
  n := false
  pp1 := 1

/-- `get_pteg`: the primary group, for a table of `2^logHtabBytes` bytes. -/
def getPteg (vaddr vsid : Uval) (pgSize logHtabBytes : Nat) : Uval :=
  let vpn := vaddr >>> pgSize
  let mask := ((1 : Uval) <<< (28 - pgSize)) - 1
  let htabBytes := (1 : Uval) <<< logHtabBytes
  let hashMask := (htabBytes >>> logPtegSize) - 1
  ((vsid &&& vsidHashMask) ^^^ (vpn &&& mask)) &&& hashMask

/-- The instruction that `do_tlbie` executes: `tlbie` or `tlbie_large`, and its operand. -/
structure Tlbie where
  large : Bool
  addr : Uval
  deriving DecidableEq, Repr

/-- `do_tlbie`. -/
def doTlbie (p : Pte) (ptex : Uval) : Tlbie :=
  let avpn : Uval := p.avpn.setWidth 64
  let vsid := avpn >>> 5
  let group := ptex >>> 3
  let group := if p.h then ~~~group else group
  let pi := (vsid ^^^ group) &&& 0x7ff
  let piHigh := (avpn &&& 0x1f) <<< 11
  let pi := pi ||| piHigh
  let virtualAddress := (pi <<< 12) ||| (vsid <<< 28)
  if p.l then ⟨true, virtualAddress ||| (p.rpn.setWidth 64 &&& 1)⟩ else ⟨false, virtualAddress⟩

end Rhype
