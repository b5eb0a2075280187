import Rhype.Htab.Basic

/-!
# Unmapping a chunk (`vm.c`, `pmm_arch.c`, `psm_arch.c`)

When a chunk leaves the address space of a partition, the entries of the hash table that map it have
to become invalid.  For plain memory `hpte_scan_unmap` scans the table and compares the shadow of
each entry with the range of the chunk.  For memory in the page-share manager
`__locked_psm_unmap_lci` follows the hash table of the manager, page by page.
-/

namespace Rhype

/-! ### Plain memory -/

/-- The loop of `ptes_tlbies`, with the number of entries left. -/
def ptesTlbiesLoop (lci : Lci) (shadow : Nat → Uval) : Nat → Nat → (Nat → Pte) → Nat → Pte
  | 0, _, pte => pte
  | n + 1, ptex, pte =>
    ptesTlbiesLoop lci shadow n (ptex + 1)
      -- the shadow is compared as if it were an address
      (if (pte ptex).v && rangeContains lci.lciLaddr lci.lciSize (shadow ptex) then
        Function.update pte ptex { pte ptex with v := false }
      else pte)

/-- `ptes_tlbies`. -/
def ptesTlbies (ht : Htab) (lci : Lci) : Htab :=
  { ht with pte := ptesTlbiesLoop lci ht.shadow ht.numPtes 0 ht.pte }

/-- `hpte_scan_unmap`, which is also `phys_mem_unmap`. -/
def hpteScanUnmap (h : Hype) (c : LciId) : Hv Hype := do
  let lci ← live (h.lci c)
  if lci.lciPtecount ≠ 0 then do
    let o ← nonNull lci.lciOs
    let os ← live (h.os o)
    -- with a software TLB only the TLB is cleared
    let ht := if os.sfwTlb then os.htab else ptesTlbies os.htab lci
    .ok ((h.setOs o { os with htab := ht }).setLciObj c { lci with lciPtecount := 0 })
  else .ok h

/-! ### The page-share manager -/

/-- What the cleanup of a chunk in the page-share manager changes. -/
structure PsmUnmap where
  psm : Psm
  lci : Lci
  htab : Htab

/-- The inner loop of `__locked_psm_unmap_lci`, over the recorded entries of one page.  The first
component is `true` when the count reached `0` and the function returned. -/
def unmapPage (start : Uval) : Nat → PsmUnmap → Hv (Bool × PsmUnmap)
  | 0, _ => .error .spin
  | fuel + 1, s =>
    match s.psm.psmPteHt.remove psmPteHash start with
    | (none, t) => .ok (false, { s with psm := { s.psm with psmPteHt := t } })
    | (some i, t) => do
      let ht ← pteInvalidate s.htab i
      let lci := { s.lci with lciPtecount := s.lci.lciPtecount - 1 }
      let s := { psm := { s.psm with psmPteHt := t }, lci := lci, htab := ht }
      if lci.lciPtecount = 0 then .ok (true, s) else unmapPage start fuel s

/-- The outer loop of `__locked_psm_unmap_lci`, over the pages of the chunk. -/
def unmapPages (stop : Uval) : Nat → Uval → Nat → PsmUnmap → Hv PsmUnmap
  | 0, _, _, _ => .error .spin
  | fuel + 1, start, idx, s =>
    if start < stop then do
      -- the entry is cleared, its bit in psm_usage is not
      let entries ← fill .psm numPsmEntries none 1 idx s.psm.psmEntries
      let s := { s with psm := { s.psm with psmEntries := entries } }
      let (done, s) ← unmapPage start ((s.psm.psmPteHt.chain psmPteHash start).length + 1) s
      if done then .ok s else unmapPages stop fuel (start + pgsize) (idx + 1) s
    else .ok s

/-- `psm_unmap_lci`, `__locked_psm_unmap_lci`. -/
def psmUnmapLci (h : Hype) (p c : LciId) : Hv Hype := do
  let psm ← live (h.psm p)
  let psmLci ← live (h.lci p)
  let lci ← live (h.lci c)
  hassert lci.lciDisabled
  -- without entries the table of the manager is not looked at
  if lci.lciPtecount = 0 then .ok h
  else do
    let o ← nonNull lci.lciOs
    let os ← live (h.os o)
    let s ← unmapPages (lci.lciLaddr + lci.lciSize) (lci.lciSize.toNat / 4096 + 2) lci.lciLaddr
      (psmIndex psmLci lci.lciLaddr) ⟨psm, lci, os.htab⟩
    .ok (((h.setPsm p s.psm).setLciObj c s.lci).setOs o { os with htab := s.htab })

end Rhype
