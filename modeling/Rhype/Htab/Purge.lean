import Rhype.Htab.Basic

/-!
# Purging a range of segments (`vbase.c`)

`htab_purge_vsid` walks over the whole hash table of the partition and invalidates the valid entries
whose segment is in a range.  Such an entry is locked for the time, and looked at a second time
under its lock.  The sources call `pte_lock` and `pte_unlock` and do not define them: they are
parameters, with what a lock has to do.
-/

namespace Rhype

/-- The segment of an entry: the abbreviated page number without its five bits of the page. -/
def Pte.vsid (p : Pte) : Uval := p.avpn.setWidth 64 >>> 5

/-- `pte_lock` and `pte_unlock`, as functions of an entry.  A lock that nobody holds is taken and
leaves the valid bit as it is; giving it back gives the entry back, with the valid bit as it is
then. -/
structure PteLocking where
  Held : Pte → Prop
  pteLock : Pte → Hv Pte
  pteUnlock : Pte → Hv Pte
  lock_ok : ∀ p, ¬ Held p → ∃ q, pteLock p = .ok q ∧ q.v = p.v ∧
    ∀ v, pteUnlock { q with v := v } = .ok { p with v := v }

variable (L : PteLocking)

/-- The test of `htab_purge_vsid`, which passes over an entry: the valid bit is read from the entry,
the segment was read before. -/
def purgeSkips (p : Pte) (pteVsid vsid numVsids : Uval) : Bool :=
  !p.v || decide (numVsids ≤ pteVsid - vsid)

/-- One round of `htab_purge_vsid`. -/
def purgeEntry (vsid numVsids : Uval) (ht : Htab) (i : Nat) : Hv Htab := do
  let p ← ht.get i
  if purgeSkips p p.vsid vsid numVsids then .ok ht
  else do
    let q ← L.pteLock p
    let ht ← ht.set i q
    -- once more, now that the entry cannot change
    let ht ← if purgeSkips q p.vsid vsid numVsids then .ok ht else pteInvalidate ht i
    let q ← L.pteUnlock (← ht.get i)
    ht.set i q

/-- The loop of `htab_purge_vsid`, with the number of entries left. -/
def purgeLoop (vsid numVsids : Uval) : Nat → Nat → Htab → Hv Htab
  | 0, _, ht => .ok ht
  | n + 1, i, ht => do
    let ht ← purgeEntry L vsid numVsids ht i
    purgeLoop vsid numVsids n (i + 1) ht

/-- `htab_purge_vsid`. -/
def htabPurgeVsid (h : Hype) (o : OsId) (vsid numVsids : Uval) : Hv (Sval × Hype) := do
  let os ← live (h.os o)
  let ht ← purgeLoop L vsid numVsids os.htab.numPtes 0 os.htab
  .ok (hSuccess, h.setOs o { os with htab := ht })

end Rhype
