import Rhype.Logical.Basic

/-!
# The hash table hypercalls (`h_enter.c`, `h_remove.c`, `h_read.c`, `h_protect.c`, `h_clear_*.c`)

Each hypercall takes the calling partition and the arguments of the call, and returns the return
code, the registers it sets and the new state.  Instructions on the translation buffers (`tlbie`,
`ptesync`) have no effect on the state of the model.
-/

namespace Rhype

/-- The return code of a hypercall, and the general registers it sets. -/
structure HcallRet where
  rc : Sval
  gprs : List (Nat × Uval)
  deriving DecidableEq

/-! ### Accesses to the table -/

namespace Htab

/-- `cur_htab[i]`, read. -/
def get (ht : Htab) (i : Nat) : Hv Pte :=
  if i < ht.numPtes then .ok (ht.pte i) else .error (.bounds .htab i)

/-- `cur_htab[i]`, written. -/
def set (ht : Htab) (i : Nat) (p : Pte) : Hv Htab :=
  if i < ht.numPtes then .ok { ht with pte := Function.update ht.pte i p }
  else .error (.bounds .htab i)

/-- `shadow[i]`, read. -/
def getShadow (ht : Htab) (i : Nat) : Hv Uval :=
  if i < ht.numPtes then .ok (ht.shadow i) else .error (.bounds .shadow i)

/-- `shadow[i]`, written. -/
def setShadow (ht : Htab) (i : Nat) (x : Uval) : Hv Htab :=
  if i < ht.numPtes then .ok { ht with shadow := Function.update ht.shadow i x }
  else .error (.bounds .shadow i)

end Htab

/-- `check_index`: `true` when the index is refused. -/
def checkIndex (os : Os) (ptex : Uval) : Bool := decide (os.htab.numPtes < ptex.toNat)

/-- `save_pte`: the words of an entry, with the logical page number. -/
def savePte (ht : Htab) (i vsidIndex rpnIndex : Nat) : Hv (List (Nat × Uval)) := do
  let p ← ht.get i
  if p.rpnWord ≠ 0 then do
    let exdata ← ht.getShadow i
    .ok [(vsidIndex, p.vsidWord), (rpnIndex, { p with rpn := exdata.setWidth 50 }.rpnWord)]
  else .ok [(vsidIndex, p.vsidWord), (rpnIndex, p.rpnWord)]

/-- `pte_insert`. -/
def pteInsert (ht : Htab) (i : Nat) (vsidWord rpnWord lrpn : Uval) : Hv Htab := do
  let chosen ← ht.get i
  hassert (!chosen.v)
  let ht ← ht.set i (.ofWords vsidWord rpnWord)
  ht.setShadow i lrpn

/-- `pte_invalidate`. -/
def pteInvalidate (ht : Htab) (i : Nat) : Hv Htab := do
  let p ← ht.get i
  let ht ← ht.set i { p with v := false }
  ht.setShadow i 0

/-! ### The operations of a chunk on page table entries (`arch_mem_ops`) -/

variable (h : Hype) (c : LciId)

/-- `atomic_add32(&lci->lci_ptecount, n)`. -/
def addPtecount (n : BitVec 32) : Hv Hype := do
  let lci ← live (h.lci c)
  .ok (h.setLciObj c { lci with lciPtecount := lci.lciPtecount + n })

/-- What `psm_sav_ptep` and `psm_rem_ptep` share: change the hash table of the page-share manager,
and add to the count of the chunk that has the page. -/
def psmRecord (laddr : Uval) (f : HashTable Nat → HashTable Nat) (n : BitVec 32) : Hv Hype := do
  let psm ← live (h.psm c)
  let psmLci ← live (h.lci c)
  let realLci ← nonNull (← psm.entry (psmIndex psmLci laddr))
  addPtecount (h.setPsm c { psm with psmPteHt := f psm.psmPteHt }) realLci n

/-- `psm_sav_ptep`. -/
def psmSavPtep (laddr : Uval) (i : Nat) : Hv Hype :=
  psmRecord h c laddr (fun ht => ht.insert psmPteHash (fun _ _ => []) (laddr, i)) 1

/-- `psm_rem_ptep`. -/
def psmRemPtep (laddr : Uval) (i : Nat) : Hv Hype :=
  psmRecord h c laddr (fun ht => ht.unlink psmPteHash laddr i) (-1)

/-- `amo_sav_ptep`, where the chunk has one. -/
def amoSavPtep (laddr : Uval) (i : Nat) : Hv Hype := do
  let lci ← live (h.lci c)
  match lci.lciOps with
  | .physMem => .ok h
  | .psm => psmSavPtep h c laddr i

/-- `amo_rem_ptep`, where the chunk has one. -/
def amoRemPtep (laddr : Uval) (i : Nat) : Hv Hype := do
  let lci ← live (h.lci c)
  match lci.lciOps with
  | .physMem => .ok h
  | .psm => psmRemPtep h c laddr i

/-- `phys_mem_amo_check_WIMG`. -/
def physMemAmoCheckWimg (p : Pte) : Hv Bool := do
  let sr ← live (h.res c)
  match sr.srType with
  | .mem .memAddr => .ok (!p.w && !p.i && p.m && !p.g)
  | .mem .mmioAddr => .ok (!p.w && p.i && p.g)
  | .intrSrc => .ok false

/-- `amo_check_WIMG`; the one of the page-share manager asks the chunk of an entry. -/
def amoCheckWimg (p : Pte) : Hv Bool := do
  let lci ← live (h.lci c)
  match lci.lciOps with
  | .physMem => physMemAmoCheckWimg h c p
  | .psm => do
    let psm ← live (h.psm c)
    -- chunk_offset_page(rpn) >> LOG_PGSIZE
    match ← psm.entry (p.rpn.toNat % 2 ^ (logChunksize - logPgsize) / 2 ^ logPgsize) with
    | none => .ok false
    | some n => physMemAmoCheckWimg h n p

/-! ### `H_ENTER` -/

/-- The loop over the low bits of the page number of a large page: the number of trailing ones, and
the ones. -/
def lpScan : Nat → Nat → Nat × Nat
  | 0, _ => (0, 0)
  | n + 1, rpn =>
    if rpn % 2 = 1 then
      let (lpsize, lpbits) := lpScan n (rpn / 2)
      (lpsize + 1, 2 * lpbits + 1)
    else (0, 0)

/-- The shift of the page size of an entry and its large-page bits; `none` for a size that is not
supported. -/
def pageShift (os : Os) (p : Pte) : Option (Nat × Nat) :=
  if p.l then
    let (lpsize, lpbits) := lpScan 50 p.rpn.toNat
    if hlp : lpsize < 2 then some (getLargePageShift (os.largePageSize ⟨lpsize, hlp⟩), lpbits)
    else none
  else some (logPgsize, 0)

/-- `~0ULL << (pgsize - 12)`: the shift instruction gives `0` for a negative count. -/
def lrpnMask (pgshift : Nat) : Uval :=
  if pgshift < logPgsize then 0 else BitVec.allOnes 64 <<< (pgshift - logPgsize)

/-- `lrpn`: the logical page number of an entry, in pages of 4K. -/
def logicalRpn (p : Pte) (pgshift : Nat) : Uval := p.rpn.setWidth 64 &&& lrpnMask pgshift

/-- The entry that is inserted: the page number replaced, and the reserved bits cleared. -/
def localPte (p : Pte) (rrpn lpbits : Uval) : Pte :=
  { p with
    rpn := (rrpn ||| lpbits).setWidth 50
    lock := false
    res := false
    pp0 := false
    ts := false
    res2 := 0 }

/-- The slot loop of `h_enter`: `n` slots from `i` on. -/
def enterLoop (h : Hype) (o : OsId) (c : LciId) (laddr lrpn : Uval) (p : Pte) :
    Nat → Nat → Hv (HcallRet × Hype)
  | 0, _ => .ok (⟨hPtegFull, []⟩, h)
  | n + 1, i => do
    let os ← live (h.os o)
    let chosen ← os.htab.get i
    if !chosen.v then do
      let h ← amoSavPtep h c laddr i
      -- the shadow gets the page number, not the address
      let ht ← pteInsert os.htab i p.vsidWord p.rpnWord lrpn
      let h ← addPtecount (h.setOs o { os with htab := ht }) c 1
      .ok (⟨hSuccess, [(4, BitVec.ofNat 64 i)]⟩, h)
    else enterLoop h o c laddr lrpn p n (i + 1)

/-- `h_enter`.  The flags that clear a page or act on the instruction cache are refused at the
start. -/
def hEnter (o : OsId) (flags ptex vsidWord rpnWord : Uval) : Hv (HcallRet × Hype) := do
  let os ← live (h.os o)
  let p := Pte.ofWords vsidWord rpnWord
  if checkUnsup flags then .ok (⟨hParameter, []⟩, h)
  else match pageShift os p with
  | none => .ok (⟨hParameter, []⟩, h)
  | some (pgshift, lpbits) => do
    let lrpn := logicalRpn p pgshift
    let laddr := lrpn <<< logPgsize
    match ← laddrToLci os laddr with
    | none => .ok (⟨hParameter, []⟩, h)
    | some c => do
      -- the whole page has to translate
      let raddr ← lciTranslate h c laddr ((1 : Uval) <<< pgshift)
      if raddr = invalidPhysicalAddress then .ok (⟨hParameter, []⟩, h)
      else
        let rrpn := raddr >>> logPgsize
        -- real page 0 is the hypervisor's own
        if rrpn = 0 then .ok (⟨hPrivilege, []⟩, h)
        else if checkIndex os ptex then .ok (⟨hParameter, []⟩, h)
        else do
          -- the answer is not used
          let _ ← amoCheckWimg h c { p with rpn := (rrpn ||| BitVec.ofNat 64 lpbits).setWidth 50 }
          let p := localPte p rrpn (BitVec.ofNat 64 lpbits)
          if flag flags hExact then enterLoop h o c laddr lrpn p 1 ptex.toNat
          else enterLoop h o c laddr lrpn p 8 (ptex &&& ~~~7).toNat

/-! ### The other hypercalls -/

/-- The two conditions under which `h_remove` answers `H_Not_Found`. -/
def removeRefused (ht : Htab) (flags avpn : Uval) (i : Nat) : Hv Bool :=
  if flag flags hAvpn || flag flags hAndcond then do
    let p ← ht.get i
    .ok ((flag flags hAvpn && (p.avpn <<< 7).setWidth 64 != avpn)
      || (flag flags hAndcond && avpn &&& p.vsidWord != 0))
  else .ok false

/-- `h_remove`. -/
def hRemove (o : OsId) (flags ptex avpn : Uval) : Hv (HcallRet × Hype) := do
  let os ← live (h.os o)
  if checkIndex os ptex then .ok (⟨hParameter, []⟩, h)
  else do
    let i := ptex.toNat
    if ← removeRefused os.htab flags avpn i then .ok (⟨hNotFound, []⟩, h)
    else do
      let regs ← savePte os.htab i 4 5
      let p ← os.htab.get i
      if p.v then do
        let shadow ← os.htab.getShadow i
        -- here the shadow is read as a page number
        let laddr := shadow <<< logPgsize
        match ← laddrToLci os laddr with
        | none => .ok (⟨hParameter, regs⟩, h)
        | some c => do
          let h ← amoRemPtep h c laddr i
          let h ← addPtecount h c (-1)
          let ht ← os.htab.set i { p with v := false }
          .ok (⟨hSuccess, regs⟩, h.setOs o { os with htab := ht })
      else do
        let ht ← os.htab.set i { p with v := false }
        .ok (⟨hSuccess, regs⟩, h.setOs o { os with htab := ht })

/-- `h_read`. -/
def hRead (o : OsId) (flags ptex : Uval) : Hv (HcallRet × Hype) := do
  let os ← live (h.os o)
  if checkUnsup flags then .ok (⟨hParameter, []⟩, h)
  else if checkIndex os ptex then .ok (⟨hParameter, []⟩, h)
  else if flag flags hRead4 then
    if checkIndex os (ptex + 1) || checkIndex os (ptex + 2) || checkIndex os (ptex + 3) then
      .ok (⟨hParameter, []⟩, h)
    else do
      -- the index is checked before it is rounded down to half a group
      let i := (ptex &&& ~~~3).toNat
      let r0 ← savePte os.htab i 4 5
      let r1 ← savePte os.htab (i + 1) 6 7
      let r2 ← savePte os.htab (i + 2) 8 9
      let r3 ← savePte os.htab (i + 3) 10 11
      .ok (⟨hSuccess, r0 ++ r1 ++ r2 ++ r3⟩, h)
  else do
    let r ← savePte os.htab ptex.toNat 4 5
    .ok (⟨hSuccess, r⟩, h)

/-- `h_protect`. -/
def hProtect (o : OsId) (flags ptex avpn : Uval) : Hv (HcallRet × Hype) := do
  let os ← live (h.os o)
  if checkIndex os ptex then .ok (⟨hParameter, []⟩, h)
  else do
    let i := ptex.toNat
    let p ← os.htab.get i
    if !p.v then .ok (⟨hNotFound, []⟩, h)
    else if flag flags hAvpn ∧ (p.avpn <<< 7).setWidth 64 ≠ avpn then .ok (⟨hNotFound, []⟩, h)
    else do
      let ht ← os.htab.set i
        { p with pp1 := (flags &&& (hPp1 ||| hPp2)).setWidth 2, n := flag flags hN, v := true }
      .ok (⟨hSuccess, []⟩, h.setOs o { os with htab := ht })

/-- `h_clear_mod`. -/
def hClearMod (o : OsId) (_flags ptex : Uval) : Hv (HcallRet × Hype) := do
  let os ← live (h.os o)
  if checkIndex os ptex then .ok (⟨hParameter, []⟩, h)
  else do
    let i := ptex.toNat
    let p ← os.htab.get i
    if !p.c then .ok (⟨hSuccess, [(4, p.rpnWord)]⟩, h)
    else do
      -- v is cleared, c is cleared, and PTE_MOD_GENERAL_END sets v
      let ht ← os.htab.set i { p with c := false, v := true }
      .ok (⟨hSuccess, [(4, p.rpnWord)]⟩, h.setOs o { os with htab := ht })

/-- `h_clear_ref`. -/
def hClearRef (o : OsId) (_flags ptex : Uval) : Hv (HcallRet × Hype) := do
  let os ← live (h.os o)
  if checkIndex os ptex then .ok (⟨hParameter, []⟩, h)
  else do
    let i := ptex.toNat
    let p ← os.htab.get i
    if !p.r then .ok (⟨hSuccess, [(4, p.rpnWord)]⟩, h)
    else do
      -- unlike the other two calls, this one leaves v alone
      let ht ← os.htab.set i { p with r := false }
      .ok (⟨hSuccess, [(4, p.rpnWord)]⟩, h.setOs o { os with htab := ht })

end Rhype
