import Rhype.Tce.Xlate
import Rhype.Vio.Basic

/-!
# Command/response queues (`crq.c`)

A CRQ is a pair of ends, each owned by a partition.  An end registers a buffer, and the other end
sends messages of 16 bytes into it; an end that frees its queue leaves a close event in the buffer
of the other one.  The two ends share one lock, so a call is one step.

The messages go into memory of the partition.  A call returns the entries that it writes; the
interrupt that goes with an entry is not part of the model.
-/

namespace Rhype

/-! ### The two ends -/

/-- `struct crq_entry`. -/
structure CrqEntry where
  msgHi : BitVec 64
  msgLo : BitVec 64
  deriving DecidableEq, Repr

/-- `struct crq_partner`.  The table is set up together with the pair. -/
structure CrqEnd extends CrqPartner where
  cpFlags : BitVec 16
  cpNumEntries : BitVec 16
  cpNextEntry : BitVec 16
  cpCrqs : Uval
  setUp : cpTceData.tTce.isSome = true

/-- The two ends, and the device ids under which they are found; `cp_partner` of an end is the
other one. -/
structure CrqPair where
  ends : Bool → CrqEnd
  devId : Bool → Nat

variable (p : CrqPair)

def CrqPair.setEnd (e : Bool) (cp : CrqEnd) : CrqPair :=
  { p with ends := Function.update p.ends e cp }

/-- An entry that is written: into the buffer of which end, where, and what. -/
structure CrqWrite where
  dst : Bool
  addr : Uval
  entry : CrqEntry
  deriving DecidableEq, Repr

def crqFlagUsed : BitVec 16 := 1
def crqFlagHasPartner : BitVec 16 := 2
def crqFlagValid : BitVec 16 := 4

def crqTransEvtMask : BitVec 64 := 0xff00000000000000
def crqCmdRespMask : BitVec 64 := 0x8000000000000000

/-- `CRQ_MIN_BUFFER_SIZE`. -/
def crqMinBufferSize : Uval := 4096

/-- `close_msg`. -/
def closeMsg : CrqEntry := ⟨0xff04000000000000, 0⟩

/-- `crq_get_crq`.  A number of another class is taken to have no device. -/
def crqGetCrq (liobn : Uval) : Option Bool :=
  if viosGet (vioType (liobn.setWidth 32)) = some .crq then
    xirGetDevice (fun i => if i = p.devId false then some false
      else if i = p.devId true then some true else none) (liobn.setWidth 32)
  else none

/-- `crq_flags_test`. -/
def crqFlagsTest (cp : CrqEnd) (flags : BitVec 16) : Bool := flags == cp.cpFlags &&& flags

/-- `crq_check_unused`. -/
def crqCheckUnused (cp : CrqEnd) : Bool := 0 == cp.cpFlags &&& crqFlagUsed

/-- `crq_haspartner`. -/
def crqHaspartner (cp : CrqEnd) : Bool := crqFlagsTest cp (crqFlagUsed ||| crqFlagHasPartner)

/-! ### Entries -/

/-- `crq_put_entry_raw_locked`. -/
def crqPutEntryRawLocked (dst : Bool) (msg : CrqEntry) : Sval × List CrqWrite × CrqPair :=
  let cp := p.ends dst
  if crqHaspartner cp then
    let entry := cp.cpNextEntry
    let next := cp.cpNextEntry + 1
    let next := if next = cp.cpNumEntries then 0 else next
    (hSuccess, [⟨dst, cp.cpCrqs + 16 * entry.setWidth 64, msg⟩],
      p.setEnd dst { cp with cpNextEntry := next })
  else (hClosed, [], p)

/-- `crq_put_entry_locked`. -/
def crqPutEntryLocked (dst : Bool) (msg : CrqEntry) : Sval × List CrqWrite × CrqPair :=
  if msg.msgHi &&& crqTransEvtMask ≠ crqTransEvtMask ∧ msg.msgHi &&& crqCmdRespMask ≠ 0 then
    crqPutEntryRawLocked p dst msg
  else (hParameter, [], p)

/-- `crq_release_locked`. -/
def crqReleaseLocked (e : Bool) : Sval × List CrqWrite × CrqPair :=
  let (ret, ws, p) := crqPutEntryRawLocked p (!e) closeMsg
  let peer := p.ends (!e)
  let p := p.setEnd (!e) { peer with cpFlags := peer.cpFlags &&& ~~~crqFlagHasPartner }
  let cp := p.ends e
  let p := p.setEnd e { cp with cpFlags := cp.cpFlags &&& ~~~(crqFlagUsed ||| crqFlagValid) }
  (ret, ws, p)

/-- `bd` of `crq_addr_lookup`.  Its fields are narrower than the arguments. -/
def crqBdesc (addr size : Uval) : TceBdesc :=
  ((⟨0⟩ : TceBdesc).setLen (size.setWidth 24)).setAddr (addr.setWidth 32)

/-- `crq_addr_lookup`. -/
def crqAddrLookup (cp : CrqEnd) (addr size : Uval) : Hv Uval :=
  tceBdXlate cp.cpTceData (crqBdesc addr size)

/-- `crq_setup_osdata`. -/
def crqSetupOsdata (e : Bool) (buffer buffersize : Uval) : Hv CrqPair := do
  let cp := { p.ends e with cpFlags := crqFlagUsed ||| crqFlagHasPartner }
  let peer := p.ends (!e)
  let p := p.setEnd (!e) { peer with cpFlags := peer.cpFlags ||| crqFlagHasPartner }
  let cp := { cp with cpNumEntries := (buffersize / 16).setWidth 16, cpNextEntry := 0 }
  let crqs ← crqAddrLookup cp buffer buffersize
  .ok (p.setEnd e { cp with cpCrqs := crqs })

/-! ### Calls -/

/-- The arguments of a call of `copy_mem`: from the buffer of end `src` into that of the other
end. -/
structure CrqCopy where
  src : Bool
  dPa : Uval
  sPa : Uval
  len : Uval
  deriving DecidableEq, Repr

/-- The source of a copy.  A destination with all bits set stands for the partner of the source. -/
def crqCopySource (sliobn dliobn : BitVec 32) : Option Bool :=
  if dliobn = BitVec.allOnes 32 then crqGetCrq p (sliobn.setWidth 64)
  else (crqGetCrq p (dliobn.setWidth 64)).map not

/-- `crq_try_copy`. -/
def crqTryCopy (os : OsId) (sliobn : BitVec 32) (sioba : Uval) (dliobn : BitVec 32)
    (dioba len : Uval) : Hv (Sval × Option CrqCopy) :=
  match crqCopySource p sliobn dliobn with
  | none => .ok (hParameter, none)
  | some src =>
    if some os ≠ (p.ends src).cpOs ∧ some os ≠ (p.ends (!src)).cpOs then .ok (hParameter, none)
    else do
      let dPa ← crqAddrLookup (p.ends (!src)) dioba len
      if dPa ≠ 0 then do
        let sPa ← crqAddrLookup (p.ends src) sioba len
        if sPa ≠ 0 then .ok (hSuccess, some ⟨src, dPa, sPa, len⟩)
        else .ok (hParameter, none)
      else .ok (hParameter, none)

/-- `crq_free_crq`. -/
def crqFreeCrq (os : OsId) (uaddr : Uval) : Sval × List CrqWrite × CrqPair :=
  match crqGetCrq p uaddr with
  | none => (hParameter, [], p)
  | some e =>
    if some os ≠ (p.ends e).cpOs then (hParameter, [], p)
    else crqReleaseLocked p e

/-- `crq_release`.  The result of `crq_release_internal` is taken as a truth value. -/
def crqRelease (os : OsId) (liobn : BitVec 32) : Sval × List CrqWrite × CrqPair :=
  match crqGetCrq p (liobn.setWidth 64) with
  | none => (hParameter, [], p)
  | some e =>
    if some os ≠ (p.ends e).cpOs then (hParameter, [], p)
    else
      let (ret, ws, p) := crqReleaseLocked p e
      (if ret = 0 then hBusy else hSuccess, ws, p)

/-- `crq_reg`. -/
def crqReg (os : OsId) (uaddr queue len : Uval) : Hv (Sval × CrqPair) :=
  if len < crqMinBufferSize ∨ len &&& (crqMinBufferSize - 1) ≠ 0 ∨ queue ≠ alignDown queue len then
    .ok (hParameter, p)
  else match crqGetCrq p uaddr with
    | none => .ok (hParameter, p)
    | some e =>
      if some os ≠ (p.ends e).cpOs then .ok (hParameter, p)
      else if crqCheckUnused (p.ends e) then do
        let p ← crqSetupOsdata p e queue len
        .ok (if crqCheckUnused (p.ends (!e)) then hClosed else hSuccess, p)
      else .ok (hResource, p)

/-- `crq_send`. -/
def crqSend (os : OsId) (uaddr : Uval) (msg : CrqEntry) : Sval × List CrqWrite × CrqPair :=
  match crqGetCrq p uaddr with
  | none => (hParameter, [], p)
  | some e =>
    if some os ≠ (p.ends e).cpOs then (hParameter, [], p)
    else if crqHaspartner (p.ends (!e)) then crqPutEntryLocked p (!e) msg
    else (hParameter, [], p)

end Rhype
