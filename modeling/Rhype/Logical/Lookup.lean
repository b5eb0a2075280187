import Rhype.Resource.Basic
import Rhype.Vio.Basic

/-!
# The hypercalls that translate a logical address

`H_ENTER`, `H_GRANT_LOGICAL`, `H_PUT_TCE` and `H_PAGE_INIT` take a logical address, or a page number
that is shifted to one, and look its chunk up with `laddr_to_lci`.
-/

namespace Rhype

/-! ### `H_PAGE_INIT` (`h_page_init.c`) -/

/-- What `h_page_init` does to a page. -/
inductive PageAction
  | clearPage (rpn : Uval)
  | copyPage (destination source : Uval)
  | icacheInvalidatePage (rpn : Uval)
  | icacheSynchronizePage (rpn : Uval)
  deriving DecidableEq, Repr

/-- `h_page_init` after the two addresses are translated: the answer, and what is done in the order
of the flags. -/
def initPage (flags destination source : Uval) : Sval × List PageAction :=
  if destination = invalidPhysicalAddress ∨ source = invalidPhysicalAddress then (hParameter, [])
  else if flag destination (pgsize - 1) || flag source (pgsize - 1) then (hParameter, [])
  else
    let dstRpn := destination >>> logPgsize
    (hSuccess, (if flag flags hZeroPage then [.clearPage dstRpn] else []) ++
      (if flag flags hCopyPage then [.copyPage destination source] else []) ++
      (if flag flags hIcacheInvalidate then [.icacheInvalidatePage dstRpn] else []) ++
      (if flag flags hIcacheSynchronize then [.icacheSynchronizePage dstRpn] else []))

/-- `h_page_init`. -/
def hPageInit (h : Hype) (o : OsId) (flags destination source : Uval) :
    Hv (Sval × List PageAction) := do
  let destination ← logicalToPhysicalAddress h o destination pgsize
  let source ← logicalToPhysicalAddress h o source pgsize
  .ok (initPage flags destination source)

/-! ### The calls -/

/-- A hypercall that translates an address of its caller, with its arguments. -/
inductive XlateCall
  | enter (flags ptex vsidWord rpnWord : Uval)
  | grant (type : MemType) (logicalLo length : Uval) (dest : OsId)
  | putTce (liobn : BitVec 32) (ioba : Uval) (tceDword : BitVec 64)
  | pageInit (flags destination source : Uval)

/-- The call of a partition: what it returns is left out. -/
def xlate (h : Hype) (d : Devices) (o : OsId) : XlateCall → Hv (Hype × Devices)
  | .enter flags ptex vsidWord rpnWord => do
    let (_, h) ← hEnter h o flags ptex vsidWord rpnWord
    .ok (h, d)
  | .grant type logicalLo length dest => do
    let (_, h) ← hGrantLogical h o type logicalLo length dest
    .ok (h, d)
  | .putTce liobn ioba tceDword => do
    let (_, d) ← hPutTce h d o liobn ioba tceDword
    .ok (h, d)
  | .pageInit flags destination source => do
    let _ ← hPageInit h o flags destination source
    .ok (h, d)

end Rhype
