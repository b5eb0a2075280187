import Rhype.Crq.Basic
import Rhype.Machine.Run

/-!
# Runs of a pair

A step is a call of a partition, or a change of the table of an end.  Next to the pair the state
has the entries that were written so far, and what an observer of the calls knows from their return
codes: which of the two ends is registered.
-/

namespace Rhype

/-- A call of a partition, or a change of the table of an end. -/
inductive CrqCall
  | reg (os : OsId) (uaddr queue len : Uval)
  | send (os : OsId) (uaddr : Uval) (msg : CrqEntry)
  | free (os : OsId) (uaddr : Uval)
  | tce (e : Bool) (tce : Nat → Tce)

/-- The entries of the table of an end change. -/
def CrqEnd.setTce (cp : CrqEnd) (tce : Nat → Tce) : CrqEnd :=
  { cp with cpTceData := { cp.cpTceData with tTce := some tce }, setUp := rfl }

/-- What a call returns, the entries that it writes, and the pair after it. -/
def crqCall (p : CrqPair) : CrqCall → Hv (Sval × List CrqWrite × CrqPair)
  | .reg os uaddr queue len => do
    let (ret, p) ← crqReg p os uaddr queue len
    .ok (ret, [], p)
  | .send os uaddr msg => .ok (crqSend p os uaddr msg)
  | .free os uaddr => .ok (crqFreeCrq p os uaddr)
  | .tce e tce => .ok (hSuccess, [], p.setEnd e ((p.ends e).setTce tce))

/-- A registration was accepted. -/
def Accepted (ret : Sval) : Prop := ret = hSuccess ∨ ret = hClosed

instance (ret : Sval) : Decidable (Accepted ret) := inferInstanceAs (Decidable (_ ∨ _))

/-- A pair, the entries that were written, oldest first, and the ends that are registered. -/
structure CrqWorld where
  pair : CrqPair
  written : List CrqWrite
  registered : Bool → Bool

/-- The ends that are registered after a call, by its return code. -/
def CrqWorld.observe (s : CrqWorld) (ret : Sval) : CrqCall → Bool → Bool
  | .reg _ uaddr _ _ =>
    match crqGetCrq s.pair uaddr with
    | some e => if Accepted ret then Function.update s.registered e true else s.registered
    | none => s.registered
  | .free _ uaddr =>
    match crqGetCrq s.pair uaddr with
    | some e => if ret = hParameter then s.registered else Function.update s.registered e false
    | none => s.registered
  | _ => s.registered

def crqStep (s : CrqWorld) (c : CrqCall) : Hv CrqWorld := do
  let (ret, ws, p) ← crqCall s.pair c
  .ok { pair := p, written := s.written ++ ws, registered := s.observe ret c }

/-- The entries that were written into the buffer of an end. -/
def writesTo (e : Bool) (ws : List CrqWrite) : List CrqWrite := ws.filter fun w => w.dst = e

end Rhype
