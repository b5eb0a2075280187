import Rhype.Basic
import Mathlib.Data.Fintype.Card

/-!
# The locks (`include/atomic.h`)

`lock_t` and `rw_lock_t` are one word of 32 bits, and the partition's `po_mutex` is taken through
both interfaces.  A step of a thread is one access to the word: a read, a store or a `cas_uval32`.
A thread whose `cas_uval32` fails is where its loop begins, and goes on from there or, after
`lock_tryacquire`, with something else.
-/

namespace Rhype

/-- The locks that one thread can hold. -/
inductive LockKind
  | plain
  | write

/-- What `lock_acquire`, `lock_tryacquire` and `write_lock_acquire` store. -/
def LockKind.mark : LockKind → BitVec 32
  | .plain => ~~~0
  | .write => 1 <<< 31

/-- Where a thread is, with its local variable. -/
inductive LockPc
  /-- It holds nothing. -/
  | out
  /-- The `cas_uval32` of `read_lock_acquire`. -/
  | readCas (val : BitVec 32)
  | reading
  /-- The `cas_uval32` of `read_lock_release`. -/
  | dropCas (val : BitVec 32)
  | held (k : LockKind)

/-- The thread holds the lock; a reader does until its release is done. -/
def LockPc.holds : LockPc → Bool
  | .out | .readCas _ => false
  | _ => true

/-- The call that a thread makes that holds nothing. -/
inductive LockOp
  | acquire (k : LockKind)
  | readAcquire

/-- The word, and the threads. -/
structure LockThreads (τ : Type) where
  word : BitVec 32
  pc : τ → LockPc

namespace LockThreads

variable {τ : Type} [DecidableEq τ]

/-- The word is `w` and thread `t` is at `pc`. -/
def goto (s : LockThreads τ) (t : τ) (w : BitVec 32) (pc : LockPc) : LockThreads τ :=
  ⟨w, Function.update s.pc t pc⟩

/-- The next access of thread `t`; what a thread holds it releases by the function that belongs to
it. -/
def go (s : LockThreads τ) (t : τ) (op : LockOp) : LockThreads τ :=
  match s.pc t, op with
  | .out, .acquire k => if s.word = 0 then s.goto t k.mark (.held k) else s
  | .out, .readAcquire => s.goto t s.word (.readCas (s.word &&& ((1 <<< 31) - 1)))
  | .readCas val, _ =>
    if s.word = val then s.goto t (val + 1) .reading else s.goto t s.word .out
  | .reading, _ => s.goto t s.word (.dropCas s.word)
  | .dropCas val, _ =>
    if s.word = val then s.goto t (val - 1) .out else s.goto t s.word .reading
  | .held _, _ => s.goto t 0 .out

/-- The accesses of a list, after `rw_lock_init`. -/
def run (as : List (τ × LockOp)) : LockThreads τ :=
  as.foldl (fun s a => s.go a.1 a.2) ⟨0, fun _ => .out⟩

def holders [Fintype τ] (s : LockThreads τ) : Finset τ := {t | (s.pc t).holds}

end LockThreads

end Rhype
