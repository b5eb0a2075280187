import Rhype.Machine.Run
import Rhype.Resource.Rescind

/-!
# The sections of the calls on resources

The calls on resources hold a lock for a part of their work at a time: the lock of a resource
(`sr_lock`) or that of the resource list of a partition (`po_mutex`).  Here each call is cut where
it holds no lock, so that calls of several threads can be interleaved.  What a thread does outside
a lock goes with the section behind it.  `forcedRescindMark_sections`: a call is its sections in
turn.
-/

namespace Rhype

open Function

variable (h : Hype)

/-! ### Adding memory to a partition -/

/-- A call that adds memory to a partition. -/
inductive Adding
  | define (type : MemType) (base size : Uval) (fresh : FreshPsm)
  | grant (src : OsId) (type : MemType) (logicalLo length : Uval)

/-- Where a thread is in such a call. -/
inductive AddPc
  /-- Outside of a call. -/
  | idle
  /-- Before `resource_conflict`; only the thread knows the new resource. -/
  | made (call : Adding) (r : ResId)
  /-- Before `insert_resource`: no conflict was found. -/
  | scanned (call : Adding) (r : ResId)
  /-- Between the sections of `insert_resource`. -/
  | linked (call : Adding) (r : ResId)
  /-- In `define_mem`, before the accept. -/
  | inserted (r : ResId) (fresh : FreshPsm)

/-- The begin of the call: up to the new chunk. -/
def addBegin (call : Adding) : Hv (AddPc × Hype) :=
  match call with
  | .define type base size _ =>
    if size = 0 then .ok (.idle, h)
    else
      let (c, h) := newLci h (physMemLciInit base size) none (.mem type)
      .ok (.made call c, h)
  | .grant src _ logicalLo length => do
    let os ← live (h.os src)
    match ← laddrToLci os logicalLo with
    | none => .ok (.idle, h)
    | some c => do
      let (err, nlci, h) ← exportFn h c logicalLo length
      if err < 0 then .ok (.idle, h)
      else do
        let n ← nonNull nlci
        .ok (.made call n, h)

/-- A chunk that is in conflict is freed: at once by `define_mem`, and after the hypercalls in
progress by `mem_grant`. -/
def addRefuse (r : ResId) : Adding → Hype
  | .define .. => { h with lci := update h.lci r none,
                           res := update h.res r none }
  | .grant .. => h.rcuDefer (.physMem r)

/-- What a thread does in its next section, in a call that adds memory to `dest`. -/
def addSection (dest : OsId) (h : Hype) : AddPc → Hv (AddPc × Hype)
  | .idle => .ok (.idle, h)
  | .made call r => do
    let err ← resourceConflict h dest r
    if err = hSuccess then .ok (.scanned call r, h) else .ok (.idle, addRefuse h r call)
  | .scanned call r => do
    let sr ← live (h.res r)
    match call with
    | .define .. => do
      let (linked, h) ← insertLink h r
      hassert linked
      .ok (.linked call r, h)
    | .grant _ type .. =>
      if sr.srRescinded then do
        let h ← rescindFn h (.mem type) r
        .ok (.idle, h)
      else do
        let (linked, h) ← insertLink h r
        if linked then .ok (.linked call r, h)
        else do
          let h ← rescindFn h (.mem type) r
          .ok (.idle, h)
  | .linked call r => do
    let (err, h) ← insertOwn h r dest
    match call with
    | .define _ _ _ fresh => do
      hassert (0 ≤ err)
      .ok (.inserted r fresh, h)
    | .grant _ type .. =>
      if 0 < err then .ok (.idle, h)
      else do
        let h ← rescindFn h (.mem type) r
        .ok (.idle, h)
  | .inserted r fresh => do
    let (err, _, h) ← acceptLockedResource h r fresh (0, 0)
    hassert (err = hSuccess)
    .ok (.idle, h)

/-- The hypervisor, and where each thread is. -/
structure Adders where
  h : Hype
  pc : Nat → AddPc

/-- A thread begins a call, or runs its next section. -/
inductive AddAct
  | call (i : Nat) (c : Adding)
  | go (i : Nat)

/-- One action, among threads that add memory to `dest`. -/
def addStep (dest : OsId) (s : Adders) : AddAct → Hv Adders
  | .call i c =>
    match s.pc i with
    | .idle => do
      let (pc, h) ← addBegin s.h c
      .ok ⟨h, update s.pc i pc⟩
    -- the thread is in a call
    | _ => .ok s
  | .go i => do
    let (pc, h) ← addSection dest s.h (s.pc i)
    .ok ⟨h, update s.pc i pc⟩

/-! ### Rescinding -/

/-- Where a thread is in `forced_rescind_mark`. -/
inductive MarkPc
  /-- Before `mark_for_rescind` of the first resource. -/
  | mark
  /-- Before the section under the lock of its parent. -/
  | unlink
  /-- Before the section under its own lock. -/
  | queue
  /-- In the walk along the list, with the operations of type `ra`. -/
  | walk (ra : ResType) (curr : DRef)
  | ended (err : Sval)
  deriving DecidableEq

/-- What `forced_rescind_mark` does in its next section. -/
def markSection (start : ResId) (nodes : DRef) (avoid : Option OsId) (h : Hype) :
    MarkPc → Hv (MarkPc × Hype)
  | .mark => do
    let (marked, h) ← markForRescind h start
    .ok (if marked then .unlink else .ended hRescinded, h)
  | .unlink => do
    let sr ← live (h.res start)
    let h := if sr.srParent.isSome
      then h.setDl ((h.dl.detach (.siblings start)).init (.siblings start)) else h
    .ok (.queue, h)
  | .queue => do
    let sr ← live (h.res start)
    let h ← invalidateAndQueue sr.srType nodes h start
    .ok (.walk sr.srType (.siblings start), h)
  | .walk ra curr =>
    if curr = nodes then .ok (.ended 0, h)
    else match curr with
    -- the lock of a resource is held while its children are taken
    | .siblings r => do
      let _ ← live (h.res r)
      let h ← childLoop ra nodes avoid r (h.next + 1) h
      .ok (.walk ra (h.dl.next curr), h)
    | _ => .error .dangling
  | .ended err => .ok (.ended err, h)

/-- One section of a `forced_rescind_mark` that runs alone. -/
def markAlone (start : ResId) (nodes : DRef) (avoid : Option OsId) (s : MarkPc × Hype) (_ : Unit) :
    Hv (MarkPc × Hype) :=
  markSection start nodes avoid s.2 s.1

section

variable {start : ResId} {nodes : DRef} {avoid : Option OsId} {h h' : Hype}

theorem markLoop_sections {ra : ResType} {fuel : Nat} {curr : DRef}
    (hx : markLoop ra nodes avoid fuel curr h = .ok h') :
    ∃ acts, Run (markAlone start nodes avoid) (fun _ _ => True) (.walk ra curr, h) acts
      (.ended 0, h') := by
  induction fuel generalizing curr h with
  | zero => cases hx
  | succ fuel ih =>
    unfold markLoop at hx
    by_cases hend : curr = nodes
    · rw [if_pos hend] at hx
      cases hx
      have hstep : markAlone start nodes avoid (.walk ra curr, h') () = .ok (.ended 0, h') := by
        simp [markAlone, markSection, hend]
      exact ⟨[()], .cons trivial hstep (.nil _)⟩
    rw [if_neg hend] at hx
    cases curr with
    | siblings r =>
      obtain ⟨sr, hsr, hx⟩ := of_seq hx
      obtain ⟨h1, hloop, hx⟩ := of_seq hx
      have hstep : markAlone start nodes avoid (.walk ra (.siblings r), h) () =
          .ok (.walk ra (h1.dl.next (.siblings r)), h1) := by
        simp [markAlone, markSection, hend, hsr, hloop]
      obtain ⟨acts, hrun⟩ := ih hx
      exact ⟨() :: acts, .cons trivial hstep hrun⟩
    | _ => cases hx

/-- Without interference the sections are `forced_rescind_mark`. -/
theorem forcedRescindMark_sections {err : Sval}
    (hx : forcedRescindMark h start nodes avoid = .ok (err, h')) :
    ∃ acts, Run (markAlone start nodes avoid) (fun _ _ => True) (.mark, h) acts
      (.ended err, h') := by
  obtain ⟨⟨_ | _, h1⟩, hmark, hx⟩ := of_seq hx
  · cases hx
    have hstep : markAlone start nodes avoid (.mark, h) () = .ok (.ended hRescinded, h') := by
      simp [markAlone, markSection, hmark]
    exact ⟨[()], .cons trivial hstep (.nil _)⟩
  obtain ⟨sr, hsr, hx⟩ := of_seq hx
  obtain ⟨h2, hqueue, hx⟩ := of_seq hx
  obtain ⟨h3, hloop, hx⟩ := of_seq hx
  cases hx
  have hstep : markAlone start nodes avoid (.mark, h) () = .ok (.unlink, h1) := by
    simp [markAlone, markSection, hmark]
  -- unlinking the first resource does not change it
  obtain ⟨hu, hunlink, hres⟩ : ∃ hu, (if sr.srParent.isSome
      then h1.setDl ((h1.dl.detach (.siblings start)).init (.siblings start)) else h1) = hu ∧
      hu.res = h1.res := by
    refine ⟨_, rfl, ?_⟩
    split_ifs <;> rfl
  have hstep1 : markAlone start nodes avoid (.unlink, h1) () = .ok (.queue, hu) := by
    simp [markAlone, markSection, hsr, hunlink]
  have hstep2 : markAlone start nodes avoid (.queue, hu) () =
      .ok (.walk sr.srType (.siblings start), h2) := by
    rw [hunlink] at hqueue
    simp [markAlone, markSection, hres, hsr, hqueue]
  obtain ⟨acts, hrun⟩ := markLoop_sections hloop
  exact ⟨() :: () :: () :: acts,
    .cons trivial hstep (.cons trivial hstep1 (.cons trivial hstep2 hrun))⟩

/-- A rescind of a chunk with a part that was granted, which is rescinded with it. -/
theorem forcedRescindMark_sections_oneGrant : ∃ h' acts, Run (markAlone 0 (.todo 0) none)
    (fun _ _ => True) (.mark, oneGrant) acts (.ended 0, h') ∧
      (h'.res 1).map (·.srRescinded) = some true := by
  obtain ⟨acts, hrun⟩ := @forcedRescindMark_sections 0 (.todo 0) none oneGrant _ 0 rfl
  exact ⟨_, acts, hrun, rfl⟩

end

/-! ### An insertion next to a rescind -/

/-- Where a thread is in `insert_resource`. -/
inductive InsertPc
  | start
  /-- Between the two sections. -/
  | linked
  /-- It has returned `H_Rescinded`. -/
  | refused
  | inserted (cookie : Sval)

/-- The calls of a race: `insert_resource` of `r` for the partition `o`, and `forced_rescind_mark`
of `start` with the list `t`. -/
structure RaceCalls where
  r : ResId
  o : OsId
  start : ResId
  t : Nat
  avoid : Option OsId

/-- The hypervisor, with an insertion and a rescind in progress. -/
structure Race where
  h : Hype
  ins : InsertPc
  mark : MarkPc

/-- Which of the threads runs its next section. -/
inductive RaceAct
  | insert
  | mark

def raceStep (c : RaceCalls) (s : Race) : RaceAct → Hv Race
  | .insert =>
    match s.ins with
    | .start => do
      let (linked, h) ← insertLink s.h c.r
      .ok { s with h := h, ins := if linked then .linked else .refused }
    | .linked => do
      let (cookie, h) ← insertOwn s.h c.r c.o
      .ok { s with h := h, ins := .inserted cookie }
    | _ => .ok s
  | .mark => do
    let (pc, h) ← markSection c.start (.todo c.t) c.avoid s.h s.mark
    .ok { s with h := h, mark := pc }

/-! ### An accept next to a rescind -/

/-- Where a thread is in `h_accept_logical`. -/
inductive AcceptPc
  /-- Before `get_sys_resource`. -/
  | lookup
  /-- Before the section under the lock of the resource. -/
  | found (r : ResId)
  | ended

/-- What `h_accept_logical` of the resource with the cookie does in its next section. -/
def acceptSection (caller : OsId) (cookie : Uval) (fresh : FreshPsm) (h : Hype) :
    AcceptPc → Hv (AcceptPc × Hype)
  | .lookup => do
    let (err, r) ← getSysResource h caller cookie
    if err ≠ hSuccess then .ok (.ended, h)
    else do
      let r ← nonNull r
      .ok (.found r, h)
  | .found r => do
    let (_, _, h) ← acceptLockedResource h r fresh (hParameter, 0)
    .ok (.ended, h)
  | .ended => .ok (.ended, h)

/-- Where a thread is in `h_rescind_logical`. -/
inductive RescindPc
  /-- Before `get_sys_resource`. -/
  | lookup
  /-- In `forced_rescind_mark` of `r`, with the list `t`. -/
  | marking (r : ResId) (t : Nat) (pc : MarkPc)
  /-- In `rcu_pause`. -/
  | paused (t : Nat)
  /-- In `forced_rescind_cleanup`, at the cell `curr`. -/
  | cleaning (t : Nat) (curr : DRef)
  /-- In `forced_rescind_cleanup`, between the two sections for `r`. -/
  | unlisted (t : Nat) (r : ResId) (before : DRef)
  | ended

/-- What `h_rescind_logical` does in its next section; `busy` says that there are other hypercalls
in progress. -/
def rescindSection (caller : OsId) (flags cookie : Uval) (busy : Bool) (h : Hype) :
    RescindPc → Hv (RescindPc × Hype)
  | .lookup => do
    let (err, r) ← getSysResource h caller cookie
    if err ≠ hSuccess then .ok (.ended, h)
    else do
      let r ← nonNull r
      let sr ← live (h.res r)
      if !flag flags 1 && (sr.srMapped || !h.dl.isEmpty (.children r)) then .ok (.ended, h)
      else
        let (t, h) := newTodo h
        .ok (.marking r t .mark, h)
  | .marking r t pc => do
    let (pc, h) ← markSection r (.todo t) none h pc
    match pc with
    | .ended err => .ok (if err = hRescinded then .ended else .paused t, h)
    | pc => .ok (.marking r t pc, h)
  | .paused t => .ok (if busy then .paused t else .cleaning t (h.dl.prev (.todo t)), h)
  | .cleaning t curr =>
    if curr = .todo t then .ok (.ended, h)
    else match curr with
    | .siblings r => do
      let before := h.dl.prev curr
      let h ← cleanupUnlist h r
      .ok (.unlisted t r before, h)
    | _ => .error .dangling
  | .unlisted t r before => do
    let h ← cleanupDestroy h r
    .ok (.cleaning t before, h)
  | .ended => .ok (.ended, h)

/-- The hypervisor, with an accept and a rescind in progress. -/
structure Duel where
  h : Hype
  acc : AcceptPc
  resc : RescindPc

/-- One of the two threads runs its next section, or a chunk is freed that waits for it. -/
inductive DuelAct
  | accept
  | rescind
  | free (i : Nat)

/-- The calls of a duel: both are for the resource with the cookie. -/
structure DuelCalls where
  cookie : Uval
  accepter : OsId
  fresh : FreshPsm
  rescinder : OsId
  flags : Uval

def duelStep (c : DuelCalls) (s : Duel) : DuelAct → Hv Duel
  | .accept => do
    let (acc, h) ← acceptSection c.accepter c.cookie c.fresh s.h s.acc
    .ok { s with h := h, acc := acc }
  | .rescind => do
    let busy := match s.acc with
      | .found _ => true
      | _ => false
    let (resc, h) ← rescindSection c.rescinder c.flags c.cookie busy s.h s.resc
    .ok { s with h := h, resc := resc }
  | .free i =>
    match s.h.rcu[i]? with
    | some (.physMem _) => do
      let h ← collect s.h i
      .ok { s with h := h }
    | _ => .ok s

end Rhype
