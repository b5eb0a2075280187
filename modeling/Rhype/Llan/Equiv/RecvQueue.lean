import Mathlib.Algebra.Group.Even
import Mathlib.Algebra.Group.Nat.Even
import Rhype.Llan.Equiv.Lock
import Rhype.Llan.Equiv.Page
import Rhype.Slots.Basic

/-!
# The receive queue

A device counts the entries of its queue with an index that goes back to 0 at the end of the queue,
and with a toggle that changes then.  The end is kept in 16 bits, and so the count goes around after
`Recvq.turn` entries, which is the number of entries of the queue only if that is below `2 ^ 16`.

`Fills id s es t` says that the entries `es` were written into the queue of device `id` between `s`
and `t`, oldest first.
-/

namespace Rhype

open Function LlanSys Nat

/-! ### The fields -/

/-- What a device has for its queue. -/
structure Recvq where
  llRecvq : Uval
  llRecvqEnd : BitVec 16
  llRecvqIdx : BitVec 16
  llRecvqToggle : BitVec 8

namespace Recvq

/-- After another entry. -/
def next (q : Recvq) : Recvq :=
  if q.llRecvqEnd ≤ q.llRecvqIdx + 1 then
    { q with llRecvqIdx := 0, llRecvqToggle := q.llRecvqToggle + 1 }
  else { q with llRecvqIdx := q.llRecvqIdx + 1 }

/-- The number of entries until the index is 0 again. -/
def turn (q : Recvq) : Nat := max 1 q.llRecvqEnd.toNat

/-- After `k` entries. -/
structure Counts (q : Recvq) (k : Nat) : Prop where
  idx : q.llRecvqIdx.toNat = k % q.turn
  toggle : q.llRecvqToggle.getLsbD 0 = true ↔ Even (k / q.turn)

theorem turn_next (q : Recvq) : q.next.turn = q.turn := by
  unfold next turn
  split_ifs <;> rfl

theorem getLsbD_zero_add_one (x : BitVec 8) : (x + 1).getLsbD 0 = !x.getLsbD 0 := by
  revert x
  decide

theorem Counts.next {q : Recvq} {k : Nat} (hq : q.Counts k) : q.next.Counts (k + 1) := by
  have hpos : 0 < q.turn := by
    unfold turn
    omega
  have hmod := mod_lt k hpos
  have hsucc : (q.llRecvqIdx + 1).toNat = k % q.turn + 1 := by
    rw [BitVec.toNat_add, hq.idx, show (1 : BitVec 16).toNat = 1 from rfl]
    unfold turn at hmod ⊢
    omega
  have hwrap : q.llRecvqEnd ≤ q.llRecvqIdx + 1 ↔ k % q.turn + 1 = q.turn := by
    rw [BitVec.le_def, hsucc]
    unfold turn at hmod ⊢
    omega
  constructor
  · rw [turn_next]
    unfold Recvq.next
    split_ifs with hcase
    · exact (Slots.count_turn (hwrap.1 hcase)).1.symm
    · rwa [(Slots.count_next (by have := mt hwrap.2 hcase; omega)).1]
  · rw [turn_next]
    unfold Recvq.next
    split_ifs with hcase
    · rw [(Slots.count_turn (hwrap.1 hcase)).2, even_add_one, ← hq.toggle]
      rw [getLsbD_zero_add_one, Bool.not_eq_true', Bool.not_eq_true]
    · rw [(Slots.count_next (by have := mt hwrap.2 hcase; omega)).2]
      exact hq.toggle

end Recvq

def LlanDev.queue (l : LlanDev) : Recvq :=
  ⟨l.llRecvq, l.llRecvqEnd, l.llRecvqIdx, l.llRecvqToggle⟩

def LlanSys.queue (s : LlanSys) (id : Nat) : Option Recvq := (s.llan id).map LlanDev.queue

section

variable {s t : LlanSys} {id : Nat} {l l' : LlanDev} {mem : Memory}

theorem queue_of_llan (hl : s.llan id = some l) : s.queue id = some l.queue := by
  rw [queue, hl, Option.map_some]

theorem queue_congr (hllan : t.llan = s.llan) : t.queue = s.queue := by
  unfold queue
  rw [hllan]

theorem queue_setDev (s : LlanSys) (id : Nat) (l : LlanDev) :
    (s.setDev id l).queue = update s.queue id (some l.queue) :=
  comp_update (Option.map LlanDev.queue) s.llan id (some l)

theorem queue_release (s : LlanSys) (id : Nat) : (s.release id).queue = s.queue :=
  comp_map (Option.map LlanDev.queue) (f := fun l => { l with llLock := false })
    (fun _ => rfl) s id

theorem queue_put (hl : s.llan id = some l) (hqueue : l'.queue = l.queue) :
    ({ s with mem := mem }.setDev id l').queue = s.queue :=
  comp_put (Option.map LlanDev.queue) hl (congrArg some hqueue)

theorem queue_acquire (hl : s.llan id = some l) : (s.setDev id l.acquire).queue = s.queue :=
  queue_put hl rfl

/-! ### Entries -/

/-- An entry that was written. -/
structure RqEntry where
  idx : BitVec 16
  toggle : Bool
  rb : Uval
  rqe : LlanRqe

def RqEntry.recv (id : Nat) (e : RqEntry) : LlanRecv := ⟨id, e.idx, e.rb, e.rqe⟩

/-- The entries that were written into the queue of a device.  When an entry has been written, it is
in memory with its toggle. -/
inductive Fills (id : Nat) : LlanSys → List RqEntry → LlanSys → Prop
  | nil (s : LlanSys) : Fills id s [] s
  | quiet {s t u : LlanSys} {es : List RqEntry} (hqueue : t.queue id = s.queue id)
      (hrest : Fills id t es u) : Fills id s es u
  | write {s t u : LlanSys} {q : Recvq} {e : RqEntry} {es : List RqEntry}
      (hs : s.queue id = some q) (ht : t.queue id = some q.next) (hidx : e.idx = q.llRecvqIdx)
      (htoggle : e.toggle = q.llRecvqToggle.getLsbD 0)
      (hmem : t.mem.dword (q.llRecvq + 16 * e.idx.setWidth 64) = e.rqe.dword e.toggle)
      (hrest : Fills id t es u) : Fills id s (e :: es) u

theorem Fills.append {id : Nat} {s t u : LlanSys} {es fs : List RqEntry} (hst : Fills id s es t)
    (htu : Fills id t fs u) : Fills id s (es ++ fs) u := by
  induction hst with
  | nil s => exact htu
  | quiet hqueue _ ih => exact .quiet hqueue (ih htu)
  | write hs ht hidx htoggle hmem _ ih => exact .write hs ht hidx htoggle hmem (ih htu)

/-- **The places and toggles of the entries**, by the number of entries before them. -/
theorem Fills.counts {id : Nat} {s t : LlanSys} {es : List RqEntry} (hfills : Fills id s es t)
    {q : Recvq} {k : Nat} (hq : s.queue id = some q) (hcounts : q.Counts k) {i : Nat} {e : RqEntry}
    (he : es[i]? = some e) :
    e.idx.toNat = (k + i) % q.turn ∧ (e.toggle = true ↔ Even ((k + i) / q.turn)) := by
  induction hfills generalizing q k i with
  | nil s => cases he
  | quiet hqueue _ ih => exact ih (hqueue.trans hq) hcounts he
  | @write s t u q' f es hs ht hidx htoggle hmem hrest ih =>
    obtain rfl : q' = q := Option.some.inj (hs.symm.trans hq)
    cases i with
    | zero =>
      cases he
      rw [hidx, htoggle]
      exact ⟨hcounts.idx, hcounts.toggle⟩
    | succ i =>
      have hrest := ih ht hcounts.next he
      rw [Recvq.turn_next] at hrest
      rwa [show k + (i + 1) = k + 1 + i by omega]

/-- The entries for a device, in the log of the calls. -/
def Logs (id : Nat) (s : LlanSys) (recvs : List LlanRecv) (t : LlanSys) : Prop :=
  ∃ es, Fills id s es t ∧ es.map (RqEntry.recv id) = recvs.filter fun r => r.dst = id

variable {d : Nat} {u : LlanSys} {recvs recvs' : List LlanRecv} {mem' : Memory} {size rb : Uval}
  {ret : Sval} {f : LlanFrame}

theorem Logs.quiet (hqueue : t.queue id = s.queue id) : Logs id s [] t :=
  ⟨[], .quiet hqueue (.nil t), rfl⟩

theorem Logs.append (hst : Logs id s recvs t) (htu : Logs id t recvs' u) :
    Logs id s (recvs ++ recvs') u := by
  obtain ⟨es, hes, hlog⟩ := hst
  obtain ⟨fs, hfs, hlog'⟩ := htu
  refine ⟨es ++ fs, hes.append hfs, ?_⟩
  rw [List.map_append, hlog, hlog', List.filter_append]

theorem Logs.congr {s' t' : LlanSys} (hlogs : Logs id s recvs t) (hs : s.queue = s'.queue)
    (ht : t'.queue = t.queue) : Logs id s' recvs t' := by
  obtain ⟨es, hes, hlog⟩ := hlogs
  refine ⟨es, .quiet (congrFun hs id) ?_, hlog⟩
  have happ := hes.append (.quiet (congrFun ht id) (.nil t'))
  rwa [List.append_nil] at happ

theorem llanGetbuf_queue (hx : llanGetbuf mem l size = .ok (rb, l', mem')) :
    l'.queue = l.queue := by
  rcases llanGetbuf_cases hx with rfl | ⟨p, b, bd, rfl⟩ <;> rfl

theorem llanWriteRqe_queue (mem : Memory) (l : LlanDev) (rq : LlanRqe) (rb : Uval) :
    (llanWriteRqe mem l rq rb).1.queue = l.queue.next := by
  unfold llanWriteRqe Recvq.next LlanDev.queue
  dsimp only
  split_ifs <;> rfl

theorem dword_llanWriteRqe (mem : Memory) (l : LlanDev) (rq : LlanRqe) (rb : Uval) :
    (llanWriteRqe mem l rq rb).2.dword (l.llRecvq + 16 * l.llRecvqIdx.setWidth 64) =
      rq.dword (l.llRecvqToggle.getLsbD 0) :=
  Memory.dword_setDword_self ..

theorem llanPut_logs {busy : Sval} {rq : LlanRqe} {fill : Memory → Uval → Memory}
    (hx : llanPut s d size busy rq fill = .ok (ret, recvs, t)) : Logs id s recvs t := by
  obtain ⟨l, hl, hx⟩ := of_seq hx
  obtain ⟨⟨rb, l', mem⟩, hbuf, hx⟩ := of_seq hx
  have hqueue := llanGetbuf_queue hbuf
  rw [live_ok] at hl
  dsimp only at hx
  split_ifs at hx with hnull
  · cases hx
    exact .quiet (congrFun (queue_put hl hqueue) id)
  cases hx
  have hnext := llanWriteRqe_queue (fill mem rb) l' rq rb
  by_cases hd : d = id
  · subst hd
    refine ⟨[⟨l'.llRecvqIdx, l'.llRecvqToggle.getLsbD 0, rb, rq⟩], ?_, ?_⟩
    · refine .write (q := l'.queue) ?_ ?_ rfl rfl ?_ (.nil _)
      · rw [queue_of_llan hl, hqueue]
      · rw [queue_setDev, update_self, hnext]
      · exact dword_llanWriteRqe (fill mem rb) l' rq rb
    · simp [RqEntry.recv]
  refine ⟨[], .quiet ?_ (.nil _), ?_⟩
  · rw [queue_setDev, update_of_ne (.symm hd)]
    rfl
  · simp [hd]

theorem Receives.logs (hr : Receives s recvs t) : Logs id s recvs t := by
  induction hr with
  | nil => exact .quiet rfl
  | put _ hx ih => exact ih.append (llanPut_logs hx)

theorem llanSend_logs {os : OsId} {uaddr token : Uval} {bd : List TceBdesc}
    (hx : llanSend s os uaddr bd token = .ok (ret, recvs, t)) : Logs id s recvs t := by
  rcases llanSend_spec hx with ⟨rfl, rfl⟩ | ⟨d, l, u, hlocks, -, rfl, hsend⟩
  · exact .quiet rfl
  have hlogs : Logs id (s.setDev d l.acquire) recvs u := by
    rcases llanSendLocked_spec hsend with ⟨rfl, rfl⟩ | ⟨f, -, hr⟩
    · exact .quiet rfl
    · exact hr.logs.congr (queue_congr llan_llanMacCacheAdd) rfl
  exact hlogs.congr (queue_acquire hlocks.llan) (queue_release u d)

/-! ### The other calls -/

variable {os : OsId} {uaddr : Uval} {ret : Sval} {mac : BitVec 64}

theorem LlanSys.Tends.queue (ht : s.Tends t) : t.queue = s.queue := by
  refine ht.comp (Option.map LlanDev.queue) fun l l' hl' => ?_
  rw [hl']
  rfl

theorem queue_llanAddBuf {bd : TceBdesc} (hx : llanAddBuf s os uaddr bd = .ok (ret, t)) :
    t.queue = s.queue := by
  rcases llanAddBuf_spec hx with ⟨rfl, -⟩ |
    ⟨id, l, r, hlocks, -, ⟨-, rfl⟩ | ⟨-, _, rfl, -, rfl | ⟨d, p, b, -, -, rfl⟩⟩⟩
  · rfl
  · exact queue_acquire hlocks.llan
  · rw [queue_release, queue_acquire hlocks.llan]
  · rw [queue_release, queue_setDev, queue_acquire hlocks.llan]
    exact update_eq_self_iff.2 (queue_of_llan hlocks.llan).symm

/-- A registration changes the queue of the device that it names, if that was not registered. -/
theorem queue_llanRegister {bl fl : Uval} {rq : BitVec 64}
    (hx : llanRegister s os uaddr bl rq fl mac = .ok (ret, t))
    (hid : lanNumber uaddr = id → ∃ l, s.llan id = some l ∧ l.llRegistered = true) :
    t.queue id = s.queue id := by
  rcases llanRegister_spec hx with
    ⟨rfl, -⟩ | ⟨d, l, hlocks, -, -, ⟨-, rfl⟩ | ⟨hreg, u, rfl, hlocked⟩⟩
  · rfl
  · rw [queue_acquire hlocks.llan]
  obtain ⟨rfl, hl⟩ := llanGet_eq_some hlocks.get
  have hother : id ≠ lanNumber uaddr := by
    rintro rfl
    obtain ⟨l', hl', hreg'⟩ := hid rfl
    cases hl.symm.trans hl'
    rw [hreg] at hreg'
    cases hreg'
  rw [queue_release, ← congrFun (queue_acquire hl) id]
  rcases llanRegisterLocked_cases hlocked with ⟨-, mem, l', rfl, -⟩ |
    ⟨-, mem, -, pg, recvq, fpg, l', i, v, -, -, -, hadd, rfl⟩
  · rw [queue_setDev, update_of_ne hother]
    rfl
  · rw [queue_setDev, update_of_ne hother, queue_congr (llan_llanMacAdd hadd),
      queue_setDev, update_of_ne hother]
    rfl

/-! ### Runs -/

/-- A step, with the log of the entries that are written. -/
def llanLogStep (w : LlanSys × List LlanRecv) : LlanAct → Hv (LlanSys × List LlanRecv)
  | .call c => do
    let (_, recvs, s) ← llanCall w.1 c
    .ok (s, w.2 ++ recvs)
  | a => do
    let s ← llanStep w.1 a
    .ok (s, w.2)

/-- The device is not registered anew: a call that names it finds it registered. -/
def NotAnew (id : Nat) (w : LlanSys × List LlanRecv) : LlanAct → Prop
  | .call (.register _ uaddr _ _ _ _) =>
    lanNumber uaddr = id → ∃ l, w.1.llan id = some l ∧ l.llRegistered = true
  | _ => True

variable {recvs : List LlanRecv}

theorem llanCall_logs {c : LlanCall} {ret : Sval} {log : List LlanRecv}
    (hx : llanCall s c = .ok (ret, recvs, t)) (hok : NotAnew id (s, log) (.call c)) :
    Logs id s recvs t := by
  cases c with
  | register os uaddr bl rq fl mac =>
    obtain ⟨hcall, rfl⟩ := of_llanCall hx
    exact .quiet (queue_llanRegister hcall hok)
  | free os uaddr | mcastCtrl os uaddr _ | changeMac os uaddr _ =>
    obtain ⟨htends, rfl⟩ := llanCall_tends hx
    exact .quiet (congrFun htends.queue id)
  | addBuf os uaddr bd =>
    obtain ⟨hcall, rfl⟩ := of_llanCall hx
    exact .quiet (congrFun (queue_llanAddBuf hcall) id)
  | send os uaddr bd token => exact llanSend_logs hx
  | freebuf os uaddr size => exact (llanFreebuf_receives hx).logs

theorem Logs.step {s0 : LlanSys} {w w' : LlanSys × List LlanRecv} {a : LlanAct}
    (hw : Logs id s0 w.2 w.1) (hok : NotAnew id w a) (hx : llanLogStep w a = .ok w') :
    Logs id s0 w'.2 w'.1 := by
  cases a with
  | call c =>
    obtain ⟨⟨ret, recvs, t⟩, hcall, hx⟩ := of_seq hx
    cases hx
    exact hw.append (llanCall_logs hcall hok)
  | store a b =>
    cases hx
    exact hw.congr rfl rfl
  | putTce d p x =>
    cases hx
    exact hw.congr rfl (comp_map (Option.map LlanDev.queue)
      (f := fun l => l.putTce p x) (fun _ => rfl) w.1 d)

end

/-- **The entries of the queue since the registration**, for a descriptor of `n` entries: the
entries `es` are those of the log, and entry `k` is at `k % n` with a toggle that is set in every
second turn, for all of them exactly when `n` is below `2 ^ 16`, or the index has not gone around
yet. -/
theorem recvq_entries_iff (s0 s t : LlanSys) (os : OsId) (uaddr bl fl : Uval) (rq mac : BitVec 64)
    (acts : List LlanAct) (log : List LlanRecv) (n : Nat)
    (hregister : llanRegister s0 os uaddr bl rq fl mac = .ok (hSuccess, s))
    (hn : n = (⟨rq⟩ : TceBdesc).lbdLen.toNat / 16) (hpos : 1 ≤ n)
    (hrun : Run llanLogStep (NotAnew (lanNumber uaddr)) (s, []) acts (t, log)) :
    ∃ es, Fills (lanNumber uaddr) s es t ∧
      es.map (RqEntry.recv (lanNumber uaddr)) = (log.filter fun r => r.dst = lanNumber uaddr) ∧
      ((∀ (k : Nat) (e : RqEntry), es[k]? = some e →
          e.idx.toNat = k % n ∧ (e.toggle = true ↔ Even (k / n))) ↔
        n < 2 ^ 16 ∨ es.length ≤ max 1 (n % 2 ^ 16)) := by
  obtain ⟨l, hreg⟩ := llanRegister_registered hregister
  have hlogs : Logs (lanNumber uaddr) s log t := by
    refine hrun.invariant (P := fun w => Logs (lanNumber uaddr) s w.2 w.1)
      (fun w a w' hw hok hx => hw.step hok hx) (.quiet rfl)
  obtain ⟨es, hfills, hlog⟩ := hlogs
  have hqueue := queue_of_llan (llan_of_llanGet hreg.get)
  have hturn : l.queue.turn = max 1 (n % 2 ^ 16) := by
    show max 1 l.llRecvqEnd.toNat = _
    rw [hreg.recvqEnd, hn]
    rfl
  have hstart : l.queue.Counts 0 := by
    constructor
    · show l.llRecvqIdx.toNat = _
      rw [hreg.recvqIdx]
      rfl
    · show l.llRecvqToggle.getLsbD 0 = true ↔ _
      rw [hreg.recvqToggle, Nat.zero_div]
      decide
  have hcounts : ∀ (k : Nat) (e : RqEntry), es[k]? = some e →
      e.idx.toNat = k % max 1 (n % 2 ^ 16) ∧
        (e.toggle = true ↔ Even (k / max 1 (n % 2 ^ 16))) := by
    intro k e he
    have := hfills.counts hqueue hstart he
    rwa [hturn, zero_add] at this
  refine ⟨es, hfills, hlog, ?_, ?_⟩
  · -- the first entry of the second turn is at 0
    intro hall
    by_contra hnot
    obtain ⟨hbig, hlong⟩ := not_or.1 hnot
    have hlt : max 1 (n % 2 ^ 16) < es.length := not_le.1 hlong
    have he : es[max 1 (n % 2 ^ 16)]? = some es[max 1 (n % 2 ^ 16)] := List.getElem?_eq_getElem hlt
    have hidx := (hall _ _ he).1
    rw [(hcounts _ _ he).1, mod_self, mod_eq_of_lt (by omega)] at hidx
    omega
  · intro hcase k e he
    have hlt : k < es.length := (List.getElem?_eq_some_iff.1 he).1
    obtain ⟨hidx, htoggle⟩ := hcounts k e he
    rcases hcase with hsmall | hshort
    · rw [mod_eq_of_lt hsmall, max_eq_right hpos] at hidx htoggle
      exact ⟨hidx, htoggle⟩
    -- all the entries are of the first turn
    have hle : max 1 (n % 2 ^ 16) ≤ n := max_le hpos (mod_le n _)
    rw [mod_eq_of_lt (by omega)] at hidx
    rw [div_eq_of_lt (by omega)] at htoggle
    rw [mod_eq_of_lt (by omega), div_eq_of_lt (by omega)]
    exact ⟨hidx, htoggle⟩

/-! ### A queue of 65536 entries -/

/-- The device of partition 0 with a table of 512 pages. -/
def wideSys : LlanSys :=
  (lanSys fun _ => 0).setDev 0 { lanDev 0 with
    llTceData := ⟨512, some fun p => ⟨.ofNat 64 ((16 + p) * 4096 + 3)⟩⟩
    setUp := rfl }

/-- Partition 0 adds two buffers and gives both of them back. -/
def twoFreed : List LlanAct :=
  [.call (.addBuf 0 0x100000 (lanBdesc 2048 0x3000)),
    .call (.addBuf 0 0x100000 (lanBdesc 2048 0x4000)), .call (.freebuf 0 0x100000 2000),
    .call (.freebuf 0 0x100000 2000)]

/-- The queue is `0x100000` bytes long, and both entries are at its start. -/
theorem recvq_entries_same_place :
    (do
      let (ret, s) ← llanRegister wideSys 0 0x100000 0 (lanBdesc 0x100000 0x100000).lbdDword
        0x2000 0xa
      let w ← twoFreed.foldlM llanLogStep (s, [])
      .ok (ret, (lanBdesc 0x100000 0x100000).lbdLen.toNat / 16, w.2.map LlanRecv.idx)) =
      (.ok (hSuccess, 65536, [0, 0]) : Hv _) := by
  decide +kernel

/-- `recvq_entries_iff` for these calls and a queue of 16 entries. -/
theorem recvq_entries_iff_twoFreed :
    ∃ s t log, ∃ es : List RqEntry,
      llanRegister wideSys 0 0x100000 0 (lanBdesc 0x100 0x1000).lbdDword 0x2000 0xa =
        .ok (hSuccess, s) ∧
      Run llanLogStep (NotAnew 0) (s, []) twoFreed (t, log) ∧
      log.length = 2 ∧ es.map (RqEntry.recv 0) = (log.filter fun r => r.dst = 0) ∧
      ∀ (k : Nat) (e : RqEntry), es[k]? = some e →
        e.idx.toNat = k % 16 ∧ (e.toggle = true ↔ Even (k / 16)) := by
  have hfacts : (do
      let (ret, s) ← llanRegister wideSys 0 0x100000 0 (lanBdesc 0x100 0x1000).lbdDword 0x2000 0xa
      let w ← twoFreed.foldlM llanLogStep (s, [])
      .ok (ret, w.2.length)) = (.ok (hSuccess, 2) : Hv _) := by
    decide +kernel
  obtain ⟨⟨ret, s⟩, hregister, hfacts⟩ := of_seq hfacts
  obtain ⟨⟨t, log⟩, hfold, hfacts⟩ := of_seq hfacts
  simp only [Except.ok.injEq, Prod.mk.injEq] at hfacts
  obtain ⟨rfl, hlen⟩ := hfacts
  have hrun : Run llanLogStep (NotAnew 0) (s, []) twoFreed (t, log) := by
    refine .of_foldlM (fun s => ?_) hfold
    -- none of the four is a registration
    simp [twoFreed, NotAnew]
  obtain ⟨es, -, hlog, hiff⟩ := recvq_entries_iff wideSys s t 0 0x100000 0 0x2000 _ 0xa twoFreed log
    16 hregister (by decide) (by decide) hrun
  exact ⟨s, t, log, es, hregister, hrun, hlen, hlog, hiff.2 (.inl (by decide))⟩

end Rhype
