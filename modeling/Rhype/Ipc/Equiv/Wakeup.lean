import Rhype.Ipc.Equiv.Queue

/-!
# The interrupts of the queue

A sender raises an interrupt only when the queue was empty, and one that is raised while the source
is outstanding is dropped.  The source is outstanding until the consumer ends its interrupt.  So a
message that comes after the last test of the consumer and before the end of its interrupt is lost
to it, and so are the messages that follow (`late_send_lost`).

When no sender comes in between, a consumer that waits while there are messages has an interrupt in
its queue (`wakes_up`).
-/

namespace Rhype

open IpcWorld List Xir

/-- Only the senders, the other sources, and a consumer that looks at the queue after an interrupt
and ends the interrupt when the queue is empty. -/
def InterruptDriven (s : IpcWorld) : IpcAct → Prop
  | .send _ => True
  | .other xirr => xirr ≠ s.aipc.xirr
  | .consume => True
  | .poll => False
  | .leave => False

/-- No sender comes between the last test of the consumer and the end of its interrupt. -/
def NoLateSend (s : IpcWorld) (act : IpcAct) : Prop := ∀ msg, act = .send msg → s.pc ≠ .eoi

/-- A consumer that waits while there are messages has an interrupt in its queue. -/
def WakesUp (s : IpcWorld) : Prop := s.pc = .idle → s.unread ≠ [] → s.aipc.xirr ∈ s.xir.xirq

/-! ### The invariant -/

/-- The source is outstanding while it is in the queue and while the consumer looks at the
messages, and the two never overlap. -/
structure WakeInv (s : IpcWorld) : Prop where
  queue : QueueInv s
  ready : s.xir.Ready
  once : s.xir.xirq.count s.aipc.xirr + (if s.pc = .idle then 0 else 1)
    = if s.xir.Outstanding then 1 else 0
  done : s.pc = .eoi → s.tail = s.head
  waits : s.pc = .idle → s.tail < s.head → s.aipc.xirr ∈ s.xir.xirq

section

variable {s s' : IpcWorld} {msg : AsyncMsg} {act : IpcAct} {acts : List IpcAct}

theorem IpcStart.wakeInv (hs : IpcStart s) : WakeInv s := by
  constructor
  · exact hs.queueInv
  · exact hs.ready
  · rw [count_eq_zero.2 hs.absent, if_pos hs.pc, if_neg hs.quiet]
  · rw [hs.pc]
    nofun
  · intro _ hlt
    rw [hs.head] at hlt
    omega

theorem head_eq_tail_iff : s.aipc.buf.head = s.aipc.buf.tail ↔ s.head = s.tail :=
  BitVec.toNat_inj.symm

theorem unread_eq_nil_iff (hi : QueueInv s) : s.unread = [] ↔ s.tail = s.head := by
  have hlen : s.unread.length = s.head - s.tail := Slots.length_contents
  have hle := hi.le
  rw [← length_eq_zero_iff]
  omega

section

variable (hi : WakeInv s)
include hi

theorem WakeInv.wakesUp : WakesUp s := by
  intro hidle hunread
  have hne := mt (unread_eq_nil_iff hi.queue).2 hunread
  have hle := hi.queue.le
  exact hi.waits hidle (by omega)

theorem WakeInv.mem_of_outstanding (hidle : s.pc = .idle) (hout : s.xir.Outstanding) :
    s.aipc.xirr ∈ s.xir.xirq := by
  have honce := hi.once
  rw [if_pos hidle, if_pos hout] at honce
  exact count_pos_iff.1 (by omega)

theorem WakeInv.looks (hidle : s.pc ≠ .idle) : s.xir.Outstanding ∧ s.aipc.xirr ∉ s.xir.xirq := by
  have honce := hi.once
  rw [if_neg hidle] at honce
  split_ifs at honce with hout
  refine ⟨hout, count_eq_zero.1 ?_⟩
  omega

theorem WakeInv.quiet (hout : ¬ s.xir.Outstanding) :
    s.pc = .idle ∧ s.xir.xirq.count s.aipc.xirr = 0 := by
  have honce := hi.once
  split_ifs at honce with hidle
  · exact ⟨hidle, honce⟩

/-- A message that comes while the consumer is not about to end its interrupt. -/
theorem WakeInv.send (hlate : s.pc ≠ .eoi) (hx : ipcStep s (.send msg) = .ok s') : WakeInv s' := by
  have hqueue := hi.queue.send hx
  have hready := ready_step hi.ready hx
  have hle := hi.queue.le
  rcases ipcStep_send hx with ⟨-, rfl⟩ | ⟨hbusy, hret, heq⟩
  · exact hi
  have haipc : s'.aipc.xirr = s.aipc.xirr := by
    rw [heq]
    rfl
  have hpc : s'.pc = s.pc := by rw [heq]
  have hdone : s'.pc = .eoi → s'.tail = s'.head := fun hpc' => absurd (hpc ▸ hpc') hlate
  rw [raised] at hret heq
  split_ifs at hret heq with hempty
  · rcases xirInject_ok hi.ready hret with ⟨hout, hsame⟩ | ⟨hout, hqueued⟩
    · -- The interrupt is dropped: a waiting consumer has the earlier one in its queue.
      have hxir : s'.xir = s.xir := by rw [heq, hsame]
      refine ⟨hqueue, hready, ?_, hdone, ?_⟩
      · rw [hxir, haipc, hpc]
        exact hi.once
      · intro hidle _
        rw [hxir, haipc]
        exact hi.mem_of_outstanding (hpc ▸ hidle) hout
    · obtain ⟨hidle, hcount⟩ := hi.quiet hout
      have hxir : s'.xir = s.xir.queued s.aipc.xirr := by rw [heq, hqueued]
      have hxirq : s'.xir.xirq = s.xir.xirq ++ [s.aipc.xirr] := by
        rw [hxir]
        rfl
      have hout' : s'.xir.Outstanding := by
        rw [hxir]
        exact outstanding_queued
      refine ⟨hqueue, hready, ?_, hdone, ?_⟩
      · rw [hxirq, haipc, count_append, hcount, hpc, if_pos hidle, if_pos hout',
          count_singleton_self]
      · intro _ _
        rw [hxirq, haipc]
        exact mem_append_right _ (mem_singleton_self _)
  · rw [head_eq_tail_iff] at hempty
    have hlt : s.tail < s.head := by omega
    have hxir : s'.xir = s.xir := by rw [heq]
    refine ⟨hqueue, hready, ?_, hdone, ?_⟩
    · rw [hxir, haipc, hpc]
      exact hi.once
    · intro hidle _
      rw [hxir, haipc]
      exact hi.waits (hpc ▸ hidle) hlt

theorem WakeInv.take (hpc : s.pc = .idle) : WakeInv s.consume := by
  have hstep : ipcStep s .consume = .ok s.consume := rfl
  have hqueue := hi.queue.step hstep
  have hready := ready_step hi.ready hstep
  have honce := hi.once
  have hwaits := hi.waits hpc
  have hconsume := consume_idle hpc
  rw [if_pos hpc] at honce
  rcases hq : s.xir.xirq with _ | ⟨xirr, xq⟩
  · rw [hXirr_nil hq, if_neg s.aipc.xirr_ne_zero.symm, ← hpc] at hconsume
    rwa [hconsume]
  rw [hq] at honce hwaits
  rw [hXirr_cons hq] at hconsume
  by_cases hours : xirr = s.aipc.xirr
  · rw [if_pos hours] at hconsume
    refine ⟨hqueue, hready, ?_, ?_, ?_⟩
    · rw [hconsume]
      show xq.count s.aipc.xirr + 1 = if s.xir.Outstanding then 1 else 0
      rw [← honce, hours, count_cons_self]
    all_goals
      rw [hconsume]
      nofun
  rw [if_neg hours] at hconsume
  refine ⟨hqueue, hready, ?_, ?_, ?_⟩
  · rw [hconsume]
    show xq.count s.aipc.xirr + 0 = if s.xir.Outstanding then 1 else 0
    rw [← honce, count_cons_of_ne hours, add_zero]
  · rw [hconsume]
    nofun
  · rw [hconsume]
    intro _ hlt
    exact (mem_cons.1 (hwaits hlt)).resolve_left (Ne.symm hours)

theorem WakeInv.of_looks (hqueue : QueueInv s') (hxir : s'.xir = s.xir)
    (haipc : s'.aipc.xirr = s.aipc.xirr) (hpc : s.pc ≠ .idle) (hpc' : s'.pc ≠ .idle)
    (hdone : s'.pc = .eoi → s'.tail = s'.head) : WakeInv s' := by
  refine ⟨hqueue, ?_, ?_, hdone, ?_⟩
  · rw [hxir]
    exact hi.ready
  · rw [hxir, haipc, if_neg hpc', ← hi.once, if_neg hpc]
  · intro hidle
    exact absurd hidle hpc'

theorem WakeInv.consume : WakeInv s.consume := by
  have hqueue := hi.queue.consume
  have hle := hi.queue.le
  by_cases hidle : s.pc = .idle
  · exact hi.take hidle
  rcases hpc : s.pc with _ | _ | _ | msg | _
  · exact absurd hpc hidle
  · rw [consume_test hpc] at hqueue ⊢
    refine hi.of_looks hqueue rfl rfl hidle ?_ ?_
    · split_ifs <;> nofun
    · intro heoi
      have hge : ¬ s.aipc.buf.tail < s.aipc.buf.head := by
        intro hlt
        rw [if_pos hlt] at heoi
        exact nomatch heoi
      exact Nat.le_antisymm hle (Nat.le_of_not_lt (mt BitVec.lt_def.2 hge))
  · rw [consume_copy hpc] at hqueue ⊢
    exact hi.of_looks hqueue rfl rfl hidle nofun nofun
  · rw [consume_advance hpc] at hqueue ⊢
    exact hi.of_looks hqueue rfl rfl hidle nofun nofun
  -- The queue is empty, so no message is left behind by the end of the interrupt.
  have habsent := (hi.looks hidle).2
  have hdone := hi.done hpc
  rw [consume_eoi hpc] at hqueue ⊢
  refine ⟨hqueue, hi.ready.eoi, ?_, nofun, ?_⟩
  · rw [if_neg not_outstanding_eoi]
    exact count_eq_zero.2 habsent
  · intro _ hlt
    exact absurd hdone hlt.ne

end

theorem count_other (xq : List Xirr) {xirr xirr' : Xirr} (hne : xirr' ≠ xirr) :
    ((xirAdd xq xirr').getD xq).count xirr = xq.count xirr := by
  rw [xirAdd]
  split_ifs
  · rw [Option.getD_some, count_append, count_singleton, if_neg (by simpa using hne), add_zero]
  · rfl

theorem WakeInv.step (hi : WakeInv s) (hact : InterruptDriven s act) (hlate : NoLateSend s act)
    (hx : ipcStep s act = .ok s') : WakeInv s' := by
  cases act with
  | send msg => exact hi.send (hlate msg rfl) hx
  | consume =>
    cases hx
    exact hi.consume
  | other xirr =>
    have hqueue := hi.queue.step hx
    have hcount := count_other s.xir.xirq hact
    cases hx
    refine ⟨hqueue, ⟨hi.ready.enabled, hi.ready.handler⟩, ?_, hi.done, ?_⟩
    · rw [hcount]
      exact hi.once
    · intro hidle hlt
      rw [← count_pos_iff, hcount, count_pos_iff]
      exact hi.waits hidle hlt
  | poll | leave => exact hact.elim

/-! ### A late sender -/

/-- The consumer waits, there are messages, and nothing will wake it up. -/
structure Lost (s : IpcWorld) : Prop where
  idle : s.pc = .idle
  messages : s.tail < s.head
  absent : s.aipc.xirr ∉ s.xir.xirq

/-- A message that comes between the last test and the end of the interrupt is lost. -/
theorem WakeInv.lost (hi : WakeInv s) (hpc : s.pc = .eoi) (hbusy : ¬ s.aipc.Busy)
    (hx : ipcStep s (.send msg) = .ok s') : Lost s'.consume := by
  have hidle : s.pc ≠ .idle := by
    rw [hpc]
    nofun
  have hdone := hi.done hpc
  obtain ⟨hout, habsent⟩ := hi.looks hidle
  have hempty := head_eq_tail_iff.2 hdone.symm
  rcases ipcStep_send hx with ⟨hbusy', -⟩ | ⟨-, -, heq⟩
  · exact absurd hbusy' hbusy
  rw [raised, if_pos hempty, xirInject_outstanding hi.ready hout] at heq
  have haipc : s'.aipc = s.aipc.push msg := by rw [heq]
  have hpc' : s'.pc = .eoi := by rw [heq, hpc]
  obtain ⟨hhead, htail, -⟩ := hi.queue.push hbusy haipc
  rw [consume_eoi hpc']
  refine ⟨rfl, ?_, ?_⟩
  · show s'.tail < s'.head
    omega
  · rwa [heq]

/-- Nothing that the senders and the interrupts do wakes it up again. -/
theorem Lost.step (hl : Lost s) (hi : QueueInv s) (hact : InterruptDriven s act)
    (hx : ipcStep s act = .ok s') : Lost s' ∧ s'.consumed = s.consumed := by
  have hmessages := hl.messages
  cases act with
  | send msg =>
    rcases ipcStep_send hx with ⟨-, rfl⟩ | ⟨hbusy, -, heq⟩
    · exact ⟨hl, rfl⟩
    have hne : s.aipc.buf.head ≠ s.aipc.buf.tail := mt head_eq_tail_iff.1 (by omega)
    rw [raised, if_neg hne] at heq
    have haipc : s'.aipc = s.aipc.push msg := by rw [heq]
    obtain ⟨hhead, htail, -⟩ := hi.push hbusy haipc
    refine ⟨⟨?_, ?_, ?_⟩, ?_⟩
    · rw [heq]
      exact hl.idle
    · omega
    · rw [heq]
      exact hl.absent
    · rw [heq]
  | consume =>
    cases hx
    have hconsume := consume_idle hl.idle
    rcases hq : s.xir.xirq with _ | ⟨xirr, xq⟩
    · rw [hXirr_nil hq, if_neg s.aipc.xirr_ne_zero.symm] at hconsume
      rw [hconsume]
      exact ⟨⟨rfl, hmessages, hl.absent⟩, rfl⟩
    have habsent := hl.absent
    rw [hq, mem_cons, not_or] at habsent
    rw [hXirr_cons hq, if_neg (Ne.symm habsent.1)] at hconsume
    rw [hconsume]
    exact ⟨⟨rfl, hmessages, habsent.2⟩, rfl⟩
  | other xirr =>
    have hcount := count_other s.xir.xirq hact
    cases hx
    refine ⟨⟨hl.idle, hmessages, ?_⟩, rfl⟩
    rw [← count_eq_zero]
    exact hcount.trans (count_eq_zero.2 hl.absent)
  | poll | leave => exact hact.elim

theorem Lost.run (hl : Lost s) (hi : QueueInv s) (hrun : Run ipcStep InterruptDriven s acts s') :
    Lost s' ∧ s'.consumed = s.consumed := by
  have hinv : (Lost s' ∧ QueueInv s') ∧ s'.consumed = s.consumed :=
    hrun.invariant (P := fun t => (Lost t ∧ QueueInv t) ∧ t.consumed = s.consumed)
      (fun _ _ _ ht hact hx => by
        obtain ⟨hl', hcons⟩ := ht.1.1.step ht.1.2 hact hx
        exact ⟨⟨hl', ht.1.2.step hx⟩, hcons.trans ht.2⟩) ⟨⟨hl, hi⟩, rfl⟩
  exact ⟨hinv.1.1, hinv.2⟩

/-- Neither this message nor any later one is ever consumed. -/
theorem WakeInv.lost_run {t : IpcWorld} (hi : WakeInv s) (hpc : s.pc = .eoi) (hbusy : ¬ s.aipc.Busy)
    (hx : ipcStep s (.send msg) = .ok s') (hrun : Run ipcStep InterruptDriven s'.consume acts t) :
    Lost t ∧ t.consumed = s'.consume.consumed := by
  have hqueue := (hi.queue.send hx).consume
  exact (hi.lost hpc hbusy hx).run hqueue hrun

end

/-- **A message is not left waiting.** In every interleaving in which no sender comes between the
last test of the consumer and the end of its interrupt, a consumer that waits while there are
messages has an interrupt in its queue. -/
theorem wakes_up {s s' : IpcWorld} {acts : List IpcAct} (hs : IpcStart s)
    (hrun : Run ipcStep (fun s act => InterruptDriven s act ∧ NoLateSend s act) s acts s') :
    WakesUp s' := by
  have hinv : WakeInv s' := hrun.invariant (P := WakeInv)
    (fun _ _ _ hi hok hx => hi.step hok.1 hok.2 hx) hs.wakeInv
  exact hinv.wakesUp

/-- The consumer reads a message and ends its interrupt; then there is another message. -/
theorem wakes_up_oneSlot : ∃ s, Run ipcStep (fun s act => InterruptDriven s act ∧ NoLateSend s act)
      oneSlot [.send ⟨1, 2, 3, 4, 5⟩, .consume, .consume, .consume, .consume, .consume, .consume,
        .send ⟨6, 7, 8, 9, 10⟩] s ∧
    s.pc = .idle ∧ s.unread = [⟨6, 7, 8, 9, 10⟩] ∧ WakesUp s := by
  have hrun : Run ipcStep (fun s act => InterruptDriven s act ∧ NoLateSend s act) oneSlot
      [.send ⟨1, 2, 3, 4, 5⟩, .consume, .consume, .consume, .consume, .consume, .consume,
        .send ⟨6, 7, 8, 9, 10⟩] _ :=
    .cons ⟨trivial, fun _ _ => nofun⟩ rfl <| .cons ⟨trivial, nofun⟩ rfl <|
    .cons ⟨trivial, nofun⟩ rfl <| .cons ⟨trivial, nofun⟩ rfl <| .cons ⟨trivial, nofun⟩ rfl <|
    .cons ⟨trivial, nofun⟩ rfl <| .cons ⟨trivial, nofun⟩ rfl <|
    .cons ⟨trivial, fun _ _ => nofun⟩ rfl <| .nil _
  exact ⟨_, hrun, rfl, rfl, wakes_up oneSlot_start hrun⟩

/-- The second message comes just before the end of the interrupt.  Then the consumer waits with a
message in the queue, and the source is neither queued nor does it have any flag set. -/
theorem late_send_forgotten : ¬ ∀ s0 acts s, IpcStart s0 → Run ipcStep InterruptDriven s0 acts s →
    s.pc = .idle → s.unread ≠ [] → s.aipc.xirr ∈ s.xir.xirq ∨ s.xir.xhFlags ≠ 0 := by
  intro hall
  have hrun : Run ipcStep InterruptDriven oneSlot
      [.send ⟨1, 2, 3, 4, 5⟩, .consume, .consume, .consume, .consume, .consume,
        .send ⟨6, 7, 8, 9, 10⟩, .consume] _ :=
    .cons trivial rfl <| .cons trivial rfl <| .cons trivial rfl <| .cons trivial rfl <|
    .cons trivial rfl <| .cons trivial rfl <| .cons trivial rfl <| .cons trivial rfl <| .nil _
  have halert := hall _ _ _ oneSlot_start hrun rfl (by decide +kernel)
  exact absurd halert (by decide +kernel)

/-- **Lost messages.**  A message that is accepted between the last test of the consumer and the end
of its interrupt leaves the consumer waiting, and no message is consumed any more, however the
senders and the other interrupts go on. -/
theorem late_send_lost {s0 s s' t : IpcWorld} {acts acts' : List IpcAct} {msg : AsyncMsg}
    (hs : IpcStart s0)
    (hrun : Run ipcStep (fun s act => InterruptDriven s act ∧ NoLateSend s act) s0 acts s)
    (hpc : s.pc = .eoi) (hbusy : ¬ s.aipc.Busy) (hx : ipcStep s (.send msg) = .ok s')
    (hlate : Run ipcStep InterruptDriven s'.consume acts' t) :
    Lost t ∧ t.consumed = s.consumed := by
  have hinv : WakeInv s := hrun.invariant (P := WakeInv)
    (fun _ _ _ hi hok hx => hi.step hok.1 hok.2 hx) hs.wakeInv
  obtain ⟨hlost, hcons⟩ := hinv.lost_run hpc hbusy hx hlate
  refine ⟨hlost, hcons.trans ?_⟩
  rcases ipcStep_send hx with ⟨hbusy', -⟩ | ⟨-, -, heq⟩
  · exact absurd hbusy' hbusy
  · rw [consume_eoi (s := s') (by rw [heq, hpc]), heq]

/-- A third message, after the second one was forgotten. -/
theorem late_send_lost_oneSlot : ∃ t, Lost t ∧ t.consumed = [⟨1, 2, 3, 4, 5⟩] := by
  have hrun : Run ipcStep (fun s act => InterruptDriven s act ∧ NoLateSend s act) oneSlot
      [.send ⟨1, 2, 3, 4, 5⟩, .consume, .consume, .consume, .consume, .consume] _ :=
    .cons ⟨trivial, fun _ _ => nofun⟩ rfl <| .cons ⟨trivial, nofun⟩ rfl <|
    .cons ⟨trivial, nofun⟩ rfl <| .cons ⟨trivial, nofun⟩ rfl <| .cons ⟨trivial, nofun⟩ rfl <|
    .cons ⟨trivial, nofun⟩ rfl <| .nil _
  exact ⟨_, @late_send_lost _ _ _ _ _ [.send ⟨1, 1, 1, 1, 1⟩, .consume] ⟨6, 7, 8, 9, 10⟩
    oneSlot_start hrun rfl (by unfold Aipc.Busy; decide) rfl
    (.cons trivial rfl (.cons trivial rfl (.nil _)))⟩

end Rhype
