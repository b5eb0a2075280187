import Rhype.Ipc.Basic
import Rhype.Slots.Basic
import Rhype.Xir.Equiv.Source

/-!
# The queue of messages

The slots between the two counters hold the messages that were accepted and not consumed yet, oldest
first.  So the queue is a bounded queue with the capacity of the buffer (`queue_holds`), whatever
the senders and the consumer do in between.

A sender is refused when `head` has reached `tail` plus the capacity.  When this sum does not fit
into a word every sender is refused, so `head` never wraps around; the refusal is right as long as
the sum fits.
-/

namespace Rhype

open BitVec IpcWorld List Slots

namespace IpcWorld

def capacity (s : IpcWorld) : Nat := s.aipc.bufSize.toNat

/-- The counter of the messages that were put in. -/
def head (s : IpcWorld) : Nat := s.aipc.buf.head.toNat

/-- The counter of the messages that were taken out. -/
def tail (s : IpcWorld) : Nat := s.aipc.buf.tail.toNat

def unread (s : IpcWorld) : List AsyncMsg :=
  contents s.capacity s.aipc.buf.buffer s.tail s.head

end IpcWorld

/-! ### The consumer -/

section

variable {s : IpcWorld} {msg : AsyncMsg}

theorem IpcWorld.consume_idle (hpc : s.pc = .idle) : s.consume = { s with
    xir := (hXirr s.xir).2
    pc := if (hXirr s.xir).1 = s.aipc.xirr then .test else .idle } := by
  rw [consume, hpc]

theorem IpcWorld.consume_test (hpc : s.pc = .test) : s.consume = { s with
    pc := if s.aipc.buf.tail < s.aipc.buf.head then .copy else .eoi } := by
  rw [consume, hpc]

theorem IpcWorld.consume_copy (hpc : s.pc = .copy) : s.consume = { s with
    pc := .advance (s.aipc.buf.buffer (s.aipc.buf.tail % s.aipc.bufSize).toNat) } := by
  rw [consume, hpc]

theorem IpcWorld.consume_advance (hpc : s.pc = .advance msg) : s.consume = { s with
    aipc := { s.aipc with buf := { s.aipc.buf with tail := s.aipc.buf.tail + 1 } }
    pc := .test
    consumed := s.consumed ++ [msg] } := by
  rw [consume, hpc]

theorem IpcWorld.consume_eoi (hpc : s.pc = .eoi) :
    s.consume = { s with xir := xirEoi s.xir, pc := .idle } := by
  rw [consume, hpc]

end

/-! ### Sending -/

/-- The queue after a message was put in. -/
def Aipc.push (aipc : Aipc) (msg : AsyncMsg) : Aipc :=
  { aipc with
    buf := { aipc.buf with
      buffer := Function.update aipc.buf.buffer (aipc.buf.head % aipc.bufSize).toNat msg
      head := aipc.buf.head + 1 } }

/-- The test of `__ipc_send`. -/
def Aipc.Busy (aipc : Aipc) : Prop := aipc.buf.tail + aipc.bufSize ≤ aipc.buf.head

/-- An interrupt is raised if the queue was empty. -/
def raised (aipc : Aipc) (x : Xir) : Int × Xir :=
  if aipc.buf.head = aipc.buf.tail then xirInject x aipc.xirr else (0, x)

section

variable {aipc aipc' : Aipc} {x x' : Xir} {msg : AsyncMsg} {ret : Sval}

theorem ipcSend_busy (hbusy : aipc.Busy) : ipcSend aipc x msg = .ok (hBusy, aipc, x) := by
  rw [Aipc.Busy] at hbusy
  rw [ipcSend, ipcSlot, if_pos hbusy]

theorem ipcSend_push (hbusy : ¬ aipc.Busy) : ipcSend aipc x msg =
    hassert (0 ≤ (raised aipc x).1) >>= fun _ =>
      .ok (hSuccess, aipc.push msg, (raised aipc x).2) := by
  have hsucc : aipc.buf.head + 1 = aipc.buf.tail + 1 ↔ aipc.buf.head = aipc.buf.tail := by
    constructor
    · exact fun heq => add_right_cancel heq
    · exact fun heq => by rw [heq]
  rw [Aipc.Busy] at hbusy
  rw [ipcSend, ipcSlot, if_neg hbusy, raised]
  dsimp only
  by_cases hempty : aipc.buf.head = aipc.buf.tail
  · rw [if_pos (hsucc.2 hempty), if_pos hempty]
    rfl
  · rw [if_neg (mt hsucc.1 hempty), if_neg hempty]
    rfl

theorem Xir.Ready.raised (hready : x.Ready) (hret : 0 ≤ (Rhype.raised aipc x).1) :
    (Rhype.raised aipc x).2.Ready := by
  rw [Rhype.raised] at hret ⊢
  split_ifs at hret ⊢
  · rcases Xir.xirInject_ok hready hret with ⟨-, heq⟩ | ⟨-, heq⟩
    · rwa [heq]
    · rw [heq]
      exact hready.queued
  · exact hready

theorem ipcSend_ok (hx : ipcSend aipc x msg = .ok (ret, aipc', x')) :
    (aipc.Busy ∧ ret = hBusy ∧ aipc' = aipc ∧ x' = x) ∨
    (¬ aipc.Busy ∧ ret = hSuccess ∧ aipc' = aipc.push msg ∧ 0 ≤ (raised aipc x).1 ∧
      x' = (raised aipc x).2) := by
  by_cases hbusy : aipc.Busy
  · rw [ipcSend_busy hbusy] at hx
    cases hx
    exact .inl ⟨hbusy, rfl, rfl, rfl⟩
  rw [ipcSend_push hbusy] at hx
  obtain ⟨_, hassert, heq⟩ := of_seq hx
  rw [hassert_ok, decide_eq_true_eq] at hassert
  cases heq
  exact .inr ⟨hbusy, rfl, rfl, hassert, rfl⟩

theorem ipcStep_send {s s' : IpcWorld} (hx : ipcStep s (.send msg) = .ok s') :
    (s.aipc.Busy ∧ s' = s) ∨
    (¬ s.aipc.Busy ∧ 0 ≤ (raised s.aipc s.xir).1 ∧ s' = { s with
      aipc := s.aipc.push msg
      xir := (raised s.aipc s.xir).2
      accepted := s.accepted ++ [msg] }) := by
  obtain ⟨⟨ret, aipc, x⟩, hsend, heq⟩ := of_seq hx
  rcases ipcSend_ok hsend with ⟨hbusy, rfl, rfl, rfl⟩ | ⟨hbusy, rfl, rfl, hret, rfl⟩
  · cases heq
    exact .inl ⟨hbusy, rfl⟩
  · cases heq
    exact .inr ⟨hbusy, hret, rfl⟩

theorem lt_of_not_busy (hle : aipc.buf.tail.toNat ≤ aipc.buf.head.toNat) (hbusy : ¬ aipc.Busy) :
    aipc.buf.head.toNat < aipc.buf.tail.toNat + aipc.bufSize.toNat ∧
      aipc.buf.tail.toNat + aipc.bufSize.toNat < 2 ^ 64 := by
  rw [Aipc.Busy, le_def, toNat_add] at hbusy
  omega

end

/-! ### The invariant -/

/-- The queue holds the messages that were accepted and not consumed, in order. -/
structure QueueInv (s : IpcWorld) : Prop where
  le : s.tail ≤ s.head
  room : s.head ≤ s.tail + s.capacity
  count : s.consumed.length = s.tail
  log : s.accepted = s.consumed ++ s.unread
  /-- The consumer copies a slot that is in use. -/
  copy : s.pc = .copy → s.tail < s.head
  /-- What it copied is the oldest message. -/
  copied : ∀ msg, s.pc = .advance msg → ∃ rest, s.unread = msg :: rest

/-- The queue after `aipc_create`, with its interrupt enabled. -/
structure IpcStart (s : IpcWorld) : Prop where
  head : s.head = 0
  tail : s.tail = 0
  pc : s.pc = .idle
  accepted : s.accepted = []
  consumed : s.consumed = []
  ready : s.xir.Ready
  quiet : ¬ s.xir.Outstanding
  absent : s.aipc.xirr ∉ s.xir.xirq

section

variable {s s' : IpcWorld} {msg : AsyncMsg} {act : IpcAct} {acts : List IpcAct}
  {ok : IpcWorld → IpcAct → Prop} {aipc : Aipc} {x : Xir}

theorem IpcStart.queueInv (hs : IpcStart s) : QueueInv s := by
  have hunread : s.unread = [] := by
    rw [IpcWorld.unread, hs.head, hs.tail]
    rfl
  refine ⟨?_, ?_, ?_, ?_, ?_, ?_⟩
  · rw [hs.head, hs.tail]
  · rw [hs.head]
    exact Nat.zero_le _
  · rw [hs.consumed, hs.tail]
    rfl
  · rw [hs.accepted, hs.consumed, hunread]
    rfl
  all_goals
    rw [hs.pc]
    nofun

section

variable (hi : QueueInv s)
include hi

theorem QueueInv.of_same (haipc : s'.aipc = s.aipc) (hacc : s'.accepted = s.accepted)
    (hcons : s'.consumed = s.consumed) (hcopy : s'.pc = .copy → s.tail < s.head)
    (hcopied : ∀ msg, s'.pc = .advance msg → ∃ rest, s.unread = msg :: rest) : QueueInv s' := by
  have hhead : s'.head = s.head := by rw [IpcWorld.head, haipc, IpcWorld.head]
  have htail : s'.tail = s.tail := by rw [IpcWorld.tail, haipc, IpcWorld.tail]
  have hcap : s'.capacity = s.capacity := by rw [IpcWorld.capacity, haipc, IpcWorld.capacity]
  have hunread : s'.unread = s.unread := by
    rw [IpcWorld.unread, hhead, htail, hcap, haipc, IpcWorld.unread]
  constructor
  · rw [hhead, htail]
    exact hi.le
  · rw [hhead, htail, hcap]
    exact hi.room
  · rw [hcons, htail]
    exact hi.count
  · rw [hacc, hcons, hunread]
    exact hi.log
  · rwa [hhead, htail]
  · rwa [hunread]

theorem QueueInv.of_waits (haipc : s'.aipc = s.aipc) (hacc : s'.accepted = s.accepted)
    (hcons : s'.consumed = s.consumed) (hpc : s'.pc = s.pc ∨ s'.pc = .idle ∨ s'.pc = .test) :
    QueueInv s' := by
  refine hi.of_same haipc hacc hcons ?_ ?_
  · intro hcopy
    rcases hpc with hpc | hpc | hpc
    · exact hi.copy (hpc ▸ hcopy)
    all_goals exact nomatch hpc.symm.trans hcopy
  · intro msg hadv
    rcases hpc with hpc | hpc | hpc
    · exact hi.copied msg (hpc ▸ hadv)
    all_goals exact nomatch hpc.symm.trans hadv

theorem QueueInv.push (hbusy : ¬ s.aipc.Busy) (haipc : s'.aipc = s.aipc.push msg) :
    s'.head = s.head + 1 ∧ s'.tail = s.tail ∧ s'.capacity = s.capacity ∧
      s'.unread = s.unread ++ [msg] := by
  obtain ⟨hroom, hword⟩ := lt_of_not_busy hi.le hbusy
  change s.head < s.tail + s.capacity at hroom
  change s.tail + s.capacity < 2 ^ 64 at hword
  have hhead : s'.head = s.head + 1 := by
    have hsum : s'.head = (s.head + 1) % 2 ^ 64 := by
      rw [IpcWorld.head, haipc]
      rfl
    rw [hsum, Nat.mod_eq_of_lt (by omega)]
  have htail : s'.tail = s.tail := by
    rw [IpcWorld.tail, haipc]
    rfl
  have hcap : s'.capacity = s.capacity := by
    rw [IpcWorld.capacity, haipc]
    rfl
  have hbuffer : s'.aipc.buf.buffer
      = Function.update s.aipc.buf.buffer (s.head % s.capacity) msg := by
    rw [haipc]
    rfl
  refine ⟨hhead, htail, hcap, ?_⟩
  rw [IpcWorld.unread, hhead, htail, hcap, hbuffer]
  exact contents_push hi.le hroom msg

theorem QueueInv.send (hx : ipcStep s (.send msg) = .ok s') : QueueInv s' := by
  rcases ipcStep_send hx with ⟨-, rfl⟩ | ⟨hbusy, -, heq⟩
  · exact hi
  have haipc : s'.aipc = s.aipc.push msg := by rw [heq]
  have hcons : s'.consumed = s.consumed := by rw [heq]
  have hpc : s'.pc = s.pc := by rw [heq]
  obtain ⟨hhead, htail, hcap, hunread⟩ := hi.push hbusy haipc
  have hroom : s.head < s.tail + s.capacity := (lt_of_not_busy hi.le hbusy).1
  have hle := hi.le
  constructor
  · omega
  · omega
  · rw [hcons, htail]
    exact hi.count
  · rw [hunread, ← List.append_assoc, hcons, ← hi.log, heq]
  · intro hcopy
    have hlt := hi.copy (hpc ▸ hcopy)
    omega
  · intro msg' hadv
    obtain ⟨rest, hrest⟩ := hi.copied msg' (hpc ▸ hadv)
    exact ⟨rest ++ [msg], by rw [hunread, hrest, List.cons_append]⟩

theorem QueueInv.advance (hpc : s.pc = .advance msg) : QueueInv s.consume := by
  obtain ⟨rest, hrest⟩ := hi.copied msg hpc
  have hlt : s.tail < s.head := by
    have hlen : s.unread.length = s.head - s.tail := length_contents
    rw [hrest, length_cons] at hlen
    omega
  have hpop : s.unread = s.aipc.buf.buffer (s.tail % s.capacity)
      :: contents s.capacity s.aipc.buf.buffer (s.tail + 1) s.head := contents_pop hlt
  rw [hrest, cons.injEq] at hpop
  have hconsume := consume_advance hpc
  have htail : s.consume.tail = s.tail + 1 := by
    have hhead : s.head < 2 ^ 64 := s.aipc.buf.head.isLt
    have hsum : s.consume.tail = (s.tail + 1) % 2 ^ 64 := by
      rw [hconsume]
      rfl
    rw [hsum, Nat.mod_eq_of_lt (by omega)]
  have hhead : s.consume.head = s.head := by
    rw [hconsume]
    rfl
  have hcap : s.consume.capacity = s.capacity := by
    rw [hconsume]
    rfl
  have hunread : s.consume.unread = rest := by
    rw [IpcWorld.unread, htail, hhead, hcap, hpop.2, hconsume]
  have hroom := hi.room
  constructor
  · omega
  · omega
  · rw [htail, ← hi.count, hconsume, length_append]
    rfl
  · have hlog := hi.log
    rw [hrest] at hlog
    rw [hunread, hconsume, hlog, List.append_assoc]
    rfl
  all_goals
    rw [hconsume]
    nofun

theorem QueueInv.consume : QueueInv s.consume := by
  rcases hpc : s.pc with _ | _ | _ | msg | _
  · rw [consume_idle hpc]
    refine hi.of_waits rfl rfl rfl (.inr ?_)
    split_ifs
    · exact .inr rfl
    · exact .inl rfl
  · rw [consume_test hpc]
    refine hi.of_same rfl rfl rfl ?_ ?_
    · intro hcopy
      by_contra hle
      rw [if_neg (mt lt_def.1 hle)] at hcopy
      exact nomatch hcopy
    · intro msg hadv
      split_ifs at hadv
  · rw [consume_copy hpc]
    refine hi.of_same rfl rfl rfl nofun ?_
    rintro msg ⟨⟩
    exact ⟨_, contents_pop (hi.copy hpc)⟩
  · exact hi.advance hpc
  · rw [consume_eoi hpc]
    exact hi.of_waits rfl rfl rfl (.inr (.inl rfl))

theorem QueueInv.step (hx : ipcStep s act = .ok s') : QueueInv s' := by
  cases act with
  | send msg => exact hi.send hx
  | consume =>
    cases hx
    exact hi.consume
  | other xirr =>
    cases hx
    exact hi.of_waits rfl rfl rfl (.inl rfl)
  | poll =>
    cases hx
    refine hi.of_waits rfl rfl rfl ?_
    split_ifs
    · exact .inr (.inr rfl)
    · exact .inl rfl
  | leave =>
    cases hx
    refine hi.of_waits rfl rfl rfl ?_
    split_ifs
    · exact .inr (.inl rfl)
    · exact .inl rfl

end

theorem ready_step (hready : s.xir.Ready) (hx : ipcStep s act = .ok s') : s'.xir.Ready := by
  cases act with
  | send msg =>
    rcases ipcStep_send hx with ⟨-, rfl⟩ | ⟨-, hret, rfl⟩
    · exact hready
    · exact hready.raised hret
  | consume =>
    cases hx
    rcases hpc : s.pc with _ | _ | _ | msg | _
    · rw [consume_idle hpc]
      exact hready.taken
    · rwa [consume_test hpc]
    · rwa [consume_copy hpc]
    · rwa [consume_advance hpc]
    · rw [consume_eoi hpc]
      exact hready.eoi
  | other xirr =>
    cases hx
    exact ⟨hready.enabled, hready.handler⟩
  | poll | leave =>
    cases hx
    exact hready

/-! ### The bounded queue -/

theorem QueueInv.length_unread (hi : QueueInv s) : s.unread.length ≤ s.capacity := by
  have hlen : s.unread.length = s.head - s.tail := length_contents
  have hroom := hi.room
  omega

theorem QueueInv.kept (hi : QueueInv s) {i : Nat} (hi' : s.consumed.length ≤ i)
    (hget : s.accepted[i]? = some msg) : s.aipc.buf.buffer (i % s.capacity) = msg := by
  rw [hi.log, getElem?_append_right hi', IpcWorld.unread, contents, getElem?_map,
    Option.map_eq_some_iff] at hget
  obtain ⟨j, hj, rfl⟩ := hget
  obtain ⟨-, rfl⟩ := List.getElem?_eq_some_iff.1 hj
  rw [List.getElem_range, ← hi.count, Nat.add_sub_cancel' hi']

/-- The test of the senders is the right one as long as the counters do not wrap around. -/
theorem QueueInv.busy_iff (hi : QueueInv s) (hword : s.tail + s.capacity < 2 ^ 64) :
    s.aipc.Busy ↔ s.unread.length = s.capacity := by
  have hlen : s.unread.length = s.head - s.tail := length_contents
  have hle := hi.le
  have hroom := hi.room
  have hsum : (s.aipc.buf.tail + s.aipc.bufSize).toNat = s.tail + s.capacity := by
    exact Nat.mod_eq_of_lt hword
  rw [Aipc.Busy, le_def, hsum]
  change s.tail + s.capacity ≤ s.head ↔ _
  omega

theorem ipcSend_busy_iff :
    (∃ aipc' x', ipcSend aipc x msg = .ok (hBusy, aipc', x')) ↔ aipc.Busy := by
  constructor
  · rintro ⟨aipc', x', hx⟩
    rcases ipcSend_ok hx with ⟨hbusy, -⟩ | ⟨-, hret, -⟩
    · exact hbusy
    · cases hret
  · intro hbusy
    exact ⟨aipc, x, ipcSend_busy hbusy⟩

theorem ipcSend_success (hready : x.Ready) (hroom : x.Outstanding ∨ x.xirq.length + 1 < xirrDevidSz)
    (hbusy : ¬ aipc.Busy) : ∃ x', ipcSend aipc x msg = .ok (hSuccess, aipc.push msg, x') := by
  have hret : 0 ≤ (raised aipc x).1 := by
    rw [raised]
    split_ifs
    · by_cases hout : x.Outstanding
      · rw [Xir.xirInject_outstanding hready hout]
      · rw [Xir.xirInject_queued hready hout (hroom.resolve_left hout)]
    · exact le_rfl
  have hassert : hassert (0 ≤ (raised aipc x).1) = .ok () :=
    hassert_ok.2 (decide_eq_true hret)
  refine ⟨(raised aipc x).2, ?_⟩
  rw [ipcSend_push hbusy, hassert]
  rfl

/-- What a queue of messages is. -/
structure QueueHolds (s : IpcWorld) : Prop where
  bounded : s.unread.length ≤ s.capacity
  /-- The messages that were accepted come out in order, and the others are in the queue. -/
  order : s.accepted = s.consumed ++ s.unread
  /-- A message that was accepted and not consumed is still in its slot. -/
  kept : ∀ i msg, s.consumed.length ≤ i → s.accepted[i]? = some msg →
    s.aipc.buf.buffer (i % s.capacity) = msg
  /-- A sender is refused when the queue is full. -/
  busy : s.tail + s.capacity < 2 ^ 64 → ∀ msg,
    (∃ aipc x, ipcSend s.aipc s.xir msg = .ok (hBusy, aipc, x)) ↔ s.unread.length = s.capacity
  /-- Otherwise its message is accepted, when there is room for an interrupt. -/
  accepts : s.tail + s.capacity < 2 ^ 64 → s.unread.length ≠ s.capacity →
    s.xir.Outstanding ∨ s.xir.xirq.length + 1 < xirrDevidSz →
    ∀ msg, ∃ aipc x, ipcSend s.aipc s.xir msg = .ok (hSuccess, aipc, x)

theorem QueueInv.holds (hi : QueueInv s) (hready : s.xir.Ready) : QueueHolds s where
  bounded := hi.length_unread
  order := hi.log
  kept _ _ hi' hget := hi.kept hi' hget
  busy hword msg := ipcSend_busy_iff.trans (hi.busy_iff hword)
  accepts hword hfull hroom msg := by
    have hbusy := mt (hi.busy_iff hword).1 hfull
    obtain ⟨x, hx⟩ := ipcSend_success hready hroom hbusy
    exact ⟨_, x, hx⟩

end

/-- A queue of one slot. -/
def oneSlot : IpcWorld where
  aipc := {
    buf := { head := 0, tail := 0, buffer := fun _ => ⟨0, 0, 0, 0, 0⟩ }
    bufSize := 1
    xirr := 0x100
    bufSize_pos := by decide
    xirr_ne_zero := by decide }
  xir := { xhFlags := 0, xhHandler := true, xirq := [] }
  pc := .idle
  accepted := []
  consumed := []

theorem oneSlot_start : IpcStart oneSlot where
  head := rfl
  tail := rfl
  pc := rfl
  accepted := rfl
  consumed := rfl
  ready := ⟨by decide, rfl⟩
  quiet := by decide
  absent := nofun

/-- Two senders, and a consumer that takes the first message out; the second sender is refused. -/
def oneSlotActs : List IpcAct :=
  [.send ⟨1, 2, 3, 4, 5⟩, .send ⟨6, 7, 8, 9, 10⟩, .consume, .consume, .consume, .consume]

end Rhype
