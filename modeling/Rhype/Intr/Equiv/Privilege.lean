import Rhype.Intr.Equiv.Entry

/-!
# The privilege level of a thread

The hypervisor goes back to a thread with the selectors that its handlers left.  They come from the
gates and the stack that the partition set, from its stack at `iret`, and from zeroed entries of the
table, and nobody looks at their privilege level: `h_idt_entry` and `h_sys_stack` test the index of
the segment only.  `step_valid_iff` says when the thread is fit to run after an entry.
-/

namespace Rhype.Intr

open BitVec Ia32

/-! ### The entries -/

/-- The stack of the partition is not there, and this is forwarded to it. -/
def forwardsStack : StackFault → Bool
  | none => false
  | some fault => fault.forwards

/-- The gate that is entered for a vector has a privilege level of the partition. -/
def GateOk (t : Thread) (vector : Word) (stack : StackFault) : Prop :=
  ∀ idt, getIdtDescriptor t vector = some idt →
    EnterOk t (if forwardsStack stack then (pfGate t).segment else idt.segment)

/-- The frame at the top of the stack has selectors of the partition. -/
structure FrameOk (t : Thread) : Prop where
  cs : 2 ≤ rpl (t.mem (t.esp + 4))
  ss : rpl (t.mem (t.esp + 4)) ≠ rpl t.cs → 2 ≤ rpl (t.mem (t.esp + 16))

section

variable {t t' : Thread} {trapno errorCode : Word} {fault : PageFault} {stack : StackFault}

theorem ensures_stack : Ensures (stack.map pageFault) (forwardsStack stack) := by
  cases stack with
  | none => exact ensures_none
  | some fault => exact ensures_of_ok fun _ _ _ hx => pageFault_ok hx

theorem raiseException_valid_iff (hv : Valid t) (hx : raiseException stack t trapno = .ok t') :
    Valid t' ↔ GateOk t trapno stack := by
  unfold raiseException at hx
  unfold GateOk
  rcases hgate : getIdtDescriptor t trapno with _ | idt
  · rw [hgate] at hx
    cases hx
    exact ⟨fun _ => nofun, fun _ => hv⟩
  rw [hgate] at hx
  obtain ⟨⟨failed, u⟩, hforce, hx⟩ := of_seq hx
  cases hx
  rw [(forceSyncException_ok ensures_stack hforce).2.valid_iff hv]
  simp

theorem valid_congr (hcs : t'.cs = t.cs) (hss : t'.ss = t.ss) (heflags : t'.eflags = t.eflags) :
    Valid t' ↔ Valid t := by
  constructor
  all_goals
    intro hv
    exact ⟨hcs ▸ hv.cs, hss ▸ hv.ss, heflags ▸ hv.intr⟩

theorem raiseFault_ok (hx : raiseFault stack t trapno errorCode = .ok t') :
    ∃ u, raiseException stack t trapno = .ok u ∧ (Valid t' ↔ Valid u) := by
  unfold raiseFault at hx
  unfold raiseException
  rcases hgate : getIdtDescriptor t trapno with _ | idt
  · rw [hgate] at hx
    cases hx
    exact ⟨t, rfl, .rfl⟩
  rw [hgate] at hx
  obtain ⟨⟨failed, u⟩, hforce, hx⟩ := of_seq hx
  cases hx
  refine ⟨u, seq_ok.2 ⟨_, hforce, rfl⟩, ?_⟩
  split_ifs
  · exact .rfl
  · exact valid_congr rfl rfl rfl

theorem raiseFault_valid_iff (hv : Valid t) (hx : raiseFault stack t trapno errorCode = .ok t') :
    Valid t' ↔ GateOk t trapno stack := by
  obtain ⟨u, hraise, hiff⟩ := raiseFault_ok hx
  rw [hiff, raiseException_valid_iff hv hraise]

theorem ite_enableIntr {c : Prop} [Decidable c] (u : Thread) :
    (if c then enableIntr u else u).cs = u.cs ∧ (if c then enableIntr u else u).ss = u.ss ∧
      (if c then enableIntr u else u).eflags = u.eflags := by
  split_ifs
  all_goals exact ⟨rfl, rfl, rfl⟩

theorem popFrame_valid_iff (hv : Valid t) : Valid (popFrame t) ↔ FrameOk t := by
  have hcs : (popFrame t).cs = t.mem (t.esp + 4) := (ite_enableIntr _).1
  have hss : (popFrame t).ss
      = if rpl (t.mem (t.esp + 4)) ≠ rpl t.cs then t.mem (t.esp + 16) else t.ss := by
    have haddr : t.esp + 4 + 4 + 4 + 4 = t.esp + 16 := by
      rw [add_assoc, add_assoc, add_assoc]
      rfl
    rw [← haddr]
    refine (ite_enableIntr _).2.1.trans ?_
    split_ifs <;> rfl
  have hif : (popFrame t).eflags &&& eflagsIf ≠ 0 := by
    have heflags : (popFrame t).eflags = _ := (ite_enableIntr _).2.2
    rw [heflags]
    exact intr_of_or
  constructor
  · intro hv'
    refine ⟨hcs ▸ hv'.cs, fun hne => ?_⟩
    rw [if_pos hne] at hss
    exact hss ▸ hv'.ss
  · intro hok
    refine ⟨?_, ?_, hif⟩
    · rw [hcs]
      exact hok.cs
    · by_cases hne : rpl (t.mem (t.esp + 4)) ≠ rpl t.cs
      · rw [hss, if_pos hne]
        exact hok.ss hne
      · rw [hss, if_neg hne]
        exact hv.ss

/-- `iret` takes the selectors from the stack, unless a page fault is forwarded. -/
theorem iret_valid_iff (hv : Valid t) (hx : iret stack t = .ok t') :
    Valid t' ↔ if forwardsStack stack then EnterOk t (pfGate t).segment else FrameOk t := by
  obtain ⟨⟨failed, u⟩, hensure, hres⟩ := of_seq hx
  obtain ⟨hfailed, hsame, henter⟩ := ensures_stack t u failed hensure
  cases hfwd : forwardsStack stack with
  | true =>
    rw [hfwd] at hfailed
    subst hfailed
    cases hres
    exact (henter hfwd).valid_iff hv
  | false =>
    rw [hfwd] at hfailed
    subst hfailed
    obtain rfl := hsame hfwd
    cases hres
    exact popFrame_valid_iff hv

theorem deliver_ok (hx : deliverIntrException stack t = .ok t') :
    (externalInterrupt t = none ∧ t' = t) ∨
    ∃ irq u, externalInterrupt t = some irq ∧
      raiseException stack { t with lastirq := .ofNat 32 irq }
        (.ofNat 32 irq + baseIrqVector) = .ok u ∧ (Valid t' ↔ Valid u) := by
  unfold deliverIntrException at hx
  unfold raiseException
  rcases hirq : externalInterrupt t with _ | irq
  · rw [hirq] at hx
    cases hx
    exact .inl ⟨rfl, rfl⟩
  rw [hirq] at hx
  refine .inr ⟨irq, ?_⟩
  dsimp only at hx
  cases hgate : getIdtDescriptor { t with lastirq := .ofNat 32 irq }
      (.ofNat 32 irq + baseIrqVector) with
  | none =>
    rw [hgate] at hx
    cases hx
    exact ⟨_, rfl, rfl, .rfl⟩
  | some idt =>
    rw [hgate] at hx
    obtain ⟨⟨failed, u⟩, hforce, hx⟩ := of_seq hx
    refine ⟨u, rfl, seq_ok.2 ⟨_, hforce, rfl⟩, ?_⟩
    split_ifs at hx
    · cases hx
      exact .rfl
    · cases hx
      exact valid_congr rfl rfl rfl

theorem gateOk_lastirq {lastirq vector : Word} :
    GateOk { t with lastirq := lastirq } vector stack ↔ GateOk t vector stack := by
  constructor
  all_goals
    intro hok idt hidt
    exact ⟨(hok idt hidt).gate, (hok idt hidt).stack⟩

theorem externalInterrupt_eq_none {mbox : Mailbox} (hmbox : t.mbox = some mbox)
    (hmask : mbox.irqPending &&& ~~~mbox.irqMasked = 0) : externalInterrupt t = none := by
  rw [externalInterrupt, hmbox]
  dsimp only
  split_ifs <;> rfl

theorem checkIntrDelivery_ok (hx : checkIntrDelivery stack t = .ok t') :
    (externalInterrupt t = none ∧ t' = t) ∨ deliverIntrException stack t = .ok t' := by
  unfold checkIntrDelivery at hx
  rcases hmbox : t.mbox with _ | mbox
  · rw [hmbox] at hx
    cases hx
    refine .inl ⟨?_, rfl⟩
    rw [externalInterrupt, hmbox]
  rw [hmbox] at hx
  dsimp only at hx
  by_cases hmask : mbox.irqPending &&& ~~~mbox.irqMasked = 0
  · rw [if_neg (not_not.2 hmask)] at hx
    cases hx
    exact .inl ⟨externalInterrupt_eq_none hmbox hmask, rfl⟩
  · rw [if_pos hmask] at hx
    exact .inr hx

theorem deliverIntrException_valid_iff (hv : Valid t) (hx : deliverIntrException stack t = .ok t') :
    Valid t' ↔ ∀ irq, externalInterrupt t = some irq →
      GateOk t (BitVec.ofNat 32 irq + baseIrqVector) stack := by
  rcases deliver_ok hx with ⟨hnone, rfl⟩ | ⟨irq, u, hirq, hraise, hiff⟩
  · rw [hnone]
    exact ⟨fun _ => nofun, fun _ => hv⟩
  · have hv' : Valid { t with lastirq := .ofNat 32 irq } := ⟨hv.cs, hv.ss, hv.intr⟩
    rw [hiff, raiseException_valid_iff hv' hraise, gateOk_lastirq, hirq]
    simp

theorem checkIntrDelivery_valid_iff (hv : Valid t) (hx : checkIntrDelivery stack t = .ok t') :
    Valid t' ↔ ∀ irq, externalInterrupt t = some irq →
      GateOk t (BitVec.ofNat 32 irq + baseIrqVector) stack := by
  rcases checkIntrDelivery_ok hx with ⟨hnone, rfl⟩ | hdeliver
  · rw [hnone]
    exact ⟨fun _ => nofun, fun _ => hv⟩
  · exact deliverIntrException_valid_iff hv hdeliver

theorem hcall_valid (hv : Valid t) (call : Hcall) : Valid (hcall t call) := by
  cases call with
  | idtEntry index word0 word1 =>
    show Valid (hIdtEntry t index word0 word1).2
    dsimp only [hIdtEntry]
    split_ifs
    · exact hv
    · exact hv
    · exact ⟨hv.cs, hv.ss, hv.intr⟩
    · exact hv
  | sysStack ss esp =>
    show Valid (hSysStack t ss esp).2
    dsimp only [hSysStack]
    split_ifs
    · exact hv
    · exact ⟨hv.cs, hv.ss, hv.intr⟩
  | other => exact hv

/-! ### Sequences of entries -/

/-- What the processor allows a partition that runs at level 2 or 3: its selectors have that level,
its I/O privilege level stays, and it can change `IF` only if that is at least 2. -/
structure Guest.Allowed (t : Thread) (g : Guest) : Prop where
  cs : 2 ≤ rpl g.cs
  ss : 2 ≤ rpl g.ss
  iopl : g.eflags &&& eflagsIoplMask = t.eflags &&& eflagsIoplMask
  intr : g.eflags &&& eflagsIf = t.eflags &&& eflagsIf ∨ 0x2000 ≤ t.eflags &&& eflagsIoplMask

/-- Any entry, and any run of the partition that the processor allows. -/
def Event.Allowed (t : Thread) : Event → Prop
  | .guest g => g.Allowed t
  | .exception _ _ _ _ _ => True
  | .trap _ _ _ => True
  | .deliver _ => True

/-- The selectors that an entry takes have a privilege level of the partition, and the partition
runs with interrupts. -/
def Event.Careful (t : Thread) : Event → Prop
  | .guest g => g.eflags &&& eflagsIf ≠ 0
  | .exception trapno _ toggled fault stack =>
    if trapno = pfVector then fault.forwards = true → EnterOk t (pfGate t).segment
    else if trapno = gpVector ∧ toggled = true then True
    else GateOk t trapno stack
  | .trap trapno _ stack =>
    if baseHcallVector ≤ trapno ∧ rpl t.cs < 3 then
      trapno = hcallVectorIret →
        if forwardsStack stack then EnterOk t (pfGate t).segment else FrameOk t
    else GateOk t trapno stack
  | .deliver stack => ∀ irq, externalInterrupt t = some irq →
      GateOk t (BitVec.ofNat 32 irq + baseIrqVector) stack

variable {toggled : Bool} {call : Hcall} {e : Event}

theorem exception_valid_iff (hv : Valid t)
    (hx : exception t trapno errorCode toggled fault stack = .ok t') :
    Valid t' ↔ Event.Careful t (.exception trapno errorCode toggled fault stack) := by
  unfold exception at hx
  rw [Event.Careful]
  by_cases hpf : trapno = pfVector
  · rw [if_pos hpf] at hx ⊢
    obtain ⟨⟨failed, u⟩, hfault, hx⟩ := of_seq hx
    cases hx
    obtain ⟨-, hsame, henter⟩ := pageFault_ok hfault
    cases hfwd : fault.forwards with
    | true =>
      rw [(henter hfwd).valid_iff hv]
      simp
    | false =>
      rw [hsame hfwd]
      exact ⟨fun _ => nofun, fun _ => hv⟩
  · rw [if_neg hpf] at hx ⊢
    by_cases hgp : trapno = gpVector
    · rw [if_pos hgp] at hx
      cases toggled with
      | true =>
        cases hx
        rw [if_pos ⟨hgp, rfl⟩]
        exact ⟨fun _ => trivial, fun _ => hv⟩
      | false =>
        rw [if_neg (by simp)]
        exact raiseFault_valid_iff hv hx
    rw [if_neg fun h => hgp h.1]
    split_ifs at hx
    · exact raiseFault_valid_iff hv hx
    · exact raiseException_valid_iff hv hx

theorem trap_valid_iff (hv : Valid t) (hx : trap t trapno call stack = .ok t') :
    Valid t' ↔ Event.Careful t (.trap trapno call stack) := by
  unfold trap at hx
  rw [Event.Careful]
  by_cases hreserved : baseHcallVector ≤ trapno ∧ rpl t.cs < 3
  · rw [if_pos hreserved] at hx ⊢
    by_cases hcall : trapno = hcallVector
    · rw [if_pos hcall] at hx
      cases hx
      have hne : trapno ≠ hcallVectorIret := by
        rw [hcall]
        decide
      exact ⟨fun _ heq => absurd heq hne, fun _ => hcall_valid hv call⟩
    rw [if_neg hcall] at hx
    split_ifs at hx with hiret
    · rw [iret_valid_iff hv hx]
      exact ⟨fun hok _ => hok, fun hok => hok hiret⟩
    · cases hx
      exact ⟨fun _ heq => absurd heq hiret, fun _ => hv⟩
  · rw [if_neg hreserved] at hx ⊢
    exact raiseException_valid_iff hv hx

/-- **When a thread stays fit to run**: for each event, exactly if it is careful. -/
theorem step_valid_iff (hv : Valid t) (hallowed : e.Allowed t) (hx : step t e = .ok t') :
    Valid t' ↔ e.Careful t := by
  cases e with
  | guest g =>
    have hguest : g.Allowed t := hallowed
    cases hx
    exact ⟨fun hv' => hv'.intr, fun hif => ⟨hguest.cs, hguest.ss, hif⟩⟩
  | exception trapno errorCode toggled fault stack => exact exception_valid_iff hv hx
  | trap trapno call stack => exact trap_valid_iff hv hx
  | deliver stack => exact checkIntrDelivery_valid_iff hv hx

end

/-- The partition sets a gate, enters it with a trap and comes back with `iret`. -/
def trapAndReturn : List Event :=
  [.trap hcallVector (.idtEntry 0x80 0x00220000 0x8F00) none, .trap 0x80 .other none,
    .trap hcallVectorIret .other none]

end Rhype.Intr
