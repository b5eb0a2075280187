import Rhype.Ipc.Create
import Rhype.Vm.Equiv.Map

/-!
# Where the hypervisor writes for a queue

The stores for a queue are in the `size` bytes of its window (`writes_lt`), whatever the partition
writes into the header.  But the window has one page: the bytes behind it are in the range of the
partition only if what the hypervisor has mapped there is (`queueInside_iff`).
-/

namespace Rhype.AipcCreate

open BitVec Ia32 Pgcache Vm

/-- A real byte of the logical range from `lbase` on. -/
def InRange (lmm : Pgcache.LogicalMap) (lbase size x : Word) : Prop :=
  ∃ j < size.toNat, Pgcache.logicalToPhysicalAddress lmm (lbase + BitVec.ofNat 32 j) 1 = .ok x ∧
    x ≠ Pgcache.invalidPhysicalAddress

/-- Everything that is written for the queue, when it is made and for any message with any header,
is in the range that the partition has offered. -/
def QueueInside (lmm : Pgcache.LogicalMap) (vm : HvVm) (lbase size : Word) (c : Created) : Prop :=
  ∀ st, (st ∈ c.stores ∨ ∃ r m, st ∈ (ipcSend c.queue r m).2) → ∀ a, st.Writes a →
    ∃ x, physical vm a = some x ∧ InRange lmm lbase size x

/-- The range is not empty, and each byte of the window is one of the range: a byte of the page that
is mapped, or behind it what the hypervisor has mapped there before. -/
def WindowFits (s : AipcWorld) (lbase size : Word) : Prop :=
  size ≠ 0 ∧ ∀ paddr vaddr,
    Pgcache.logicalToPhysicalAddress s.lmm lbase Pgcache.pgsize = .ok paddr →
    let offset := paddr &&& ~~~pteSmallbase
    s.physPa.getPages (Pgcache.pgsize + offset) = some vaddr →
    ∀ k < size.toNat, ∃ x, remapped s.vm vaddr (paddr &&& pteSmallbase)
      (numPages (Pgcache.pgsize + offset)) (vaddr + offset + BitVec.ofNat 32 k) = some x ∧
      InRange s.lmm lbase size x

/-! ### The stores -/

section

variable {q : Aipc32} {rbase size : Word} {st : Store}

theorem msg_byte (rbase x : Word) (f b : Nat) :
    rbase + msgQueueSize + asyncMsgSize * x + BitVec.ofNat 32 f + BitVec.ofNat 32 b =
      rbase + BitVec.ofNat 32 (12 + 20 * x.toNat + f + b) := by
  rw [BitVec.ofNat_add, BitVec.ofNat_add, BitVec.ofNat_add, BitVec.ofNat_mul, BitVec.ofNat_toNat,
    setWidth_eq]
  rw [show .ofNat 32 12 = msgQueueSize from rfl, show .ofNat 32 20 = asyncMsgSize from rfl]
  grind

theorem mem_ipcSend {r : HeaderReads} {m : Msg32} (hst : st ∈ (ipcSend q r m).2) :
    (∃ f v, f ≤ 16 ∧ st = .word (q.buf + msgQueueSize + asyncMsgSize * (r.headp % q.bufSize) +
      BitVec.ofNat 32 f) v) ∨ ∃ v, st = .word (q.buf + BitVec.ofNat 32 4) v := by
  unfold ipcSend ipcSlot at hst
  split_ifs at hst
  · cases hst
  simp only [List.mem_cons, List.not_mem_nil, or_false] at hst
  rcases hst with rfl | rfl | rfl | rfl | rfl | rfl
  · exact .inl ⟨0, m.amSource, by omega, by simp⟩
  · exact .inl ⟨4, m.amuData 0, by omega, rfl⟩
  · exact .inl ⟨8, m.amuData 1, by omega, rfl⟩
  · exact .inl ⟨12, m.amuData 2, by omega, rfl⟩
  · exact .inl ⟨16, m.amuData 3, by omega, rfl⟩
  · exact .inr ⟨r.headInc + 1, rfl⟩

theorem slot_lt (hsize : size ≠ 0) (hpage : size.toNat % 0x1000 = 0)
    (hq : q.bufSize = (size - msgQueueSize) / asyncMsgSize) (headp : Word) :
    12 + 20 * (headp % q.bufSize).toNat + 20 ≤ size.toNat := by
  have hpos : size.toNat ≠ 0 := fun h => hsize (BitVec.eq_of_toNat_eq h)
  have hbuf : q.bufSize.toNat = (size.toNat - 12) / 20 := by
    rw [hq, toNat_udiv, toNat_sub, show msgQueueSize.toNat = 12 from rfl,
      show asyncMsgSize.toNat = 20 from rfl]
    omega
  have hlt : (headp % q.bufSize).toNat < q.bufSize.toNat := by
    exact Nat.mod_lt _ (by omega)
  omega

/-- **Every byte that is written** is one of the `size` bytes of the window. -/
theorem writes_lt (hsize : size ≠ 0) (hpage : size.toNat % 0x1000 = 0) (hbuf : q.buf = rbase)
    (hq : q.bufSize = (size - msgQueueSize) / asyncMsgSize) {a : Word}
    (hst : st ∈ [.clear rbase size, .word rbase q.bufSize] ∨ ∃ r m, st ∈ (ipcSend q r m).2)
    (ha : st.Writes a) : ∃ k < size.toNat, a = rbase + BitVec.ofNat 32 k := by
  have hpos : size.toNat ≠ 0 := fun h => hsize (BitVec.eq_of_toNat_eq h)
  obtain ⟨b, hb, rfl⟩ := ha
  rcases hst with hst | ⟨r, m, hst⟩
  · simp only [List.mem_cons, List.not_mem_nil, or_false] at hst
    rcases hst with rfl | rfl
    · exact ⟨b, hb, rfl⟩
    · exact ⟨b, by simp only [Store.length] at hb; omega, rfl⟩
  rcases mem_ipcSend hst with ⟨f, v, hf, rfl⟩ | ⟨v, rfl⟩
  · have hslot := slot_lt hsize hpage hq r.headp
    simp only [Store.length] at hb
    refine ⟨12 + 20 * (r.headp % q.bufSize).toNat + f + b, by omega, ?_⟩
    rw [← hbuf]
    exact msg_byte q.buf (r.headp % q.bufSize) f b
  · simp only [Store.length] at hb
    refine ⟨4 + b, by omega, ?_⟩
    rw [BitVec.ofNat_add, ← hbuf, ← add_assoc]
    rfl

end

/-! ### `aipc_create` -/

section

variable {s t : AipcWorld} {thread : Nat} {vector ret : Sval} {lbase size flags : Word}
  {c : Created}

theorem size_aligned (hmask : (size ||| lbase) &&& (Pgcache.pgsize - 1) = 0) :
    size.toNat % 0x1000 = 0 := by
  rw [and_or_distrib_right] at hmask
  have hmod := Word.toNat_and_two_pow_sub_one (k := 12) size (Pgcache.pgsize - 1) (by decide)
  rw [(or_eq_zero_iff.1 hmask).1] at hmod
  exact hmod.symm

theorem aipcCreate_created
    (hcreate : aipcCreate s thread vector lbase size flags = .ok (ret, some c, t)) :
    size.toNat % 0x1000 = 0 ∧ ∃ rbase vm,
      hvMapLa s.lmm s.physPa s.vm lbase Pgcache.pgsize = .ok (some (rbase, vm)) ∧ t.vm = vm ∧
      c.queue.buf = rbase ∧ c.queue.bufSize = (size - msgQueueSize) / asyncMsgSize ∧
      c.stores = [.clear rbase size, .word rbase c.queue.bufSize] := by
  unfold aipcCreate at hcreate
  by_cases hmask : (size ||| lbase) &&& (Pgcache.pgsize - 1) ≠ 0
  · rw [if_pos hmask] at hcreate
    cases hcreate
  rw [if_neg hmask] at hcreate
  by_cases hchunk : Vm.chunkSize < lbase + size
  · rw [if_pos hchunk] at hcreate
    cases hcreate
  rw [if_neg hchunk] at hcreate
  split at hcreate
  · cases hcreate
  rw [seq_ok] at hcreate
  obtain ⟨_ | ⟨rbase, vm⟩, hmap, hcreate⟩ := hcreate
  · cases hcreate
  simp only [seq_ok] at hcreate
  obtain ⟨-, -, hcreate⟩ := hcreate
  cases hcreate
  exact ⟨size_aligned (not_not.1 hmask), rbase, vm, hmap, rfl, rfl, rfl, rfl⟩

end

/-- **The hypervisor writes inside of the range** that `aipc_create` was given exactly when every
byte of the window is a byte of the range. -/
theorem queueInside_iff (s t : AipcWorld) (thread : Nat) (vector ret : Sval)
    (lbase size flags : Word) (c : Created)
    (hcreate : aipcCreate s thread vector lbase size flags = .ok (ret, some c, t)) :
    QueueInside s.lmm t.vm lbase size c ↔ WindowFits s lbase size := by
  obtain ⟨hpage, rbase, vm, hmap, rfl, hbuf, hbufSize, hstores⟩ := aipcCreate_created hcreate
  obtain ⟨paddr, vaddr, hpaddr, hvaddr, rfl, hphys⟩ := hvMapLa_window hmap
  constructor
  · intro hinside
    refine ⟨?_, fun paddr' vaddr' hpaddr' hvaddr' k hk => ?_⟩
    · -- the size of the queue is stored in the header also when there is no room for it
      rintro rfl
      have hheader : .word (vaddr + (paddr &&& ~~~pteSmallbase)) c.queue.bufSize ∈
          c.stores := by
        simp [hstores]
      obtain ⟨x, -, j, hj, -⟩ := hinside _ (.inl hheader) _ ⟨0, by simp [Store.length], rfl⟩
      cases hj
    · rw [hpaddr] at hpaddr'
      cases hpaddr'
      rw [hvaddr] at hvaddr'
      cases hvaddr'
      rw [← hphys]
      exact hinside (.clear _ size) (.inl (by simp [hstores])) _ ⟨k, hk, rfl⟩
  · rintro ⟨hsize, hfits⟩ st hst a ha
    rw [hstores] at hst
    obtain ⟨k, hk, rfl⟩ := writes_lt hsize hpage hbuf hbufSize hst ha
    rw [hphys]
    exact hfits paddr vaddr hpaddr hvaddr k hk

/-! ### Queues of one and of two pages -/

/-- The first chunk of a partition, at the real address 0x10000000. -/
def firstChunk : Pgcache.Lci := ⟨0x10000000, 0, Vm.chunkSize, false⟩

/-- A partition with one chunk of memory and no queue.  The hypervisor has its own memory mapped,
and the next free page of its addresses is 0xFD000000. -/
def noQueue : AipcWorld where
  lmm := fun i => if i = 0 then some (.physMem firstChunk) else none
  physPa := {
    getPages := fun bytes => if bytes.toNat ≤ 0x1000 then some 0xFD000000 else none
    aligned := by
      intro bytes vaddr hget
      split_ifs at hget
      cases hget
      rfl
    fits := by
      intro bytes vaddr hget
      split_ifs at hget with hle
      cases hget
      change 0xFD000000 + bytes.toNat ≤ 2 ^ 32
      omega }
  vm := {
    hvPgd := fun _ => pteP ||| pteRw
    pgtab := fun pdi pti =>
      (BitVec.ofNat 32 (pdi * 2 ^ 22 + pti * 2 ^ 12) - hvVbase) ||| pteP ||| pteRw }
  aipc := fun _ => none
  cleanup := false
  localAipcIdx := fun _ => 0

theorem translate_noQueue {j : Nat} (hj : j < 0x2000) : Pgcache.logicalToPhysicalAddress noQueue.lmm
    (0 + BitVec.ofNat 32 j) 1 = .ok (0x10000000 + BitVec.ofNat 32 j) := by
  have hslot : (BitVec.ofNat 32 j >>> 26).toNat = 0 := by
    rw [BitVec.toNat_ushiftRight, BitVec.toNat_ofNat]
    omega
  have howns : Pgcache.lciOwns firstChunk (.ofNat 32 j) = true := by
    have hend : (0 + Vm.chunkSize : Word).toNat = 0x4000000 := rfl
    simp only [Pgcache.lciOwns, Pgcache.rangeSubset, firstChunk, Bool.and_eq_true,
      decide_eq_true_eq, le_def, hend]
    bv_omega
  have hraddr : firstChunk.raddr ≠ Pgcache.invalidPhysicalAddress := by decide
  have hsum : .ofNat 32 j - firstChunk.laddr + firstChunk.raddr =
      0x10000000 + .ofNat 32 j := by
    change .ofNat 32 j - 0 + (0x10000000 : Word) = _
    grind
  rw [Pgcache.logicalToPhysicalAddress, zero_add, hslot, ← hsum]
  change Pgcache.lciTranslate (.physMem firstChunk) _ _ = _
  simp [Pgcache.lciTranslate, MapChunk.lci, show firstChunk.disabled = false from rfl, hraddr,
    howns]

/-- The second page of a queue of two pages is written in the memory of the hypervisor. -/
theorem queueInside_twoPages :
    ∃ c t, aipcCreate noQueue 0 0 0 0x2000 0 = .ok (0, some c, t) ∧
      ¬ QueueInside noQueue.lmm t.vm 0 0x2000 c := by
  refine ⟨_, _, rfl, fun hinside => ?_⟩
  obtain ⟨x, hx, hrange⟩ := hinside (.clear 0xFD000000 0x2000) (.inl List.mem_cons_self) 0xFD001000
    ⟨0x1000, by decide, by decide⟩
  replace hx : some (0x01001000 : Word) = some x := hx
  cases hx
  obtain ⟨j, hj, hxlate, -⟩ := hrange
  replace hj : j < 0x2000 := hj
  rw [translate_noQueue hj] at hxlate
  have hnat := congrArg BitVec.toNat (Except.ok.inj hxlate)
  rw [toNat_add, BitVec.toNat_ofNat, show (0x10000000 : Word).toNat = 0x10000000 from rfl,
    show (0x01001000 : Word).toNat = 0x01001000 from rfl] at hnat
  omega

/-- `queueInside_iff` for a queue of one page. -/
theorem queueInside_onePage :
    ∃ c t, aipcCreate noQueue 0 0 0 0x1000 0 = .ok (0, some c, t) ∧
      WindowFits noQueue 0 0x1000 ∧ QueueInside noQueue.lmm t.vm 0 0x1000 c := by
  have hfits : WindowFits noQueue 0 0x1000 := by
    refine ⟨by decide, fun paddr vaddr hpaddr hvaddr k hk => ?_⟩
    cases hpaddr
    cases hvaddr
    replace hk : k < 0x1000 := hk
    refine ⟨0x10000000 + .ofNat 32 k, ?_, k, hk, translate_noQueue (by omega), ?_⟩
    · change remapped noQueue.vm 0xFD000000 0x10000000 1 (0xFD000000 + .ofNat 32 k) = _
      rw [remapped, if_pos (by bv_omega)]
      exact congrArg some (by grind)
    · unfold Pgcache.invalidPhysicalAddress
      bv_omega
  exact ⟨_, _, rfl, hfits, (queueInside_iff noQueue _ 0 0 0 0 0x1000 0 _ rfl).2 hfits⟩

end Rhype.AipcCreate
