import Rhype.Machine.Run
import Rhype.Slots.Basic
import Rhype.Vterm.Basic

/-!
# A queue of a terminal is a queue of bytes

The cursors of a `struct vt_fifo` are two counters modulo its size, and at least one place stays
free.  So the bytes between them are those that were written and not read yet, and there are fewer
of them than places.

* `fifo_results`: every history of calls returns what it returns for the list of these bytes.
-/

namespace Rhype

open Function List Nat Slots

/-- A call for a queue: up to `c` bytes of `buf` are written, or bytes are read. -/
inductive FifoCall
  | write (c : Uval) (buf : Nat → BitVec 8)
  | read

/-- What a call returns, which is the number of bytes written or the bytes read, and the queue that
it leaves. -/
def vtfCall (f : VtFifo) : FifoCall → (Uval ⊕ List (BitVec 8)) × VtFifo
  | .write c buf => (vtfWrite f c buf).map .inl id
  | .read => (vtfRead f).map .inr id

/-- What the call should do to a queue for `cap` bytes: all bytes are written or none, and the
oldest ones are read. -/
def queueCall (cap : Nat) (q : List (BitVec 8)) :
    FifoCall → (Uval ⊕ List (BitVec 8)) × List (BitVec 8)
  | .write c buf =>
    if q.length + c.toNat ≤ cap then (.inl c, q ++ (range c.toNat).map buf) else (.inl 0, q)
  | .read => (.inr (q.take 16), q.drop 16)

namespace VtFifo

/-- The bytes between the cursors, oldest first. -/
def bytes (f : VtFifo) : List (BitVec 8) :=
  contents f.vtfSz.toNat f.vtfB f.vtfR.toNat
    (if f.vtfR.toNat ≤ f.vtfW.toNat then f.vtfW.toNat else f.vtfW.toNat + f.vtfSz.toNat)

/-- The queue of size `n` is live and has the bytes `q`: those between the counters `tail` and
`head`. -/
structure Holds (n : Nat) (f : VtFifo) (tail head : Nat) (q : List (BitVec 8)) : Prop where
  size : f.vtfSz.toNat = n
  live : f.vtfReap = false
  read : f.vtfR.toNat = tail % n
  write : f.vtfW.toNat = head % n
  le : tail ≤ head
  room : head < tail + n
  contents : q = contents n f.vtfB tail head

section

variable {n tail head k : Nat} {f : VtFifo} {q : List (BitVec 8)}

theorem toNat_succ_mod (hsize : f.vtfSz.toNat = n) (hn : 0 < n) {x : BitVec 16}
    (hx : x.toNat = k % n) : ((x + 1) % f.vtfSz).toNat = (k + 1) % n := by
  have hlt := mod_lt k hn
  rw [BitVec.toNat_umod, BitVec.toNat_add, hx, ← mod_add_mod k]
  congr 1
  exact Nat.mod_eq_of_lt (by simp; omega)

variable (h : f.Holds n tail head q)
include h

theorem Holds.length : q.length = head - tail := by
  rw [h.contents, length_contents]

theorem Holds.put (hroom : head + 1 < tail + n) (b : BitVec 8) :
    (f.put b).Holds n tail (head + 1) (q ++ [b]) where
  size := h.size
  live := h.live
  read := h.read
  write := toNat_succ_mod h.size (by have := h.le; omega) h.write
  le := h.le.trans (le_succ _)
  room := hroom
  contents := by
    rw [h.contents, ← contents_push h.le h.room, ← h.write]
    rfl

theorem Holds.puts (buf : Nat → BitVec 8) (hroom : head + k < tail + n) :
    ((range k).foldl (fun f i => f.put (buf i)) f).Holds n tail (head + k)
      (q ++ (range k).map buf) := by
  induction k with
  | zero => simpa using h
  | succ k ih =>
    rw [range_succ, foldl_append, map_append, ← append_assoc]
    exact (ih (by omega)).put (by omega) _

theorem Holds.take (hk : tail + k ≤ head) :
    (vtfReadLoop k f).1 = q.take k ∧ (vtfReadLoop k f).2.Holds n (tail + k) head (q.drop k) := by
  induction k generalizing f tail q with
  | zero => exact ⟨rfl, h⟩
  | succ k ih =>
    -- the first round takes the oldest byte
    have hpop := h.contents.trans (contents_pop (by omega))
    rw [← h.read] at hpop
    have hnext : Holds n { f with vtfR := (f.vtfR + 1) % f.vtfSz } (tail + 1) head
        (Slots.contents n f.vtfB (tail + 1) head) :=
      ⟨h.size, h.live, toNat_succ_mod h.size (by have := h.room; omega) h.read, h.write, by omega,
        by have := h.room; omega, rfl⟩
    obtain ⟨hbytes, hrest⟩ := ih hnext (by omega)
    rw [hpop, take_succ_cons, ← hbytes]
    exact ⟨rfl, add_right_comm tail 1 k ▸ hrest⟩

theorem Holds.full (b : Bool) : { f with vtfFull := b }.Holds n tail head q :=
  ⟨h.size, h.live, h.read, h.write, h.le, h.room, h.contents⟩

theorem Holds.next : (if f.vtfR.toNat ≤ f.vtfW.toNat then f.vtfW.toNat else f.vtfW.toNat + n) =
    f.vtfR.toNat + q.length := by
  have hle := h.le
  have hroom := h.room
  have hmod : head % n = (tail % n + (head - tail)) % n := by
    rw [mod_add_mod, Nat.add_sub_cancel' hle]
  have htail := mod_lt tail (show 0 < n by omega)
  rw [h.length, h.read, h.write, hmod]
  generalize tail % n = r at htail
  rcases lt_or_ge (r + (head - tail)) n with hlt | hge
  · rw [Nat.mod_eq_of_lt hlt, if_pos (le_add_right ..)]
  · rw [Nat.mod_eq_sub_mod hge, Nat.mod_eq_of_lt (by omega), if_neg (by omega),
      Nat.sub_add_cancel hge]

theorem Holds.bytes_eq : f.bytes = q := by
  rw [bytes, h.size, h.next, h.read, contents_mod, h.length, Nat.add_sub_cancel' h.le, h.contents]

theorem Holds.wide : (f.vtfR.setWidth 64).toNat < n ∧ (f.vtfW.setWidth 64).toNat < n ∧
    (f.vtfSz.setWidth 64).toNat = n ∧ n < 2 ^ 16 ∧ q.length < n ∧
    (if (f.vtfR.setWidth 64).toNat ≤ (f.vtfW.setWidth 64).toNat then (f.vtfW.setWidth 64).toNat
      else (f.vtfW.setWidth 64).toNat + n) = (f.vtfR.setWidth 64).toNat + q.length := by
  have hle := h.le
  have hroom := h.room
  have hn : 0 < n := by omega
  have hto : ∀ x : BitVec 16, (x.setWidth 64).toNat = x.toNat :=
    fun x => BitVec.toNat_setWidth_of_le (by decide)
  rw [hto, hto, h.next, h.length]
  exact ⟨h.read ▸ mod_lt _ hn, h.write ▸ mod_lt _ hn, h.size, h.size ▸ f.vtfSz.isLt, by omega, rfl⟩

/-- The free space is computed in two cases, and one place of it is not used. -/
theorem Holds.write_simulates (c : Uval) (buf : Nat → BitVec 8) :
    (vtfCall f (.write c buf)).1 = (queueCall (n - 1) q (.write c buf)).1 ∧ ∃ tail head,
      (vtfCall f (.write c buf)).2.Holds n tail head (queueCall (n - 1) q (.write c buf)).2 := by
  rw [vtfCall, vtfWrite, queueCall, if_neg (h.live ▸ nofun)]
  extract_lets r w sz
  have hspace : c ≤ sz ↔ q.length + c.toNat ≤ n - 1 := by
    obtain ⟨hr, hw, hn, hlt, hlen, hnext⟩ := h.wide
    unfold sz r w
    split_ifs at * <;> bv_omega
  simp only [hspace]
  split_ifs with hc
  · have hlen := h.length
    have hroom := h.room
    exact ⟨rfl, tail, head + c.toNat, (h.puts buf (by omega)).full false⟩
  · exact ⟨rfl, tail, head, h.full true⟩

theorem Holds.reset (heq : f.vtfR = f.vtfW) : f.reset.Holds n 0 0 q := by
  have hnext := h.next
  have hroom := h.room
  have hle := h.le
  rw [heq, if_pos le_rfl, left_eq_add, length_eq_zero_iff] at hnext
  exact ⟨h.size, h.live, (zero_mod _).symm, (zero_mod _).symm, le_rfl, by omega, hnext⟩

/-- So are the bytes in use, and a read that takes all of them sets the cursors back. -/
theorem Holds.read_simulates :
    (vtfCall f .read).1 = .inr (q.take 16) ∧
      ∃ tail head, (vtfCall f .read).2.Holds n tail head (q.drop 16) := by
  rw [vtfCall]
  unfold vtfRead
  extract_lets r w used sz
  have hsz : sz.toNat = min q.length 16 := by
    obtain ⟨hr, hw, hn, hlt, hlen, hnext⟩ := h.wide
    unfold sz used r w
    split_ifs at * <;> bv_omega
  have hkept : q.take sz.toNat = q.take 16 ∧ q.drop sz.toNat = q.drop 16 := by
    rcases le_total q.length 16 with hle | hle
    · rw [hsz, min_eq_left hle, take_length, take_of_length_le hle, drop_length,
        drop_eq_nil_of_le hle]
      exact ⟨rfl, rfl⟩
    · rw [hsz, min_eq_right hle]
      exact ⟨rfl, rfl⟩
  rw [← hkept.1, ← hkept.2]
  split_ifs with hpos
  · have hlen := h.length
    have hle := h.le
    obtain ⟨hbytes, hrest⟩ := h.take (k := sz.toNat) (by omega)
    refine ⟨congrArg _ hbytes, ?_⟩
    dsimp only [Prod.map]
    split_ifs with heq
    · exact ⟨0, 0, (hrest.reset heq).full false⟩
    · exact ⟨_, _, hrest.full false⟩
  · have hzero : sz.toNat = 0 := by bv_omega
    rw [hzero]
    exact ⟨rfl, tail, head, h⟩

end

end VtFifo

/-- **A live queue is a queue of bytes.**  Every history of calls returns what it returns for the
bytes between the cursors, in a queue that has room for one byte less than its size. -/
theorem fifo_results (f : VtFifo) (hlive : f.vtfReap = false) (hread : f.vtfR.toNat < f.vtfSz.toNat)
    (hwrite : f.vtfW.toNat < f.vtfSz.toNat) (calls : List FifoCall) :
    (results vtfCall f calls).1 = (results (queueCall (f.vtfSz.toNat - 1)) f.bytes calls).1 ∧
      (results vtfCall f calls).2.bytes =
        (results (queueCall (f.vtfSz.toNat - 1)) f.bytes calls).2 := by
  have hstart : ∃ tail head, f.Holds f.vtfSz.toNat tail head f.bytes := by
    refine ⟨_, _, rfl, hlive, (Nat.mod_eq_of_lt hread).symm, ?_, ?_, ?_, rfl⟩
    · split_ifs
      · exact (Nat.mod_eq_of_lt hwrite).symm
      · rw [add_mod_right, Nat.mod_eq_of_lt hwrite]
    all_goals split_ifs <;> omega
  have hcall : ∀ g q call, (∃ tail head, VtFifo.Holds f.vtfSz.toNat g tail head q) →
      (vtfCall g call).1 = (queueCall (f.vtfSz.toNat - 1) q call).1 ∧ ∃ tail head,
        (vtfCall g call).2.Holds f.vtfSz.toNat tail head
          (queueCall (f.vtfSz.toNat - 1) q call).2 := by
    rintro g q call ⟨_, _, h⟩
    cases call with
    | write c buf => exact h.write_simulates c buf
    | read => exact h.read_simulates
  obtain ⟨hrets, _, _, hend⟩ := results_simulate hcall hstart calls
  exact ⟨hrets, hend.bytes_eq⟩

/-- A queue of three places: a write that fits, one that does not, and a read. -/
theorem fifo_results_small :
    (results vtfCall { newFifo with vtfSz := 3 }
      [.write 2 fun i => .ofNat 8 i, .write 1 fun _ => 7, .read]).1 =
      [.inl 2, .inl 0, .inr [0, 1]] :=
  (fifo_results { newFifo with vtfSz := 3 } rfl (by decide) (by decide) _).1

end Rhype
