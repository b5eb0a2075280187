import Rhype.Gdb.Packet
import Mathlib.Algebra.Order.Ring.Nat
import Mathlib.Data.BitVec

/-!
# Words in a packet

The digits are those of `Nat.toDigits`, written from the last one on.  The number buffer has 16
places for them, which is the most that a word needs.
-/

namespace Rhype.Packet

open BitVec List Nat

variable {x w : Uval} {i : Nat} {text : List Char}

theorem char2hex_hex2char (x : Uval) : BitVec.ofInt 64 (char2hex (hex2char x)) = x &&& 15 := by
  have hall : ∀ d : Fin 16, BitVec.ofInt 64 (char2hex (hex2char (BitVec.ofNat 64 d))) =
      BitVec.ofNat 64 d := by decide
  have hlt : (x &&& 15).toNat < 16 := by
    rw [toNat_and]
    exact and_lt_two_pow _ (by decide : (15#64).toNat < 2 ^ 4)
  have hsame : hex2char x = hex2char (BitVec.ofNat 64 (x &&& 15).toNat) := by
    rw [ofNat_toNat, setWidth_eq, hex2char, hex2char, BitVec.and_assoc]
    rfl
  rw [hsame, hall ⟨_, hlt⟩, ofNat_toNat, setWidth_eq]

theorem toNat_shift (x : Uval) : (x >>> 4).toNat = x.toNat / 16 := by
  rw [toNat_ushiftRight, shiftRight_eq_div_pow]

theorem shift_add (x : Uval) : (x >>> 4 <<< 4) + (x &&& 15) = x := by
  apply eq_of_toNat_eq
  have hand : (x &&& 15).toNat = x.toNat % 16 := Nat.and_two_pow_sub_one_eq_mod x.toNat 4
  rw [toNat_add, toNat_shiftLeft, toNat_shift, Nat.shiftLeft_eq, hand]
  have := x.isLt
  omega

/-- The value of a text of digits. -/
def value (text : List Char) : Uval :=
  text.foldl (fun x c => (x <<< 4) + BitVec.ofInt 64 (char2hex c)) 0

/-- **The first loop.**  It writes the digits of `x`, as many as there are, in front of the text. -/
theorem digits_spec (text) (hx : x.toNat < 16 ^ i) (hi : 0 < i) : ∃ ds,
    digits x i text = .ok (i - ds.length, ds ++ text) ∧ ds.length ≤ i ∧
      ds.length = (toDigits 16 x.toNat).length ∧ value ds = x := by
  induction i generalizing x text with
  | zero => cases hi
  | succ i ih =>
    rw [digits]
    split_ifs with hz
    · have hlt : x.toNat < 16 := by
        have := congrArg BitVec.toNat hz
        rw [toNat_shift] at this
        simp at this
        omega
      refine ⟨[hex2char x], rfl, by simp, by rw [toDigits_of_lt_base hlt]; rfl, ?_⟩
      rw [value, foldl_cons, foldl_nil, char2hex_hex2char]
      conv_rhs => rw [← shift_add x, hz]
    · have hge : 16 ≤ x.toNat := by
        by_contra hlt
        refine hz (eq_of_toNat_eq ?_)
        rw [toNat_shift, div_eq_of_lt (by omega)]
        rfl
      have hi' : 0 < i := by
        rcases i with - | i
        · rw [zero_add, pow_one] at hx
          omega
        · omega
      rw [pow_succ] at hx
      obtain ⟨ds, hds, hle, hlen, hval⟩ :=
        ih (x := x >>> 4) (hex2char x :: text) (by rw [toNat_shift]; omega) hi'
      refine ⟨ds ++ [hex2char x], ?_, ?_, ?_, ?_⟩
      · rw [hds, length_append, length_singleton, Nat.add_sub_add_right, List.append_assoc]
        rfl
      · rw [length_append]
        exact succ_le_succ hle
      · rw [toDigits_of_base_le (by decide) hge, length_append, length_append, hlen,
          toNat_shift]
        rfl
      · rw [value, foldl_append, ← value, hval, foldl_cons, foldl_nil, char2hex_hex2char, shift_add]

/-- **The second loop.** -/
theorem pad_spec (hw : w.toNat ≤ 16) (hi : i ≤ 16) :
    pad w i text = .ok (replicate (i + w.toNat - 16) '0' ++ text) := by
  induction i generalizing text with
  | zero =>
    rw [pad, if_neg (by omega), zero_add, Nat.sub_eq_zero_of_le hw]
    rfl
  | succ i ih =>
    have hsum : (BitVec.ofNat 64 (i + 1) + w).toNat = i + 1 + w.toNat := by
      rw [toNat_add, toNat_ofNat]
      omega
    rw [pad, hsum]
    split_ifs with hmore
    · rw [ih (by omega), show i + 1 + w.toNat - 16 = i + w.toNat - 16 + 1 by omega,
        List.replicate_succ', List.append_assoc]
      rfl
    · rw [Nat.sub_eq_zero_of_le (by omega)]
      rfl

theorem value_replicate (n : Nat) (text : List Char) :
    value (replicate n '0' ++ text) = value text := by
  induction n with
  | zero => rfl
  | succ n ih => exact ih

/-- The text was appended, and added to the checksum. -/
structure Appended (p : Packet) (text : List Char) (p' : Packet) : Prop where
  outBuf : p'.outBuf = p.outBuf ++ text
  outCsum : p'.outCsum.toNat % 256 = (p.outCsum.toNat + (text.map Char.toNat).sum) % 256

theorem appended (p : Packet) (text : List Char) : Appended p text (p.writeToPacket text) where
  outBuf := rfl
  outCsum := by
    rw [writeToPacket]
    dsimp only
    induction text generalizing p with
    | nil => rfl
    | cons c text ih =>
      rw [foldl_cons, ih ⟨p.outBuf, _⟩, map_cons, sum_cons, toNat_umod, toNat_add, toNat_ofNat,
        show (256 : Uval).toNat = 256 from rfl]
      omega

theorem writeToPacketHex_eq (p : Packet) (x : Uval) (hw : w.toNat ≤ 16) : ∃ text,
    p.writeToPacketHex x w = .ok (p.writeToPacket text) ∧ text.length ≤ 16 ∧
      text.length = max w.toNat (toDigits 16 x.toNat).length ∧ value text = x := by
  obtain ⟨ds, hds, hle, hlen, hval⟩ := digits_spec [] x.isLt (by decide : 0 < 16)
  rw [append_nil] at hds
  have hsize : (replicate (16 - ds.length + w.toNat - 16) '0' ++ ds).length =
      max w.toNat ds.length := by
    rw [length_append, length_replicate]
    omega
  refine ⟨_, ?_, hsize.trans_le (max_le hw hle), hsize.trans (by rw [hlen]), ?_⟩
  · rw [writeToPacketHex, hds, ok_bind]
    dsimp only
    rw [pad_spec hw (by omega), ok_bind]
  · rw [value_replicate, hval]

/-- **`write_to_packet_hex`** appends the digits of the word, with zeros up to the width in front of
them, and `str2uval` reads the word back. -/
theorem writeToPacketHex_spec (p : Packet) (x : Uval) {minWidth : Uval}
    (hw : minWidth.toNat ≤ 8 * 2) : ∃ text p', p.writeToPacketHex x minWidth = .ok p' ∧
      Appended p text p' ∧ text.length = max minWidth.toNat (toDigits 16 x.toNat).length ∧
      str2uval text 8 = x := by
  obtain ⟨text, hwrite, hle, hlen, hval⟩ := writeToPacketHex_eq p x hw
  refine ⟨text, _, hwrite, appended p text, hlen, ?_⟩
  have htake : text.take ((8 : Uval) * 2).toNat = text := take_of_length_le hle
  rw [str2uval, htake, ← value, hval]

theorem writeToPacketHex_spec_width :
    ∃ text p', (⟨[], 0⟩ : Packet).writeToPacketHex 0xab 4 = .ok p' ∧ Appended ⟨[], 0⟩ text p' ∧
      text.length = max 4 (toDigits 16 0xab).length ∧ str2uval text 8 = 0xab :=
  writeToPacketHex_spec ⟨[], 0⟩ 0xab (by decide)

/-! ### Registers -/

variable {f : Uval × Uval} {fs : List (Uval × Uval)} {texts : List (List Char)} (p : Packet)

/-- The value fits the width of the field. -/
def Fits (f : Uval × Uval) : Prop := 0 < f.2.toNat ∧ f.2.toNat ≤ 16 ∧ f.1.toNat < 16 ^ f.2.toNat

/-- The text is as wide as the field and has its value. -/
def Writes (f : Uval × Uval) (text : List Char) : Prop :=
  text.length = f.2.toNat ∧ value text = f.1

theorem writeToPacketHex_field (hf : Fits f) : ∃ text,
    p.writeToPacketHex f.1 f.2 = .ok (p.writeToPacket text) ∧ Writes f text := by
  obtain ⟨hpos, hw, hx⟩ := hf
  obtain ⟨text, hwrite, -, hlen, hval⟩ := writeToPacketHex_eq p f.1 hw
  rw [← length_toDigits_le_iff (by decide) hpos] at hx
  exact ⟨text, hwrite, hlen.trans (max_eq_left hx), hval⟩

/-- **The fields are written** one after the other. -/
theorem fields_written (hfs : ∀ f ∈ fs, Fits f) : ∃ texts,
    fs.foldlM (fun p f => p.writeToPacketHex f.1 f.2) p = .ok (p.writeToPacket texts.flatten) ∧
      Forall₂ Writes fs texts := by
  induction fs generalizing p with
  | nil => exact ⟨[], congrArg Except.ok (by simp [writeToPacket]), .nil⟩
  | cons f fs ih =>
    rw [forall_mem_cons] at hfs
    obtain ⟨text, hwrite, hf⟩ := writeToPacketHex_field p hfs.1
    obtain ⟨texts, hrest, htexts⟩ := ih (p.writeToPacket text) hfs.2
    refine ⟨text :: texts, ?_, .cons hf htexts⟩
    rw [foldlM_cons, hwrite, ok_bind, hrest]
    simp [writeToPacket]

/-- **A field is read** where the fields before it end. -/
theorem field_read (htexts : Forall₂ Writes fs texts) {k : Nat} (hk : fs[k]? = some f) {b : Uval}
    (hb : (b * 2).toNat = f.2.toNat) :
    str2uval (texts.flatten.drop ((fs.map (·.2.toNat)).take k).sum) b = f.1 := by
  induction htexts generalizing k with
  | nil => simp at hk
  | @cons g text fs texts hg _ ih =>
    cases k with
    | zero =>
      cases hk
      have htake : take (b * 2).toNat (text ++ texts.flatten) = text :=
        take_left' (hg.1.trans hb.symm)
      exact (congrArg value htake).trans hg.2
    | succ k =>
      rw [map_cons, take_succ_cons, sum_cons, flatten_cons, ← hg.1, drop_length_add_append]
      exact ih hk

theorem fields_fit (state : CpuState) : ∀ f ∈ state.fields, Fits f := by
  have hword (x : Uval) : Fits (x, 16) := ⟨zero_lt_succ 15, le_refl 16, x.isLt⟩
  have hhalf (x : BitVec 32) : Fits (x.setWidth 64, 8) := by
    refine ⟨zero_lt_succ 7, (by decide : 8 ≤ 16), ?_⟩
    rw [toNat_setWidth_of_le (by decide)]
    exact x.isLt
  intro f hf
  simp only [CpuState.fields, mem_append, mem_ofFn, mem_replicate, mem_cons, not_mem_nil,
    or_false] at hf
  rcases hf with (⟨i, rfl⟩ | ⟨-, rfl⟩) | rfl | rfl | rfl | rfl | rfl | rfl | rfl
  exacts [hword _, hword _, hword _, hword _, hhalf _, hword _, hword _, hhalf _, hhalf 0]

/-- **Registers that the debugger has read can be written back.** -/
theorem regArray_roundTrip (state : CpuState) : ∃ text p',
    gdbWriteToPacketRegArray p state = .ok p' ∧ Appended p text p' ∧
      gdbReadRegArray text = state := by
  obtain ⟨texts, hwrite, htexts⟩ := fields_written p (fields_fit state)
  -- the widths do not depend on the registers, so that the offsets can be computed
  have hwidths : state.fields.map (·.2.toNat) =
    List.replicate 64 16 ++ [16, 16, 8, 16, 16, 8, 8] := rfl
  have hread {k : Nat} {f : Uval × Uval} {b : Uval} (hk : state.fields[k]? = some f)
      (hb : (b * 2).toNat = f.2.toNat) := hwidths ▸ field_read htexts hk hb
  have hcut (x : BitVec 32) : (x.setWidth 64).setWidth 32 = x :=
    setWidth_setWidth_of_le x (by decide)
  refine ⟨_, _, hwrite, appended p _, ?_⟩
  ext1
  · funext i
    have hsum : ∀ i : Fin 32, ((List.replicate 64 16 ++ [16, 16, 8, 16, 16, 8, 8]).take i).sum =
      16 * i.val := by decide
    have hk : state.fields[i.val]? = some (state.gpr i, 16) := by
      rw [CpuState.fields, List.append_assoc, getElem?_append_left (by simp), List.getElem?_ofFn,
        dif_pos i.isLt]
    have := hread (b := 8) hk rfl
    rwa [hsum] at this
  · exact hread (k := 64) rfl rfl
  · exact hread (k := 65) rfl rfl
  · exact (congrArg (setWidth 32) (hread (k := 66) rfl rfl)).trans (hcut _)
  · exact (congrArg (setWidth 32) (hread (k := 69) rfl rfl)).trans (hcut _)
  · exact hread (k := 68) rfl rfl
  · exact hread (k := 67) rfl rfl

end Rhype.Packet
