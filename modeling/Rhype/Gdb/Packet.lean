import Rhype.Basic

/-!
# The packets of the debugger stub (`lib/gdbstub.c`, `lib/hexstr.c`, `powerpc/64/gdbstub_isa.c`)

A packet is the characters that are in `out_buf`, with their checksum; that `out_buf` has room for
them is not checked.  The number buffer of `write_to_packet_hex` is filled from its end: the text is
what stands from `buf[i]` to the NUL.
-/

namespace Rhype

/-- `char2hex`. -/
def char2hex (c : Char) : Sval :=
  if 'a' ≤ c ∧ c ≤ 'f' then c.toNat - 'a'.toNat + 10
  else if '0' ≤ c ∧ c ≤ '9' then c.toNat - '0'.toNat
  else if 'A' ≤ c ∧ c ≤ 'F' then c.toNat - 'A'.toNat + 10
  else -1

/-- `hex2char`. -/
def hex2char (x : Uval) : Char :=
  ['0', '1', '2', '3', '4', '5', '6', '7', '8', '9', 'a', 'b', 'c', 'd', 'e', 'f'].getD
    (x &&& 15).toNat '\x00'

/-- `str2uval`, of the characters before the NUL. -/
def str2uval (str : List Char) (bytes : Uval) : Uval :=
  (str.take (bytes * 2).toNat).foldl (fun x c => (x <<< 4) + BitVec.ofInt 64 (char2hex c)) 0

/-- `out_buf` up to `out_offset`, and `out_csum`. -/
structure Packet where
  outBuf : List Char
  outCsum : Uval

namespace Packet

/-- `write_to_packet`, of the characters before the NUL. -/
def writeToPacket (p : Packet) (str : List Char) : Packet where
  outBuf := p.outBuf ++ str
  outCsum := str.foldl (fun csum c => (BitVec.ofNat 64 c.toNat + csum) % 256) p.outCsum

/-- The first loop of `write_to_packet_hex`, with `i` and the text from `buf[i]` on. -/
def digits (x : Uval) : Nat → List Char → Hv (Nat × List Char)
  -- `buf[-1]`
  | 0, _ => .error (.bounds .hexBuf (2 ^ 64 - 1))
  | i + 1, text =>
    if x >>> 4 = 0 then .ok (i, hex2char x :: text) else digits (x >>> 4) i (hex2char x :: text)

/-- The second loop; `i + min_width` is a sum of `uval`s. -/
def pad (minWidth : Uval) : Nat → List Char → Hv (List Char)
  | 0, text =>
    if minWidth.toNat > 16 then .error (.bounds .hexBuf (2 ^ 64 - 1)) else .ok text
  | i + 1, text =>
    if (BitVec.ofNat 64 (i + 1) + minWidth).toNat > 16 then pad minWidth i ('0' :: text)
    else .ok text

/-- `write_to_packet_hex`. -/
def writeToPacketHex (p : Packet) (x minWidth : Uval) : Hv Packet := do
  let (i, text) ← digits x 16 []
  let text ← pad minWidth i text
  .ok (p.writeToPacket text)

end Packet

/-- The registers in `struct cpu_state` that the debugger knows. -/
@[ext]
structure CpuState where
  gpr : Fin 32 → Uval
  (pc ps : Uval)
  (cr xer : BitVec 32)
  (ctr lr : Uval)

/-- The calls of `write_to_packet_hex` in `gdb_write_to_packet_reg_array`, in their order. -/
def CpuState.fields (state : CpuState) : List (Uval × Uval) :=
  List.ofFn (fun i => (state.gpr i, 16)) ++ List.replicate 32 (0, 16) ++
    [(state.pc, 16), (state.ps, 16), (state.cr.setWidth 64, 8), (state.lr, 16), (state.ctr, 16),
      (state.xer.setWidth 64, 8), (0, 8)]

/-- `gdb_write_to_packet_reg_array`. -/
def gdbWriteToPacketRegArray (p : Packet) (state : CpuState) : Hv Packet :=
  state.fields.foldlM (fun p f => p.writeToPacketHex f.1 f.2) p

/-- `gdb_read_reg_array`, with the offsets from the begin of the buffer. -/
def gdbReadRegArray (buf : List Char) : CpuState where
  gpr i := str2uval (buf.drop (16 * i)) 8
  pc := str2uval (buf.drop 1024) 8
  ps := str2uval (buf.drop 1040) 8
  cr := (str2uval (buf.drop 1056) 4).setWidth 32
  lr := str2uval (buf.drop 1064) 8
  ctr := str2uval (buf.drop 1080) 8
  xer := (str2uval (buf.drop 1096) 4).setWidth 32

end Rhype
