import Mathlib.Data.List.Basic

/-!
# Classic BPF filters

A filter is a list of instructions over an accumulator and an index register; it
reads a packet and returns how many bytes of it to keep. Jumps only go forward,
so the rest of the program is all the interpreter needs. A load past the end of
the packet ends the program with zero, which drops the packet.
-/

namespace Bpf

/-- An instruction as the kernel takes it. -/
structure Insn where
  code : UInt16
  jt : UInt8
  jf : UInt8
  k : UInt32
  deriving DecidableEq, Repr

/-- What an operation code asks for. -/
inductive Op where
  /-- Load the byte at `k`. -/
  | ldAbsB
  /-- Load the big-endian half word at `k`. -/
  | ldAbsH
  /-- Load the big-endian half word at `k` past the index register. -/
  | ldIndH
  /-- Set the index register to four times the low half of the byte at `k`. -/
  | ldxMsh
  /-- Compare the accumulator with `k`. -/
  | jeq
  /-- Test the accumulator for the bits of `k`. -/
  | jset
  /-- Return `k`. -/
  | ret
  deriving DecidableEq, Repr

/-- The operation codes of the instructions above. -/
def Op.decode (code : UInt16) : Option Op :=
  if code = 0x30 then some .ldAbsB
  else if code = 0x28 then some .ldAbsH
  else if code = 0x48 then some .ldIndH
  else if code = 0xb1 then some .ldxMsh
  else if code = 0x15 then some .jeq
  else if code = 0x45 then some .jset
  else if code = 0x06 then some .ret
  else none

/-- The byte at a position. -/
def byteAt (packet : List UInt8) (i : Nat) : Option UInt32 := packet[i]?.map (·.toUInt32)

/-- The big-endian half word at a position. -/
def halfAt (packet : List UInt8) (i : Nat) : Option UInt32 :=
  (byteAt packet i).bind fun hi => (byteAt packet (i + 1)).map fun lo => hi * 256 + lo

/-- Run the rest of a program after skipping some instructions. An end of the program or an
unknown code drops the packet. -/
def run (packet : List UInt8) : List Insn → (skip : Nat) → (a x : UInt32) → UInt32
  | [], _, _, _ => 0
  | _ :: rest, skip + 1, a, x => run packet rest skip a x
  | insn :: rest, 0, a, x =>
    match Op.decode insn.code with
    | some .ldAbsB => (byteAt packet insn.k.toNat).elim 0 fun v => run packet rest 0 v x
    | some .ldAbsH => (halfAt packet insn.k.toNat).elim 0 fun v => run packet rest 0 v x
    | some .ldIndH => (halfAt packet (x + insn.k).toNat).elim 0 fun v => run packet rest 0 v x
    | some .ldxMsh =>
      (byteAt packet insn.k.toNat).elim 0 fun v => run packet rest 0 a ((v &&& 0xf) * 4)
    | some .jeq => run packet rest (if a = insn.k then insn.jt else insn.jf).toNat a x
    | some .jset => run packet rest (if a &&& insn.k ≠ 0 then insn.jt else insn.jf).toNat a x
    | some .ret => insn.k
    | none => 0

/-- The filter keeps some of the packet. -/
def accepts (program : List Insn) (packet : List UInt8) : Bool := run packet program 0 0 0 != 0

variable {packet : List UInt8} {rest : List Insn} {k a x v : UInt32}

/-! ## One instruction at a time -/

theorem run_ldAbsB (h : byteAt packet k.toNat = some v) :
    run packet (⟨0x30, 0, 0, k⟩ :: rest) 0 a x = run packet rest 0 v x := by
  change (byteAt packet k.toNat).elim 0 _ = _
  rw [h]
  rfl

theorem run_ldAbsH (h : halfAt packet k.toNat = some v) :
    run packet (⟨0x28, 0, 0, k⟩ :: rest) 0 a x = run packet rest 0 v x := by
  change (halfAt packet k.toNat).elim 0 _ = _
  rw [h]
  rfl

theorem run_ldIndH (h : halfAt packet (x + k).toNat = some v) :
    run packet (⟨0x48, 0, 0, k⟩ :: rest) 0 a x = run packet rest 0 v x := by
  change (halfAt packet (x + k).toNat).elim 0 _ = _
  rw [h]
  rfl

theorem run_ldxMsh (h : byteAt packet k.toNat = some v) :
    run packet (⟨0xb1, 0, 0, k⟩ :: rest) 0 a x = run packet rest 0 a ((v &&& 0xf) * 4) := by
  change (byteAt packet k.toNat).elim 0 _ = _
  rw [h]
  rfl

theorem run_jeq_eq (jt jf : UInt8) :
    run packet (⟨0x15, jt, jf, k⟩ :: rest) 0 k x = run packet rest jt.toNat k x := by
  change run packet rest (if k = k then jt else jf).toNat k x = _
  rw [if_pos rfl]

theorem run_jset_zero (jt jf : UInt8) (h : a &&& k = 0) :
    run packet (⟨0x45, jt, jf, k⟩ :: rest) 0 a x = run packet rest jf.toNat a x := by
  change run packet rest (if a &&& k ≠ 0 then jt else jf).toNat a x = _
  rw [if_neg (not_not.mpr h)]

theorem run_ret : run packet (⟨0x06, 0, 0, k⟩ :: rest) 0 a x = k := rfl

end Bpf
