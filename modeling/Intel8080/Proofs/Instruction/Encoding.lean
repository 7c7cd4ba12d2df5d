import Intel8080.Proofs.Instruction.Undocumented
import Intel8080.Proofs.Reference.View

/-!
# Opcodes of instructions

The opcode byte of an instruction, laid out by the codes of its operands. Main statement:
`encode_decode`, what a byte decodes to is encoded as the documented byte that runs it.
-/

namespace Intel8080.Instruction

/-- The opcode byte of an instruction, for an undocumented one that of its alias. -/
def encode (i : Instruction) : UInt8 :=
  UInt8.ofNat <| match i with
  | nop => 0x00
  | lxi p => 0x01 + 16 * p.code
  | stax p => 0x02 + 16 * p.code
  | inx p => 0x03 + 16 * p.code
  | inr r => 0x04 + 8 * r.code
  | dcr r => 0x05 + 8 * r.code
  | mvi r => 0x06 + 8 * r.code
  | rotate kind => 0x07 + 8 * kind.code
  | dad p => 0x09 + 16 * p.code
  | ldax p => 0x0a + 16 * p.code
  | dcx p => 0x0b + 16 * p.code
  | shld => 0x22
  | daa => 0x27
  | lhld => 0x2a
  | cma => 0x2f
  | sta => 0x32
  | stc => 0x37
  | lda => 0x3a
  | cmc => 0x3f
  | mov dst src => 0x40 + 8 * dst.code + src.code
  | hlt => 0x76
  | alu op r => 0x80 + 8 * op.code + r.code
  | ret (some condition) => 0xc0 + 8 * condition.code
  | pop p => 0xc1 + 16 * p.code
  | jump (some condition) => 0xc2 + 8 * condition.code
  | jump none => 0xc3
  | call (some condition) => 0xc4 + 8 * condition.code
  | push p => 0xc5 + 16 * p.code
  | aluImmediate op => 0xc6 + 8 * op.code
  | rst vector => 0xc7 + 8 * vector.val
  | ret none => 0xc9
  | call none => 0xcd
  | output => 0xd3
  | input => 0xdb
  | xthl => 0xe3
  | pchl => 0xe9
  | xchg => 0xeb
  | di => 0xf3
  | sphl => 0xf9
  | ei => 0xfb
  | undocumented like => like.opcode.toNat

/-- What a byte decodes to is encoded as the documented byte that runs it. -/
@[simp] theorem encode_decode (v : UInt8) : encode (decode v) = documented v := by
  have hbytes : ∀ n : Fin 256, encode (decode (UInt8.ofNat n)) = documented (UInt8.ofNat n) := by
    decide +kernel
  simpa using hbytes ⟨v.toNat, v.toNat_lt⟩

/-- The encoding of what a documented byte decodes to is the byte itself. -/
theorem encode_decode_of_notMem {v : UInt8} (h : v ∉ undocumentedBytes) :
    encode (decode v) = v := by
  rw [encode_decode]
  exact Decidable.of_not_not (mt documented_ne_iff.1 h)

end Intel8080.Instruction
