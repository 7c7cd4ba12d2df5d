import Intel8080.Instruction.Basic

/-!
# The opcode matrix

The meaning of each opcode byte, laid out as the processor's opcode matrix: sixteen rows for the
high digit of the byte, sixteen columns for the low one. The first and the last four rows are
listed. The eight between are regular: a move or an operation for each pair of three-bit codes, with
the halt in place of the move from memory to memory. Main statement: `decode_opcode`, the opcode of
an alias decodes to the alias.
-/

namespace Intel8080

def Register.ofCode : Fin 8 → Register
  | 0 => b | 1 => c | 2 => d | 3 => e | 4 => h | 5 => l | 6 => m | 7 => a

def AluOp.ofCode : Fin 8 → AluOp
  | 0 => add | 1 => adc | 2 => sub | 3 => sbb | 4 => ana | 5 => xra | 6 => ora | 7 => cmp

namespace Instruction

open Register

/-- Rows 0 to 3: loads, stores, counting and the accumulator's own operations. -/
def firstQuarter : Vector Instruction 64 := #v[
  .nop, .lxi .bc, .stax .bc, .inx .bc, .inr b, .dcr b, .mvi b, .rotate .rlc,
  .undocumented .nop, .dad .bc, .ldax .bc, .dcx .bc, .inr c, .dcr c, .mvi c, .rotate .rrc,
  .undocumented .nop, .lxi .de, .stax .de, .inx .de, .inr d, .dcr d, .mvi d, .rotate .ral,
  .undocumented .nop, .dad .de, .ldax .de, .dcx .de, .inr e, .dcr e, .mvi e, .rotate .rar,
  .undocumented .nop, .lxi .hl, .shld, .inx .hl, .inr h, .dcr h, .mvi h, .daa,
  .undocumented .nop, .dad .hl, .lhld, .dcx .hl, .inr l, .dcr l, .mvi l, .cma,
  .undocumented .nop, .lxi .sp, .sta, .inx .sp, .inr m, .dcr m, .mvi m, .stc,
  .undocumented .nop, .dad .sp, .lda, .dcx .sp, .inr a, .dcr a, .mvi a, .cmc]

/-- The move between two byte operands; between memory and memory stands the halt. -/
def move (dst src : Register) : Instruction :=
  if dst = m ∧ src = m then .hlt else .mov dst src

/-- Rows c to f: control transfer, the stack, immediate operations and the ports. -/
def lastQuarter : Vector Instruction 64 := #v[
  .ret (some .notZero), .pop .bc, .jump (some .notZero), .jump none,
  .call (some .notZero), .push .bc, .aluImmediate .add, .rst 0,
  .ret (some .zero), .ret none, .jump (some .zero), .undocumented .jmp,
  .call (some .zero), .call none, .aluImmediate .adc, .rst 1,
  .ret (some .noCarry), .pop .de, .jump (some .noCarry), .output,
  .call (some .noCarry), .push .de, .aluImmediate .sub, .rst 2,
  .ret (some .carry), .undocumented .ret, .jump (some .carry), .input,
  .call (some .carry), .undocumented .call, .aluImmediate .sbb, .rst 3,
  .ret (some .parityOdd), .pop .hl, .jump (some .parityOdd), .xthl,
  .call (some .parityOdd), .push .hl, .aluImmediate .ana, .rst 4,
  .ret (some .parityEven), .pchl, .jump (some .parityEven), .xchg,
  .call (some .parityEven), .undocumented .call, .aluImmediate .xra, .rst 5,
  .ret (some .plus), .pop .psw, .jump (some .plus), .di,
  .call (some .plus), .push .psw, .aluImmediate .ora, .rst 6,
  .ret (some .minus), .sphl, .jump (some .minus), .ei,
  .call (some .minus), .undocumented .call, .aluImmediate .cmp, .rst 7]

/-- The instruction that an opcode byte stands for. -/
def decode (opcode : UInt8) : Instruction :=
  let position := Fin.ofNat 64 opcode.toNat
  let row := Fin.ofNat 8 (opcode.toNat / 8)
  let column := Fin.ofNat 8 opcode.toNat
  match Fin.ofNat 4 (opcode.toNat / 64) with
  | 0 => firstQuarter[position]
  | 1 => move (.ofCode row) (.ofCode column)
  | 2 => .alu (.ofCode row) (.ofCode column)
  | 3 => lastQuarter[position]

/-- The opcode of an alias decodes to the alias. -/
@[simp] theorem decode_opcode (s : Alias) : decode s.opcode = s.instruction := by
  cases s <;> rfl

end Instruction

end Intel8080
