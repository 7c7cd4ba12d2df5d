/-!
# Instructions

The instruction set without its operand bytes: what an opcode byte alone says. A jump, call or
return carries the condition it waits for, or none when it is always taken. Main statement:
`isUndocumented_executed`, what runs in the end is documented.
-/

namespace Intel8080

/-- A byte operand: one of seven registers, or `m`, the byte that HL points at. -/
inductive Register where
  | b | c | d | e | h | l | m | a
deriving DecidableEq, Repr, Inhabited

/-- A word register of loads, increments, additions and indirect accesses. -/
inductive RegisterPair where
  | bc | de | hl | sp
deriving DecidableEq, Repr, Inhabited

/-- A word that can be pushed and popped; `psw` is the accumulator above the status word. -/
inductive StackPair where
  | bc | de | hl | psw
deriving DecidableEq, Repr, Inhabited

/-- A state of one flag that a jump, call or return can wait for. -/
inductive Condition where
  | notZero | zero | noCarry | carry | parityOdd | parityEven | plus | minus
deriving DecidableEq, Repr, Inhabited

/-- An operation between the accumulator and a byte. -/
inductive AluOp where
  | add | adc | sub | sbb | ana | xra | ora | cmp
deriving DecidableEq, Repr, Inhabited

/-- A rotation of the accumulator by one bit: `rlc` and `rrc` within its eight bits, `ral` and
`rar` through the carry as a ninth. -/
inductive Rotation where
  | rlc | rrc | ral | rar
deriving DecidableEq, Repr, Inhabited

/-- The documented instruction that an undocumented opcode byte behaves as. -/
inductive Alias where
  | nop | jmp | ret | call
deriving DecidableEq, Repr, Inhabited

/-- What one opcode byte stands for. -/
inductive Instruction where
  | nop
  | mov (dst src : Register)
  | mvi (dst : Register)
  | lxi (dst : RegisterPair)
  | lda
  | sta
  | lhld
  | shld
  | ldax (pointer : RegisterPair)
  | stax (pointer : RegisterPair)
  | xchg
  | alu (op : AluOp) (src : Register)
  | aluImmediate (op : AluOp)
  | inr (r : Register)
  | dcr (r : Register)
  | inx (pair : RegisterPair)
  | dcx (pair : RegisterPair)
  | dad (pair : RegisterPair)
  | daa
  | rotate (kind : Rotation)
  | cma
  | stc
  | cmc
  | jump (condition : Option Condition)
  | call (condition : Option Condition)
  | ret (condition : Option Condition)
  /-- A call to the `vector`-th of eight fixed addresses. -/
  | rst (vector : Fin 8)
  | pchl
  | sphl
  | xthl
  | push (pair : StackPair)
  | pop (pair : StackPair)
  | ei
  | di
  | hlt
  | input
  | output
  | undocumented (like : Alias)
deriving DecidableEq, Repr, Inhabited

namespace Alias

def instruction : Alias → Instruction
  | nop => .nop
  | jmp => .jump none
  | ret => .ret none
  | call => .call none

def opcode : Alias → UInt8
  | nop => 0x00
  | jmp => 0xc3
  | ret => 0xc9
  | call => 0xcd

end Alias

namespace Instruction

/-- Whether the opcode byte has no documented meaning. -/
def isUndocumented : Instruction → Bool
  | undocumented _ => true
  | _ => false

/-- The documented instruction that runs when this one does. -/
def executed : Instruction → Instruction
  | undocumented like => like.instruction
  | i => i

@[simp] theorem executed_undocumented (like : Alias) :
    (undocumented like).executed = like.instruction := rfl

theorem executed_of_not_isUndocumented {i : Instruction} (h : i.isUndocumented = false) :
    i.executed = i := by
  cases i <;> first | rfl | cases h

/-- What runs is documented. -/
@[simp] theorem isUndocumented_executed (i : Instruction) : i.executed.isUndocumented = false := by
  cases i with
  | undocumented like => cases like <;> rfl
  | _ => rfl

end Instruction

end Intel8080
