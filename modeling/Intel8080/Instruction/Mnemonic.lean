import Intel8080.Instruction.Basic

/-!
# Mnemonics

The assembler's names for instructions and their operands. A conditional jump, call or return is
named by one letter and the suffix of its condition.
-/

namespace Intel8080

def Register.name : Register → String
  | b => "B" | c => "C" | d => "D" | e => "E" | h => "H" | l => "L" | m => "M" | a => "A"

/-- The assembler's name of a pair, after the register that holds its high byte. -/
def RegisterPair.name : RegisterPair → String
  | bc => "B" | de => "D" | hl => "H" | sp => "SP"

def StackPair.name : StackPair → String
  | bc => "B" | de => "D" | hl => "H" | psw => "PSW"

/-- The ending by which a mnemonic names its condition. -/
def Condition.suffix : Condition → String
  | notZero => "NZ" | zero => "Z" | noCarry => "NC" | carry => "C"
  | parityOdd => "PO" | parityEven => "PE" | plus => "P" | minus => "M"

def AluOp.mnemonic : AluOp → String
  | add => "ADD" | adc => "ADC" | sub => "SUB" | sbb => "SBB"
  | ana => "ANA" | xra => "XRA" | ora => "ORA" | cmp => "CMP"

/-- The mnemonic of an operation on the byte after the opcode. -/
def AluOp.immediateMnemonic : AluOp → String
  | add => "ADI" | adc => "ACI" | sub => "SUI" | sbb => "SBI"
  | ana => "ANI" | xra => "XRI" | ora => "ORI" | cmp => "CPI"

def Rotation.mnemonic : Rotation → String
  | rlc => "RLC" | rrc => "RRC" | ral => "RAL" | rar => "RAR"

namespace Instruction

/-- The mnemonic of every byte without a documented meaning. -/
def unknown : String := "UNKNOWN"

def mnemonic : Instruction → String
  | nop => "NOP"
  | mov _ _ => "MOV"
  | mvi _ => "MVI"
  | lxi _ => "LXI"
  | lda => "LDA"
  | sta => "STA"
  | lhld => "LHLD"
  | shld => "SHLD"
  | ldax _ => "LDAX"
  | stax _ => "STAX"
  | xchg => "XCHG"
  | alu op _ => op.mnemonic
  | aluImmediate op => op.immediateMnemonic
  | inr _ => "INR"
  | dcr _ => "DCR"
  | inx _ => "INX"
  | dcx _ => "DCX"
  | dad _ => "DAD"
  | daa => "DAA"
  | rotate kind => kind.mnemonic
  | cma => "CMA"
  | stc => "STC"
  | cmc => "CMC"
  | jump none => "JMP"
  | jump (some condition) => "J" ++ condition.suffix
  | call none => "CALL"
  | call (some condition) => "C" ++ condition.suffix
  | ret none => "RET"
  | ret (some condition) => "R" ++ condition.suffix
  | rst _ => "RST"
  | pchl => "PCHL"
  | sphl => "SPHL"
  | xthl => "XTHL"
  | push _ => "PUSH"
  | pop _ => "POP"
  | ei => "EI"
  | di => "DI"
  | hlt => "HLT"
  | input => "IN"
  | output => "OUT"
  | undocumented _ => unknown

end Instruction

end Intel8080
