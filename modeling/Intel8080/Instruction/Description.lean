import Intel8080.Instruction.Basic

/-!
# Descriptions of instructions

An unambiguous text for an instruction, for tables and diagnostics: its kind with its parts in
parentheses. Unlike the mnemonic it tells the aliases of undocumented bytes apart.
-/

namespace Intel8080

def Register.description : Register → String
  | b => "B" | c => "C" | d => "D" | e => "E" | h => "H" | l => "L" | m => "M" | a => "A"

def RegisterPair.description : RegisterPair → String
  | bc => "BC" | de => "DE" | hl => "HL" | sp => "SP"

/-- Both letters of a pair on the stack, or the name of the status word. -/
def StackPair.description : StackPair → String
  | bc => "BC" | de => "DE" | hl => "HL" | psw => "PSW"

def Condition.description : Condition → String
  | notZero => "NotZero" | zero => "Zero" | noCarry => "NoCarry" | carry => "Carry"
  | parityOdd => "ParityOdd" | parityEven => "ParityEven" | plus => "Plus" | minus => "Minus"

def AluOp.description : AluOp → String
  | add => "Add" | adc => "Adc" | sub => "Sub" | sbb => "Sbb"
  | ana => "Ana" | xra => "Xra" | ora => "Ora" | cmp => "Cmp"

def Rotation.description : Rotation → String
  | rlc => "Rlc" | rrc => "Rrc" | ral => "Ral" | rar => "Rar"

def Alias.description : Alias → String
  | nop => "Nop" | jmp => "Jmp" | ret => "Ret" | call => "Call"

namespace Instruction

def describeWith (kind : String) (parts : List String) : String :=
  kind ++ "(" ++ ", ".intercalate parts ++ ")"

/-- The text that tells an instruction from every other one. -/
def description : Instruction → String
  | nop => "Nop"
  | mov dst src => "Mov \x7b dst: " ++ dst.description ++ ", src: " ++ src.description ++ " \x7d"
  | mvi dst => describeWith "Mvi" [dst.description]
  | lxi dst => describeWith "Lxi" [dst.description]
  | lda => "Lda"
  | sta => "Sta"
  | lhld => "Lhld"
  | shld => "Shld"
  | ldax pointer => describeWith "Ldax" [pointer.description]
  | stax pointer => describeWith "Stax" [pointer.description]
  | xchg => "Xchg"
  | alu op src => describeWith "Alu" [op.description, src.description]
  | aluImmediate op => describeWith "AluImm" [op.description]
  | inr r => describeWith "Inr" [r.description]
  | dcr r => describeWith "Dcr" [r.description]
  | inx pair => describeWith "Inx" [pair.description]
  | dcx pair => describeWith "Dcx" [pair.description]
  | dad pair => describeWith "Dad" [pair.description]
  | daa => "Daa"
  | rotate kind => describeWith "Rotate" [kind.description]
  | cma => "Cma"
  | stc => "Stc"
  | cmc => "Cmc"
  | jump none => "Jmp"
  | jump (some condition) => describeWith "Jcc" [condition.description]
  | call none => "Call"
  | call (some condition) => describeWith "Ccc" [condition.description]
  | ret none => "Ret"
  | ret (some condition) => describeWith "Rcc" [condition.description]
  | rst vector => describeWith "Rst" [toString vector.val]
  | pchl => "Pchl"
  | sphl => "Sphl"
  | xthl => "Xthl"
  | push pair => describeWith "Push" [pair.description]
  | pop pair => describeWith "Pop" [pair.description]
  | ei => "Ei"
  | di => "Di"
  | hlt => "Hlt"
  | input => "In"
  | output => "Out"
  | undocumented like => describeWith "Undocumented" [like.description]

end Instruction

end Intel8080
