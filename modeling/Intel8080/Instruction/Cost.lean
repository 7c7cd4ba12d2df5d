import Intel8080.Instruction.Opcode

/-!
# Lengths and cycle counts

How many bytes an instruction takes up and how many clock cycles one execution costs. Main
statements: `cycles_executed`, an undocumented byte costs what its alias costs, and `four_le_cycles`
and `cycles_le_eighteen`, every cost lies between 4 and 18 cycles.
-/

namespace Intel8080

def Alias.cycles : Alias → Nat
  | nop => 4
  | jmp => 10
  | ret => 10
  | call => 17

namespace Instruction

/-- The number of operand bytes after the opcode byte. -/
def operandBytes : Instruction → Nat
  | mvi _ | aluImmediate _ | input | output => 1
  | lxi _ | lda | sta | lhld | shld | jump _ | call _ => 2
  | _ => 0

def length (i : Instruction) : Nat := 1 + i.operandBytes

/-- The cycles of one execution in which no conditional call or return is taken. -/
def baseCycles : Instruction → Nat
  | nop => 4
  | mov dst src => if dst = .m ∨ src = .m then 7 else 5
  | mvi dst => if dst = .m then 10 else 7
  | lxi _ => 10
  | lda | sta => 13
  | lhld | shld => 16
  | ldax _ | stax _ => 7
  | xchg => 4
  | alu _ src => if src = .m then 7 else 4
  | aluImmediate _ => 7
  | inr r | dcr r => if r = .m then 10 else 5
  | inx _ | dcx _ => 5
  | dad _ => 10
  | daa | rotate _ | cma | stc | cmc => 4
  | jump _ => 10
  | call none => 17
  | call (some _) => 11
  | ret none => 10
  | ret (some _) => 5
  | rst _ => 11
  | pchl | sphl => 5
  | xthl => 18
  | push _ => 11
  | pop _ => 10
  | ei | di => 4
  | hlt => 7
  | input | output => 10
  | undocumented like => like.cycles

/-- The further cycles of a conditional call or return that is taken. -/
def takenCycles : Instruction → Nat
  | call (some _) | ret (some _) => 6
  | _ => 0

def cycles (i : Instruction) (taken : Bool) : Nat :=
  i.baseCycles + if taken then i.takenCycles else 0

/-- The bytes after an opcode byte make up a word at most. -/
theorem operandBytes_le_two (i : Instruction) : i.operandBytes ≤ 2 := by
  cases i <;> simp [operandBytes]

theorem length_pos (i : Instruction) : 0 < i.length := by
  simp only [length]
  omega

/-- An undocumented byte costs what its alias costs. -/
@[simp] theorem baseCycles_executed (i : Instruction) : i.executed.baseCycles = i.baseCycles := by
  cases i with
  | undocumented s => cases s <;> rfl
  | _ => rfl

@[simp] theorem takenCycles_executed (i : Instruction) :
    i.executed.takenCycles = i.takenCycles := by
  cases i with
  | undocumented s => cases s <;> rfl
  | _ => rfl

@[simp] theorem cycles_executed (i : Instruction) (taken : Bool) :
    i.executed.cycles taken = i.cycles taken := by
  simp [cycles]

theorem four_le_cycles (i : Instruction) (taken : Bool) : 4 ≤ i.cycles taken := by
  suffices 4 ≤ i.baseCycles by
    simp only [cycles]
    omega
  cases i with
  | call condition => cases condition <;> simp [baseCycles]
  | ret condition => cases condition <;> simp [baseCycles]
  | undocumented s => cases s <;> simp [baseCycles, Alias.cycles]
  | _ => grind [baseCycles]

/-- The longest instruction is the exchange of HL with the top of the stack. -/
theorem cycles_le_eighteen (i : Instruction) (taken : Bool) : i.cycles taken ≤ 18 := by
  cases i with
  | call condition => cases condition <;> cases taken <;> simp [cycles, baseCycles, takenCycles]
  | ret condition => cases condition <;> cases taken <;> simp [cycles, baseCycles, takenCycles]
  | undocumented s =>
    cases s <;> cases taken <;> simp [cycles, baseCycles, takenCycles, Alias.cycles]
  | _ => cases taken <;> grind [cycles, baseCycles, takenCycles]

end Instruction

end Intel8080
