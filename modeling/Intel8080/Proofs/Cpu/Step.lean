import Intel8080.Cpu.Basic
import Intel8080.Proofs.Bus.Writes
import Intel8080.Proofs.Instruction.Undocumented

/-!
# One step on a memory

Reading a memory leaves it as it is, so a step on it comes down to three things: the instruction
that runs, the effect it has there, and what is left of processor and memory once the effect is
carried out. Main statements: `step_memory_of_accepted` and `step_memory_of_refused`, which say of
a step all there is to say.
-/

namespace Intel8080

namespace Location

variable (memory : Memory) (a : UInt16)

@[simp] theorem load_ofLength_zero : ((ofLength 0 a).load memory).1 = 0 := rfl

@[simp] theorem load_ofLength_one :
    ((ofLength 1 a).load memory).1 = (memory.read a).toUInt16 := rfl

@[simp] theorem load_ofLength_two :
    ((ofLength 2 a).load memory).1 = wordOf (memory.read (a + 1)) (memory.read a) := rfl

end Location

namespace Cpu

variable (cpu : Cpu) (memory : Memory)

/-- The instruction that the byte at the program counter stands for. -/
def fetched : Instruction := .decode (memory.read cpu.pc)

def operand (i : Instruction) : UInt16 :=
  ((Location.ofLength i.operandBytes (cpu.pc + 1)).load memory).1

def effect (i : Instruction) : Effect :=
  let r := cpu.advanced i
  let operand := cpu.operand memory i
  i.execute r operand ((i.source r operand).load memory).1

/-- The processor and the memory once an effect is carried out. -/
def carryOut (e : Effect) : Cpu × Memory :=
  let stored := e.target.store e.value memory
  ({ cpu with toRegisters := e.registers, faults := cpu.faults.recordAll stored.1 }, stored.2)

@[simp] theorem map_carryOut (e : Effect) : (cpu.carryOut memory e).2.map = memory.map := by
  simp [carryOut]

variable {cpu memory}

/-- A step at a byte that is accepted carries out the effect of what the byte stands for. -/
theorem step_memory_of_accepted (h : cpu.accepts (cpu.fetched memory) = true) :
    cpu.step memory =
      let i := (cpu.fetched memory).executed
      let e := cpu.effect memory i
      { answer := .ok (i.cycles e.taken)
        state := cpu.carryOut memory e
        events := .executing cpu.toRegisters (memory.read cpu.pc) ::
          (i.notices (cpu.advanced i) (cpu.operand memory i) ++
            (e.target.store e.value memory).1.map fun fault ↦
              .writeRefused fault (cpu.advanced i).pc) } := by
  rw [step_of_accepted (by rwa [Bus.read_memory])]
  simp only [Bus.read_memory, fetched, perform, Location.snd_load_memory]
  rfl

/-- A step at a byte that is refused leaves processor and memory as they are. -/
theorem step_memory_of_refused (h : cpu.accepts (cpu.fetched memory) = false) :
    cpu.step memory =
      { answer := .error (.unknownOpcode cpu.pc (memory.read cpu.pc) Instruction.unknown)
        state := (cpu, memory)
        events := [.opcodeRefused cpu.pc Instruction.unknown] } := by
  have hi : (Instruction.decode (memory.read cpu.pc)).isUndocumented = true :=
    (accepts_eq_false_iff.1 h).1
  obtain ⟨like, hlike⟩ := Instruction.exists_eq_undocumented hi
  rw [step_of_refused (by rwa [Bus.read_memory])]
  simp only [refuse, Bus.read_memory, disassembleAt, byteAt, List.getD_cons_zero, hlike,
    Instruction.text_undocumented]

/-- No step changes the memory map. -/
@[simp] theorem map_step : (cpu.step memory).state.2.map = memory.map := by
  cases h : cpu.accepts (cpu.fetched memory) with
  | true => simp [step_memory_of_accepted h]
  | false => simp [step_memory_of_refused h]

end Cpu

end Intel8080
