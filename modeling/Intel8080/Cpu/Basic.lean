import Intel8080.Cpu.FaultLog
import Intel8080.Disassembly.Basic
import Intel8080.Event
import Intel8080.Execution

/-!
# The processor

The register file with a policy on undocumented bytes and a log of refused writes. A step fetches an
opcode and its operand, reads data, and then stores; the fetch of an undocumented byte may instead
be refused, and then nothing has happened. Main statements: `step_of_refused` and
`step_of_accepted`, the two forms of a step, and `policy_step`, no step changes the policy.
-/

namespace Intel8080

/-- What the processor does with an undocumented byte. -/
inductive UndocumentedPolicy where
  /-- It stops at the byte. -/
  | reject
  /-- It runs the documented alias. -/
  | runAlias
deriving DecidableEq, Repr, Inhabited

def UndocumentedPolicy.description : UndocumentedPolicy → String
  | reject => "Reject" | runAlias => "Alias"

/-- Why a step is not made. -/
inductive StepError where
  /-- The byte at the program counter is undocumented. -/
  | unknownOpcode (address : UInt16) (opcode : UInt8) (disassembly : String)
deriving DecidableEq, Repr, Inhabited

def StepError.message : StepError → String
  | unknownOpcode address opcode disassembly =>
    "unknown opcode 0x" ++ Hex.lower 2 opcode.toNat ++ " at 0x" ++ Hex.lower 4 address.toNat
      ++ ": " ++ disassembly

/-- The state of the processor. -/
structure Cpu extends Registers where
  policy : UndocumentedPolicy := .reject
  faults : FaultLog := {}
deriving DecidableEq, Repr, Inhabited

namespace Instruction

/-- What is reported of an instruction besides its run: halts and ports have no effect. -/
def notices (i : Instruction) (r : Registers) (operand : UInt16) : List Event :=
  match i with
  | hlt => [.haltIgnored (r.pc - 1)]
  | input => [.inputIgnored (lowByte operand)]
  | output => [.outputIgnored (lowByte operand) r.a]
  | _ => []

end Instruction

namespace Cpu

/-- The processor at power-on, with the given program counter and stack pointer. -/
def start (pc sp : UInt16) (policy : UndocumentedPolicy) : Cpu where
  pc := pc
  sp := sp
  policy := policy

/-- The processor after a reset, which keeps the policy only. -/
def reset (cpu : Cpu) (pc sp : UInt16) : Cpu := start pc sp cpu.policy

def accepts (cpu : Cpu) (i : Instruction) : Bool := !i.isUndocumented || cpu.policy == .runAlias

def drainFaults (cpu : Cpu) : Cpu := { cpu with faults := cpu.faults.drain }

variable {σ : Type} [Bus σ]

/-- Refuses the undocumented byte at the program counter. The byte and the two after it are read
once more, for their disassembly. -/
def refuse (cpu : Cpu) (opcode : UInt8) (bus : σ) :
    Outcome (Except StepError Nat) (Cpu × σ) :=
  let (first, bus) := Bus.read cpu.pc bus
  let (second, bus) := Bus.read (cpu.pc + 1) bus
  let (third, bus) := Bus.read (cpu.pc + 2) bus
  let text := (disassembleAt 0 [first, second, third]).text
  { answer := .error (.unknownOpcode cpu.pc opcode text)
    state := (cpu, bus)
    events := [.opcodeRefused cpu.pc text] }

def advanced (cpu : Cpu) (i : Instruction) : Registers :=
  { cpu.toRegisters with pc := cpu.pc + 1 + UInt16.ofNat i.operandBytes }

/-- Runs a documented instruction whose opcode byte has been fetched, and answers its cycles: the
operand is fetched, data are read, and then the result is stored. -/
def perform (cpu : Cpu) (i : Instruction) (bus : σ) : Outcome Nat (Cpu × σ) :=
  let (operand, bus) := (Location.ofLength i.operandBytes (cpu.pc + 1)).load bus
  let r := cpu.advanced i
  let (data, bus) := (i.source r operand).load bus
  let effect := i.execute r operand data
  let (faults, bus) := effect.target.store effect.value bus
  { answer := i.cycles effect.taken
    state := ({ cpu with
      toRegisters := effect.registers, faults := cpu.faults.recordAll faults }, bus)
    events := i.notices r operand ++ faults.map fun fault ↦ .writeRefused fault r.pc }

/-- Runs the instruction at the program counter and answers its cycles. -/
def step (cpu : Cpu) (bus : σ) : Outcome (Except StepError Nat) (Cpu × σ) :=
  let (opcode, bus) := Bus.read cpu.pc bus
  let i := Instruction.decode opcode
  if cpu.accepts i then
    let done := cpu.perform i.executed bus
    { answer := .ok done.answer
      state := done.state
      events := .executing cpu.toRegisters opcode :: done.events }
  else cpu.refuse opcode bus

variable (cpu : Cpu) (bus : σ)

/-- Without the policy to reject, everything is accepted. -/
theorem accepts_of_runAlias {cpu : Cpu} (h : cpu.policy = .runAlias) (i : Instruction) :
    cpu.accepts i = true := by
  simp [accepts, h]

/-- Only an undocumented byte is ever refused, and only under the policy to do so. -/
theorem accepts_eq_false_iff {cpu : Cpu} {i : Instruction} :
    cpu.accepts i = false ↔ i.isUndocumented = true ∧ cpu.policy = .reject := by
  cases h : cpu.policy <;> simp [accepts, h]

/-- The step at an undocumented byte that is refused. -/
theorem step_of_refused {cpu : Cpu} {bus : σ}
    (h : cpu.accepts (.decode (Bus.read cpu.pc bus).1) = false) :
    cpu.step bus = cpu.refuse (Bus.read cpu.pc bus).1 (Bus.read cpu.pc bus).2 := by
  simp [step, h]

/-- The step at a byte that is accepted. -/
theorem step_of_accepted {cpu : Cpu} {bus : σ}
    (h : cpu.accepts (.decode (Bus.read cpu.pc bus).1) = true) :
    cpu.step bus =
      let opcode := (Bus.read cpu.pc bus).1
      let done := cpu.perform (Instruction.decode opcode).executed (Bus.read cpu.pc bus).2
      { answer := .ok done.answer
        state := done.state
        events := .executing cpu.toRegisters opcode :: done.events } := by
  simp [step, h]

/-- A step is made exactly if the byte at the program counter is accepted. -/
theorem isOk_step :
    (cpu.step bus).answer.isOk = cpu.accepts (.decode (Bus.read cpu.pc bus).1) := by
  cases h : cpu.accepts (.decode (Bus.read cpu.pc bus).1)
  · rw [step_of_refused h]
    rfl
  · rw [step_of_accepted h]
    rfl

@[simp] theorem policy_refuse (opcode : UInt8) :
    (cpu.refuse opcode bus).state.1.policy = cpu.policy := rfl

@[simp] theorem policy_perform (i : Instruction) :
    (cpu.perform i bus).state.1.policy = cpu.policy := rfl

/-- No step changes the policy. -/
@[simp] theorem policy_step : (cpu.step bus).state.1.policy = cpu.policy := by
  cases h : cpu.accepts (.decode (Bus.read cpu.pc bus).1)
  · rw [step_of_refused h, policy_refuse]
  · rw [step_of_accepted h, policy_perform]

end Cpu

end Intel8080
