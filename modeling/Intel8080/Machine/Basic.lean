import Intel8080.Machine.Config

/-!
# The machine

A processor with its memory, and the operations of its owner. Main statements: `step_eq`, a step of
the machine is a step of its processor on its memory, and `create_eq_ok` and `create_eq_error`, only
a sound set-up makes a machine.
-/

namespace Intel8080

/-- A processor, its memory, and the set-up they came from. -/
structure Machine where
  cpu : Cpu
  memory : Memory
  config : MachineConfig
deriving Inhabited

namespace Machine

/-- The machine of a set-up after a reset, its memory zeroed. -/
def ofConfig (config : MachineConfig) : Machine where
  cpu := .start config.entryPoint config.stackTop config.policy
  memory := .zeroed config.map
  config := config

/-- The machine of a sound set-up. -/
def create (config : MachineConfig) : Except ConfigError Machine :=
  match config.error? with
  | some e => .error e
  | none => .ok (ofConfig config)

/-- Puts the processor back to the set-up's start and leaves the memory. -/
def reset (machine : Machine) : Outcome Unit Machine :=
  let config := machine.config
  { answer := ()
    state := { machine with cpu := machine.cpu.reset config.entryPoint config.stackTop }
    events := [.reset config.entryPoint config.stackTop] }

/-- Places an image at the set-up's load address, whatever the memory map. -/
def load (machine : Machine) (image : List UInt8) : Outcome (Except LoadError Unit) Machine :=
  match machine.memory.load machine.config.loadAddress image with
  | .ok memory =>
    { answer := .ok ()
      state := { machine with memory }
      events := [.imageLoaded image.length machine.config.loadAddress] }
  | .error e => { answer := .error e, state := machine }

def step (machine : Machine) : Outcome (Except StepError Nat) Machine :=
  match machine with
  | ⟨cpu, memory, config⟩ =>
    match cpu.step memory with
    | ⟨answer, (cpu, memory), events⟩ => ⟨answer, ⟨cpu, memory, config⟩, events⟩

/-- Hands out the retained refused writes, oldest first, and empties their log. -/
def takeFaults (machine : Machine) : List WriteFault × Machine :=
  (machine.cpu.faults.retained, { machine with cpu := machine.cpu.drainFaults })

/-- The instruction at an address. Bytes beyond the top of memory read as zero. -/
def disassembleAt (machine : Machine) (a : UInt16) : Disassembly :=
  Intel8080.disassembleAt a.toNat (machine.memory.peek a 3)

variable (machine : Machine)

/-- A step of the machine is a step of its processor on its memory. -/
theorem step_eq : machine.step =
    { answer := (machine.cpu.step machine.memory).answer
      state := { machine with
        cpu := (machine.cpu.step machine.memory).state.1
        memory := (machine.cpu.step machine.memory).state.2 }
      events := (machine.cpu.step machine.memory).events } := rfl

@[simp] theorem policy_step : machine.step.state.cpu.policy = machine.cpu.policy := by
  simp [step_eq]

@[simp] theorem policy_reset : machine.reset.state.cpu.policy = machine.cpu.policy := rfl

theorem create_eq_ok {config : MachineConfig} (h : config.error? = none) :
    create config = .ok (ofConfig config) := by
  simp [create, h]

theorem create_eq_error {config : MachineConfig} {e : ConfigError} (h : config.error? = some e) :
    create config = .error e := by
  simp [create, h]

end Machine

end Intel8080
