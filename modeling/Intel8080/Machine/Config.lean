import Intel8080.Cpu.Basic

/-!
# Machine configurations

The set-up of a machine: its memory map, where it starts, where images go and what it does with
undocumented bytes. The defaults describe the arcade board. Main statement: `error?_eq_none_iff`, a
configuration is sound exactly when its bounds are in order and within the address space.
-/

namespace Intel8080

/-- The set-up of a machine. -/
structure MachineConfig where
  romEnd : Nat := 0x2000
  ramEnd : Nat := 0x4000
  /-- The program counter after a reset. -/
  entryPoint : UInt16 := 0x0000
  /-- The stack pointer after a reset. -/
  stackTop : UInt16 := 0x2400
  /-- Where images are placed. -/
  loadAddress : UInt16 := 0x0000
  policy : UndocumentedPolicy := .reject
deriving DecidableEq, Repr, Inhabited

/-- Why a set-up is unsound. -/
inductive ConfigError where
  | romAboveRam (romEnd ramEnd : Nat)
  | ramBeyondAddressSpace (ramEnd : Nat)
deriving DecidableEq, Repr, Inhabited

def ConfigError.message : ConfigError → String
  | romAboveRam romEnd ramEnd =>
    "ROM end 0x" ++ Hex.lower 4 romEnd ++ " lies above RAM end 0x" ++ Hex.lower 4 ramEnd
  | ramBeyondAddressSpace ramEnd =>
    "RAM end 0x" ++ Hex.lower 4 ramEnd ++ " lies beyond the 64 KiB address space"

namespace MachineConfig

def map (config : MachineConfig) : MemoryMap := ⟨config.romEnd, config.ramEnd⟩

/-- What is wrong with a set-up. That its memory ends too high is told before all else. -/
def error? (config : MachineConfig) : Option ConfigError :=
  if Memory.size < config.ramEnd then some (.ramBeyondAddressSpace config.ramEnd)
  else if config.ramEnd < config.romEnd then some (.romAboveRam config.romEnd config.ramEnd)
  else none

def description (config : MachineConfig) : String :=
  "MachineConfig \x7b rom_end: " ++ toString config.romEnd
    ++ ", ram_end: " ++ toString config.ramEnd
    ++ ", entry_point: " ++ toString config.entryPoint.toNat
    ++ ", stack_top: " ++ toString config.stackTop.toNat
    ++ ", load_address: " ++ toString config.loadAddress.toNat
    ++ ", undocumented: " ++ config.policy.description ++ " \x7d"

/-- A set-up is sound if its bounds are in order and lie in the address space. -/
theorem error?_eq_none_iff {config : MachineConfig} :
    config.error? = none ↔ config.romEnd ≤ config.ramEnd ∧ config.ramEnd ≤ Memory.size := by
  grind [error?]

@[simp] theorem error?_default : ({} : MachineConfig).error? = none := rfl

end MachineConfig

end Intel8080
