import Intel8080.Column
import Intel8080.Instruction.Mnemonic
import Intel8080.Instruction.Opcode
import Intel8080.Memory.Map
import Intel8080.Registers.Basic

/-!
# Events and their log records

What the machine reports while it works, and the records these reports become in a log. Nothing
depends on the log: a verbosity only chooses which records are shown. Main statement: `shown_trace`,
the least important level shows every event.
-/

namespace Intel8080

/-- The importance of a log record. -/
inductive Level where
  | error | warn | info | debug | trace
deriving DecidableEq, Repr, Inhabited

def Level.name : Level → String
  | error => "ERROR" | warn => "WARN" | info => "INFO" | debug => "DEBUG" | trace => "TRACE"

/-- The place of a level, the most important first. -/
def Level.rank : Level → Nat
  | error => 1 | warn => 2 | info => 3 | debug => 4 | trace => 5

/-- The least important level that is shown; with none, nothing is. -/
abbrev Verbosity := Option Level

/-- Whether a verbosity shows records of a level. -/
def Verbosity.shows (verbosity : Verbosity) (level : Level) : Bool :=
  verbosity.any fun least ↦ level.rank ≤ least.rank

/-- The verbosity of a name; nothing is shown under any other name. -/
def Verbosity.ofName : String → Verbosity
  | "error" => some .error
  | "warn" => some .warn
  | "info" => some .info
  | "debug" => some .debug
  | "trace" => some .trace
  | _ => none

/-- A record of a log: how important it is, who speaks, and what is said. -/
structure LogRecord where
  level : Level
  target : String
  message : String
deriving DecidableEq, Repr, Inhabited

def LogRecord.line (record : LogRecord) : String :=
  "[" ++ leftAligned 5 record.level.name ++ " " ++ record.target ++ "] " ++ record.message ++ "\n"

/-- Something that is reported. -/
inductive Event where
  /-- An instruction is about to run in a register file. -/
  | executing (registers : Registers) (opcode : UInt8)
  /-- A halt was passed over. -/
  | haltIgnored (address : UInt16)
  /-- A port was not read. -/
  | inputIgnored (port : UInt8)
  /-- A port was not written. -/
  | outputIgnored (port value : UInt8)
  /-- A write was refused while the program counter stood at `pc`. -/
  | writeRefused (fault : WriteFault) (pc : UInt16)
  /-- An undocumented byte was refused. -/
  | opcodeRefused (address : UInt16) (disassembly : String)
  /-- An image was placed in memory. -/
  | imageLoaded (length : Nat) (address : UInt16)
  /-- The processor was reset. -/
  | reset (pc sp : UInt16)
deriving DecidableEq, Repr, Inhabited

namespace Event

def level : Event → Level
  | executing .. | inputIgnored _ | outputIgnored .. => .trace
  | haltIgnored _ | imageLoaded .. | reset .. => .debug
  | writeRefused .. => .warn
  | opcodeRefused .. => .error

/-- Who reports an event: the processor, its system instructions or the machine. -/
def target : Event → String
  | executing .. | writeRefused .. | opcodeRefused .. => "retro8080_cpu::cpu"
  | haltIgnored _ | inputIgnored _ | outputIgnored .. => "retro8080_cpu::cpu::exec::system"
  | imageLoaded .. | reset .. => "retro8080_cpu::machine"

/-- The words that an instruction is traced by. -/
def traceText (r : Registers) (opcode : UInt8) : String :=
  Hex.lower 4 r.pc.toNat ++ ": " ++ Hex.lower 2 opcode.toNat ++ " "
    ++ leftAligned 5 (Instruction.decode opcode).mnemonic
    ++ " a=" ++ Hex.lower 2 r.a.toNat ++ " bc=" ++ Hex.lower 4 r.bc.toNat
    ++ " de=" ++ Hex.lower 4 r.de.toNat ++ " hl=" ++ Hex.lower 4 r.hl.toNat
    ++ " sp=" ++ Hex.lower 4 r.sp.toNat ++ " f=" ++ Hex.lower 2 r.flags.status.toNat

def message : Event → String
  | executing r opcode => traceText r opcode
  | haltIgnored address => "HLT at " ++ Hex.lower 4 address.toNat ++ " treated as NOP"
  | inputIgnored port => "IN 0x" ++ Hex.lower 2 port.toNat ++ " ignored"
  | outputIgnored port value =>
    "OUT 0x" ++ Hex.lower 2 port.toNat ++ " ignored (a=" ++ Hex.lower 2 value.toNat ++ ")"
  | writeRefused fault pc => fault.message ++ " (pc=" ++ Hex.lower 4 pc.toNat ++ ")"
  | opcodeRefused address disassembly =>
    "Unknown instruction at " ++ Hex.lower 4 address.toNat ++ ": " ++ disassembly
  | imageLoaded length address =>
    "loaded " ++ toString length ++ " bytes at " ++ Hex.lower 4 address.toNat
  | reset pc sp => "reset: pc=" ++ Hex.lower 4 pc.toNat ++ " sp=" ++ Hex.lower 4 sp.toNat

def record (event : Event) : LogRecord := ⟨event.level, event.target, event.message⟩

/-- Those of some events that a verbosity shows. -/
def shown (verbosity : Verbosity) (events : List Event) : List Event :=
  events.filter fun event ↦ verbosity.shows event.level

@[simp] theorem shown_nil (verbosity : Verbosity) : shown verbosity [] = [] := rfl

@[simp] theorem shown_append (verbosity : Verbosity) (events later : List Event) :
    shown verbosity (events ++ later) = shown verbosity events ++ shown verbosity later := by
  simp [shown]

/-- The least important level shows everything. -/
@[simp] theorem shown_trace (events : List Event) : shown (some .trace) events = events := by
  refine List.filter_eq_self.2 fun event _ ↦ ?_
  cases event <;> rfl

end Event

/-- What an operation answers, the state it leaves and what it reports, in order. -/
structure Outcome (α σ : Type) where
  answer : α
  state : σ
  events : List Event := []

end Intel8080
