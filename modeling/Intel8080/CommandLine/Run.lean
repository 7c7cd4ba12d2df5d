import Intel8080.CommandLine.Address
import Intel8080.CommandLine.Tool
import Intel8080.Registers.Dump
import Intel8080.Machine.Run

/-!
# The tool that runs programs

An image is loaded into a new machine and run for a number of steps; then the registers, the refused
writes and the cost are told. What fails first decides: the set-up, the file, the load, the run.
Main statements: `proceed_of_unsound`, an unsound set-up is told without asking for the file, and
`finish_of_reply_error` and `finish_of_load_error`, the later failures leave the output empty.
-/

namespace Intel8080.CommandLine.Run

/-- What the options set. -/
structure Settings where
  steps : Nat := 1000
  config : MachineConfig := {}
deriving DecidableEq, Repr, Inhabited

def addressOption (long : String) (set : UInt16 → MachineConfig → MachineConfig) :
    OptionSpec Settings where
  long := long
  action := .value fun text ↦ match readAddress text with
    | .ok a => some fun s ↦ { s with config := set a s.config }
    | .error _ => none

def boundaryOption (long : String) (set : Nat → MachineConfig → MachineConfig) :
    OptionSpec Settings where
  long := long
  action := .value fun text ↦ match readBoundary text with
    | .ok n => some fun s ↦ { s with config := set n s.config }
    | .error _ => none

/-- The number of steps, in decimal. -/
def stepsOption : OptionSpec Settings where
  long := "steps"
  short := some 's'
  action := .value fun text ↦ match Numeral.read 10 text.toList with
    | .ok steps => some fun s ↦ { s with steps }
    | .error _ => none

def options : List (OptionSpec Settings) := [
  stepsOption,
  addressOption "entry" fun a c ↦ { c with entryPoint := a },
  addressOption "stack-top" fun a c ↦ { c with stackTop := a },
  addressOption "load-address" fun a c ↦ { c with loadAddress := a },
  boundaryOption "rom-end" fun n c ↦ { c with romEnd := n },
  boundaryOption "ram-end" fun n c ↦ { c with ramEnd := n },
  { long := "alias-undocumented"
    action := .switch fun s ↦ { s with config := { s.config with policy := .runAlias } } }]

def helpText : String := "\n".intercalate [
  "Run an Intel 8080 program image on the Space Invaders memory map",
  "",
  "Usage: run8080 [OPTIONS] <PATH>",
  "",
  "Arguments:",
  "  <PATH>  Raw binary image",
  "",
  "Options:",
  "  -s, --steps <STEPS>                Number of instructions to execute [default: 1000]",
  "      --entry <ENTRY>                Initial program counter (hex) [default: 0]",
  "      --stack-top <STACK_TOP>        Initial stack pointer (hex) [default: 2400]",
  "      --load-address <LOAD_ADDRESS>  Address the image is loaded at (hex) [default: 0]",
  "      --rom-end <ROM_END>            First address past the read-only region (hex) [default: 2000]",
  "      --ram-end <RAM_END>            First address past writable RAM (hex) [default: 4000]",
  "      --alias-undocumented           Execute undocumented opcodes as their documented aliases",
  "  -h, --help                         Print help",
  "  -V, --version                      Print version",
  ""]

def tool : ToolSpec Settings where
  name := "run8080"
  options := options
  defaults := {}
  help := helpText

/-- What is told of a machine after a run: the registers, the number of refused writes if there were
any, and the steps and cycles. -/
def summaryText (machine : Machine) (report : RunReport) : String :=
  machine.cpu.dump ++ "\n"
    ++ (if machine.cpu.faults.count = 0 then ""
      else "write faults: " ++ toString machine.cpu.faults.count ++ "\n")
    ++ "steps=" ++ toString report.steps ++ " cycles=" ++ toString report.cycles ++ "\n"

/-- The end of the tool for a loaded machine, after what was logged before. -/
def runLoaded (verbosity : Verbosity) (steps : Nat) (machine : Machine) (logged : String) : Exit :=
  let run := machine.run verbosity steps
  let stdout := summaryText run.state run.answer
  let logged := logged ++ eventText verbosity run.events
  match run.answer.error with
  | none => { status := 0, stdout, stderr := logged }
  | some e => { status := 1, stdout, stderr := logged ++ "Error: " ++ e.message ++ "\n" }

/-- The end of the tool for a new machine, once the file at the path was asked for. -/
def finish (verbosity : Verbosity) (invocation : Invocation Settings) (machine : Machine)
    (reply : Reply) : Exit :=
  let path := invocation.path
  match reply with
  | .error fault => { status := 1, stderr := fault.text path }
  | .ok image =>
    let loaded := machine.load image
    match loaded.answer with
    | .error e =>
      { status := 1, stderr := failureText ("failed to load '" ++ path ++ "'") e.message }
    | .ok () =>
      let a := machine.config.loadAddress
      let logged := eventText verbosity loaded.events
        ++ tool.info verbosity ("Loaded '" ++ path ++ "' at " ++ Hex.lower 4 a.toNat ++ " ("
          ++ toString image.length ++ " bytes)")
      runLoaded verbosity invocation.settings.steps loaded.state logged

/-- The plan of the tool for settings and a path. -/
def proceed (verbosity : Verbosity) (invocation : Invocation Settings) : Plan :=
  match Machine.create invocation.settings.config with
  | .error e =>
    .done { status := 1, stderr := failureText "invalid machine configuration" e.message }
  | .ok machine => .readImage invocation.path (finish verbosity invocation machine)

def plan (verbosity : Verbosity) (arguments : List String) : Plan :=
  tool.plan arguments (proceed verbosity)

variable {verbosity : Verbosity} {invocation : Invocation Settings} {machine : Machine}

/-- An unsound set-up is told without asking for the file. -/
theorem proceed_of_unsound {e : ConfigError} (h : invocation.settings.config.error? = some e) :
    proceed verbosity invocation =
      .done { status := 1, stderr := failureText "invalid machine configuration" e.message } := by
  simp only [proceed, Machine.create_eq_error h]

/-- A sound one is a machine that waits for the image. -/
theorem proceed_of_sound (h : invocation.settings.config.error? = none) :
    proceed verbosity invocation = .readImage invocation.path
      (finish verbosity invocation (.ofConfig invocation.settings.config)) := by
  simp only [proceed, Machine.create_eq_ok h]

/-- A file that is not read leaves the output empty. -/
theorem finish_of_reply_error (fault : FileFault) :
    finish verbosity invocation machine (.error fault) =
      { status := 1, stderr := fault.text invocation.path } := rfl

/-- An image that does not fit leaves the output empty. -/
theorem finish_of_load_error {image : List UInt8} {e : LoadError}
    (h : (machine.load image).answer = .error e) :
    finish verbosity invocation machine (.ok image) =
      { status := 1
        stderr := failureText ("failed to load '" ++ invocation.path ++ "'") e.message } := by
  simp [finish, h]

end Intel8080.CommandLine.Run
