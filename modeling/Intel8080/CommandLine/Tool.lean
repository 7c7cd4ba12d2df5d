import Intel8080.CommandLine.Directory
import Intel8080.CommandLine.Option
import Intel8080.Event

/-!
# Command-line tools

A tool is a function from its arguments to a plan: it ends at once, or it asks for one image file
and then ends. Main statement: `plan_of_ok`, what a tool plans depends on what its arguments say and
not on how they say it.
-/

namespace Intel8080.CommandLine

/-- How a tool ends: its status and its two outputs. -/
structure Exit where
  status : Nat
  stdout : String := ""
  stderr : String := ""
deriving DecidableEq, Repr, Inhabited

/-- What reading an image file gives. -/
abbrev Reply := Except FileFault (List UInt8)

/-- What a tool does once its arguments are known. -/
inductive Plan where
  | done (exit : Exit)
  | readImage (path : String) (next : Reply → Exit)

/-- How a plan ends when files are read in a given way. -/
def Plan.exit (read : String → Reply) : Plan → Exit
  | done exit => exit
  | readImage path next => next (read path)

/-- The text of a failure with its cause. -/
def failureText (context cause : String) : String :=
  "Error: " ++ context ++ "\n\nCaused by:\n    " ++ cause ++ "\n"

def FileFault.text (path : String) (fault : FileFault) : String :=
  failureText (fault.stage.text path) fault.error.reason

def logText (records : List LogRecord) : String := String.join (records.map LogRecord.line)

def eventText (verbosity : Verbosity) (events : List Event) : String :=
  logText ((Event.shown verbosity events).map Event.record)

/-- A tool's name for messages, the options it takes and the texts about them. -/
structure ToolSpec (α : Type) where
  name : String
  options : List (OptionSpec α)
  defaults : α
  help : String

/-- The one version of all tools. -/
def versionText : String := "retro8080 0.1.0\n"

/-- What every tool understands besides its own options. -/
def commonOptions {α : Type} : List (OptionSpec α) :=
  [{ long := "help", short := some 'h', action := .stop .help },
   { long := "version", short := some 'V', action := .stop .version }]

/-- How a tool ends whose command line is settled before its end. -/
def ToolSpec.exit {α : Type} (spec : ToolSpec α) : Stop → Exit
  | .version => { status := 0, stdout := versionText }
  | .help => { status := 0, stdout := spec.help }
  | .misuse =>
    { status := 2, stderr := "error: invalid arguments for " ++ spec.name
        ++ "\n\nFor more information, try '--help'.\n" }

/-- The plan of a tool that goes on if its arguments say what to do. -/
def ToolSpec.plan {α : Type} (spec : ToolSpec α) (arguments : List String)
    (go : Invocation α → Plan) : Plan :=
  match parse (spec.options ++ commonOptions) spec.defaults arguments with
  | .ok invocation => go invocation
  | .error stop => .done (spec.exit stop)

/-- The record of a tool about its own work, if it is shown. -/
def ToolSpec.info {α : Type} (spec : ToolSpec α) (verbosity : Verbosity) (message : String) :
    String :=
  if verbosity.shows .info then logText [⟨.info, spec.name, message⟩] else ""

variable {α : Type} {spec : ToolSpec α} {arguments : List String} {go : Invocation α → Plan}

/-- What a tool plans once its arguments are read depends on what they say. -/
theorem plan_of_ok {invocation : Invocation α}
    (h : parse (spec.options ++ commonOptions) spec.defaults arguments = .ok invocation) :
    spec.plan arguments go = go invocation := by
  simp [ToolSpec.plan, h]

end Intel8080.CommandLine
