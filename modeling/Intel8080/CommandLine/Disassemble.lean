import Intel8080.CommandLine.Tool
import Intel8080.Disassembly.Listing

/-!
# The tool that lists programs

An image is read, and its listing is written whatever is logged.
-/

namespace Intel8080.CommandLine.Disassemble

def helpText : String := "\n".intercalate [
  "Disassemble an Intel 8080 program image, one instruction per line",
  "",
  "Usage: disasm8080 <PATH>",
  "",
  "Arguments:",
  "  <PATH>  Raw binary image, disassembled from offset 0",
  "",
  "Options:",
  "  -h, --help     Print help",
  "  -V, --version  Print version",
  ""]

/-- The tool, which has no options of its own. -/
def tool : ToolSpec Unit where
  name := "disasm8080"
  options := []
  defaults := ()
  help := helpText

/-- The end of the tool, once the file at the path was asked for. -/
def finish (verbosity : Verbosity) (path : String) (reply : Reply) : Exit :=
  match reply with
  | .error fault => { status := 1, stderr := fault.text path }
  | .ok image =>
    { status := 0
      stdout := listingText image
      stderr := tool.info verbosity
        ("Loaded '" ++ path ++ "' into buffer (" ++ toString image.length ++ " bytes)") }

def plan (verbosity : Verbosity) (arguments : List String) : Plan :=
  tool.plan arguments fun invocation ↦
    .readImage invocation.path (finish verbosity invocation.path)

end Intel8080.CommandLine.Disassemble
