import Intel8080.CommandLine.Disassemble
import Intel8080.CommandLine.Run

/-!
# The program

The tools by name, with the file they ask for and their outputs. What they do is decided elsewhere.
-/

namespace Intel8080.CommandLine

/-- The error of the system by its own names. Of the two that are met where a directory is in the
way, the code 21 is that of a directory in place of a file. -/
def systemError (e : IO.Error) : SystemError :=
  match e with
  | .noFileOrDirectory .. => .notFound
  | .inappropriateType _ code _ => if code = 21 then .isADirectory else .notADirectory
  | .permissionDenied .. => .other "Permission denied (os error 13)"
  | .invalidArgument _ _ "name too long" => .nameTooLong
  | e => .other (toString e)

def ask {α : Type} (stage : FileStage) (act : IO α) : ExceptT FileFault IO α :=
  ExceptT.mk do
    try
      return stage.attempt (.ok (← act))
    catch e =>
      return stage.attempt (.error (systemError e))

/-- Reads the file at a path. Room is made while it is read, so its length need not be known. -/
def readFile (path : String) : IO Reply :=
  ExceptT.run do
    let handle ← ask .opening (IO.FS.Handle.mk path .read)
    let bytes ← ask .reading handle.readBinToEnd
    return bytes.toList

def carryOut (plan : Plan) : IO UInt32 := do
  let exit ← match plan with
    | .done exit => pure exit
    | .readImage path next => do pure (next (← readFile path))
  IO.eprint exit.stderr
  IO.print exit.stdout
  return exit.status.toUInt32

end Intel8080.CommandLine

open Intel8080 CommandLine in
/-- The first argument names the tool; `INTEL8080_LOG` names the verbosity. -/
def main (arguments : List String) : IO UInt32 := do
  let verbosity := Verbosity.ofName ((← IO.getEnv "INTEL8080_LOG").getD "off")
  match arguments with
  | "run8080" :: rest => carryOut (Run.plan verbosity rest)
  | "disasm8080" :: rest => carryOut (Disassemble.plan verbosity rest)
  | _ =>
    IO.eprint "error: the first argument is run8080 or disasm8080\n"
    return 2
