/-!
# The grammar of command lines

A command line is one path among options. An option is long (`--name`, its value after a blank or
an equals sign) or short (`-n`, its value after a blank, after an equals sign or at once), and may
be given once; `--` ends the options. Arguments are taken from left to right, and a request for the
version or for help is granted as soon as it is met, whatever would follow.

This grammar is the library's own. A tool sees nothing of it but the settings and the path that it
delivers, so what is said of a tool for any settings holds under every other grammar, too. Main
statement: `Reading.takeAll_append`, arguments are taken one part after the other.
-/

namespace Intel8080.CommandLine

/-- What settles a command line before its end. -/
inductive Stop where
  | version
  | help
  | misuse
deriving DecidableEq, Repr, Inhabited

/-- What an option does to settings of a type. -/
inductive OptionAction (α : Type) where
  /-- It takes a value, which may be no good. -/
  | value (use : String → Option (α → α))
  /-- It stands alone. -/
  | switch (use : α → α)
  /-- It settles the matter. -/
  | stop (reason : Stop)

/-- An option by its names. -/
structure OptionSpec (α : Type) where
  long : String
  short : Option Char := none
  action : OptionAction α

/-- What the arguments so far have said, and the option that still waits for its value. -/
structure Reading (α : Type) where
  settings : α
  path : Option String := none
  used : List String := []
  waiting : Option (OptionSpec α) := none
  /-- Whether the options are over. -/
  onlyPaths : Bool := false

/-- What a command line says: the settings and the path. -/
structure Invocation (α : Type) where
  settings : α
  path : String
deriving DecidableEq, Repr

namespace Reading

variable {α : Type}

/-- Takes note of an option that has all it needs. -/
def apply (reading : Reading α) (spec : OptionSpec α) (use : α → α) :
    Except Stop (Reading α) :=
  if spec.long ∈ reading.used then .error .misuse
  else .ok { reading with
    settings := use reading.settings, used := spec.long :: reading.used, waiting := none }

def give (reading : Reading α) (spec : OptionSpec α) (use : String → Option (α → α))
    (value : String) : Except Stop (Reading α) :=
  match use value with
  | some use => reading.apply spec use
  | none => .error .misuse

/-- Takes the path, which must be the only one and not empty. -/
def takePath (reading : Reading α) (path : String) : Except Stop (Reading α) :=
  if path = "" ∨ reading.path.isSome then .error .misuse
  else .ok { reading with path := some path }

/-- Takes a long option, with the value after its equals sign if there is one. -/
def takeLong (specs : List (OptionSpec α)) (reading : Reading α) (name : String)
    (value : Option String) : Except Stop (Reading α) :=
  match specs.find? (·.long == name) with
  | none => .error .misuse
  | some spec =>
    match spec.action, value with
    | .value use, some value => reading.give spec use value
    | .value _, none => .ok { reading with waiting := some spec }
    | .switch use, none => reading.apply spec use
    | .stop reason, none => .error reason
    | _, some _ => .error .misuse

/-- A short option's value, which an equals sign may precede. -/
def attachedValue : List Char → String
  | '=' :: value => String.ofList value
  | value => String.ofList value

/-- Takes the short options of one argument. What follows an option that takes a value is that
value. -/
def takeShort (specs : List (OptionSpec α)) : Reading α → List Char → Except Stop (Reading α)
  | reading, [] => .ok reading
  | reading, name :: rest =>
    match specs.find? (·.short == some name) with
    | none => .error .misuse
    | some spec =>
      match spec.action with
      | .value use =>
        if rest.isEmpty then .ok { reading with waiting := some spec }
        else reading.give spec use (attachedValue rest)
      | .switch use =>
        match reading.apply spec use with
        | .ok reading => takeShort specs reading rest
        | .error stop => .error stop
      | .stop reason => .error reason

/-- Takes an argument while no option waits and the options are not over. -/
def takeFree (specs : List (OptionSpec α)) (reading : Reading α) (argument : String) :
    Except Stop (Reading α) :=
  match argument.toList with
  | ['-', '-'] => .ok { reading with onlyPaths := true }
  | '-' :: '-' :: long =>
    match long.span (· != '=') with
    | (name, []) => reading.takeLong specs (String.ofList name) none
    | (name, _ :: value) =>
      reading.takeLong specs (String.ofList name) (some (String.ofList value))
  | '-' :: c :: rest => reading.takeShort specs (c :: rest)
  | _ => reading.takePath argument

/-- Whether an argument is written like an option; a lone dash is not. -/
def looksLikeOption (argument : String) : Bool :=
  match argument.toList with
  | '-' :: _ :: _ => true
  | _ => false

def take (specs : List (OptionSpec α)) (reading : Reading α) (argument : String) :
    Except Stop (Reading α) :=
  if reading.onlyPaths then reading.takePath argument
  else match reading.waiting with
    | none => reading.takeFree specs argument
    | some spec =>
      match spec.action with
      | .value use =>
        if looksLikeOption argument then .error .misuse else reading.give spec use argument
      | _ => .error .misuse

def takeAll (specs : List (OptionSpec α)) :
    List String → Reading α → Except Stop (Reading α)
  | [], reading => .ok reading
  | argument :: rest, reading =>
    match reading.take specs argument with
    | .ok reading => takeAll specs rest reading
    | .error stop => .error stop

/-- What the arguments have said at their end: no option may wait, and a path must be there. -/
def finish (reading : Reading α) : Except Stop (Invocation α) :=
  match reading.waiting, reading.path with
  | none, some path => .ok ⟨reading.settings, path⟩
  | _, _ => .error .misuse

/-- Arguments are taken one part after the other, unless the first part settles the matter. -/
theorem takeAll_append (specs : List (OptionSpec α)) (arguments later : List String)
    (reading : Reading α) :
    takeAll specs (arguments ++ later) reading =
      match takeAll specs arguments reading with
      | .ok reading => takeAll specs later reading
      | .error stop => .error stop := by
  induction arguments generalizing reading with
  | nil => rfl
  | cons argument arguments ih =>
    simp only [List.cons_append, takeAll]
    split
    · exact ih _
    · rfl

end Reading

variable {α : Type}

/-- What a command line says, starting from default settings. -/
def parse (specs : List (OptionSpec α)) (defaults : α) (arguments : List String) :
    Except Stop (Invocation α) :=
  match Reading.takeAll specs arguments { settings := defaults } with
  | .ok reading => reading.finish
  | .error stop => .error stop

end Intel8080.CommandLine
