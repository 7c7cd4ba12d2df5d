import Intel8080.CommandLine.Run
import Intel8080.Proofs.CommandLine.Parsing
import Intel8080.Proofs.Machine.Traffic

/-!
# How the tool ends that runs programs

The tool sets up a machine, reads a file, loads it as an image and runs it, and what fails first
decides how it ends. Main statements: `Choice.parse_arguments`, every choice of values that are
accepted can be said on a command line, `ramEnd_le_size`, what is said there stays within the
address space, `endsAfter_runLoaded`, what is told after a run, `ends_proceed`, how the tool ends
for any settings, and `ends`, how it ends for a command line.
-/

namespace Intel8080.CommandLine.Run

/-! ## Choices of values -/

/-- The texts of the option values, if not chosen those of the default values, and whether
undocumented bytes are run. -/
structure Choice where
  steps : String := "1000"
  entry : String := "0"
  stackTop : String := "2400"
  loadAddress : String := "0"
  romEnd : String := "2000"
  ramEnd : String := "4000"
  aliases : Bool := false

namespace Choice

/-- All values are accepted, and the settings are what they say. -/
structure Accepted (choice : Choice) (settings : Settings) : Prop where
  steps : Numeral.read 10 choice.steps.toList = .ok settings.steps
  entry : readAddress choice.entry = .ok settings.config.entryPoint
  stackTop : readAddress choice.stackTop = .ok settings.config.stackTop
  loadAddress : readAddress choice.loadAddress = .ok settings.config.loadAddress
  romEnd : readBoundary choice.romEnd = .ok settings.config.romEnd
  ramEnd : readBoundary choice.ramEnd = .ok settings.config.ramEnd
  policy : settings.config.policy = if choice.aliases then .runAlias else .reject

/-- The options of a choice with their values, which change settings to those that are accepted. -/
def given (choice : Choice) (settings : Settings) : List (Given Settings) := [
  ⟨stepsOption, choice.steps, fun s ↦ { s with steps := settings.steps }⟩,
  ⟨addressOption "entry" fun a c ↦ { c with entryPoint := a }, choice.entry,
    fun s ↦ { s with config := { s.config with entryPoint := settings.config.entryPoint } }⟩,
  ⟨addressOption "stack-top" fun a c ↦ { c with stackTop := a }, choice.stackTop,
    fun s ↦ { s with config := { s.config with stackTop := settings.config.stackTop } }⟩,
  ⟨addressOption "load-address" fun a c ↦ { c with loadAddress := a }, choice.loadAddress,
    fun s ↦ { s with config := { s.config with loadAddress := settings.config.loadAddress } }⟩,
  ⟨boundaryOption "rom-end" fun n c ↦ { c with romEnd := n }, choice.romEnd,
    fun s ↦ { s with config := { s.config with romEnd := settings.config.romEnd } }⟩,
  ⟨boundaryOption "ram-end" fun n c ↦ { c with ramEnd := n }, choice.ramEnd,
    fun s ↦ { s with config := { s.config with ramEnd := settings.config.ramEnd } }⟩]

/-- A command line that says all of a choice. -/
def arguments (choice : Choice) (path : String) : List String :=
  ["--steps=" ++ choice.steps, "--entry=" ++ choice.entry, "--stack-top=" ++ choice.stackTop,
    "--load-address=" ++ choice.loadAddress, "--rom-end=" ++ choice.romEnd,
    "--ram-end=" ++ choice.ramEnd] ++
    (if choice.aliases then ["--alias-undocumented"] else []) ++ ["--", path]

variable {choice : Choice} {settings : Settings}

/-- Each option takes the value that a choice has for it. -/
theorem accepted_of_mem_given (h : choice.Accepted settings) {given : Given Settings}
    (hgiven : given ∈ choice.given settings) :
    given.Accepted (tool.options ++ commonOptions) := by
  simp only [Choice.given, List.mem_cons, List.not_mem_nil, or_false] at hgiven
  obtain rfl | rfl | rfl | rfl | rfl | rfl := hgiven
  · exact ⟨rfl, (by decide : '=' ∉ "steps".toList), _, rfl, by simp [h.steps]⟩
  · exact ⟨rfl, (by decide : '=' ∉ "entry".toList), _, rfl, by simp [h.entry]⟩
  · exact ⟨rfl, (by decide : '=' ∉ "stack-top".toList), _, rfl, by simp [h.stackTop]⟩
  · exact ⟨rfl, (by decide : '=' ∉ "load-address".toList), _, rfl, by simp [h.loadAddress]⟩
  · exact ⟨rfl, (by decide : '=' ∉ "rom-end".toList), _, rfl, by simp [h.romEnd]⟩
  · exact ⟨rfl, (by decide : '=' ∉ "ram-end".toList), _, rfl, by simp [h.ramEnd]⟩

theorem arguments_eq (choice : Choice) (settings : Settings) (path : String) :
    choice.arguments path = (choice.given settings).map Given.argument ++
      ((if choice.aliases then ["--alias-undocumented"] else []) ++ ["--", path]) := by
  rw [arguments, List.append_assoc]
  rfl

/-- The values of a choice make all settings but the policy. -/
theorem foldl_given (choice : Choice) (settings : Settings) :
    (choice.given settings).foldl (fun s given ↦ given.change s) tool.defaults =
      { settings with config := { settings.config with policy := .reject } } := rfl

/-- The option to run undocumented bytes stands alone. -/
theorem take_aliases {reading : Reading Settings} (h : reading.Free)
    (hfresh : "alias-undocumented" ∉ reading.used) :
    reading.take (tool.options ++ commonOptions) "--alias-undocumented" = .ok
      { reading with
        settings := { reading.settings with
          config := { reading.settings.config with policy := .runAlias } }
        used := "alias-undocumented" :: reading.used } := by
  let spec : OptionSpec Settings :=
    { long := "alias-undocumented"
      action := .switch fun s ↦ { s with config := { s.config with policy := .runAlias } } }
  have hfind : (tool.options ++ commonOptions).find? (·.long == spec.long) = some spec := rfl
  exact Reading.take_switch h hfind (by decide) hfresh rfl (by decide)

/-- Every choice of values that are accepted is said by a command line. -/
theorem parse_arguments (h : choice.Accepted settings) {path : String} (hpath : path ≠ "") :
    parse (tool.options ++ commonOptions) tool.defaults (choice.arguments path) =
      .ok ⟨settings, path⟩ := by
  have hnodup : ((choice.given settings).map (·.spec.long)).Nodup :=
    (by decide : ["steps", "entry", "stack-top", "load-address", "rom-end", "ram-end"].Nodup)
  have hpolicy := h.policy
  have hfree : Reading.Free { settings := tool.defaults } := ⟨rfl, rfl⟩
  have hgiven := Reading.takeAll_given hfree (fun _ ↦ accepted_of_mem_given h)
    (fun _ _ ↦ List.not_mem_nil) hnodup
  rw [foldl_given] at hgiven
  rw [parse, arguments_eq choice settings, Reading.takeAll_append, hgiven]
  dsimp only
  obtain ⟨steps, romEnd, ramEnd, entryPoint, stackTop, loadAddress, policy⟩ := settings
  cases haliases : choice.aliases with
  | false =>
    rw [haliases] at hpolicy
    obtain rfl : policy = .reject := hpolicy
    rw [if_neg Bool.false_ne_true, List.nil_append, Reading.takeAll_path ⟨rfl, rfl⟩ rfl hpath]
    rfl
  | true =>
    rw [haliases] at hpolicy
    obtain rfl : policy = .runAlias := hpolicy
    have hfresh : "alias-undocumented" ∉
        ["steps", "entry", "stack-top", "load-address", "rom-end", "ram-end"].reverse ++ [] := by
      decide
    rw [if_pos rfl, List.singleton_append, Reading.takeAll, take_aliases ⟨rfl, rfl⟩ hfresh]
    dsimp only
    rw [Reading.takeAll_path ⟨rfl, rfl⟩ rfl hpath]
    rfl

end Choice

/-! ## What all settings have in common -/

section Keeps

variable {P : Settings → Prop}

theorem keeps_stepsOption (h : ∀ steps s, P s → P { s with steps }) :
    stepsOption.action.Keeps P :=
  @OptionAction.keeps_value _ P _ _ (fun text ↦ Numeral.read 10 text.toList) _
    (fun steps s ↦ { s with steps }) (fun text ↦ by cases Numeral.read 10 text.toList <;> rfl)
    fun _ steps _ ↦ h steps

theorem keeps_addressOption {long : String} {set : UInt16 → MachineConfig → MachineConfig}
    (h : ∀ a s, P s → P { s with config := set a s.config }) :
    (addressOption long set).action.Keeps P :=
  @OptionAction.keeps_value _ P _ _ readAddress _ (fun a s ↦ { s with config := set a s.config })
    (fun text ↦ by cases readAddress text <;> rfl) fun _ a _ ↦ h a

/-- A boundary option sets nothing beyond the size of the address space. -/
theorem keeps_boundaryOption {long : String} {set : Nat → MachineConfig → MachineConfig}
    (h : ∀ n ≤ Memory.size, ∀ s, P s → P { s with config := set n s.config }) :
    (boundaryOption long set).action.Keeps P :=
  @OptionAction.keeps_value _ P _ _ readBoundary _ (fun n s ↦ { s with config := set n s.config })
    (fun text ↦ by cases readBoundary text <;> rfl)
    fun _ n hn ↦ h n (readBoundary_eq_ok_iff.1 hn).2

end Keeps

variable {verbosity : Verbosity} {arguments : List String} {settings : Settings} {path : String}
  {read : String → Reply} {exit : Exit}

/-- No command line sets a boundary beyond the address space. -/
theorem ramEnd_le_size (h : parse (tool.options ++ commonOptions) tool.defaults arguments =
      .ok ⟨settings, path⟩) : settings.config.ramEnd ≤ Memory.size := by
  refine parse_induction (P := fun s ↦ s.config.ramEnd ≤ Memory.size) (fun spec hspec ↦ ?_)
    (by decide) h
  simp only [tool, options, commonOptions, List.mem_append, List.mem_cons, List.not_mem_nil,
    or_false] at hspec
  obtain (rfl | rfl | rfl | rfl | rfl | rfl | rfl) | rfl | rfl := hspec
  · exact keeps_stepsOption fun _ _ hs ↦ hs
  · exact keeps_addressOption fun _ _ hs ↦ hs
  · exact keeps_addressOption fun _ _ hs ↦ hs
  · exact keeps_addressOption fun _ _ hs ↦ hs
  · exact keeps_boundaryOption fun _ _ _ hs ↦ hs
  · exact keeps_boundaryOption fun _ hn _ _ ↦ hn
  · exact fun _ hs ↦ hs
  · trivial
  · trivial

/-! ## How a run ends -/

/-- A machine of a set-up with an image in its memory and zeros beside it. -/
structure Holds (config : MachineConfig) (image : List UInt8) (machine : Machine) : Prop where
  cpu_eq : machine.cpu = .start config.entryPoint config.stackTop config.policy
  map_eq : machine.memory.map = config.map
  read_eq : ∀ a, machine.memory.read a =
    if config.loadAddress ≤ a then image.getD (a.toNat - config.loadAddress.toNat) 0 else 0
  config_eq : machine.config = config

/-- Such a machine has seen no write refused. -/
theorem Holds.count_faults {config : MachineConfig} {image : List UInt8} {machine : Machine}
    (h : Holds config image machine) : machine.cpu.faults.count = 0 := by
  rw [h.cpu_eq]
  rfl

/-- The tool ends after `k` of at most `n` steps of a machine. -/
structure EndsAfter (machine : Machine) (n k : Nat) (exit : Exit) : Prop where
  steps_le : k ≤ n
  goes : machine.Goes k
  /-- The output is the dump of the registers after these steps, the number of the writes that they
  saw refused, if there were any, and the number of the steps with their cycles. -/
  stdout_eq : exit.stdout = (machine.after k).cpu.dump ++ "\n" ++
    (let faults := min (machine.refusals k).length FaultLog.maxCount
      if faults = 0 then "" else "write faults: " ++ toString faults ++ "\n") ++
    "steps=" ++ toString k ++
    " cycles=" ++ toString (min (machine.costs k) RunReport.maxCycles) ++ "\n"
  /-- Either all steps were made, or the next one is refused, at the byte where the dump stands. -/
  status : (k = n ∧ exit.status = 0) ∨
    (k < n ∧ (machine.after k).steps = false ∧ exit.status = 1 ∧
      ∃ logged, exit.stderr = logged ++ "Error: " ++
        (StepError.unknownOpcode (machine.after k).cpu.pc
          ((machine.after k).memory.read (machine.after k).cpu.pc) "UNKNOWN").message ++ "\n")

/-- A run always prints something. -/
theorem EndsAfter.stdout_ne {machine : Machine} {n k : Nat} (h : EndsAfter machine n k exit) :
    exit.stdout ≠ "" := by
  rw [h.stdout_eq]
  simp

/-- The run of a machine that has seen no write refused decides how the tool ends. -/
theorem endsAfter_runLoaded {machine : Machine} (hzero : machine.cpu.faults.count = 0) (n : Nat)
    (logged : String) : ∃ k, EndsAfter machine n k (runLoaded verbosity n machine logged) := by
  have hcount (k : Nat) : (machine.after k).cpu.faults.count =
      min (machine.refusals k).length FaultLog.maxCount := by
    have hle : machine.cpu.faults.count ≤ FaultLog.maxCount := hzero ▸ Nat.zero_le _
    rw [machine.faults_after, FaultLog.count_recordAll _ _ hle, hzero, Nat.zero_add]
  obtain hgoes | ⟨k, hk, hgoes, hrefused⟩ := machine.goes_or_refused n
  · have hanswer := Machine.answer_run verbosity hgoes
    refine ⟨n, n.le_refl, hgoes, ?_, .inl ⟨rfl, ?_⟩⟩
    · simp only [runLoaded, Machine.state_run, hanswer, summaryText, hcount]
    · simp only [runLoaded, hanswer]
  · have hstate := Machine.after_of_refused hrefused (Nat.le_of_lt hk)
    have hanswer := Machine.answer_run_of_refused verbosity hgoes hrefused hk
    refine ⟨k, Nat.le_of_lt hk, hgoes, ?_, .inr ⟨hk, hrefused, ?_, ?_⟩⟩
    · simp only [runLoaded, Machine.state_run, hstate, hanswer, summaryText, hcount]
    · simp only [runLoaded, hanswer]
    · refine ⟨logged ++ eventText verbosity (machine.run verbosity n).events, ?_⟩
      simp only [runLoaded, hanswer]
      rfl

def unsoundExit (config : MachineConfig) : Exit where
  status := 1
  stderr := failureText "invalid machine configuration"
    (ConfigError.romAboveRam config.romEnd config.ramEnd).message

def unreadExit (path : String) (fault : FileFault) : Exit where
  status := 1
  stderr := fault.text path

def oversizeExit (path : String) (image : List UInt8) (a : UInt16) : Exit where
  status := 1
  stderr := failureText ("failed to load '" ++ path ++ "'")
    (LoadError.imageTooLarge image.length a (Memory.capacity a)).message

/-- How the tool ends for some settings and a path, when files are read in a given way: what fails
first decides. -/
structure Ends (settings : Settings) (path : String) (read : String → Reply) (exit : Exit) :
    Prop where
  /-- The memory never ends beyond the address space. -/
  error?_ne : ∀ ramEnd, settings.config.error? ≠ some (.ramBeyondAddressSpace ramEnd)
  /-- The set-up comes first, whatever there is to read. -/
  unsound_iff : exit = unsoundExit settings.config ↔
    settings.config.ramEnd < settings.config.romEnd
  /-- Then comes the file. -/
  unread : settings.config.romEnd ≤ settings.config.ramEnd →
    ∀ fault, read path = .error fault → exit = unreadExit path fault
  /-- Then the size of the image. -/
  oversize_iff : settings.config.romEnd ≤ settings.config.ramEnd →
    ∀ image, read path = .ok image → (exit = oversizeExit path image settings.config.loadAddress ↔
      Memory.size < settings.config.loadAddress.toNat + image.length)
  /-- Then the run. -/
  ran : settings.config.romEnd ≤ settings.config.ramEnd → ∀ image, read path = .ok image →
    settings.config.loadAddress.toNat + image.length ≤ Memory.size →
    ∃ machine k, Holds settings.config image machine ∧ EndsAfter machine settings.steps k exit

/-- The ends before a run are told apart by what they print. -/
theorem unsoundExit_ne_unreadExit (config : MachineConfig) (fault : FileFault) :
    unsoundExit config ≠ unreadExit path fault := by
  intro h
  have hstderr := congrArg (fun exit ↦ exit.stderr.toList) h
  simp only [unsoundExit, unreadExit, FileFault.text, failureText] at hstderr
  unfold FileStage.text at hstderr
  split at hstderr <;> simp at hstderr

theorem unsoundExit_ne_oversizeExit (config : MachineConfig) (image : List UInt8) (a : UInt16) :
    unsoundExit config ≠ oversizeExit path image a := by
  intro h
  have hstderr := congrArg (fun exit ↦ exit.stderr.toList) h
  simp [unsoundExit, oversizeExit, failureText] at hstderr

/-- A new machine holds the image that was loaded. -/
theorem holds_load {config : MachineConfig} {image : List UInt8} {memory : Memory}
    (h : (Machine.ofConfig config).memory.load config.loadAddress image = .ok memory) :
    Holds config image { Machine.ofConfig config with memory } where
  cpu_eq := rfl
  map_eq := Memory.map_load h
  read_eq a := by
    rw [Memory.read_load h]
    simp [Machine.ofConfig]
  config_eq := rfl

section Exit

variable (hram : settings.config.ramEnd ≤ Memory.size)

include hram

/-- Bounds out of order end the tool before the file is asked for. -/
theorem exit_of_lt (hlt : settings.config.ramEnd < settings.config.romEnd) :
    (proceed verbosity ⟨settings, path⟩).exit read = unsoundExit settings.config := by
  have herror : settings.config.error? =
      some (.romAboveRam settings.config.romEnd settings.config.ramEnd) := by
    rw [MachineConfig.error?, if_neg (Nat.not_lt.2 hram), if_pos hlt]
  rw [proceed_of_unsound herror]
  rfl

/-- Bounds in order lead to the file. -/
theorem exit_of_le (hle : settings.config.romEnd ≤ settings.config.ramEnd) :
    (proceed verbosity ⟨settings, path⟩).exit read =
      finish verbosity ⟨settings, path⟩ (.ofConfig settings.config) (read path) := by
  rw [proceed_of_sound (MachineConfig.error?_eq_none_iff.2 ⟨hle, hram⟩)]
  rfl

end Exit

/-- An image that does not fit ends the tool before the run. -/
theorem finish_of_lt {image : List UInt8}
    (hlt : Memory.size < settings.config.loadAddress.toNat + image.length) :
    finish verbosity ⟨settings, path⟩ (.ofConfig settings.config) (.ok image) =
      oversizeExit path image settings.config.loadAddress := by
  have hload := (Machine.ofConfig settings.config).memory.load_eq_error hlt
  refine finish_of_load_error
    (e := .imageTooLarge image.length settings.config.loadAddress _) ?_
  unfold Machine.load
  exact hload ▸ rfl

/-- A machine whose memory takes the image is run. -/
theorem exists_finish_eq {machine : Machine} {memory : Memory} {image : List UInt8}
    (hload : machine.memory.load machine.config.loadAddress image = .ok memory) :
    ∃ logged, finish verbosity ⟨settings, path⟩ machine (.ok image) =
      runLoaded verbosity settings.steps { machine with memory } logged := by
  simp only [finish, Machine.load, hload]
  exact ⟨_, rfl⟩

/-- An image that fits is run. -/
theorem endsAfter_finish {image : List UInt8}
    (hle : settings.config.loadAddress.toNat + image.length ≤ Memory.size) :
    ∃ machine k, Holds settings.config image machine ∧ EndsAfter machine settings.steps k
      (finish verbosity ⟨settings, path⟩ (.ofConfig settings.config) (.ok image)) := by
  have hload := (Machine.ofConfig settings.config).memory.load_eq_ok hle
  obtain ⟨logged, hfinish⟩ := exists_finish_eq hload
  have hholds := holds_load hload
  obtain ⟨k, hends⟩ := endsAfter_runLoaded hholds.count_faults settings.steps logged
  exact ⟨_, k, hholds, hfinish ▸ hends⟩

/-- Whatever settings keep the memory within the address space, what fails first decides how the
tool ends. -/
theorem ends_proceed (verbosity : Verbosity) (path : String) (read : String → Reply)
    (hram : settings.config.ramEnd ≤ Memory.size) :
    Ends settings path read ((proceed verbosity ⟨settings, path⟩).exit read) := by
  constructor
  case error?_ne =>
    intro ramEnd herror
    unfold MachineConfig.error? at herror
    rw [if_neg (Nat.not_lt.2 hram)] at herror
    split at herror <;> cases herror
  case unsound_iff =>
    refine ⟨fun hexit ↦ Nat.lt_of_not_le fun hle ↦ ?_, exit_of_lt hram⟩
    rw [exit_of_le hram hle] at hexit
    cases hread : read path with
    | error fault =>
      rw [hread, finish_of_reply_error] at hexit
      exact unsoundExit_ne_unreadExit _ fault hexit.symm
    | ok image =>
      rw [hread] at hexit
      obtain hlt | hfits := Nat.lt_or_ge Memory.size
        (settings.config.loadAddress.toNat + image.length)
      · rw [finish_of_lt hlt] at hexit
        exact unsoundExit_ne_oversizeExit _ image _ hexit.symm
      · obtain ⟨machine, k, -, hends⟩ := endsAfter_finish hfits
        rw [hexit] at hends
        exact hends.stdout_ne rfl
  case unread =>
    intro hle fault hread
    rw [exit_of_le hram hle, hread]
    rfl
  case oversize_iff =>
    intro hle image hread
    rw [exit_of_le hram hle, hread]
    refine ⟨fun hexit ↦ Nat.lt_of_not_le fun hfits ↦ ?_, finish_of_lt⟩
    obtain ⟨machine, k, -, hends⟩ := endsAfter_finish hfits
    rw [hexit] at hends
    exact hends.stdout_ne rfl
  case ran =>
    intro hle image hread hfits
    rw [exit_of_le hram hle, hread]
    exact endsAfter_finish hfits

/-- A choice of other values than the default ones. -/
def chosen : Choice where
  steps := "+9"
  entry := "$10"
  stackTop := "0X1234"
  loadAddress := "0010"
  romEnd := "0x1800"
  ramEnd := "10000"

/-- A program that stores a byte and then comes to an undocumented one. -/
def stray : List UInt8 := [0x3e, 0x2a, 0x32, 0x00, 0x00, 0x3c, 0x08]

end Intel8080.CommandLine.Run
