import Intel8080.Proofs.Machine.History

/-!
# Resets

A reset puts the processor back and leaves the memory. What else a machine consists of, its set-up,
its memory map and the policy of its processor, is the same after any history in which the owner
does not choose another policy. Main statements: `setUpBy_perform`, which says so,
`SetUpBy.reset_eq`, a reset leaves a new machine with the bytes of the old one, and `forgets`, what
came before a reset makes no difference after it but for these bytes.
-/

namespace Intel8080

namespace Operation

/-- Whether an operation leaves the policy of the processor to the machine. -/
def keepsPolicy : Operation → Bool
  | choosePolicy _ => false
  | _ => true

/-- What the owner of a machine is told. -/
inductive Answer where
  | silent
  | stepped (answer : Except StepError Nat) (events : List Event)
  | ran (report : RunReport) (events : List Event)
  | reset (events : List Event)
  | faults (list : List WriteFault)
  | wrote (fault : Option WriteFault)
  | placed (answer : Except LoadError Unit) (events : List Event)

/-- What an operation answers, and the events that it reports. -/
def answer (operation : Operation) (machine : Machine) : Answer :=
  match operation with
  | step => .stepped machine.step.answer machine.step.events
  | run verbosity budget =>
    .ran (machine.run verbosity budget).answer (machine.run verbosity budget).events
  | reset => .reset machine.reset.events
  | takeFaults => .faults machine.takeFaults.1
  | edit _ | choosePolicy _ => .silent
  | write a v => .wrote (machine.memory.write a v).1
  | place a image => .placed ((machine.memory.load a image).map fun _ ↦ ()) []
  | load image => .placed (machine.load image).answer (machine.load image).events

end Operation

namespace Machine

def answers (machine : Machine) : List Operation → List Operation.Answer
  | [] => []
  | operation :: history =>
    operation.answer machine :: (operation.apply machine).answers history

/-- A machine is still set up as a set-up says. -/
structure SetUpBy (machine : Machine) (config : MachineConfig) : Prop where
  config_eq : machine.config = config
  map_eq : machine.memory.map = config.map
  policy_eq : machine.cpu.policy = config.policy

/-- The new machine of a set-up, with other bytes in its memory. -/
def renewed (config : MachineConfig) (bytes : Vector UInt8 Memory.size) : Machine :=
  { ofConfig config with memory := { (ofConfig config).memory with bytes } }

variable {machine other : Machine} {config : MachineConfig} {history : List Operation}

/-- A machine is created in one way only. -/
theorem eq_ofConfig_of_create (h : create config = .ok machine) : machine = ofConfig config := by
  unfold create at h
  split at h
  · cases h
  · exact (Except.ok.inj h).symm

theorem setUpBy_ofConfig (config : MachineConfig) : (ofConfig config).SetUpBy config :=
  ⟨rfl, rfl, rfl⟩

namespace SetUpBy

variable (h : machine.SetUpBy config)

include h

/-- A step leaves the set-up and the policy. -/
theorem next : machine.next.SetUpBy config where
  config_eq := h.config_eq
  map_eq := map_next.trans h.map_eq
  policy_eq := (policy_step machine).trans h.policy_eq

/-- Whatever is done to a machine, short of another choice of policy, it stays set up. -/
theorem apply {operation : Operation} (hkeeps : operation.keepsPolicy = true) :
    (operation.apply machine).SetUpBy config := by
  cases operation with
  | step => exact h.next
  | run verbosity budget =>
    rw [Operation.apply, state_run]
    exact after_induction (P := fun m ↦ m.SetUpBy config) (fun _ hm ↦ hm.next) h budget
  | choosePolicy policy => cases hkeeps
  | write a v => exact ⟨h.config_eq, Memory.map_write.trans h.map_eq, h.policy_eq⟩
  | place a image =>
    simp only [Operation.apply]
    split
    · next hload => exact ⟨h.config_eq, (Memory.map_load hload).trans h.map_eq, h.policy_eq⟩
    · exact h
  | load image =>
    simp only [Operation.apply, load]
    split
    · next hload => exact ⟨h.config_eq, (Memory.map_load hload).trans h.map_eq, h.policy_eq⟩
    · exact h
  | reset | takeFaults | edit change => exact ⟨h.config_eq, h.map_eq, h.policy_eq⟩

/-- A reset leaves a new machine with the bytes of the old one. -/
theorem reset_eq : machine.reset =
    { answer := ()
      state := renewed config machine.memory.bytes
      events := [.reset config.entryPoint config.stackTop] } := by
  have hcpu : machine.cpu.reset config.entryPoint config.stackTop = (ofConfig config).cpu := by
    rw [Cpu.reset, h.policy_eq]
    rfl
  have hmemory : machine.memory = { (ofConfig config).memory with bytes := machine.memory.bytes } :=
    congrArg (Memory.mk machine.memory.bytes) h.map_eq
  rw [reset, h.config_eq, hcpu, hmemory]
  rfl

end SetUpBy

/-- By induction, so does a history that does not set the policy. -/
theorem setUpBy_perform (h : machine.SetUpBy config)
    (hkeeps : ∀ o ∈ history, o.keepsPolicy = true) : (machine.perform history).SetUpBy config :=
  perform_induction (P := fun m ↦ m.SetUpBy config) (fun o ho _ hm ↦ hm.apply (hkeeps o ho)) h

/-- A new machine with other bytes is one in which an image of these bytes is placed. -/
theorem renewed_eq_apply_place (config : MachineConfig) (bytes : Vector UInt8 Memory.size) :
    renewed config bytes = (Operation.place 0 bytes.toList).apply (ofConfig config) := by
  have hload : (ofConfig config).memory.load 0 bytes.toList = .ok
      { (ofConfig config).memory with
        bytes := Memory.place 0 bytes.toList (ofConfig config).memory.bytes } :=
    Memory.load_eq_ok (by simp)
  have hmemory : { (ofConfig config).memory with bytes } =
      { (ofConfig config).memory with
        bytes := Memory.place 0 bytes.toList (ofConfig config).memory.bytes } := by
    refine Memory.ext (fun a ↦ ?_) rfl
    have ha := Memory.toNat_lt_size a
    simp [Memory.read, Memory.getElem_place, ha]
  simp only [Operation.apply, hload]
  exact congrArg (Machine.mk (ofConfig config).cpu · config) hmemory

/-- What a reset after a history on a new machine of a set-up leaves. -/
structure Forgets (machine : Machine) (config : MachineConfig) (history : List Operation) :
    Prop where
  /-- It is a new machine but for the bytes of the memory. -/
  reset_eq : (machine.perform history).reset.state =
    renewed config (machine.perform history).memory.bytes
  /-- The log of refused writes is empty. -/
  faults_eq : (machine.perform history).reset.state.cpu.faults = {}
  /-- The owner of a new machine can bring it there by placing the bytes. -/
  reset_eq_place : (machine.perform history).reset.state =
    (Operation.place 0 (machine.perform history).memory.bytes.toList).apply (ofConfig config)
  /-- After another history that leaves the same bytes, all goes on in the same way. -/
  goes_on : ∀ other earlier, create config = .ok other →
    (∀ o ∈ earlier, o.keepsPolicy = true) →
    (other.perform earlier).memory.bytes = (machine.perform history).memory.bytes →
    ∀ later, (other.perform earlier).answers (.reset :: later) =
        (machine.perform history).answers (.reset :: later) ∧
      other.perform (earlier ++ .reset :: later) = machine.perform (history ++ .reset :: later)

/-- A reset forgets all that was done to a machine but the bytes of the memory, as long as the owner
has not chosen another policy. -/
theorem forgets (hcreate : create config = .ok machine)
    (hkeeps : ∀ o ∈ history, o.keepsPolicy = true) : machine.Forgets config history := by
  have hsetUp {m : Machine} {operations : List Operation} (hm : create config = .ok m)
      (ho : ∀ o ∈ operations, o.keepsPolicy = true) : (m.perform operations).SetUpBy config := by
    rw [eq_ofConfig_of_create hm]
    exact setUpBy_perform (setUpBy_ofConfig config) ho
  have hreset := (hsetUp hcreate hkeeps).reset_eq
  constructor
  case reset_eq => rw [hreset]
  case faults_eq => rfl
  case reset_eq_place => rw [hreset, renewed_eq_apply_place]
  case goes_on =>
    intro other earlier hother hearlier hbytes later
    have hsame : (other.perform earlier).reset = (machine.perform history).reset := by
      rw [(hsetUp hother hearlier).reset_eq, hreset, hbytes]
    constructor
    · simp only [answers, Operation.answer, Operation.apply, hsame]
    · simp only [perform_append, perform_cons, Operation.apply, hsame]

/-- Under the policy to run undocumented bytes a machine comes to one and is refused a write twice,
and is left with other registers. -/
def littered : List Operation :=
  [.write 0 0x08, .write 1 0xf5, .place 0xffff [1, 2], .run none 2,
    .edit fun r ↦ { r with h := 0x12, interruptsEnabled := true }]

theorem forgets_littered :
    let config : MachineConfig := { romEnd := 0, stackTop := 0x5000, policy := .runAlias }
    create config = .ok (ofConfig config) ∧ (∀ o ∈ littered, o.keepsPolicy = true) ∧
    (ofConfig config).Forgets config littered ∧
    ((ofConfig config).perform littered).cpu.faults.count = 2 := by
  intro config
  have hcreate : create config = .ok (ofConfig config) := rfl
  have hkeeps : ∀ o ∈ littered, o.keepsPolicy = true := by simp [littered, Operation.keepsPolicy]
  exact ⟨hcreate, hkeeps, forgets hcreate hkeeps, by decide +kernel⟩

end Machine

end Intel8080
