import Intel8080.Proofs.Machine.Trace

/-!
# Histories of a machine

What the owner of a machine can do with it, and the machine after any sequence of such operations.
Main statements: `perform_induction`, what each operation of a history preserves is preserved by the
history; and `perform_induction_stepped`, the same where something is known of each of its steps.
-/

namespace Intel8080

/-- Something that the owner of a machine does with it. -/
inductive Operation where
  | step
  | run (verbosity : Verbosity) (budget : Nat)
  | reset
  | takeFaults
  /-- Changes the registers, the program counter and the flags among them. -/
  | edit (change : Registers → Registers)
  | choosePolicy (policy : UndocumentedPolicy)
  /-- A write of a byte behind the processor's back, guarded like the processor's own. -/
  | write (a : UInt16) (v : UInt8)
  /-- Places an image at an address, whatever the memory map. -/
  | place (a : UInt16) (image : List UInt8)
  /-- Places an image at the load address of the set-up. -/
  | load (image : List UInt8)

namespace Operation

/-- The machine after an operation. An image that does not fit is not placed. -/
def apply (operation : Operation) (machine : Machine) : Machine :=
  match operation with
  | step => machine.step.state
  | run verbosity budget => (machine.run verbosity budget).state
  | reset => machine.reset.state
  | takeFaults => machine.takeFaults.2
  | edit change =>
    { machine with cpu := { machine.cpu with toRegisters := change machine.cpu.toRegisters } }
  | choosePolicy policy => { machine with cpu := { machine.cpu with policy } }
  | write a v => { machine with memory := (machine.memory.write a v).2 }
  | place a image =>
    match machine.memory.load a image with
    | .ok memory => { machine with memory }
    | .error _ => machine
  | load image => (machine.load image).state

/-- The placing of an image leaves the processor. -/
@[simp] theorem cpu_apply_place (a : UInt16) (image : List UInt8) (machine : Machine) :
    ((place a image).apply machine).cpu = machine.cpu := by
  simp only [apply]
  split <;> rfl

@[simp] theorem cpu_apply_load (image : List UInt8) (machine : Machine) :
    ((load image).apply machine).cpu = machine.cpu := by
  simp only [apply, Machine.load]
  split <;> rfl

/-- Whether an operation writes to memory, if at all, behind the guard only. -/
def guarded : Operation → Bool
  | place .. | load _ => false
  | _ => true

def makesSteps : Operation → Bool
  | step | run .. => true
  | _ => false

/-- The machines from which an operation makes steps, in their order. A run stays at the machine
that is refused a step. -/
def stepped (operation : Operation) (machine : Machine) : List Machine :=
  match operation with
  | step => [machine]
  | run _ budget => (List.range budget).map machine.after
  | _ => []

end Operation

namespace Machine

/-- The machine after a history, the first operation first. -/
def perform (machine : Machine) (history : List Operation) : Machine :=
  history.foldl (fun machine operation ↦ operation.apply machine) machine

variable (machine : Machine)

@[simp] theorem perform_nil : machine.perform [] = machine := rfl

@[simp] theorem perform_cons (operation : Operation) (history : List Operation) :
    machine.perform (operation :: history) = (operation.apply machine).perform history := rfl

theorem perform_append (history later : List Operation) :
    machine.perform (history ++ later) = (machine.perform history).perform later :=
  List.foldl_append

variable {machine}

/-- What each operation of a history preserves is preserved by the history. -/
theorem perform_induction {P : Machine → Prop} {history : List Operation}
    (hP : ∀ operation ∈ history, ∀ m, P m → P (operation.apply m)) (h : P machine) :
    P (machine.perform history) := by
  induction history generalizing machine with
  | nil => exact h
  | cons operation history ih =>
    rw [perform_cons]
    exact ih (fun o ho ↦ hP o (List.mem_cons_of_mem _ ho)) (hP operation List.mem_cons_self _ h)

/-! ## The steps of a history -/

def stepped (machine : Machine) : List Operation → List Machine
  | [] => []
  | operation :: history => operation.stepped machine ++ (operation.apply machine).stepped history

section Stepped

variable {P Q : Machine → Prop} (hstep : ∀ m, Q m → P m → P m.next)

include hstep

/-- A property holds after steps that preserve it, each under a condition on its machine. -/
theorem after_induction_stepped {n : Nat} (hQ : ∀ k < n, Q (machine.after k)) (h : P machine) :
    P (machine.after n) := by
  induction n with
  | zero => exact h
  | succ n ih =>
    rw [after_succ]
    exact hstep _ (hQ n n.lt_succ_self) (ih fun k hk ↦ hQ k (Nat.lt_succ_of_lt hk))

theorem apply_induction_stepped {operation : Operation}
    (hother : operation.makesSteps = false → ∀ m, P m → P (operation.apply m))
    (hQ : ∀ m ∈ operation.stepped machine, Q m) (h : P machine) :
    (∀ m ∈ operation.stepped machine, P m) ∧ P (operation.apply machine) := by
  cases operation with
  | step =>
    refine ⟨fun m hm ↦ ?_, hstep machine (hQ machine List.mem_cons_self) h⟩
    rwa [List.mem_singleton.1 hm]
  | run verbosity budget =>
    have hQ' : ∀ k < budget, Q (machine.after k) :=
      fun k hk ↦ hQ _ (List.mem_map_of_mem (List.mem_range.2 hk))
    rw [Operation.apply, state_run]
    refine ⟨fun m hm ↦ ?_, after_induction_stepped hstep hQ' h⟩
    obtain ⟨n, hn, rfl⟩ := List.mem_map.1 hm
    exact after_induction_stepped hstep
      (fun k hk ↦ hQ' k (Nat.lt_trans hk (List.mem_range.1 hn))) h
  | _ => exact ⟨fun _ hm ↦ absurd hm List.not_mem_nil, hother rfl _ h⟩

/-- What each step of a history preserves, and each operation that makes no steps, holds of every
machine that the history comes to. -/
theorem perform_induction_stepped {history : List Operation}
    (hother : ∀ operation ∈ history, operation.makesSteps = false →
      ∀ m, P m → P (operation.apply m))
    (hQ : ∀ m ∈ machine.stepped history, Q m) (h : P machine) :
    (∀ m ∈ machine.stepped history, P m) ∧ P (machine.perform history) := by
  induction history generalizing machine with
  | nil => exact ⟨fun _ hm ↦ absurd hm List.not_mem_nil, h⟩
  | cons operation history ih =>
    obtain ⟨hfirst, hrest⟩ := List.forall_mem_cons.1 hother
    obtain ⟨hQfirst, hQrest⟩ := List.forall_mem_append.1 hQ
    obtain ⟨hstepped, happly⟩ := apply_induction_stepped hstep hfirst hQfirst h
    obtain ⟨hlater, hperform⟩ := ih hrest hQrest happly
    exact ⟨List.forall_mem_append.2 ⟨hstepped, hlater⟩, hperform⟩

end Stepped

end Machine

end Intel8080
