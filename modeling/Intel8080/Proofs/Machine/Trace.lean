import Intel8080.Machine.Run
import Intel8080.Proofs.Cpu.Stores
import Mathlib.Logic.Function.Iterate

/-!
# Traces

The machines that a run goes through are those that single steps lead to, one after the other; a
step that cannot be made leaves the machine, so a run that stops early stays where it stopped. Main
statements: `state_run`, the machine that a run ends with, `error_run_eq_none_iff`, a run succeeds
exactly when each of its steps can be made, and `answer_run`, what it then reports.
-/

namespace Intel8080

namespace Machine

variable (machine : Machine)

def next : Machine := machine.step.state

def after (n : Nat) : Machine := next^[n] machine

/-- The documented instruction that the next step runs. -/
def instruction : Instruction := (machine.cpu.fetched machine.memory).executed

def past : Registers := machine.cpu.advanced machine.instruction

def effect : Effect := machine.cpu.effect machine.memory machine.instruction

/-- The cycles of the next step, none if it cannot be made. -/
def cost : Nat :=
  match machine.step.answer with
  | .ok cycles => cycles
  | .error _ => 0

/-- Whether the next step can be made. -/
def steps : Bool := machine.cpu.accepts (machine.cpu.fetched machine.memory)

/-- A number of steps can be made one after the other. -/
def Goes (n : Nat) : Prop := ∀ k < n, (machine.after k).steps = true

def costs (machine : Machine) : Nat → Nat
  | 0 => 0
  | n + 1 => machine.cost + machine.next.costs n

@[simp] theorem after_zero : machine.after 0 = machine := rfl

theorem after_succ (n : Nat) : machine.after (n + 1) = (machine.after n).next :=
  Function.iterate_succ_apply' next n machine

theorem after_succ' (n : Nat) : machine.after (n + 1) = machine.next.after n := rfl

/-- Steps may be made in portions. -/
theorem after_add (m n : Nat) : machine.after (m + n) = (machine.after m).after n := by
  rw [Nat.add_comm]
  exact Function.iterate_add_apply next n m machine

variable {machine}

theorem past_eq {i : Instruction} (h : machine.instruction = i) :
    machine.past = machine.cpu.advanced i := by
  rw [past, h]

theorem effect_eq {i : Instruction} (h : machine.instruction = i) :
    machine.effect = i.execute (machine.cpu.advanced i) (machine.cpu.operand machine.memory i)
      ((i.source (machine.cpu.advanced i) (machine.cpu.operand machine.memory i)).load
        machine.memory).1 := by
  rw [effect, h]
  rfl

/-- A documented instruction at the program counter is run, whatever the policy. -/
theorem steps_of_fetched {i : Instruction} (hi : machine.cpu.fetched machine.memory = i)
    (hdocumented : i.isUndocumented = false) : machine.steps = true := by
  rw [steps, hi, Cpu.accepts, hdocumented]
  rfl

theorem instruction_of_fetched {i : Instruction} (hi : machine.cpu.fetched machine.memory = i)
    (hdocumented : i.isUndocumented = false) : machine.instruction = i := by
  rw [instruction, hi, Instruction.executed_of_not_isUndocumented hdocumented]

/-- A step that can be made answers its cycles. -/
theorem step_of_steps (h : machine.steps = true) :
    machine.step.answer = .ok machine.cost ∧
      (machine.next.cpu, machine.next.memory) = machine.cpu.carryOut machine.memory
        (machine.cpu.effect machine.memory (machine.cpu.fetched machine.memory).executed) := by
  have hstep := Cpu.step_memory_of_accepted h
  simp only [cost, next, step_eq, hstep, and_self]

/-- A step that can be made carries out its effect. -/
theorem next_of_steps (h : machine.steps = true) : machine.next =
    { machine with
      cpu := (machine.cpu.carryOut machine.memory machine.effect).1
      memory := (machine.cpu.carryOut machine.memory machine.effect).2 } := by
  have hnext := (step_of_steps h).2
  exact congrArg (fun left : Cpu × Memory ↦ Machine.mk left.1 left.2 machine.config) hnext

/-- A step that can be made takes the cycles of its instruction. -/
theorem cost_of_steps (h : machine.steps = true) :
    machine.cost = machine.instruction.cycles machine.effect.taken := by
  have hstep := Cpu.step_memory_of_accepted h
  simp only [cost, step_eq, hstep]
  rfl

/-- A step that can be made leaves the registers that the effect says. -/
theorem toRegisters_next (h : machine.steps = true) :
    machine.next.cpu.toRegisters = machine.effect.registers :=
  congrArg (fun left ↦ left.1.toRegisters) (step_of_steps h).2

/-- A step that can be made stores what its instruction stores. -/
theorem stores_of_steps (h : machine.steps = true) : machine.cpu.stores machine.memory =
    machine.instruction.stores machine.past (machine.cpu.operand machine.memory machine.instruction)
      (machine.memory.read machine.cpu.hl) :=
  if_pos h

/-- A step that cannot be made leaves the machine. -/
theorem next_of_not_steps (h : machine.steps = false) : machine.next = machine := by
  have hstep := Cpu.step_memory_of_refused h
  simp only [next, step_eq, hstep]

theorem isOk_step : machine.step.answer.isOk = machine.steps :=
  machine.cpu.isOk_step machine.memory

/-- A machine that cannot make a step stays where it is. -/
theorem after_of_not_steps (h : machine.steps = false) (n : Nat) : machine.after n = machine :=
  Function.iterate_fixed (next_of_not_steps h) n

/-- A property that each step preserves holds after any number of steps. -/
theorem after_induction {P : Machine → Prop} (hP : ∀ m, P m → P m.next) (h : P machine) (n : Nat) :
    P (machine.after n) := by
  induction n with
  | zero => exact h
  | succ n ih =>
    rw [after_succ]
    exact hP _ ih

@[simp] theorem map_next : machine.next.memory.map = machine.memory.map := Cpu.map_step

@[simp] theorem map_after (n : Nat) : (machine.after n).memory.map = machine.memory.map :=
  after_induction (P := fun m ↦ m.memory.map = machine.memory.map)
    (fun _ h ↦ map_next.trans h) rfl n

/-! ## Steps in sequence -/

@[simp] theorem goes_zero : machine.Goes 0 := fun _ hk ↦ absurd hk (Nat.not_lt_zero _)

/-- Steps can be made if the first one can, and the others after it. -/
theorem goes_succ_iff {n : Nat} :
    machine.Goes (n + 1) ↔ machine.steps = true ∧ machine.next.Goes n := by
  refine ⟨fun h ↦ ⟨h 0 n.succ_pos, fun k hk ↦ h (k + 1) (Nat.succ_lt_succ hk)⟩, ?_⟩
  rintro ⟨hfirst, hrest⟩ k hk
  cases k with
  | zero => exact hfirst
  | succ k => exact hrest k (Nat.lt_of_succ_lt_succ hk)

/-- The same with the last step set apart. -/
theorem goes_succ_iff_after {n : Nat} :
    machine.Goes (n + 1) ↔ machine.Goes n ∧ (machine.after n).steps = true :=
  Nat.forall_lt_succ_right

theorem Goes.mono {m n : Nat} (h : machine.Goes n) (hm : m ≤ n) : machine.Goes m :=
  fun k hk ↦ h k (Nat.lt_of_lt_of_le hk hm)

/-- Steps can be made one after the other if the first ones can, and the others from there. -/
theorem Goes.add {m n : Nat} (hm : machine.Goes m) (hn : (machine.after m).Goes n) :
    machine.Goes (m + n) := by
  intro k hk
  rcases Nat.lt_or_ge k m with h | h
  · exact hm k h
  · obtain ⟨j, rfl⟩ := Nat.exists_eq_add_of_le h
    rw [after_add]
    exact hn j (Nat.lt_of_add_lt_add_left hk)

/-- Cycles add up over portions of steps. -/
theorem costs_add (machine : Machine) (m n : Nat) :
    machine.costs (m + n) = machine.costs m + (machine.after m).costs n := by
  induction m generalizing machine with
  | zero => simp [costs]
  | succ m ih =>
    rw [Nat.add_right_comm, costs, ih, costs, after_succ', Nat.add_assoc]

/-- Only the cycles of the single steps matter to those of all of them. -/
theorem costs_congr {other : Machine} {n : Nat}
    (hcost : ∀ k < n, (other.after k).cost = (machine.after k).cost) :
    other.costs n = machine.costs n := by
  induction n with
  | zero => rfl
  | succ n ih =>
    rw [costs_add, costs_add, ih fun k hk ↦ hcost k (Nat.lt_succ_of_lt hk)]
    simp only [costs, hcost n n.lt_succ_self]

end Machine

/-! ## Runs -/

namespace Progress

variable (verbosity : Verbosity) {progress : Progress}

/-- Whatever a step answers, the machine goes on to the next one. -/
theorem machine_advance : (progress.advance verbosity).machine = progress.machine.next := by
  unfold advance Machine.next
  split
  split <;> simp_all

theorem report_advance (h : progress.machine.steps = true) :
    (progress.advance verbosity).report = progress.report.count progress.machine.cost := by
  have hanswer := (Machine.step_of_steps h).1
  unfold advance
  split
  split <;> simp_all

/-- A run under way is stopped by a step exactly if the step cannot be made. -/
theorem stopped_advance (h : progress.stopped = false) :
    (progress.advance verbosity).stopped = !progress.machine.steps := by
  rw [← Machine.isOk_step]
  unfold advance
  split
  split <;> simp_all [stopped, RunReport.count, RunReport.stop, Except.isOk, Except.toBool]

/-- However far a run gets, it ends with the machine that its steps lead to. -/
theorem machine_resume (h : progress.stopped = false) (n : Nat) :
    (progress.resume verbosity n).machine = progress.machine.after n := by
  induction n generalizing progress with
  | zero => rfl
  | succ n ih =>
    have hstopped := stopped_advance verbosity h
    cases hsteps : progress.machine.steps with
    | true =>
      rw [hsteps] at hstopped
      rw [resume_succ _ _ hstopped, ih hstopped, machine_advance, Machine.after_succ']
    | false =>
      rw [hsteps] at hstopped
      rw [resume_succ_of_stopped _ _ hstopped, machine_advance, Machine.next_of_not_steps hsteps,
        Machine.after_of_not_steps hsteps]

/-- A run comes through exactly if all its steps can be made. -/
theorem stopped_resume_eq_false_iff (h : progress.stopped = false) (n : Nat) :
    (progress.resume verbosity n).stopped = false ↔ progress.machine.Goes n := by
  induction n generalizing progress with
  | zero => simpa using h
  | succ n ih =>
    have hstopped := stopped_advance verbosity h
    rw [Machine.goes_succ_iff]
    cases hsteps : progress.machine.steps with
    | true =>
      rw [hsteps] at hstopped
      rw [resume_succ _ _ hstopped, ih hstopped, machine_advance]
      simp
    | false =>
      rw [hsteps] at hstopped
      rw [resume_succ_of_stopped _ _ hstopped, hstopped]
      simp

/-- Steps that can be made are counted with their cycles. -/
theorem report_resume (h : progress.stopped = false)
    (hcycles : progress.report.cycles ≤ RunReport.maxCycles) {n : Nat}
    (hgoes : progress.machine.Goes n) :
    (progress.resume verbosity n).report =
      { steps := progress.report.steps + n
        cycles := min (progress.report.cycles + progress.machine.costs n) RunReport.maxCycles
        error := none } := by
  induction n generalizing progress with
  | zero =>
    have herror : progress.report.error = none := by simpa [stopped] using h
    simp [Machine.costs, Nat.min_eq_left hcycles, ← herror]
  | succ n ih =>
    obtain ⟨hsteps, hrest⟩ := Machine.goes_succ_iff.1 hgoes
    have hstopped := stopped_advance verbosity h
    rw [hsteps] at hstopped
    rw [resume_succ _ _ hstopped, ih hstopped, report_advance verbosity hsteps, machine_advance]
    · simp only [RunReport.count, Machine.costs, RunReport.mk.injEq, and_true]
      omega
    · rw [report_advance verbosity hsteps]
      exact Nat.min_le_right _ _
    · rwa [machine_advance]

end Progress

namespace Machine

variable {machine : Machine} (verbosity : Verbosity)

def begun (machine : Machine) : Progress := ⟨machine, {}, []⟩

/-- A run ends with the machine that its steps lead to. -/
@[simp] theorem state_run (n : Nat) : (machine.run verbosity n).state = machine.after n := by
  have hstopped : machine.begun.stopped = false := rfl
  exact Progress.machine_resume verbosity hstopped n

/-- A run succeeds exactly when each of its steps can be made. -/
theorem error_run_eq_none_iff {n : Nat} :
    (machine.run verbosity n).answer.error = none ↔ machine.Goes n := by
  have hstopped : machine.begun.stopped = false := rfl
  have hiff := Progress.stopped_resume_eq_false_iff verbosity hstopped n
  rw [Progress.stopped, Option.isSome_eq_false_iff, Option.isNone_iff_eq_none] at hiff
  exact hiff

/-- The report of a run that succeeds. -/
theorem answer_run {n : Nat} (h : machine.Goes n) :
    (machine.run verbosity n).answer =
      { steps := n, cycles := min (machine.costs n) RunReport.maxCycles, error := none } := by
  have hstopped : machine.begun.stopped = false := rfl
  have hreport := Progress.report_resume verbosity hstopped (Nat.zero_le _) h
  simp only [begun, Nat.zero_add] at hreport
  exact hreport

end Machine

end Intel8080
