import Intel8080.Proofs.Instruction.Undocumented
import Intel8080.Proofs.Machine.Trace
import Mathlib.Algebra.BigOperators.Group.Finset.Basic

/-!
# The reports of runs

A run either makes all of its steps or comes to one that is refused, and its report says which, with
the number of the steps that were made and what these cost by the table of the opcode bytes. Main
statements: `goes_or_refused` and `answer_run_of_refused`, which with `answer_run` give the report
of every run, and `answer_run_add` and `accounts_run`, how reports add up and what they count.
-/

namespace Intel8080

namespace Instruction

def isConditionalTransfer : Instruction → Bool
  | call (some _) | ret (some _) => true
  | _ => false

/-- No alias is a call or a return under a condition. -/
@[simp] theorem isConditionalTransfer_executed (i : Instruction) :
    i.executed.isConditionalTransfer = i.isConditionalTransfer := by
  cases i with
  | undocumented like => cases like <;> rfl
  | _ => rfl

/-- A call or a return under a condition takes longer exactly if it moves the stack pointer. -/
theorem ite_takenCycles (i : Instruction) (r : Registers) (operand data : UInt16) :
    (if (i.execute r operand data).taken then i.takenCycles else 0) =
      if i.isConditionalTransfer ∧ (i.execute r operand data).registers.sp ≠ r.sp then 6
      else 0 := by
  -- a word moves the stack pointer by two, which does not bring it back to where it was
  have hpopped : r.sp + 2 ≠ r.sp := (ne_add_ofNat (i := 2) (by decide) (by decide)).symm
  have hpushed : r.sp - 2 ≠ r.sp := by
    intro h
    have hback := UInt16.sub_add_cancel r.sp 2
    rw [h] at hback
    exact hpopped hback
  cases i with
  | call condition =>
    cases condition with
    | none => simp [takenCycles, isConditionalTransfer]
    | some condition =>
      cases h : r.taken (some condition) <;>
        simp [execute, h, takenCycles, isConditionalTransfer, Registers.callTo, Registers.push,
          hpushed]
  | ret condition =>
    cases condition with
    | none => simp [takenCycles, isConditionalTransfer]
    | some condition =>
      cases h : r.taken (some condition) <;>
        simp [execute, h, takenCycles, isConditionalTransfer, Registers.dropWord, hpopped]
  | _ => simp [takenCycles, isConditionalTransfer]

end Instruction

namespace Machine

variable (machine : Machine)

def refusal : StepError :=
  .unknownOpcode machine.cpu.pc (machine.memory.read machine.cpu.pc) Instruction.unknown

/-- The cycles that the table charges for the next step: the base cost of the opcode byte, and six
more for a call or a return under a condition that moves the stack pointer. -/
def charge : Nat :=
  let i := Instruction.decode (machine.memory.read machine.cpu.pc)
  i.baseCycles + if i.isConditionalTransfer ∧ machine.next.cpu.sp ≠ machine.cpu.sp then 6 else 0

/-- What the report of a run of at most `n` steps says of the steps. -/
structure Accounts (n : Nat) (report : RunReport) : Prop where
  steps_le : report.steps ≤ n
  /-- The steps that are counted were made. -/
  goes : machine.Goes report.steps
  /-- A run succeeds exactly if all of its steps were made. -/
  error_eq_none_iff : report.error = none ↔ report.steps = n
  /-- What stopped the run is what the step after them answers. -/
  stopped : ∀ e, report.error = some e → (machine.after report.steps).step.answer = .error e
  /-- The cycles are those that the table charges, as far as they can be told. -/
  cycles_eq : report.cycles =
    min (∑ k ∈ Finset.range report.steps, (machine.after k).charge) RunReport.maxCycles
  /-- Every step takes between four and eighteen cycles. -/
  bounds : ∑ k ∈ Finset.range report.steps, (machine.after k).charge ≤ RunReport.maxCycles →
    4 * report.steps ≤ report.cycles ∧ report.cycles ≤ 18 * report.steps

variable {machine} {k m n : Nat}

/-! ## Steps that are refused -/

/-- Steps are refused at undocumented bytes, and there under the policy to reject them. -/
theorem steps_eq_false_iff : machine.steps = false ↔
    machine.cpu.policy = .reject ∧
      machine.memory.read machine.cpu.pc ∈ Instruction.undocumentedBytes := by
  rw [steps, Cpu.accepts_eq_false_iff, Cpu.fetched, Instruction.isUndocumented_decode_iff,
    and_comm]

/-- A documented byte is run under any policy. -/
theorem steps_of_notMem
    (h : machine.memory.read machine.cpu.pc ∉ Instruction.undocumentedBytes) :
    machine.steps = true := by
  rw [← Bool.not_eq_false, steps_eq_false_iff]
  exact fun hrefused ↦ h hrefused.2

/-- A step that cannot be made tells why and leaves the machine. -/
theorem step_of_not_steps (h : machine.steps = false) : machine.step =
    { answer := .error machine.refusal
      state := machine
      events := [.opcodeRefused machine.cpu.pc Instruction.unknown] } := by
  rw [step_eq, Cpu.step_memory_of_refused h]
  rfl

/-- Two machines answer a step alike if it costs both the same, or both refuse it alike. -/
theorem answer_step_congr {other : Machine} (hsteps : other.steps = machine.steps)
    (hcost : machine.steps = true → other.cost = machine.cost)
    (hrefusal : machine.steps = false → other.refusal = machine.refusal) :
    other.step.answer = machine.step.answer := by
  cases h : machine.steps with
  | true => rw [(step_of_steps (hsteps.trans h)).1, (step_of_steps h).1, hcost h]
  | false => rw [step_of_not_steps (hsteps.trans h), step_of_not_steps h, hrefusal h]

theorem steps_eq_false_of_error {e : StepError} (h : machine.step.answer = .error e) :
    machine.steps = false := by
  rw [← isOk_step, h]
  rfl

/-- Either a number of steps can be made, or one of them is the first that is refused. -/
theorem goes_or_refused (machine : Machine) (n : Nat) :
    machine.Goes n ∨ ∃ k < n, machine.Goes k ∧ (machine.after k).steps = false := by
  induction n with
  | zero => exact .inl goes_zero
  | succ n ih =>
    obtain hgoes | ⟨k, hk, hgoes, hrefused⟩ := ih
    · cases hsteps : (machine.after n).steps with
      | true => exact .inl (hgoes.add (goes_succ_iff.2 ⟨hsteps, goes_zero⟩))
      | false => exact .inr ⟨n, n.lt_succ_self, hgoes, hsteps⟩
    · exact .inr ⟨k, Nat.lt_succ_of_lt hk, hgoes, hrefused⟩

end Machine

namespace Progress

variable (verbosity : Verbosity) {progress : Progress}

theorem report_advance_of_refused (h : progress.machine.steps = false) :
    (progress.advance verbosity).report = progress.report.stop progress.machine.refusal := by
  unfold advance
  split
  simp only [Machine.step_of_not_steps h]

end Progress

namespace Machine

variable {machine : Machine} (verbosity : Verbosity) {k m n : Nat}

/-- The report of a run that comes to a step that is refused. -/
theorem answer_run_of_refused (hgoes : machine.Goes k) (hrefused : (machine.after k).steps = false)
    (hk : k < n) : (machine.run verbosity n).answer =
      { steps := k
        cycles := min (machine.costs k) RunReport.maxCycles
        error := some (machine.after k).refusal } := by
  obtain ⟨d, rfl⟩ := Nat.exists_eq_add_of_lt hk
  have hbegun : machine.begun.stopped = false := rfl
  have hstopped := (Progress.stopped_resume_eq_false_iff verbosity hbegun k).2 hgoes
  have hmachine := Progress.machine_resume verbosity hbegun k
  have hreport := Progress.report_resume verbosity hbegun (Nat.zero_le _) hgoes
  change (machine.begun.resume verbosity (k + d + 1)).report = _
  -- the run is cut before the step that is refused, so what is left of it is this one step
  rw [Nat.add_assoc, Progress.resume_add _ _ hbegun, hstopped, if_neg Bool.false_ne_true]
  generalize machine.begun.resume verbosity k = progress at hstopped hmachine hreport ⊢
  have hrefused : progress.machine.steps = false := hmachine ▸ hrefused
  have hlast : (progress.advance verbosity).stopped = true := by
    rw [Progress.stopped_advance _ hstopped, hrefused]
    rfl
  rw [Progress.resume_succ_of_stopped _ _ hlast, Progress.report_advance_of_refused _ hrefused,
    hreport, hmachine]
  simp [RunReport.stop, begun]

/-- Runs whose steps answer the same, as far as they get, report the same. -/
theorem answer_run_congr {other : Machine} (hanswer : ∀ k < n, machine.Goes k →
      (other.after k).step.answer = (machine.after k).step.answer) :
    (other.run verbosity n).answer = (machine.run verbosity n).answer := by
  have hsteps (k : Nat) (hk : k < n) (hgoes : machine.Goes k) :
      (other.after k).steps = (machine.after k).steps := by
    rw [← isOk_step, ← isOk_step, hanswer k hk hgoes]
  have hgoes (k : Nat) (hk : k ≤ n) (h : machine.Goes k) : other.Goes k := fun j hj ↦
    (hsteps j (Nat.lt_of_lt_of_le hj hk) (h.mono (Nat.le_of_lt hj))).trans (h j hj)
  have hcosts (k : Nat) (hk : k ≤ n) (h : machine.Goes k) : other.costs k = machine.costs k :=
    costs_congr fun j hj ↦ by
      rw [cost, cost, hanswer j (Nat.lt_of_lt_of_le hj hk) (h.mono (Nat.le_of_lt hj))]
  obtain h | ⟨k, hk, h, hrefused⟩ := machine.goes_or_refused n
  · rw [answer_run verbosity h, answer_run verbosity (hgoes n n.le_refl h), hcosts n n.le_refl h]
  · have hrefused' : (other.after k).steps = false := (hsteps k hk h).trans hrefused
    have herror := hanswer k hk h
    rw [step_of_not_steps hrefused, step_of_not_steps hrefused'] at herror
    rw [answer_run_of_refused verbosity h hrefused hk,
      answer_run_of_refused verbosity (hgoes k (Nat.le_of_lt hk) h) hrefused' hk,
      hcosts k (Nat.le_of_lt hk) h, Except.error.inj herror]

/-- A byte that does nothing stands before one that does so without being documented. -/
def idle (policy : UndocumentedPolicy) : Machine where
  cpu := { policy }
  memory := (Memory.zeroed .flat).set 1 0x08
  config := {}

theorem answer_run_idle (n : Nat) : ((idle .reject).run verbosity (n + 2)).answer =
    { steps := 1, cycles := 4, error := some (.unknownOpcode 1 0x08 "UNKNOWN") } := by
  have hgoes : (idle .reject).Goes 1 := by
    rw [Goes]
    decide +kernel
  have hrefused : ((idle .reject).after 1).steps = false := by decide +kernel
  have hreport : RunReport.mk 1 (min ((idle .reject).costs 1) RunReport.maxCycles)
      (some ((idle .reject).after 1).refusal) =
        { steps := 1, cycles := 4, error := some (.unknownOpcode 1 0x08 "UNKNOWN") } := by
    decide +kernel
  rw [answer_run_of_refused verbosity hgoes hrefused (by omega), hreport]

/-! ## Runs that are continued -/

/-- The error of a run is that of a step within its budget. -/
theorem exists_refused (h : (machine.run verbosity n).answer.error ≠ none) :
    ∃ k < n, machine.Goes k ∧ (machine.after k).steps = false := by
  obtain hgoes | hrefused := machine.goes_or_refused n
  · exact absurd ((error_run_eq_none_iff verbosity).2 hgoes) h
  · exact hrefused

/-- Past a refused step the machine does not move. -/
theorem after_of_refused (hrefused : (machine.after k).steps = false) (hk : k ≤ n) :
    machine.after n = machine.after k := by
  obtain ⟨d, rfl⟩ := Nat.exists_eq_add_of_le hk
  rw [after_add, after_of_not_steps hrefused]

/-- Where a run has stopped, the machine stays. -/
theorem after_of_stopped (h : (machine.run verbosity m).answer.error ≠ none) (hn : m ≤ n) :
    machine.after n = machine.after m := by
  obtain ⟨k, hk, -, hrefused⟩ := exists_refused verbosity h
  rw [after_of_refused hrefused (Nat.le_of_lt hk),
    after_of_refused hrefused (Nat.le_trans (Nat.le_of_lt hk) hn)]

/-- A run that has stopped goes no further. -/
theorem answer_run_add_of_stopped (h : (machine.run verbosity m).answer.error ≠ none) (n : Nat) :
    (machine.run verbosity (m + n)).answer = (machine.run verbosity m).answer := by
  obtain ⟨k, hk, hgoes, hrefused⟩ := exists_refused verbosity h
  rw [answer_run_of_refused verbosity hgoes hrefused hk,
    answer_run_of_refused verbosity hgoes hrefused (Nat.lt_add_right n hk)]

/-- The report of a run that is continued: the steps add up, the cycles do as far as they can be
told, and what stops the rest of it stops the whole. -/
theorem answer_run_add (h : machine.Goes m) (n : Nat) :
    (machine.run verbosity (m + n)).answer =
      { steps := m + ((machine.after m).run verbosity n).answer.steps
        cycles := min ((machine.run verbosity m).answer.cycles +
          ((machine.after m).run verbosity n).answer.cycles) RunReport.maxCycles
        error := ((machine.after m).run verbosity n).answer.error } := by
  rw [answer_run verbosity h]
  obtain hgoes | ⟨k, hk, hgoes, hrefused⟩ := (machine.after m).goes_or_refused n
  · rw [answer_run verbosity (h.add hgoes), answer_run verbosity hgoes, costs_add]
    simp only [RunReport.mk.injEq, true_and, and_true]
    omega
  · have hrefused' : (machine.after (m + k)).steps = false := by rw [after_add, hrefused]
    rw [answer_run_of_refused verbosity (h.add hgoes) hrefused' (Nat.add_lt_add_left hk m),
      answer_run_of_refused verbosity hgoes hrefused hk, costs_add, after_add]
    simp only [RunReport.mk.injEq, true_and, and_true]
    omega

/-! ## What the table charges -/

/-- A step costs what the table charges for it. -/
theorem cost_eq_charge (h : machine.steps = true) : machine.cost = machine.charge := by
  have hsp : machine.next.cpu.sp = machine.effect.registers.sp := by rw [toRegisters_next h]
  have htaken := Instruction.ite_takenCycles machine.instruction machine.past
    (machine.cpu.operand machine.memory machine.instruction)
    ((machine.instruction.source machine.past
      (machine.cpu.operand machine.memory machine.instruction)).load machine.memory).1
  change (if machine.effect.taken then machine.instruction.takenCycles else 0) =
    if machine.instruction.isConditionalTransfer ∧ machine.effect.registers.sp ≠ machine.cpu.sp
    then 6 else 0 at htaken
  rw [cost_of_steps h, Instruction.cycles, htaken, ← hsp]
  simp only [instruction, Instruction.baseCycles_executed,
    Instruction.isConditionalTransfer_executed]
  rfl

/-- The cycles of a run are those that the table charges for its steps. -/
theorem costs_eq_sum (h : machine.Goes n) :
    machine.costs n = ∑ k ∈ Finset.range n, (machine.after k).charge := by
  induction n generalizing machine with
  | zero => rfl
  | succ n ih =>
    obtain ⟨hsteps, hrest⟩ := goes_succ_iff.1 h
    rw [costs, ih hrest, cost_eq_charge hsteps, Finset.sum_range_succ', Nat.add_comm]
    rfl

theorem four_le_cost (h : machine.steps = true) : 4 ≤ machine.cost := by
  rw [cost_of_steps h]
  exact Instruction.four_le_cycles _ _

theorem cost_le_eighteen (h : machine.steps = true) : machine.cost ≤ 18 := by
  rw [cost_of_steps h]
  exact Instruction.cycles_le_eighteen _ _

/-- The cycles of a run are bounded by its steps. -/
theorem costs_mem_Icc (h : machine.Goes n) :
    4 * n ≤ machine.costs n ∧ machine.costs n ≤ 18 * n := by
  induction n generalizing machine with
  | zero => simp [costs]
  | succ n ih =>
    obtain ⟨hsteps, hrest⟩ := goes_succ_iff.1 h
    have hrest := ih hrest
    have hlow := four_le_cost hsteps
    have hhigh := cost_le_eighteen hsteps
    rw [costs]
    omega

/-- The account of a run is settled by its number of steps, its cycles and its error. -/
theorem Accounts.of_goes {report : RunReport} (hsteps : report.steps ≤ n)
    (hgoes : machine.Goes report.steps)
    (hcycles : report.cycles = min (machine.costs report.steps) RunReport.maxCycles)
    (herror : report.error = none ↔ report.steps = n)
    (hstopped : ∀ e, report.error = some e →
      (machine.after report.steps).step.answer = .error e) : machine.Accounts n report where
  steps_le := hsteps
  goes := hgoes
  error_eq_none_iff := herror
  stopped := hstopped
  cycles_eq := by rw [hcycles, costs_eq_sum hgoes]
  bounds h := by
    rw [← costs_eq_sum hgoes] at h
    rw [hcycles, Nat.min_eq_left h]
    exact costs_mem_Icc hgoes

/-- Every run accounts for its steps. -/
theorem accounts_run (machine : Machine) (n : Nat) :
    machine.Accounts n (machine.run verbosity n).answer := by
  obtain hgoes | ⟨k, hk, hgoes, hrefused⟩ := machine.goes_or_refused n
  · rw [answer_run verbosity hgoes]
    exact .of_goes (Nat.le_refl n) hgoes rfl (by simp) (by simp)
  · rw [answer_run_of_refused verbosity hgoes hrefused hk]
    refine .of_goes (Nat.le_of_lt hk) hgoes rfl (by simpa using Nat.ne_of_lt hk) ?_
    rintro e ⟨⟩
    rw [step_of_not_steps hrefused]

/-- A run of `m + n` steps does what a run of `m` steps and then, if that succeeded, one of `n`
steps do, and its report accounts for it. -/
theorem run_add (machine : Machine) (m n : Nat) :
    let first := machine.run verbosity m
    let second := first.state.run verbosity n
    let whole := machine.run verbosity (m + n)
    whole.state = (if first.answer.error = none then second.state else first.state) ∧
    (first.answer.error ≠ none → whole.answer = first.answer) ∧
    (first.answer.error = none → whole.answer =
      { steps := m + second.answer.steps
        cycles := min (first.answer.cycles + second.answer.cycles) RunReport.maxCycles
        error := second.answer.error }) ∧
    machine.Accounts (m + n) whole.answer := by
  intro first second whole
  have hfirst : first.state = machine.after m := state_run verbosity m
  refine ⟨?_, fun h ↦ answer_run_add_of_stopped verbosity h n, fun h ↦ ?_,
    accounts_run verbosity machine (m + n)⟩
  · split
    · rw [state_run, state_run, hfirst, after_add]
    · next h => rw [state_run, hfirst, after_of_stopped verbosity h (Nat.le_add_right m n)]
  · simp only [second, hfirst]
    exact answer_run_add verbosity ((error_run_eq_none_iff verbosity).1 h) n

end Machine

end Intel8080
