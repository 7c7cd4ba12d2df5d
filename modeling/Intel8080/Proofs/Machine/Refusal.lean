import Intel8080.Proofs.Machine.History
import Intel8080.Proofs.Machine.Report
import Intel8080.Proofs.Machine.Unnoticed

/-!
# Refused bytes

A step that is refused leaves everything as it was, so a run can be tried again, and goes on once
there is a documented byte in the way. Main statements: `perform_of_not_steps`, trying again changes
nothing, `run_place`, a byte that has not been accessed so far can be put in place as well before a
run as in the middle of it, and `refuses`, which says of every machine what its refusals are.
-/

namespace Intel8080

/-- Whether an operation tries to make steps and does nothing else. -/
def Operation.attempts : Operation → Bool
  | step | run .. => true
  | _ => false

namespace Memory

variable (memory : Memory) (a : UInt16) (v : UInt8)

/-- An image of one byte fits anywhere. -/
theorem load_singleton : memory.load a [v] = .ok (memory.set a v) := by
  have ha := toNat_lt_size a
  have hfits : a.toNat + [v].length ≤ size := Nat.succ_le_of_lt ha
  rw [load_eq_ok hfits]
  obtain ⟨bytes, map⟩ := memory
  simp [set, place, Vector.setIfInBounds, Vector.set, Array.setIfInBounds, ha]

theorem set_eq_mapBytes : memory.set a v = memory.mapBytes fun b w ↦ if b = a then v else w := by
  refine ext (fun b ↦ ?_) map_set
  simp [read_set, eq_comm]

end Memory

namespace Machine

variable {machine : Machine} {k n : Nat}

/-! ## Trying again -/

/-- Trying again does not help. -/
theorem apply_of_not_steps (h : machine.steps = false) {o : Operation} (ho : o.attempts = true) :
    o.apply machine = machine := by
  cases o with
  | step => exact next_of_not_steps h
  | run verbosity budget =>
    rw [Operation.apply, state_run]
    exact after_of_not_steps h budget
  | _ => cases ho

/-- However often a refused byte is tried, the machine stays as it is. -/
theorem perform_of_not_steps (h : machine.steps = false) {history : List Operation}
    (hattempts : ∀ o ∈ history, o.attempts = true) : machine.perform history = machine :=
  perform_induction (P := (· = machine))
    (fun o ho _ hm ↦ by rw [hm]; exact apply_of_not_steps h (hattempts o ho)) rfl

/-- A run that begins at a refused byte makes no step. -/
theorem answer_run_of_not_steps (verbosity : Verbosity) (h : machine.steps = false)
    (hn : 0 < n) : (machine.run verbosity n).answer =
      { steps := 0, cycles := 0, error := some machine.refusal } :=
  answer_run_of_refused (k := 0) verbosity goes_zero h hn

/-! ## Placing a byte -/

/-- To place one byte is to change the memory at its address. -/
theorem apply_place (machine : Machine) (a : UInt16) (v : UInt8) :
    (Operation.place a [v]).apply machine =
      machine.mapBytes fun b w ↦ if b = a then v else w := by
  simp only [Operation.apply, Memory.load_singleton, Memory.set_eq_mapBytes]
  rfl

/-- A byte that no step has accessed so far can be placed before the steps as well as after them. -/
theorem run_place (verbosity : Verbosity) {a : UInt16} (v : UInt8) (hgoes : machine.Goes k)
    (haccess : ∀ j < k, ∀ access ∈ (machine.after j).accesses, access.address ≠ a) (n : Nat) :
    let rest := ((Operation.place a [v]).apply (machine.after k)).run verbosity n
    let whole := ((Operation.place a [v]).apply machine).run verbosity (k + n)
    whole.state = rest.state ∧
    whole.answer =
      { steps := k + rest.answer.steps
        cycles := min (min (machine.costs k) RunReport.maxCycles + rest.answer.cycles)
          RunReport.maxCycles
        error := rest.answer.error } := by
  have hover (j : Nat) (hj : j < k) :
      (machine.after j).Overlooks fun b w ↦ if b = a then v else w :=
    overlooks_of_forall_address_ne (hgoes j hj) (haccess j hj)
  have hgoes' := goes_mapBytes hover
  simp only [apply_place, state_run, ← after_mapBytes hover, after_add, true_and,
    answer_run_add verbosity hgoes', answer_run verbosity hgoes', costs_mapBytes hover]

/-- With a documented byte in place of the refused one a run makes a step. -/
theorem steps_run_place_pos {verbosity : Verbosity} {v : UInt8} (hn : 0 < n)
    (hv : v ∉ Instruction.undocumentedBytes) : 0 <
      (((Operation.place machine.cpu.pc [v]).apply machine).run verbosity n).answer.steps := by
  rw [apply_place]
  have hsteps : (machine.mapBytes fun b w ↦ if b = machine.cpu.pc then v else w).steps = true := by
    rw [← Bool.not_eq_false, steps_eq_false_iff]
    simp [hv]
  obtain hgoes | ⟨k, hk, hgoes, hrefused⟩ := goes_or_refused _ n
  · rwa [answer_run verbosity hgoes]
  · rw [answer_run_of_refused verbosity hgoes hrefused hk]
    refine Nat.pos_of_ne_zero ?_
    rintro rfl
    rw [after_zero, hsteps] at hrefused
    cases hrefused

/-! ## Refusals -/

/-- What it means for a machine that a byte is refused. -/
structure Refuses (machine : Machine) : Prop where
  /-- A step fails exactly at an undocumented byte, and there under the policy to reject it. -/
  fails_iff : (∃ e, machine.step.answer = .error e) ↔
    machine.cpu.policy = .reject ∧
      machine.memory.read machine.cpu.pc ∈ Instruction.undocumentedBytes
  /-- A step that fails names the byte and where it stands, and leaves the machine as it was. -/
  failed : ∀ e, machine.step.answer = .error e →
    e = .unknownOpcode machine.cpu.pc (machine.memory.read machine.cpu.pc) "UNKNOWN" ∧
    machine.step.state = machine
  /-- A run that fails leaves the machine as the steps that were made have left it. -/
  stopped : ∀ verbosity n e, (machine.run verbosity n).answer.error = some e →
    let k := (machine.run verbosity n).answer.steps
    k < n ∧ machine.Goes k ∧ (machine.run verbosity n).state = machine.after k ∧
    (machine.after k).step.answer = .error e
  /-- However often it is tried again, the failure is the same and the machine stays. -/
  stays : ∀ verbosity n e, (machine.run verbosity n).answer.error = some e →
    let left := (machine.run verbosity n).state
    (∀ history : List Operation, (∀ o ∈ history, o.attempts = true) →
      left.perform history = left) ∧
    left.step.answer = .error e ∧
    ∀ verbosity m, 0 < m →
      (left.run verbosity m).answer = { steps := 0, cycles := 0, error := some e }
  /-- If nothing has accessed the address of the refused byte so far, another byte that is placed
  there lets the run go on as if it had been there from the start. -/
  resumed : ∀ verbosity n e, (machine.run verbosity n).answer.error = some e →
    let first := machine.run verbosity n
    let a := first.state.cpu.pc
    (∀ k < first.answer.steps, ∀ access ∈ (machine.after k).accesses, access.address ≠ a) →
    ∀ v,
      let rest := ((Operation.place a [v]).apply first.state).run verbosity
        (n - first.answer.steps)
      let whole := ((Operation.place a [v]).apply machine).run verbosity n
      whole.state = rest.state ∧
      whole.answer =
        { steps := first.answer.steps + rest.answer.steps
          cycles := min (first.answer.cycles + rest.answer.cycles) RunReport.maxCycles
          error := rest.answer.error } ∧
      (v ∉ Instruction.undocumentedBytes → 0 < rest.answer.steps)

/-- A run that fails makes the steps before a refused byte, and no other. -/
theorem eq_of_error_run {verbosity : Verbosity} {e : StepError}
    (h : (machine.run verbosity n).answer.error = some e) : ∃ k < n, machine.Goes k ∧
      (machine.after k).steps = false ∧ (machine.run verbosity n).state = machine.after k ∧
      (machine.run verbosity n).answer =
        { steps := k
          cycles := min (machine.costs k) RunReport.maxCycles
          error := some (machine.after k).refusal } ∧
      e = (machine.after k).refusal := by
  obtain ⟨k, hk, hgoes, hrefused⟩ := exists_refused verbosity (h ▸ Option.some_ne_none e)
  have hanswer := answer_run_of_refused verbosity hgoes hrefused hk
  rw [hanswer] at h
  refine ⟨k, hk, hgoes, hrefused, ?_, hanswer, (Option.some.inj h).symm⟩
  rw [state_run, after_of_refused hrefused (Nat.le_of_lt hk)]

/-- Every machine refuses undocumented bytes without a trace, and can go on. -/
theorem refuses (machine : Machine) : machine.Refuses where
  fails_iff := by
    rw [← steps_eq_false_iff]
    constructor
    · rintro ⟨e, he⟩
      exact steps_eq_false_of_error he
    · intro h
      exact ⟨machine.refusal, by rw [step_of_not_steps h]⟩
  failed e he := by
    have hrefused := steps_eq_false_of_error he
    rw [step_of_not_steps hrefused] at he ⊢
    exact ⟨(Except.error.inj he).symm, rfl⟩
  stopped verbosity n e he := by
    obtain ⟨k, hk, hgoes, hrefused, hstate, hanswer, rfl⟩ := eq_of_error_run he
    rw [hanswer, hstate]
    exact ⟨hk, hgoes, rfl, by rw [step_of_not_steps hrefused]⟩
  stays verbosity n e he := by
    obtain ⟨k, -, -, hrefused, hstate, -, rfl⟩ := eq_of_error_run he
    rw [hstate]
    exact ⟨fun history ↦ perform_of_not_steps hrefused, by rw [step_of_not_steps hrefused],
      fun verbosity m ↦ answer_run_of_not_steps verbosity hrefused⟩
  resumed verbosity n e he := by
    obtain ⟨k, hk, hgoes, hrefused, hstate, hanswer, rfl⟩ := eq_of_error_run he
    intro first a haccess v
    simp only [first, a, hanswer, hstate] at haccess ⊢
    obtain ⟨hwhole, hadd⟩ := run_place verbosity v hgoes haccess (n - k)
    rw [Nat.add_sub_of_le (Nat.le_of_lt hk)] at hwhole hadd
    exact ⟨hwhole, hadd, steps_run_place_pos (Nat.sub_pos_of_lt hk)⟩

theorem refuses_idle :
    ((idle .reject).run none 3).answer =
      { steps := 1, cycles := 4, error := some (.unknownOpcode 1 0x08 "UNKNOWN") } ∧
    (∀ k < 1, ∀ access ∈ ((idle .reject).after k).accesses, access.address ≠ 1) ∧
    (((Operation.place 1 [0x00]).apply (idle .reject)).run none 3).state =
      (((Operation.place 1 [0x00]).apply ((idle .reject).run none 3).state).run none 2).state := by
  have hanswer := answer_run_idle none 1
  have hpc : ((idle .reject).run none 3).state.cpu.pc = 1 := by decide +kernel
  have haccess : ∀ k < 1, ∀ access ∈ ((idle .reject).after k).accesses, access.address ≠ 1 := by
    decide +kernel
  have herror := congrArg RunReport.error hanswer
  have hresumed := (refuses (idle .reject)).resumed none 3 _ herror
  simp only [hanswer, hpc] at hresumed
  exact ⟨hanswer, haccess, (hresumed haccess 0x00).1⟩

end Machine

end Intel8080
