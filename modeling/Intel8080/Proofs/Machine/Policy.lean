import Intel8080.Proofs.Machine.Report

/-!
# The policy on undocumented bytes

A machine that rejects undocumented bytes does what one that runs them does, up to the first of
them. Main statements: `AlikeButPolicy.next`, a step that two machines can both make does the same
in both, `AlikeButPolicy.after`, so do any number of steps, and `reject_restricts`, which compares
the runs of the two with their reports.
-/

namespace Intel8080.Machine

/-- Two machines that are the same up to the policies of their processors and their set-ups. -/
structure AlikeButPolicy (m₁ m₂ : Machine) : Prop where
  cpu_eq : m₂.cpu = { m₁.cpu with policy := m₂.cpu.policy }
  memory_eq : m₂.memory = m₁.memory
  config_eq : m₂.config = { m₁.config with policy := m₂.config.policy }

/-! ## The policy itself -/

section Policy

variable (machine : Machine)

@[simp] theorem policy_next : machine.next.cpu.policy = machine.cpu.policy := policy_step machine

@[simp] theorem policy_after (n : Nat) : (machine.after n).cpu.policy = machine.cpu.policy :=
  after_induction (P := fun m ↦ m.cpu.policy = machine.cpu.policy)
    (fun m h ↦ (policy_next m).trans h) rfl n

variable {machine}

/-- A machine that runs undocumented bytes goes on for ever. -/
theorem goes_of_runAlias (h : machine.cpu.policy = .runAlias) (n : Nat) : machine.Goes n :=
  fun k _ ↦ Cpu.accepts_of_runAlias ((policy_after machine k).trans h) _

end Policy

namespace AlikeButPolicy

protected theorem refl (machine : Machine) : machine.AlikeButPolicy machine := ⟨rfl, rfl, rfl⟩

variable {m₁ m₂ : Machine} (h : m₁.AlikeButPolicy m₂)

include h

theorem instruction_eq : m₂.instruction = m₁.instruction := by
  rw [instruction, instruction, h.cpu_eq, h.memory_eq]
  rfl

theorem effect_eq : m₂.effect = m₁.effect := by
  rw [effect, effect, h.instruction_eq, h.cpu_eq, h.memory_eq]
  rfl

/-- A documented byte is run under the other policy, too. -/
theorem steps_of_documented
    (hbyte : m₁.memory.read m₁.cpu.pc ∉ Instruction.undocumentedBytes) : m₂.steps = true := by
  refine steps_of_notMem ?_
  rw [h.cpu_eq, h.memory_eq]
  exact hbyte

/-- Steps that both machines can make take the same cycles. -/
theorem cost_eq (h₁ : m₁.steps = true) (h₂ : m₂.steps = true) : m₂.cost = m₁.cost := by
  rw [cost_of_steps h₁, cost_of_steps h₂, h.instruction_eq, h.effect_eq]

/-- A step that both machines can make does the same in both. -/
theorem next (h₁ : m₁.steps = true) (h₂ : m₂.steps = true) : m₁.next.AlikeButPolicy m₂.next := by
  have heffect := h.effect_eq
  obtain ⟨hcpu, hmemory, hconfig⟩ := h
  rw [next_of_steps h₁, next_of_steps h₂, heffect, hmemory, hcpu]
  exact ⟨rfl, rfl, hconfig⟩

variable {n : Nat}

/-- Steps that both machines can make do the same in both. -/
theorem after (h₁ : m₁.Goes n) (h₂ : m₂.Goes n) : (m₁.after n).AlikeButPolicy (m₂.after n) := by
  induction n with
  | zero => exact h
  | succ n ih =>
    have hbefore := ih (h₁.mono n.le_succ) (h₂.mono n.le_succ)
    rw [after_succ, after_succ]
    exact hbefore.next (h₁ n n.lt_succ_self) (h₂ n n.lt_succ_self)

theorem costs_eq (h₁ : m₁.Goes n) (h₂ : m₂.Goes n) : m₂.costs n = m₁.costs n :=
  costs_congr fun k hk ↦ by
    have hbefore := h.after (h₁.mono (Nat.le_of_lt hk)) (h₂.mono (Nat.le_of_lt hk))
    exact hbefore.cost_eq (h₁ k hk) (h₂ k hk)

/-- A machine makes the steps that another one makes at documented bytes. -/
theorem goes_of_documented (h₁ : m₁.Goes n) (hbytes : ∀ k < n,
    (m₁.after k).memory.read (m₁.after k).cpu.pc ∉ Instruction.undocumentedBytes) : m₂.Goes n := by
  induction n with
  | zero => exact goes_zero
  | succ n ih =>
    have hgoes₁ : m₁.Goes n := h₁.mono n.le_succ
    have hgoes₂ : m₂.Goes n := ih hgoes₁ fun k hk ↦ hbytes k (Nat.lt_succ_of_lt hk)
    refine hgoes₂.add (goes_succ_iff.2 ⟨?_, goes_zero⟩)
    exact (h.after hgoes₁ hgoes₂).steps_of_documented (hbytes n n.lt_succ_self)

end AlikeButPolicy

/-! ## Runs -/

/-- A machine that rejects undocumented bytes does what one that runs them does, as far as it
gets. -/
structure Restricts (strict lenient : Machine) : Prop where
  /-- A run that succeeds is the same in both. -/
  completed : ∀ verbosity n, (strict.run verbosity n).answer.error = none →
    (lenient.run verbosity n).answer = (strict.run verbosity n).answer ∧
    (strict.run verbosity n).state.AlikeButPolicy (lenient.run verbosity n).state
  /-- A run that stops is the same in both up to the undocumented byte at which it does. -/
  stopped : ∀ verbosity n, (strict.run verbosity n).answer.error ≠ none →
    let done := (strict.run verbosity n).answer
    let other := lenient.run verbosity done.steps
    other.answer = { done with error := none } ∧
    (strict.run verbosity n).state.AlikeButPolicy other.state ∧
    other.state.memory.read other.state.cpu.pc ∈ Instruction.undocumentedBytes

theorem AlikeButPolicy.restricts {strict lenient : Machine} (h : strict.AlikeButPolicy lenient)
    (hlenient : lenient.cpu.policy = .runAlias) : strict.Restricts lenient where
  completed verbosity n herror := by
    have hstrict := (error_run_eq_none_iff verbosity).1 herror
    have hgoes := goes_of_runAlias hlenient n
    rw [answer_run verbosity hstrict, answer_run verbosity hgoes, h.costs_eq hstrict hgoes,
      state_run, state_run]
    exact ⟨rfl, h.after hstrict hgoes⟩
  stopped verbosity n herror := by
    obtain ⟨k, hk, hstrict, hrefused⟩ := exists_refused verbosity herror
    have hgoes := goes_of_runAlias hlenient k
    have halike := h.after hstrict hgoes
    rw [answer_run_of_refused verbosity hstrict hrefused hk]
    simp only [answer_run verbosity hgoes, h.costs_eq hstrict hgoes, state_run,
      after_of_refused hrefused (Nat.le_of_lt hk)]
    refine ⟨trivial, halike, ?_⟩
    rw [halike.memory_eq, halike.cpu_eq]
    exact (steps_eq_false_iff.1 hrefused).2

/-- To reject undocumented bytes restricts what a machine does and changes nothing else; a machine
that runs them is never stopped, and the policy stays what it is. -/
theorem reject_restricts :
    (∀ strict lenient : Machine, strict.AlikeButPolicy lenient → strict.cpu.policy = .reject →
      lenient.cpu.policy = .runAlias → strict.Restricts lenient) ∧
    (∀ machine : Machine, machine.cpu.policy = .runAlias →
      ∀ verbosity n, (machine.run verbosity n).answer.error = none) ∧
    ∀ machine : Machine, machine.step.state.cpu.policy = machine.cpu.policy ∧
      (∀ verbosity n, (machine.run verbosity n).state.cpu.policy = machine.cpu.policy) ∧
      machine.reset.state.cpu.policy = machine.cpu.policy := by
  refine ⟨fun strict lenient h _ hlenient ↦ h.restricts hlenient, ?_, ?_⟩
  · intro machine h verbosity n
    exact (error_run_eq_none_iff verbosity).2 (goes_of_runAlias h n)
  · intro machine
    refine ⟨policy_step machine, fun verbosity n ↦ ?_, policy_reset machine⟩
    rw [state_run, policy_after]

theorem reject_restricts_idle :
    (idle .reject).AlikeButPolicy (idle .runAlias) ∧
    ((idle .reject).run none 2).answer =
      { steps := 1, cycles := 4, error := some (.unknownOpcode 1 0x08 "UNKNOWN") } ∧
    ((idle .runAlias).run none 1).answer = { steps := 1, cycles := 4, error := none } := by
  have halike : (idle .reject).AlikeButPolicy (idle .runAlias) := ⟨rfl, rfl, rfl⟩
  have hstrict := answer_run_idle none 0
  have hstopped := (reject_restricts.1 _ _ halike rfl rfl).stopped none 2
  simp only [hstrict] at hstopped
  exact ⟨halike, hstrict, (hstopped (Option.some_ne_none _)).1⟩

end Intel8080.Machine
