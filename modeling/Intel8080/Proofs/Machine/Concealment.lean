import Intel8080.Proofs.Machine.Traffic

/-!
# What stays hidden

Some of the state of the processor has no part in what a program does. The latch that enables
interrupts and the log of refused writes are written only, and the auxiliary carry is read by the
decimal adjustment and by a push of the status word, which see nothing of what it was before the
last instruction that assigned it. Main statements: `execute_withHidden`, an instruction that does
not read the auxiliary carry passes on what is hidden and makes no use of it, and `conceals`, runs
that differ in what is hidden do the same.
-/

namespace Intel8080

namespace Registers

/-- The register file with another auxiliary carry and another state of the latch. -/
def withHidden (r : Registers) (aux latch : Bool) : Registers :=
  { r with flags := { r.flags with auxCarry := aux }, interruptsEnabled := latch }

end Registers

def Effect.withHidden (e : Effect) (aux latch : Bool) : Effect :=
  { e with registers := e.registers.withHidden aux latch }

namespace Instruction

/-- Whether an instruction assigns the auxiliary carry, whatever it was before. -/
def assignsAux : Instruction → Bool
  | alu _ _ | aluImmediate _ | inr _ | dcr _ | pop .psw => true
  | _ => false

/-- Whether what an instruction does depends on the auxiliary carry. -/
def readsAux : Instruction → Bool
  | daa | push .psw => true
  | _ => false

def setsLatch : Instruction → Bool
  | ei | di => true
  | _ => false

variable {i : Instruction} {r : Registers} {aux latch : Bool}

/-- No address is taken from what is hidden. -/
theorem source_withHidden (operand : UInt16) :
    i.source (r.withHidden aux latch) operand = i.source r operand := by
  cases i <;> rfl

/-- An instruction does the same whatever is hidden, unless it reads the auxiliary carry, and passes
on what it does not assign. -/
theorem execute_withHidden (h : i.readsAux = true → aux = r.flags.auxCarry)
    (operand data : UInt16) :
    let e := i.execute r operand data
    i.execute (r.withHidden aux latch) operand data =
      e.withHidden (if i.assignsAux || i.readsAux then e.registers.flags.auxCarry else aux)
        (if i.setsLatch then e.registers.interruptsEnabled else latch) := by
  intro e
  cases i with
  | mov dst src => cases dst <;> rfl
  | mvi dst => cases dst <;> rfl
  | lxi p | inx p | dcx p => cases p <;> rfl
  | alu op src | aluImmediate op => cases op <;> rfl
  | inr x | dcr x => cases x <;> rfl
  | daa =>
    obtain rfl := h rfl
    rfl
  | jump condition | call condition | ret condition =>
    have htaken : (r.withHidden aux latch).taken condition = r.taken condition := rfl
    simp only [e, execute, htaken]
    split <;> rfl
  | push p =>
    cases p with
    | psw =>
      obtain rfl := h rfl
      rfl
    | _ => rfl
  | pop p => cases p <;> rfl
  | _ => rfl

/-- An instruction that does not assign the auxiliary carry, nor reads it, keeps it. -/
theorem auxCarry_execute (hassigns : i.assignsAux = false) (hreads : i.readsAux = false)
    (operand data : UInt16) :
    (i.execute r operand data).registers.flags.auxCarry = r.flags.auxCarry := by
  have h := congrArg (fun e ↦ e.registers.flags.auxCarry)
    (@execute_withHidden i r r.flags.auxCarry r.interruptsEnabled (fun _ ↦ rfl) operand data)
  rw [hassigns, hreads] at h
  exact h

/-- An instruction that does not set the latch keeps it. -/
theorem interruptsEnabled_execute (hsets : i.setsLatch = false) (operand data : UInt16) :
    (i.execute r operand data).registers.interruptsEnabled = r.interruptsEnabled := by
  have h := congrArg (fun e ↦ e.registers.interruptsEnabled)
    (@execute_withHidden i r r.flags.auxCarry r.interruptsEnabled (fun _ ↦ rfl) operand data)
  rw [hsets] at h
  exact h

end Instruction

namespace Machine

/-- Two machines that are the same up to the auxiliary carry, the latch that enables interrupts and
the log of refused writes. -/
structure AlikeButHidden (machine other : Machine) : Prop where
  memory_eq : other.memory = machine.memory
  policy_eq : other.cpu.policy = machine.cpu.policy
  registers_eq : other.cpu.toRegisters =
    machine.cpu.withHidden other.cpu.flags.auxCarry other.cpu.interruptsEnabled

/-- A step that is refused assigns nothing. -/
theorem instruction_of_not_steps {machine : Machine} (h : machine.steps = false) :
    machine.instruction.assignsAux = false ∧ machine.instruction.setsLatch = false := by
  obtain ⟨like, hlike⟩ := Instruction.exists_eq_undocumented (Cpu.accepts_eq_false_iff.1 h).1
  rw [instruction, hlike, Instruction.executed_undocumented]
  cases like <;> exact ⟨rfl, rfl⟩

/-! ## One step -/

namespace AlikeButHidden

variable {machine other : Machine} (h : machine.AlikeButHidden other)

include h

theorem pc_eq : other.cpu.pc = machine.cpu.pc := by
  rw [h.registers_eq]
  rfl

/-- What is hidden has no part in the fetch of an instruction. -/
theorem fetchesAlike : machine.FetchesAlike other where
  pc_eq := h.pc_eq
  policy_eq := h.policy_eq
  read_pc_eq := by rw [h.memory_eq]

theorem operand_eq (i : Instruction) :
    other.cpu.operand other.memory i = machine.cpu.operand machine.memory i := by
  rw [Cpu.operand, Cpu.operand, h.pc_eq, h.memory_eq]

theorem advanced_eq (i : Instruction) : other.cpu.advanced i =
    (machine.cpu.advanced i).withHidden other.cpu.flags.auxCarry other.cpu.interruptsEnabled := by
  rw [Cpu.advanced, h.registers_eq]
  rfl

theorem dataPlace_eq (i : Instruction) :
    other.cpu.dataPlace other.memory i = machine.cpu.dataPlace machine.memory i := by
  rw [Cpu.dataPlace, Cpu.dataPlace, h.advanced_eq, h.operand_eq, Instruction.source_withHidden]

variable (hreads : machine.instruction.readsAux = true →
  other.cpu.flags.auxCarry = machine.cpu.flags.auxCarry)

include hreads

/-- The effects differ at most in what was hidden and is not assigned. -/
theorem effect_eq : other.effect = machine.effect.withHidden
    (if machine.instruction.assignsAux || machine.instruction.readsAux then
      machine.effect.registers.flags.auxCarry else other.cpu.flags.auxCarry)
    (if machine.instruction.setsLatch then machine.effect.registers.interruptsEnabled
      else other.cpu.interruptsEnabled) := by
  rw [effect, h.fetchesAlike.instruction_eq, Cpu.effect]
  simp only [h.advanced_eq, h.operand_eq, Instruction.source_withHidden]
  rw [h.memory_eq]
  exact Instruction.execute_withHidden (r := machine.past) hreads _ _

/-- The step answers the same and makes the same accesses. -/
theorem actsAlike : machine.ActsAlike other where
  toFetchesAlike := h.fetchesAlike
  operand_eq _ := by rw [h.memory_eq]
  data_eq _ := by rw [h.dataPlace_eq, h.memory_eq]
  writings_eq _ := by
    rw [h.effect_eq hreads, h.memory_eq]
    rfl
  taken_eq _ := by
    rw [h.effect_eq hreads]
    rfl
  shown_eq _ _ _ := by rw [h.memory_eq]

/-- It leaves machines that are the same up to what is hidden. -/
theorem next : machine.next.AlikeButHidden other.next := by
  have hiff := h.fetchesAlike.steps_eq
  cases hsteps : machine.steps with
  | true =>
    rw [next_of_steps (hiff.trans hsteps), next_of_steps hsteps, h.effect_eq hreads, h.memory_eq]
    exact ⟨rfl, h.policy_eq, rfl⟩
  | false => rwa [next_of_not_steps (hiff.trans hsteps), next_of_not_steps hsteps]

/-- If the step assigns the auxiliary carry, or it was the same before, it is the same after. -/
theorem auxCarry_next (haux : machine.instruction.assignsAux = true ∨
      other.cpu.flags.auxCarry = machine.cpu.flags.auxCarry) :
    other.next.cpu.flags.auxCarry = machine.next.cpu.flags.auxCarry := by
  have hiff := h.fetchesAlike.steps_eq
  cases hsteps : machine.steps with
  | true =>
    rw [toRegisters_next (hiff.trans hsteps), toRegisters_next hsteps, h.effect_eq hreads]
    change (if _ then _ else _) = _
    split
    · rfl
    · next hkeeps =>
      obtain ⟨hassigns, hnot⟩ := Bool.or_eq_false_iff.1 (Bool.eq_false_iff.2 hkeeps)
      have hkept : machine.effect.registers.flags.auxCarry = machine.cpu.flags.auxCarry :=
        Instruction.auxCarry_execute (r := machine.past) hassigns hnot _ _
      rw [hkept]
      exact haux.resolve_left (Bool.eq_false_iff.1 hassigns)
  | false =>
    rw [next_of_not_steps (hiff.trans hsteps), next_of_not_steps hsteps]
    exact haux.resolve_left (Bool.eq_false_iff.1 (instruction_of_not_steps hsteps).1)

/-- If the step sets the latch, or it was the same before, it is the same after. -/
theorem interruptsEnabled_next (hlatch : machine.instruction.setsLatch = true ∨
      other.cpu.interruptsEnabled = machine.cpu.interruptsEnabled) :
    other.next.cpu.interruptsEnabled = machine.next.cpu.interruptsEnabled := by
  have hiff := h.fetchesAlike.steps_eq
  cases hsteps : machine.steps with
  | true =>
    rw [toRegisters_next (hiff.trans hsteps), toRegisters_next hsteps, h.effect_eq hreads]
    change (if _ then _ else _) = _
    split
    · rfl
    · next hkeeps =>
      have hsets := Bool.eq_false_iff.2 hkeeps
      have hkept : machine.effect.registers.interruptsEnabled = machine.cpu.interruptsEnabled :=
        Instruction.interruptsEnabled_execute (r := machine.past) hsets _ _
      rw [hkept]
      exact hlatch.resolve_left hkeeps
  | false =>
    rw [next_of_not_steps (hiff.trans hsteps), next_of_not_steps hsteps]
    exact hlatch.resolve_left (Bool.eq_false_iff.1 (instruction_of_not_steps hsteps).2)

end AlikeButHidden

/-! ## Any number of steps -/

variable {machine other : Machine} {n : Nat}

/-- Runs whose steps are made alike and make the same accesses have the same traffic. -/
theorem traffic_congr (h : ∀ k < n, (other.after k).steps = (machine.after k).steps ∧
      (other.after k).accesses = (machine.after k).accesses) :
    other.traffic n = machine.traffic n := by
  induction n generalizing machine other with
  | zero => rfl
  | succ n ih =>
    obtain ⟨hsteps, haccesses⟩ := h 0 n.succ_pos
    rw [after_zero, after_zero] at hsteps haccesses
    rw [traffic, traffic, hsteps, haccesses, ih fun k hk ↦ h (k + 1) (Nat.succ_lt_succ hk)]

/-- Among a number of steps the auxiliary carry is read only after a step that assigned it. -/
def AssignsBeforeReading (machine : Machine) (n : Nat) : Prop :=
  ∀ k < n, (machine.after k).instruction.readsAux = true →
    ∃ j < k, (machine.after j).instruction.assignsAux = true

instance decidableAssignsBeforeReading (machine : Machine) (n : Nat) :
    Decidable (machine.AssignsBeforeReading n) :=
  inferInstanceAs (Decidable (∀ k < n, _ → ∃ j < k, _))

/-- For a number of steps another machine does what a machine does, and what is hidden in the one
comes to be what it is in the other as soon as it is assigned. -/
structure Conceals (machine other : Machine) (n : Nat) : Prop where
  /-- The steps answer the same, and at the same cost. -/
  answer_step : ∀ k < n, (other.after k).step.answer = (machine.after k).step.answer
  /-- The runs report the same. -/
  answer_run : ∀ verbosity, (other.run verbosity n).answer = (machine.run verbosity n).answer
  /-- All is the same throughout but what is hidden. -/
  alike : ∀ k ≤ n, (machine.after k).AlikeButHidden (other.after k)
  /-- The runs make the same accesses to the bus. -/
  traffic_eq : ∀ k ≤ n, other.traffic k = machine.traffic k
  /-- They see the same writes refused. -/
  refusals_eq : ∀ k ≤ n, other.refusals k = machine.refusals k
  /-- After a step that assigned it the auxiliary carry is the same. -/
  auxCarry_eq : ∀ j k, j < k → k ≤ n → (machine.after j).instruction.assignsAux = true →
    (other.after k).cpu.flags.auxCarry = (machine.after k).cpu.flags.auxCarry
  /-- After a step that set it the latch is the same. -/
  interruptsEnabled_eq : ∀ j k, j < k → k ≤ n → (machine.after j).instruction.setsLatch = true →
    (other.after k).cpu.interruptsEnabled = (machine.after k).cpu.interruptsEnabled

/-- A step that reads the auxiliary carry finds the same one, if it is the same after each step that
assigned it. -/
theorem AssignsBeforeReading.auxCarry_eq (hassigns : machine.AssignsBeforeReading n) {k : Nat}
    (hk : k < n) (haux : ∀ j < k, (machine.after j).instruction.assignsAux = true →
      (other.after k).cpu.flags.auxCarry = (machine.after k).cpu.flags.auxCarry)
    (hreads : (machine.after k).instruction.readsAux = true) :
    (other.after k).cpu.flags.auxCarry = (machine.after k).cpu.flags.auxCarry := by
  obtain ⟨j, hj, hassign⟩ := hassigns k hk hreads
  exact haux j hj hassign

namespace AlikeButHidden

variable (h : machine.AlikeButHidden other) (hassigns : machine.AssignsBeforeReading n)

include h hassigns

/-- Machines that differ in what is hidden do so after each step, and no longer in what was
assigned. -/
theorem after {k : Nat} (hk : k ≤ n) :
    (machine.after k).AlikeButHidden (other.after k) ∧
    (∀ j < k, (machine.after j).instruction.assignsAux = true →
      (other.after k).cpu.flags.auxCarry = (machine.after k).cpu.flags.auxCarry) ∧
    (∀ j < k, (machine.after j).instruction.setsLatch = true →
      (other.after k).cpu.interruptsEnabled = (machine.after k).cpu.interruptsEnabled) := by
  induction k with
  | zero => exact ⟨h, fun j hj ↦ absurd hj j.not_lt_zero, fun j hj ↦ absurd hj j.not_lt_zero⟩
  | succ k ih =>
    obtain ⟨halike, haux, hlatch⟩ := ih (Nat.le_of_succ_le hk)
    have hreads := hassigns.auxCarry_eq hk haux
    rw [after_succ, after_succ]
    refine ⟨halike.next hreads, fun j hj hassign ↦ halike.auxCarry_next hreads ?_,
      fun j hj hset ↦ halike.interruptsEnabled_next hreads ?_⟩
    · rcases Nat.lt_succ_iff_lt_or_eq.1 hj with hj | rfl
      · exact .inr (haux j hj hassign)
      · exact .inl hassign
    · rcases Nat.lt_succ_iff_lt_or_eq.1 hj with hj | rfl
      · exact .inr (hlatch j hj hset)
      · exact .inl hset

end AlikeButHidden

/-- What is hidden has no part in what a run does, if the auxiliary carry is read only after a step
that assigned it. -/
theorem conceals (h : machine.AlikeButHidden other) (hassigns : machine.AssignsBeforeReading n) :
    machine.Conceals other n := by
  have halike {k : Nat} (hk : k ≤ n) := (h.after hassigns hk).1
  have hreads {k : Nat} (hk : k < n) :=
    hassigns.auxCarry_eq hk (h.after hassigns (Nat.le_of_lt hk)).2.1
  have hanswer (k : Nat) (hk : k < n) :
      (other.after k).step.answer = (machine.after k).step.answer :=
    ((halike (Nat.le_of_lt hk)).actsAlike (hreads hk)).answer_step_eq
  have htraffic (k : Nat) (hk : k ≤ n) : other.traffic k = machine.traffic k :=
    traffic_congr fun j hj ↦
      have hj := Nat.lt_of_lt_of_le hj hk
      have hacts := (halike (Nat.le_of_lt hj)).actsAlike (hreads hj)
      ⟨hacts.steps_eq, hacts.accesses_eq⟩
  constructor
  case answer_step => exact hanswer
  case answer_run => exact fun verbosity ↦ answer_run_congr verbosity fun k hk _ ↦ hanswer k hk
  case alike => exact fun k hk ↦ halike hk
  case traffic_eq => exact htraffic
  case refusals_eq =>
    intro k hk
    rw [refusals, refusals, htraffic k hk]
  case auxCarry_eq => exact fun j k hj hk ↦ (h.after hassigns hk).2.1 j hj
  case interruptsEnabled_eq => exact fun j k hj hk ↦ (h.after hassigns hk).2.2 j hj

/-- A program that adds, adjusts the sum, pushes it with the status word where nothing may be
written, and enables interrupts. -/
def adjusting : Machine where
  cpu := { a := 0x19, b := 0x28 }
  memory :=
    ((((Memory.zeroed .spaceInvaders).set 0 0x80).set 1 0x27).set 2 0xf5).set 3 0xfb
  config := {}

def adjustingOtherwise : Machine :=
  { adjusting with
    cpu := { adjusting.cpu with
      flags := { auxCarry := true }
      interruptsEnabled := true
      faults := { retained := [⟨.unmapped, 0x5000, 0x07⟩], count := 1 } } }

theorem conceals_adjusting :
    adjusting.AlikeButHidden adjustingOtherwise ∧ adjusting.AssignsBeforeReading 5 ∧
    adjusting.Conceals adjustingOtherwise 5 ∧
    adjusting.refusals 5 = [⟨.unmapped, 0xfffe, 0x06⟩, ⟨.unmapped, 0xffff, 0x47⟩] := by
  have halike : adjusting.AlikeButHidden adjustingOtherwise := ⟨rfl, rfl, rfl⟩
  have hassigns : adjusting.AssignsBeforeReading 5 := by decide +kernel
  exact ⟨halike, hassigns, conceals halike hassigns, by decide +kernel⟩

end Machine

end Intel8080
