import Intel8080.Proofs.Bus.Dataflow
import Intel8080.Proofs.Machine.Report
import Intel8080.Proofs.Machine.Unnoticed

/-!
# What a step depends on and what it leaves

A step takes the bytes that it reads from its memory and no others, and what it leaves there is told
by its accesses. Main statements: `read_next`, what a step leaves in memory;
`ActsAlike.answer_step_eq` and `ActsAlike.accesses_eq`, steps that act alike answer the same and
make the same accesses; and of a step whose accesses are answered alike `AnsweredAlike.actsAlike`
and `AnsweredAlike.cpu_next_eq`, it acts alike and leaves the same processor.
-/

namespace Intel8080.Machine

variable {machine other : Machine} {a : UInt16}

/-- A refused step reads its opcode byte and the three bytes that it shows. -/
theorem accesses_of_not_steps (h : machine.steps = false) : machine.accesses =
    [.read machine.cpu.pc (machine.memory.read machine.cpu.pc),
      .read machine.cpu.pc (machine.memory.read machine.cpu.pc),
      .read (machine.cpu.pc + 1) (machine.memory.read (machine.cpu.pc + 1)),
      .read (machine.cpu.pc + 2) (machine.memory.read (machine.cpu.pc + 2))] :=
  Cpu.accesses_step_of_refused h

/-- A step that is made accesses its opcode byte, its operand, its data and its target. -/
theorem accesses_of_steps (h : machine.steps = true) : machine.accesses =
    .read machine.cpu.pc (machine.memory.read machine.cpu.pc) ::
      ((machine.cpu.operandPlace machine.instruction).readings machine.memory ++
        (machine.cpu.dataPlace machine.memory machine.instruction).readings machine.memory ++
        machine.effect.target.writings machine.effect.value machine.memory.map) :=
  Cpu.accesses_step_of_accepted h

/-- Every step begins with the fetch of its opcode byte. -/
theorem read_pc_mem_accesses (machine : Machine) :
    .read machine.cpu.pc (machine.memory.read machine.cpu.pc) ∈ machine.accesses := by
  cases h : machine.steps with
  | true => simp [accesses_of_steps h]
  | false => simp [accesses_of_not_steps h]

/-- A step reads before it writes, so it takes all that it reads. -/
theorem readsFirst_of_mem_accesses {v : UInt8} (h : .read a v ∈ machine.accesses) :
    Access.ReadsFirst a machine.accesses := by
  cases hsteps : machine.steps with
  | true =>
    rw [accesses_of_steps hsteps, ← List.cons_append] at h ⊢
    refine Access.readsFirst_append_iff.2 (.inl (.of_mem (v := v) ?_ ?_))
    · refine (List.mem_append.1 h).resolve_right fun hwriting ↦ ?_
      obtain ⟨store, -, heq⟩ := List.mem_map.1 hwriting
      cases heq
    · simp [Access.stored?]
  | false =>
    refine .of_mem h ?_
    simp [accesses_of_not_steps hsteps, Access.stored?]

/-- A write of a step is refused or accepted by the memory map. -/
theorem eq_refusal?_of_mem_accesses {v : UInt8} {fault : Option WriteFault}
    (h : .write a v fault ∈ machine.accesses) : fault = machine.memory.map.refusal? a v := by
  cases hsteps : machine.steps with
  | true =>
    rw [accesses_of_steps hsteps, ← List.cons_append] at h
    rcases List.mem_append.1 h with hreading | hwriting
    · simp [Location.readings] at hreading
    · obtain ⟨store, -, heq⟩ := List.mem_map.1 hwriting
      cases heq
      rfl
  | false => simp [accesses_of_not_steps hsteps] at h

/-- What a step leaves in memory is told by its accesses. -/
theorem read_next (machine : Machine) (a : UInt16) : machine.next.memory.read a =
    (Access.left machine.accesses a).getD (machine.memory.read a) := by
  cases h : machine.steps with
  | true =>
    rw [next_of_steps h, accesses_of_steps h]
    simp only [Access.left_cons, Access.left_append, Location.left_readings,
      Location.left_writings, Access.stored?, Option.or_none, Cpu.carryOut,
      Location.read_snd_store_memory]
    split <;> rfl
  | false => simp [next_of_not_steps h, accesses_of_not_steps h, Access.stored?]

/-! ## Steps that act alike -/

/-- The next steps of two machines fetch the same byte at the same address under the same policy. -/
structure FetchesAlike (machine other : Machine) : Prop where
  pc_eq : other.cpu.pc = machine.cpu.pc
  policy_eq : other.cpu.policy = machine.cpu.policy
  read_pc_eq : other.memory.read machine.cpu.pc = machine.memory.read machine.cpu.pc

/-- They read the same bytes from then on, write the same, and transfer control alike. -/
structure ActsAlike (machine other : Machine) : Prop extends machine.FetchesAlike other where
  operand_eq : machine.steps = true →
    (machine.cpu.operandPlace machine.instruction).readings other.memory =
      (machine.cpu.operandPlace machine.instruction).readings machine.memory
  data_eq : machine.steps = true →
    (other.cpu.dataPlace other.memory machine.instruction).readings other.memory =
      (machine.cpu.dataPlace machine.memory machine.instruction).readings machine.memory
  writings_eq : machine.steps = true →
    other.effect.target.writings other.effect.value other.memory.map =
      machine.effect.target.writings machine.effect.value machine.memory.map
  taken_eq : machine.steps = true → other.effect.taken = machine.effect.taken
  /-- The bytes after the opcode byte that a refusal shows. -/
  shown_eq : machine.steps = false → ∀ a ∈ [machine.cpu.pc + 1, machine.cpu.pc + 2],
    other.memory.read a = machine.memory.read a

namespace FetchesAlike

variable (h : machine.FetchesAlike other)

include h

/-- The same byte stands for the same instruction. -/
theorem fetched_eq : other.cpu.fetched other.memory = machine.cpu.fetched machine.memory := by
  rw [Cpu.fetched, Cpu.fetched, h.pc_eq, h.read_pc_eq]

/-- Both steps can be made, or neither. -/
theorem steps_eq : other.steps = machine.steps := by
  rw [steps, steps, Cpu.accepts, Cpu.accepts, h.fetched_eq, h.policy_eq]

/-- They run the same instruction. -/
theorem instruction_eq : other.instruction = machine.instruction := by
  rw [instruction, instruction, h.fetched_eq]

/-- They are refused for the same reason. -/
theorem refusal_eq : other.refusal = machine.refusal := by
  rw [refusal, refusal, h.pc_eq, h.read_pc_eq]

theorem operandPlace_eq (i : Instruction) :
    other.cpu.operandPlace i = machine.cpu.operandPlace i := by
  rw [Cpu.operandPlace, Cpu.operandPlace, h.pc_eq]

end FetchesAlike

namespace ActsAlike

variable (h : machine.ActsAlike other)

include h

/-- Steps that act alike give the same answer. -/
theorem answer_step_eq : other.step.answer = machine.step.answer := by
  refine answer_step_congr h.steps_eq (fun hsteps ↦ ?_) fun _ ↦ h.refusal_eq
  rw [cost_of_steps (h.steps_eq.trans hsteps), cost_of_steps hsteps, h.instruction_eq,
    h.taken_eq hsteps]

/-- They make the same accesses. -/
theorem accesses_eq : other.accesses = machine.accesses := by
  cases hsteps : machine.steps with
  | true =>
    rw [accesses_of_steps (h.steps_eq.trans hsteps), accesses_of_steps hsteps, h.pc_eq,
      h.read_pc_eq, h.instruction_eq, h.operandPlace_eq, h.operand_eq hsteps, h.data_eq hsteps,
      h.writings_eq hsteps]
  | false =>
    have hshown := h.shown_eq hsteps
    rw [accesses_of_not_steps (h.steps_eq.trans hsteps), accesses_of_not_steps hsteps, h.pc_eq,
      h.read_pc_eq, hshown (machine.cpu.pc + 1) (by simp), hshown (machine.cpu.pc + 2) (by simp)]

end ActsAlike

/-! ## Accesses that are answered alike -/

/-- Another machine has the same processor, and its memory answers the accesses of the next step in
the same way. -/
structure AnsweredAlike (machine other : Machine) : Prop where
  cpu_eq : other.cpu = machine.cpu
  read_eq : ∀ a v, .read a v ∈ machine.accesses → other.memory.read a = machine.memory.read a
  refusal?_eq : ∀ a v fault, .write a v fault ∈ machine.accesses →
    other.memory.map.refusal? a v = machine.memory.map.refusal? a v

namespace AnsweredAlike

variable (h : machine.AnsweredAlike other)

include h

/-- The fetch of the opcode byte is among the accesses that are answered alike. -/
theorem fetchesAlike : machine.FetchesAlike other where
  pc_eq := by rw [h.cpu_eq]
  policy_eq := by rw [h.cpu_eq]
  read_pc_eq := h.read_eq _ _ machine.read_pc_mem_accesses

/-- Every address that the instruction reads is among the accesses. -/
theorem read_eq_of_mem (hsteps : machine.steps = true) {a : UInt16}
    (ha : a ∈ machine.cpu.readAddresses machine.memory machine.instruction) :
    other.memory.read a = machine.memory.read a := by
  refine h.read_eq a (machine.memory.read a) ?_
  rw [accesses_of_steps hsteps]
  refine List.mem_cons_of_mem _ (List.mem_append_left _ ?_)
  rcases List.mem_append.1 ha with ha | ha
  · exact List.mem_append_left _ (List.mem_map_of_mem ha)
  · exact List.mem_append_right _ (List.mem_map_of_mem ha)

theorem refusal?_eq_of_mem (hsteps : machine.steps = true) :
    ∀ store ∈ machine.effect.target.bytes machine.effect.value,
      other.memory.map.refusal? store.1 store.2 = machine.memory.map.refusal? store.1 store.2 := by
  intro store hstore
  refine h.refusal?_eq _ _ (machine.memory.map.refusal? store.1 store.2) ?_
  rw [accesses_of_steps hsteps]
  refine List.mem_cons_of_mem _ (List.mem_append_right _ ?_)
  exact List.mem_map.2 ⟨store, hstore, rfl⟩

/-- A step that finds the bytes it reads as they were has the same effect. -/
theorem effect_eq (hsteps : machine.steps = true) : other.effect = machine.effect := by
  rw [effect, effect, h.fetchesAlike.instruction_eq, h.cpu_eq]
  exact Cpu.effect_congr fun a ha ↦ h.read_eq_of_mem hsteps ha

/-- It gives the same answer, therefore, and makes the same accesses. -/
theorem actsAlike : machine.ActsAlike other where
  toFetchesAlike := h.fetchesAlike
  operand_eq hsteps := Location.readings_congr fun a ha ↦
    h.read_eq_of_mem hsteps (List.mem_append_left _ ha)
  data_eq hsteps := by
    have hread := fun a ↦ h.read_eq_of_mem hsteps (a := a)
    rw [h.cpu_eq, Cpu.dataPlace_congr hread]
    exact Location.readings_congr fun a ha ↦ hread a (List.mem_append_right _ ha)
  writings_eq hsteps := by
    rw [h.effect_eq hsteps]
    exact Location.writings_congr _ (h.refusal?_eq_of_mem hsteps)
  taken_eq hsteps := by rw [h.effect_eq hsteps]
  shown_eq hsteps a ha := by
    refine h.read_eq a (machine.memory.read a) ?_
    rw [accesses_of_not_steps hsteps]
    rcases List.mem_pair.1 ha with rfl | rfl <;> simp

/-- It leaves the same processor. -/
theorem cpu_next_eq : other.next.cpu = machine.next.cpu := by
  have hiff := h.fetchesAlike.steps_eq
  cases hsteps : machine.steps with
  | true =>
    rw [next_of_steps (hiff.trans hsteps), next_of_steps hsteps, h.effect_eq hsteps, h.cpu_eq]
    exact machine.cpu.fst_carryOut_congr (h.refusal?_eq_of_mem hsteps)
  | false => rw [next_of_not_steps (hiff.trans hsteps), next_of_not_steps hsteps, h.cpu_eq]

end AnsweredAlike

/-! ## Bytes that a step does not access -/

section MapBytes

variable {f : UInt16 → UInt8 → UInt8}
  (hfixed : ∀ access ∈ machine.accesses, ∀ v, f access.address v = v)

include hfixed

/-- Bytes that are not accessed may be changed without the step noticing. -/
theorem answeredAlike_mapBytes : machine.AnsweredAlike (machine.mapBytes f) where
  cpu_eq := rfl
  read_eq a v hmem := by
    rw [memory_mapBytes, Memory.read_mapBytes]
    exact hfixed _ hmem _
  refusal?_eq _ _ _ _ := rfl

/-- A step commutes with a change of bytes that it does not access, also a step that is refused. -/
theorem next_mapBytes_of_fixed : (machine.mapBytes f).next = machine.next.mapBytes f := by
  have halike := answeredAlike_mapBytes hfixed
  have hmemory : (machine.mapBytes f).next.memory = (machine.next.mapBytes f).memory := by
    refine Memory.ext (fun a ↦ ?_) (by simp)
    rw [read_next, halike.actsAlike.accesses_eq, memory_mapBytes, memory_mapBytes,
      Memory.read_mapBytes, Memory.read_mapBytes, read_next]
    cases hleft : Access.left machine.accesses a with
    | none => rfl
    | some v =>
      -- something was stored at this address, so it is among those that are accessed
      obtain ⟨w, hmem⟩ : ∃ w, .write a w none ∈ machine.accesses := by
        by_contra hnone
        rw [Access.left_eq_none_iff.2 (not_exists.1 hnone)] at hleft
        cases hleft
      exact (hfixed _ hmem v).symm
  have hcpu : (machine.mapBytes f).next.cpu = (machine.next.mapBytes f).cpu :=
    halike.cpu_next_eq
  exact congrFun (congrArg₂ Machine.mk hcpu hmemory) machine.config

end MapBytes

end Intel8080.Machine
