import Intel8080.Proofs.Cpu.Accesses
import Intel8080.Proofs.Machine.Trace

/-!
# Changes of memory that a run does not notice

A step depends on no byte but those that it accesses, and of its opcode byte only on the instruction
that it runs. So bytes may be changed beneath a run that it goes through just the same, with the
change left in the memory. Main statements: `Overlooks.next_mapBytes`, one step commutes with a
change that it does not notice, and `after_mapBytes`, `goes_mapBytes` and `costs_mapBytes`, so do
any number of steps, at the same cost.
-/

namespace Intel8080

/-- The memory with every byte changed, in a way that depends on its address. -/
def Memory.mapBytes (memory : Memory) (f : UInt16 → UInt8 → UInt8) : Memory where
  bytes := memory.bytes.mapIdx fun i v ↦ f (UInt16.ofNat i) v
  map := memory.map

@[simp] theorem Memory.read_mapBytes (memory : Memory) (f : UInt16 → UInt8 → UInt8) (a : UInt16) :
    (memory.mapBytes f).read a = f a (memory.read a) := by
  simp [mapBytes, read]

@[simp] theorem Memory.map_mapBytes (memory : Memory) (f : UInt16 → UInt8 → UInt8) :
    (memory.mapBytes f).map = memory.map := rfl

namespace Machine

variable (machine : Machine) (f : UInt16 → UInt8 → UInt8)

/-- The accesses of the next step to the bus, in their order. -/
def accesses : List Access := (machine.cpu.step (Recorder.start machine.memory)).state.2.accesses

def mapBytes : Machine := { machine with memory := machine.memory.mapBytes f }

@[simp] theorem cpu_mapBytes : (machine.mapBytes f).cpu = machine.cpu := rfl

@[simp] theorem memory_mapBytes :
    (machine.mapBytes f).memory = machine.memory.mapBytes f := rfl

/-- The next step can be made before a change of the memory and after it, and does not notice the
change: it runs the same instruction, and finds the bytes that it accesses besides the opcode byte
as they were. -/
structure Overlooks : Prop where
  steps : machine.steps = true
  steps_mapBytes : (machine.mapBytes f).steps = true
  instruction_mapBytes : (machine.mapBytes f).instruction = machine.instruction
  fixed : ∀ access ∈ machine.accesses.tail, ∀ v, f access.address v = v

variable {machine f}

/-- The first access of a step that is made is the fetch of its opcode byte. -/
theorem accesses_eq_cons (h : machine.steps = true) : machine.accesses =
    .read machine.cpu.pc (machine.memory.read machine.cpu.pc) :: machine.accesses.tail := by
  rw [accesses, Cpu.accesses_step_of_accepted h, List.tail_cons]

theorem map_address_tail_accesses (h : machine.steps = true) :
    machine.accesses.tail.map Access.address =
      machine.cpu.accessedAddresses machine.memory machine.instruction :=
  Cpu.map_address_tail_accesses_step h

/-- A byte that a step does not access, or accesses as its opcode byte only, is kept. -/
theorem read_next_of_forall_address_ne (h : machine.steps = true) {a : UInt16}
    (haccess : ∀ access ∈ machine.accesses.tail, access.address ≠ a) :
    machine.next.memory.read a = machine.memory.read a := by
  have hnot : a ∉ machine.effect.target.addresses := by
    intro ha
    have haddress : a ∈ machine.cpu.accessedAddresses machine.memory machine.instruction :=
      List.mem_append_right _ ha
    rw [← map_address_tail_accesses h] at haddress
    obtain ⟨access, hmem, heq⟩ := List.mem_map.1 haddress
    exact haccess access hmem heq
  rw [next_of_steps h]
  exact machine.cpu.read_carryOut_of_not_mem hnot

/-- A change at one address is not noticed by a step that does not access it. -/
theorem overlooks_of_forall_address_ne {a : UInt16} {v : UInt8} (h : machine.steps = true)
    (haccess : ∀ access ∈ machine.accesses, access.address ≠ a) :
    machine.Overlooks fun b w ↦ if b = a then v else w := by
  have hpc : machine.cpu.pc ≠ a := by
    rw [accesses_eq_cons h] at haccess
    exact haccess _ List.mem_cons_self
  have hfetched : (machine.mapBytes fun b w ↦ if b = a then v else w).cpu.fetched
      (machine.mapBytes fun b w ↦ if b = a then v else w).memory =
        machine.cpu.fetched machine.memory := by
    simp [Cpu.fetched, hpc]
  refine ⟨h, ?_, ?_, fun access hmem w ↦ if_neg (haccess access (List.mem_of_mem_tail hmem))⟩
  · rw [Machine.steps, hfetched]
    exact h
  · rw [instruction, hfetched, instruction]

namespace Overlooks

variable (h : machine.Overlooks f)

include h

theorem fixed_of_mem {a : UInt16}
    (ha : a ∈ machine.cpu.accessedAddresses machine.memory machine.instruction) (v : UInt8) :
    f a v = v := by
  rw [← map_address_tail_accesses h.steps] at ha
  obtain ⟨access, hmem, rfl⟩ := List.mem_map.1 ha
  exact h.fixed access hmem v

/-- An instruction does the same if none of the bytes it reads is changed. -/
theorem effect_mapBytes : (machine.mapBytes f).effect = machine.effect := by
  rw [effect, effect, h.instruction_mapBytes]
  refine Cpu.effect_congr fun a ha ↦ ?_
  rw [memory_mapBytes, Memory.read_mapBytes]
  exact h.fixed_of_mem (List.mem_append_left _ ha) _

/-- A step commutes with a change that it does not notice. -/
theorem next_mapBytes : (machine.mapBytes f).next = machine.next.mapBytes f := by
  rw [next_of_steps h.steps_mapBytes, next_of_steps h.steps, h.effect_mapBytes]
  have hcpu : (machine.cpu.carryOut (machine.memory.mapBytes f) machine.effect).1 =
      (machine.cpu.carryOut machine.memory machine.effect).1 :=
    machine.cpu.fst_carryOut_congr fun _ _ ↦ rfl
  have hmemory : (machine.cpu.carryOut (machine.memory.mapBytes f) machine.effect).2 =
      (machine.cpu.carryOut machine.memory machine.effect).2.mapBytes f := by
    refine Memory.ext (fun a ↦ ?_) (by simp)
    rw [Memory.read_mapBytes]
    -- a byte that is stored to is accessed and so fixed; the others are only carried along
    by_cases ha : a ∈ machine.effect.target.addresses
    · have hfixed := h.fixed_of_mem (List.mem_append_right _ ha)
      rw [hfixed]
      exact machine.cpu.read_carryOut_congr (Memory.map_mapBytes ..)
        ((Memory.read_mapBytes ..).trans (hfixed _)) _
    · rw [machine.cpu.read_carryOut_of_not_mem ha, machine.cpu.read_carryOut_of_not_mem ha,
        Memory.read_mapBytes]
  simp only [mapBytes, hcpu, hmemory]

theorem cost_mapBytes : (machine.mapBytes f).cost = machine.cost := by
  rw [cost_of_steps h.steps_mapBytes, cost_of_steps h.steps, h.instruction_mapBytes,
    h.effect_mapBytes]

end Overlooks

/-! ## Any number of steps -/

variable {n : Nat}

/-- Steps commute with a change that none of them notices. -/
theorem after_mapBytes (h : ∀ k < n, (machine.after k).Overlooks f) :
    (machine.mapBytes f).after n = (machine.after n).mapBytes f := by
  induction n with
  | zero => rfl
  | succ n ih =>
    rw [after_succ, after_succ, ih fun k hk ↦ h k (Nat.lt_succ_of_lt hk)]
    exact (h n n.lt_succ_self).next_mapBytes

/-- A run does not notice a change that none of its steps notices. -/
theorem goes_mapBytes (h : ∀ k < n, (machine.after k).Overlooks f) :
    (machine.mapBytes f).Goes n := by
  intro k hk
  rw [after_mapBytes fun j hj ↦ h j (Nat.lt_trans hj hk)]
  exact (h k hk).steps_mapBytes

theorem costs_mapBytes (h : ∀ k < n, (machine.after k).Overlooks f) :
    (machine.mapBytes f).costs n = machine.costs n :=
  costs_congr fun k hk ↦ by
    rw [after_mapBytes fun j hj ↦ h j (Nat.lt_trans hj hk), (h k hk).cost_mapBytes]

end Machine

end Intel8080
