import Intel8080.Proofs.Bus.Writes
import Intel8080.Proofs.Machine.Trace

/-!
# Running through a program

Bytes that stand at an address, and the steps that lead from one machine to another with their
cycles. Main statements: `Stands.congr`, which bytes of the memory matter, and `stands_load`, that a
placed image stands where it was placed; `Leads.trans`, steps lead on from where others led, and
`leads_of_nowhere` and `leads_of_byte`, the step that an instruction makes, with the machine it
leads to written out.
-/

namespace Intel8080

namespace Memory

variable {memory later : Memory} {a : UInt16} {bytes : List UInt8}

/-- The bytes stand in memory from an address on. -/
def Stands (memory : Memory) : UInt16 → List UInt8 → Prop
  | _, [] => True
  | a, v :: bytes => memory.read a = v ∧ memory.Stands (a + 1) bytes

instance decidableStands (memory : Memory) :
    (a : UInt16) → (bytes : List UInt8) → Decidable (memory.Stands a bytes)
  | _, [] => .isTrue trivial
  | a, v :: bytes =>
    have := memory.decidableStands (a + 1) bytes
    inferInstanceAs (Decidable (memory.read a = v ∧ memory.Stands (a + 1) bytes))

/-- Only the bytes themselves matter. -/
theorem Stands.congr (h : memory.Stands a bytes)
    (hread : ∀ i < bytes.length,
      later.read (a + UInt16.ofNat i) = memory.read (a + UInt16.ofNat i)) :
    later.Stands a bytes := by
  induction bytes generalizing a with
  | nil => trivial
  | cons v bytes ih =>
    obtain ⟨hfirst, hrest⟩ := h
    refine ⟨?_, ih hrest fun i hi ↦ ?_⟩
    · rw [← hfirst]
      simpa using hread 0 (Nat.succ_pos _)
    · rw [add_one_add_ofNat]
      exact hread (i + 1) (Nat.succ_lt_succ hi)

theorem stands_of_read (h : ∀ i (hi : i < bytes.length),
    memory.read (a + UInt16.ofNat i) = bytes[i]) : memory.Stands a bytes := by
  induction bytes generalizing a with
  | nil => trivial
  | cons v bytes ih =>
    refine ⟨?_, ih fun i hi ↦ ?_⟩
    · simpa using h 0 (Nat.succ_pos _)
    · rw [add_one_add_ofNat]
      exact h (i + 1) (Nat.succ_lt_succ hi)

theorem Stands.drop (h : memory.Stands a bytes) (n : Nat) :
    memory.Stands (a + UInt16.ofNat n) (bytes.drop n) := by
  induction n generalizing a bytes with
  | zero => simpa using h
  | succ n ih =>
    cases bytes with
    | nil => trivial
    | cons v bytes =>
      rw [← add_one_add_ofNat]
      exact ih h.2

theorem Stands.take (h : memory.Stands a bytes) (n : Nat) : memory.Stands a (bytes.take n) := by
  induction n generalizing a bytes with
  | zero => trivial
  | succ n ih =>
    cases bytes with
    | nil => trivial
    | cons v bytes => exact ⟨h.1, ih h.2⟩

/-- A placed image stands where it was placed. -/
theorem stands_load (h : memory.load a bytes = .ok later) : later.Stands a bytes := by
  have hfits : a.toNat + bytes.length ≤ size := by
    by_contra hlarge
    rw [load_eq_error (Nat.lt_of_not_le hlarge)] at h
    cases h
  refine stands_of_read fun i hi ↦ ?_
  have hnat : (a + UInt16.ofNat i).toNat = a.toNat + i := toNat_add_ofNat (by omega)
  have hle : a ≤ a + UInt16.ofNat i := UInt16.le_iff_toNat_le.2 (hnat ▸ Nat.le_add_right _ i)
  rw [read_load h, if_pos hle, hnat, Nat.add_sub_cancel_left, List.getD_eq_getElem?_getD,
    List.getElem?_eq_getElem hi, Option.getD_some]

end Memory

namespace Machine

/-- A number of steps lead to a machine and take a number of cycles. -/
structure Leads (machine : Machine) (n : Nat) (later : Machine) (cycles : Nat) : Prop where
  goes : machine.Goes n
  after_eq : machine.after n = later
  costs_eq : machine.costs n = cycles

namespace Leads

variable {m₁ m₂ m₃ : Machine} {n n' cycles cycles' : Nat}

protected theorem trans (h : m₁.Leads n m₂ cycles) (h' : m₂.Leads n' m₃ cycles') :
    m₁.Leads (n + n') m₃ (cycles + cycles') := by
  obtain ⟨hgoes, rfl, rfl⟩ := h
  obtain ⟨hgoes', rfl, rfl⟩ := h'
  exact ⟨hgoes.add hgoes', m₁.after_add n n', m₁.costs_add n n'⟩

/-- The report of a run of these steps. -/
theorem answer_run (h : m₁.Leads n m₂ cycles) (hcycles : cycles ≤ RunReport.maxCycles)
    (verbosity : Verbosity) :
    (m₁.run verbosity n).answer = { steps := n, cycles := cycles, error := none } := by
  rw [Machine.answer_run verbosity h.goes, h.costs_eq, Nat.min_eq_left hcycles]

/-- A run of that many steps leaves the machine that is led to. -/
theorem state_run (h : m₁.Leads n m₂ cycles) (verbosity : Verbosity) :
    (m₁.run verbosity n).state = m₂ :=
  (Machine.state_run verbosity n).trans h.after_eq

end Leads

variable {machine : Machine} {i : Instruction}

def withRegisters (machine : Machine) (r : Registers) : Machine :=
  { machine with cpu := { machine.cpu with toRegisters := r } }

/-- The step that a documented instruction makes. -/
theorem leads_one {e : Effect} (hdecode : .decode (machine.memory.read machine.cpu.pc) = i)
    (hi : i.isUndocumented = false) (he : machine.cpu.effect machine.memory i = e) :
    machine.Leads 1
      ⟨(machine.cpu.carryOut machine.memory e).1, (machine.cpu.carryOut machine.memory e).2,
        machine.config⟩ (i.cycles e.taken) := by
  have hinstruction : machine.instruction = i := instruction_of_fetched hdecode hi
  have hsteps : machine.steps = true := steps_of_fetched hdecode hi
  have heffect : machine.effect = e := by rw [effect, hinstruction, he]
  have hnext := next_of_steps hsteps
  refine ⟨goes_succ_iff.2 ⟨hsteps, goes_zero⟩, ?_, ?_⟩
  · rw [heffect] at hnext
    exact hnext
  · rw [costs, costs, cost_of_steps hsteps, heffect, hinstruction]
    rfl

/-- The register file past an instruction without operand bytes. -/
def advance (machine : Machine) : Registers :=
  { machine.cpu.toRegisters with pc := machine.cpu.pc + 1 }

/-- An instruction without operand bytes takes its data from the registers and from memory. -/
theorem effect_of_plain (h : i.operandBytes = 0) : machine.cpu.effect machine.memory i =
    i.execute machine.advance 0 ((i.source machine.advance 0).load machine.memory).1 := by
  have hadvanced : machine.cpu.advanced i = machine.advance := by
    rw [Cpu.advanced, h, advance]
    simp
  have hoperand : machine.cpu.operand machine.memory i = 0 := by
    rw [Cpu.operand, h, Location.load_ofLength_zero]
  rw [Cpu.effect, hadvanced, hoperand]

variable {r : Registers} {cycles : Nat} (hdecode : .decode (machine.memory.read machine.cpu.pc) = i)
  (hi : i.isUndocumented = false) (hcycles : i.cycles false = cycles)

include hdecode hi hcycles

/-- The step of an instruction that changes registers only. -/
theorem leads_of_nowhere (he : machine.cpu.effect machine.memory i = { registers := r }) :
    machine.Leads 1 (machine.withRegisters r) cycles := by
  have hleads := leads_one hdecode hi he
  rw [hcycles] at hleads
  exact hleads

/-- The step of an instruction that stores a byte where it may be written. -/
theorem leads_of_byte {a : UInt16} {v : UInt8} (hram : machine.memory.map.region a = .ram)
    (he : machine.cpu.effect machine.memory i =
      { registers := r, target := .byte a, value := v.toUInt16 }) :
    machine.Leads 1 { machine.withRegisters r with memory := machine.memory.set a v } cycles := by
  have hleads := leads_one hdecode hi he
  have hwrite := Memory.write_of_accepted (v := v) (MemoryMap.refusal?_eq_none_iff_region.2 hram)
  simp only [Cpu.carryOut, Location.store_byte, lowByte_toUInt16, Bus.write_memory, hwrite,
    hcycles] at hleads
  exact hleads

end Machine

end Intel8080
