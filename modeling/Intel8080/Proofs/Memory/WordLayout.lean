import Intel8080.Proofs.Machine.Trace

/-!
# The layout of words in memory

Stores, pushes, calls and exchanges put a word into memory, and loads, pops, returns, exchanges and
operands take one from there, all of them low byte first and with addresses that wrap round at the
top. Main statements: `stores_of_storesWord`, what is put into memory, `view_of_loadsWord`, what is
taken from there, and `sharesLayout`, whatever puts a word into memory, whatever takes one from
there gets it.
-/

namespace Intel8080.Machine

/-- The next step can be made, and runs the instruction. -/
def Runs (machine : Machine) (i : Instruction) : Prop :=
  machine.steps = true ∧ machine.instruction = i

/-- The next step stores a word at an address, as data or on the stack. -/
inductive StoresWord (machine : Machine) (w v : UInt16) : Prop
  | shld (hi : machine.Runs .shld) (haddress : machine.cpu.operand machine.memory .shld = w)
    (hv : machine.cpu.hl = v)
  | push (p : StackPair) (hi : machine.Runs (.push p)) (hsp : machine.cpu.sp = w + 2)
    (hv : machine.cpu.stackPair p = v)
  | call (condition : Option Condition) (hi : machine.Runs (.call condition))
    (htaken : machine.cpu.taken condition = true) (hsp : machine.cpu.sp = w + 2)
    (hv : machine.cpu.pc + 3 = v)
  | rst (vector : Fin 8) (hi : machine.Runs (.rst vector)) (hsp : machine.cpu.sp = w + 2)
    (hv : machine.cpu.pc + 1 = v)
  | xthl (hi : machine.Runs .xthl) (hsp : machine.cpu.sp = w) (hv : machine.cpu.hl = v)

/-- The next step takes the word at an address, as data, from the stack or as its operand, and
shows it in some view of its registers. -/
inductive LoadsWord (machine : Machine) (w : UInt16) : (Registers → UInt16) → Prop
  | lhld (hi : machine.Runs .lhld) (haddress : machine.cpu.operand machine.memory .lhld = w) :
    LoadsWord machine w Registers.hl
  | pop (p : StackPair) (hp : p ≠ .psw) (hi : machine.Runs (.pop p)) (hsp : machine.cpu.sp = w) :
    LoadsWord machine w fun r ↦ r.stackPair p
  | ret (condition : Option Condition) (hi : machine.Runs (.ret condition))
    (htaken : machine.cpu.taken condition = true) (hsp : machine.cpu.sp = w) :
    LoadsWord machine w Registers.pc
  | xthl (hi : machine.Runs .xthl) (hsp : machine.cpu.sp = w) : LoadsWord machine w Registers.hl
  | lxi (p : RegisterPair) (hi : machine.Runs (.lxi p)) (hpc : machine.cpu.pc + 1 = w) :
    LoadsWord machine w fun r ↦ r.pair p
  | jump (condition : Option Condition) (hi : machine.Runs (.jump condition))
    (htaken : machine.cpu.taken condition = true) (hpc : machine.cpu.pc + 1 = w) :
    LoadsWord machine w Registers.pc
  | call (condition : Option Condition) (hi : machine.Runs (.call condition))
    (htaken : machine.cpu.taken condition = true) (hpc : machine.cpu.pc + 1 = w) :
    LoadsWord machine w Registers.pc

variable {machine other : Machine} {i : Instruction} {w v : UInt16} {view : Registers → UInt16}

/-- A documented instruction at the program counter runs, whatever the policy. -/
theorem runs_of_fetched (hi : machine.cpu.fetched machine.memory = i)
    (hdocumented : i.isUndocumented = false) : machine.Runs i :=
  ⟨steps_of_fetched hi hdocumented, instruction_of_fetched hi hdocumented⟩

/-- Fetching an instruction leaves the flags, which decide whether a transfer is taken. -/
theorem taken_advanced (cpu : Cpu) (i : Instruction) (condition : Option Condition) :
    (cpu.advanced i).taken condition = cpu.taken condition := rfl

theorem stores_of_runs (h : machine.Runs i) : machine.cpu.stores machine.memory =
    i.stores (machine.cpu.advanced i) (machine.cpu.operand machine.memory i)
      (machine.memory.read machine.cpu.hl) := by
  obtain ⟨hsteps, rfl⟩ := h
  exact stores_of_steps hsteps

theorem toRegisters_next_of_runs (h : machine.Runs i) :
    machine.next.cpu.toRegisters = (machine.cpu.effect machine.memory i).registers := by
  obtain ⟨hsteps, rfl⟩ := h
  exact toRegisters_next hsteps

/-! ## Putting a word into memory -/

/-- The two bytes of the word are stored, the low one first, and nothing else. -/
theorem stores_of_storesWord (h : machine.StoresWord w v) :
    machine.cpu.stores machine.memory = (Location.word w).bytes v := by
  have hsub : w + 2 - 2 = w := UInt16.add_sub_cancel ..
  cases h with
  | shld hi haddress hv =>
    rw [stores_of_runs hi, ← haddress, ← hv]
    simp [Instruction.stores, Cpu.advanced, Registers.hl]
  | push p hi hsp hv =>
    rw [stores_of_runs hi, ← hv, ← hsub, ← hsp]
    cases p <;> rfl
  | call condition hi htaken hsp hv =>
    have hpc : (machine.cpu.advanced (.call condition)).pc = v := by
      rw [← hv, Cpu.advanced]
      exact UInt16.add_assoc ..
    rw [stores_of_runs hi, Instruction.stores, taken_advanced, if_pos htaken, hpc, ← hsub, ← hsp]
    rfl
  | rst vector hi hsp hv =>
    have hpc : (machine.cpu.advanced (.rst vector)).pc = v := by
      rw [← hv, Cpu.advanced]
      exact UInt16.add_zero _
    rw [stores_of_runs hi, Instruction.stores, hpc, ← hsub, ← hsp]
    rfl
  | xthl hi hsp hv =>
    rw [stores_of_runs hi, ← hsp, ← hv]
    simp [Instruction.stores, Cpu.advanced, Registers.hl]

/-- A step that stores nothing leaves the memory. -/
theorem memory_next_of_stores_eq_nil (h : machine.cpu.stores machine.memory = []) :
    machine.next.memory = machine.memory :=
  Memory.ext (fun _ ↦ Cpu.read_step_of_forall_ne fun _ _ hstore ↦
    absurd (h ▸ hstore) List.not_mem_nil) map_next

/-! ## Taking a word from memory -/

/-- The operand of an instruction that has two operand bytes is the word after its opcode byte. -/
theorem operand_of_operandBytes_eq_two (hi : i.operandBytes = 2) (hpc : machine.cpu.pc + 1 = w) :
    machine.cpu.operand machine.memory i =
      wordOf (machine.memory.read (w + 1)) (machine.memory.read w) := by
  rw [Cpu.operand, hi, Location.load_ofLength_two, hpc]

/-- The word that a step takes shows, with the byte at the address as its low byte. -/
theorem view_of_loadsWord (h : machine.LoadsWord w view) : view machine.next.cpu.toRegisters =
    wordOf (machine.memory.read (w + 1)) (machine.memory.read w) := by
  cases h with
  | lhld hi haddress =>
    rw [toRegisters_next_of_runs hi, ← haddress]
    exact Registers.hl_setHl ..
  | pop p hp hi hsp =>
    rw [toRegisters_next_of_runs hi, ← hsp]
    exact (Registers.stackPair_setStackPair ..).trans (if_neg hp)
  | ret condition hi htaken hsp =>
    rw [toRegisters_next_of_runs hi, Cpu.effect, Instruction.execute, Instruction.source,
      taken_advanced, if_pos htaken, if_pos htaken, ← hsp]
    rfl
  | xthl hi hsp =>
    rw [toRegisters_next_of_runs hi, ← hsp]
    exact Registers.hl_setHl ..
  | lxi p hi hpc =>
    rw [toRegisters_next_of_runs hi, ← operand_of_operandBytes_eq_two (i := .lxi p) rfl hpc]
    exact Registers.pair_setPair ..
  | jump condition hi htaken hpc =>
    rw [toRegisters_next_of_runs hi, Cpu.effect, Instruction.execute, taken_advanced,
      if_pos htaken, ← operand_of_operandBytes_eq_two (i := .jump condition) rfl hpc]
  | call condition hi htaken hpc =>
    rw [toRegisters_next_of_runs hi, Cpu.effect, Instruction.execute, taken_advanced,
      if_pos htaken, ← operand_of_operandBytes_eq_two (i := .call condition) rfl hpc]
    rfl

/-- Of the steps that take a word, only calls and exchanges store anything. -/
theorem stores_of_loadsWord (h : machine.LoadsWord w view) :
    machine.cpu.stores machine.memory = [] ∨ machine.instruction = .xthl ∨
      ∃ condition, machine.instruction = .call condition := by
  cases h with
  | xthl hi => exact .inr (.inl hi.2)
  | call condition hi => exact .inr (.inr ⟨condition, hi.2⟩)
  | _ => exact .inl (stores_of_runs ‹_›)

/-! ## From the one to the other -/

/-- The word that the next step puts into memory lies there low byte first, and whatever takes a
word from the address gets it. -/
structure SharesLayout (machine : Machine) (w v : UInt16) : Prop where
  low_eq : machine.next.memory.read w = lowByte v
  high_eq : machine.next.memory.read (w + 1) = highByte v
  /-- No other byte changes. -/
  kept : ∀ a, a ≠ w → a ≠ w + 1 → machine.next.memory.read a = machine.memory.read a
  /-- Any machine with this memory that takes the word at the address gets the one that was put
  there, whatever its registers are. -/
  obtained : ∀ other : Machine, other.memory = machine.next.memory → ∀ view,
    other.LoadsWord w view → view other.next.cpu.toRegisters = v
  /-- So does any instruction that has the word for its operand. -/
  operand : ∀ other : Machine, other.memory = machine.next.memory → ∀ i : Instruction,
    other.Runs i → i.operandBytes = 2 → other.cpu.pc + 1 = w → other.cpu.operand other.memory i = v
  /-- Unless it is a call or an exchange, what takes the word leaves the memory. -/
  unchanged : ∀ other : Machine, other.memory = machine.next.memory → ∀ view,
    other.LoadsWord w view → other.instruction ≠ .xthl →
      (∀ condition, other.instruction ≠ .call condition) → other.next.memory = other.memory

/-- Whatever puts a word into writable memory, its layout is that of whatever takes one from
there. -/
theorem sharesLayout (hlow : machine.memory.map.region w = .ram)
    (hhigh : machine.memory.map.region (w + 1) = .ram) (h : machine.StoresWord w v) :
    machine.SharesLayout w v := by
  have hstores := stores_of_storesWord h
  have hlow_eq : machine.next.memory.read w = lowByte v :=
    Cpu.read_step_of_mem (hstores ▸ List.mem_cons_self) hlow
  have hhigh_eq : machine.next.memory.read (w + 1) = highByte v :=
    Cpu.read_step_of_mem (hstores ▸ List.mem_cons_of_mem _ List.mem_cons_self) hhigh
  have hword : wordOf (machine.next.memory.read (w + 1)) (machine.next.memory.read w) = v := by
    rw [hlow_eq, hhigh_eq, wordOf_highByte_lowByte]
  refine ⟨hlow_eq, hhigh_eq, fun a ha ha' ↦ ?_, fun other hmemory view hload ↦ ?_,
    fun other hmemory i hi hbytes hpc ↦ ?_, fun other _ view hload hxthl hcall ↦ ?_⟩
  · refine Cpu.read_step_of_forall_ne fun _ store hstore heq ↦ ?_
    rw [hstores] at hstore
    rcases List.mem_cons.1 hstore with rfl | hstore
    · exact ha heq.symm
    · obtain rfl := List.mem_singleton.1 hstore
      exact ha' heq.symm
  · rw [view_of_loadsWord hload, hmemory, hword]
  · rw [operand_of_operandBytes_eq_two hbytes hpc, hmemory, hword]
  · rcases stores_of_loadsWord hload with hnone | heq | ⟨condition, heq⟩
    · exact memory_next_of_stores_eq_nil hnone
    · exact absurd heq hxthl
    · exact absurd heq (hcall condition)

/-- A push in a memory without a guard, with the stack at its bottom: the low byte of the word goes
to the top and the high one to the bottom. -/
def pushAroundTop : Machine where
  cpu := { pc := 0x0100, sp := 0x0001, b := 0x12, c := 0x34 }
  memory := (Memory.zeroed .flat).set 0x0100 0xc5
  config := {}

theorem sharesLayout_pushAroundTop :
    pushAroundTop.memory.map.region 0xffff = .ram ∧
    pushAroundTop.memory.map.region (0xffff + 1) = .ram ∧
    pushAroundTop.StoresWord 0xffff 0x1234 ∧ pushAroundTop.SharesLayout 0xffff 0x1234 :=
  have hlow : pushAroundTop.memory.map.region 0xffff = .ram := by decide
  have hhigh : pushAroundTop.memory.map.region (0xffff + 1) = .ram := by decide
  have hfetched : pushAroundTop.cpu.fetched pushAroundTop.memory = .push .bc :=
    congrArg Instruction.decode (@Memory.read_set_self (.zeroed .flat) ..)
  have hstores : pushAroundTop.StoresWord 0xffff 0x1234 :=
    .push .bc (runs_of_fetched hfetched rfl) (by decide) (by decide)
  ⟨hlow, hhigh, hstores, sharesLayout hlow hhigh hstores⟩

end Intel8080.Machine
