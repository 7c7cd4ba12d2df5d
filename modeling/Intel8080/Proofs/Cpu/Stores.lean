import Intel8080.Proofs.Cpu.Step

/-!
# What a step stores

Only eleven kinds of instruction store anything, each a byte or a word at a place that its registers
and its operand settle. Main statements: `writes_step`, the writes that a step issues are these and
no others, each judged on its own by the memory map; `read_step` and `faults_step`, what a step does
to the memory and to the log of refused writes; and `step_recorder`, recording a step does not
change it.
-/

namespace Intel8080

namespace Instruction

/-- The bytes that an instruction stores, with their addresses and in their order. The program
counter is past the instruction, and `m` is the byte that HL points at. -/
def stores (i : Instruction) (r : Registers) (operand : UInt16) (m : UInt8) :
    List (UInt16 × UInt8) :=
  match i with
  | mov .m src => [(r.hl, r.get m src)]
  | mvi .m => [(r.hl, lowByte operand)]
  | inr .m => [(r.hl, m + 1)]
  | dcr .m => [(r.hl, m - 1)]
  | sta => [(operand, r.a)]
  | stax pointer => [(r.pair pointer, r.a)]
  | shld => [(operand, r.l), (operand + 1, r.h)]
  | xthl => [(r.sp, r.l), (r.sp + 1, r.h)]
  | push p => (Location.word (r.sp - 2)).bytes (r.stackPair p)
  | call condition => if r.taken condition then (Location.word (r.sp - 2)).bytes r.pc else []
  | rst _ => (Location.word (r.sp - 2)).bytes r.pc
  | _ => []

end Instruction

/-- An assignment stores a byte at HL or none. -/
theorem Registers.bytes_assign (r : Registers) (dst : Register) (v : UInt8) :
    (r.assign dst v).target.bytes (r.assign dst v).value =
      if dst = .m then [(r.hl, v)] else [] := by
  cases dst <;> simp [assign]

/-- A pushed word lies right below the stack pointer. -/
theorem Registers.bytes_push (r : Registers) (w : UInt16) :
    (r.push w).target.bytes (r.push w).value = (Location.word (r.sp - 2)).bytes w := rfl

namespace Instruction

/-- The effect of an instruction stores the bytes that the instruction does. -/
theorem bytes_execute (i : Instruction) (r : Registers) (operand : UInt16) (memory : Memory) :
    let e := i.execute r operand ((i.source r operand).load memory).1
    e.target.bytes e.value = i.stores r operand (memory.read r.hl) := by
  cases i with
  | mov dst src =>
    cases dst with
    | m =>
      refine (Registers.bytes_assign r .m _).trans ?_
      cases src <;> simp [source, stores, Registers.get]
    | _ => exact Registers.bytes_assign r _ _
  | mvi dst => cases dst <;> exact Registers.bytes_assign r _ _
  | inr x =>
    cases x with
    | m =>
      refine (Registers.bytes_assign _ _ _).trans ?_
      rw [if_pos rfl]
      simp [source, stores, Registers.get, Registers.hl]
    | _ => exact Registers.bytes_assign _ _ _
  | dcr x =>
    cases x with
    | m =>
      refine (Registers.bytes_assign _ _ _).trans ?_
      rw [if_pos rfl]
      simp [source, stores, Registers.get, Registers.hl]
    | _ => exact Registers.bytes_assign _ _ _
  | call condition =>
    cases h : r.taken condition with
    | true =>
      simp only [execute, stores, h, if_true]
      exact r.bytes_push r.pc
    | false => simp [execute, stores, h]
  | ret condition =>
    cases h : r.taken condition <;> simp [execute, stores, h]
  | push p => exact r.bytes_push (r.stackPair p)
  | rst vector => exact r.bytes_push r.pc
  | _ => simp [execute, stores, Registers.hl]

end Instruction

namespace Cpu

variable (cpu : Cpu) (memory : Memory)

/-- The bytes that the instruction at the program counter stores, none if it is refused. -/
def stores : List (UInt16 × UInt8) :=
  let i := (cpu.fetched memory).executed
  if cpu.accepts (cpu.fetched memory) then
    i.stores (cpu.advanced i) (cpu.operand memory i) (memory.read cpu.hl)
  else []

variable {cpu memory}

/-- What is stored is the target of the effect with its value. -/
theorem stores_of_accepted (h : cpu.accepts (cpu.fetched memory) = true) :
    let e := cpu.effect memory (cpu.fetched memory).executed
    cpu.stores memory = e.target.bytes e.value := by
  rw [stores, if_pos h]
  exact (Instruction.bytes_execute _ _ _ memory).symm

theorem stores_of_refused (h : cpu.accepts (cpu.fetched memory) = false) :
    cpu.stores memory = [] := by
  rw [stores, h]
  rfl

/-- No step stores to one address twice. -/
theorem lookup_stores {a : UInt16} {v : UInt8} (h : (a, v) ∈ cpu.stores memory) :
    (cpu.stores memory).lookup a = some v := by
  cases haccepted : cpu.accepts (cpu.fetched memory) with
  | true =>
    rw [stores_of_accepted haccepted] at h ⊢
    exact Location.lookup_bytes h
  | false =>
    rw [stores_of_refused haccepted] at h
    cases h

/-- A step leaves the bytes it stores where they may be written, and every other byte as it was. -/
theorem read_step (b : UInt16) : (cpu.step memory).state.2.read b =
    if memory.map.region b = .ram then ((cpu.stores memory).lookup b).getD (memory.read b)
    else memory.read b := by
  cases h : cpu.accepts (cpu.fetched memory) with
  | true =>
    rw [step_memory_of_accepted h, stores_of_accepted h]
    exact Location.read_snd_store_memory _ _ memory b
  | false => simp [step_memory_of_refused h, stores_of_refused h]

/-- A stored byte that may be written is read back. -/
theorem read_step_of_mem {a : UInt16} {v : UInt8} (h : (a, v) ∈ cpu.stores memory)
    (hram : memory.map.region a = .ram) : (cpu.step memory).state.2.read a = v := by
  rw [read_step, if_pos hram, lookup_stores h]
  rfl

/-- A byte that is not stored to, or that may not be written, is as it was. -/
theorem read_step_of_forall_ne {b : UInt16}
    (h : memory.map.region b = .ram → ∀ store ∈ cpu.stores memory, store.1 ≠ b) :
    (cpu.step memory).state.2.read b = memory.read b := by
  rw [read_step]
  refine ite_eq_right_iff.2 fun hram ↦ ?_
  rw [List.lookup_eq_none_iff.2 fun store hstore ↦ bne_iff_ne.2 (h hram store hstore).symm]
  rfl

/-- A step records the faults of the bytes it stores. -/
theorem faults_step : (cpu.step memory).state.1.faults =
    cpu.faults.recordAll ((cpu.stores memory).filterMap fun store ↦
      memory.map.refusal? store.1 store.2) := by
  cases h : cpu.accepts (cpu.fetched memory) with
  | true =>
    rw [step_memory_of_accepted h, stores_of_accepted h, ← Location.fst_store_memory]
    rfl
  | false => simp [step_memory_of_refused h, stores_of_refused h]

/-! ## Recorded steps -/

section Recorder

variable {σ : Type} [Bus σ] (cpu : Cpu) (recorder : Recorder σ)

/-- Putting the accesses on record changes nothing about an instruction. -/
theorem perform_recorder (i : Instruction) :
    (cpu.perform i recorder).answer = (cpu.perform i recorder.bus).answer ∧
    (cpu.perform i recorder).events = (cpu.perform i recorder.bus).events ∧
    (cpu.perform i recorder).state.1 = (cpu.perform i recorder.bus).state.1 ∧
    (cpu.perform i recorder).state.2.bus = (cpu.perform i recorder.bus).state.2 := by
  simp [perform]

/-- Recording a step does not change it. -/
theorem step_recorder :
    (cpu.step recorder).answer = (cpu.step recorder.bus).answer ∧
    (cpu.step recorder).events = (cpu.step recorder.bus).events ∧
    (cpu.step recorder).state.1 = (cpu.step recorder.bus).state.1 ∧
    (cpu.step recorder).state.2.bus = (cpu.step recorder.bus).state.2 := by
  cases h : cpu.accepts (.decode (Bus.read cpu.pc recorder.bus).1) with
  | true =>
    obtain ⟨hanswer, hevents, hcpu, hbus⟩ := cpu.perform_recorder (Bus.read cpu.pc recorder).2
      (Instruction.decode (Bus.read cpu.pc recorder.bus).1).executed
    have hrecorded : cpu.accepts (.decode (Bus.read cpu.pc recorder).1) = true := h
    rw [step_of_accepted h, step_of_accepted hrecorded]
    exact ⟨congrArg Except.ok hanswer, congrArg (_ :: ·) hevents, hcpu, hbus⟩
  | false =>
    have hrecorded : cpu.accepts (.decode (Bus.read cpu.pc recorder).1) = false := h
    rw [step_of_refused h, step_of_refused hrecorded]
    simp [refuse]

end Recorder

/-- The writes on record are the stores of the instruction, each judged by the map. -/
theorem writes_perform (cpu : Cpu) (recorder : Recorder Memory) (i : Instruction) :
    (cpu.perform i recorder).state.2.writes =
      recorder.writes ++ ((cpu.effect recorder.bus i).target.bytes
        (cpu.effect recorder.bus i).value).map recorder.bus.map.judge := by
  simp only [perform, Location.writes_store, Location.writes_load, Location.fst_load_recorder,
    Location.bus_load_recorder, Location.snd_load_memory]
  rfl

/-- The writes that a step on a memory issues are those of the bytes its instruction stores, each
judged on its own by the map. -/
theorem writes_step (cpu : Cpu) (memory : Memory) :
    (cpu.step (Recorder.start memory)).state.2.writes =
      (cpu.stores memory).map memory.map.judge := by
  cases h : cpu.accepts (cpu.fetched memory) with
  | true =>
    have hrecorded : cpu.accepts (.decode (Bus.read cpu.pc (Recorder.start memory)).1) = true := h
    rw [step_of_accepted hrecorded, stores_of_accepted h]
    exact cpu.writes_perform (Bus.read cpu.pc (Recorder.start memory)).2 _
  | false =>
    have hrecorded : cpu.accepts (.decode (Bus.read cpu.pc (Recorder.start memory)).1) = false := h
    rw [step_of_refused hrecorded, stores_of_refused h]
    simp [refuse, Recorder.writes, Recorder.start, Access.write?]

end Cpu

end Intel8080
