import Intel8080.Proofs.Cpu.Accesses

/-!
# The order of accesses

Whatever the bus answers, a step that is made fetches its opcode byte and its operand, then reads
its data, and only then writes; what it does is settled by what it has read. Main statements:
`exists_accessed_perform`, the accesses of an instruction part by part, `Recorder.Alike.perform`,
an instruction does the same on two buses that answer reads alike, and `keepsOrder`, both of every
step.
-/

namespace Intel8080

/-- The access with the answer to a write forgotten. -/
def Access.unjudged : Access → Access
  | read a v => read a v
  | write a v _ => write a v none

namespace Location

/-- Accesses that read a place byte by byte and are answered the bytes of a number. -/
inductive ReadBy : Location → UInt16 → List Access → Prop
  | nowhere : ReadBy nowhere 0 []
  | byte (a : UInt16) (v : UInt8) : ReadBy (byte a) v.toUInt16 [.read a v]
  | word (a : UInt16) (low high : UInt8) :
    ReadBy (word a) (wordOf high low) [.read a low, .read (a + 1) high]

/-- Accesses that write the bytes of a number to a place, whatever is answered to each. -/
inductive WrittenBy : Location → UInt16 → List Access → Prop
  | nowhere (value : UInt16) : WrittenBy nowhere value []
  | byte (a value : UInt16) (fault : Option WriteFault) :
    WrittenBy (byte a) value [.write a (lowByte value) fault]
  | word (a value : UInt16) (lowFault highFault : Option WriteFault) :
    WrittenBy (word a) value
      [.write a (lowByte value) lowFault, .write (a + 1) (highByte value) highFault]

variable {place : Location} {value : UInt16} {accesses : List Access}

theorem ReadBy.map_address (h : place.ReadBy value accesses) :
    accesses.map Access.address = place.addresses := by
  cases h <;> rfl

theorem WrittenBy.map_address (h : place.WrittenBy value accesses) :
    accesses.map Access.address = place.addresses := by
  cases h <;> rfl

section Recorder

variable {σ : Type} [Bus σ]

/-- What a load yields is what the bus answered. -/
theorem exists_readBy_load (place : Location) (recorder : Recorder σ) :
    ∃ accesses, (place.load recorder).2.accesses = recorder.accesses ++ accesses ∧
      place.ReadBy (place.load recorder).1 accesses := by
  cases place with
  | nowhere => exact ⟨[], (List.append_nil _).symm, .nowhere⟩
  | byte a => exact ⟨_, rfl, .byte a _⟩
  | word a => exact ⟨_, List.append_assoc .., .word a _ _⟩

/-- All bytes are offered to the bus, whatever it refuses. -/
theorem exists_writtenBy_store (place : Location) (value : UInt16) (recorder : Recorder σ) :
    ∃ accesses, (place.store value recorder).2.accesses = recorder.accesses ++ accesses ∧
      place.WrittenBy value accesses := by
  cases place with
  | nowhere => exact ⟨[], (List.append_nil _).symm, .nowhere value⟩
  | byte a => exact ⟨_, rfl, .byte a value _⟩
  | word a => exact ⟨_, List.append_assoc .., .word a value _ _⟩

end Recorder

/-- Up to two bytes lie at an address and the one after it. -/
theorem addresses_ofLength {n : Nat} (hn : n ≤ 2) (a : UInt16) :
    (ofLength n a).addresses = [a, a + 1].take n := by
  match n, hn with
  | 0, _ | 1, _ | 2, _ => rfl

end Location

/-- A byte operand is stored at one address at most. -/
theorem Registers.length_addresses_assign_le (r : Registers) (dst : Register) (v : UInt8) :
    (r.assign dst v).target.addresses.length ≤ 1 := by
  cases dst <;> simp [assign]

theorem Instruction.operandBytes_of_isUndocumented {i : Instruction}
    (h : i.isUndocumented = true) : i.operandBytes = 0 := by
  obtain ⟨like, rfl⟩ := exists_eq_undocumented h
  rfl

/-- An instruction accesses at most four bytes after its opcode byte. -/
theorem Instruction.length_addresses_le (i : Instruction) (r : Registers) (operand data : UInt16) :
    i.operandBytes + (i.source r operand).addresses.length +
      (i.execute r operand data).target.addresses.length ≤ 4 := by
  cases i with
  | mov dst src =>
    have := r.length_addresses_assign_le dst (r.get (lowByte data) src)
    cases src <;> simp [operandBytes, source, execute] <;> omega
  | mvi dst =>
    have := r.length_addresses_assign_le dst (lowByte operand)
    simp [operandBytes, source, execute]
    omega
  | inr x =>
    cases x <;> simp [operandBytes, source, execute, Registers.assign]
  | dcr x =>
    cases x <;> simp [operandBytes, source, execute, Registers.assign]
  | alu op src => cases src <;> simp [operandBytes, source, execute]
  | jump condition | call condition | ret condition =>
    cases h : r.taken condition <;>
      simp [operandBytes, source, execute, h, Registers.callTo, Registers.push]
  | _ => simp [operandBytes, source, execute, Registers.callTo, Registers.push]

/-! ## What an instruction accesses -/

namespace Cpu

variable {σ τ : Type} [Bus σ] [Bus τ] (cpu : Cpu)

/-- The accesses of an instruction after its opcode byte, in three parts: what they are answered
settles where the data stand, and what is written where. -/
structure Accessed (i : Instruction) (operand data : UInt16)
    (fetches reads writes : List Access) : Prop where
  fetched : (cpu.operandPlace i).ReadBy operand fetches
  read : (i.source (cpu.advanced i) operand).ReadBy data reads
  written : (i.execute (cpu.advanced i) operand data).target.WrittenBy
    (i.execute (cpu.advanced i) operand data).value writes

variable {cpu} {i : Instruction} {operand data : UInt16} {fetches reads writes : List Access}

/-- Operand bytes are fetched from behind the opcode byte. -/
theorem Accessed.map_address_fetches (h : cpu.Accessed i operand data fetches reads writes) :
    fetches.map Access.address = [cpu.pc + 1, cpu.pc + 2].take i.operandBytes := by
  rw [h.fetched.map_address, operandPlace, Location.addresses_ofLength i.operandBytes_le_two,
    UInt16.add_assoc]
  rfl

/-- An instruction with a word in memory to read and one to write has no operand bytes. -/
theorem Accessed.length_le (h : cpu.Accessed i operand data fetches reads writes) :
    (fetches ++ reads ++ writes).length ≤ 4 := by
  have hfetches := congrArg List.length h.map_address_fetches
  have hreads := congrArg List.length h.read.map_address
  have hwrites := congrArg List.length h.written.map_address
  have hbound := i.length_addresses_le (cpu.advanced i) operand data
  rw [List.length_map] at hfetches hreads hwrites
  rw [List.length_append, List.length_append, hfetches, hreads, hwrites, List.length_take]
  omega

variable (cpu) in
/-- The accesses of an instruction, and what it leaves and costs by what they are answered. -/
theorem exists_accessed_perform (i : Instruction) (recorder : Recorder σ) :
    ∃ operand data fetches reads writes,
      let e := i.execute (cpu.advanced i) operand data
      cpu.Accessed i operand data fetches reads writes ∧
        (cpu.perform i recorder).state.2.accesses =
          recorder.accesses ++ (fetches ++ reads ++ writes) ∧
        (cpu.perform i recorder).state.1.toRegisters = e.registers ∧
        (cpu.perform i recorder).answer = i.cycles e.taken := by
  let first := (cpu.operandPlace i).load recorder
  let second := (i.source (cpu.advanced i) first.1).load first.2
  let e := i.execute (cpu.advanced i) first.1 second.1
  obtain ⟨fetches, hfetches, hfetched⟩ := (cpu.operandPlace i).exists_readBy_load recorder
  obtain ⟨reads, hreads, hread⟩ :=
    (i.source (cpu.advanced i) first.1).exists_readBy_load first.2
  obtain ⟨writes, hwrites, hwritten⟩ := e.target.exists_writtenBy_store e.value second.2
  refine ⟨first.1, second.1, fetches, reads, writes, ⟨hfetched, hread, hwritten⟩, ?_, rfl, rfl⟩
  calc (cpu.perform i recorder).state.2.accesses
      = (e.target.store e.value second.2).2.accesses := rfl
    _ = recorder.accesses ++ fetches ++ reads ++ writes := by rw [hwrites, hreads, hfetches]
    _ = recorder.accesses ++ (fetches ++ reads ++ writes) := by simp only [List.append_assoc]

end Cpu

/-! ## Buses that answer reads alike -/

section ReadsAlike

variable {σ τ : Type} [Bus σ] [Bus τ]

/-- What a bus answers to reads one after the other. -/
def Bus.answers : List UInt16 → σ → List UInt8
  | [], _ => []
  | a :: later, bus => (Bus.read a bus).1 :: answers later (Bus.read a bus).2

/-- As long as nothing is written, another bus answers reads as a bus does. -/
def ReadsAlike (bus : σ) (other : τ) : Prop :=
  ∀ addresses, Bus.answers addresses other = Bus.answers addresses bus

variable {bus : σ} {other : τ}

theorem ReadsAlike.fst_read (h : ReadsAlike bus other) (a : UInt16) :
    (Bus.read a other).1 = (Bus.read a bus).1 :=
  (List.cons.inj (h [a])).1

theorem ReadsAlike.snd_read (h : ReadsAlike bus other) (a : UInt16) :
    ReadsAlike (Bus.read a bus).2 (Bus.read a other).2 :=
  fun later ↦ (List.cons.inj (h (a :: later))).2

/-- Two buses that answer reads alike, with the same accesses on record but for the answers to
writes. -/
structure Recorder.Alike (recorder : Recorder σ) (other : Recorder τ) : Prop where
  readsAlike : ReadsAlike recorder.bus other.bus
  map_unjudged : other.accesses.map Access.unjudged = recorder.accesses.map Access.unjudged

theorem ReadsAlike.start (h : ReadsAlike bus other) :
    (Recorder.start bus).Alike (Recorder.start other) := ⟨h, rfl⟩

namespace Recorder.Alike

variable {recorder : Recorder σ} {other : Recorder τ} (h : recorder.Alike other)

include h

theorem fst_read (a : UInt16) : (Bus.read a other).1 = (Bus.read a recorder).1 :=
  h.readsAlike.fst_read a

theorem snd_read (a : UInt16) : (Bus.read a recorder).2.Alike (Bus.read a other).2 := by
  refine ⟨h.readsAlike.snd_read a, ?_⟩
  rw [accesses_snd_read, accesses_snd_read, List.map_append, List.map_append, h.map_unjudged,
    h.readsAlike.fst_read]

theorem fst_load (place : Location) : (place.load other).1 = (place.load recorder).1 := by
  cases place with
  | nowhere => rfl
  | byte a => rw [Location.load_byte, Location.load_byte, h.fst_read]
  | word a => rw [Location.load_word, Location.load_word, h.fst_read, (h.snd_read a).fst_read]

theorem snd_load (place : Location) : (place.load recorder).2.Alike (place.load other).2 := by
  cases place with
  | nowhere => exact h
  | byte a => exact h.snd_read a
  | word a => exact (h.snd_read a).snd_read (a + 1)

/-- The same bytes are written to the same addresses, whatever is answered. -/
theorem map_unjudged_store (place : Location) (value : UInt16) :
    (place.store value other).2.accesses.map Access.unjudged =
      (place.store value recorder).2.accesses.map Access.unjudged := by
  cases place <;> simp [Location.store_byte, Location.store_word, Access.unjudged, h.map_unjudged]

/-- An instruction costs and leaves the same, whatever is answered to its writes. -/
theorem perform (cpu : Cpu) (i : Instruction) :
    (cpu.perform i other).answer = (cpu.perform i recorder).answer ∧
      (cpu.perform i other).state.1.toRegisters =
        (cpu.perform i recorder).state.1.toRegisters ∧
      (cpu.perform i other).state.2.accesses.map Access.unjudged =
        (cpu.perform i recorder).state.2.accesses.map Access.unjudged := by
  have hfetched := h.snd_load (.ofLength i.operandBytes (cpu.pc + 1))
  simp only [Cpu.perform, h.fst_load, hfetched.fst_load, true_and]
  exact (hfetched.snd_load _).map_unjudged_store _ _

/-- A refusal reads only, so what it shows is the same. -/
theorem refuse (cpu : Cpu) (opcode : UInt8) :
    (cpu.refuse opcode other).answer = (cpu.refuse opcode recorder).answer ∧
      (cpu.refuse opcode other).state.2.accesses.map Access.unjudged =
        (cpu.refuse opcode recorder).state.2.accesses.map Access.unjudged := by
  have hfirst := h.snd_read cpu.pc
  have hsecond := hfirst.snd_read (cpu.pc + 1)
  simp only [Cpu.refuse, h.fst_read, hfirst.fst_read, hsecond.fst_read, true_and]
  exact (hsecond.snd_read _).map_unjudged

/-- A step, too, answers, leaves and accesses the same, whatever is answered to its writes. -/
theorem step (cpu : Cpu) :
    (cpu.step other).answer = (cpu.step recorder).answer ∧
      (cpu.step other).state.1.toRegisters = (cpu.step recorder).state.1.toRegisters ∧
      (cpu.step other).state.2.accesses.map Access.unjudged =
        (cpu.step recorder).state.2.accesses.map Access.unjudged := by
  have hopcode := h.fst_read cpu.pc
  have hnext := h.snd_read cpu.pc
  cases haccepted : cpu.accepts (.decode (Bus.read cpu.pc recorder).1) with
  | true =>
    rw [Cpu.step_of_accepted haccepted, Cpu.step_of_accepted (by rwa [hopcode]), hopcode]
    obtain ⟨hanswer, hregisters, haccesses⟩ := hnext.perform cpu
      (Instruction.decode (Bus.read cpu.pc recorder).1).executed
    exact ⟨congrArg Except.ok hanswer, hregisters, haccesses⟩
  | false =>
    rw [Cpu.step_of_refused haccepted, Cpu.step_of_refused (by rwa [hopcode]), hopcode]
    obtain ⟨hanswer, haccesses⟩ := hnext.refuse cpu (Bus.read cpu.pc recorder).1
    exact ⟨hanswer, rfl, haccesses⟩

end Recorder.Alike

end ReadsAlike

/-! ## Steps -/

namespace Cpu

/-- A step on a memory reads what the memory holds before it. -/
theorem eq_read_of_mem_accesses_step {cpu : Cpu} {memory : Memory} {a : UInt16} {v : UInt8}
    (h : .read a v ∈ (cpu.step (Recorder.start memory)).state.2.accesses) : v = memory.read a := by
  cases haccepted : cpu.accepts (cpu.fetched memory) with
  | true =>
    rw [accesses_step_of_accepted haccepted] at h
    simp only [Location.readings, Location.writings, List.mem_cons, List.mem_append, List.mem_map,
      Access.read.injEq, reduceCtorEq, and_false, exists_false, or_false] at h
    rcases h with ⟨rfl, rfl⟩ | ⟨b, -, rfl, rfl⟩ | ⟨b, -, rfl, rfl⟩ <;> rfl
  | false =>
    rw [accesses_step_of_refused haccepted] at h
    simp only [List.mem_cons, List.not_mem_nil, or_false, Access.read.injEq] at h
    rcases h with ⟨rfl, rfl⟩ | ⟨rfl, rfl⟩ | ⟨rfl, rfl⟩ | ⟨rfl, rfl⟩ <;> rfl

variable {σ : Type} [Bus σ]

/-- The accesses of the next step on a bus, in their order. -/
def accesses (cpu : Cpu) (bus : σ) : List Access :=
  (cpu.step (Recorder.start bus)).state.2.accesses

/-- The next step reads before it writes, and no answer to a write has a part in what it does. -/
structure KeepsOrder (cpu : Cpu) (bus : σ) : Prop where
  /-- Recording the accesses does not change the step. -/
  recorded : (cpu.step (Recorder.start bus)).answer = (cpu.step bus).answer ∧
    (cpu.step (Recorder.start bus)).state.1 = (cpu.step bus).state.1 ∧
    (cpu.step (Recorder.start bus)).state.2.bus = (cpu.step bus).state.2
  /-- A step that is made fetches its opcode byte, fetches as many operand bytes as the documented
  instruction has that it runs (an undocumented byte has none of its own), reads a byte or a word or
  nothing, and writes a byte or a word or nothing. What these reads are answered settles the
  registers, the cost and the bytes written. -/
  made : ∀ cycles, (cpu.step bus).answer = .ok cycles →
    ∃ opcode operand data fetches reads writes,
      let i := (Instruction.decode opcode).executed
      let e := i.execute (cpu.advanced i) operand data
      cpu.accesses bus = .read cpu.pc opcode :: (fetches ++ reads ++ writes) ∧
        fetches.map Access.address = [cpu.pc + 1, cpu.pc + 2].take i.operandBytes ∧
        ((Instruction.decode opcode).isUndocumented = true →
          (Instruction.decode opcode).operandBytes = 0) ∧
        cpu.Accessed i operand data fetches reads writes ∧
        (cpu.step bus).state.1.toRegisters = e.registers ∧ cycles = i.cycles e.taken
  length_le : (cpu.accesses bus).length ≤ 5
  /-- A step that is refused reads its opcode byte, reads it again with the two bytes after it, and
  writes nothing. -/
  refused : ∀ error, (cpu.step bus).answer = .error error → ∃ opcode first second third,
    cpu.accesses bus = [.read cpu.pc opcode, .read cpu.pc first, .read (cpu.pc + 1) second,
      .read (cpu.pc + 2) third]
  /-- On another bus that answers reads alike, and writes in any way, a step answers the same,
  leaves the same processor but for the log of faults, and makes the same accesses. -/
  alike : ∀ {τ : Type} [Bus τ] (other : τ), ReadsAlike bus other →
    (cpu.step other).answer = (cpu.step bus).answer ∧
      (cpu.step other).state.1 =
        { (cpu.step bus).state.1 with faults := (cpu.step other).state.1.faults } ∧
      (cpu.accesses other).map Access.unjudged = (cpu.accesses bus).map Access.unjudged
  /-- On a bus that reads as a memory does, a step sees what the memory holds before it. -/
  held : ∀ memory : Memory, ReadsAlike memory bus →
    ∀ a v, .read a v ∈ cpu.accesses bus → v = memory.read a

variable {cpu : Cpu} {bus : σ}

/-- A step that is made fetches, then reads, then writes. -/
theorem accesses_of_accepted (h : cpu.accepts (.decode (Bus.read cpu.pc bus).1) = true) :
    ∃ operand data fetches reads writes,
      let i := (Instruction.decode (Bus.read cpu.pc bus).1).executed
      let e := i.execute (cpu.advanced i) operand data
      cpu.Accessed i operand data fetches reads writes ∧
        cpu.accesses bus =
          .read cpu.pc (Bus.read cpu.pc bus).1 :: (fetches ++ reads ++ writes) ∧
        (cpu.step bus).state.1.toRegisters = e.registers ∧
        (cpu.step bus).answer = .ok (i.cycles e.taken) := by
  have hrecorded : cpu.accepts (.decode (Bus.read cpu.pc (Recorder.start bus)).1) = true := h
  obtain ⟨hanswer, -, hcpu, -⟩ := cpu.step_recorder (Recorder.start bus)
  obtain ⟨operand, data, fetches, reads, writes, haccessed, haccesses, hregisters, hcycles⟩ :=
    cpu.exists_accessed_perform (Instruction.decode (Bus.read cpu.pc bus).1).executed
      (Bus.read cpu.pc (Recorder.start bus)).2
  rw [step_of_accepted hrecorded] at hanswer hcpu
  refine ⟨operand, data, fetches, reads, writes, haccessed, ?_, ?_, ?_⟩
  · rw [accesses, step_of_accepted hrecorded]
    exact haccesses
  · exact (congrArg Cpu.toRegisters hcpu).symm.trans hregisters
  · exact hanswer.symm.trans (congrArg Except.ok hcycles)

/-- A step that is refused reads its opcode byte and then the bytes that it shows. -/
theorem accesses_of_refused (h : cpu.accepts (.decode (Bus.read cpu.pc bus).1) = false) :
    ∃ first second third, cpu.accesses bus =
      [.read cpu.pc (Bus.read cpu.pc bus).1, .read cpu.pc first, .read (cpu.pc + 1) second,
        .read (cpu.pc + 2) third] := by
  have hrecorded : cpu.accepts (.decode (Bus.read cpu.pc (Recorder.start bus)).1) = false := h
  rw [accesses, step_of_refused hrecorded]
  exact ⟨_, _, _, rfl⟩

variable (cpu) in

/-- How writes are answered has no part in a step but in the log of refused writes. -/
theorem alike_of_readsAlike {τ : Type} [Bus τ] {other : τ} (h : ReadsAlike bus other) :
    (cpu.step other).answer = (cpu.step bus).answer ∧
      (cpu.step other).state.1 =
        { (cpu.step bus).state.1 with faults := (cpu.step other).state.1.faults } ∧
      (cpu.accesses other).map Access.unjudged = (cpu.accesses bus).map Access.unjudged := by
  obtain ⟨hanswer, -, hcpu, -⟩ := cpu.step_recorder (Recorder.start bus)
  obtain ⟨hanswer', -, hcpu', -⟩ := cpu.step_recorder (Recorder.start other)
  obtain ⟨hsame, hregisters, haccesses⟩ := h.start.step cpu
  rw [hanswer, hanswer'] at hsame
  rw [hcpu, hcpu'] at hregisters
  refine ⟨hsame, ?_, haccesses⟩
  have hpolicy := (cpu.policy_step other).trans (cpu.policy_step bus).symm
  exact congrArg₂ (fun r p ↦ Cpu.mk r p (cpu.step other).state.1.faults) hregisters hpolicy

/-- Every step keeps the order, whatever the bus answers. -/
theorem keepsOrder (cpu : Cpu) (bus : σ) : cpu.KeepsOrder bus where
  recorded := by
    obtain ⟨hanswer, -, hcpu, hbus⟩ := cpu.step_recorder (Recorder.start bus)
    exact ⟨hanswer, hcpu, hbus⟩
  made cycles hanswer := by
    have haccepted : cpu.accepts (.decode (Bus.read cpu.pc bus).1) = true := by
      rw [← isOk_step, hanswer]
      rfl
    obtain ⟨operand, data, fetches, reads, writes, haccessed, haccesses, hregisters, hcycles⟩ :=
      accesses_of_accepted haccepted
    rw [hanswer, Except.ok.injEq] at hcycles
    exact ⟨_, operand, data, fetches, reads, writes, haccesses, haccessed.map_address_fetches,
      Instruction.operandBytes_of_isUndocumented, haccessed, hregisters, hcycles⟩
  length_le := by
    cases h : cpu.accepts (.decode (Bus.read cpu.pc bus).1) with
    | true =>
      obtain ⟨_, _, _, _, _, haccessed, haccesses, -⟩ := accesses_of_accepted h
      rw [haccesses, List.length_cons]
      exact Nat.succ_le_succ haccessed.length_le
    | false =>
      obtain ⟨_, _, _, haccesses⟩ := accesses_of_refused h
      rw [haccesses]
      exact Nat.le_succ 4
  refused error hanswer := by
    have hrefused : cpu.accepts (.decode (Bus.read cpu.pc bus).1) = false := by
      rw [← isOk_step, hanswer]
      rfl
    exact ⟨_, accesses_of_refused hrefused⟩
  alike other h := cpu.alike_of_readsAlike h
  held memory h a v hread := by
    obtain ⟨-, -, haccesses⟩ := cpu.alike_of_readsAlike h
    have hmem : .read a v ∈ (cpu.accesses memory).map Access.unjudged :=
      haccesses ▸ List.mem_map_of_mem (f := Access.unjudged) hread
    obtain ⟨access, haccess, heq⟩ := List.mem_map.1 hmem
    cases access with
    | read b w =>
      cases heq
      exact eq_read_of_mem_accesses_step haccess
    | write b w fault => cases heq

end Cpu

end Intel8080
