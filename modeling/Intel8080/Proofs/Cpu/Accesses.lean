import Intel8080.Proofs.Cpu.Stores
import Mathlib.Data.List.Basic

/-!
# What a step accesses

A step that is made fetches its opcode byte and its operand, reads its data and then writes. Main
statements: `accesses_step_of_accepted`, these accesses and no others, in this order, are what a
recorder sees, and `effect_congr`, the effect of an instruction depends on no byte but those that it
reads.
-/

namespace Intel8080

def Access.address : Access → UInt16
  | read a _ | write a _ _ => a

namespace Location

/-- The accesses by which a place of a memory is read. -/
def readings (place : Location) (memory : Memory) : List Access :=
  place.addresses.map fun a ↦ .read a (memory.read a)

/-- The accesses by which a value is stored at a place, each judged by the map. -/
def writings (place : Location) (value : UInt16) (map : MemoryMap) : List Access :=
  (place.bytes value).map fun store ↦ .write store.1 store.2 (map.refusal? store.1 store.2)

variable (place : Location) (value : UInt16) (memory : Memory) (recorder : Recorder Memory)

theorem accesses_load : (place.load recorder).2.accesses =
    recorder.accesses ++ place.readings recorder.bus := by
  cases place <;> simp [load_byte, load_word, readings, addresses]

theorem accesses_store : (place.store value recorder).2.accesses =
    recorder.accesses ++ place.writings value recorder.bus.map := by
  cases place <;> simp [store_byte, store_word, writings]

@[simp] theorem map_address_readings :
    (place.readings memory).map Access.address = place.addresses := by
  cases place <;> rfl

@[simp] theorem map_address_writings (map : MemoryMap) :
    (place.writings value map).map Access.address = place.addresses := by
  cases place <;> rfl

theorem map_fst_bytes : (place.bytes value).map Prod.fst = place.addresses := by
  cases place <;> rfl

variable {memory} {later : Memory} {place}

/-- Only the bytes of a place matter to what is read there. -/
theorem fst_load_congr (h : ∀ a ∈ place.addresses, later.read a = memory.read a) :
    (place.load later).1 = (place.load memory).1 := by
  cases place with
  | nowhere => rfl
  | byte a => rw [load_byte_memory, load_byte_memory, h a List.mem_cons_self]
  | word a =>
    rw [load_word_memory, load_word_memory, h a List.mem_cons_self,
      h (a + 1) (List.mem_cons_of_mem _ List.mem_cons_self)]

/-- Only the bytes of a place matter to how it is read. -/
theorem readings_congr (h : ∀ a ∈ place.addresses, later.read a = memory.read a) :
    place.readings later = place.readings memory :=
  List.map_congr_left fun a ha ↦ by rw [h a ha]

/-- Only how the map judges the bytes matters to how they are written. -/
theorem writings_congr {map map' : MemoryMap} (h : ∀ store ∈ place.bytes value,
      map'.refusal? store.1 store.2 = map.refusal? store.1 store.2) :
    place.writings value map' = place.writings value map :=
  List.map_congr_left fun store hstore ↦ by rw [h store hstore]

/-- Only how the map judges the bytes matters to which of them are refused. -/
theorem fst_store_congr (h : ∀ store ∈ place.bytes value,
      later.map.refusal? store.1 store.2 = memory.map.refusal? store.1 store.2) :
    (place.store value later).1 = (place.store value memory).1 := by
  rw [fst_store_memory, fst_store_memory]
  exact List.filterMap_congr h

end Location

namespace Cpu

variable (cpu : Cpu) (memory : Memory) (i : Instruction)

def operandPlace : Location := .ofLength i.operandBytes (cpu.pc + 1)

def dataPlace : Location := i.source (cpu.advanced i) (cpu.operand memory i)

/-- The addresses that an instruction reads after its opcode byte. -/
def readAddresses : List UInt16 :=
  (cpu.operandPlace i).addresses ++ (cpu.dataPlace memory i).addresses

/-- The addresses that an instruction accesses after its opcode byte. -/
def accessedAddresses : List UInt16 :=
  cpu.readAddresses memory i ++ (cpu.effect memory i).target.addresses

/-- An instruction reads its operand, reads its data and stores its result, in this order. -/
theorem accesses_perform (recorder : Recorder Memory) :
    (cpu.perform i recorder).state.2.accesses =
      recorder.accesses ++ (cpu.operandPlace i).readings recorder.bus ++
        (cpu.dataPlace recorder.bus i).readings recorder.bus ++
        (cpu.effect recorder.bus i).target.writings (cpu.effect recorder.bus i).value
          recorder.bus.map := by
  simp only [perform, Location.accesses_store, Location.accesses_load, Location.fst_load_recorder,
    Location.bus_load_recorder, Location.snd_load_memory]
  rfl

variable {cpu memory i}

/-- The accesses of a step that is made, in their order. -/
theorem accesses_step_of_accepted (h : cpu.accepts (cpu.fetched memory) = true) :
    let i := (cpu.fetched memory).executed
    (cpu.step (Recorder.start memory)).state.2.accesses =
      .read cpu.pc (memory.read cpu.pc) ::
        ((cpu.operandPlace i).readings memory ++ (cpu.dataPlace memory i).readings memory ++
          (cpu.effect memory i).target.writings (cpu.effect memory i).value memory.map) := by
  have hrecorded : cpu.accepts (.decode (Bus.read cpu.pc (Recorder.start memory)).1) = true := h
  rw [step_of_accepted hrecorded]
  exact cpu.accesses_perform _ (Bus.read cpu.pc (Recorder.start memory)).2

/-- After the opcode byte, a step accesses the addresses of its instruction. -/
theorem map_address_tail_accesses_step (h : cpu.accepts (cpu.fetched memory) = true) :
    (cpu.step (Recorder.start memory)).state.2.accesses.tail.map Access.address =
      cpu.accessedAddresses memory (cpu.fetched memory).executed := by
  rw [accesses_step_of_accepted h, List.tail_cons]
  simp [accessedAddresses, readAddresses]

/-- The accesses of a step that is refused, in their order: the opcode byte is fetched, and then
read once more with the two bytes after it. -/
theorem accesses_step_of_refused (h : cpu.accepts (cpu.fetched memory) = false) :
    (cpu.step (Recorder.start memory)).state.2.accesses =
      [.read cpu.pc (memory.read cpu.pc), .read cpu.pc (memory.read cpu.pc),
        .read (cpu.pc + 1) (memory.read (cpu.pc + 1)),
        .read (cpu.pc + 2) (memory.read (cpu.pc + 2))] := by
  have hrecorded : cpu.accepts (.decode (Bus.read cpu.pc (Recorder.start memory)).1) = false := h
  rw [step_of_refused hrecorded]
  rfl

/-! ## Other memories -/

variable {later : Memory}

section Congr

variable (h : ∀ a ∈ cpu.readAddresses memory i, later.read a = memory.read a)

include h

theorem operand_congr : cpu.operand later i = cpu.operand memory i :=
  Location.fst_load_congr fun a ha ↦ h a (List.mem_append_left _ ha)

theorem dataPlace_congr : cpu.dataPlace later i = cpu.dataPlace memory i := by
  rw [dataPlace, dataPlace, operand_congr h]

/-- The effect of an instruction depends on no byte but those that it reads. -/
theorem effect_congr : cpu.effect later i = cpu.effect memory i := by
  have hdata : ((cpu.dataPlace memory i).load later).1 = ((cpu.dataPlace memory i).load memory).1 :=
    Location.fst_load_congr fun a ha ↦ h a (List.mem_append_right _ ha)
  rw [effect, operand_congr h]
  exact congrArg (i.execute _ _) hdata

end Congr

variable (cpu) in
/-- What is left of the processor depends on how the map judges what is stored, and on no byte. -/
theorem fst_carryOut_congr {e : Effect} (h : ∀ store ∈ e.target.bytes e.value,
      later.map.refusal? store.1 store.2 = memory.map.refusal? store.1 store.2) :
    (cpu.carryOut later e).1 = (cpu.carryOut memory e).1 := by
  rw [carryOut, carryOut, Location.fst_store_congr e.value h]

variable (cpu) in
/-- A byte that is not stored to is kept. -/
theorem read_carryOut_of_not_mem {e : Effect} {a : UInt16} (h : a ∉ e.target.addresses) :
    (cpu.carryOut memory e).2.read a = memory.read a := by
  have hlookup : (e.target.bytes e.value).lookup a = none := by
    rw [List.lookup_eq_none_iff]
    intro store hstore
    rw [← Location.map_fst_bytes _ e.value] at h
    exact bne_iff_ne.2 fun heq ↦ h (heq ▸ List.mem_map_of_mem hstore)
  rw [carryOut, Location.read_snd_store_memory, hlookup]
  exact ite_self _

variable (cpu) in
/-- What is left of a byte depends on the byte and the map. -/
theorem read_carryOut_congr (hmap : later.map = memory.map) {a : UInt16}
    (h : later.read a = memory.read a) (e : Effect) :
    (cpu.carryOut later e).2.read a = (cpu.carryOut memory e).2.read a := by
  rw [carryOut, carryOut, Location.read_snd_store_memory, Location.read_snd_store_memory, hmap, h]

end Cpu

end Intel8080
