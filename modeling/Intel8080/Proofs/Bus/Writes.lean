import Intel8080.Bus.Recorder
import Intel8080.Proofs.Address

/-!
# The byte writes behind a store

To store at a place is to write its bytes one after the other, each guarded on its own. Main
statements: `fst_store_memory` and `read_snd_store_memory`, what a store on a memory refuses and
what it leaves there, and `writes_load` and `writes_store`, what a recorder sees of reads and
stores.
-/

namespace Intel8080

/-- One write of a byte, with the fault if it was refused. -/
structure ByteWrite where
  address : UInt16
  value : UInt8
  fault : Option WriteFault
deriving DecidableEq, Repr

def Access.write? : Access → Option ByteWrite
  | read .. => none
  | write a v fault => some ⟨a, v, fault⟩

/-- The writes on record, oldest first. -/
def Recorder.writes {σ : Type} (recorder : Recorder σ) : List ByteWrite :=
  recorder.accesses.filterMap Access.write?

/-- The write of a byte to an address, judged by a map. -/
def MemoryMap.judge (map : MemoryMap) (store : UInt16 × UInt8) : ByteWrite :=
  ⟨store.1, store.2, map.refusal? store.1 store.2⟩

/-- A write is refused as one to read-only memory exactly below the lower bound. -/
theorem MemoryMap.cause_eq_readOnly_iff {map : MemoryMap} {a : UInt16} {v : UInt8}
    {fault : WriteFault} (h : map.refusal? a v = some fault) :
    fault.cause = .readOnly ↔ a.toNat < map.romEnd := by
  rw [← region_eq_rom_iff]
  unfold refusal? at h
  split at h <;> grind

@[simp] theorem Bus.read_memory (a : UInt16) (memory : Memory) :
    Bus.read a memory = (memory.read a, memory) := rfl

@[simp] theorem Bus.write_memory (a : UInt16) (v : UInt8) (memory : Memory) :
    Bus.write a v memory = memory.write a v := rfl

namespace Location

/-- The bytes of a value at a place with their addresses, in the order in which they are stored. -/
def bytes : Location → UInt16 → List (UInt16 × UInt8)
  | nowhere, _ => []
  | byte a, value => [(a, lowByte value)]
  | word a, value => [(a, lowByte value), (a + 1, highByte value)]

@[simp] theorem bytes_nowhere (value : UInt16) : nowhere.bytes value = [] := rfl

@[simp] theorem bytes_byte (a value : UInt16) : (byte a).bytes value = [(a, lowByte value)] := rfl

@[simp] theorem bytes_word (a value : UInt16) :
    (word a).bytes value = [(a, lowByte value), (a + 1, highByte value)] := rfl

/-- The bytes of a place have addresses of their own. -/
theorem lookup_bytes {place : Location} {value a : UInt16} {v : UInt8}
    (h : (a, v) ∈ place.bytes value) : (place.bytes value).lookup a = some v := by
  cases place with
  | nowhere => cases h
  | byte b =>
    obtain ⟨rfl, rfl⟩ := Prod.mk.inj (List.mem_singleton.1 h)
    exact List.lookup_cons_self
  | word b =>
    rcases List.mem_cons.1 h with h | h
    · obtain ⟨rfl, rfl⟩ := Prod.mk.inj h
      exact List.lookup_cons_self
    · obtain ⟨rfl, rfl⟩ := Prod.mk.inj (List.mem_singleton.1 h)
      rw [bytes_word, List.lookup_cons, beq_false_of_ne (ne_add_one b).symm]
      exact List.lookup_cons_self

/-! ## On a memory -/

section Memory

variable (place : Location) (value : UInt16) (memory : Memory)

/-- The faults of a store are those of its bytes, in their order. -/
theorem fst_store_memory : (place.store value memory).1 =
    (place.bytes value).filterMap fun store ↦ memory.map.refusal? store.1 store.2 := by
  cases place with
  | nowhere => rfl
  | byte a =>
    rw [store_byte, bytes_byte, Bus.write_memory, Memory.fst_write]
    cases h : memory.map.refusal? a (lowByte value) <;> simp [h]
  | word a =>
    simp only [store_word, bytes_word, Bus.write_memory, Memory.fst_write, Memory.map_write]
    cases h : memory.map.refusal? a (lowByte value) <;>
      cases h' : memory.map.refusal? (a + 1) (highByte value) <;> simp [h, h']

/-- A store leaves its bytes where they may be written, and every other byte as it was. -/
theorem read_snd_store_memory (b : UInt16) : (place.store value memory).2.read b =
    if memory.map.region b = .ram then ((place.bytes value).lookup b).getD (memory.read b)
    else memory.read b := by
  cases place with
  | nowhere => simp
  | byte a =>
    rw [store_byte, bytes_byte, Bus.write_memory, Memory.read_write, List.lookup_cons]
    grind
  | word a =>
    have := ne_add_one a
    simp only [store_word, bytes_word, Bus.write_memory, Memory.read_write, Memory.map_write,
      List.lookup_cons]
    grind

end Memory

/-! ## On a recorder -/

section Recorder

variable {σ : Type} [Bus σ] (place : Location) (value : UInt16) (recorder : Recorder σ)

@[simp] theorem fst_load_recorder : (place.load recorder).1 = (place.load recorder.bus).1 := by
  cases place <;> rfl

@[simp] theorem bus_load_recorder :
    (place.load recorder).2.bus = (place.load recorder.bus).2 := by
  cases place <;> rfl

@[simp] theorem fst_store_recorder :
    (place.store value recorder).1 = (place.store value recorder.bus).1 := by
  cases place <;> rfl

@[simp] theorem bus_store_recorder :
    (place.store value recorder).2.bus = (place.store value recorder.bus).2 := by
  cases place <;> rfl

/-- Reading writes nothing. -/
theorem writes_load : (place.load recorder).2.writes = recorder.writes := by
  cases place <;> simp [load_byte, load_word, Recorder.writes, Access.write?]

end Recorder

/-- A store on a memory writes the bytes of its value one by one, each judged by the map. -/
theorem writes_store (place : Location) (value : UInt16) (recorder : Recorder Memory) :
    (place.store value recorder).2.writes =
      recorder.writes ++ (place.bytes value).map recorder.bus.map.judge := by
  cases place <;>
    simp [store_byte, store_word, Recorder.writes, Access.write?, MemoryMap.judge]

end Location

end Intel8080
