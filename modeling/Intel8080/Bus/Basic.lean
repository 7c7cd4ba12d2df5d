import Intel8080.Memory.Basic
import Intel8080.Word

/-!
# The bus

What the processor sees of the memory: it asks for a byte, or offers one that may be refused. Two
bytes at neighbouring addresses are a word, low byte first, and addresses wrap round at the top.
Main statements: the equations of `Location.load` and `Location.store`, `load_byte` to `store_word`;
on a memory `snd_load_memory`, reading changes nothing, and `map_snd_store_memory`, writing keeps
the map.
-/

namespace Intel8080

/-- The processor's side of a memory `σ`, which may change with each access. -/
class Bus (σ : Type) where
  /-- The byte at an address, and the bus after it was read. -/
  read : UInt16 → σ → UInt8 × σ
  /-- The fault of a write, if it is refused, and the bus after it. -/
  write : UInt16 → UInt8 → σ → Option WriteFault × σ

instance : Bus Memory where
  read a memory := (memory.read a, memory)
  write a v memory := memory.write a v

/-- A place for no byte, for one byte, or for a word of two bytes of which the low one comes
first. -/
inductive Location where
  | nowhere
  | byte (address : UInt16)
  | word (address : UInt16)
deriving DecidableEq, Repr, Inhabited

namespace Location

/-- The addresses of a place, in the order in which they are accessed. -/
def addresses : Location → List UInt16
  | nowhere => []
  | byte a => [a]
  | word a => [a, a + 1]

/-- The place of the given number of bytes at an address. -/
def ofLength (count : Nat) (a : UInt16) : Location :=
  match count with
  | 0 => nowhere
  | 1 => byte a
  | _ => word a

variable {σ : Type} [Bus σ]

/-- Reads a place as a number; nothing reads as zero. -/
def load : Location → σ → UInt16 × σ
  | nowhere, bus => (0, bus)
  | byte a, bus =>
    let (v, bus) := Bus.read a bus
    (v.toUInt16, bus)
  | word a, bus =>
    let (low, bus) := Bus.read a bus
    let (high, bus) := Bus.read (a + 1) bus
    (wordOf high low, bus)

/-- Writes a number to a place, byte by byte. Each byte is refused or accepted on its own; the
faults come in the order of the bytes. -/
def store : Location → UInt16 → σ → List WriteFault × σ
  | nowhere, _, bus => ([], bus)
  | byte a, value, bus =>
    let (fault, bus) := Bus.write a (lowByte value) bus
    (fault.toList, bus)
  | word a, value, bus =>
    let (lowFault, bus) := Bus.write a (lowByte value) bus
    let (highFault, bus) := Bus.write (a + 1) (highByte value) bus
    (lowFault.toList ++ highFault.toList, bus)

@[simp] theorem addresses_nowhere : nowhere.addresses = [] := rfl

@[simp] theorem addresses_byte (a : UInt16) : (byte a).addresses = [a] := rfl

@[simp] theorem addresses_word (a : UInt16) : (word a).addresses = [a, a + 1] := rfl

@[simp] theorem load_nowhere (bus : σ) : nowhere.load bus = (0, bus) := rfl

@[simp] theorem store_nowhere (value : UInt16) (bus : σ) :
    nowhere.store value bus = ([], bus) := rfl

theorem load_byte (a : UInt16) (bus : σ) :
    (byte a).load bus = ((Bus.read a bus).1.toUInt16, (Bus.read a bus).2) := rfl

theorem load_word (a : UInt16) (bus : σ) :
    (word a).load bus =
      (wordOf (Bus.read (a + 1) (Bus.read a bus).2).1 (Bus.read a bus).1,
        (Bus.read (a + 1) (Bus.read a bus).2).2) := rfl

theorem store_byte (a value : UInt16) (bus : σ) :
    (byte a).store value bus =
      ((Bus.write a (lowByte value) bus).1.toList, (Bus.write a (lowByte value) bus).2) := rfl

theorem store_word (a value : UInt16) (bus : σ) :
    (word a).store value bus =
      let first := Bus.write a (lowByte value) bus
      let second := Bus.write (a + 1) (highByte value) first.2
      (first.1.toList ++ second.1.toList, second.2) := rfl

variable (memory : Memory) (a value : UInt16)

@[simp] theorem load_byte_memory :
    (byte a).load memory = ((memory.read a).toUInt16, memory) := rfl

@[simp] theorem load_word_memory :
    (word a).load memory = (wordOf (memory.read (a + 1)) (memory.read a), memory) := rfl

/-- Reading leaves a memory as it is. -/
@[simp] theorem snd_load_memory (place : Location) : (place.load memory).2 = memory := by
  cases place <;> rfl

/-- Writing keeps the map. -/
@[simp] theorem map_snd_store_memory (place : Location) :
    (place.store value memory).2.map = memory.map := by
  cases place <;> simp [store, Bus.write]

end Location

end Intel8080
