import Intel8080.Memory.Map

/-!
# Memory

Sixty-four kilobytes behind a write guard. All is said through one view, the byte read at an
address: `read_set`, `read_write` and `read_load` say what each operation does to it.
-/

namespace Intel8080

namespace Memory

def size : Nat := 0x10000

theorem toNat_lt_size (a : UInt16) : a.toNat < size := a.toNat_lt

end Memory

/-- The bytes of the address space, with the map by which writes are guarded. -/
structure Memory where
  bytes : Vector UInt8 Memory.size
  map : MemoryMap
deriving Inhabited

/-- An image that cannot be placed. -/
inductive LoadError where
  /-- An image of `length` bytes does not fit the `capacity` bytes from `offset` to the top. -/
  | imageTooLarge (length : Nat) (offset : UInt16) (capacity : Nat)
deriving DecidableEq, Repr, Inhabited

def LoadError.message : LoadError → String
  | imageTooLarge length offset capacity =>
    "program image of " ++ toString length ++ " bytes does not fit at 0x"
      ++ Hex.lower 4 offset.toNat ++ " (" ++ toString capacity ++ " bytes available)"

namespace Memory

def zeroed (map : MemoryMap) : Memory := ⟨Vector.replicate size 0, map⟩

/-- The byte at an address, whatever its region. -/
def read (memory : Memory) (a : UInt16) : UInt8 :=
  have := toNat_lt_size a
  memory.bytes[a.toNat]

/-- Changes one byte, whatever its region. -/
def set (memory : Memory) (a : UInt16) (v : UInt8) : Memory :=
  match memory with
  | ⟨bytes, map⟩ => ⟨bytes.set a.toNat v (toNat_lt_size a), map⟩

/-- A guarded write: the fault if it is refused, and the memory after it. -/
def write (memory : Memory) (a : UInt16) (v : UInt8) : Option WriteFault × Memory :=
  match memory.map.refusal? a v with
  | some fault => (some fault, memory)
  | none => (none, memory.set a v)

/-- Stores the bytes of an image one after the other from an index on. -/
def place : Nat → List UInt8 → Vector UInt8 size → Vector UInt8 size
  | _, [], bytes => bytes
  | i, v :: image, bytes => place (i + 1) image (bytes.setIfInBounds i v)

/-- The number of bytes from an address to the top. -/
def capacity (a : UInt16) : Nat := size - a.toNat

/-- Puts an image into memory from an address on, whatever the regions. -/
def load (memory : Memory) (a : UInt16) (image : List UInt8) : Except LoadError Memory :=
  if image.length ≤ capacity a then
    .ok { memory with bytes := place a.toNat image memory.bytes }
  else .error (.imageTooLarge image.length a (capacity a))

/-- At most `count` bytes from an address on; the top of the address space ends them sooner. -/
def peek (memory : Memory) (a : UInt16) (count : Nat) : List UInt8 :=
  (memory.bytes.toArray.extract a.toNat (a.toNat + count)).toList

def description (memory : Memory) : String :=
  "Memory \x7b size: " ++ toString size ++ ", map: " ++ memory.map.description ++ " \x7d"

variable {memory : Memory} {a b : UInt16} {v : UInt8}

@[ext] theorem ext {m₁ m₂ : Memory} (hread : ∀ a, m₁.read a = m₂.read a)
    (hmap : m₁.map = m₂.map) : m₁ = m₂ := by
  obtain ⟨bytes₁, map₁⟩ := m₁
  obtain ⟨bytes₂, map₂⟩ := m₂
  obtain rfl : map₁ = map₂ := hmap
  congr
  apply Vector.ext
  intro i hi
  have hi : i < UInt16.size := hi
  simpa [read, Nat.mod_eq_of_lt hi] using hread (UInt16.ofNatLT i hi)

@[simp] theorem read_zeroed (map : MemoryMap) (a : UInt16) : (zeroed map).read a = 0 := by
  simp [zeroed, read]

@[simp] theorem map_zeroed (map : MemoryMap) : (zeroed map).map = map := rfl

@[simp] theorem map_set : (memory.set a v).map = memory.map := rfl

/-- A changed byte is read back, and every other byte is as it was. -/
theorem read_set : (memory.set a v).read b = if a = b then v else memory.read b := by
  simp only [set, read, Vector.getElem_set]
  simp [← UInt16.toNat_inj]

@[simp] theorem read_set_self : (memory.set a v).read a = v := by simp [read_set]

theorem read_set_of_ne (h : a ≠ b) : (memory.set a v).read b = memory.read b := by
  simp [read_set, h]

theorem write_of_refusal {fault : WriteFault} (h : memory.map.refusal? a v = some fault) :
    memory.write a v = (some fault, memory) := by
  simp [write, h]

theorem write_of_accepted (h : memory.map.refusal? a v = none) :
    memory.write a v = (none, memory.set a v) := by
  simp [write, h]

@[simp] theorem fst_write : (memory.write a v).1 = memory.map.refusal? a v := by
  unfold write
  split <;> simp_all

@[simp] theorem map_write : (memory.write a v).2.map = memory.map := by
  unfold write
  split <;> simp

/-- A write changes its own byte if that byte is writable, and no other. -/
theorem read_write : (memory.write a v).2.read b =
    if a = b ∧ memory.map.region a = .ram then v else memory.read b := by
  unfold write
  split
  · next h =>
    have : memory.map.region a ≠ .ram := fun hr ↦ by
      simp [MemoryMap.refusal?_eq_none_iff_region.2 hr] at h
    simp [this]
  · next h =>
    simp [read_set, MemoryMap.refusal?_eq_none_iff_region.1 h]

/-- An image covers the indices from its start on, as far as it goes. -/
theorem getElem_place {image : List UInt8} {i k : Nat} {bytes : Vector UInt8 size}
    (hk : k < size) : (place i image bytes)[k] =
      if i ≤ k then image.getD (k - i) bytes[k] else bytes[k] := by
  induction image generalizing i bytes with
  | nil => simp [place]
  | cons v image ih =>
    rw [place, ih]
    simp only [Vector.getElem_setIfInBounds]
    rcases Nat.lt_trichotomy i k with h | rfl | h
    · obtain ⟨d, rfl⟩ : ∃ d, k = i + 1 + d := ⟨k - (i + 1), by omega⟩
      simp [show i ≤ i + 1 + d by omega, show i + 1 + d - i = d + 1 by omega,
        show ¬ i = i + 1 + d by omega]
    · simp [show ¬ i + 1 ≤ i by omega]
    · simp [show ¬ i ≤ k by omega, show ¬ i + 1 ≤ k by omega, show ¬ i = k by omega]

/-- An image that fits the space above its address is placed. -/
theorem load_eq_ok {image : List UInt8} (h : a.toNat + image.length ≤ size) :
    memory.load a image = .ok { memory with bytes := place a.toNat image memory.bytes } := by
  simp [load, capacity, show image.length ≤ size - a.toNat by omega]

/-- An image that does not fit is refused whole. -/
theorem load_eq_error {image : List UInt8} (h : size < a.toNat + image.length) :
    memory.load a image = .error (.imageTooLarge image.length a (capacity a)) := by
  have := toNat_lt_size a
  simp [load, capacity, show ¬ image.length ≤ size - a.toNat by omega]

@[simp] theorem load_nil : memory.load a [] = .ok memory := by
  simp [load, place]

/-- Below the top an image is placed byte by byte. -/
theorem load_cons {image : List UInt8} (h : a.toNat + image.length + 1 < size) :
    memory.load a (v :: image) = (memory.set a v).load (a + 1) image := by
  have hnext : (a + 1).toNat = a.toNat + 1 :=
    (UInt16.toNat_add a 1).trans (Nat.mod_eq_of_lt (Nat.lt_of_le_of_lt (by simp) h))
  have hset : (memory.set a v).bytes = memory.bytes.setIfInBounds a.toNat v := by
    ext i hi
    simp only [set, Vector.getElem_set, Vector.getElem_setIfInBounds]
  have hfits : a.toNat + (v :: image).length ≤ size := by
    rw [List.length_cons]
    omega
  rw [load_eq_ok hfits, load_eq_ok (by omega), hnext, hset, place]
  rfl

/-- A placed image is read back, and every byte beside it is as it was. -/
theorem read_load {image : List UInt8} {loaded : Memory} (h : memory.load a image = .ok loaded) :
    loaded.read b =
      if a ≤ b then image.getD (b.toNat - a.toNat) (memory.read b) else memory.read b := by
  unfold load at h
  split at h
  · cases h
    simp [read, getElem_place, UInt16.le_iff_toNat_le]
  · cases h

theorem map_load {image : List UInt8} {loaded : Memory} (h : memory.load a image = .ok loaded) :
    loaded.map = memory.map := by
  unfold load at h
  split at h <;> cases h
  rfl

end Memory

end Intel8080
