import Intel8080.Hex

/-!
# The memory map and the write guard

The address space is parted into read-only memory, writable memory and nothing. A write outside
the writable part is refused. Main statement: `refusal?_eq_none_iff`, a write is accepted exactly
when its address lies between the two bounds.
-/

namespace Intel8080

/-- A part of the address space. -/
inductive Region where
  | rom | ram | unmapped
deriving DecidableEq, Repr, Inhabited

def Region.description : Region → String
  | rom => "Rom" | ram => "Ram" | unmapped => "Unmapped"

/-- Why a write is refused. -/
inductive WriteFault.Cause where
  | readOnly | unmapped
deriving DecidableEq, Repr, Inhabited

/-- A refused write: where to, and the byte that was not stored. -/
structure WriteFault where
  cause : WriteFault.Cause
  address : UInt16
  value : UInt8
deriving DecidableEq, Repr, Inhabited

def WriteFault.message (fault : WriteFault) : String :=
  let place := match fault.cause with
    | .readOnly => "to read-only region"
    | .unmapped => "outside addressable RAM"
  "SEGFAULT: write of 0x" ++ Hex.lower 2 fault.value.toNat ++ " " ++ place
    ++ " at 0x" ++ Hex.lower 4 fault.address.toNat

/-- The bounds of the regions: read-only below `romEnd`, writable from there to below `ramEnd`.
The bounds may be any numbers, in any order. -/
structure MemoryMap where
  romEnd : Nat
  ramEnd : Nat
deriving DecidableEq, Repr, Inhabited

namespace MemoryMap

/-- The arcade board: eight kilobytes of ROM, then eight of RAM. -/
def spaceInvaders : MemoryMap := ⟨0x2000, 0x4000⟩

/-- Every address is writable. -/
def flat : MemoryMap := ⟨0, 0x10000⟩

def region (map : MemoryMap) (address : UInt16) : Region :=
  if address.toNat < map.romEnd then .rom
  else if address.toNat < map.ramEnd then .ram
  else .unmapped

/-- The guard: the fault of a write, if it is refused. -/
def refusal? (map : MemoryMap) (address : UInt16) (value : UInt8) : Option WriteFault :=
  match map.region address with
  | .rom => some ⟨.readOnly, address, value⟩
  | .ram => none
  | .unmapped => some ⟨.unmapped, address, value⟩

def description (map : MemoryMap) : String :=
  "MemoryMap \x7b rom_end: " ++ toString map.romEnd ++ ", ram_end: " ++ toString map.ramEnd
    ++ " \x7d"

theorem region_eq_rom_iff {map : MemoryMap} {a : UInt16} :
    map.region a = .rom ↔ a.toNat < map.romEnd := by
  grind [region]

/-- The writable memory lies between the two bounds. -/
theorem region_eq_ram_iff {map : MemoryMap} {a : UInt16} :
    map.region a = .ram ↔ map.romEnd ≤ a.toNat ∧ a.toNat < map.ramEnd := by
  grind [region]

/-- Writes are accepted in the writable memory and nowhere else. -/
theorem refusal?_eq_none_iff_region {map : MemoryMap} {a : UInt16} {v : UInt8} :
    map.refusal? a v = none ↔ map.region a = .ram := by
  grind [refusal?]

/-- A write is accepted exactly when its address lies between the two bounds. -/
theorem refusal?_eq_none_iff {map : MemoryMap} {a : UInt16} {v : UInt8} :
    map.refusal? a v = none ↔ map.romEnd ≤ a.toNat ∧ a.toNat < map.ramEnd :=
  refusal?_eq_none_iff_region.trans region_eq_ram_iff

/-- A refusal names the address and the byte of the write. -/
theorem eq_of_refusal? {map : MemoryMap} {a : UInt16} {v : UInt8} {fault : WriteFault}
    (h : map.refusal? a v = some fault) : fault.address = a ∧ fault.value = v := by
  grind [refusal?]

end MemoryMap

end Intel8080
