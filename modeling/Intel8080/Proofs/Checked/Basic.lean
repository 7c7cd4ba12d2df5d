import Intel8080.Bus.Basic
import Intel8080.Instruction.Cost
import Mathlib.Algebra.Group.Nat.Defs

/-!
# Operations that are checked

Numbers of a fixed width have a greatest one, arrays have a last index, and an assertion may be
false. Here every such operation is made with its check, and what does not pass it is a failure.
Main statements: `sum_eq_ok` to `require_eq_ok`, when the operations pass; and for the operations on
the memory `checkedRead_eq_ok` to `checkedStore_eq_ok`, that they always do.
-/

namespace Intel8080

/-- Why a check does not pass. -/
inductive Failure where
  /-- A result is no number of its width. -/
  | overflow
  /-- An index or a range is none of the array. -/
  | outOfBounds
  /-- A range and what is copied to it differ in length. -/
  | lengthMismatch
  /-- What was asserted is false. -/
  | assertion
deriving DecidableEq, Repr, Inhabited

/-- The result of checked operations, or the failure of the first that does not pass. -/
abbrev Checked := Except Failure

namespace Checked

variable {α β : Type} {bits i m n start stop : Nat}

/-- The sum of two numbers of a width. -/
def sum (bits m n : Nat) : Checked Nat :=
  if m + n < 2 ^ bits then return m + n else throw .overflow

def difference (m n : Nat) : Checked Nat := if n ≤ m then return m - n else throw .overflow

def element (xs : Vector α n) (i : Nat) : Checked α :=
  if h : i < n then return xs[i] else throw .outOfBounds

def update (xs : Vector α n) (i : Nat) (x : α) : Checked (Vector α n) :=
  if h : i < n then return xs.set i x else throw .outOfBounds

/-- The bytes of memory with an image copied to the indices from `start` to below `stop`. -/
def copy (bytes : Vector UInt8 Memory.size) (start stop : Nat) (image : List UInt8) :
    Checked (Vector UInt8 Memory.size) :=
  if stop < start ∨ Memory.size < stop then throw .outOfBounds
  else if image.length ≠ stop - start then throw .lengthMismatch
  else return Memory.place start image bytes

def require (p : Prop) [Decidable p] : Checked Unit := if p then return () else throw .assertion

@[simp] theorem ok_bind (a : α) (f : α → Checked β) : (Except.ok a >>= f) = f a := rfl

/-- What comes of two operations one after the other comes of both. -/
theorem bind_eq_ok {x : Checked α} {f : α → Checked β} {b : β} :
    (x >>= f) = .ok b ↔ ∃ a, x = .ok a ∧ f a = .ok b := by
  constructor
  · intro h
    cases x with
    | error failure => cases h
    | ok a => exact ⟨a, rfl, h⟩
  · rintro ⟨a, rfl, h⟩
    exact h

@[simp] theorem pure_eq_ok (a : α) : (pure a : Checked α) = .ok a := rfl

theorem sum_eq_ok (h : m + n < 2 ^ bits) : sum bits m n = .ok (m + n) := if_pos h

theorem sum_eq_ok_iff {k : Nat} : sum bits m n = .ok k ↔ m + n < 2 ^ bits ∧ m + n = k := by
  unfold sum
  split
  · next h => simp [h]
  · next h => simp [h, throw, throwThe, MonadExceptOf.throw]

theorem difference_eq_ok (h : n ≤ m) : difference m n = .ok (m - n) := if_pos h

theorem element_eq_ok (xs : Vector α n) (h : i < n) : element xs i = .ok xs[i] := dif_pos h

theorem update_eq_ok (xs : Vector α n) (h : i < n) (x : α) :
    update xs i x = .ok (xs.set i x) := dif_pos h

/-- An image is copied if the room for it has its length and lies in memory. -/
theorem copy_eq_ok (bytes : Vector UInt8 Memory.size) {image : List UInt8}
    (h : start + image.length ≤ Memory.size) :
    copy bytes start (start + image.length) image = .ok (Memory.place start image bytes) := by
  have hrange : ¬(start + image.length < start ∨ Memory.size < start + image.length) := by omega
  have hlength : ¬image.length ≠ start + image.length - start := by omega
  rw [copy, if_neg hrange, if_neg hlength, pure_eq_ok]

theorem require_eq_ok {p : Prop} [Decidable p] (h : p) : require p = .ok () := if_pos h

end Checked

open Checked

/-! ## The table of the opcode bytes -/

namespace Instruction

/-- What each opcode byte stands for. -/
def table : Vector Instruction 256 := .ofFn fun opcode ↦ decode (UInt8.ofNat opcode)

def checkedDecode (opcode : UInt8) : Checked Instruction := element table opcode.toNat

def checkedLength (i : Instruction) : Checked Nat := sum 64 1 i.operandBytes

def checkedCycles (i : Instruction) (taken : Bool) : Checked Nat :=
  if taken then sum 32 i.baseCycles i.takenCycles else return i.baseCycles

/-- Every byte has its row. -/
@[simp] theorem checkedDecode_eq_ok (opcode : UInt8) :
    checkedDecode opcode = .ok (decode opcode) := by
  rw [checkedDecode, element_eq_ok table opcode.toNat_lt]
  simp [table]

@[simp] theorem checkedLength_eq_ok (i : Instruction) : i.checkedLength = .ok i.length := by
  have hle := i.operandBytes_le_two
  rw [checkedLength, sum_eq_ok (by omega), length]

/-- The cycles of an instruction stay far below their width. -/
@[simp] theorem checkedCycles_eq_ok (i : Instruction) (taken : Bool) :
    i.checkedCycles taken = .ok (i.cycles taken) := by
  cases taken with
  | false => rfl
  | true =>
    have hle : i.baseCycles + i.takenCycles ≤ 18 := i.cycles_le_eighteen true
    rw [checkedCycles, if_pos rfl, sum_eq_ok (by omega), cycles, if_pos rfl]

end Instruction

/-! ## Memory -/

namespace Memory

def checkedRead (memory : Memory) (a : UInt16) : Checked UInt8 := element memory.bytes a.toNat

def checkedWrite (memory : Memory) (a : UInt16) (v : UInt8) :
    Checked (Option WriteFault × Memory) :=
  match memory.map.refusal? a v with
  | some fault => return (some fault, memory)
  | none => do
    let bytes ← update memory.bytes a.toNat v
    return (none, { memory with bytes })

def checkedLoad (memory : Memory) (a : UInt16) (image : List UInt8) :
    Checked (Except LoadError Memory) := do
  let capacity ← difference size a.toNat
  if image.length > capacity then
    return .error (.imageTooLarge image.length a capacity)
  else
    let stop ← sum 64 a.toNat image.length
    let bytes ← copy memory.bytes a.toNat stop image
    return .ok { memory with bytes }

variable (memory : Memory) (a : UInt16)

@[simp] theorem checkedRead_eq_ok : memory.checkedRead a = .ok (memory.read a) :=
  element_eq_ok memory.bytes (toNat_lt_size a)

/-- No write of a byte goes beyond the memory, be it accepted or refused. -/
@[simp] theorem checkedWrite_eq_ok (v : UInt8) :
    memory.checkedWrite a v = .ok (memory.write a v) := by
  cases h : memory.map.refusal? a v with
  | some fault =>
    simp only [checkedWrite, h]
    rw [write_of_refusal h, pure_eq_ok]
  | none =>
    simp only [checkedWrite, h]
    rw [update_eq_ok memory.bytes (toNat_lt_size a), write_of_accepted h]
    rfl

/-- What does not fit is refused before its end is computed. -/
@[simp] theorem checkedLoad_eq_ok (image : List UInt8) :
    memory.checkedLoad a image = .ok (memory.load a image) := by
  have hlt := toNat_lt_size a
  rw [checkedLoad, difference_eq_ok (Nat.le_of_lt hlt), ok_bind, load, capacity]
  by_cases hfits : image.length ≤ size - a.toNat
  · have hstop : a.toNat + image.length ≤ size := by omega
    have hwide : a.toNat + image.length < 2 ^ 64 := Nat.lt_of_le_of_lt hstop (by decide)
    rw [if_neg (Nat.not_lt.2 hfits), sum_eq_ok hwide, ok_bind, copy_eq_ok _ hstop, ok_bind,
      if_pos hfits]
    rfl
  · rw [if_pos (Nat.lt_of_not_le hfits), if_neg hfits]
    rfl

end Memory

namespace Location

def checkedLoad (place : Location) (memory : Memory) : Checked UInt16 :=
  match place with
  | nowhere => return 0
  | byte a => do
    let v ← memory.checkedRead a
    return v.toUInt16
  | word a => do
    let low ← memory.checkedRead a
    let high ← memory.checkedRead (a + 1)
    return wordOf high low

def checkedStore (place : Location) (value : UInt16) (memory : Memory) :
    Checked (List WriteFault × Memory) :=
  match place with
  | nowhere => return ([], memory)
  | byte a => do
    let (fault, memory) ← memory.checkedWrite a (lowByte value)
    return (fault.toList, memory)
  | word a => do
    let (lowFault, memory) ← memory.checkedWrite a (lowByte value)
    let (highFault, memory) ← memory.checkedWrite (a + 1) (highByte value)
    return (lowFault.toList ++ highFault.toList, memory)

variable (place : Location) (memory : Memory)

/-- The addresses of a word wrap round, so both are in memory. -/
@[simp] theorem checkedLoad_eq_ok : place.checkedLoad memory = .ok (place.load memory).1 := by
  cases place with
  | nowhere => rfl
  | byte a => simp [checkedLoad]
  | word a => simp [checkedLoad]

@[simp] theorem checkedStore_eq_ok (value : UInt16) :
    place.checkedStore value memory = .ok (place.store value memory) := by
  cases place with
  | nowhere => rfl
  | byte a => simp [checkedStore, store_byte, Bus.write]
  | word a => simp [checkedStore, store_word, Bus.write]

end Location

end Intel8080
