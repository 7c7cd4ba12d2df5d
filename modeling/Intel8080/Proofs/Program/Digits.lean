import Intel8080.Proofs.Address
import Intel8080.Proofs.Reference.Arithmetic
import Mathlib.Data.Nat.Digits.Defs

/-!
# Long numbers in memory

A number of many bytes, least significant byte first, in one of two readings: each byte a digit of
base 256, or two decimal digits. Main statement: `digit_add`, in either reading the accumulator adds
two digits and a carry to a digit and a carry.
-/

namespace Intel8080

/-- How the bytes of a long number are read. -/
inductive Radix where
  /-- Each byte is a digit of base 256. -/
  | binary
  /-- Each byte is two decimal digits. -/
  | packed
deriving DecidableEq, Repr

namespace Radix

def base : Radix → Nat
  | binary => 256
  | packed => 100

/-- The digit that a byte is. -/
def digit : Radix → UInt8 → Nat
  | binary, v => v.toNat
  | packed, v => 10 * (v.toNat / 16) + v.toNat % 16

/-- Whether a byte is a digit: both its halves are decimal digits if need be. -/
def IsDigit : Radix → UInt8 → Prop
  | binary, _ => True
  | packed, v => v.toNat / 16 ≤ 9 ∧ v.toNat % 16 ≤ 9

/-- What becomes of a sum in the accumulator: decimal digits are adjusted. -/
def adjust : Radix → UInt8 → Flags → UInt8 × Flags
  | binary, a, f => (a, f)
  | packed, a, f => Alu.decimalAdjust a f

/-- The sum of two digits and the carry, with the flags it leaves. -/
def add (radix : Radix) (x y : UInt8) (f : Flags) : UInt8 × Flags :=
  let sum := Alu.add x y f.carry f
  radix.adjust sum.1 sum.2

theorem toNat_add_eq (x y : UInt8) (f : Flags) :
    (Alu.add x y f.carry f).1.toNat = (x.toNat + y.toNat + f.carry.toNat) % 256 := by
  rw [(Reference.add_eq x y f f.carry).1, Reference.byte]
  omega

/-- Of two bytes of decimal digits, the low digit of the sum is corrected when the low digits and
the carry exceed nine. -/
theorem low_eq {x y : UInt8} {f : Flags} (hx : packed.IsDigit x) (hy : packed.IsDigit y) :
    (decide (9 < (Alu.add x y f.carry f).1.toNat % 16) || (Alu.add x y f.carry f).2.auxCarry) =
      decide (9 < x.toNat % 16 + y.toNat % 16 + f.carry.toNat) := by
  obtain ⟨-, hx⟩ := hx
  obtain ⟨-, hy⟩ := hy
  have hc := f.carry.toNat_lt
  rw [toNat_add_eq, (Reference.add_eq x y f f.carry).2, ← Bool.decide_or, decide_eq_decide]
  omega

/-- The high digit is corrected when the sum exceeds ninety-nine (in hexadecimal). -/
theorem high_eq {x y : UInt8} {f : Flags} (hx : packed.IsDigit x) (hy : packed.IsDigit y) :
    (decide (0x99 < (Alu.add x y f.carry f).1.toNat) || (Alu.add x y f.carry f).2.carry) =
      decide (0x99 < x.toNat + y.toNat + f.carry.toNat) := by
  obtain ⟨hx, hx'⟩ := hx
  obtain ⟨hy, hy'⟩ := hy
  have hc := f.carry.toNat_lt
  rw [toNat_add_eq, (Reference.add_eq x y f f.carry).2, ← Bool.decide_or, decide_eq_decide]
  omega

/-- The sum of two digits and a carry is a digit and a carry. -/
theorem digit_add {radix : Radix} {x y : UInt8} {f : Flags} (hx : radix.IsDigit x)
    (hy : radix.IsDigit y) :
    radix.IsDigit (radix.add x y f).1 ∧
      radix.digit (radix.add x y f).1 + radix.base * (radix.add x y f).2.carry.toNat =
        radix.digit x + radix.digit y + f.carry.toNat := by
  cases radix with
  | binary => exact ⟨trivial, Alu.toNat_add x y f.carry f⟩
  | packed =>
    obtain ⟨hresult, hflags⟩ := Reference.decimalAdjust_eq (Alu.add x y f.carry f).1
      (Alu.add x y f.carry f).2
    rw [low_eq hx hy, high_eq hx hy, toNat_add_eq, Reference.byte] at hresult
    rw [high_eq hx hy] at hflags
    have hcarry : (packed.add x y f).2.carry =
        decide (0x99 < x.toNat + y.toNat + f.carry.toNat) := congrArg Flags.carry hflags
    change (packed.add x y f).1.toNat = _ at hresult
    obtain ⟨hx, hx'⟩ := hx
    obtain ⟨hy, hy'⟩ := hy
    have hc := f.carry.toNat_lt
    rw [hcarry]
    simp only [IsDigit, digit, base]
    -- the corrections are made or not, each on its own
    by_cases hlow : 9 < x.toNat % 16 + y.toNat % 16 + f.carry.toNat <;>
      by_cases hhigh : 0x99 < x.toNat + y.toNat + f.carry.toNat <;>
      simp only [hlow, hhigh, decide_true, decide_false, Bool.toNat_true, Bool.toNat_false]
        at hresult ⊢ <;>
      omega

end Radix

namespace Memory

variable {memory later : Memory} {radix : Radix} {a : UInt16} {n : Nat}

/-- The number that lies in the `n` bytes from an address on, the lowest digit first. -/
def number (memory : Memory) (radix : Radix) (a : UInt16) (n : Nat) : Nat :=
  Nat.ofDigits radix.base
    ((List.range n).map fun i ↦ radix.digit (memory.read (a + UInt16.ofNat i)))

@[simp] theorem number_zero : memory.number radix a 0 = 0 := rfl

/-- The lowest digit, and the number above it. -/
theorem number_succ : memory.number radix a (n + 1) =
    radix.digit (memory.read a) + radix.base * memory.number radix (a + 1) n := by
  simp only [number, List.range_succ_eq_map, List.map_cons, List.map_map, Nat.ofDigits_cons,
    Function.comp_def, add_one_add_ofNat]
  simp

/-- Only the bytes of a number matter. -/
theorem number_congr
    (h : ∀ i < n, later.read (a + UInt16.ofNat i) = memory.read (a + UInt16.ofNat i)) :
    later.number radix a n = memory.number radix a n := by
  unfold number
  congr 1
  refine List.map_congr_left fun i hi ↦ ?_
  rw [h i (List.mem_range.1 hi)]

end Memory

end Intel8080
