import Intel8080.Flags
import Intel8080.Instruction.Basic
import Intel8080.Word

/-!
# Arithmetic and logic

Operations on bytes and flags alone. Main statements: `toNat_add` and `toNat_sub` give the
result and the carry of a sum and of a difference as one equation of numbers, so that chains of
them compute with numbers of any length.
-/

namespace Intel8080.Alu

def nibble (v : UInt8) : UInt8 := v % 16

def add (a v : UInt8) (carry : Bool) (f : Flags) : UInt8 × Flags :=
  let wide := a.toUInt16 + v.toUInt16 + carry.toUInt16
  (lowByte wide,
    { f.afterWide wide with auxCarry := nibble a + nibble v + carry.toUInt8 > 0x0f })

/-- The difference of two bytes and a borrow. The processor subtracts by adding the complement,
so the auxiliary carry is the carry out of bit 3 of that sum, and set when nothing is borrowed. -/
def sub (a v : UInt8) (borrow : Bool) (f : Flags) : UInt8 × Flags :=
  let wide := a.toUInt16 - v.toUInt16 - borrow.toUInt16
  (lowByte wide,
    { f.afterWide wide with
      auxCarry := nibble a + nibble (~~~v) + (!borrow).toUInt8 > 0x0f })

def logic (v : UInt8) (f : Flags) : UInt8 × Flags := (v, f.afterLogic v)

/-- The byte above by one; the carry is kept. -/
def increment (v : UInt8) (f : Flags) : UInt8 × Flags :=
  (v + 1, { f.afterResult (v + 1) with auxCarry := nibble v == 0x0f })

/-- The byte below by one; the carry is kept. -/
def decrement (v : UInt8) (f : Flags) : UInt8 × Flags :=
  (v - 1, { f.afterResult (v - 1) with auxCarry := nibble (v - 1) != 0x0f })

/-- Decimal adjustment of a sum of two bytes of two decimal digits each: six is added when the low
digit is above nine or carried, then sixty (in hexadecimal) when the high digit is above nine or
carried. The second addition may set the carry and never clears it. -/
def decimalAdjust (a : UInt8) (f : Flags) : UInt8 × Flags :=
  let low := nibble a > 9 || f.auxCarry
  let once := a.toUInt16 + if low then 0x06 else 0
  let high := once / 16 > 9 || f.carry
  let twice := once + if high then 0x60 else 0
  (lowByte twice,
    { f.afterResult (lowByte twice) with
      auxCarry := low && nibble a + 6 > 0x0f
      carry := f.carry || twice > 0xff })

/-- The byte rotated by one bit, and the bit that goes to the carry. -/
def rotate (kind : Rotation) (a : UInt8) (carry : Bool) : UInt8 × Bool :=
  match kind with
  | .rlc => (a * 2 + a / 0x80, 0x80 ≤ a)
  | .rrc => (a / 2 + a % 2 * 0x80, a % 2 == 1)
  | .ral => (a * 2 + carry.toUInt8, 0x80 ≤ a)
  | .rar => (a / 2 + carry.toUInt8 * 0x80, a % 2 == 1)

/-- What an operation leaves in the accumulator, and the flags. A comparison computes the flags of
a difference and leaves the accumulator alone. -/
def apply (op : AluOp) (a v : UInt8) (f : Flags) : UInt8 × Flags :=
  match op with
  | .add => add a v false f
  | .adc => add a v f.carry f
  | .sub => sub a v false f
  | .sbb => sub a v f.carry f
  | .ana => logic (a &&& v) f
  | .xra => logic (a ^^^ v) f
  | .ora => logic (a ||| v) f
  | .cmp => (a, (sub a v false f).2)

/-- The sum with its carry as the next digit. -/
theorem toNat_add (a v : UInt8) (carry : Bool) (f : Flags) :
    (add a v carry f).1.toNat + 256 * (add a v carry f).2.carry.toNat =
      a.toNat + v.toNat + carry.toNat := by
  have ha := a.toNat_lt
  have hv := v.toNat_lt
  have hc : carry.toUInt16.toNat = carry.toNat := by cases carry <;> rfl
  have hc' : carry.toNat ≤ 1 := by cases carry <;> decide
  have hw : (a.toUInt16 + v.toUInt16 + carry.toUInt16).toNat =
      a.toNat + v.toNat + carry.toNat := by
    simp [hc]
    omega
  have h : (a.toUInt16 + v.toUInt16 + carry.toUInt16 > 0xff) ↔
      255 < a.toNat + v.toNat + carry.toNat := by
    rw [gt_iff_lt, UInt16.lt_iff_toNat_lt, hw]
    rfl
  simp only [add, Flags.afterWide, toNat_lowByte, hw, h]
  by_cases hs : 255 < a.toNat + v.toNat + carry.toNat <;> simp [hs] <;> omega

/-- The difference, with the borrow it leaves as one of the next digit. -/
theorem toNat_sub (a v : UInt8) (borrow : Bool) (f : Flags) :
    (sub a v borrow f).1.toNat + v.toNat + borrow.toNat =
      a.toNat + 256 * (sub a v borrow f).2.carry.toNat := by
  have ha := a.toNat_lt
  have hv := v.toNat_lt
  have hc : borrow.toUInt16.toNat = borrow.toNat := by cases borrow <;> rfl
  have hc' : borrow.toNat ≤ 1 := by cases borrow <;> decide
  have hw : (a.toUInt16 - v.toUInt16 - borrow.toUInt16).toNat =
      (a.toNat + 65536 - v.toNat - borrow.toNat) % 65536 := by
    simp [UInt16.toNat_sub, hc]
    omega
  have h : (a.toUInt16 - v.toUInt16 - borrow.toUInt16 > 0xff) ↔
      255 < (a.toNat + 65536 - v.toNat - borrow.toNat) % 65536 := by
    rw [gt_iff_lt, UInt16.lt_iff_toNat_lt, hw]
    rfl
  simp only [sub, Flags.afterWide, toNat_lowByte, hw, h]
  by_cases hs : 255 < (a.toNat + 65536 - v.toNat - borrow.toNat) % 65536 <;> simp [hs] <;> omega

end Intel8080.Alu
