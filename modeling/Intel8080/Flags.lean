/-!
# The condition flags and the status word

The five condition flags, how results set them, and the byte they are packed into on the stack.
Main statement: `ofStatus_status` says that packing loses nothing.
-/

namespace Intel8080

/-- The condition flags of the processor. -/
structure Flags where
  zero : Bool := false
  sign : Bool := false
  parity : Bool := false
  carry : Bool := false
  /-- Carry out of the low four bits. -/
  auxCarry : Bool := false
deriving DecidableEq, Repr, Inhabited

def evenParity (v : UInt8) : Bool :=
  [0, 1, 2, 3, 4, 5, 6, 7].countP (fun i ↦ v.toNat.testBit i) % 2 == 0

namespace Flags

def weight (set : Bool) (value : UInt8) : UInt8 := if set then value else 0

/-- The status word: sign, zero, auxiliary carry, parity and carry at their bits from the top,
with bit 1 always set and bits 3 and 5 always clear. -/
def status (f : Flags) : UInt8 :=
  weight f.sign 0x80 + weight f.zero 0x40 + weight f.auxCarry 0x10 + weight f.parity 0x04
    + 0x02 + weight f.carry 0x01

/-- The flags of a status word, whose fixed bits are not looked at. -/
def ofStatus (w : UInt8) : Flags where
  sign := w &&& 0x80 != 0
  zero := w &&& 0x40 != 0
  auxCarry := w &&& 0x10 != 0
  parity := w &&& 0x04 != 0
  carry := w &&& 0x01 != 0

/-- Zero, sign and parity as a result leaves them, the carries kept. -/
def afterResult (f : Flags) (v : UInt8) : Flags :=
  { f with zero := v == 0, sign := 0x80 ≤ v, parity := evenParity v }

/-- The flags after a sum or difference computed in sixteen bits: carry when it does not fit a
byte (a borrow wraps round and does not fit either), the rest from its low byte. -/
def afterWide (f : Flags) (v : UInt16) : Flags :=
  { f.afterResult v.toUInt8 with carry := v > 0xff }

/-- The flags after a bitwise operation, which clears both carries. -/
def afterLogic (f : Flags) (v : UInt8) : Flags :=
  { f.afterResult v with carry := false, auxCarry := false }

/-- Packing loses nothing. -/
@[simp] theorem ofStatus_status (f : Flags) : ofStatus f.status = f := by
  obtain ⟨z, s, p, c, a⟩ := f
  cases z <;> cases s <;> cases p <;> cases c <;> cases a <;> rfl

end Flags

end Intel8080
