import Intel8080.Flags
import Intel8080.Instruction.Basic
import Intel8080.Word

/-!
# The register file

The registers a program can see, as bytes and as words. Main statements: `pair_setPair` and
`stackPair_setStackPair`, a word set in a pair is read back from it; of the status word, whose fixed
bits are not kept, its flags are.
-/

namespace Intel8080

/-- Accumulator, working registers, stack pointer, program counter, flags and the latch that
enables interrupts. -/
structure Registers where
  a : UInt8 := 0
  b : UInt8 := 0
  c : UInt8 := 0
  d : UInt8 := 0
  e : UInt8 := 0
  h : UInt8 := 0
  l : UInt8 := 0
  sp : UInt16 := 0
  pc : UInt16 := 0
  flags : Flags := {}
  interruptsEnabled : Bool := false
deriving DecidableEq, Repr, Inhabited

/-- Whether the flags are in the state a condition waits for. -/
def Flags.satisfy (f : Flags) : Condition → Bool
  | .notZero => !f.zero
  | .zero => f.zero
  | .noCarry => !f.carry
  | .carry => f.carry
  | .parityOdd => !f.parity
  | .parityEven => f.parity
  | .plus => !f.sign
  | .minus => f.sign

namespace Registers

def bc (r : Registers) : UInt16 := wordOf r.b r.c

def de (r : Registers) : UInt16 := wordOf r.d r.e

/-- The word of H and L, the pointer to the memory operand. -/
def hl (r : Registers) : UInt16 := wordOf r.h r.l

/-- The accumulator above the status word. -/
def psw (r : Registers) : UInt16 := wordOf r.a r.flags.status

def setBc (r : Registers) (w : UInt16) : Registers := { r with b := highByte w, c := lowByte w }

def setDe (r : Registers) (w : UInt16) : Registers := { r with d := highByte w, e := lowByte w }

def setHl (r : Registers) (w : UInt16) : Registers := { r with h := highByte w, l := lowByte w }

def setPsw (r : Registers) (w : UInt16) : Registers :=
  { r with a := highByte w, flags := .ofStatus (lowByte w) }

def pair (r : Registers) : RegisterPair → UInt16
  | .bc => r.bc
  | .de => r.de
  | .hl => r.hl
  | .sp => r.sp

def setPair (r : Registers) (p : RegisterPair) (w : UInt16) : Registers :=
  match p with
  | .bc => r.setBc w
  | .de => r.setDe w
  | .hl => r.setHl w
  | .sp => { r with sp := w }

/-- The word that pushing a pair stores. -/
def stackPair (r : Registers) : StackPair → UInt16
  | .bc => r.bc
  | .de => r.de
  | .hl => r.hl
  | .psw => r.psw

/-- Sets a pair to a popped word. -/
def setStackPair (r : Registers) (p : StackPair) (w : UInt16) : Registers :=
  match p with
  | .bc => r.setBc w
  | .de => r.setDe w
  | .hl => r.setHl w
  | .psw => r.setPsw w

/-- Whether a jump, call or return under a condition is taken; with no condition it is. -/
def taken (r : Registers) (condition : Option Condition) : Bool := condition.all r.flags.satisfy

variable (r : Registers) (w : UInt16)

@[simp] theorem bc_setBc : (r.setBc w).bc = w := by simp [setBc, bc]

@[simp] theorem de_setDe : (r.setDe w).de = w := by simp [setDe, de]

@[simp] theorem hl_setHl : (r.setHl w).hl = w := by simp [setHl, hl]

@[simp] theorem pair_setPair (p : RegisterPair) : (r.setPair p w).pair p = w := by
  cases p <;> simp [setPair, pair]

/-- A popped pair holds the popped word, up to the fixed bits of a status word. -/
theorem stackPair_setStackPair (p : StackPair) : (r.setStackPair p w).stackPair p =
    if p = .psw then wordOf (highByte w) (Flags.ofStatus (lowByte w)).status else w := by
  cases p <;> simp [setStackPair, stackPair, setPsw, psw]

end Registers

end Intel8080
