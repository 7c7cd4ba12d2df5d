import Intel8080.Flags
import Mathlib.Algebra.Group.Nat.Defs

/-!
# A reference interpreter on numbers

The processor told a second time, from the octal digits of its opcodes. Registers and bytes are
plain numbers, sums and differences are those of the integers and are brought back to eight or
sixteen bits where they are kept, and an opcode is looked at through its three digits `x`, `y` and
`z` only. Nothing here decodes an opcode to an instruction or shares arithmetic with the processor.

The digit `y` is a register (B C D E H L M A), a condition (NZ Z NC C PO PE P M) or an operation
(ADD ADC SUB SBB ANA XRA ORA CMP); its half is a pair (BC DE HL, and SP or the status word).
-/

namespace Intel8080.Reference

/-- An integer brought back to eight bits. -/
def byte (n : Int) : Nat := (n % 256).toNat

/-- An integer brought back to sixteen bits. -/
def word (n : Int) : Nat := (n % 65536).toNat

/-- A refused write. -/
structure Refusal where
  /-- Whether it was to read-only memory; otherwise there is no memory at the address. -/
  readOnly : Bool
  address : Nat
  value : Nat
deriving DecidableEq

/-- An opcode that is not run, where it stands, and how it is disassembled. -/
structure Unknown where
  address : Nat
  opcode : Nat
  disassembly : String
deriving DecidableEq

/-- A processor and its memory as numbers. -/
structure State where
  a : Nat
  b : Nat
  c : Nat
  d : Nat
  e : Nat
  h : Nat
  l : Nat
  sp : Nat
  pc : Nat
  flags : Flags
  interruptsEnabled : Bool
  /-- Whether undocumented opcodes run as their aliases. -/
  runsAliases : Bool
  memory : Nat → Nat
  romEnd : Nat
  ramEnd : Nat
  /-- The oldest refused writes, at most 256. -/
  refusals : List Refusal
  /-- The number of all refused writes, at most 2⁶⁴ - 1. -/
  refusalCount : Nat

/-- The cycles of a step or the opcode that stopped it, and the state after it. -/
abbrev Result := Except Unknown Nat × State

namespace State

variable (s : State)

/-! ## Memory -/

/-- Notes that a byte was not stored. -/
def refuse (address value : Nat) : State :=
  let refusal : Refusal := ⟨address < s.romEnd, address, value⟩
  { s with
    refusals := if s.refusals.length < 256 then s.refusals ++ [refusal] else s.refusals
    refusalCount := min (s.refusalCount + 1) (2 ^ 64 - 1) }

/-- Stores a byte between the two bounds of the writable memory. -/
def store (address value : Nat) : State :=
  if s.romEnd ≤ address ∧ address < s.ramEnd then
    { s with memory := fun i ↦ if i = address then value else s.memory i }
  else s.refuse address value

def loadWord (address : Nat) : Nat :=
  256 * s.memory (word (address + 1)) + s.memory address

def storeWord (address value : Nat) : State :=
  (s.store address (value % 256)).store (word (address + 1)) (value / 256)

def immediate : Nat := s.memory (word (s.pc + 1))

def immediateWord : Nat := s.loadWord (word (s.pc + 1))

def skip (length : Nat) : State := { s with pc := word (s.pc + length) }

/-! ## Registers, pairs and conditions by their codes -/

def bc : Nat := 256 * s.b + s.c

def de : Nat := 256 * s.d + s.e

def hl : Nat := 256 * s.h + s.l

def get : Nat → Nat
  | 0 => s.b | 1 => s.c | 2 => s.d | 3 => s.e | 4 => s.h | 5 => s.l | 6 => s.memory s.hl | _ => s.a

def set (code value : Nat) : State :=
  match code with
  | 0 => { s with b := value }
  | 1 => { s with c := value }
  | 2 => { s with d := value }
  | 3 => { s with e := value }
  | 4 => { s with h := value }
  | 5 => { s with l := value }
  | 6 => s.store s.hl value
  | _ => { s with a := value }

def pair : Nat → Nat
  | 0 => s.bc | 1 => s.de | 2 => s.hl | _ => s.sp

def setPair (code value : Nat) : State :=
  match code with
  | 0 => { s with b := value / 256, c := value % 256 }
  | 1 => { s with d := value / 256, e := value % 256 }
  | 2 => { s with h := value / 256, l := value % 256 }
  | _ => { s with sp := value }

/-- The status byte: sign, zero, auxiliary carry, parity and carry at their bits. -/
def status : Nat :=
  128 * s.flags.sign.toNat + 64 * s.flags.zero.toNat + 16 * s.flags.auxCarry.toNat
    + 4 * s.flags.parity.toNat + 2 + s.flags.carry.toNat

/-- The word that pushing the pair with a code stores. -/
def stackPair : Nat → Nat
  | 3 => 256 * s.a + s.status
  | code => s.pair code

def setStackPair (code value : Nat) : State :=
  match code with
  | 3 =>
    let bit (place : Nat) : Bool := value / place % 2 = 1
    { s with
      a := value / 256
      flags := {
        sign := bit 128, zero := bit 64, auxCarry := bit 16, parity := bit 4, carry := bit 1 } }
  | code => s.setPair code value

def holds : Nat → Bool
  | 0 => !s.flags.zero | 1 => s.flags.zero | 2 => !s.flags.carry | 3 => s.flags.carry
  | 4 => !s.flags.parity | 5 => s.flags.parity | 6 => !s.flags.sign | _ => s.flags.sign

/-! ## Arithmetic -/

/-- The flags that a byte leaves, the carries kept. -/
def resultFlags (v : Nat) : Flags :=
  { s.flags with
    zero := v = 0
    sign := 128 ≤ v
    parity := (List.range 8).foldl (fun ones i ↦ ones + v / 2 ^ i % 2) 0 % 2 = 0 }

def sum (v carry : Nat) : State :=
  let total := s.a + v + carry
  { s with
    a := byte total
    flags := { s.resultFlags (byte total) with
      carry := 255 < total
      auxCarry := 15 < s.a % 16 + v % 16 + carry } }

/-- The flags of the accumulator less a byte and a borrow. The auxiliary carry is set when the low
digits need no borrow. -/
def differenceFlags (v borrow : Nat) : Flags :=
  let total : Int := s.a - v - borrow
  { s.resultFlags (byte total) with
    carry := total < 0
    auxCarry := v % 16 + borrow ≤ s.a % 16 }

def difference (v borrow : Nat) : State :=
  { s with a := byte (s.a - v - borrow), flags := s.differenceFlags v borrow }

/-- A bitwise result, which clears both carries. -/
def logic (v : Nat) : State :=
  { s with a := v, flags := { s.resultFlags v with carry := false, auxCarry := false } }

def operate (code v : Nat) : State :=
  match code with
  | 0 => s.sum v 0
  | 1 => s.sum v s.flags.carry.toNat
  | 2 => s.difference v 0
  | 3 => s.difference v s.flags.carry.toNat
  | 4 => s.logic (s.a &&& v)
  | 5 => s.logic (s.a ^^^ v)
  | 6 => s.logic (s.a ||| v)
  | _ => { s with flags := s.differenceFlags v 0 }

def increment (code : Nat) : State :=
  let v := byte (s.get code + 1)
  { s with flags := { s.resultFlags v with auxCarry := s.get code % 16 = 15 } }.set code v

def decrement (code : Nat) : State :=
  let v := byte ((s.get code : Int) - 1)
  { s with flags := { s.resultFlags v with auxCarry := s.get code % 16 ≠ 0 } }.set code v

/-- Adds a word to HL, with the carry out of it. -/
def addPair (w : Nat) : State :=
  let sum := s.setPair 2 (word (s.hl + w))
  { sum with flags := { s.flags with carry := 65535 < s.hl + w } }

/-- Decimal adjustment: six for a low digit above nine or carried, sixteen sixes for a byte above
ninety-nine (in hexadecimal) or carried, which also sets the carry. -/
def adjust : State :=
  let low := 9 < s.a % 16 || s.flags.auxCarry
  let high := 0x99 < s.a || s.flags.carry
  let v := byte (s.a + 6 * low.toNat + 96 * high.toNat)
  { s with a := v, flags := { s.resultFlags v with carry := high, auxCarry := 9 < s.a % 16 } }

/-- The accumulator's own operation with a code. -/
def accumulator : Nat → State
  | 0 => { s with a := 2 * s.a % 256 + s.a / 128, flags := { s.flags with carry := 128 ≤ s.a } }
  | 1 => { s with a := s.a / 2 + 128 * (s.a % 2), flags := { s.flags with carry := s.a % 2 = 1 } }
  | 2 => { s with
      a := 2 * s.a % 256 + s.flags.carry.toNat, flags := { s.flags with carry := 128 ≤ s.a } }
  | 3 => { s with
      a := s.a / 2 + 128 * s.flags.carry.toNat, flags := { s.flags with carry := s.a % 2 = 1 } }
  | 4 => s.adjust
  | 5 => { s with a := 255 - s.a }
  | 6 => { s with flags := { s.flags with carry := true } }
  | _ => { s with flags := { s.flags with carry := !s.flags.carry } }

/-! ## The stack -/

def push (value : Nat) : State :=
  let top := word (s.sp - 2)
  { s.storeWord top value with sp := top }

def top : Nat := s.loadWord s.sp

def drop : State := { s with sp := word (s.sp + 2) }

def jump (address : Nat) : State := { s with pc := address }

def call (address : Nat) : State := (s.push s.pc).jump address

def ret : State := s.drop.jump s.top

/-! ## Opcodes by their digits -/

/-- A step that costs the given cycles. -/
def done (cycles : Nat) : Result := (.ok cycles, s)

/-- An undocumented opcode, given what its alias does. -/
def undocumented (like : Result) : Result :=
  if s.runsAliases then like else (.error ⟨s.pc, s.memory s.pc, "UNKNOWN"⟩, s)

/-- Opcodes with `x = 0`: loads, stores, counting, the accumulator's own operations. -/
def first (y z : Nat) : Result :=
  match z with
  | 0 => if y = 0 then (s.skip 1).done 4 else s.undocumented ((s.skip 1).done 4)
  | 1 =>
    if y % 2 = 0 then ((s.setPair (y / 2) s.immediateWord).skip 3).done 10
    else ((s.addPair (s.pair (y / 2))).skip 1).done 10
  | 2 =>
    match y with
    | 0 => ((s.store s.bc s.a).skip 1).done 7
    | 1 => ({ s with a := s.memory s.bc }.skip 1).done 7
    | 2 => ((s.store s.de s.a).skip 1).done 7
    | 3 => ({ s with a := s.memory s.de }.skip 1).done 7
    | 4 => ((s.storeWord s.immediateWord s.hl).skip 3).done 16
    | 5 => ((s.setPair 2 (s.loadWord s.immediateWord)).skip 3).done 16
    | 6 => ((s.store s.immediateWord s.a).skip 3).done 13
    | _ => ({ s with a := s.memory s.immediateWord }.skip 3).done 13
  | 3 =>
    if y % 2 = 0 then ((s.setPair (y / 2) (word (s.pair (y / 2) + 1))).skip 1).done 5
    else ((s.setPair (y / 2) (word ((s.pair (y / 2) : Int) - 1))).skip 1).done 5
  | 4 => ((s.increment y).skip 1).done (if y = 6 then 10 else 5)
  | 5 => ((s.decrement y).skip 1).done (if y = 6 then 10 else 5)
  | 6 => ((s.set y s.immediate).skip 2).done (if y = 6 then 10 else 7)
  | _ => ((s.accumulator y).skip 1).done 4

/-- Opcodes with `x = 1`: moves, and the halt, which does nothing. -/
def move (y z : Nat) : Result :=
  if y = 6 ∧ z = 6 then (s.skip 1).done 7
  else ((s.set y (s.get z)).skip 1).done (if y = 6 ∨ z = 6 then 7 else 5)

/-- Opcodes with `x = 2`: operations on a register. -/
def combine (y z : Nat) : Result :=
  ((s.operate y (s.get z)).skip 1).done (if z = 6 then 7 else 4)

/-- Opcodes with `x = 3`: control transfer, the stack, operations on the byte after the opcode. -/
def last (y z : Nat) : Result :=
  match z with
  | 0 => if s.holds y then s.ret.done 11 else (s.skip 1).done 5
  | 1 =>
    if y % 2 = 0 then ((s.drop.setStackPair (y / 2) s.top).skip 1).done 10
    else match y with
    | 1 => s.ret.done 10
    | 3 => s.undocumented (s.ret.done 10)
    | 5 => (s.jump s.hl).done 5
    | _ => ({ s with sp := s.hl }.skip 1).done 5
  | 2 => if s.holds y then (s.jump s.immediateWord).done 10 else (s.skip 3).done 10
  | 3 =>
    match y with
    | 0 => (s.jump s.immediateWord).done 10
    | 1 => s.undocumented ((s.jump s.immediateWord).done 10)
    | 2 => (s.skip 2).done 10
    | 3 => (s.skip 2).done 10
    | 4 => (((s.storeWord s.sp s.hl).setPair 2 s.top).skip 1).done 18
    | 5 => ({ s with d := s.h, e := s.l, h := s.d, l := s.e }.skip 1).done 4
    | 6 => ({ s with interruptsEnabled := false }.skip 1).done 4
    | _ => ({ s with interruptsEnabled := true }.skip 1).done 4
  | 4 => if s.holds y then ((s.skip 3).call s.immediateWord).done 17 else (s.skip 3).done 11
  | 5 =>
    if y % 2 = 0 then ((s.push (s.stackPair (y / 2))).skip 1).done 11
    else if y = 1 then ((s.skip 3).call s.immediateWord).done 17
    else s.undocumented (((s.skip 3).call s.immediateWord).done 17)
  | 6 => ((s.operate y s.immediate).skip 2).done 7
  | _ => ((s.skip 1).call (8 * y)).done 11

/-- The opcode with the given digits. -/
def run (x y z : Nat) : Result :=
  match x with
  | 0 => s.first y z
  | 1 => s.move y z
  | 2 => s.combine y z
  | _ => s.last y z

/-- One step, by the octal digits of the opcode at the program counter. -/
def step : Result :=
  let opcode := s.memory s.pc
  s.run (opcode / 64) (opcode / 8 % 8) (opcode % 8)

end State

end Intel8080.Reference
