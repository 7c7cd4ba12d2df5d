import Intel8080.Alu
import Intel8080.Bus.Basic
import Intel8080.Instruction.Opcode
import Intel8080.Registers.Basic

/-!
# What instructions do

An instruction reads at most one place and writes at most one place besides its own bytes, and all
it writes is settled by the registers and by what it has read. So its meaning is a function from
the register file, its operand and the data it read to an `Effect`, and says nothing of buses,
faults or the treatment of undocumented bytes. The program counter of the register file is already
past the instruction.
-/

namespace Intel8080

/-- The register file that an instruction leaves, and the value it stores at a place. -/
structure Effect where
  registers : Registers
  target : Location := .nowhere
  value : UInt16 := 0
  /-- Whether a call or return was taken. -/
  taken : Bool := false
deriving DecidableEq, Repr, Inhabited

namespace Registers

/-- A byte operand, given the byte that HL points at. -/
def get (r : Registers) (memoryByte : UInt8) : Register → UInt8
  | .b => r.b
  | .c => r.c
  | .d => r.d
  | .e => r.e
  | .h => r.h
  | .l => r.l
  | .m => memoryByte
  | .a => r.a

/-- Sets a byte operand, for `m` by storing at HL. -/
def assign (r : Registers) (dst : Register) (v : UInt8) : Effect :=
  match dst with
  | .b => { registers := { r with b := v } }
  | .c => { registers := { r with c := v } }
  | .d => { registers := { r with d := v } }
  | .e => { registers := { r with e := v } }
  | .h => { registers := { r with h := v } }
  | .l => { registers := { r with l := v } }
  | .m => { registers := r, target := .byte r.hl, value := v.toUInt16 }
  | .a => { registers := { r with a := v } }

/-- Stores a word below the stack pointer and moves the pointer down to it. -/
def push (r : Registers) (w : UInt16) : Effect where
  registers := { r with sp := r.sp - 2 }
  target := .word (r.sp - 2)
  value := w

def dropWord (r : Registers) : Registers := { r with sp := r.sp + 2 }

def callTo (r : Registers) (address : UInt16) : Effect :=
  let pushed := r.push r.pc
  { pushed with registers := { pushed.registers with pc := address } }

def operate (r : Registers) (op : AluOp) (v : UInt8) : Registers :=
  let (a, flags) := Alu.apply op r.a v r.flags
  { r with a, flags }

end Registers

namespace Instruction

/-- The place of the data that an instruction reads, given its operand. -/
def source (i : Instruction) (r : Registers) (operand : UInt16) : Location :=
  match i with
  | mov _ .m | alu _ .m | inr .m | dcr .m => .byte r.hl
  | lda => .byte operand
  | lhld => .word operand
  | ldax pointer => .byte (r.pair pointer)
  | ret condition => if r.taken condition then .word r.sp else .nowhere
  | pop _ | xthl => .word r.sp
  | _ => .nowhere

/-- What a documented instruction does, given its operand and the data it has read. An undocumented
byte does nothing of its own: its alias runs. -/
def execute (i : Instruction) (r : Registers) (operand data : UInt16) : Effect :=
  match i with
  | nop | hlt | input | output | undocumented _ => { registers := r }
  | mov dst src => r.assign dst (r.get (lowByte data) src)
  | mvi dst => r.assign dst (lowByte operand)
  | lxi dst => { registers := r.setPair dst operand }
  | lda | ldax _ => { registers := { r with a := lowByte data } }
  | sta => { registers := r, target := .byte operand, value := r.a.toUInt16 }
  | stax pointer => { registers := r, target := .byte (r.pair pointer), value := r.a.toUInt16 }
  | lhld => { registers := r.setHl data }
  | shld => { registers := r, target := .word operand, value := r.hl }
  | xchg => { registers := (r.setDe r.hl).setHl r.de }
  | alu op src => { registers := r.operate op (r.get (lowByte data) src) }
  | aluImmediate op => { registers := r.operate op (lowByte operand) }
  | inr x =>
    let (v, flags) := Alu.increment (r.get (lowByte data) x) r.flags
    { r with flags }.assign x v
  | dcr x =>
    let (v, flags) := Alu.decrement (r.get (lowByte data) x) r.flags
    { r with flags }.assign x v
  | inx p => { registers := r.setPair p (r.pair p + 1) }
  | dcx p => { registers := r.setPair p (r.pair p - 1) }
  | dad p =>
    let flags := { r.flags with carry := r.hl.toNat + (r.pair p).toNat > 0xffff }
    { registers := { r.setHl (r.hl + r.pair p) with flags } }
  | daa =>
    let (a, flags) := Alu.decimalAdjust r.a r.flags
    { registers := { r with a, flags } }
  | rotate kind =>
    let (a, carry) := Alu.rotate kind r.a r.flags.carry
    { registers := { r with a, flags := { r.flags with carry } } }
  | cma => { registers := { r with a := ~~~r.a } }
  | stc => { registers := { r with flags := { r.flags with carry := true } } }
  | cmc => { registers := { r with flags := { r.flags with carry := !r.flags.carry } } }
  | jump condition =>
    { registers := if r.taken condition then { r with pc := operand } else r }
  | call condition =>
    if r.taken condition then { r.callTo operand with taken := true } else { registers := r }
  | ret condition =>
    if r.taken condition then { registers := { r.dropWord with pc := data }, taken := true }
    else { registers := r }
  | rst vector => r.callTo (UInt16.ofNat (8 * vector.val))
  | pchl => { registers := { r with pc := r.hl } }
  | sphl => { registers := { r with sp := r.hl } }
  | xthl => { registers := r.setHl data, target := .word r.sp, value := r.hl }
  | push p => r.push (r.stackPair p)
  | pop p => { registers := r.dropWord.setStackPair p data }
  | ei => { registers := { r with interruptsEnabled := true } }
  | di => { registers := { r with interruptsEnabled := false } }

end Instruction

end Intel8080
