import Intel8080.Column
import Intel8080.Hex
import Intel8080.Instruction.Cost
import Intel8080.Instruction.Mnemonic
import Intel8080.Word

/-!
# Disassembling one instruction

An instruction of an image as text, with its offset and its bytes. Operand bytes beyond the end of
the image read as zero. Main statement: `text_disassembleAt_congr`, only three bytes matter to the
text.
-/

namespace Intel8080

/-- One instruction of an image. -/
structure Disassembly where
  /-- Where the opcode byte stands in the image. -/
  offset : Nat
  /-- Those bytes of the instruction that the image has. -/
  bytes : List UInt8
  /-- The number of bytes of the whole instruction. -/
  length : Nat
  /-- The mnemonic and the operands. -/
  text : String
deriving DecidableEq, Repr, Inhabited

namespace Instruction

def byteText (v : UInt8) : String := "#$" ++ Hex.upper 2 v.toNat

def wordText (w : UInt16) : String := "#$" ++ Hex.upper 4 w.toNat

def addressText (w : UInt16) : String := "$" ++ Hex.upper 4 w.toNat

/-- The operands, if the instruction has any, given the two bytes after the opcode as a word. -/
def operandText (i : Instruction) (operand : UInt16) : Option String :=
  match i with
  | mov dst src => some (dst.name ++ "," ++ src.name)
  | mvi dst => some (dst.name ++ "," ++ byteText (lowByte operand))
  | lxi dst => some (dst.name ++ "," ++ wordText operand)
  | lda | sta | lhld | shld | jump _ | call _ => some (addressText operand)
  | ldax p | stax p | inx p | dcx p | dad p => some p.name
  | alu _ r | inr r | dcr r => some r.name
  | aluImmediate _ | input | output => some (byteText (lowByte operand))
  | rst vector => some (toString vector.val)
  | push p | pop p => some p.name
  | _ => none

/-- The mnemonic and the operands, given the two bytes after the opcode as a word. -/
def text (i : Instruction) (operand : UInt16) : String :=
  match i.operandText operand with
  | some operands => i.mnemonic ++ " " ++ operands
  | none => i.mnemonic

@[simp] theorem text_undocumented (s : Alias) (operand : UInt16) :
    (undocumented s).text operand = unknown := rfl

end Instruction

/-- The byte at an index of an image, zero beyond its end. -/
def byteAt (image : List UInt8) (index : Nat) : UInt8 := image.getD index 0

/-- The instruction at the head of the bytes that an image has from an offset on. -/
def disassembleAt (offset : Nat) (rest : List UInt8) : Disassembly :=
  let i := Instruction.decode (byteAt rest 0)
  { offset
    bytes := rest.take i.length
    length := i.length
    text := i.text (wordOf (byteAt rest 2) (byteAt rest 1)) }

def disassemble (image : List UInt8) (offset : Nat) : Disassembly :=
  disassembleAt offset (image.drop offset)

namespace Disassembly

/-- The bytes as pairs of digits with blanks between them. -/
def hexColumn (d : Disassembly) : String :=
  " ".intercalate (d.bytes.map fun v ↦ Hex.upper 2 v.toNat)

/-- The line of a listing: offset, bytes and text in columns. -/
def line (d : Disassembly) : String :=
  Hex.upper 4 d.offset ++ "  " ++ leftAligned 8 d.hexColumn ++ "  " ++ d.text

end Disassembly

variable {rest : List UInt8} {offset : Nat}

/-- Bytes beyond the end read as zero, so zeros put there are not seen. -/
theorem byteAt_append_zeros (rest : List UInt8) (count index : Nat) :
    byteAt (rest ++ List.replicate count 0) index = byteAt rest index := by
  grind [byteAt]

@[simp] theorem offset_disassembleAt : (disassembleAt offset rest).offset = offset := rfl

theorem length_disassembleAt_pos : 0 < (disassembleAt offset rest).length :=
  Instruction.length_pos _

/-- Only the three bytes at the offset matter to the text. -/
theorem text_disassembleAt_congr {rest' : List UInt8} {offset' : Nat}
    (h : ∀ i < 3, byteAt rest i = byteAt rest' i) :
    (disassembleAt offset rest).text = (disassembleAt offset' rest').text := by
  simp only [disassembleAt, h 0 (by decide), h 1 (by decide), h 2 (by decide)]

end Intel8080
