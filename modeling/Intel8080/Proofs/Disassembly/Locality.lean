import Intel8080.Proofs.Checked.Disassembly
import Intel8080.Proofs.Disassembly.Window

/-!
# Where an instruction stands

What is disassembled at an offset depends on the three bytes there and on nothing before or after
them. So an image that is cut where an instruction ends is listed piece by piece. Main statements:
`disassemble_append` and `listing_append`, and `isLocal`, which has them together.
-/

namespace Intel8080

attribute [ext] Disassembly

namespace Disassembly

/-- The same instruction that many bytes further on. -/
def shift (n : Nat) (d : Disassembly) : Disassembly := { d with offset := n + d.offset }

/-- Whether all bytes of the instruction are there. -/
def HasAllBytes (d : Disassembly) : Prop := d.bytes.length = d.length

end Disassembly

open Disassembly

variable {image rest : List UInt8} {offset : Nat}

/-! ## One instruction -/

/-- The offset is shown and not looked at. -/
theorem disassembleAt_add (n offset : Nat) (rest : List UInt8) :
    disassembleAt (n + offset) rest = (disassembleAt offset rest).shift n := rfl

/-- What comes before makes no difference but to the offset. -/
theorem disassemble_append (earlier image : List UInt8) (offset : Nat) :
    disassemble (earlier ++ image) (earlier.length + offset) =
      (disassemble image offset).shift earlier.length := by
  rw [disassemble, List.drop_length_add_append, disassembleAt_add, disassemble]

theorem disassemble_of_length_le (h : image.length ≤ offset) :
    disassemble image offset = { offset, bytes := [], length := 1, text := "NOP" } := by
  rw [disassemble, List.drop_eq_nil_of_le h]
  rfl

/-- What comes after a complete instruction makes no difference. -/
theorem disassembleAt_cons_append {opcode : UInt8} {tail : List UInt8}
    (h : (Instruction.decode opcode).operandBytes ≤ tail.length) (offset : Nat)
    (later : List UInt8) :
    disassembleAt offset (opcode :: (tail ++ later)) = disassembleAt offset (opcode :: tail) := by
  have htext : (disassembleAt offset (opcode :: (tail ++ later))).text =
      (disassembleAt offset (opcode :: tail)).text := by
    have hle : (Instruction.decode opcode).operandBytes ≤ (tail ++ later).length := by
      rw [List.length_append]
      omega
    have htake := text_disassembleAt_take h hle offset offset
    rw [List.take_left] at htake
    exact htake.symm
  have hbytes : (disassembleAt offset (opcode :: (tail ++ later))).bytes =
      (disassembleAt offset (opcode :: tail)).bytes := by
    rw [bytes_disassembleAt_cons, bytes_disassembleAt_cons, List.take_append_of_le_length h]
  exact Disassembly.ext rfl hbytes rfl htext

theorem byteAt_drop (image : List UInt8) (offset i : Nat) :
    byteAt (image.drop offset) i = byteAt image (offset + i) := by
  simp [byteAt]

/-- The text and the length depend on the three bytes at the offset only. -/
theorem text_length_congr {other : List UInt8} {offset' : Nat}
    (h : ∀ i < 3, byteAt image (offset + i) = byteAt other (offset' + i)) :
    (disassemble image offset).text = (disassemble other offset').text ∧
      (disassemble image offset).length = (disassemble other offset').length := by
  have hdrop : ∀ i < 3, byteAt (image.drop offset) i = byteAt (other.drop offset') i := by
    intro i hi
    rw [byteAt_drop, byteAt_drop, h i hi]
  refine ⟨text_disassembleAt_congr hdrop, ?_⟩
  simp only [disassemble, disassembleAt, hdrop 0 (by decide)]

/-! ## Listings -/

/-- Instructions are taken from the head of the bytes that are left. -/
theorem bytes_induction {motive : Nat → List UInt8 → Prop} (nil : ∀ offset, motive offset [])
    (cons : ∀ offset opcode tail,
      motive (offset + (Instruction.decode opcode).length)
        (tail.drop (Instruction.decode opcode).operandBytes) → motive offset (opcode :: tail))
    (offset : Nat) (bytes : List UInt8) : motive offset bytes := by
  induction h : bytes.length using Nat.strongRecOn generalizing offset bytes with
  | ind n ih =>
    cases bytes with
    | nil => exact nil offset
    | cons opcode tail =>
      refine cons offset opcode tail (ih _ ?_ _ _ rfl)
      rw [List.length_drop, ← h, List.length_cons]
      omega

/-- The lines of the same bytes further on are the same lines, shifted. -/
theorem linesFrom_add (n offset : Nat) (bytes : List UInt8) :
    linesFrom (n + offset) bytes = (linesFrom offset bytes).map (shift n) := by
  induction offset, bytes using bytes_induction with
  | nil offset => simp
  | cons offset opcode tail ih =>
    rw [linesFrom_cons, linesFrom_cons, List.map_cons, Nat.add_assoc, ih, disassembleAt_add]

/-- Bytes whose last instruction is complete are listed as if nothing came after them. -/
theorem linesFrom_append {bytes : List UInt8}
    (h : ∀ d ∈ (linesFrom offset bytes).getLast?, d.HasAllBytes) (later : List UInt8) :
    linesFrom offset (bytes ++ later) =
      linesFrom offset bytes ++ linesFrom (offset + bytes.length) later := by
  induction offset, bytes using bytes_induction with
  | nil offset => simp
  | cons offset opcode tail ih =>
    by_cases hfits : (Instruction.decode opcode).operandBytes ≤ tail.length
    · have hlast : ∀ d ∈ (linesFrom (offset + (Instruction.decode opcode).length)
          (tail.drop (Instruction.decode opcode).operandBytes)).getLast?, d.HasAllBytes := by
        intro d hd
        refine h d ?_
        rw [linesFrom_cons, List.getLast?_cons, Option.mem_def.1 hd]
        rfl
      have hend : offset + (Instruction.decode opcode).length +
          (tail.drop (Instruction.decode opcode).operandBytes).length =
            offset + (opcode :: tail).length := by
        rw [List.length_drop, List.length_cons, Instruction.length]
        omega
      rw [List.cons_append, linesFrom_cons, linesFrom_cons, disassembleAt_cons_append hfits,
        List.drop_append_of_le_length hfits, ih hlast, hend, List.cons_append]
    · -- otherwise the first instruction is the last one, and its operand is cut off
      have hrest : tail.drop (Instruction.decode opcode).operandBytes = [] :=
        List.drop_eq_nil_of_le (Nat.le_of_not_le hfits)
      have hcomplete : (disassembleAt offset (opcode :: tail)).HasAllBytes := by
        refine h _ ?_
        rw [linesFrom_cons, hrest, linesFrom_nil]
        rfl
      rw [HasAllBytes, bytes_disassembleAt_cons, length_disassembleAt_cons, List.length_cons,
        List.length_take] at hcomplete
      omega

/-- A listing whose last instruction is complete goes on as if what follows began anew. -/
theorem listing_append (h : ∀ d ∈ (listing image).getLast?, d.HasAllBytes) (later : List UInt8) :
    listing (image ++ later) = listing image ++ (listing later).map (shift image.length) := by
  rw [listing, linesFrom_append h, Nat.zero_add, ← Nat.add_zero image.length, linesFrom_add]
  rfl

/-! ## Both -/

/-- What an image is disassembled to does not depend on where it stands. -/
structure IsLocal (earlier image : List UInt8) (offset : Nat) : Prop where
  /-- An image that is cut where an instruction ends is listed piece by piece. -/
  listing_append : (∀ d ∈ (listing earlier).getLast?, d.HasAllBytes) →
    listing (earlier ++ image) = listing earlier ++ (listing image).map (shift earlier.length)
  disassemble_append : disassemble (earlier ++ image) (earlier.length + offset) =
    (disassemble image offset).shift earlier.length
  /-- It is disassembled without a failure if the offsets there are numbers of sixty-four bits. -/
  checked : earlier.length + offset + 3 < 2 ^ 64 →
    checkedDisassemble (earlier ++ image) (earlier.length + offset) =
      .ok ((disassemble image offset).shift earlier.length)
  congr : ∀ other offset', (∀ i < 3, byteAt image (offset + i) = byteAt other (offset' + i)) →
    (disassemble image offset).text = (disassemble other offset').text ∧
      (disassemble image offset).length = (disassemble other offset').length
  append_zeros : ∀ count,
    (disassemble (image ++ List.replicate count 0) offset).text = (disassemble image offset).text ∧
      (disassemble (image ++ List.replicate count 0) offset).length =
        (disassemble image offset).length
  /-- From the end on zeros are disassembled of which none is shown. -/
  beyond : image.length ≤ offset →
    disassemble image offset = { offset, bytes := [], length := 1, text := "NOP" }

/-- What is disassembled at a place depends on the bytes there only. -/
theorem isLocal (earlier image : List UInt8) (offset : Nat) : IsLocal earlier image offset := by
  constructor
  case listing_append => exact fun h ↦ listing_append h image
  case disassemble_append => exact disassemble_append earlier image offset
  case checked =>
    intro h
    rw [checkedDisassemble_eq_ok h, disassemble_append]
  case congr => exact fun other offset' h ↦ text_length_congr h
  case append_zeros =>
    exact fun count ↦ text_length_congr fun i _ ↦ byteAt_append_zeros image count (offset + i)
  case beyond => exact disassemble_of_length_le

end Intel8080
