import Intel8080.Disassembly.Listing

/-!
# What a listing covers

The lines of a listing lie over the image as tiles do: the first at its start, each where the one
before it ends, and the last up to its end or beyond it. Main statements: `tiles_listing`, and
`covers_listing`, which says of each line which bytes of the image it shows.
-/

namespace Intel8080

variable {image : List UInt8} {offset : Nat} {lines : List Disassembly}

/-! ## One line -/

@[simp] theorem offset_disassemble : (disassemble image offset).offset = offset := rfl

theorem bytes_disassemble : (disassemble image offset).bytes =
    (image.drop offset).take (disassemble image offset).length := rfl

theorem length_disassemble_pos (image : List UInt8) (offset : Nat) :
    0 < (disassemble image offset).length := length_disassembleAt_pos

/-- No instruction is longer than three bytes. -/
theorem length_disassemble_le (image : List UInt8) (offset : Nat) :
    (disassemble image offset).length ≤ 3 := by
  have hoperand := (Instruction.decode (byteAt (image.drop offset) 0)).operandBytes_le_two
  change 1 + (Instruction.decode (byteAt (image.drop offset) 0)).operandBytes ≤ 3
  omega

/-- A line shows those bytes of its instruction that the image has. -/
theorem bytes_disassemble_eq_extract (image : List UInt8) (offset : Nat) :
    (disassemble image offset).bytes =
      image.extract offset (min (offset + (disassemble image offset).length) image.length) := by
  rw [bytes_disassemble, List.extract_eq_take_drop, List.take_eq_take_iff, List.length_drop]
  omega

theorem length_bytes_disassemble_le (image : List UInt8) (offset : Nat) :
    (disassemble image offset).bytes.length ≤ 3 := by
  have hle := length_disassemble_le image offset
  rw [bytes_disassemble, List.length_take]
  omega

/-- Before the end of the image an instruction has at least its opcode byte. -/
theorem bytes_disassemble_ne_nil (h : offset < image.length) :
    (disassemble image offset).bytes ≠ [] := by
  have hpos := length_disassemble_pos image offset
  rw [bytes_disassemble, List.ne_nil_iff_length_pos, List.length_take, List.length_drop]
  omega

/-- A line within the image shows all bytes of its instruction. -/
theorem length_bytes_disassemble
    (h : offset + (disassemble image offset).length ≤ image.length) :
    (disassemble image offset).bytes.length = (disassemble image offset).length := by
  rw [bytes_disassemble, List.length_take, List.length_drop]
  omega

/-! ## All lines -/

/-- The number of bytes of the instructions of the first `k` lines. -/
def span : List Disassembly → Nat → Nat
  | d :: lines, k + 1 => d.length + span lines k
  | _, _ => 0

@[simp] theorem span_zero (lines : List Disassembly) : span lines 0 = 0 := by
  cases lines <;> rfl

theorem span_succ {k : Nat} {d : Disassembly} (hd : lines[k]? = some d) :
    span lines (k + 1) = span lines k + d.length := by
  induction lines generalizing k with
  | nil => cases hd
  | cons first lines ih =>
    cases k with
    | zero =>
      cases hd
      simp [span]
    | succ k => rw [span, ih hd, span, Nat.add_assoc]

/-- The lines go from an offset of an image to its end, each from where the one before it ends. -/
inductive Tiles (image : List UInt8) : Nat → List Disassembly → Prop where
  | nil {offset : Nat} (h : image.length ≤ offset) : Tiles image offset []
  | cons {offset : Nat} {lines : List Disassembly} (h : offset < image.length)
      (hrest : Tiles image (offset + (disassemble image offset).length) lines) :
      Tiles image offset (disassemble image offset :: lines)

/-- The walk lists the instruction at its offset and goes on behind it. -/
theorem linesFrom_drop_of_lt (h : offset < image.length) :
    linesFrom offset (image.drop offset) = disassemble image offset ::
      linesFrom (offset + (disassemble image offset).length)
        (image.drop (offset + (disassemble image offset).length)) := by
  have hcons := List.drop_eq_getElem_cons h
  have hlength : (disassemble image offset).length = (Instruction.decode image[offset]).length := by
    simp only [disassemble, hcons]
    rfl
  have hrest : (image.drop (offset + 1)).drop (Instruction.decode image[offset]).operandBytes =
      image.drop (offset + (disassemble image offset).length) := by
    rw [List.drop_drop, hlength, Instruction.length, Nat.add_assoc]
  rw [← hrest, hlength, disassemble, hcons, linesFrom_cons]

/-- The lines from an offset on tile the rest of the image. -/
theorem tiles_linesFrom (image : List UInt8) (offset : Nat) :
    Tiles image offset (linesFrom offset (image.drop offset)) := by
  -- on the bytes that are left, of which each line takes at least one
  induction hrest : image.length - offset using Nat.strongRecOn generalizing offset with
  | ind n ih =>
    rcases Nat.lt_or_ge offset image.length with h | h
    · have hpos := length_disassemble_pos image offset
      rw [linesFrom_drop_of_lt h]
      exact .cons h (ih _ (by omega) _ rfl)
    · rw [List.drop_eq_nil_of_le h, linesFrom_nil]
      exact .nil h

/-- The lines of a listing lie over the whole image. -/
theorem tiles_listing (image : List UInt8) : Tiles image 0 (listing image) :=
  tiles_linesFrom image 0

namespace Tiles

/-- There are at most as many lines as bytes. -/
theorem length_le (h : Tiles image offset lines) : lines.length ≤ image.length - offset := by
  induction h with
  | nil => exact Nat.zero_le _
  | @cons offset _ hlt _ ih =>
    have hpos := length_disassemble_pos image offset
    rw [List.length_cons]
    omega

/-- A line stands past the instructions of the lines before it, and within the image. -/
theorem eq_disassemble (h : Tiles image offset lines) {k : Nat} {d : Disassembly}
    (hd : lines[k]? = some d) :
    d = disassemble image (offset + span lines k) ∧ offset + span lines k < image.length := by
  induction h generalizing k with
  | nil => cases hd
  | cons hlt _ ih =>
    cases k with
    | zero =>
      cases hd
      exact ⟨rfl, hlt⟩
    | succ k =>
      rw [span, ← Nat.add_assoc]
      exact ih hd

/-- The offset of a line is the length of all lines before it. -/
theorem offset_eq (h : Tiles image offset lines) {k : Nat} {d : Disassembly}
    (hd : lines[k]? = some d) : d.offset = offset + span lines k := by
  obtain ⟨heq, -⟩ := h.eq_disassemble hd
  rw [heq, offset_disassemble]

/-- The instruction of the last line ends where the image does or past it. -/
theorem length_image_le (h : Tiles image offset lines) {d : Disassembly}
    (hd : lines.getLast? = some d) : image.length ≤ d.offset + d.length := by
  induction h with
  | nil => cases hd
  | cons _ hrest ih =>
    cases hrest with
    | nil hend =>
      cases hd
      exact hend
    | cons hlt hrest =>
      rw [List.getLast?_cons_cons] at hd
      exact ih hd

/-- Only the last line goes beyond the image. -/
theorem add_length_lt (h : Tiles image offset lines) {d : Disassembly} (hd : d ∈ lines.dropLast) :
    d.offset + d.length < image.length := by
  induction h with
  | nil => cases hd
  | cons _ hrest ih =>
    cases hrest with
    | nil => cases hd
    | cons hlt hrest =>
      rw [List.dropLast_cons_cons, List.mem_cons] at hd
      obtain rfl | hd := hd
      · exact hlt
      · exact ih hd

end Tiles

section Listing

variable {d : Disassembly}

/-- A line of a listing stands past the instructions of the lines before it. -/
theorem offset_listing {k : Nat} (hd : (listing image)[k]? = some d) :
    d.offset = span (listing image) k := by
  rw [(tiles_listing image).offset_eq hd, Nat.zero_add]

/-- Each line of a listing shows the instruction where it stands. -/
theorem eq_disassemble_of_mem (hd : d ∈ listing image) : d = disassemble image d.offset := by
  obtain ⟨k, hk⟩ := List.mem_iff_getElem?.1 hd
  obtain ⟨heq, -⟩ := (tiles_listing image).eq_disassemble hk
  rw [heq, offset_disassemble]

theorem offset_lt_of_mem (hd : d ∈ listing image) : d.offset < image.length := by
  obtain ⟨k, hk⟩ := List.mem_iff_getElem?.1 hd
  obtain ⟨heq, hlt⟩ := (tiles_listing image).eq_disassemble hk
  rwa [heq, offset_disassemble]

end Listing

/-- The lines show an image from its first to its last byte, each byte once. -/
structure Covers (lines : List Disassembly) (image : List UInt8) : Prop where
  /-- There are finitely many lines, no more than there are bytes. -/
  length_le : lines.length ≤ image.length
  /-- The first line stands at the start of the image, and only of an empty image there is none. -/
  head? : lines.head?.map Disassembly.offset = if image = [] then none else some 0
  /-- Each line stands where the instruction of the line before it ends. -/
  next : ∀ k d e, lines[k]? = some d → lines[k + 1]? = some e → e.offset = d.offset + d.length
  /-- The instruction of the last line ends where the image does or past it. -/
  last : ∀ d, lines.getLast? = some d → image.length ≤ d.offset + d.length
  /-- Each line shows at least one byte. -/
  bytes_ne_nil : ∀ d ∈ lines, d.bytes ≠ []
  /-- Each line shows those bytes of its instruction that the image has. -/
  bytes_eq : ∀ d ∈ lines,
    d.bytes = image.extract d.offset (min (d.offset + d.length) image.length)
  /-- The bytes of all lines together are the image. -/
  flatMap_bytes : lines.flatMap Disassembly.bytes = image
  /-- Each line but the last shows all bytes of its instruction. -/
  complete : ∀ d ∈ lines.dropLast, d.bytes.length = d.length

/-- A listing covers its image without gaps or overlaps. -/
theorem covers_listing (image : List UInt8) : Covers (listing image) image where
  length_le := (tiles_listing image).length_le
  head? := by
    cases image with
    | nil => simp [listing]
    | cons opcode rest => simp [listing, linesFrom_cons]
  next k d e hd he := by
    rw [offset_listing hd, offset_listing he, span_succ hd]
  last d := (tiles_listing image).length_image_le
  bytes_ne_nil d hd := by
    rw [eq_disassemble_of_mem hd]
    exact bytes_disassemble_ne_nil (offset_lt_of_mem hd)
  bytes_eq d hd := by
    have hbytes := bytes_disassemble_eq_extract image d.offset
    rwa [← eq_disassemble_of_mem hd] at hbytes
  flatMap_bytes := bytes_listing image
  complete d hd := by
    have hle := Nat.le_of_lt ((tiles_listing image).add_length_lt hd)
    rw [eq_disassemble_of_mem (List.dropLast_subset _ hd)] at hle ⊢
    exact length_bytes_disassemble hle

end Intel8080
