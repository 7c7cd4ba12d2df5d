import Intel8080.Proofs.Disassembly.Coverage
import Intel8080.Proofs.Disassembly.Text
import Mathlib.Data.List.Basic

/-!
# Reading a listing back

A listing shows the bytes of its image in one of its columns, so the image can be read off the text.
A line begins with the digits of its offset, however many they are; the column of the bytes comes
after two blanks and is eight characters wide. Main statements: `splitOn_listingText`, the text
falls into its lines; `bytesOfLine_line`, a line gives back the bytes that it shows; and
`listing_lossless`, a listing covers its image and its text gives the image back.
-/

namespace Intel8080

/-! ## The column of the bytes -/

namespace Disassembly

/-- The bytes of a line stand as pairs of digits with blanks between them. -/
theorem toList_hexColumn (d : Disassembly) : d.hexColumn.toList =
    [' '].intercalate (d.bytes.map fun v ↦ Hex.padded .upper 2 v.toNat) := by
  simp [hexColumn, String.toList_intercalate, Function.comp_def]

/-- Without the blanks between them there are the digits of the bytes. -/
theorem filter_hexColumn (d : Disassembly) : d.hexColumn.toList.filter (· != ' ') =
    d.bytes.flatMap fun v ↦ Hex.padded .upper 2 v.toNat := by
  have hdigits (v : UInt8) : (Hex.padded .upper 2 v.toNat).filter (· != ' ') =
      Hex.padded .upper 2 v.toNat :=
    List.filter_eq_self.2 fun _ ↦ Hex.bne_blank_of_mem_padded
  rw [toList_hexColumn]
  induction d.bytes with
  | nil => rfl
  | cons v bytes ih =>
    cases bytes with
    | nil => simp [hdigits]
    | cons w bytes =>
      simp only [List.map_cons] at ih ⊢
      rw [List.intercalate_cons_cons, List.filter_append, List.filter_append, hdigits, ih]
      simp

/-- Three bytes fit the column for them. -/
theorem length_hexColumn_le {d : Disassembly} (h : d.bytes.length ≤ 3) :
    d.hexColumn.toList.length ≤ 8 := by
  rw [toList_hexColumn]
  match d.bytes, h with
  | [], _ | [_], _ | [_, _], _ | [_, _, _], _ => simp [Hex.padded_two]

theorem length_rightpad_hexColumn {d : Disassembly} (h : d.bytes.length ≤ 3) :
    (d.hexColumn.toList.rightpad 8 ' ').length = 8 := by
  have hle := length_hexColumn_le h
  rw [List.rightpad, List.length_append, List.length_replicate]
  omega

/-- No line that shows an instruction has a line break in it. -/
theorem newline_notMem_line (image : List UInt8) (offset : Nat) :
    '\n' ∉ (disassemble image offset).line.toList := by
  have hcolumn : '\n' ∉ (disassemble image offset).hexColumn.toList := by
    intro hmem
    have hfilter : '\n' ∈ (disassemble image offset).hexColumn.toList.filter (· != ' ') :=
      List.mem_filter.2 ⟨hmem, rfl⟩
    rw [filter_hexColumn] at hfilter
    obtain ⟨v, -, hv⟩ := List.mem_flatMap.1 hfilter
    exact newline_notMem_padded 2 v.toNat hv
  have htext : '\n' ∉ (disassemble image offset).text.toList :=
    Instruction.newline_notMem_text _ _
  simp [line, hcolumn, htext, newline_notMem_padded, List.rightpad]

end Disassembly

def bytesOfDigits : List Char → List UInt8
  | high :: low :: rest => Hex.byteOf high low :: bytesOfDigits rest
  | _ => []

/-- The column of a line in which its bytes are. -/
def columnOfLine (line : List Char) : List Char := ((line.dropWhile (· != ' ')).drop 2).take 8

def bytesOfLine (line : List Char) : List UInt8 :=
  bytesOfDigits ((columnOfLine line).filter (· != ' '))

/-- The image that a listing shows. -/
def imageOfText (text : String) : List UInt8 := (text.toList.splitOn '\n').flatMap bytesOfLine

/-- Pairs of digits are read back as the bytes that they were written for. -/
theorem bytesOfDigits_flatMap (bytes : List UInt8) :
    bytesOfDigits (bytes.flatMap fun v ↦ Hex.padded .upper 2 v.toNat) = bytes := by
  induction bytes with
  | nil => rfl
  | cons v bytes ih =>
    rw [List.flatMap_cons, Hex.padded_two, List.cons_append, List.cons_append, bytesOfDigits,
      Hex.byteOf_digit, List.nil_append, ih]

/-- The column of the bytes is found behind the offset, however long the offset is. -/
theorem columnOfLine_line {d : Disassembly} (h : d.bytes.length ≤ 3) :
    columnOfLine d.line.toList = d.hexColumn.toList.rightpad 8 ' ' := by
  have hoffset : ∀ c ∈ Hex.padded .upper 4 d.offset, (c != ' ') = true :=
    fun _ ↦ Hex.bne_blank_of_mem_padded
  have hlength := Disassembly.length_rightpad_hexColumn h
  simp only [columnOfLine, Disassembly.line, String.toList_append, Hex.toList_upper,
    toList_leftAligned, List.append_assoc]
  -- the first blank is the one after the digits of the offset, so these are what is dropped
  rw [List.dropWhile_append_of_pos hoffset]
  change ((d.hexColumn.toList.rightpad 8 ' ') ++ _).take 8 = _
  rw [List.take_append_of_le_length (Nat.le_of_eq hlength.symm), List.take_of_length_le
    (Nat.le_of_eq hlength)]

/-- A line gives back the bytes that it shows. -/
theorem bytesOfLine_line {d : Disassembly} (h : d.bytes.length ≤ 3) :
    bytesOfLine d.line.toList = d.bytes := by
  rw [bytesOfLine, columnOfLine_line h, List.rightpad, List.filter_append,
    Disassembly.filter_hexColumn, List.filter_replicate]
  simp [bytesOfDigits_flatMap]

/-! ## The text -/

theorem toList_listingText (image : List UInt8) :
    (listingText image).toList = (listing image).flatMap fun d ↦ d.line.toList ++ ['\n'] := by
  simp [listingText, String.toList_join, List.flatMap_map]

section Text

variable {image : List UInt8} {d : Disassembly}

/-- A line break ends a line and is nowhere within it. -/
theorem newline_notMem_line_of_mem (h : d ∈ listing image) : '\n' ∉ d.line.toList := by
  rw [eq_disassemble_of_mem h]
  exact Disassembly.newline_notMem_line image d.offset

/-- A line is read back as the bytes that it shows. -/
theorem bytesOfLine_line_of_mem (h : d ∈ listing image) : bytesOfLine d.line.toList = d.bytes := by
  rw [eq_disassemble_of_mem h]
  exact bytesOfLine_line (length_bytes_disassemble_le image d.offset)

end Text

/-- The text falls into its lines, with nothing after the last line break. -/
theorem splitOn_listingText (image : List UInt8) : (listingText image).toList.splitOn '\n' =
    (listing image).map (fun d ↦ d.line.toList) ++ [[]] := by
  have hlines : ∀ d ∈ listing image, '\n' ∉ d.line.toList := fun _ ↦ newline_notMem_line_of_mem
  rw [toList_listingText]
  generalize listing image = lines at hlines
  induction lines with
  | nil => rfl
  | cons d lines ih =>
    obtain ⟨hd, hrest⟩ := List.forall_mem_cons.1 hlines
    rw [List.flatMap_cons, List.append_assoc, List.singleton_append,
      List.splitOn_append_cons_self_of_not_mem hd, ih hrest]
    rfl

/-- The text gives back the image. -/
theorem imageOfText_listingText (image : List UInt8) : imageOfText (listingText image) = image :=
  calc imageOfText (listingText image)
    _ = (listing image).flatMap fun d ↦ bytesOfLine d.line.toList := by
      rw [imageOfText, splitOn_listingText, List.flatMap_append, List.flatMap_map]
      exact List.append_nil _
    _ = (listing image).flatMap Disassembly.bytes :=
      List.flatMap_congr fun _ ↦ bytesOfLine_line_of_mem
    _ = image := bytes_listing image

/-- A text has each of some lines on a line of its own, and an image can be read off it. -/
structure Shows (text : String) (lines : List Disassembly) (image : List UInt8) : Prop where
  /-- The text is the lines in their order, each with a line break after it. -/
  toList_eq : text.toList = lines.flatMap fun d ↦ d.line.toList ++ ['\n']
  /-- There is no other line break. -/
  newline_notMem : ∀ d ∈ lines, '\n' ∉ d.line.toList
  count_newline : text.toList.count '\n' = lines.length
  /-- Each line gives back the bytes that it shows. -/
  bytesOfLine_eq : ∀ d ∈ lines, bytesOfLine d.line.toList = d.bytes
  /-- The text gives back the image. -/
  imageOfText_eq : imageOfText text = image

/-- The text of a listing shows the image. -/
theorem shows_listingText (image : List UInt8) :
    Shows (listingText image) (listing image) image where
  toList_eq := toList_listingText image
  newline_notMem _ := newline_notMem_line_of_mem
  count_newline := by
    have hcount : ∀ d ∈ listing image, (d.line.toList ++ ['\n']).count '\n' = 1 := fun d hd ↦ by
      rw [List.count_append, List.count_eq_zero.2 (newline_notMem_line_of_mem hd)]
      rfl
    rw [toList_listingText, List.count_flatMap, Function.comp_def, List.map_congr_left hcount]
    simp
  bytesOfLine_eq _ := bytesOfLine_line_of_mem
  imageOfText_eq := imageOfText_listingText image

/-- A listing covers its image, and its text loses nothing. -/
theorem listing_lossless (image : List UInt8) :
    Covers (listing image) image ∧ Shows (listingText image) (listing image) image ∧
    ∀ other, listingText other = listingText image → other = image := by
  refine ⟨covers_listing image, shows_listingText image, fun other h ↦ ?_⟩
  rw [← imageOfText_listingText other, h, imageOfText_listingText]

example : imageOfText "0000  08        UNKNOWN\n0001  3E        MVI A,#$00\n" = [0x08, 0x3e] := by
  decide +kernel

example : listingText [0x08, 0x3e] = "0000  08        UNKNOWN\n0001  3E        MVI A,#$00\n" := by
  decide +kernel

end Intel8080
