import Intel8080.Proofs.Disassembly.Recovery
import Intel8080.Proofs.Instruction.Encoding
import Mathlib.Data.List.Nodup

/-!
# Assembling what was disassembled

The text of an instruction is its mnemonic and, after a blank, its operands: names, and at the end a
number after a dollar sign. No two instructions share a mnemonic but those that differ in the names
of their operands, so a text can be read back: its mnemonic names a template, the names of its
operands fill the template in, and the digits of the number are the bytes after the opcode, the last
one first. Main statements: `read?_text`, an instruction is read back from its text;
`inverts_assemble`, the texts of documented instructions and no others are assembled, to the bytes
they were disassembled from, one by one or a listing at a time; and `text_tells_bytes`.
-/

namespace Intel8080

/-! ## Names of operands -/

def Register.ofLetter : Char → Register
  | 'B' => b | 'C' => c | 'D' => d | 'E' => e | 'H' => h | 'L' => l | 'M' => m | _ => a

/-- The pair whose name begins with a letter. -/
def RegisterPair.ofLetter : Char → RegisterPair
  | 'B' => bc | 'D' => de | 'H' => hl | _ => sp

def StackPair.ofLetter : Char → StackPair
  | 'B' => bc | 'D' => de | 'H' => hl | _ => psw

/-- A byte operand has a name of one letter, by which it is found again. -/
theorem Register.exists_name (r : Register) : ∃ c, r.name.toList = [c] ∧ ofLetter c = r := by
  cases r <;> exact ⟨_, String.toList_ofList, rfl⟩

theorem RegisterPair.exists_name (p : RegisterPair) :
    ∃ c rest, p.name.toList = c :: rest ∧ ofLetter c = p := by
  cases p <;> exact ⟨_, _, String.toList_ofList, rfl⟩

theorem StackPair.exists_name (p : StackPair) :
    ∃ c rest, p.name.toList = c :: rest ∧ ofLetter c = p := by
  cases p <;> exact ⟨_, _, String.toList_ofList, rfl⟩

namespace Instruction

/-! ## The parts of a text -/

/-- The letters of the operands, none if there are no operands. -/
def operandLetters (i : Instruction) (operand : UInt16) : List Char :=
  ((i.operandText operand).map String.toList).getD []

def operandList (i : Instruction) (operand : UInt16) : List UInt8 :=
  match i.operandBytes with
  | 0 => []
  | 1 => [lowByte operand]
  | _ => [lowByte operand, highByte operand]

section Parts

variable (i : Instruction) (operand : UInt16)

theorem bne_blank_of_mem_mnemonic : ∀ c ∈ i.mnemonic.toList, (c != ' ') = true := by
  intro c hc
  have hupper := i.isUpper_of_mem_mnemonic hc
  rw [bne_iff_ne]
  rintro rfl
  cases hupper

/-- After the mnemonic there is nothing, or a blank and the operands. -/
theorem toList_text : (i.text operand).toList =
    i.mnemonic.toList ++ ((i.operandText operand).map fun s ↦ ' ' :: s.toList).getD [] := by
  unfold text
  cases i.operandText operand <;> simp

/-- The letters up to the first blank are those of the mnemonic. -/
theorem takeWhile_text :
    (i.text operand).toList.takeWhile (· != ' ') = i.mnemonic.toList := by
  rw [toList_text, List.takeWhile_append_of_pos i.bne_blank_of_mem_mnemonic]
  cases i.operandText operand <;> simp

/-- The letters after the first blank are those of the operands. -/
theorem drop_dropWhile_text :
    ((i.text operand).toList.dropWhile (· != ' ')).drop 1 = i.operandLetters operand := by
  rw [toList_text, List.dropWhile_append_of_pos i.bne_blank_of_mem_mnemonic, operandLetters]
  cases i.operandText operand <;> simp

/-- What comes before a number has no dollar sign in it. -/
theorem dropWhile_name_append (rest : List Char) :
    (∀ x : Register, (x.name.toList ++ rest).dropWhile (· != '$') = rest.dropWhile (· != '$')) ∧
    (∀ p : RegisterPair,
      (p.name.toList ++ rest).dropWhile (· != '$') = rest.dropWhile (· != '$')) ∧
    ∀ p : StackPair, (p.name.toList ++ rest).dropWhile (· != '$') = rest.dropWhile (· != '$') := by
  refine ⟨fun x ↦ ?_, fun p ↦ ?_, fun p ↦ ?_⟩
  · cases x <;> simp [Register.name]
  · cases p <;> simp [RegisterPair.name]
  · cases p <;> simp [StackPair.name]

/-- The digits after the dollar sign are those of the bytes of the operand, the last byte first. -/
theorem drop_dropWhile_operandLetters :
    ((i.operandLetters operand).dropWhile (· != '$')).drop 1 =
      (i.operandList operand).reverse.flatMap fun v ↦ Hex.padded .upper 2 v.toNat := by
  have hnames := dropWhile_name_append
  have halone := dropWhile_name_append []
  have hvector : ∀ n : Fin 8, (Nat.toDigits 10 n.val).dropWhile (· != '$') = [] := by decide
  simp only [List.append_nil, List.dropWhile_nil] at halone
  cases i <;> simp [operandLetters, operandText, operandList, operandBytes, byteText, wordText,
    addressText, Hex.padded_four, hvector, hnames, halone]

end Parts

/-! ## Templates -/

/-- The instruction of the same mnemonic whose operands have the given names. -/
def withOperands (i : Instruction) (letters : List Char) : Instruction :=
  match i with
  | mov _ _ => mov (.ofLetter (letters.getD 0 'B')) (.ofLetter (letters.getD 2 'B'))
  | mvi _ => mvi (.ofLetter (letters.getD 0 'B'))
  | lxi _ => lxi (.ofLetter (letters.getD 0 'B'))
  | ldax _ => ldax (.ofLetter (letters.getD 0 'B'))
  | stax _ => stax (.ofLetter (letters.getD 0 'B'))
  | alu op _ => alu op (.ofLetter (letters.getD 0 'B'))
  | inr _ => inr (.ofLetter (letters.getD 0 'B'))
  | dcr _ => dcr (.ofLetter (letters.getD 0 'B'))
  | inx _ => inx (.ofLetter (letters.getD 0 'B'))
  | dcx _ => dcx (.ofLetter (letters.getD 0 'B'))
  | dad _ => dad (.ofLetter (letters.getD 0 'B'))
  | rst _ => rst ⟨(letters.getD 0 '0').toNat % 8, Nat.mod_lt _ (by decide)⟩
  | push _ => push (.ofLetter (letters.getD 0 'B'))
  | pop _ => pop (.ofLetter (letters.getD 0 'B'))
  | i => i

/-- One documented instruction for each mnemonic. -/
def templates : List Instruction :=
  [nop, mov .b .b, mvi .b, lxi .bc, lda, sta, lhld, shld, ldax .bc, stax .bc, xchg, inr .b, dcr .b,
    inx .bc, dcx .bc, dad .bc, daa, cma, stc, cmc, jump none, call none, ret none,
    rst ⟨0, by decide⟩, pchl, sphl, xthl, push .bc, pop .bc, ei, di, hlt, input, output]
  ++ [.rlc, .rrc, .ral, .rar].map rotate
  ++ ([.add, .adc, .sub, .sbb, .ana, .xra, .ora, .cmp].flatMap
    fun op ↦ [alu op .b, aluImmediate op])
  ++ [.notZero, .zero, .noCarry, .carry, .parityOdd, .parityEven, .plus, .minus].flatMap
    fun condition ↦ [jump (some condition), call (some condition), ret (some condition)]

/-- The instruction that a text names, if it names one. -/
def read? (letters : List Char) : Option Instruction :=
  (templates.find? fun i ↦ i.mnemonic.toList == letters.takeWhile (· != ' ')).map
    (·.withOperands ((letters.dropWhile (· != ' ')).drop 1))

/-- A mnemonic does not depend on the operands. -/
theorem mnemonic_withOperands (i : Instruction) (letters : List Char) :
    (i.withOperands letters).mnemonic = i.mnemonic := by
  cases i <;> rfl

theorem withOperands_withOperands (i : Instruction) (letters later : List Char) :
    (i.withOperands letters).withOperands later = i.withOperands later := by
  cases i <;> rfl

/-- The names of its operands fill an instruction in. -/
theorem withOperands_operandLetters (i : Instruction) (operand : UInt16) :
    i.withOperands (i.operandLetters operand) = i := by
  cases i with
  | mov dst src =>
    obtain ⟨c, hc, hdst⟩ := dst.exists_name
    obtain ⟨c', hc', hsrc⟩ := src.exists_name
    simp [withOperands, operandLetters, operandText, hc, hc', hdst, hsrc]
  | mvi r | alu op r | inr r | dcr r =>
    obtain ⟨c, hc, hr⟩ := r.exists_name
    simp [withOperands, operandLetters, operandText, hc, hr]
  | lxi p | ldax p | stax p | inx p | dcx p | dad p | push p | pop p =>
    obtain ⟨c, rest, hc, hp⟩ := p.exists_name
    simp [withOperands, operandLetters, operandText, hc, hp]
  | rst vector =>
    have hdigit : ∀ n : Fin 8, ((Nat.toDigits 10 n.val).getD 0 '0').toNat % 8 = n.val := by decide
    refine congrArg rst (Fin.ext ?_)
    simpa [operandLetters, operandText] using hdigit vector
  | _ => rfl

/-- Every documented instruction is a template with other operands. -/
theorem withOperands_mem_templates {i : Instruction} (h : i.isUndocumented = false) :
    i.withOperands [] ∈ templates := by
  have hkind (kind : Rotation) : kind ∈ [.rlc, .rrc, .ral, .rar] := by cases kind <;> decide
  have hop (op : AluOp) : op ∈ [.add, .adc, .sub, .sbb, .ana, .xra, .ora, .cmp] := by
    cases op <;> decide
  have hcondition (condition : Condition) : condition ∈
      [.notZero, .zero, .noCarry, .carry, .parityOdd, .parityEven, .plus, .minus] := by
    cases condition <;> decide
  simp only [templates, List.mem_append, List.mem_map, List.mem_flatMap]
  cases i with
  | rotate kind => exact .inl (.inl (.inr ⟨kind, hkind kind, rfl⟩))
  | alu op r => exact .inl (.inr ⟨op, hop op, List.mem_cons_self⟩)
  | aluImmediate op => exact .inl (.inr ⟨op, hop op, List.mem_cons_of_mem _ List.mem_cons_self⟩)
  | jump condition | call condition | ret condition =>
    obtain _ | condition := condition
    · exact .inl (.inl (.inl (by simp [withOperands])))
    · exact .inr ⟨condition, hcondition condition, by simp [withOperands]⟩
  | undocumented like => cases h
  | _ =>
    refine .inl (.inl (.inl ?_))
    simp [withOperands, Register.ofLetter, RegisterPair.ofLetter, StackPair.ofLetter]

/-- No two templates have the same mnemonic. -/
theorem nodup_templates : (templates.map mnemonic).Nodup := by decide +kernel

/-- The mnemonic of a documented instruction names its template. -/
theorem find?_templates {i : Instruction} (h : i.isUndocumented = false) :
    (templates.find? fun t ↦ t.mnemonic.toList == i.mnemonic.toList) =
      some (i.withOperands []) := by
  have hmem := withOperands_mem_templates h
  obtain ⟨t, ht⟩ : ∃ t, templates.find? (fun t ↦ t.mnemonic.toList == i.mnemonic.toList) = some t :=
    Option.isSome_iff_exists.1 (List.find?_isSome.2 ⟨_, hmem, by simp [mnemonic_withOperands]⟩)
  have hname : t.mnemonic = (i.withOperands []).mnemonic := by
    rw [mnemonic_withOperands, ← String.toList_inj]
    simpa using List.find?_some ht
  rw [ht, List.inj_on_of_nodup_map nodup_templates (List.mem_of_find?_eq_some ht) hmem hname]

/-- The text of a documented instruction names it. -/
theorem read?_text {i : Instruction} (h : i.isUndocumented = false) (operand : UInt16) :
    read? (i.text operand).toList = some i := by
  rw [read?, takeWhile_text, drop_dropWhile_text, find?_templates h, Option.map_some,
    withOperands_withOperands, withOperands_operandLetters]

end Instruction

/-! ## The assembler -/

/-- The bytes after the opcode byte, which a text has in its number, the last one first. -/
def operandBytesOf (letters : List Char) : List UInt8 :=
  (bytesOfDigits ((((letters.dropWhile (· != ' ')).drop 1).dropWhile (· != '$')).drop 1)).reverse

/-- The bytes of the instruction of which this is the text, if it is one. -/
def assemble (text : String) : Option (List UInt8) :=
  (Instruction.read? text.toList).bind fun i ↦
    let bytes := i.encode :: operandBytesOf text.toList
    if (disassemble bytes 0).text = text then some bytes else none

/-- The instruction is documented, and all its bytes are there. -/
structure Disassembly.Whole (d : Disassembly) : Prop where
  complete : d.bytes.length = d.length
  documented : ∀ opcode, d.bytes.head? = some opcode → opcode ∉ Instruction.undocumentedBytes

namespace Instruction

variable (i : Instruction) (operand : UInt16)

theorem operandBytesOf_text :
    operandBytesOf (i.text operand).toList = i.operandList operand := by
  rw [operandBytesOf, drop_dropWhile_text, drop_dropWhile_operandLetters, bytesOfDigits_flatMap,
    List.reverse_reverse]

@[simp] theorem length_operandList : (i.operandList operand).length = i.operandBytes := by
  cases i <;> rfl

/-- The text shows no more of the operand than its bytes. -/
theorem text_congr {operand operand' : UInt16}
    (h : i.operandList operand = i.operandList operand') : i.text operand = i.text operand' := by
  suffices i.operandText operand = i.operandText operand' by rw [text, text, this]
  cases i with
  | mvi | aluImmediate | input | output =>
    have hlow : lowByte operand = lowByte operand' := (List.cons.inj h).1
    simp only [operandText, hlow]
  | lxi | lda | sta | lhld | shld | jump | call =>
    obtain ⟨hlow, hrest⟩ := List.cons.inj h
    have heq : operand = operand' := by
      rw [← wordOf_highByte_lowByte operand, hlow, (List.cons.inj hrest).1,
        wordOf_highByte_lowByte]
    rw [heq]
  | _ => rfl

/-- The two bytes after the opcode hold the bytes of the operand, if they are all there. -/
theorem operandList_wordOf {i : Instruction} {tail : List UInt8}
    (h : i.operandBytes ≤ tail.length) :
    i.operandList (wordOf (byteAt tail 1) (byteAt tail 0)) = tail.take i.operandBytes := by
  have htwo := i.operandBytes_le_two
  unfold operandList
  generalize i.operandBytes = n at h htwo
  match n, htwo, tail, h with
  | 0, _, _, _ | 1, _, [_], _ | 1, _, _ :: _ :: _, _ | 2, _, _ :: _ :: _, _ => simp [byteAt]

end Instruction

section Whole

open Instruction

variable {image : List UInt8} {offset : Nat}

theorem length_disassembleAt_cons (offset : Nat) (opcode : UInt8) (tail : List UInt8) :
    (disassembleAt offset (opcode :: tail)).length = 1 + (decode opcode).operandBytes := rfl

theorem text_disassembleAt_cons (offset : Nat) (opcode : UInt8) (tail : List UInt8) :
    (disassembleAt offset (opcode :: tail)).text =
      (decode opcode).text (wordOf (byteAt tail 1) (byteAt tail 0)) := rfl

theorem bytes_disassembleAt_cons (offset : Nat) (opcode : UInt8) (tail : List UInt8) :
    (disassembleAt offset (opcode :: tail)).bytes =
      opcode :: tail.take (decode opcode).operandBytes := by
  simp [disassembleAt, byteAt, Instruction.length, Nat.add_comm 1]

/-- What an opcode byte and the bytes of an operand are disassembled to. -/
theorem disassemble_operandList (opcode : UInt8) (operand : UInt16) :
    let bytes := opcode :: (decode opcode).operandList operand
    (disassemble bytes 0).bytes = bytes ∧
      (disassemble bytes 0).length = bytes.length ∧
      (disassemble bytes 0).text = (decode opcode).text operand := by
  have hlength := (decode opcode).length_operandList operand
  have hbytes := List.take_of_length_le (Nat.le_of_eq hlength)
  refine ⟨?_, ?_, (decode opcode).text_congr ?_⟩
  · exact (bytes_disassembleAt_cons _ _ _).trans (congrArg _ hbytes)
  · rw [List.length_cons, hlength, Nat.add_comm]
    exact length_disassembleAt_cons _ _ _
  · exact (operandList_wordOf (Nat.le_of_eq hlength.symm)).trans hbytes

/-- A whole instruction is an opcode byte and the bytes of an operand. -/
theorem Disassembly.Whole.exists_operandList (h : (disassemble image offset).Whole) :
    ∃ opcode operand, opcode ∉ undocumentedBytes ∧
      (disassemble image offset).bytes = opcode :: (decode opcode).operandList operand ∧
      (disassemble image offset).text = (decode opcode).text operand := by
  obtain ⟨hcomplete, hdocumented⟩ := h
  unfold disassemble at *
  generalize image.drop offset = rest at *
  cases rest with
  | nil => cases hcomplete
  | cons opcode tail =>
    rw [bytes_disassembleAt_cons] at hcomplete hdocumented ⊢
    have hle : (decode opcode).operandBytes ≤ tail.length := by
      rw [length_disassembleAt_cons, List.length_cons, List.length_take] at hcomplete
      omega
    refine ⟨opcode, _, hdocumented opcode rfl, ?_, text_disassembleAt_cons offset opcode tail⟩
    rw [operandList_wordOf hle]

/-- A whole instruction is assembled from its text. -/
theorem assemble_text (h : (disassemble image offset).Whole) :
    assemble (disassemble image offset).text = some (disassemble image offset).bytes := by
  obtain ⟨opcode, operand, hopcode, hbytes, htext⟩ := h.exists_operandList
  rw [htext, hbytes, assemble, read?_text (isUndocumented_decode_eq_false_iff.2 hopcode),
    Option.bind_some, operandBytesOf_text, encode_decode_of_notMem hopcode]
  exact if_pos (disassemble_operandList opcode operand).2.2

/-- If the bytes after an opcode byte are read off their text, they are those of an operand. -/
theorem exists_operandList_of_text {opcode : UInt8} {tail : List UInt8} {text : String}
    (htext : (disassembleAt 0 (opcode :: tail)).text = text)
    (htail : tail = operandBytesOf text.toList) :
    ∃ operand, tail = (decode opcode).operandList operand := by
  rw [text_disassembleAt_cons] at htext
  refine ⟨wordOf (byteAt tail 1) (byteAt tail 0), ?_⟩
  rw [← operandBytesOf_text, htext]
  exact htail

/-- What is assembled is a whole instruction of that text. -/
theorem whole_of_assemble {text : String} {bytes : List UInt8} (h : assemble text = some bytes) :
    (disassemble bytes 0).Whole ∧ (disassemble bytes 0).text = text ∧
      (disassemble bytes 0).bytes = bytes := by
  obtain ⟨i, hread, hbytes⟩ := Option.bind_eq_some_iff.1 h
  obtain ⟨htext, heq⟩ := Option.ite_none_right_eq_some.1 hbytes
  obtain rfl := Option.some.inj heq
  obtain ⟨operand, htail⟩ := exists_operandList_of_text htext rfl
  have hshape := disassemble_operandList i.encode operand
  rw [← htail] at hshape
  obtain ⟨hall, hlength, hdecoded⟩ := hshape
  have hdocumented : i.encode ∉ undocumentedBytes := by
    intro hmem
    have hunknown : text = unknown := by
      rw [← htext, hdecoded]
      exact text_eq_unknown_iff.2 (isUndocumented_decode_iff.2 hmem)
    have hnone : read? unknown.toList = none := by decide +kernel
    rw [hunknown, hnone] at hread
    cases hread
  refine ⟨⟨?_, ?_⟩, htext, hall⟩
  · rw [hall, hlength]
  · rw [hall]
    rintro opcode ⟨⟩
    exact hdocumented

end Whole

/-! ## Listings -/

/-- The text at the end of a line of a listing. -/
def textOfLine (line : List Char) : String := String.ofList ((line.dropWhile (· != ' ')).drop 12)

def textsOfListing (text : String) : List String :=
  (text.toList.splitOn '\n').dropLast.map textOfLine

/-- The bytes of some texts one after the other, if all of them are assembled. -/
def assembleAll (assemble : String → Option (List UInt8)) (texts : List String) :
    Option (List UInt8) :=
  (texts.mapM assemble).map List.flatten

/-- The text begins at a fixed column, since no instruction has more than three bytes. -/
theorem textOfLine_line {d : Disassembly} (h : d.bytes.length ≤ 3) :
    textOfLine d.line.toList = d.text := by
  have hoffset : ∀ c ∈ Hex.padded .upper 4 d.offset, (c != ' ') = true :=
    fun _ ↦ Hex.bne_blank_of_mem_padded
  have hlength := Disassembly.length_rightpad_hexColumn h
  simp only [textOfLine, Disassembly.line, String.toList_append, Hex.toList_upper,
    toList_leftAligned, List.append_assoc]
  rw [List.dropWhile_append_of_pos hoffset]
  -- two blanks, the column of the bytes and two blanks more stand before the text
  change String.ofList (((d.hexColumn.toList.rightpad 8 ' ') ++ _).drop 10) = _
  rw [List.drop_append, hlength, List.drop_of_length_le (by rw [hlength]; decide)]
  exact String.ofList_toList

/-- The texts of a listing can be read off its lines. -/
theorem textsOfListing_listingText (image : List UInt8) :
    textsOfListing (listingText image) = (listing image).map Disassembly.text := by
  rw [textsOfListing, splitOn_listingText, List.dropLast_concat, List.map_map]
  refine List.map_congr_left fun d hd ↦ textOfLine_line ?_
  rw [eq_disassemble_of_mem hd]
  exact length_bytes_disassemble_le image d.offset

theorem assembleAll_map {lines : List Disassembly}
    (h : ∀ d ∈ lines, assemble d.text = some d.bytes) :
    assembleAll assemble (lines.map Disassembly.text) =
      some (lines.flatMap Disassembly.bytes) := by
  suffices (lines.map Disassembly.text).mapM assemble = some (lines.map Disassembly.bytes) by
    rw [assembleAll, this, Option.map_some, List.flatMap]
  induction lines with
  | nil => rfl
  | cons d lines ih =>
    obtain ⟨hd, hrest⟩ := List.forall_mem_cons.1 h
    simp [hd, ih hrest]

/-- If all instructions of a listing are whole, its texts are assembled to the image. -/
theorem assembleAll_listing {image : List UInt8} (h : ∀ d ∈ listing image, d.Whole) :
    assembleAll assemble ((listing image).map Disassembly.text) = some image := by
  rw [assembleAll_map, bytes_listing]
  intro d hd
  have hd' := h d hd
  rw [eq_disassemble_of_mem hd] at hd' ⊢
  exact assemble_text hd'

/-! ## What a text tells -/

/-- An assembler is the inverse of the disassembler. -/
structure Inverts (assemble : String → Option (List UInt8)) : Prop where
  /-- The text of a whole instruction is assembled to its bytes. -/
  assemble_text : ∀ image offset, (disassemble image offset).Whole →
    assemble (disassemble image offset).text = some (disassemble image offset).bytes
  /-- No other text is assembled. -/
  whole : ∀ text bytes, assemble text = some bytes → (disassemble bytes 0).Whole ∧
    (disassemble bytes 0).text = text ∧ (disassemble bytes 0).bytes = bytes
  /-- If all instructions of a listing are whole, its texts are assembled to the image. -/
  assembleAll_listing : ∀ image, (∀ d ∈ listing image, d.Whole) →
    assembleAll assemble ((listing image).map Disassembly.text) = some image
  /-- These texts may be read off the text of the listing. -/
  assembleAll_listingText : ∀ image, (∀ d ∈ listing image, d.Whole) →
    assembleAll assemble (textsOfListing (listingText image)) = some image

/-- Assembling is the inverse of disassembling, on instructions and on listings. -/
theorem inverts_assemble : Inverts assemble where
  assemble_text _ _ := assemble_text
  whole _ _ := whole_of_assemble
  assembleAll_listing _ := assembleAll_listing
  assembleAll_listingText image h := by
    rw [textsOfListing_listingText]
    exact assembleAll_listing h

/-- The text says that a byte is unknown exactly if the byte is undocumented. -/
theorem text_disassemble_eq_unknown_iff {image : List UInt8} {offset : Nat} :
    (disassemble image offset).text = "UNKNOWN" ↔
      ∃ opcode ∈ Instruction.undocumentedBytes, image[offset]? = some opcode := by
  have hiff : (disassemble image offset).text = "UNKNOWN" ↔
      byteAt (image.drop offset) 0 ∈ Instruction.undocumentedBytes :=
    Instruction.text_eq_unknown_iff.trans Instruction.isUndocumented_decode_iff
  have hbyte : byteAt (image.drop offset) 0 = image[offset]?.getD 0 := by
    simp [byteAt]
  rw [hiff, hbyte]
  cases image[offset]? <;> simp [Instruction.undocumentedBytes]

/-- Whole instructions of one text have the same bytes, so there is an assembler; and no text but
that of an undocumented byte says that it is unknown. -/
theorem text_tells_bytes :
    (∀ image image' offset offset',
      (disassemble image offset).Whole → (disassemble image' offset').Whole →
      (disassemble image offset).text = (disassemble image' offset').text →
      (disassemble image offset).bytes = (disassemble image' offset').bytes) ∧
    Inverts assemble ∧
    ∀ image offset, (disassemble image offset).text = "UNKNOWN" ↔
      ∃ opcode ∈ Instruction.undocumentedBytes, image[offset]? = some opcode := by
  refine ⟨?_, inverts_assemble, fun _ _ ↦ text_disassemble_eq_unknown_iff⟩
  intro image image' offset offset' h h' htext
  have hbytes := assemble_text h
  rw [htext, assemble_text h'] at hbytes
  exact (Option.some.inj hbytes).symm

example : assemble "CMP M" = some [0xbe] ∧ assemble "CMC" = some [0x3f] ∧
    assemble "CM $00BE" = some [0xfc, 0xbe, 0x00] ∧ assemble "UNKNOWN" = none := by decide +kernel

end Intel8080
