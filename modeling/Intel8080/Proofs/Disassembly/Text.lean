import Intel8080.Disassembly.Basic
import Intel8080.Proofs.Hex
import Intel8080.Proofs.Instruction.Undocumented

/-!
# The texts of instructions

Main statements: `newline_notMem_text`, the text of an instruction stays on its line, and
`text_eq_unknown_iff`, undocumented bytes can be told by their text.
-/

namespace Intel8080

theorem newline_notMem_padded (width n : Nat) : '\n' ∉ Hex.padded .upper width n :=
  Hex.notMem_padded rfl

namespace Instruction

/-- Mnemonics are written in capital letters. -/
theorem isUpper_of_mem_mnemonic (i : Instruction) {c : Char} (h : c ∈ i.mnemonic.toList) :
    c.isUpper = true := by
  revert c
  cases i with
  | alu op | aluImmediate op | rotate op =>
    cases op <;> simp [mnemonic, AluOp.mnemonic, AluOp.immediateMnemonic, Rotation.mnemonic]
  | jump condition | call condition | ret condition =>
    obtain _ | condition := condition
    · simp [mnemonic]
    · cases condition <;> simp [mnemonic, Condition.suffix]
  | _ => simp [mnemonic, unknown]

theorem newline_notMem_mnemonic (i : Instruction) : '\n' ∉ i.mnemonic.toList := by
  intro h
  have hupper := i.isUpper_of_mem_mnemonic h
  cases hupper

/-- Operands are written in letters, digits and signs, without a line break. -/
theorem newline_notMem_operandText {i : Instruction} {operand : UInt16} {operands : String}
    (h : i.operandText operand = some operands) : '\n' ∉ operands.toList := by
  have hregister (x : Register) : '\n' ∉ x.name.toList := by cases x <;> decide
  have hpair (p : RegisterPair) : '\n' ∉ p.name.toList := by cases p <;> decide
  have hstackPair (p : StackPair) : '\n' ∉ p.name.toList := by cases p <;> decide
  have hvector (n : Fin 8) : '\n' ∉ Nat.toDigits 10 n.val := by
    revert n
    decide
  cases i <;> simp only [operandText, Option.some.injEq, reduceCtorEq] at h <;> subst h <;>
    simp [hregister, hpair, hstackPair, hvector, byteText, wordText, addressText,
      newline_notMem_padded]

/-- No text of an instruction has a line break in it. -/
theorem newline_notMem_text (i : Instruction) (operand : UInt16) :
    '\n' ∉ (i.text operand).toList := by
  unfold text
  split
  · next operands h =>
    simp [newline_notMem_mnemonic, newline_notMem_operandText h]
  · exact i.newline_notMem_mnemonic

theorem head?_text {i : Instruction} {c : Char} (h : i.mnemonic.toList.head? = some c)
    (operand : UInt16) : (i.text operand).toList.head? = some c := by
  unfold text
  split
  · simp [h]
  · exact h

/-- No documented mnemonic begins as that of the undocumented bytes does. -/
theorem head?_mnemonic {i : Instruction} (h : i.isUndocumented = false) :
    ∃ c, i.mnemonic.toList.head? = some c ∧ c ≠ 'U' := by
  cases i with
  | alu op | aluImmediate op | rotate op =>
    cases op <;> simp [mnemonic, AluOp.mnemonic, AluOp.immediateMnemonic, Rotation.mnemonic]
  | jump condition | call condition | ret condition =>
    cases condition <;> simp [mnemonic]
  | undocumented like => cases h
  | _ => simp [mnemonic]

/-- An instruction is undocumented exactly if its text says so. -/
theorem text_eq_unknown_iff {i : Instruction} {operand : UInt16} :
    i.text operand = unknown ↔ i.isUndocumented = true := by
  constructor
  · intro htext
    rw [← Bool.not_eq_false]
    intro h
    obtain ⟨c, hc, hne⟩ := head?_mnemonic h
    have htext' := head?_text hc operand
    rw [htext] at htext'
    exact hne (Option.some.inj htext').symm
  · intro h
    obtain ⟨like, rfl⟩ := exists_eq_undocumented h
    rfl

end Instruction

end Intel8080
