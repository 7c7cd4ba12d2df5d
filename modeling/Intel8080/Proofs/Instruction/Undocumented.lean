import Intel8080.Instruction.Opcode

/-!
# The undocumented bytes

Twelve opcode bytes have no documented meaning, and each of them runs as a documented one. Main
statements: `isUndocumented_decode_iff`, which bytes these are, and `decode_documented`, the
documented byte that stands in for a byte runs the same instruction.
-/

namespace Intel8080.Instruction

def undocumentedBytes : List UInt8 :=
  [0x08, 0x10, 0x18, 0x20, 0x28, 0x30, 0x38, 0xcb, 0xd9, 0xdd, 0xed, 0xfd]

/-- The documented byte that runs the same instruction: the opcode of the alias for an undocumented
byte, and every other byte itself. -/
def documented (v : UInt8) : UInt8 :=
  match decode v with
  | undocumented like => like.opcode
  | _ => v

theorem exists_eq_undocumented {i : Instruction} (h : i.isUndocumented = true) :
    ∃ like, i = undocumented like := by
  cases i with
  | undocumented like => exact ⟨like, rfl⟩
  | _ => cases h

theorem isUndocumented_decode_iff {v : UInt8} :
    (decode v).isUndocumented = true ↔ v ∈ undocumentedBytes := by
  have hbytes : ∀ n : Fin 256, (decode (UInt8.ofNat n)).isUndocumented = true ↔
      UInt8.ofNat n ∈ undocumentedBytes := by decide +kernel
  simpa using hbytes ⟨v.toNat, v.toNat_lt⟩

theorem isUndocumented_decode_eq_false_iff {v : UInt8} :
    (decode v).isUndocumented = false ↔ v ∉ undocumentedBytes := by
  rw [← Bool.not_eq_true, isUndocumented_decode_iff]

theorem documented_of_not_isUndocumented {v : UInt8} (h : (decode v).isUndocumented = false) :
    documented v = v := by
  unfold documented
  split
  · next like hlike =>
    rw [hlike] at h
    cases h
  · rfl

/-- What a byte runs is what its documented byte stands for. -/
@[simp] theorem decode_documented (v : UInt8) : decode (documented v) = (decode v).executed := by
  cases h : (decode v).isUndocumented with
  | false => rw [documented_of_not_isUndocumented h, executed_of_not_isUndocumented h]
  | true =>
    obtain ⟨like, hlike⟩ := exists_eq_undocumented h
    rw [documented, hlike, executed_undocumented, decode_opcode]

/-- What stands in for a byte is documented. -/
theorem documented_notMem (v : UInt8) : documented v ∉ undocumentedBytes := by
  rw [← isUndocumented_decode_eq_false_iff, decode_documented, isUndocumented_executed]

/-- Only the undocumented bytes differ from the documented bytes that stand in for them. -/
theorem documented_ne_iff {v : UInt8} : documented v ≠ v ↔ v ∈ undocumentedBytes := by
  constructor
  · intro hne
    rw [← isUndocumented_decode_iff, ← Bool.not_eq_false]
    exact fun h ↦ hne (documented_of_not_isUndocumented h)
  · intro h heq
    have hnot := documented_notMem v
    rw [heq] at hnot
    exact hnot h

end Intel8080.Instruction
