import Intel8080.Alu

/-!
# Digits and corrections in numbers

The sums by which the accumulator's operations tell the carry out of a digit and correct a result
stay far from where their widths wrap round. Main statements: `toNat_nibbles` and `toNat_add_ite`.
-/

namespace Intel8080.Alu

/-- The value of a bit widened to a byte. -/
theorem toNat_toUInt8 (b : Bool) : b.toUInt8.toNat = b.toNat := by cases b <;> rfl

theorem toNat_nibble (v : UInt8) : (nibble v).toNat = v.toNat % 16 := UInt8.toNat_mod v 16

/-- Two low digits and a bit do not wrap round. -/
theorem toNat_nibbles (v w : UInt8) (b : Bool) :
    (nibble v + nibble w + b.toUInt8).toNat = v.toNat % 16 + w.toNat % 16 + b.toNat := by
  have := b.toNat_lt
  rw [UInt8.toNat_add, UInt8.toNat_add, toNat_nibble, toNat_nibble, toNat_toUInt8]
  omega

/-- A number widened to a word and a correction that is made or not do not wrap round. -/
theorem toNat_add_ite (w c : UInt16) (b : Bool) (h : w.toNat + c.toNat < 65536) :
    (w + if b then c else 0).toNat = w.toNat + c.toNat * b.toNat := by
  cases b
  · simp
  · simp only [if_true, UInt16.toNat_add, Bool.toNat_true]
    omega

end Intel8080.Alu
