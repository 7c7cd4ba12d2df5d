/-!
# Words as pairs of bytes

A word of sixteen bits is a high and a low byte. Main statements: the two halves of a joined word
are the bytes it was joined from, and joining the halves of a word gives it back.
-/

namespace Intel8080

def lowByte (w : UInt16) : UInt8 := w.toUInt8

def highByte (w : UInt16) : UInt8 := (w / 256).toUInt8

def wordOf (high low : UInt8) : UInt16 := high.toUInt16 * 256 + low.toUInt16

@[simp] theorem toNat_lowByte (w : UInt16) : (lowByte w).toNat = w.toNat % 256 := by
  simp [lowByte]

@[simp] theorem toNat_highByte (w : UInt16) : (highByte w).toNat = w.toNat / 256 := by
  have := w.toNat_lt
  simp [highByte]
  omega

@[simp] theorem toNat_wordOf (high low : UInt8) :
    (wordOf high low).toNat = 256 * high.toNat + low.toNat := by
  have := high.toNat_lt
  have := low.toNat_lt
  simp [wordOf]
  omega

@[simp] theorem lowByte_wordOf (high low : UInt8) : lowByte (wordOf high low) = low := by
  have := low.toNat_lt
  apply UInt8.toNat_inj.1
  rw [toNat_lowByte, toNat_wordOf]
  omega

@[simp] theorem highByte_wordOf (high low : UInt8) : highByte (wordOf high low) = high := by
  have := low.toNat_lt
  apply UInt8.toNat_inj.1
  rw [toNat_highByte, toNat_wordOf]
  omega

/-- A word is made up of its two bytes. -/
@[simp] theorem wordOf_highByte_lowByte (w : UInt16) : wordOf (highByte w) (lowByte w) = w := by
  apply UInt16.toNat_inj.1
  rw [toNat_wordOf, toNat_highByte, toNat_lowByte]
  omega

/-- A byte widened to a word is that word's low byte. -/
@[simp] theorem lowByte_toUInt16 (v : UInt8) : lowByte v.toUInt16 = v := by
  simp [lowByte]

end Intel8080
