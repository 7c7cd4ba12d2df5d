import Intel8080.Hex
import Intel8080.Word

/-!
# Reading hexadecimal numerals

A numeral consists of digits, and the two digits of a byte tell it. Main statements:
`isSome_digitValue?_of_mem_padded` and `byteOf_digit`, `padded_four`, which parts the digits of
a word into those of its bytes, and `exists_char_eq`, nothing is read as a digit but what is written
as one.
-/

namespace Intel8080.Hex

/-- The byte of two digits. What is no digit counts as zero. -/
def byteOf (high low : Char) : UInt8 :=
  UInt8.ofNat (16 * (digitValue? high).getD 0 + (digitValue? low).getD 0)

variable {letters : Letters} {n width : Nat} {c : Char}

/-- Numbers are written in digits only. -/
theorem isSome_digitValue?_of_mem_digits (h : c ∈ digits letters n) :
    (digitValue? c).isSome = true := by
  fun_induction digits letters n with
  | case1 n hn =>
    rw [List.mem_singleton.1 h, digitValue?_digit letters hn]
    rfl
  | case2 n hn ih =>
    rw [List.mem_append, List.mem_singleton] at h
    obtain h | rfl := h
    · exact ih h
    · rw [digitValue?_digit letters (Nat.mod_lt n (by decide))]
      rfl

/-- A padded number consists of digits. -/
theorem isSome_digitValue?_of_mem_padded (h : c ∈ padded letters width n) :
    (digitValue? c).isSome = true := by
  rw [padded, List.leftpad, List.mem_append] at h
  obtain h | h := h
  · rw [(List.mem_replicate.1 h).2]
    rfl
  · exact isSome_digitValue?_of_mem_digits h

/-- What is no digit stands in no number, so it can separate numbers. -/
theorem notMem_padded (h : digitValue? c = none) : c ∉ padded letters width n := by
  intro hmem
  have hsome := isSome_digitValue?_of_mem_padded hmem
  rw [h] at hsome
  cases hsome

theorem bne_blank_of_mem_padded (h : c ∈ padded letters width n) : (c != ' ') = true :=
  bne_iff_ne.2 fun heq ↦ notMem_padded rfl (heq ▸ h)

/-- A byte is written as the digits of its two halves. -/
theorem padded_two (v : UInt8) :
    padded letters 2 v.toNat = [digit letters (v.toNat / 16), digit letters (v.toNat % 16)] := by
  have hv := v.toNat_lt
  rcases Nat.lt_or_ge v.toNat 16 with h | h
  · rw [padded, digits_of_lt letters h, Nat.div_eq_of_lt h, Nat.mod_eq_of_lt h]
    rfl
  · rw [padded, digits_of_le letters h, digits_of_lt letters (by omega)]
    rfl

/-- The last digit of a number in a column, with those before it. -/
theorem padded_succ (hpos : 0 < width) : padded letters (width + 1) n =
    padded letters width (n / 16) ++ [digit letters (n % 16)] := by
  rcases Nat.lt_or_ge n 16 with h | h
  · have hzero : digit letters 0 = '0' := rfl
    rw [padded, padded, digits_of_lt letters h, Nat.div_eq_of_lt h,
      digits_of_lt letters (by decide), hzero, Nat.mod_eq_of_lt h]
    simp only [List.leftpad, List.length_singleton]
    rw [← List.replicate_succ', Nat.sub_add_cancel hpos]
    simp
  · rw [padded, padded, digits_of_le letters h]
    simp [List.leftpad]

/-- The digits of a word are those of its high byte and those of its low byte. -/
theorem padded_four (w : UInt16) : padded letters 4 w.toNat =
    padded letters 2 (highByte w).toNat ++ padded letters 2 (lowByte w).toNat := by
  have hthird : w.toNat % 256 / 16 = w.toNat / 16 % 16 := by omega
  have hfourth : w.toNat % 256 % 16 = w.toNat % 16 := by omega
  rw [padded_succ (by decide), padded_succ (by decide), padded_two (lowByte w), toNat_lowByte,
    toNat_highByte, hthird, hfourth, Nat.div_div_eq_div_mul, List.append_assoc]
  rfl

/-- The two digits of a byte give it back. -/
theorem byteOf_digit (v : UInt8) :
    byteOf (digit letters (v.toNat / 16)) (digit letters (v.toNat % 16)) = v := by
  have hv := v.toNat_lt
  rw [byteOf, digitValue?_digit letters (by omega), digitValue?_digit letters (by omega),
    Option.getD_some, Option.getD_some, Nat.div_add_mod, UInt8.ofNat_toNat]

/-! ## Digits as they are written -/

/-- A digit with the case of its letter, which makes no difference to the digits below ten. -/
structure Digit where
  letters : Letters
  value : Fin 16
deriving DecidableEq, Repr

def Digit.char (d : Digit) : Char := digit d.letters d.value

/-- Every digit is read back as its value, in whatever case it is written. -/
@[simp] theorem digitValue?_char (d : Digit) : digitValue? d.char = some d.value.val :=
  digitValue?_digit d.letters d.value.isLt

/-- No character from `g` on is a digit. -/
theorem toNat_lt_of_digitValue? {v : Nat} (h : digitValue? c = some v) : c.toNat < 103 := by
  rcases Nat.lt_or_ge c.toNat 103 with hlt | hge
  · exact hlt
  · simp only [digitValue?] at h
    rw [if_neg (by omega), if_neg (by omega), if_neg (by omega)] at h
    cases h

/-- What is read as a digit is written as one. -/
theorem exists_char_eq {v : Nat} (h : digitValue? c = some v) : ∃ d : Digit, d.char = c := by
  have hchars : ∀ n < 103, ∀ v ∈ digitValue? (Char.ofNat n), v < 16 ∧
      (digit .lower v = Char.ofNat n ∨ digit .upper v = Char.ofNat n) := by decide
  have hchar := hchars c.toNat (toNat_lt_of_digitValue? h)
  rw [Char.ofNat_toNat] at hchar
  obtain ⟨hlt, hlower | hupper⟩ := hchar v h
  · exact ⟨⟨.lower, v, hlt⟩, hlower⟩
  · exact ⟨⟨.upper, v, hlt⟩, hupper⟩

end Intel8080.Hex
