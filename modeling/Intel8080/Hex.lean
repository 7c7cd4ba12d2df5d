/-!
# Hexadecimal numerals

Writing numbers in base sixteen, in either case of letters, and the value of a single digit. Main
statement: `digitValue?_digit`, a digit reads back as its value.
-/

namespace Intel8080.Hex

/-- The case of the digits ten to fifteen. -/
inductive Letters where
  | lower
  | upper
deriving DecidableEq, Repr

def digit (letters : Letters) (d : Nat) : Char :=
  if d < 10 then Char.ofNat (48 + d)
  else match letters with
    | .lower => Char.ofNat (87 + d)
    | .upper => Char.ofNat (55 + d)

/-- The value of a digit of either case. -/
def digitValue? (c : Char) : Option Nat :=
  let n := c.toNat
  if 48 ≤ n ∧ n ≤ 57 then some (n - 48)
  else if 97 ≤ n ∧ n ≤ 102 then some (n - 87)
  else if 65 ≤ n ∧ n ≤ 70 then some (n - 55)
  else none

/-- The digits of a number, most significant first, with no leading zero but zero's own. -/
def digits (letters : Letters) (n : Nat) : List Char :=
  if n < 16 then [digit letters n]
  else digits letters (n / 16) ++ [digit letters (n % 16)]

/-- The digits of a number, filled up with leading zeros to at least `width` of them. -/
def padded (letters : Letters) (width n : Nat) : List Char :=
  (digits letters n).leftpad width '0'

def lower (width n : Nat) : String := String.ofList (padded .lower width n)

def upper (width n : Nat) : String := String.ofList (padded .upper width n)

@[simp] theorem toList_upper (width n : Nat) : (upper width n).toList = padded .upper width n := by
  simp [upper]

/-- A digit is read as the value that it was written for. -/
theorem digitValue?_digit (letters : Letters) {d : Nat} (h : d < 16) :
    digitValue? (digit letters d) = some d := by
  revert d
  cases letters <;> decide

theorem digits_of_lt (letters : Letters) {n : Nat} (h : n < 16) :
    digits letters n = [digit letters n] := by
  rw [digits, if_pos h]

theorem digits_of_le (letters : Letters) {n : Nat} (h : 16 ≤ n) :
    digits letters n = digits letters (n / 16) ++ [digit letters (n % 16)] := by
  rw [digits, if_neg (Nat.not_lt.2 h)]

end Intel8080.Hex
