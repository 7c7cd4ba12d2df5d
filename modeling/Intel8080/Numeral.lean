import Intel8080.Hex

/-!
# Unsigned numerals

Reading a number of at most sixty-four bits in a base up to sixteen. One plus sign may stand in
front of the digits; the first fault from the left is reported. Main statement: `read_eq_empty_iff`,
only the empty text is reported as empty.
-/

namespace Intel8080.Numeral

/-- Why a text is no numeral. -/
inductive Fault where
  | empty
  | invalidDigit
  | tooLarge
deriving DecidableEq, Repr, Inhabited

def Fault.message : Fault → String
  | empty => "cannot parse integer from empty string"
  | invalidDigit => "invalid digit found in string"
  | tooLarge => "number too large to fit in target type"

/-- The least number that is too large. -/
def bound : Nat := UInt64.size

def digit? (base : Nat) (c : Char) : Option Nat := (Hex.digitValue? c).filter (· < base)

/-- Appends digits to a number, from left to right. -/
def scan (base : Nat) : Nat → List Char → Except Fault Nat
  | n, [] => .ok n
  | n, c :: rest =>
    match digit? base c with
    | none => .error .invalidDigit
    | some d => if base * n + d < bound then scan base (base * n + d) rest else .error .tooLarge

/-- The digits of a numeral, without the sign that may stand in front of them. -/
def unsigned : List Char → List Char
  | '+' :: c :: rest => c :: rest
  | text => text

def read (base : Nat) (text : List Char) : Except Fault Nat :=
  if text = [] then .error .empty else scan base 0 (unsigned text)

/-- That there are no digits is told before they are gone through. -/
theorem scan_ne_empty (base n : Nat) (text : List Char) :
    scan base n text ≠ .error .empty := by
  fun_induction scan base n text <;> simp_all

/-- Only the empty text is reported as empty. -/
theorem read_eq_empty_iff {base : Nat} {text : List Char} :
    read base text = .error .empty ↔ text = [] := by
  unfold read
  split
  · next h => simp [h]
  · next h => simp [h, scan_ne_empty]

end Intel8080.Numeral
