import Intel8080.Numeral
import Mathlib.Data.Nat.Digits.Defs

/-!
# What is told of a numeral

A numeral is read digit by digit, so what is told of a text depends on the digits it begins with and
on what follows them. Main statements: `scan_append`, the number of these digits decides between too
large a number, an invalid digit and success; and `read_append`, the same of a whole text.
-/

namespace Intel8080.Numeral

variable {base n : Nat} {digits rest : List Char}

/-- The value of a digit. What is no digit counts as zero. -/
def digitValue (base : Nat) (c : Char) : Nat := (digit? base c).getD 0

/-- The number that digits make up after those of another number, from left to right. -/
def extended (base n : Nat) (digits : List Char) : Nat :=
  digits.foldl (fun n c ↦ base * n + digitValue base c) n

@[simp] theorem extended_nil : extended base n [] = n := rfl

theorem extended_cons (c : Char) :
    extended base n (c :: digits) = extended base (base * n + digitValue base c) digits := rfl

/-- More digits make no number smaller. -/
theorem le_extended (hb : 0 < base) : n ≤ extended base n digits := by
  induction digits generalizing n with
  | nil => exact Nat.le_refl n
  | cons c digits ih =>
    calc n ≤ base * n := Nat.le_mul_of_pos_left n hb
      _ ≤ base * n + digitValue base c := Nat.le_add_right ..
      _ ≤ extended base n (c :: digits) := ih

/-- Digits alone make up a number in the usual way, the last one counting least. -/
theorem extended_zero (base : Nat) (digits : List Char) :
    extended base 0 digits = Nat.ofDigits base (digits.map (digitValue base)).reverse := by
  rw [Nat.ofDigits_eq_foldr, List.foldr_reverse, List.foldl_map, extended]
  simp only [Nat.cast_id, Nat.add_comm]

variable (hb : 0 < base) (hdigits : ∀ c ∈ digits, (digit? base c).isSome = true)
  (hrest : ∀ c, rest.head? = some c → digit? base c = none)

include hb hdigits hrest

/-- Of a number that is too large it is told before anything that follows its digits. -/
theorem scan_append (hn : n < bound) : scan base n (digits ++ rest) =
    if bound ≤ extended base n digits then .error .tooLarge
    else if rest = [] then .ok (extended base n digits) else .error .invalidDigit := by
  induction digits generalizing n with
  | nil =>
    rw [List.nil_append, extended_nil, if_neg (Nat.not_le.2 hn)]
    cases rest with
    | nil => rfl
    | cons c rest =>
      rw [scan, hrest c rfl]
      rfl
  | cons c digits ih =>
    obtain ⟨hc, hdigits⟩ := List.forall_mem_cons.1 hdigits
    obtain ⟨d, hd⟩ := Option.isSome_iff_exists.1 hc
    have hvalue : digitValue base c = d := by rw [digitValue, hd, Option.getD_some]
    rw [List.cons_append, scan, hd, extended_cons, hvalue]
    rcases Nat.lt_or_ge (base * n + d) bound with hlt | hge
    · exact (if_pos hlt).trans (ih hdigits hlt)
    · have hlarge : bound ≤ extended base (base * n + d) digits :=
        Nat.le_trans hge (le_extended hb)
      rw [if_pos hlarge]
      exact if_neg (Nat.not_lt.2 hge)

/-- What is told of a text that begins with digits, or with a sign and digits. -/
theorem read_append {text : List Char} (htext : text ≠ [])
    (hunsigned : unsigned text = digits ++ rest) : read base text =
      if bound ≤ extended base 0 digits then .error .tooLarge
      else if rest = [] then .ok (extended base 0 digits) else .error .invalidDigit := by
  rw [read, if_neg htext, hunsigned]
  exact scan_append hb hdigits hrest (by decide)

end Intel8080.Numeral
