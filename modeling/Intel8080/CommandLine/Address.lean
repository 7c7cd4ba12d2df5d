import Intel8080.Memory.Basic
import Intel8080.Numeral

/-!
# Addresses on the command line

Addresses and region boundaries in hexadecimal, with or without the mark `0x`, `0X` or `$`. A
boundary may be the number of addresses itself. Main statements: `readAddress_eq_ok_iff` and
`readBoundary_eq_ok_iff`.
-/

namespace Intel8080.CommandLine

/-- Why a text is no address or boundary. -/
inductive AddressFault where
  | notHex (text : String) (fault : Numeral.Fault)
  | beyondWord (text : String)
  | beyondAddressSpace (text : String)
deriving DecidableEq, Repr, Inhabited

/-- What is said of a text that is no address or boundary. The text is quoted as it stands. -/
def AddressFault.message : AddressFault → String
  | notHex text fault => "'" ++ text ++ "' is not a hex address: " ++ fault.message
  | beyondWord text => "'" ++ text ++ "' does not fit in 16 bits"
  | beyondAddressSpace text => "'" ++ text ++ "' lies beyond the 64 KiB address space"

/-- A text without the mark of hexadecimal that may stand in front of it. -/
def unmarked : List Char → List Char
  | '0' :: 'x' :: rest => rest
  | '0' :: 'X' :: rest => rest
  | '$' :: rest => rest
  | text => text

def readHex (text : String) : Except AddressFault Nat :=
  match Numeral.read 16 (unmarked text.toList) with
  | .ok n => .ok n
  | .error fault => .error (.notHex text fault)

def readAddress (text : String) : Except AddressFault UInt16 :=
  match readHex text with
  | .ok n => if n < Memory.size then .ok (UInt16.ofNat n) else .error (.beyondWord text)
  | .error fault => .error fault

def readBoundary (text : String) : Except AddressFault Nat :=
  match readHex text with
  | .ok n => if n ≤ Memory.size then .ok n else .error (.beyondAddressSpace text)
  | .error fault => .error fault

/-- An address is any number that has sixteen bits, and no other text is read as one. -/
theorem readAddress_eq_ok_iff {text : String} {a : UInt16} :
    readAddress text = .ok a ↔ readHex text = .ok a.toNat := by
  unfold readAddress
  split
  · next n h =>
    rw [h]
    split
    · next hn =>
      simp only [Except.ok.injEq]
      constructor
      · rintro rfl
        exact (UInt16.toNat_ofNat_of_lt hn).symm
      · rintro rfl
        exact UInt16.ofNat_toNat
    · next hn =>
      simp only [reduceCtorEq, Except.ok.injEq, false_iff]
      rintro rfl
      exact hn (Memory.toNat_lt_size a)
  · next h => simp [h]

/-- A boundary may also be the size of the address space. -/
theorem readBoundary_eq_ok_iff {text : String} {n : Nat} :
    readBoundary text = .ok n ↔ readHex text = .ok n ∧ n ≤ Memory.size := by
  unfold readBoundary
  split
  · next m h =>
    rw [h]
    split
    · next hm =>
      simp only [Except.ok.injEq]
      constructor
      · rintro rfl
        exact ⟨rfl, hm⟩
      · exact And.left
    · next hm =>
      simp only [reduceCtorEq, Except.ok.injEq, false_iff]
      rintro ⟨rfl, h⟩
      exact hm h
  · next h => simp [h]

end Intel8080.CommandLine
