import Intel8080.CommandLine.Address
import Intel8080.Proofs.Hex
import Intel8080.Proofs.Numeral

/-!
# The grammar of addresses

A text falls into a mark of hexadecimal, a sign, digits, and what follows from the first character
on that is no digit. What is told of the text, as an address or as a boundary, depends on these
parts alone. Main statements: `nonempty_spelling`, every text falls into such parts;
`readHex_of_spelling`, what is read of them; and `readsByGrammar`, which says so of addresses and
boundaries.
-/

namespace Intel8080.CommandLine

open Hex (Digit)

/-- What may stand in front of a number to mark it as hexadecimal. -/
def marks : List (List Char) := [['0', 'x'], ['0', 'X'], ['$']]

/-- The parts of a text. -/
structure Spelling (text : List Char) where
  mark : List Char
  sign : List Char
  digits : List Digit
  rest : List Char
  text_eq : mark ++ (sign ++ (digits.map Digit.char ++ rest)) = text
  /-- If the text begins with a mark, that is the mark. -/
  marked : mark ∈ marks ∨ mark = [] ∧ ∀ other ∈ marks, ¬ other <+: text
  /-- A plus sign is the sign if something follows it. -/
  signed : sign = ['+'] ∧ digits.map Digit.char ++ rest ≠ [] ∨
    sign = [] ∧ ∀ later, digits.map Digit.char ++ rest = '+' :: later → later = []
  /-- The digits go on for as long as there are any. -/
  stops : ∀ d : Digit, rest.head? ≠ some d.char

namespace Spelling

variable {text : List Char} (s : Spelling text)

/-- What is left of the text after its mark and its sign. -/
def unsigned : List Char := s.digits.map Digit.char ++ s.rest

/-- The number that the digits make up, the last one counting least. -/
def value : Nat := Nat.ofDigits 16 (s.digits.map fun d ↦ d.value.val).reverse

/-- A text leaves nothing after its mark if it has neither a sign nor digits nor anything else. -/
theorem sign_append_eq_nil_iff :
    s.sign ++ s.unsigned = [] ↔ s.sign = [] ∧ s.digits = [] ∧ s.rest = [] := by
  simp [unsigned]

/-- No sign stands alone. -/
theorem digits_ne_nil (h : s.sign ++ s.unsigned ≠ []) (hrest : s.rest = []) : s.digits ≠ [] := by
  intro hdigits
  rcases s.signed with ⟨-, hbody⟩ | ⟨hsign, -⟩
  · exact hbody (by simp [hdigits, hrest])
  · exact h (s.sign_append_eq_nil_iff.2 ⟨hsign, hdigits, hrest⟩)

/-- No digits make up no number but zero. -/
theorem digits_ne_nil_of_value_pos (h : 0 < s.value) : s.digits ≠ [] := by
  intro hdigits
  rw [value, hdigits] at h
  cases h

end Spelling

/-! ## Every text has its parts -/

/-- Characters fall into digits and what follows them. -/
theorem exists_digits (text : List Char) : ∃ (digits : List Digit) (rest : List Char),
    digits.map Digit.char ++ rest = text ∧ ∀ d : Digit, rest.head? ≠ some d.char := by
  induction text with
  | nil => exact ⟨[], [], rfl, fun _ ↦ nofun⟩
  | cons c text ih =>
    cases hc : Hex.digitValue? c with
    | none =>
      refine ⟨[], c :: text, rfl, fun d hd ↦ ?_⟩
      rw [Option.some.inj hd, Hex.digitValue?_char] at hc
      cases hc
    | some v =>
      obtain ⟨d, rfl⟩ := Hex.exists_char_eq hc
      obtain ⟨digits, rest, rfl, hrest⟩ := ih
      exact ⟨d :: digits, rest, rfl, hrest⟩

/-- A text falls into a sign and what follows it. -/
theorem exists_sign (text : List Char) : ∃ sign body : List Char, sign ++ body = text ∧
    (sign = ['+'] ∧ body ≠ [] ∨ sign = [] ∧ ∀ later, body = '+' :: later → later = []) := by
  by_cases h : ∃ later, later ≠ [] ∧ text = '+' :: later
  · obtain ⟨later, hlater, rfl⟩ := h
    exact ⟨['+'], later, rfl, .inl ⟨rfl, hlater⟩⟩
  · refine ⟨[], text, rfl, .inr ⟨rfl, fun later hlater ↦ ?_⟩⟩
    by_contra hne
    exact h ⟨later, hne, hlater⟩

/-- A text falls into a mark and what follows it. -/
theorem exists_mark (text : List Char) : ∃ mark rest : List Char, mark ++ rest = text ∧
    (mark ∈ marks ∨ mark = [] ∧ ∀ other ∈ marks, ¬ other <+: text) := by
  by_cases h : ∃ mark ∈ marks, mark <+: text
  · obtain ⟨mark, hmark, rest, rfl⟩ := h
    exact ⟨mark, rest, rfl, .inl hmark⟩
  · exact ⟨[], text, rfl, .inr ⟨rfl, fun other hother hle ↦ h ⟨other, hother, hle⟩⟩⟩

/-- Every text falls into a mark, a sign, digits and what follows them. -/
theorem nonempty_spelling (text : List Char) : Nonempty (Spelling text) := by
  obtain ⟨mark, unmarked, rfl, hmarked⟩ := exists_mark text
  obtain ⟨sign, unsigned, rfl, hsigned⟩ := exists_sign unmarked
  obtain ⟨digits, rest, rfl, hstops⟩ := exists_digits unsigned
  exact ⟨⟨mark, sign, digits, rest, rfl, hmarked, hsigned, hstops⟩⟩

/-! ## What is read of the parts -/

section Read

variable {text : List Char} (s : Spelling text)

theorem unmarked_append {mark : List Char} (h : mark ∈ marks) (body : List Char) :
    unmarked (mark ++ body) = body := by
  simp only [marks, List.mem_cons, List.not_mem_nil, or_false] at h
  rcases h with rfl | rfl | rfl <;> rfl

theorem unmarked_of_not_begins (h : ∀ mark ∈ marks, ¬ mark <+: text) : unmarked text = text := by
  unfold unmarked
  split
  · exact absurd (List.prefix_append ['0', 'x'] _) (h _ (by simp [marks]))
  · exact absurd (List.prefix_append ['0', 'X'] _) (h _ (by simp [marks]))
  · exact absurd (List.prefix_append ['$'] _) (h _ (by simp [marks]))
  · rfl

theorem unmarked_of_spelling : unmarked text = s.sign ++ s.unsigned := by
  have htext : s.mark ++ (s.sign ++ s.unsigned) = text := s.text_eq
  rcases s.marked with hmark | ⟨hmark, hnone⟩
  · exact (congrArg unmarked htext).symm.trans (unmarked_append hmark _)
  · rw [hmark, List.nil_append] at htext
    exact (unmarked_of_not_begins hnone).trans htext.symm

theorem unsigned_of_spelling : Numeral.unsigned (s.sign ++ s.unsigned) = s.unsigned := by
  rcases s.signed with ⟨hsign, hbody⟩ | ⟨hsign, hplus⟩
  · obtain ⟨c, rest, hcons⟩ := List.exists_cons_of_ne_nil hbody
    rw [hsign, Spelling.unsigned, hcons]
    rfl
  · rw [hsign, List.nil_append]
    unfold Numeral.unsigned
    split
    · next c rest heq => cases hplus _ heq
    · rfl

theorem digit?_char (d : Digit) : Numeral.digit? 16 d.char = some d.value.val := by
  rw [Numeral.digit?, Hex.digitValue?_char, Option.filter_some, if_pos (by simp)]

/-- A character that is written as no digit is read as none. -/
theorem digit?_eq_none {c : Char} (h : ∀ d : Digit, c ≠ d.char) : Numeral.digit? 16 c = none := by
  cases hc : Hex.digitValue? c with
  | none => rw [Numeral.digit?, hc, Option.filter_none]
  | some v =>
    obtain ⟨d, hd⟩ := Hex.exists_char_eq hc
    exact absurd hd.symm (h d)

/-- The reader makes up the value of the digits. -/
theorem extended_of_spelling :
    Numeral.extended 16 0 (s.digits.map Digit.char) = s.value := by
  rw [Numeral.extended_zero, List.map_map, Spelling.value]
  congr 3
  funext d
  rw [Function.comp_apply, Numeral.digitValue, digit?_char, Option.getD_some]

/-- What is told of a number in hexadecimal: nothing at all is told first, then too large a number,
and an invalid digit only after that. -/
theorem read_of_spelling : Numeral.read 16 (unmarked text) =
    if s.sign ++ s.unsigned = [] then .error .empty
    else if Numeral.bound ≤ s.value then .error .tooLarge
    else if s.rest = [] then .ok s.value else .error .invalidDigit := by
  rw [unmarked_of_spelling s]
  split
  · next h => exact Numeral.read_eq_empty_iff.2 h
  · next h =>
    have hdigits : ∀ c ∈ s.digits.map Digit.char, (Numeral.digit? 16 c).isSome = true := by
      intro c hc
      obtain ⟨d, -, rfl⟩ := List.mem_map.1 hc
      rw [digit?_char, Option.isSome_some]
    have hrest : ∀ c, s.rest.head? = some c → Numeral.digit? 16 c = none := fun c hc ↦
      digit?_eq_none fun d hd ↦ s.stops d (hd ▸ hc)
    rw [Numeral.read_append (by decide) hdigits hrest h (unsigned_of_spelling s),
      extended_of_spelling]

end Read

/-! ## Addresses and boundaries -/

/-- What is told of a text, in words if it is not read. -/
def told {α : Type} (answer : Except AddressFault α) : Except String α :=
  answer.mapError AddressFault.message

/-- Of a text the same is told in words, whether it is to be an address or a boundary. -/
structure BothTell (text message : String) : Prop where
  address : told (readAddress text) = .error message
  boundary : told (readBoundary text) = .error message

/-- A text that is no number is told of in the same words, whichever of the two was asked for. -/
theorem bothTell_of_fault {text : String} {fault : Numeral.Fault}
    (h : readHex text = .error (.notHex text fault)) :
    BothTell text ("'" ++ text ++ ("' is not a hex address: " ++ fault.message)) := by
  have hmessage : (AddressFault.notHex text fault).message =
      "'" ++ text ++ ("' is not a hex address: " ++ fault.message) := String.append_assoc
  rw [← hmessage]
  constructor
  · rw [readAddress, h]
    rfl
  · rw [readBoundary, h]
    rfl

/-- What is told of a text with the given parts. -/
structure ReadsAs (text : String) (s : Spelling text.toList) : Prop where
  /-- An address is read exactly from digits whose number is below the size of memory. -/
  address_iff : ∀ v, (∃ a, readAddress text = .ok a ∧ a.toNat = v) ↔
    s.digits ≠ [] ∧ s.rest = [] ∧ s.value = v ∧ v ≤ 0xffff
  /-- A boundary may also be the size of memory. -/
  boundary_iff : ∀ v, readBoundary text = .ok v ↔
    s.digits ≠ [] ∧ s.rest = [] ∧ s.value = v ∧ v ≤ 0x10000
  /-- Otherwise addresses and boundaries are the same. -/
  boundary_iff_address : ∀ v ≠ 0x10000,
    (readBoundary text = .ok v ↔ ∃ a, readAddress text = .ok a ∧ a.toNat = v)
  empty : s.sign = [] → s.digits = [] → s.rest = [] →
    BothTell text ("'" ++ text ++ "' is not a hex address: cannot parse integer from empty string")
  /-- Too large a number is told before whatever follows its digits. -/
  tooLarge : 2 ^ 64 ≤ s.value →
    BothTell text ("'" ++ text ++
      "' is not a hex address: number too large to fit in target type")
  invalidDigit : s.value < 2 ^ 64 → s.rest ≠ [] →
    BothTell text ("'" ++ text ++ "' is not a hex address: invalid digit found in string")
  beyondWord : s.value < 2 ^ 64 → s.rest = [] → 0xffff < s.value →
    told (readAddress text) = .error ("'" ++ text ++ "' does not fit in 16 bits")
  beyondAddressSpace : s.value < 2 ^ 64 → s.rest = [] → 0x10000 < s.value →
    told (readBoundary text) = .error ("'" ++ text ++ "' lies beyond the 64 KiB address space")

section ReadsAs

variable {text : String} (s : Spelling text.toList)

/-- Every text is read by its spelling; a number that is too large is told of before a character
that is no digit. -/
theorem readHex_of_spelling : readHex text =
    if s.sign ++ s.unsigned = [] then .error (.notHex text .empty)
    else if Numeral.bound ≤ s.value then .error (.notHex text .tooLarge)
    else if s.rest = [] then .ok s.value else .error (.notHex text .invalidDigit) := by
  rw [readHex, read_of_spelling s]
  split_ifs <;> rfl

/-- The numbers that are read are those spelled by digits alone. -/
theorem readHex_eq_ok_iff_spelling {v : Nat} : readHex text = .ok v ↔
    s.digits ≠ [] ∧ s.rest = [] ∧ s.value = v ∧ v < Numeral.bound := by
  rw [readHex_of_spelling s]
  constructor
  · intro h
    split_ifs at h with hempty hlarge hrest
    obtain rfl := Except.ok.inj h
    exact ⟨s.digits_ne_nil hempty hrest, hrest, rfl, Nat.not_le.1 hlarge⟩
  · rintro ⟨hdigits, hrest, rfl, hlt⟩
    have hempty : s.sign ++ s.unsigned ≠ [] := fun h ↦
      hdigits (s.sign_append_eq_nil_iff.1 h).2.1
    rw [if_neg hempty, if_neg (Nat.not_le.2 hlt), if_pos hrest]

/-- Addresses are the numbers of sixteen bits that are spelled by digits alone. -/
theorem exists_readAddress_eq_ok_iff (v : Nat) :
    (∃ a, readAddress text = .ok a ∧ a.toNat = v) ↔
      s.digits ≠ [] ∧ s.rest = [] ∧ s.value = v ∧ v ≤ 0xffff := by
  constructor
  · rintro ⟨a, ha, rfl⟩
    rw [readAddress_eq_ok_iff, readHex_eq_ok_iff_spelling s] at ha
    obtain ⟨hdigits, hrest, hvalue, -⟩ := ha
    exact ⟨hdigits, hrest, hvalue, Nat.le_of_lt_succ a.toNat_lt⟩
  · rintro ⟨hdigits, hrest, rfl, hle⟩
    have htoNat : (UInt16.ofNat s.value).toNat = s.value :=
      UInt16.toNat_ofNat_of_lt (Nat.lt_succ_of_le hle)
    have hlt : s.value < Numeral.bound := Nat.lt_of_le_of_lt hle (by decide)
    refine ⟨UInt16.ofNat s.value, ?_, htoNat⟩
    rw [readAddress_eq_ok_iff, htoNat, readHex_eq_ok_iff_spelling s]
    exact ⟨hdigits, hrest, rfl, hlt⟩

/-- Boundaries are these numbers and the size of the address space. -/
theorem readBoundary_eq_ok_iff_spelling (v : Nat) : readBoundary text = .ok v ↔
    s.digits ≠ [] ∧ s.rest = [] ∧ s.value = v ∧ v ≤ 0x10000 := by
  rw [readBoundary_eq_ok_iff, readHex_eq_ok_iff_spelling s]
  constructor
  · rintro ⟨⟨hdigits, hrest, hvalue, -⟩, hle⟩
    exact ⟨hdigits, hrest, hvalue, hle⟩
  · rintro ⟨hdigits, hrest, hvalue, hle⟩
    exact ⟨⟨hdigits, hrest, hvalue, Nat.lt_of_le_of_lt hle (by decide)⟩, hle⟩

/-- A number that is not zero is written with digits. -/
theorem readHex_of_value_pos (hpos : 0 < s.value) (hlt : s.value < Numeral.bound)
    (hrest : s.rest = []) : readHex text = .ok s.value :=
  (readHex_eq_ok_iff_spelling s).2 ⟨s.digits_ne_nil_of_value_pos hpos, hrest, rfl, hlt⟩

end ReadsAs

/-- Every text has its parts, and whatever is told of it, as an address or as a boundary, is told by
them. -/
theorem readsByGrammar (text : String) :
    Nonempty (Spelling text.toList) ∧ ∀ s : Spelling text.toList, ReadsAs text s := by
  refine ⟨nonempty_spelling text.toList, fun s ↦ ?_⟩
  have hread := readHex_of_spelling s
  constructor
  case address_iff => exact exists_readAddress_eq_ok_iff s
  case boundary_iff => exact readBoundary_eq_ok_iff_spelling s
  case boundary_iff_address =>
    intro v hv
    have hle : v ≤ 0x10000 ↔ v ≤ 0xffff := by omega
    rw [readBoundary_eq_ok_iff_spelling s, exists_readAddress_eq_ok_iff s, hle]
  case empty =>
    intro hsign hdigits hrest
    have hempty := s.sign_append_eq_nil_iff.2 ⟨hsign, hdigits, hrest⟩
    have hfault : readHex text = .error (.notHex text .empty) := by rw [hread, if_pos hempty]
    exact bothTell_of_fault hfault
  case tooLarge =>
    intro hlarge
    have hlarge : Numeral.bound ≤ s.value := hlarge
    have hdigits := s.digits_ne_nil_of_value_pos (Nat.lt_of_lt_of_le (by decide) hlarge)
    have hempty : s.sign ++ s.unsigned ≠ [] := fun h ↦
      hdigits (s.sign_append_eq_nil_iff.1 h).2.1
    have hfault : readHex text = .error (.notHex text .tooLarge) := by
      rw [hread, if_neg hempty, if_pos hlarge]
    exact bothTell_of_fault hfault
  case invalidDigit =>
    intro hlt hrest
    have hlarge : ¬ Numeral.bound ≤ s.value := Nat.not_le.2 hlt
    have hempty : s.sign ++ s.unsigned ≠ [] := fun h ↦ hrest (s.sign_append_eq_nil_iff.1 h).2.2
    have hfault : readHex text = .error (.notHex text .invalidDigit) := by
      rw [hread, if_neg hempty, if_neg hlarge, if_neg hrest]
    exact bothTell_of_fault hfault
  case beyondWord =>
    intro hlt hrest hlarge
    have hok := readHex_of_value_pos s (Nat.lt_trans (by decide) hlarge) hlt hrest
    have hbeyond : ¬ s.value < Memory.size := Nat.not_lt.2 hlarge
    simp only [readAddress, hok, if_neg hbeyond]
    rfl
  case beyondAddressSpace =>
    intro hlt hrest hlarge
    have hok := readHex_of_value_pos s (Nat.lt_trans (by decide) hlarge) hlt hrest
    have hbeyond : ¬ s.value ≤ Memory.size := Nat.not_le.2 hlarge
    simp only [readBoundary, hok, if_neg hbeyond]
    rfl

end Intel8080.CommandLine
