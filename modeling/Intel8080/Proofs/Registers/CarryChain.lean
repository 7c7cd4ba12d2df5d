import Intel8080.Proofs.Reference.Arithmetic
import Mathlib.Data.Nat.Digits.Defs
import Mathlib.Tactic.LinearCombination

/-!
# Chains of operations that carry

A number too long for the accumulator is worked on digit by digit, and the carry takes what one
digit leaves over to the next. Main statements: `longNumber_digits`, what a chain computes if each
of its operations is exact, `result_semiconj` and `chain_semiconj`, two chains whose operations
correspond, and `chainsExactly`, the chains of additions, subtractions and rotations.
-/

namespace Intel8080

/-- The number whose digits in base 256 are the bytes, the lowest first. -/
def longNumber (bytes : List UInt8) : Nat := Nat.ofDigits 256 (bytes.map UInt8.toNat)

@[simp] theorem longNumber_nil : longNumber [] = 0 := rfl

@[simp] theorem longNumber_cons (v : UInt8) (bytes : List UInt8) :
    longNumber (v :: bytes) = v.toNat + 256 * longNumber bytes := by
  simp [longNumber, Nat.ofDigits_cons]

/-- More bytes count above those before. -/
theorem longNumber_append (bytes more : List UInt8) :
    longNumber (bytes ++ more) = longNumber bytes + 256 ^ bytes.length * longNumber more := by
  rw [longNumber, List.map_append, Nat.ofDigits_append, List.length_map]
  rfl

/-- As many bytes that make up the same number are the same bytes. -/
theorem eq_of_longNumber_eq {bytes more : List UInt8} (hlength : bytes.length = more.length)
    (h : longNumber bytes = longNumber more) : bytes = more := by
  have hlt (bytes : List UInt8) : ∀ d ∈ bytes.map UInt8.toNat, d < 256 := by
    simp only [List.mem_map, forall_exists_index, and_imp, forall_apply_eq_imp_iff₂]
    exact fun v _ ↦ v.toNat_lt
  refine (List.map_inj_right fun _ _ ↦ UInt8.toNat_inj.1).1 ?_
  exact Nat.ofDigits_inj_of_len_eq (by decide) (by simpa using hlength) (hlt _) (hlt _) h

/-- A carry is told by its number. -/
theorem carry_eq_of_toNat_eq {c c' : Bool} (h : c.toNat = c'.toNat) : c = c' := by
  cases c <;> cases c' <;> first | rfl | cases h

theorem toNat_complement (v : UInt8) : (255 - v).toNat = 255 - v.toNat := by
  have hv := v.toNat_lt
  rw [UInt8.toNat_sub_of_le _ _ (UInt8.le_iff_toNat_le.2 (by simpa using Nat.le_of_lt_succ hv))]
  rfl

/-- A number and that of the complemented bytes make up the greatest one. -/
theorem longNumber_complement (bytes : List UInt8) :
    longNumber (bytes.map (255 - ·)) + longNumber bytes + 1 = 256 ^ bytes.length := by
  induction bytes with
  | nil => rfl
  | cons v bytes ih =>
    have hv := v.toNat_lt
    rw [List.map_cons, longNumber_cons, longNumber_cons, toNat_complement, List.length_cons,
      Nat.pow_succ]
    omega

/-- A difference is a sum with the complement, in which the carry stands for no borrow. -/
theorem Alu.sub_eq_add (a v : UInt8) (borrow : Bool) (f : Flags) :
    Alu.sub a v borrow f = ((Alu.add a (255 - v) (!borrow) f).1,
      { (Alu.add a (255 - v) (!borrow) f).2 with
        carry := !(Alu.add a (255 - v) (!borrow) f).2.carry }) := by
  have hv := v.toNat_lt
  obtain ⟨hsum, hsumFlags⟩ := Reference.add_eq a (255 - v) f (!borrow)
  obtain ⟨hdiff, hdiffFlags⟩ := Reference.sub_eq a v f borrow
  rw [toNat_complement] at hsum hsumFlags
  have hresult : (Alu.sub a v borrow f).1 = (Alu.add a (255 - v) (!borrow) f).1 := by
    apply UInt8.toNat_inj.1
    rw [hsum, hdiff, Reference.byte, Reference.byte]
    cases borrow <;> simp <;> omega
  have hcarry : decide ((a.toNat : Int) - v.toNat - borrow.toNat < 0) =
      !decide (255 < a.toNat + (255 - v.toNat) + (!borrow).toNat) := by
    rw [← decide_not, decide_eq_decide]
    cases borrow <;> simp <;> omega
  have haux : decide (v.toNat % 16 + borrow.toNat ≤ a.toNat % 16) =
      decide (15 < a.toNat % 16 + (255 - v.toNat) % 16 + (!borrow).toNat) := by
    rw [decide_eq_decide]
    cases borrow <;> simp <;> omega
  refine Prod.ext hresult ?_
  rw [hdiffFlags, hsumFlags, hresult, hcarry, haux]

namespace Registers

def withCarry (r : Registers) (carry : Bool) : Registers :=
  { r with flags := { r.flags with carry } }

def turn (r : Registers) (kind : Rotation) : Registers :=
  ((Instruction.rotate kind).execute r 0 0).registers

/-! ## Chains -/

section Chain

variable {δ ε : Type} (act : Registers → δ → Registers)

/-- The register files that a chain comes to, one for each digit. -/
def chain (r : Registers) : List δ → List Registers
  | [] => []
  | d :: ds => act r d :: chain (act r d) ds

/-- The bytes that a chain leaves in the accumulator, one after the other. -/
def digits (r : Registers) (ds : List δ) : List UInt8 := (chain act r ds).map Registers.a

/-- The register file at the end of a chain. -/
def result (r : Registers) (ds : List δ) : Registers := ds.foldl act r

variable {act} {act' : Registers → ε → Registers} {r : Registers} {ds : List δ}

@[simp] theorem digits_nil : digits act r [] = [] := rfl

@[simp] theorem digits_cons (d : δ) :
    digits act r (d :: ds) = (act r d).a :: digits act (act r d) ds := rfl

@[simp] theorem result_nil : result act r [] = r := rfl

@[simp] theorem result_cons (d : δ) : result act r (d :: ds) = result act (act r d) ds := rfl

@[simp] theorem length_digits : (digits act r ds).length = ds.length := by
  induction ds generalizing r with
  | nil => rfl
  | cons d ds ih => rw [digits_cons, List.length_cons, List.length_cons, ih]

/-- If each operation gives its digit and the carry exactly, from the lowest digit up, then so does
the chain. -/
theorem longNumber_digits {value : δ → Nat}
    (h : ∀ r d, (act r d).a.toNat + 256 * (act r d).flags.carry.toNat =
      value d + r.flags.carry.toNat) :
    longNumber (digits act r ds) + 256 ^ ds.length * (result act r ds).flags.carry.toNat =
      Nat.ofDigits 256 (ds.map value) + r.flags.carry.toNat := by
  induction ds generalizing r with
  | nil => simp
  | cons d ds ih =>
    have hfirst := h r d
    have hrest := ih (r := act r d)
    rw [digits_cons, longNumber_cons, result_cons, List.length_cons, List.map_cons,
      Nat.ofDigits_cons, Nat.pow_succ]
    linarith

/-- What holds of a register file and is kept by each operation holds at the end of the chain. -/
theorem result_induction {P : Registers → Prop} (h : ∀ r d, P r → P (act r d)) (hr : P r) :
    P (result act r ds) := by
  induction ds generalizing r with
  | nil => exact hr
  | cons d ds ih => exact ih (h r d hr)

section Semiconj

variable {f : Registers → Registers} {g : δ → ε} (h : ∀ r d, act' (f r) (g d) = f (act r d))

include h

/-- If the operations of two chains correspond, so do the register files they come to. -/
theorem chain_semiconj : chain act' (f r) (ds.map g) = (chain act r ds).map f := by
  induction ds generalizing r with
  | nil => rfl
  | cons d ds ih => rw [List.map_cons, chain, chain, List.map_cons, h, ih]

/-- A map of registers that commutes with each link commutes with the chain. -/
theorem result_semiconj : result act' (f r) (ds.map g) = f (result act r ds) := by
  induction ds generalizing r with
  | nil => rfl
  | cons d ds ih => rw [List.map_cons, result_cons, result_cons, h, ih]

end Semiconj

end Chain

/-! ## Additions, subtractions and rotations -/

/-- Puts the first of two bytes in the accumulator and combines it with the second. -/
def combine (op : AluOp) (r : Registers) (pair : UInt8 × UInt8) : Registers :=
  { r with a := pair.1 }.operate op pair.2

/-- Puts a byte in the accumulator and rotates it. -/
def turnByte (kind : Rotation) (r : Registers) (v : UInt8) : Registers :=
  { r with a := v }.turn kind

def complementCarry (r : Registers) : Registers := r.withCarry (!r.flags.carry)

def complementSecond (pair : UInt8 × UInt8) : UInt8 × UInt8 := (pair.1, 255 - pair.2)

variable (r : Registers)

/-- One digit of an addition, with the carry in and the carry out. -/
theorem toNat_combine_adc (pair : UInt8 × UInt8) :
    (combine .adc r pair).a.toNat + 256 * (combine .adc r pair).flags.carry.toNat =
      pair.1.toNat + pair.2.toNat + r.flags.carry.toNat :=
  Alu.toNat_add pair.1 pair.2 r.flags.carry r.flags

/-- Subtracting with borrow is adding the complement between two complements of the carry. -/
theorem combine_adc_complement (pair : UInt8 × UInt8) :
    combine .adc r.complementCarry (complementSecond pair) =
      (combine .sbb r pair).complementCarry := by
  have h := congrArg (fun difference ↦ { r with a := difference.1, flags := difference.2 })
    (Alu.sub_eq_add pair.1 pair.2 r.flags.carry r.flags)
  change combine .sbb r pair = _ at h
  simp only [h, complementCarry, withCarry, Bool.not_not]
  rfl

theorem toNat_turnByte_ral (v : UInt8) :
    (turnByte .ral r v).a.toNat + 256 * (turnByte .ral r v).flags.carry.toNat =
      2 * v.toNat + r.flags.carry.toNat := by
  have hv := v.toNat_lt
  have hbyte : (turnByte .ral r v).a.toNat = 2 * v.toNat % 256 + r.flags.carry.toNat :=
    Reference.toNat_rotate v .ral r.flags.carry
  have hcarry : (turnByte .ral r v).flags.carry = decide (128 ≤ v.toNat) :=
    Reference.carry_rotate v .ral r.flags.carry
  rw [hbyte, hcarry]
  by_cases h : 128 ≤ v.toNat <;> simp [h] <;> omega

/-- One digit of a division by two, which takes the carry in from above. -/
theorem toNat_turnByte_rar (v : UInt8) :
    2 * (turnByte .rar r v).a.toNat + (turnByte .rar r v).flags.carry.toNat =
      v.toNat + 256 * r.flags.carry.toNat := by
  have hbyte : (turnByte .rar r v).a.toNat = v.toNat / 2 + 128 * r.flags.carry.toNat :=
    Reference.toNat_rotate v .rar r.flags.carry
  have hcarry : (turnByte .rar r v).flags.carry = decide (v.toNat % 2 = 1) :=
    Reference.carry_rotate v .rar r.flags.carry
  rw [hbyte, hcarry]
  by_cases h : v.toNat % 2 = 1 <;> simp [h] <;> omega

variable (bytes : List UInt8) (pairs : List (UInt8 × UInt8))

/-- A chain of additions adds long numbers, with the carry on either side. -/
theorem longNumber_digits_adc :
    longNumber (digits (combine .adc) r pairs) +
        256 ^ pairs.length * (result (combine .adc) r pairs).flags.carry.toNat =
      longNumber (pairs.map Prod.fst) + longNumber (pairs.map Prod.snd) +
        r.flags.carry.toNat := by
  rw [longNumber_digits toNat_combine_adc, longNumber, longNumber,
    Nat.ofDigits_add_ofDigits_eq_ofDigits_zipWith_of_length_eq (by simp), List.map_map,
    List.map_map, List.zipWith_map, List.zipWith_self]
  rfl

/-- Subtracting is adding the complement, with the carry complemented on either side. -/
theorem chain_complement : chain (combine .adc) r.complementCarry (pairs.map complementSecond) =
    (chain (combine .sbb) r pairs).map complementCarry :=
  chain_semiconj combine_adc_complement

theorem result_complement :
    result (combine .adc) r.complementCarry (pairs.map complementSecond) =
      (result (combine .sbb) r pairs).complementCarry :=
  result_semiconj combine_adc_complement

theorem digits_complement :
    digits (combine .adc) r.complementCarry (pairs.map complementSecond) =
      digits (combine .sbb) r pairs := by
  rw [digits, chain_complement, List.map_map]
  rfl

/-- A chain of subtractions takes one long number from another. -/
theorem longNumber_digits_sbb :
    longNumber (digits (combine .sbb) r pairs) + longNumber (pairs.map Prod.snd) +
        r.flags.carry.toNat =
      longNumber (pairs.map Prod.fst) +
        256 ^ pairs.length * (result (combine .sbb) r pairs).flags.carry.toNat := by
  have hsum := longNumber_digits_adc r.complementCarry (pairs.map complementSecond)
  have hfirst : (pairs.map complementSecond).map Prod.fst = pairs.map Prod.fst := by
    rw [List.map_map]
    rfl
  have hsecond : (pairs.map complementSecond).map Prod.snd =
      (pairs.map Prod.snd).map (255 - ·) := by
    rw [List.map_map, List.map_map]
    rfl
  have hcomplement := longNumber_complement (pairs.map Prod.snd)
  rw [digits_complement, result_complement, hfirst, hsecond, List.length_map] at hsum
  rw [List.length_map] at hcomplement
  simp only [complementCarry, withCarry] at hsum
  -- a borrow going in or out is a carry that does not
  cases hc : r.flags.carry <;>
    cases hcy : (result (combine .sbb) r pairs).flags.carry <;>
    simp only [hc, hcy, Bool.not_true, Bool.not_false, Bool.toNat_true, Bool.toNat_false,
      Nat.mul_zero, Nat.mul_one] at hsum ⊢ <;>
    omega

/-- A chain of rotations to the left doubles a long number. -/
theorem longNumber_digits_ral :
    longNumber (digits (turnByte .ral) r bytes) +
        256 ^ bytes.length * (result (turnByte .ral) r bytes).flags.carry.toNat =
      2 * longNumber bytes + r.flags.carry.toNat := by
  rw [longNumber_digits toNat_turnByte_ral, longNumber, Nat.mul_ofDigits, List.map_map]
  rfl

/-- Halving goes from the highest byte down. -/
theorem longNumber_digits_rar :
    2 * longNumber (digits (turnByte .rar) r bytes).reverse +
        (result (turnByte .rar) r bytes).flags.carry.toNat =
      longNumber bytes.reverse + 256 ^ bytes.length * r.flags.carry.toNat := by
  induction bytes generalizing r with
  | nil => simp
  | cons v bytes ih =>
    have hfirst := toNat_turnByte_rar r v
    have hrest := ih (turnByte .rar r v)
    rw [digits_cons, result_cons, List.reverse_cons, List.reverse_cons, longNumber_append,
      longNumber_append, List.length_cons, Nat.pow_succ, List.length_reverse, List.length_reverse,
      length_digits, longNumber_cons, longNumber_cons, longNumber_nil]
    linear_combination hrest + 256 ^ bytes.length * hfirst

variable {r bytes pairs}

/-- Doubling and then halving gives the bytes back, and the carry that went in. -/
theorem digits_rar_digits_ral {doubled : Registers}
    (h : doubled.flags.carry = (result (turnByte .ral) r bytes).flags.carry) :
    (digits (turnByte .rar) doubled (digits (turnByte .ral) r bytes).reverse).reverse = bytes ∧
      (result (turnByte .rar) doubled (digits (turnByte .ral) r bytes).reverse).flags.carry =
        r.flags.carry := by
  have hdouble := longNumber_digits_ral r bytes
  have hhalf := longNumber_digits_rar doubled (digits (turnByte .ral) r bytes).reverse
  rw [List.reverse_reverse, List.length_reverse, length_digits, h, hdouble] at hhalf
  have hin := r.flags.carry.toNat_lt
  have hout := (result (turnByte .rar) doubled
    (digits (turnByte .ral) r bytes).reverse).flags.carry.toNat_lt
  refine ⟨eq_of_longNumber_eq (by simp) (by omega), carry_eq_of_toNat_eq (by omega)⟩

/-- A chain leaves every register but the accumulator as it was. -/
theorem eq_result_combine (op : AluOp) : result (combine op) r pairs =
    { r with
      a := (result (combine op) r pairs).a
      flags := (result (combine op) r pairs).flags } :=
  result_induction (P := fun s ↦ s = { r with a := s.a, flags := s.flags })
    (fun s pair hs ↦ by rw [hs]; rfl) rfl

/-- A chain of rotations leaves every flag but the carry as it was, too. -/
theorem eq_result_turnByte (kind : Rotation) : result (turnByte kind) r bytes =
    { r with
      a := (result (turnByte kind) r bytes).a
      flags := { r.flags with carry := (result (turnByte kind) r bytes).flags.carry } } :=
  result_induction
    (P := fun s ↦ s = { r with a := s.a, flags := { r.flags with carry := s.flags.carry } })
    (fun s v hs ↦ by rw [hs]; rfl) rfl

/-- What chains over two numbers of `n` bytes come to, with a carry that goes in. -/
structure ChainsExactly {n : Nat} (x y : Vector UInt8 n) (r : Registers) (c : Bool) : Prop where
  sum_eq :
    longNumber (digits (combine .adc) (r.withCarry c) (x.toList.zip y.toList)) +
        256 ^ n * (result (combine .adc) (r.withCarry c)
          (x.toList.zip y.toList)).flags.carry.toNat =
      longNumber x.toList + longNumber y.toList + c.toNat
  difference_eq :
    (longNumber (digits (combine .sbb) (r.withCarry c) (x.toList.zip y.toList)) : Int) =
      longNumber x.toList - longNumber y.toList - c.toNat +
        256 ^ n * (result (combine .sbb) (r.withCarry c)
          (x.toList.zip y.toList)).flags.carry.toNat
  /-- Subtracting comes to the same as adding the complemented bytes with the carry complemented:
  the same digits, the same auxiliary carry at each of them, and the other carry at the end. -/
  complement_eq :
    let differences := chain (combine .sbb) (r.withCarry c) (x.toList.zip y.toList)
    let sums := chain (combine .adc) (r.withCarry !c)
      (x.toList.zip (y.toList.map (255 - ·)))
    differences.map Registers.a = sums.map Registers.a ∧
      differences.map (fun s ↦ s.flags.auxCarry) = sums.map (fun s ↦ s.flags.auxCarry) ∧
      (result (combine .sbb) (r.withCarry c) (x.toList.zip y.toList)).flags.carry =
        !(result (combine .adc) (r.withCarry !c)
          (x.toList.zip (y.toList.map (255 - ·)))).flags.carry
  double_eq :
    longNumber (digits (turnByte .ral) (r.withCarry c) x.toList) +
        256 ^ n * (result (turnByte .ral) (r.withCarry c) x.toList).flags.carry.toNat =
      2 * longNumber x.toList + c.toNat
  /-- Halving goes from the highest byte down. -/
  half_eq :
    2 * longNumber (digits (turnByte .rar) (r.withCarry c) x.toList.reverse).reverse +
        (result (turnByte .rar) (r.withCarry c) x.toList.reverse).flags.carry.toNat =
      longNumber x.toList + 256 ^ n * c.toNat
  /-- Halving what was doubled, with the carry that it left, gives back the bytes and the carry. -/
  restored :
    let doubled := digits (turnByte .ral) (r.withCarry c) x.toList
    let left := result (turnByte .ral) (r.withCarry c) x.toList
    (digits (turnByte .rar) left doubled.reverse).reverse = x.toList ∧
      (result (turnByte .rar) left doubled.reverse).flags.carry = c
  /-- A chain leaves every register but the accumulator as it was. -/
  kept : ∀ op pairs, result (combine op) (r.withCarry c) pairs =
    { r with
      a := (result (combine op) (r.withCarry c) pairs).a
      flags := (result (combine op) (r.withCarry c) pairs).flags }
  /-- A chain of rotations leaves every flag but the carry as it was, too. -/
  kept_flags : ∀ kind bytes, result (turnByte kind) (r.withCarry c) bytes =
    { r with
      a := (result (turnByte kind) (r.withCarry c) bytes).a
      flags := { r.flags with
        carry := (result (turnByte kind) (r.withCarry c) bytes).flags.carry } }

/-- Chains of every length compute exactly, from every register file and with either carry. -/
theorem chainsExactly {n : Nat} (x y : Vector UInt8 n) (r : Registers) (c : Bool) :
    ChainsExactly x y r c := by
  have hlength : x.toList.length = y.toList.length := by simp
  have hpairs : (x.toList.zip y.toList).length = n := by simp
  have hfst : (x.toList.zip y.toList).map Prod.fst = x.toList :=
    List.map_fst_zip (Nat.le_of_eq hlength)
  have hsnd : (x.toList.zip y.toList).map Prod.snd = y.toList :=
    List.map_snd_zip (Nat.le_of_eq hlength.symm)
  have hcomplement : x.toList.zip (y.toList.map (255 - ·)) =
      (x.toList.zip y.toList).map complementSecond := List.zip_map_right ..
  have hflip : r.withCarry (!c) = (r.withCarry c).complementCarry := rfl
  constructor
  case sum_eq =>
    have h := longNumber_digits_adc (r.withCarry c) (x.toList.zip y.toList)
    rwa [hpairs, hfst, hsnd] at h
  case difference_eq =>
    have h := longNumber_digits_sbb (r.withCarry c) (x.toList.zip y.toList)
    rw [hpairs, hfst, hsnd] at h
    have hcarry : (r.withCarry c).flags.carry = c := rfl
    rw [hcarry] at h
    zify at h
    linear_combination h
  case complement_eq =>
    intro differences sums
    have hsums : sums = differences.map complementCarry := by
      simp only [sums, hcomplement, hflip, chain_complement]
      rfl
    rw [hsums, hcomplement, hflip, result_complement, List.map_map, List.map_map]
    exact ⟨rfl, rfl, (Bool.not_not _).symm⟩
  case double_eq =>
    have h := longNumber_digits_ral (r.withCarry c) x.toList
    rwa [Vector.length_toList] at h
  case half_eq =>
    have h := longNumber_digits_rar (r.withCarry c) x.toList.reverse
    rwa [List.reverse_reverse, List.length_reverse, Vector.length_toList] at h
  case restored => exact digits_rar_digits_ral rfl
  case kept => exact fun op pairs ↦ eq_result_combine op
  case kept_flags => exact fun kind bytes ↦ eq_result_turnByte kind

end Registers

end Intel8080
