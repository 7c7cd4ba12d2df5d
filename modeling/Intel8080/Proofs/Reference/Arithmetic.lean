import Intel8080.Proofs.Alu
import Intel8080.Proofs.Reference.View

/-!
# Arithmetic in numbers

What the accumulator's operations leave, in numbers: sums and differences of integers brought back
to eight bits, and flags as comparisons of integers. Main statements: `operate_of`, `increment_of`,
`decrement_of` and `adjust_of`, the interpreter's operations on the view are the processor's.
-/

namespace Intel8080.Reference

/-- Parity as the sum of the binary digits. -/
theorem evenParity_eq (v : UInt8) :
    evenParity v =
      decide ((List.range 8).foldl (fun ones i ↦ ones + v.toNat / 2 ^ i % 2) 0 % 2 = 0) := by
  have bytes : ∀ i : Fin 256, evenParity (.ofFin i) =
      decide ((List.range 8).foldl (fun ones j ↦ ones + i.val / 2 ^ j % 2) 0 % 2 = 0) := by
    decide +kernel
  exact bytes v.toFin

/-! ## Sums and differences -/

variable (a v : UInt8) (f : Flags)

/-- A sum of bytes as a sum of numbers: the carries are those out of eight and out of four bits. -/
theorem add_eq (carry : Bool) :
    let total := a.toNat + v.toNat + carry.toNat
    (Alu.add a v carry f).1.toNat = byte total ∧
      (Alu.add a v carry f).2 = { f.afterResult (Alu.add a v carry f).1 with
        carry := 255 < total
        auxCarry := 15 < a.toNat % 16 + v.toNat % 16 + carry.toNat } := by
  intro total
  have key := Alu.toNat_add a v carry f
  have hr := (Alu.add a v carry f).1.toNat_lt
  have hc : (Alu.add a v carry f).2.carry = decide (255 < total) := by
    cases h : (Alu.add a v carry f).2.carry <;>
      simp only [h, Bool.toNat_true, Bool.toNat_false] at key <;> simp <;> omega
  have hx : (Alu.add a v carry f).2.auxCarry =
      decide (15 < a.toNat % 16 + v.toNat % 16 + carry.toNat) := by
    rw [← Alu.toNat_nibbles]
    rfl
  refine ⟨?_, ?_⟩
  · simp only [byte, total]
    omega
  · rw [← hc, ← hx]
    rfl

/-- A difference of bytes as one of integers: it borrows where it is negative. -/
theorem sub_eq (borrow : Bool) :
    let total : Int := a.toNat - v.toNat - borrow.toNat
    (Alu.sub a v borrow f).1.toNat = byte total ∧
      (Alu.sub a v borrow f).2 = { f.afterResult (Alu.sub a v borrow f).1 with
        carry := total < 0
        auxCarry := v.toNat % 16 + borrow.toNat ≤ a.toNat % 16 } := by
  intro total
  have key := Alu.toNat_sub a v borrow f
  have hr := (Alu.sub a v borrow f).1.toNat_lt
  have hc : (Alu.sub a v borrow f).2.carry = decide (total < 0) := by
    cases h : (Alu.sub a v borrow f).2.carry <;>
      simp only [h, Bool.toNat_true, Bool.toNat_false] at key <;> simp [total] <;> omega
  have hx : (Alu.sub a v borrow f).2.auxCarry =
      decide (v.toNat % 16 + borrow.toNat ≤ a.toNat % 16) := by
    have hsum : (Alu.sub a v borrow f).2.auxCarry =
        decide (15 < (Alu.nibble a + Alu.nibble (~~~v) + (!borrow).toUInt8).toNat) := rfl
    have hv : (~~~v).toNat % 16 = 15 - v.toNat % 16 := by
      have := v.toNat_lt
      rw [UInt8.toNat_not, show UInt8.size = 256 from rfl]
      omega
    rw [hsum, Alu.toNat_nibbles, hv]
    cases borrow <;> simp <;> omega
  refine ⟨?_, ?_⟩
  · simp only [byte, total]
    omega
  · rw [← hc, ← hx]
    rfl

/-! ## Decimal adjustment and rotations -/

/-- Whether the low digit is corrected. -/
theorem low_correction :
    (decide (Alu.nibble a > 9) || f.auxCarry) = (decide (9 < a.toNat % 16) || f.auxCarry) := by
  have : Alu.nibble a > 9 ↔ 9 < a.toNat % 16 := by
    rw [gt_iff_lt, UInt8.lt_iff_toNat_lt, Alu.toNat_nibble]
    rfl
  simp only [this]

/-- Whether the high digit is corrected can be read off the byte before it is adjusted: adding six
brings the high digit above nine only where the byte was above ninety-nine (in hexadecimal). -/
theorem high_correction {once : UInt16} {low : Bool} (hlow : 9 < a.toNat % 16 → low = true)
    (honce : once.toNat = a.toNat + 6 * low.toNat) :
    (decide (once / 16 > 9) || f.carry) = (decide (0x99 < a.toNat) || f.carry) := by
  have hl := low.toNat_lt
  have : once / 16 > 9 ↔ 0x99 < a.toNat := by
    rw [gt_iff_lt, UInt16.lt_iff_toNat_lt, UInt16.toNat_div, honce,
      show (9 : UInt16).toNat = 9 from rfl, show (16 : UInt16).toNat = 16 from rfl]
    by_cases hn : 9 < a.toNat % 16
    · rw [hlow hn, Bool.toNat_true]
      omega
    · omega
  simp only [this]

/-- The carry of the second correction is whether it was made. -/
theorem correction_carry {twice : UInt16} {low high : Bool} (hlow : 9 < a.toNat % 16 → low = true)
    (hhigh : high = (decide (0x99 < a.toNat) || f.carry))
    (htwice : twice.toNat = a.toNat + 6 * low.toNat + 96 * high.toNat) :
    (f.carry || decide (twice > 0xff)) = high := by
  have ha := a.toNat_lt
  have hl := low.toNat_lt
  have hover : twice > 0xff ↔ 255 < a.toNat + 6 * low.toNat + 96 * high.toNat := by
    rw [gt_iff_lt, UInt16.lt_iff_toNat_lt, htwice]
    rfl
  cases hc : f.carry with
  | true => simp [hhigh, hc]
  | false =>
    rw [hc, Bool.or_false] at hhigh
    simp only [hover, Bool.false_or]
    by_cases hn : 0x99 < a.toNat
    · simp only [hhigh, hn, decide_true, Bool.toNat_true, decide_eq_true_iff]
      by_cases hd : 9 < a.toNat % 16
      · rw [hlow hd, Bool.toNat_true]
        omega
      · omega
    · simp only [hhigh, hn, decide_false, Bool.toNat_false, decide_eq_false_iff_not]
      omega

/-- The auxiliary carry of the first correction. -/
theorem correction_auxCarry {low : Bool} (hlow : 9 < a.toNat % 16 → low = true) :
    (low && decide (Alu.nibble a + 6 > 0x0f)) = decide (9 < a.toNat % 16) := by
  have hover : Alu.nibble a + 6 > 0x0f ↔ 9 < a.toNat % 16 := by
    rw [gt_iff_lt, UInt8.lt_iff_toNat_lt, UInt8.toNat_add, Alu.toNat_nibble,
      show (0x0f : UInt8).toNat = 15 from rfl, show (6 : UInt8).toNat = 6 from rfl]
    omega
  simp only [hover]
  by_cases hn : 9 < a.toNat % 16
  · simp [hn, hlow hn]
  · simp [hn]

/-- Decimal adjustment as one addition of up to sixty-six in hexadecimal. -/
theorem decimalAdjust_eq :
    let low := decide (9 < a.toNat % 16) || f.auxCarry
    let high := decide (0x99 < a.toNat) || f.carry
    let result := Alu.decimalAdjust a f
    result.1.toNat = byte (a.toNat + 6 * low.toNat + 96 * high.toNat) ∧
      result.2 = { f.afterResult result.1 with
        carry := high
        auxCarry := 9 < a.toNat % 16 } := by
  intro low high result
  have hlow : 9 < a.toNat % 16 → low = true := fun h ↦ by simp [low, h]
  have ha := a.toNat_lt
  have hl := low.toNat_lt
  have hh := high.toNat_lt
  let once := a.toUInt16 + if low then 0x06 else 0
  let twice := once + if high then 0x60 else 0
  have honce : once.toNat = a.toNat + 6 * low.toNat :=
    Alu.toNat_add_ite a.toUInt16 0x06 low (by simp; omega)
  have htwice : twice.toNat = a.toNat + 6 * low.toNat + 96 * high.toNat := by
    rw [← honce]
    exact Alu.toNat_add_ite once 0x60 high (by simp [honce]; omega)
  have hresult : result = (lowByte twice, { f.afterResult (lowByte twice) with
      auxCarry := low && decide (Alu.nibble a + 6 > 0x0f)
      carry := f.carry || decide (twice > 0xff) }) := by
    have h := high_correction a f hlow honce
    simp only [once] at h
    simp only [result, Alu.decimalAdjust, low_correction]
    simp only [low] at h
    simp only [h]
    rfl
  rw [hresult, correction_auxCarry a hlow, correction_carry a f hlow rfl htwice]
  refine ⟨?_, rfl⟩
  rw [toNat_lowByte, htwice, byte]
  omega

/-- Rotations as multiplication and division by two. -/
theorem toNat_rotate (kind : Rotation) (carry : Bool) :
    (Alu.rotate kind a carry).1.toNat = match kind with
      | .rlc => 2 * a.toNat % 256 + a.toNat / 128
      | .rrc => a.toNat / 2 + 128 * (a.toNat % 2)
      | .ral => 2 * a.toNat % 256 + carry.toNat
      | .rar => a.toNat / 2 + 128 * carry.toNat := by
  have ha := a.toNat_lt
  have hc := carry.toNat_lt
  cases kind <;> simp [Alu.rotate, Alu.toNat_toUInt8] <;> omega

/-- The bit that a rotation moves to the carry. -/
theorem carry_rotate (kind : Rotation) (carry : Bool) :
    (Alu.rotate kind a carry).2 = match kind with
      | .rlc | .ral => decide (128 ≤ a.toNat)
      | .rrc | .rar => decide (a.toNat % 2 = 1) := by
  have hodd : (a % 2 == 1) = decide (a.toNat % 2 = 1) := by
    rw [Bool.eq_iff_iff, decide_eq_true_iff, beq_iff_eq, ← UInt8.toNat_inj, UInt8.toNat_mod]
    rfl
  cases kind with
  | rlc | ral => rfl
  | rrc | rar => exact hodd

/-! ## Operations on the view -/

namespace State

variable (cpu : Cpu) (memory : Memory)

theorem resultFlags_of (v : UInt8) :
    (of cpu memory).resultFlags v.toNat = cpu.flags.afterResult v := by
  have hz : decide (v.toNat = 0) = (v == 0) := by
    rw [Bool.eq_iff_iff, decide_eq_true_iff, beq_iff_eq, ← UInt8.toNat_inj]
    rfl
  have hs : decide (128 ≤ v.toNat) = decide (0x80 ≤ v) := rfl
  rw [resultFlags, hz, hs, ← evenParity_eq]
  rfl

theorem sum_of (v : UInt8) (carry : Bool) : (of cpu memory).sum v.toNat carry.toNat =
    let result := Alu.add cpu.a v carry cpu.flags
    of { cpu with a := result.1, flags := result.2 } memory := by
  obtain ⟨hr, hf⟩ := add_eq cpu.a v cpu.flags carry
  have ha : (of cpu memory).a = cpu.a.toNat := rfl
  simp only [sum, ha]
  rw [← hr, resultFlags_of, hf]
  rfl

theorem differenceFlags_of (v : UInt8) (borrow : Bool) :
    (of cpu memory).differenceFlags v.toNat borrow.toNat =
      (Alu.sub cpu.a v borrow cpu.flags).2 := by
  obtain ⟨hr, hf⟩ := sub_eq cpu.a v cpu.flags borrow
  have ha : (of cpu memory).a = cpu.a.toNat := rfl
  simp only [differenceFlags, ha]
  rw [← hr, resultFlags_of, hf]

theorem difference_of (v : UInt8) (borrow : Bool) :
    (of cpu memory).difference v.toNat borrow.toNat =
      let result := Alu.sub cpu.a v borrow cpu.flags
      of { cpu with a := result.1, flags := result.2 } memory := by
  obtain ⟨hr, -⟩ := sub_eq cpu.a v cpu.flags borrow
  have ha : (of cpu memory).a = cpu.a.toNat := rfl
  rw [difference, differenceFlags_of, ha, ← hr]
  rfl

theorem logic_of (v : UInt8) : (of cpu memory).logic v.toNat =
    of { cpu with a := v, flags := cpu.flags.afterLogic v } memory := by
  rw [logic, resultFlags_of]
  rfl

/-- The operation with a code is the processor's. -/
theorem operate_of (op : AluOp) (v : UInt8) : (of cpu memory).operate op.code v.toNat =
    of { cpu with toRegisters := cpu.operate op v } memory := by
  cases op with
  | add => exact sum_of cpu memory v false
  | adc => exact sum_of cpu memory v cpu.flags.carry
  | sub => exact difference_of cpu memory v false
  | sbb => exact difference_of cpu memory v cpu.flags.carry
  | ana =>
    refine Eq.trans ?_ (logic_of cpu memory (cpu.a &&& v))
    rw [UInt8.toNat_and]
    rfl
  | xra =>
    refine Eq.trans ?_ (logic_of cpu memory (cpu.a ^^^ v))
    rw [UInt8.toNat_xor]
    rfl
  | ora =>
    refine Eq.trans ?_ (logic_of cpu memory (cpu.a ||| v))
    rw [UInt8.toNat_or]
    rfl
  | cmp =>
    have h := differenceFlags_of cpu memory v false
    exact congrArg (fun flags ↦ { of cpu memory with flags }) h

/-- Counting sets a register and the flags of its new value. -/
theorem set_result_of (x : Register) (v : UInt8) (auxCarry : Bool) :
    State.set { of cpu memory with
      flags := { (of cpu memory).resultFlags v.toNat with auxCarry } } x.code v.toNat =
      let flags := { cpu.flags.afterResult v with auxCarry }
      let done := cpu.carryOut memory ({ cpu.toRegisters with flags }.assign x v)
      of done.1 done.2 := by
  rw [resultFlags_of]
  exact set_of { cpu with flags := { cpu.flags.afterResult v with auxCarry } } memory x v

/-- Adding one to the register with a code. -/
theorem increment_of (x : Register) : (of cpu memory).increment x.code =
    let result := Alu.increment (cpu.get (memory.read cpu.hl) x) cpu.flags
    let done := cpu.carryOut memory ({ cpu.toRegisters with flags := result.2 }.assign x result.1)
    of done.1 done.2 := by
  generalize hv : cpu.get (memory.read cpu.hl) x = v
  have hsum : byte (v.toNat + 1) = (v + 1).toNat := byte_toNat_add v 1
  have hx : decide (v.toNat % 16 = 15) = (Alu.nibble v == 0x0f) := by
    rw [Bool.eq_iff_iff, decide_eq_true_iff, beq_iff_eq, ← UInt8.toNat_inj, Alu.toNat_nibble]
    rfl
  rw [increment, get_of, hv, hx, hsum, set_result_of]
  rfl

/-- Taking one from the register with a code. -/
theorem decrement_of (x : Register) : (of cpu memory).decrement x.code =
    let result := Alu.decrement (cpu.get (memory.read cpu.hl) x) cpu.flags
    let done := cpu.carryOut memory ({ cpu.toRegisters with flags := result.2 }.assign x result.1)
    of done.1 done.2 := by
  generalize hv : cpu.get (memory.read cpu.hl) x = v
  have hdiff : byte (v.toNat - 1) = (v - 1).toNat := byte_toNat_sub v 1
  have hx : decide (v.toNat % 16 ≠ 0) = (Alu.nibble (v - 1) != 0x0f) := by
    have hn : (Alu.nibble (v - 1)).toNat = (v.toNat + 255) % 256 % 16 := by
      rw [Alu.toNat_nibble, UInt8.toNat_sub]
      simp only [UInt8.toNat_one]
      omega
    rw [Bool.eq_iff_iff, decide_eq_true_iff, bne_iff_ne, ne_eq, ne_eq, ← UInt8.toNat_inj, hn,
      show (0x0f : UInt8).toNat = 15 from rfl]
    omega
  rw [decrement, get_of, hv, hx, hdiff, set_result_of]
  rfl

/-- Adding a pair to HL. -/
theorem addPair_of (w : UInt16) : (of cpu memory).addPair w.toNat =
    of { cpu with
      toRegisters := { cpu.setHl (cpu.hl + w) with
        flags := { cpu.flags with carry := cpu.hl.toNat + w.toNat > 0xffff } } } memory := by
  have hsum : word (cpu.hl.toNat + w.toNat) = (cpu.hl + w).toNat := word_toNat_add cpu.hl w
  rw [addPair, hl_of, hsum]
  refine (congrArg (fun s ↦ { s with
    flags := { cpu.flags with carry := decide (65535 < cpu.hl.toNat + w.toNat) } })
    (setPair_of cpu memory .hl (cpu.hl + w))).trans ?_
  rfl

/-- The decimal adjustment is the processor's. -/
theorem adjust_of : (of cpu memory).adjust =
    let result := Alu.decimalAdjust cpu.a cpu.flags
    of { cpu with a := result.1, flags := result.2 } memory := by
  obtain ⟨hr, hf⟩ := decimalAdjust_eq cpu.a cpu.flags
  have ha : (of cpu memory).a = cpu.a.toNat := rfl
  have hflags : (of cpu memory).flags = cpu.flags := rfl
  simp only [adjust, ha, hflags]
  rw [← hr, resultFlags_of, hf]
  rfl

/-- A rotation is the processor's. -/
theorem rotate_of (kind : Rotation) : (of cpu memory).accumulator kind.code =
    let result := Alu.rotate kind cpu.a cpu.flags.carry
    of { cpu with a := result.1, flags := { cpu.flags with carry := result.2 } } memory := by
  have ha := toNat_rotate cpu.a kind cpu.flags.carry
  have hc := carry_rotate cpu.a kind cpu.flags.carry
  cases kind <;> simp only [of, ha, hc] <;> rfl

end State

end Intel8080.Reference
