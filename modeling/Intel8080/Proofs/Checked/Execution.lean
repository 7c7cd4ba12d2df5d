import Intel8080.Execution
import Intel8080.Proofs.Alu
import Intel8080.Proofs.Checked.Basic

/-!
# Checked execution

The sums and differences that instructions compute, in the widths in which they are computed, and
the assertion that loads and stores through a pair use one of two pairs. Main statements:
`checkedAdd_eq_ok` to `checkedDecimalAdjust_eq_ok`, all sums and differences fit; `pointer_decode`,
what the assertion rests on; and `checkedExecute_eq_ok`, instructions for which it holds do what
they do without checks.
-/

namespace Intel8080

open Checked

/-! ## Sums of bytes and of halves of bytes -/

namespace Alu

/-- The sum of two bytes and a carry: sixteen bits wide for the result, and eight bits wide for the
halves that tell the auxiliary carry. -/
def checkedAdd (a v : UInt8) (carry : Bool) (f : Flags) : Checked (UInt8 × Flags) := do
  let bytes ← sum 16 a.toNat v.toNat
  let wide ← sum 16 bytes carry.toNat
  let halves ← sum 8 (nibble a).toNat (nibble v).toNat
  let low ← sum 8 halves carry.toNat
  return (lowByte (.ofNat wide), { f.afterWide (.ofNat wide) with auxCarry := low > 0x0f })

/-- The difference of two bytes and a borrow, which wraps round, and the sum of the halves that
tells the auxiliary carry, which does not. -/
def checkedSub (a v : UInt8) (borrow : Bool) (f : Flags) : Checked (UInt8 × Flags) := do
  let wide := a.toUInt16 - v.toUInt16 - borrow.toUInt16
  let halves ← sum 8 (nibble a).toNat (nibble (~~~v)).toNat
  let unborrowed ← difference 1 borrow.toNat
  let low ← sum 8 halves unborrowed
  return (lowByte wide, { f.afterWide wide with auxCarry := low > 0x0f })

def checkedApply (op : AluOp) (a v : UInt8) (f : Flags) : Checked (UInt8 × Flags) :=
  match op with
  | .add => checkedAdd a v false f
  | .adc => checkedAdd a v f.carry f
  | .sub => checkedSub a v false f
  | .sbb => checkedSub a v f.carry f
  | .ana => return logic (a &&& v) f
  | .xra => return logic (a ^^^ v) f
  | .ora => return logic (a ||| v) f
  | .cmp => do
    let (_, flags) ← checkedSub a v false f
    return (a, flags)

/-- The first addition of a decimal adjustment, with the auxiliary carry it leaves. -/
def checkedLowAdjust (a : UInt8) (f : Flags) : Checked (Nat × Bool) :=
  if nibble a > 9 || f.auxCarry then do
    let half ← sum 16 (nibble a).toNat 6
    let once ← sum 16 a.toNat 6
    return (once, half > 0x0f)
  else return (a.toNat, false)

/-- The second addition of a decimal adjustment, with the carry it leaves. -/
def checkedHighAdjust (once : Nat) (f : Flags) : Checked (Nat × Bool) :=
  if once / 16 > 9 || f.carry then do
    let twice ← sum 16 once 0x60
    return (twice, f.carry || twice > 0xff)
  else return (once, f.carry)

def checkedDecimalAdjust (a : UInt8) (f : Flags) : Checked (UInt8 × Flags) := do
  let (once, auxCarry) ← checkedLowAdjust a f
  let (twice, carry) ← checkedHighAdjust once f
  let result := lowByte (.ofNat twice)
  return (result, { f.afterResult result with auxCarry, carry })

variable (a v : UInt8) (f : Flags)

/-- Two bytes and a carry fit sixteen bits, and their halves eight. -/
@[simp] theorem checkedAdd_eq_ok (carry : Bool) :
    checkedAdd a v carry f = .ok (add a v carry f) := by
  have ha := a.toNat_lt
  have hv := v.toNat_lt
  have hla := toNat_nibble a
  have hlv := toNat_nibble v
  have hc := carry.toNat_le
  have hwide : UInt16.ofNat (a.toNat + v.toNat + carry.toNat) =
      a.toUInt16 + v.toUInt16 + carry.toUInt16 := by
    have hcarry : UInt16.ofNat carry.toNat = carry.toUInt16 := by cases carry <;> rfl
    rw [UInt16.ofNat_add, UInt16.ofNat_add, hcarry]
    simp
  have hlow : ((nibble a).toNat + (nibble v).toNat + carry.toNat > 0x0f) ↔
      nibble a + nibble v + carry.toUInt8 > 0x0f := by
    rw [gt_iff_lt, gt_iff_lt, UInt8.lt_iff_toNat_lt, toNat_nibbles, hla, hlv]
    rfl
  rw [checkedAdd, sum_eq_ok (by omega), ok_bind, sum_eq_ok (by omega), ok_bind,
    sum_eq_ok (by omega), ok_bind, sum_eq_ok (by omega), ok_bind, pure_eq_ok, add, hwide]
  simp only [hlow]

/-- The sum of the halves with the complement fits, whatever is borrowed. -/
@[simp] theorem checkedSub_eq_ok (borrow : Bool) :
    checkedSub a v borrow f = .ok (sub a v borrow f) := by
  have hla := toNat_nibble a
  have hlv := toNat_nibble (~~~v)
  have hb := borrow.toNat_le
  have hnot : (!borrow).toNat = 1 - borrow.toNat := by cases borrow <;> rfl
  have hlow : ((nibble a).toNat + (nibble (~~~v)).toNat + (1 - borrow.toNat) > 0x0f) ↔
      nibble a + nibble (~~~v) + (!borrow).toUInt8 > 0x0f := by
    rw [gt_iff_lt, gt_iff_lt, UInt8.lt_iff_toNat_lt, toNat_nibbles, hla, hlv, hnot]
    rfl
  rw [checkedSub, sum_eq_ok (by omega), ok_bind, difference_eq_ok hb, ok_bind,
    sum_eq_ok (by omega), ok_bind, pure_eq_ok, sub]
  simp only [hlow]

@[simp] theorem checkedApply_eq_ok (op : AluOp) :
    checkedApply op a v f = .ok (apply op a v f) := by
  cases op <;> simp [checkedApply, apply]

/-- A byte and six more fit sixteen bits. -/
theorem checkedLowAdjust_eq_ok : checkedLowAdjust a f =
    .ok (a.toNat + 6 * (nibble a > 9 || f.auxCarry).toNat,
      (nibble a > 9 || f.auxCarry) && nibble a + 6 > 0x0f) := by
  have ha := a.toNat_lt
  have hla := toNat_nibble a
  have hsum : (nibble a + 6).toNat = (nibble a).toNat + 6 := by
    refine (UInt8.toNat_add _ _).trans (Nat.mod_eq_of_lt ?_)
    change (nibble a).toNat + 6 < 256
    omega
  have hhalf : ((nibble a).toNat + 6 > 0x0f) ↔ nibble a + 6 > 0x0f := by
    rw [gt_iff_lt, gt_iff_lt, UInt8.lt_iff_toNat_lt, hsum]
    rfl
  rw [checkedLowAdjust]
  split
  · next hlow =>
    rw [sum_eq_ok (by omega), ok_bind, sum_eq_ok (by omega), ok_bind, pure_eq_ok, hlow,
      Bool.true_and, Bool.toNat_true, Nat.mul_one]
    simp only [hhalf]
  · next hlow =>
    rw [pure_eq_ok, eq_false_of_ne_true hlow, Bool.false_and]
    rfl

/-- Without the second addition the result fits a byte, so that the carry is as it was. -/
theorem checkedHighAdjust_eq_ok {once : Nat} (h : once ≤ 0xff + 6) : checkedHighAdjust once f =
    .ok (once + 0x60 * (once / 16 > 9 || f.carry).toNat,
      f.carry || once + 0x60 * (once / 16 > 9 || f.carry).toNat > 0xff) := by
  rw [checkedHighAdjust]
  split
  · next hhigh =>
    rw [sum_eq_ok (by omega), ok_bind, pure_eq_ok, hhigh]
    rfl
  · next hhigh =>
    have hdigit : ¬once / 16 > 9 := fun hdigit ↦ hhigh (by simp [hdigit])
    have hfits : ¬once > 0xff := by omega
    rw [pure_eq_ok, eq_false_of_ne_true hhigh, Bool.toNat_false, Nat.mul_zero, Nat.add_zero,
      decide_eq_false hfits, Bool.or_false]

@[simp] theorem checkedDecimalAdjust_eq_ok :
    checkedDecimalAdjust a f = .ok (decimalAdjust a f) := by
  have ha := a.toNat_lt
  -- each condition and each sum of words is generalised once its number is known
  rw [checkedDecimalAdjust, checkedLowAdjust_eq_ok, ok_bind, decimalAdjust]
  generalize (decide (nibble a > 9) || f.auxCarry) = low
  have honce : (a.toUInt16 + if low then 0x06 else 0).toNat = a.toNat + 6 * low.toNat :=
    toNat_add_ite a.toUInt16 0x06 low (by simp; omega)
  have hle : a.toNat + 6 * low.toNat ≤ 0xff + 6 := by
    have hlow := low.toNat_le
    omega
  simp only [← honce] at hle ⊢
  generalize (a.toUInt16 + if low then 0x06 else 0) = once at hle ⊢
  have hdigit : (once.toNat / 16 > 9) ↔ once / 16 > 9 := by
    rw [gt_iff_lt, gt_iff_lt, UInt16.lt_iff_toNat_lt, UInt16.toNat_div]
    rfl
  rw [checkedHighAdjust_eq_ok f hle, ok_bind]
  simp only [hdigit]
  generalize (decide (once / 16 > 9) || f.carry) = high
  have htwice : (once + if high then 0x60 else 0).toNat = once.toNat + 0x60 * high.toNat :=
    toNat_add_ite once 0x60 high (by simp; omega)
  simp only [← htwice]
  generalize (once + if high then 0x60 else 0) = twice
  have hcarry : (twice.toNat > 0xff) ↔ twice > 0xff := by
    rw [gt_iff_lt, gt_iff_lt, UInt16.lt_iff_toNat_lt]
    rfl
  simp only [hcarry, UInt16.ofNat_toNat]
  rfl

end Alu

/-! ## Instructions -/

namespace Registers

def checkedOperate (r : Registers) (op : AluOp) (v : UInt8) : Checked Registers := do
  let (a, flags) ← Alu.checkedApply op r.a v r.flags
  return { r with a, flags }

/-- Adds a pair to HL, thirty-two bits wide. -/
def checkedAddPair (r : Registers) (p : RegisterPair) : Checked Registers := do
  let wide ← sum 32 r.hl.toNat (r.pair p).toNat
  return { r.setHl (.ofNat wide) with flags := { r.flags with carry := wide > 0xffff } }

variable (r : Registers)

@[simp] theorem checkedOperate_eq_ok (op : AluOp) (v : UInt8) :
    r.checkedOperate op v = .ok (r.operate op v) := by
  rw [checkedOperate, Alu.checkedApply_eq_ok]
  rfl

/-- Two words fit thirty-two bits. -/
@[simp] theorem checkedAddPair_eq_ok (p : RegisterPair) : r.checkedAddPair p =
    .ok { r.setHl (r.hl + r.pair p) with
      flags := { r.flags with carry := r.hl.toNat + (r.pair p).toNat > 0xffff } } := by
  have hhl := r.hl.toNat_lt
  have hp := (r.pair p).toNat_lt
  rw [checkedAddPair, sum_eq_ok (by omega), ok_bind, pure_eq_ok, UInt16.ofNat_add,
    UInt16.ofNat_toNat, UInt16.ofNat_toNat]

end Registers

namespace Instruction

/-- Whether a pair is one of the two that accumulator loads and stores use. -/
def IsPointer (p : RegisterPair) : Prop := p = .bc ∨ p = .de

instance (p : RegisterPair) : Decidable (IsPointer p) := inferInstanceAs (Decidable (_ ∨ _))

/-- What a documented instruction does, given its operand and the data it has read. All other sums
and differences of instructions wrap round. -/
def checkedExecute (i : Instruction) (r : Registers) (operand data : UInt16) : Checked Effect :=
  match i with
  | ldax pointer | stax pointer => do
    require (IsPointer pointer)
    return i.execute r operand data
  | alu op src => do
    let registers ← r.checkedOperate op (r.get (lowByte data) src)
    return { registers }
  | aluImmediate op => do
    let registers ← r.checkedOperate op (lowByte operand)
    return { registers }
  | dad p => do
    let registers ← r.checkedAddPair p
    return { registers }
  | daa => do
    let (a, flags) ← Alu.checkedDecimalAdjust r.a r.flags
    return { registers := { r with a, flags } }
  | _ => return i.execute r operand data

/-- The pair that holds the address, if the instruction is an accumulator load or store by one. -/
def pointer? : Instruction → Option RegisterPair
  | ldax p | stax p => some p
  | _ => none

/-- No byte stands for an accumulator load or store by another pair. -/
theorem pointer_decode (opcode : UInt8) : ∀ p ∈ (decode opcode).pointer?, IsPointer p := by
  have hbytes : ∀ n : Fin 256, ∀ p ∈ (decode (UInt8.ofNat n)).pointer?, IsPointer p := by
    decide +kernel
  simpa using hbytes ⟨opcode.toNat, opcode.toNat_lt⟩

@[simp] theorem pointer?_executed (i : Instruction) : i.executed.pointer? = i.pointer? := by
  cases i with
  | undocumented like => cases like <;> rfl
  | _ => rfl

variable {i : Instruction} (r : Registers) (operand data : UInt16)

/-- An instruction passes all checks if it names a pair that may point at memory. -/
theorem checkedExecute_eq_ok (h : ∀ p ∈ i.pointer?, IsPointer p) :
    i.checkedExecute r operand data = .ok (i.execute r operand data) := by
  cases i with
  | ldax p | stax p => rw [checkedExecute, require_eq_ok (h p rfl), ok_bind, pure_eq_ok]
  | alu op src => simp [checkedExecute, execute]
  | aluImmediate op => simp [checkedExecute, execute]
  | dad p => simp [checkedExecute, execute]
  | daa => simp [checkedExecute, execute]
  | _ => rfl

/-- By another pair the assertion fails. -/
example : (ldax .hl).checkedExecute {} 0 0 = .error .assertion := rfl

end Instruction

end Intel8080
