import Intel8080.Proofs.Program.Digits
import Intel8080.Proofs.Program.Execution
import Mathlib.Tactic.Ring

/-!
# A program that adds long numbers

A loop of ten bytes that adds the number of many digits at HL to the one at DE, in base 256 or in
decimal digits that are packed in pairs. Main statements: `leads_pass`, what one pass of the loop
does to the whole machine; `adds_passes`, what many passes do to the numbers; `leads_passes`, how
many passes there are; and `adds_run`, what comes out of a run of the program.
-/

namespace Intel8080

/-- The third byte of the program. -/
def Radix.adjustment : Radix → UInt8
  | binary => 0x00
  | packed => 0x27

namespace Machine

variable {machine : Machine}

/-! ## Its instructions -/

/-- The digit at DE is loaded. -/
theorem leads_ldax_de (h : machine.memory.read machine.cpu.pc = 0x1a) :
    machine.Leads 1 (machine.withRegisters
      { machine.advance with a := machine.memory.read machine.cpu.de }) 7 := by
  refine leads_of_nowhere (i := .ldax .de) (by rw [h]; rfl) rfl rfl ?_
  rw [effect_of_plain rfl]
  simp [Instruction.execute, Instruction.source, Registers.pair, Registers.de, advance]

/-- The digit at HL and the carry are added to it. -/
theorem leads_adc_m (h : machine.memory.read machine.cpu.pc = 0x8e) :
    machine.Leads 1 (machine.withRegisters
      (machine.advance.operate .adc (machine.memory.read machine.cpu.hl))) 7 := by
  refine leads_of_nowhere (i := .alu .adc .m) (by rw [h]; rfl) rfl rfl ?_
  rw [effect_of_plain rfl]
  simp [Instruction.execute, Instruction.source, Registers.get, Registers.hl, advance]

/-- The sum is adjusted if the digits are decimal ones. -/
theorem leads_adjust {radix : Radix}
    (h : machine.memory.read machine.cpu.pc = radix.adjustment) :
    machine.Leads 1 (machine.withRegisters { machine.advance with
      a := (radix.adjust machine.cpu.a machine.cpu.flags).1
      flags := (radix.adjust machine.cpu.a machine.cpu.flags).2 }) 4 := by
  cases radix with
  | binary =>
    refine leads_of_nowhere (i := .nop) (by rw [h]; rfl) rfl rfl ?_
    rw [effect_of_plain rfl]
    rfl
  | packed =>
    refine leads_of_nowhere (i := .daa) (by rw [h]; rfl) rfl rfl ?_
    rw [effect_of_plain rfl]
    rfl

/-- The sum takes the place of the digit at DE. -/
theorem leads_stax_de (h : machine.memory.read machine.cpu.pc = 0x12)
    (hram : machine.memory.map.region machine.cpu.de = .ram) :
    machine.Leads 1 { machine.withRegisters machine.advance with
      memory := machine.memory.set machine.cpu.de machine.cpu.a } 7 := by
  refine leads_of_byte (i := .stax .de) (by rw [h]; rfl) rfl rfl hram ?_
  rw [effect_of_plain rfl]
  rfl

theorem leads_inx_de (h : machine.memory.read machine.cpu.pc = 0x13) :
    machine.Leads 1 (machine.withRegisters (machine.advance.setDe (machine.cpu.de + 1))) 5 := by
  refine leads_of_nowhere (i := .inx .de) (by rw [h]; rfl) rfl rfl ?_
  rw [effect_of_plain rfl]
  rfl

theorem leads_inx_hl (h : machine.memory.read machine.cpu.pc = 0x23) :
    machine.Leads 1 (machine.withRegisters (machine.advance.setHl (machine.cpu.hl + 1))) 5 := by
  refine leads_of_nowhere (i := .inx .hl) (by rw [h]; rfl) rfl rfl ?_
  rw [effect_of_plain rfl]
  rfl

/-- One digit less is left; the carry is kept for the next one. -/
theorem leads_dcr_c (h : machine.memory.read machine.cpu.pc = 0x0d) :
    machine.Leads 1 (machine.withRegisters { machine.advance with
      c := machine.cpu.c - 1
      flags := (Alu.decrement machine.cpu.c machine.cpu.flags).2 }) 5 := by
  refine leads_of_nowhere (i := .dcr .c) (by rw [h]; rfl) rfl rfl ?_
  rw [effect_of_plain rfl]
  rfl

/-- The loop is closed unless no digit is left. -/
theorem leads_jnz {target past : UInt16} (h : machine.memory.read machine.cpu.pc = 0xc2)
    (hlow : machine.memory.read (machine.cpu.pc + 1) = lowByte target)
    (hhigh : machine.memory.read (machine.cpu.pc + 1 + 1) = highByte target)
    (hpast : machine.cpu.pc + 3 = past) :
    machine.Leads 1 (machine.withRegisters { machine.cpu.toRegisters with
      pc := if machine.cpu.flags.zero then past else target }) 10 := by
  refine leads_of_nowhere (i := .jump (some .notZero)) (by rw [h]; rfl) rfl rfl ?_
  have hoperand : machine.cpu.operand machine.memory (.jump (some .notZero)) = target := by
    rw [← wordOf_highByte_lowByte target, ← hlow, ← hhigh]
    rfl
  have hadvanced : machine.cpu.advanced (.jump (some .notZero)) =
      { machine.cpu.toRegisters with pc := past } := by
    rw [← hpast, Cpu.advanced, UInt16.add_assoc]
    rfl
  rw [Cpu.effect, hoperand, hadvanced]
  cases hz : machine.cpu.flags.zero <;>
    simp [Instruction.execute, Registers.taken, Flags.satisfy, hz]

/-! ## One pass of the loop -/

/-- The program: the digit at DE is replaced by its sum with the digit at HL and the carry, both
pointers go on to the next digit, and the loop is closed as long as C does not count down to
zero. -/
def addition (radix : Radix) (start : UInt16) : List UInt8 :=
  [0x1a, 0x8e, radix.adjustment, 0x12, 0x13, 0x23, 0x0d, 0xc2, lowByte start, highByte start]

/-- The sum of the digits at DE and HL and the carry. -/
def sum (radix : Radix) (machine : Machine) : UInt8 × Flags :=
  radix.add (machine.memory.read machine.cpu.de) (machine.memory.read machine.cpu.hl)
    machine.cpu.flags

def pass (radix : Radix) (machine : Machine) : Machine :=
  let sum := machine.sum radix
  let counted := Alu.decrement machine.cpu.c sum.2
  let r := (machine.cpu.toRegisters.setDe (machine.cpu.de + 1)).setHl (machine.cpu.hl + 1)
  { machine.withRegisters { r with
      a := sum.1
      c := counted.1
      flags := counted.2
      pc := if counted.2.zero then machine.cpu.pc + 10 else machine.cpu.pc } with
    memory := machine.memory.set machine.cpu.de sum.1 }

/-- The first three instructions leave the sum in the accumulator. -/
theorem leads_sum {radix : Radix} {start : UInt16}
    (hcode : machine.memory.Stands machine.cpu.pc (addition radix start)) :
    machine.Leads 3 (machine.withRegisters { machine.cpu.toRegisters with
      pc := machine.cpu.pc + 1 + 1 + 1
      a := (machine.sum radix).1
      flags := (machine.sum radix).2 }) 18 := by
  obtain ⟨hldax, hadc, hadjust, -⟩ := hcode
  have h₁ : machine.Leads 1 (machine.withRegisters { machine.cpu.toRegisters with
      pc := machine.cpu.pc + 1
      a := machine.memory.read machine.cpu.de }) 7 := leads_ldax_de hldax
  have h₂ : machine.Leads 2 (machine.withRegisters { machine.cpu.toRegisters with
      pc := machine.cpu.pc + 1 + 1
      a := (Alu.add (machine.memory.read machine.cpu.de) (machine.memory.read machine.cpu.hl)
        machine.cpu.flags.carry machine.cpu.flags).1
      flags := (Alu.add (machine.memory.read machine.cpu.de) (machine.memory.read machine.cpu.hl)
        machine.cpu.flags.carry machine.cpu.flags).2 }) 14 := h₁.trans (leads_adc_m hadc)
  exact h₂.trans (leads_adjust hadjust)

/-- One pass takes eight steps and fifty cycles, if its store does not hit the program. -/
theorem leads_pass {radix : Radix}
    (hcode : machine.memory.Stands machine.cpu.pc (addition radix machine.cpu.pc))
    (hram : machine.memory.map.region machine.cpu.de = .ram)
    (hapart : ∀ j < 10, machine.cpu.de ≠ machine.cpu.pc + UInt16.ofNat j) :
    machine.Leads 8 (machine.pass radix) 50 := by
  have hstored : (machine.memory.set machine.cpu.de (machine.sum radix).1).Stands machine.cpu.pc
      (addition radix machine.cpu.pc) :=
    hcode.congr fun j hj ↦ Memory.read_set_of_ne (hapart j hj)
  have h₃ := leads_sum hcode
  obtain ⟨-, -, -, hstax, -⟩ := hcode
  obtain ⟨-, -, -, -, hinxDe, hinxHl, hdcr, hjnz, hlow, hhigh, -⟩ := hstored
  have hpast : machine.cpu.pc + 1 + 1 + 1 + 1 + 1 + 1 + 1 + 3 = machine.cpu.pc + 10 := by
    simp only [UInt16.add_assoc]
    rfl
  have h₄ : machine.Leads 4 { machine.withRegisters { machine.cpu.toRegisters with
        pc := machine.cpu.pc + 1 + 1 + 1 + 1
        a := (machine.sum radix).1
        flags := (machine.sum radix).2 } with
      memory := machine.memory.set machine.cpu.de (machine.sum radix).1 } 25 :=
    h₃.trans (leads_stax_de hstax hram)
  have h₆ : machine.Leads 6 { machine.withRegisters
        { (machine.cpu.toRegisters.setDe (machine.cpu.de + 1)).setHl (machine.cpu.hl + 1) with
          pc := machine.cpu.pc + 1 + 1 + 1 + 1 + 1 + 1
          a := (machine.sum radix).1
          flags := (machine.sum radix).2 } with
      memory := machine.memory.set machine.cpu.de (machine.sum radix).1 } 35 :=
    (h₄.trans (leads_inx_de hinxDe)).trans (leads_inx_hl hinxHl)
  exact (h₆.trans (leads_dcr_c hdcr)).trans (leads_jnz hjnz hlow hhigh hpast)

/-! ## What the passes do -/

section Pass

variable (radix : Radix) (machine : Machine)

@[simp] theorem c_pass : (machine.pass radix).cpu.c = machine.cpu.c - 1 := rfl

@[simp] theorem de_pass : (machine.pass radix).cpu.de = machine.cpu.de + 1 :=
  wordOf_highByte_lowByte _

@[simp] theorem hl_pass : (machine.pass radix).cpu.hl = machine.cpu.hl + 1 :=
  wordOf_highByte_lowByte _

@[simp] theorem faults_pass : (machine.pass radix).cpu.faults = machine.cpu.faults := rfl

@[simp] theorem memory_pass : (machine.pass radix).memory =
    machine.memory.set machine.cpu.de (machine.sum radix).1 := rfl

@[simp] theorem carry_pass :
    (machine.pass radix).cpu.flags.carry = (machine.sum radix).2.carry := rfl

/-- The last pass leaves the loop. -/
theorem pc_pass : (machine.pass radix).cpu.pc =
    if machine.cpu.c - 1 == 0 then machine.cpu.pc + 10 else machine.cpu.pc := rfl

end Pass

/-- The `n` digits from `q` on are those from `p` on, or lie elsewhere. -/
def Apart (n : Nat) (p q : UInt16) : Prop :=
  q = p ∨ ∀ i < n, ∀ j < n, q + UInt16.ofNat i ≠ p + UInt16.ofNat j

/-- Numbers that lie apart do so without their lowest digits. -/
theorem Apart.succ {n : Nat} {p q : UInt16} (h : Apart (n + 1) p q) : Apart n (p + 1) (q + 1) := by
  rcases h with rfl | h
  · exact .inl rfl
  · refine .inr fun i hi j hj ↦ ?_
    rw [add_one_add_ofNat, add_one_add_ofNat]
    exact h (i + 1) (Nat.succ_lt_succ hi) (j + 1) (Nat.succ_lt_succ hj)

/-- The `n` digits at HL are added to those at DE, and nothing else is changed in memory. -/
structure Adds (radix : Radix) (n : Nat) (before after : Machine) : Prop where
  c_eq : after.cpu.c = before.cpu.c - UInt8.ofNat n
  de_eq : after.cpu.de = before.cpu.de + UInt16.ofNat n
  hl_eq : after.cpu.hl = before.cpu.hl + UInt16.ofNat n
  faults_eq : after.cpu.faults = before.cpu.faults
  kept : ∀ a, (∀ i < n, a ≠ before.cpu.de + UInt16.ofNat i) →
    after.memory.read a = before.memory.read a
  /-- If the bytes are digits, the sum consists of digits, and the carry is its next one. -/
  sum_eq : (∀ i < n, radix.IsDigit (before.memory.read (before.cpu.de + UInt16.ofNat i)) ∧
      radix.IsDigit (before.memory.read (before.cpu.hl + UInt16.ofNat i))) →
    (∀ i < n, radix.IsDigit (after.memory.read (before.cpu.de + UInt16.ofNat i))) ∧
    after.memory.number radix before.cpu.de n + radix.base ^ n * after.cpu.flags.carry.toNat =
      before.memory.number radix before.cpu.de n + before.memory.number radix before.cpu.hl n +
        before.cpu.flags.carry.toNat

/-- The digits above the first are as they were before the first was replaced. -/
theorem read_pass_above (radix : Radix) {n i : Nat} (hn : n < Memory.size) (hi : i < n)
    (hapart : Apart (n + 1) machine.cpu.de machine.cpu.hl) :
    (machine.pass radix).memory.read (machine.cpu.de + 1 + UInt16.ofNat i) =
        machine.memory.read (machine.cpu.de + 1 + UInt16.ofNat i) ∧
      (machine.pass radix).memory.read (machine.cpu.hl + 1 + UInt16.ofNat i) =
        machine.memory.read (machine.cpu.hl + 1 + UInt16.ofNat i) := by
  have hde : machine.cpu.de ≠ machine.cpu.de + 1 + UInt16.ofNat i := by
    rw [add_one_add_ofNat]
    exact ne_add_ofNat i.succ_pos (Nat.lt_of_le_of_lt hi hn)
  refine ⟨Memory.read_set_of_ne hde, Memory.read_set_of_ne ?_⟩
  rcases hapart with heq | hapart
  · rwa [heq]
  · intro heq
    refine hapart (i + 1) (Nat.succ_lt_succ hi) 0 n.succ_pos ?_
    rw [← add_one_add_ofNat, ← heq]
    exact (UInt16.add_zero _).symm

/-- Passes that add the digits above the first add all of them after a first pass. -/
theorem Adds.of_pass {radix : Radix} {n : Nat} {later : Machine} (hn : n < Memory.size)
    (hapart : Apart (n + 1) machine.cpu.de machine.cpu.hl)
    (h : Adds radix n (machine.pass radix) later) : Adds radix (n + 1) machine later where
  c_eq := by
    rw [h.c_eq, c_pass, UInt8.ofNat_add]
    grind
  de_eq := by rw [h.de_eq, de_pass, add_one_add_ofNat]
  hl_eq := by rw [h.hl_eq, hl_pass, add_one_add_ofNat]
  faults_eq := by rw [h.faults_eq, faults_pass]
  kept a ha := by
    have hfirst : a ≠ machine.cpu.de := by simpa using ha 0 n.succ_pos
    rw [h.kept a fun i hi ↦ ?_, memory_pass, Memory.read_set_of_ne hfirst.symm]
    rw [de_pass, add_one_add_ofNat]
    exact ha (i + 1) (Nat.succ_lt_succ hi)
  sum_eq hdigits := by
    obtain ⟨hx, hy⟩ : radix.IsDigit (machine.memory.read machine.cpu.de) ∧
        radix.IsDigit (machine.memory.read machine.cpu.hl) := by simpa using hdigits 0 n.succ_pos
    obtain ⟨hz, hfirst⟩ := Radix.digit_add hx hy (f := machine.cpu.flags)
    have habove := fun i hi ↦ read_pass_above (i := i) radix hn hi hapart
    have hlow : later.memory.read machine.cpu.de = (machine.sum radix).1 := by
      rw [h.kept machine.cpu.de fun i hi ↦ ?_, memory_pass, Memory.read_set_self]
      rw [de_pass, add_one_add_ofNat]
      exact ne_add_ofNat i.succ_pos (Nat.lt_of_le_of_lt hi hn)
    obtain ⟨hdigits', hsum⟩ := h.sum_eq fun i hi ↦ by
      rw [de_pass, hl_pass, (habove i hi).1, (habove i hi).2, add_one_add_ofNat, add_one_add_ofNat]
      exact hdigits (i + 1) (Nat.succ_lt_succ hi)
    rw [de_pass, hl_pass, Memory.number_congr fun i hi ↦ (habove i hi).1,
      Memory.number_congr fun i hi ↦ (habove i hi).2, carry_pass] at hsum
    refine ⟨fun i hi ↦ ?_, ?_⟩
    · cases i with
      | zero => simpa [hlow, sum] using hz
      | succ i =>
        rw [← add_one_add_ofNat, ← de_pass radix machine]
        exact hdigits' i (Nat.lt_of_succ_lt_succ hi)
    · rw [Memory.number_succ, Memory.number_succ, Memory.number_succ, hlow]
      calc _ = radix.digit (machine.sum radix).1 + radix.base *
            (later.memory.number radix (machine.cpu.de + 1) n +
              radix.base ^ n * later.cpu.flags.carry.toNat) := by ring
        _ = (radix.digit (machine.sum radix).1 +
              radix.base * (machine.sum radix).2.carry.toNat) +
            radix.base * (machine.memory.number radix (machine.cpu.de + 1) n +
              machine.memory.number radix (machine.cpu.hl + 1) n) := by
          rw [hsum]
          ring
        _ = _ := by
          rw [sum, hfirst]
          ring

/-- Any number of passes add as many digits. -/
theorem adds_passes (radix : Radix) {n : Nat} (hn : n ≤ Memory.size)
    (hapart : Apart n machine.cpu.de machine.cpu.hl) :
    Adds radix n machine ((pass radix)^[n] machine) := by
  induction n generalizing machine with
  | zero => constructor <;> simp
  | succ n ih =>
    refine .of_pass hn hapart (ih (Nat.le_of_succ_le hn) ?_)
    simpa using hapart.succ

/-! ## The loop -/

/-- C counts the passes down, and the last one leaves the loop. -/
theorem leads_passes {radix : Radix} {n : Nat} (hn : n < 256)
    (hcode : machine.memory.Stands machine.cpu.pc (addition radix machine.cpu.pc))
    (hc : machine.cpu.c = UInt8.ofNat (n + 1))
    (hram : ∀ i < n + 1, machine.memory.map.region (machine.cpu.de + UInt16.ofNat i) = .ram)
    (hapart : ∀ i < n + 1, ∀ j < 10,
      machine.cpu.de + UInt16.ofNat i ≠ machine.cpu.pc + UInt16.ofNat j) :
    machine.Leads (8 * (n + 1)) ((pass radix)^[n + 1] machine) (50 * (n + 1)) ∧
      ((pass radix)^[n + 1] machine).cpu.pc = machine.cpu.pc + 10 := by
  induction n generalizing machine with
  | zero =>
    have hfirst := leads_pass hcode (by simpa using hram 0) (by simpa using hapart 0)
    refine ⟨hfirst, ?_⟩
    rw [Function.iterate_one, pc_pass, hc]
    rfl
  | succ n ih =>
    have hfirst := leads_pass hcode (by simpa using hram 0) (by simpa using hapart 0)
    have hcount : machine.cpu.c - 1 = UInt8.ofNat (n + 1) := by
      rw [hc, UInt8.ofNat_add]
      exact UInt8.add_sub_cancel ..
    have hne : UInt8.ofNat (n + 1) ≠ 0 := by
      intro hzero
      have := congrArg UInt8.toNat hzero
      simp only [UInt8.toNat_ofNat', UInt8.toNat_zero] at this
      omega
    have hpc : (machine.pass radix).cpu.pc = machine.cpu.pc := by
      rw [pc_pass, hcount, beq_false_of_ne hne]
      rfl
    have hcode' : (machine.pass radix).memory.Stands (machine.pass radix).cpu.pc
        (addition radix (machine.pass radix).cpu.pc) := by
      rw [hpc]
      exact hcode.congr fun j hj ↦ Memory.read_set_of_ne (by simpa using hapart 0 (by simp) j hj)
    obtain ⟨hrest, hpast⟩ := ih (Nat.lt_of_succ_lt hn) hcode' hcount
      (fun i hi ↦ by
        rw [de_pass, add_one_add_ofNat]
        exact hram (i + 1) (Nat.succ_lt_succ hi))
      (fun i hi j hj ↦ by
        rw [de_pass, add_one_add_ofNat, hpc]
        exact hapart (i + 1) (Nat.succ_lt_succ hi) j hj)
    refine ⟨?_, hpast.trans (congrArg (· + 10) hpc)⟩
    rw [Nat.mul_succ 8, Nat.mul_succ 50, Nat.add_comm _ 8, Nat.add_comm _ 50]
    exact hfirst.trans hrest

/-- The program adds the number of `n` digits at HL to the one at DE: it takes `8 * n` steps and
`50 * n` cycles, leaves the loop with C counted down to zero, and refuses no write. -/
theorem adds_run {radix : Radix} {n : Nat} (verbosity : Verbosity) (hpos : 1 ≤ n) (hn : n ≤ 256)
    (hcode : machine.memory.Stands machine.cpu.pc (addition radix machine.cpu.pc))
    (hc : machine.cpu.c.toNat = n % 256)
    (hram : ∀ i < n, machine.memory.map.region (machine.cpu.de + UInt16.ofNat i) = .ram)
    (hapart : ∀ i < n, ∀ j < 10,
      machine.cpu.de + UInt16.ofNat i ≠ machine.cpu.pc + UInt16.ofNat j)
    (hdigits : Apart n machine.cpu.de machine.cpu.hl) :
    let done := machine.run verbosity (8 * n)
    done.answer = { steps := 8 * n, cycles := 50 * n, error := none } ∧
      done.state.cpu.pc = machine.cpu.pc + 10 ∧ done.state.cpu.c = 0 ∧
      Adds radix n machine done.state := by
  have hcn : machine.cpu.c = UInt8.ofNat n := UInt8.toNat_inj.1 (by simpa using hc)
  obtain ⟨n, rfl⟩ := Nat.exists_eq_add_of_le' hpos
  obtain ⟨hleads, hpc⟩ := leads_passes hn hcode hcn hram hapart
  have hadds := adds_passes radix (Nat.le_trans hn (by decide)) hdigits
  have hcycles : 50 * (n + 1) ≤ RunReport.maxCycles :=
    Nat.le_trans (Nat.mul_le_mul_left 50 hn) (by decide)
  intro done
  have hstate : done.state = (pass radix)^[n + 1] machine := hleads.state_run verbosity
  rw [hstate]
  refine ⟨hleads.answer_run hcycles verbosity, hpc, ?_, hadds⟩
  rw [hadds.c_eq, hcn, UInt8.sub_self]

/-- The decimal program at the bottom of memory, to add 4658 to 2867. -/
def decimalSum : Machine where
  cpu := { c := 2, e := 0x10, l := 0x20 }
  memory := ((addition .packed 0).zipIdx ++ [(0x67, 0x10), (0x28, 0x11), (0x58, 0x20),
    (0x46, 0x21)]).foldl (fun memory (v, i) ↦ memory.set (.ofNat i) v) (.zeroed .flat)
  config := {}

theorem adds_run_decimalSum :
    decimalSum.memory.Stands 0 (addition .packed 0) ∧ Apart 2 0x10 0x20 ∧
      let done := decimalSum.run none 16
      done.answer = { steps := 16, cycles := 100, error := none } ∧
        done.state.cpu.pc = 10 ∧ done.state.cpu.c = 0 ∧ Adds .packed 2 decimalSum done.state := by
  have hcode : decimalSum.memory.Stands 0 (addition .packed 0) := by decide +kernel
  have hapart : Apart 2 0x10 0x20 := .inr (by decide)
  refine ⟨hcode, hapart, ?_⟩
  exact adds_run (n := 2) none (by decide) (by decide) hcode rfl
    (by decide +kernel) (by decide +kernel) hapart

example : (decimalSum.run none 16).state.memory.number .packed 0x10 2 = 4658 + 2867 := by
  decide +kernel

end Machine

end Intel8080
