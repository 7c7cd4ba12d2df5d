import Intel8080.Proofs.Memory.Protection
import Intel8080.Proofs.Program.StraightLine
import Intel8080.Proofs.Reference.View

/-!
# Zero, sign and parity

Instructions set zero, sign and parity together and from one byte, so zero and sign are not both
set, and zero comes with parity. Only a pop of the status word can set them otherwise. Main
statements: `consistent_iff_exists_byte`, such flags are those of some byte; `consistent_execute`,
every instruction keeps them so unless it pops a status word that is not; and
`hasConsistentFlags_perform`, what this means for the history of a machine.
-/

namespace Intel8080

namespace Flags

/-- Zero and sign are not both set, and zero comes with parity. -/
structure Consistent (f : Flags) : Prop where
  not_zero_sign : ¬ (f.zero = true ∧ f.sign = true)
  parity_of_zero : f.zero = true → f.parity = true

/-- Zero, sign and parity are those of a byte. -/
structure Shows (f : Flags) (v : UInt8) : Prop where
  zero_eq : f.zero = (v == 0)
  sign_eq : f.sign = decide (0x80 ≤ v)
  parity_eq : f.parity = evenParity v

/-- The bits of a status word at which zero, sign and parity stand are consistent. -/
structure ConsistentStatus (w : UInt8) : Prop where
  not_zero_sign : ¬ (w.toNat.testBit 6 = true ∧ w.toNat.testBit 7 = true)
  parity_of_zero : w.toNat.testBit 6 = true → w.toNat.testBit 2 = true

instance decidableConsistentStatus (w : UInt8) : Decidable (ConsistentStatus w) :=
  decidable_of_iff (¬ (w.toNat.testBit 6 = true ∧ w.toNat.testBit 7 = true) ∧
    (w.toNat.testBit 6 = true → w.toNat.testBit 2 = true)) ⟨fun h ↦ ⟨h.1, h.2⟩, fun h ↦ ⟨h.1, h.2⟩⟩

variable {f : Flags}

theorem Shows.consistent {v : UInt8} (h : f.Shows v) : f.Consistent := by
  obtain ⟨hzero, hsign, hparity⟩ := h
  constructor
  · rw [hzero, hsign]
    rintro ⟨hv, hle⟩
    rw [beq_iff_eq.1 hv] at hle
    exact absurd hle (by decide)
  · rw [hzero, hparity]
    intro hv
    rw [beq_iff_eq.1 hv]
    rfl

/-- Consistent flags are those of some byte, and no others are. -/
theorem consistent_iff_exists_byte : f.Consistent ↔ ∃ v, f.Shows v := by
  refine ⟨fun h ↦ ?_, fun ⟨v, hv⟩ ↦ hv.consistent⟩
  obtain ⟨zero, sign, parity, carry, auxCarry⟩ := f
  obtain ⟨hexclusive, hparity⟩ := h
  cases zero with
  | true =>
    obtain rfl : parity = true := hparity rfl
    obtain rfl : sign = false := Bool.eq_false_iff.2 fun hsign ↦ hexclusive ⟨rfl, hsign⟩
    exact ⟨0, rfl, rfl, rfl⟩
  | false =>
    -- a byte that is not zero, with its topmost bit and its parity as they please
    cases sign with
    | false =>
      cases parity with
      | false => exact ⟨1, rfl, rfl, rfl⟩
      | true => exact ⟨3, rfl, rfl, rfl⟩
    | true =>
      cases parity with
      | false => exact ⟨0x80, rfl, rfl, rfl⟩
      | true => exact ⟨0x81, rfl, rfl, rfl⟩

/-- Flags that are all clear could be those of a result. -/
theorem consistent_default : ({} : Flags).Consistent :=
  ⟨fun h ↦ Bool.false_ne_true h.1, fun h ↦ absurd h Bool.false_ne_true⟩

/-- The carries do not matter. -/
theorem Consistent.congr {g : Flags} (h : f.Consistent) (hzero : g.zero = f.zero)
    (hsign : g.sign = f.sign) (hparity : g.parity = f.parity) : g.Consistent := by
  obtain ⟨hexclusive, himplied⟩ := h
  rw [← hzero, ← hsign] at hexclusive
  rw [← hzero, ← hparity] at himplied
  exact ⟨hexclusive, himplied⟩

theorem consistent_afterResult (f : Flags) (v : UInt8) : (f.afterResult v).Consistent :=
  Shows.consistent (v := v) ⟨rfl, rfl, rfl⟩

/-- A status word is unpacked to consistent flags exactly if its bits are consistent. -/
theorem consistent_ofStatus_iff {w : UInt8} : (ofStatus w).Consistent ↔ ConsistentStatus w := by
  have hbits : (ofStatus w).zero = w.toNat.testBit 6 ∧ (ofStatus w).sign = w.toNat.testBit 7 ∧
      (ofStatus w).parity = w.toNat.testBit 2 := by
    simp [Reference.State.ofStatus_eq, Nat.testBit_eq_decide_div_mod_eq]
  obtain ⟨hzero, hsign, hparity⟩ := hbits
  constructor
  · rintro ⟨hexclusive, himplied⟩
    rw [hzero, hsign] at hexclusive
    rw [hzero, hparity] at himplied
    exact ⟨hexclusive, himplied⟩
  · rintro ⟨hexclusive, himplied⟩
    rw [← hzero, ← hsign] at hexclusive
    rw [← hzero, ← hparity] at himplied
    exact ⟨hexclusive, himplied⟩

/-- The status word of consistent flags could be that of a result. -/
theorem Consistent.status (h : f.Consistent) : ConsistentStatus f.status := by
  rw [← consistent_ofStatus_iff, ofStatus_status]
  exact h

/-- Three bits of a status word are fixed, whatever the flags. -/
theorem testBit_status (f : Flags) : f.status.toNat.testBit 1 = true ∧
    f.status.toNat.testBit 3 = false ∧ f.status.toNat.testBit 5 = false := by
  obtain ⟨zero, sign, parity, carry, auxCarry⟩ := f
  cases zero <;> cases sign <;> cases parity <;> cases carry <;> cases auxCarry <;> decide

end Flags

/-! ## Instructions -/

open Flags

/-- Every operation leaves the flags of a result. -/
theorem Alu.consistent_apply (op : AluOp) (a v : UInt8) (f : Flags) :
    (apply op a v f).2.Consistent := by
  cases op <;> exact (f.consistent_afterResult _).congr rfl rfl rfl

namespace Registers

theorem flags_assign (r : Registers) (dst : Register) (v : UInt8) :
    (r.assign dst v).registers.flags = r.flags := by
  cases dst <;> rfl

theorem flags_setPair (r : Registers) (p : RegisterPair) (w : UInt16) :
    (r.setPair p w).flags = r.flags := by
  cases p <;> rfl

/-- A popped word sets the flags only if it goes to the accumulator and the status word. -/
theorem flags_setStackPair (r : Registers) (p : StackPair) (w : UInt16) :
    (r.setStackPair p w).flags = if p = .psw then .ofStatus (lowByte w) else r.flags := by
  cases p <;> rfl

end Registers

/-- Every instruction keeps the flags consistent, a pop of the status word if the word is. -/
theorem Instruction.consistent_execute {i : Instruction} {r : Registers} {operand data : UInt16}
    (h : r.flags.Consistent) (hpop : i = .pop .psw → ConsistentStatus (lowByte data)) :
    (i.execute r operand data).registers.flags.Consistent := by
  cases i with
  | mov dst src | mvi dst =>
    rw [execute, Registers.flags_assign]
    exact h
  | lxi p | inx p | dcx p =>
    simp only [execute, Registers.flags_setPair]
    exact h
  | alu op src | aluImmediate op => exact Alu.consistent_apply op _ _ _
  | inr x | dcr x =>
    simp only [execute, Registers.flags_assign]
    exact (r.flags.consistent_afterResult _).congr rfl rfl rfl
  | daa => exact (r.flags.consistent_afterResult _).congr rfl rfl rfl
  | dad p | rotate kind | stc | cmc => exact h.congr rfl rfl rfl
  | jump condition | call condition | ret condition =>
    simp only [execute]
    split <;> exact h
  | pop p =>
    simp only [execute, Registers.flags_setStackPair]
    split
    · next heq => exact consistent_ofStatus_iff.2 (hpop (heq ▸ rfl))
    · exact h
  | _ => exact h

namespace Machine

variable {machine : Machine}

/-! ## Steps -/

/-- If the next step pops the status word, the popped byte has consistent bits. -/
def PopsConsistent (machine : Machine) : Prop :=
  machine.instruction = .pop .psw → ConsistentStatus (machine.memory.read machine.cpu.sp)

instance decidablePopsConsistent (machine : Machine) : Decidable machine.PopsConsistent :=
  inferInstanceAs (Decidable (_ → _))

/-- A step keeps flags consistent unless it pops an inconsistent status word. -/
theorem consistent_next (hpops : machine.PopsConsistent) (h : machine.cpu.flags.Consistent) :
    machine.next.cpu.flags.Consistent := by
  cases hsteps : machine.steps with
  | false => rwa [next_of_not_steps hsteps]
  | true =>
    rw [toRegisters_next hsteps]
    refine Instruction.consistent_execute h fun hpop ↦ ?_
    rw [hpop]
    change ConsistentStatus (lowByte (wordOf _ (machine.memory.read machine.cpu.sp)))
    rw [lowByte_wordOf]
    exact hpops hpop

/-- A push of the status word stores the packed flags, and the accumulator above them. -/
theorem writes_of_push_psw (hsteps : machine.steps = true)
    (hpush : machine.instruction = .push .psw) :
    machine.writes.map (fun w ↦ (w.address, w.value)) =
      [(machine.cpu.sp - 2, machine.cpu.flags.status),
        (machine.cpu.sp - 2 + 1, machine.cpu.a)] := by
  rw [map_writes, stores_of_steps hsteps, hpush, Instruction.stores, past_eq hpush]
  change [(_, lowByte machine.cpu.psw), (_, highByte machine.cpu.psw)] = _
  rw [Registers.psw, lowByte_wordOf, highByte_wordOf]
  rfl

/-- What consistent flags mean for the state of a machine. -/
structure HasConsistentFlags (machine : Machine) : Prop where
  consistent : machine.cpu.flags.Consistent
  /-- Zero, sign and parity are those of some byte. -/
  exists_byte : ∃ v, machine.cpu.flags.Shows v
  /-- No jump, call or return is taken both on zero and on minus. -/
  not_transfers : ∀ transfer ∈ [Instruction.jump, .call, .ret],
    ¬ ((transfer (some .zero)).transfers machine.cpu.toRegisters = true ∧
      (transfer (some .minus)).transfers machine.cpu.toRegisters = true)
  /-- If the next step pushes the status word, the bits of the pushed byte are consistent, and its
  fixed bits are as they have to be. -/
  pushed : machine.steps = true → machine.instruction = .push .psw → ∃ status,
    machine.writes.map (fun w ↦ (w.address, w.value)) =
      [(machine.cpu.sp - 2, status), (machine.cpu.sp - 2 + 1, machine.cpu.a)] ∧
    ConsistentStatus status ∧ status.toNat.testBit 1 = true ∧ status.toNat.testBit 3 = false ∧
      status.toNat.testBit 5 = false

/-- Consistent flags have takeable conditions and push a consistent status word. -/
theorem hasConsistentFlags (h : machine.cpu.flags.Consistent) : machine.HasConsistentFlags where
  consistent := h
  exists_byte := consistent_iff_exists_byte.1 h
  not_transfers transfer htransfer := by
    simp only [List.mem_cons, List.not_mem_nil, or_false] at htransfer
    obtain rfl | rfl | rfl := htransfer <;> exact h.not_zero_sign
  pushed hsteps hpush :=
    ⟨_, writes_of_push_psw hsteps hpush, h.status, machine.cpu.flags.testBit_status⟩

end Machine

/-! ## Histories -/

/-- A change of registers by the owner keeps consistent flags consistent. -/
def Operation.RespectsFlags : Operation → Prop
  | edit change => ∀ r : Registers, r.flags.Consistent → (change r).flags.Consistent
  | _ => True

namespace Machine

variable {machine : Machine} {history : List Operation}

/-- An operation that makes no steps keeps the flags consistent: a reset clears them, and none but a
change of registers touches them otherwise. -/
theorem consistent_apply {operation : Operation} (hrespects : operation.RespectsFlags)
    (hother : operation.makesSteps = false) (h : machine.cpu.flags.Consistent) :
    (operation.apply machine).cpu.flags.Consistent := by
  cases operation with
  | step | run => cases hother
  | reset => exact Flags.consistent_default
  | edit change => exact hrespects _ h
  | place a image | load image => simpa using h
  | _ => exact h

/-- If a machine begins with consistent flags and all status words that are popped are consistent,
the flags are consistent throughout. -/
theorem hasConsistentFlags_perform (hflags : machine.cpu.flags.Consistent)
    (hrespects : ∀ operation ∈ history, operation.RespectsFlags)
    (hpops : ∀ m ∈ machine.stepped history, m.PopsConsistent) :
    (∀ m ∈ machine.stepped history, m.HasConsistentFlags ∧ m.next.HasConsistentFlags) ∧
      (machine.perform history).HasConsistentFlags := by
  obtain ⟨hstepped, hperform⟩ := perform_induction_stepped (P := fun m ↦ m.cpu.flags.Consistent)
    (fun _ ↦ consistent_next) (fun o ho hother _ ↦ consistent_apply (hrespects o ho) hother)
    hpops hflags
  refine ⟨fun m hm ↦ ?_, hasConsistentFlags hperform⟩
  have hm' := hstepped m hm
  exact ⟨hasConsistentFlags hm', hasConsistentFlags (consistent_next (hpops m hm) hm')⟩

/-- A program is run that clears the accumulator, pushes the status word and pops it again. -/
def savingFlags : List Operation :=
  [.write 0 0xaf, .write 1 0xf5, .write 2 0xf1, .run none 3, .takeFaults, .reset]

theorem hasConsistentFlags_savingFlags :
    let machine := ofConfig { romEnd := 0, ramEnd := Memory.size, stackTop := 0x10 }
    machine.cpu.flags.Consistent ∧ (∀ operation ∈ savingFlags, operation.RespectsFlags) ∧
    (∀ m ∈ machine.stepped savingFlags, m.PopsConsistent) ∧
    (machine.stepped savingFlags).map instruction = [.alu .xra .a, .push .psw, .pop .psw] ∧
    (∀ m ∈ machine.stepped savingFlags, m.HasConsistentFlags ∧ m.next.HasConsistentFlags) ∧
    (machine.perform savingFlags).HasConsistentFlags := by
  intro machine
  have hrespects : ∀ operation ∈ savingFlags, operation.RespectsFlags := by
    simp [savingFlags, Operation.RespectsFlags]
  have hpops : ∀ m ∈ machine.stepped savingFlags, m.PopsConsistent := by decide +kernel
  exact ⟨Flags.consistent_default, hrespects, hpops, by decide +kernel,
    hasConsistentFlags_perform Flags.consistent_default hrespects hpops⟩

end Machine

end Intel8080
