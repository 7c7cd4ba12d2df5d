import Intel8080.Proofs.Machine.Footprint
import Intel8080.Proofs.Program.Execution

/-!
# Straight lines

An instruction that does not transfer control leaves the program counter past the bytes that the
table of the opcodes gives it, whatever else it does, and those are the bytes that it has fetched.
Main statements: `pc_execute`, only a transfer sets the program counter; `pc_next`, the step from
one instruction to the one after it; and `accesses_of_stands`, what such a step fetches.
-/

namespace Intel8080

namespace Instruction

/-- Whether an instruction takes control elsewhere. A jump, call or return under a condition does so
if the condition holds. -/
def transfers (i : Instruction) (r : Registers) : Bool :=
  match i with
  | jump condition | call condition | ret condition => r.taken condition
  | rst _ | pchl => true
  | _ => false

variable {i : Instruction} {r : Registers}

theorem pc_assign (r : Registers) (dst : Register) (v : UInt8) :
    (r.assign dst v).registers.pc = r.pc := by
  cases dst <;> rfl

theorem pc_setPair (r : Registers) (p : RegisterPair) (w : UInt16) : (r.setPair p w).pc = r.pc := by
  cases p <;> rfl

theorem pc_setStackPair (r : Registers) (p : StackPair) (w : UInt16) :
    (r.setStackPair p w).pc = r.pc := by
  cases p <;> rfl

/-- Only a transfer sets the program counter. -/
theorem pc_execute (h : i.transfers r = false) (operand data : UInt16) :
    (i.execute r operand data).registers.pc = r.pc := by
  cases i with
  | mov dst src => exact pc_assign ..
  | mvi dst => exact pc_assign ..
  | inr x => exact pc_assign ..
  | dcr x => exact pc_assign ..
  | lxi p | inx p | dcx p => exact pc_setPair ..
  | pop p => exact pc_setStackPair ..
  | jump condition | call condition | ret condition =>
    have htaken : r.taken condition = false := h
    simp [execute, htaken]
  | rst vector | pchl => cases h
  | _ => rfl

/-- An undocumented byte that does not transfer control has no operand, as it is listed. -/
theorem operandBytes_executed (h : i.executed.transfers r = false) :
    i.executed.operandBytes = i.operandBytes := by
  cases i with
  | undocumented like =>
    cases like with
    | nop => rfl
    | jmp | ret | call => cases h
  | _ => rfl

end Instruction

/-- The accesses by which bytes are fetched from an address on. -/
def fetches : UInt16 → List UInt8 → List Access
  | _, [] => []
  | a, v :: bytes => .read a v :: fetches (a + 1) bytes

/-- To read the place of an operand is to fetch the bytes that stand there. -/
theorem readings_ofLength {memory : Memory} {a : UInt16} {bytes : List UInt8}
    (h : memory.Stands a bytes) (hlength : bytes.length ≤ 2) :
    (Location.ofLength bytes.length a).readings memory = fetches a bytes := by
  match bytes, hlength with
  | [], _ => rfl
  | [v], _ =>
    obtain ⟨rfl, -⟩ := h
    rfl
  | [v, w], _ =>
    obtain ⟨rfl, rfl, -⟩ := h
    rfl

namespace Machine

variable (machine : Machine)

def transfers : Bool := machine.instruction.transfers machine.past

/-- A number of steps can be made one after the other, and none of them takes control elsewhere. -/
def GoesStraight (n : Nat) : Prop :=
  ∀ k < n, (machine.after k).steps = true ∧ (machine.after k).transfers = false

/-- The accesses of the next step after the fetches: those to the data of its instruction. -/
def dataAccesses : List Access :=
  (machine.cpu.dataPlace machine.memory machine.instruction).readings machine.memory ++
    machine.effect.target.writings machine.effect.value machine.memory.map

variable {machine}

theorem GoesStraight.goes {n : Nat} (h : machine.GoesStraight n) : machine.Goes n :=
  fun k hk ↦ (h k hk).1

@[simp] theorem goesStraight_zero : machine.GoesStraight 0 :=
  fun _ hk ↦ absurd hk (Nat.not_lt_zero _)

/-- Code stays straight as long as the next step is made and goes on behind its instruction. -/
theorem goesStraight_succ_iff {n : Nat} : machine.GoesStraight (n + 1) ↔
    machine.GoesStraight n ∧ (machine.after n).steps = true ∧ (machine.after n).transfers = false :=
  Nat.forall_lt_succ_right

variable (hsteps : machine.steps = true) (htransfers : machine.transfers = false)

include htransfers in
theorem operandBytes_instruction : machine.instruction.operandBytes =
    (Instruction.decode (machine.memory.read machine.cpu.pc)).operandBytes :=
  Instruction.operandBytes_executed htransfers

include hsteps htransfers

/-- The step from one instruction to the one after it. -/
theorem pc_next : machine.next.cpu.pc = machine.cpu.pc +
    UInt16.ofNat (Instruction.decode (machine.memory.read machine.cpu.pc)).length := by
  have hpc : machine.next.cpu.pc = machine.past.pc := by
    rw [toRegisters_next hsteps]
    exact Instruction.pc_execute htransfers _ _
  rw [hpc, Instruction.length, Nat.add_comm, ← add_one_add_ofNat,
    ← operandBytes_instruction htransfers]
  rfl

/-- A step that does not take control elsewhere fetches the bytes of its instruction, and no
others. -/
theorem accesses_of_stands {bytes : List UInt8}
    (hstands : machine.memory.Stands machine.cpu.pc bytes)
    (hlength : bytes.length =
      (Instruction.decode (machine.memory.read machine.cpu.pc)).length) :
    machine.accesses = fetches machine.cpu.pc bytes ++ machine.dataAccesses := by
  rw [Instruction.length, ← operandBytes_instruction htransfers] at hlength
  cases bytes with
  | nil =>
    rw [List.length_nil] at hlength
    omega
  | cons opcode operand =>
    obtain ⟨rfl, hrest⟩ := hstands
    have hoperand : machine.instruction.operandBytes = operand.length := by
      rw [List.length_cons] at hlength
      omega
    have hreadings := readings_ofLength hrest
      (hoperand ▸ Instruction.operandBytes_le_two machine.instruction)
    rw [accesses_of_steps hsteps, Cpu.operandPlace, hoperand, hreadings, fetches, dataAccesses,
      List.append_assoc, List.cons_append]

end Machine

end Intel8080
