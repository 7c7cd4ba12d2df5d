import Intel8080.Proofs.Machine.Policy
import Intel8080.Proofs.Machine.Unnoticed

/-!
# Programs in documented bytes

A program that is run with its undocumented bytes may have them replaced by the documented ones that
run the same instructions, as long as it looks at none of them but to run it. Main statements:
`overlooks_documentedOn`, a step does not notice the replacement, and `mirroredBy_documentedOn`, the
replaced program goes through the same steps, and also where undocumented bytes are rejected if it
runs none that is left.
-/

namespace Intel8080.Machine

variable (machine : Machine) (S : Finset UInt16) (n : Nat)

/-- The machine with the documented bytes in place of those at some addresses. -/
def documentedOn : Machine :=
  machine.mapBytes fun a v ↦ if a ∈ S then Instruction.documented v else v

/-- For a number of steps another machine does as a machine does, with the documented bytes in place
of those at some addresses. -/
structure MirroredBy (other : Machine) : Prop where
  /-- The machines stay the same but for the bytes and the policy. -/
  alike : ∀ k ≤ n, ((machine.after k).documentedOn S).AlikeButPolicy (other.after k)
  /-- The memories differ exactly at these addresses. -/
  read_ne_iff : ∀ k ≤ n, ∀ a,
    (other.after k).memory.read a ≠ (machine.after k).memory.read a ↔ a ∈ S
  /-- All steps are made, at the same cost. -/
  answer_step : ∀ k < n, ∃ cycles, (machine.after k).step.answer = .ok cycles ∧
    (other.after k).step.answer = .ok cycles
  /-- The runs report the same. -/
  answer_run : ∀ verbosity, (other.run verbosity n).answer.error = none ∧
    (other.run verbosity n).answer = (machine.run verbosity n).answer

variable {machine S n} {k : Nat}

/-- No step notices the replacement of bytes that it looks at to run them only. -/
theorem overlooks_documentedOn (hpolicy : machine.cpu.policy = .runAlias)
    (hfetched : ∀ access ∈ machine.accesses.tail, access.address ∉ S) :
    machine.Overlooks fun a v ↦ if a ∈ S then Instruction.documented v else v where
  steps := Cpu.accepts_of_runAlias hpolicy _
  steps_mapBytes := Cpu.accepts_of_runAlias hpolicy _
  instruction_mapBytes := by
    simp only [instruction, Cpu.fetched, cpu_mapBytes, memory_mapBytes, Memory.read_mapBytes]
    split
    -- what is run is documented already, so to replace its byte and run that runs the same
    · rw [Instruction.decode_documented,
        Instruction.executed_of_not_isUndocumented (Instruction.isUndocumented_executed _)]
    · rfl
  fixed access hmem v := if_neg (hfetched access hmem)

section Mirrored

variable (hpolicy : machine.cpu.policy = .runAlias)
  (hfetched : ∀ k < n, ∀ access ∈ (machine.after k).accesses.tail, access.address ∉ S)

include hpolicy hfetched

/-- A step that only fetches from the exchanged bytes does not notice the exchange. -/
theorem overlooks_after (hk : k < n) :
    (machine.after k).Overlooks fun a v ↦ if a ∈ S then Instruction.documented v else v :=
  overlooks_documentedOn ((policy_after machine k).trans hpolicy) (hfetched k hk)

/-- The replacement stays in the memory, and changes nothing else. -/
theorem after_documentedOn (hk : k ≤ n) :
    (machine.documentedOn S).after k = (machine.after k).documentedOn S :=
  after_mapBytes fun _ hj ↦ overlooks_after hpolicy hfetched (Nat.lt_of_lt_of_le hj hk)

/-- The replaced bytes are kept by all steps. -/
theorem read_after_of_mem {a : UInt16} (ha : a ∈ S) (hk : k ≤ n) :
    (machine.after k).memory.read a = machine.memory.read a := by
  induction k with
  | zero => rfl
  | succ k ih =>
    rw [← ih (Nat.le_of_succ_le hk), after_succ]
    refine read_next_of_forall_address_ne (goes_of_runAlias hpolicy n k hk) ?_
    rintro access hmem rfl
    exact hfetched k hk access hmem ha

/-- A machine that makes the steps mirrors them. -/
theorem mirroredBy_of_goes (hbytes : ∀ a ∈ S, machine.memory.read a ∈ Instruction.undocumentedBytes)
    {other : Machine} (halike : (machine.documentedOn S).AlikeButPolicy other)
    (hgoes : other.Goes n) : machine.MirroredBy S n other := by
  have hover (k : Nat) (hk : k < n) := overlooks_after hpolicy hfetched hk
  have hgoes₁ : machine.Goes n := goes_of_runAlias hpolicy n
  have hgoes₂ : (machine.documentedOn S).Goes n := goes_mapBytes hover
  have hafter (k : Nat) (hk : k ≤ n) :
      ((machine.after k).documentedOn S).AlikeButPolicy (other.after k) := by
    rw [← after_documentedOn hpolicy hfetched hk]
    exact halike.after (hgoes₂.mono hk) (hgoes.mono hk)
  refine ⟨hafter, fun k hk a ↦ ?_, fun k hk ↦ ?_, fun verbosity ↦ ?_⟩
  -- on the addresses the bytes are still those of the start, and so still undocumented
  · rw [(hafter k hk).memory_eq, documentedOn, memory_mapBytes, Memory.read_mapBytes]
    split
    · next ha =>
      rw [Instruction.documented_ne_iff, read_after_of_mem hpolicy hfetched ha hk]
      exact iff_of_true (hbytes a ha) ha
    · next ha => exact iff_of_false (fun hne ↦ hne rfl) ha
  · have hcost : (other.after k).cost = (machine.after k).cost :=
      ((hafter k (Nat.le_of_lt hk)).cost_eq (hover k hk).steps_mapBytes (hgoes k hk)).trans
        (hover k hk).cost_mapBytes
    refine ⟨(machine.after k).cost, (step_of_steps (hgoes₁ k hk)).1, ?_⟩
    rw [(step_of_steps (hgoes k hk)).1, hcost]
  · have hcosts : other.costs n = machine.costs n :=
      (halike.costs_eq hgoes₂ hgoes).trans (costs_mapBytes hover)
    refine ⟨(error_run_eq_none_iff verbosity).2 hgoes, ?_⟩
    rw [answer_run verbosity hgoes, answer_run verbosity hgoes₁, hcosts]

/-- With documented bytes in place of undocumented ones that are looked at to be run only, the steps
are the same; and if no undocumented byte is run but those, they can be made where such bytes are
rejected. -/
theorem mirroredBy_documentedOn
    (hbytes : ∀ a ∈ S, machine.memory.read a ∈ Instruction.undocumentedBytes) :
    machine.MirroredBy S n (machine.documentedOn S) ∧
    (∀ k ≤ n, (machine.documentedOn S).after k = (machine.after k).documentedOn S) ∧
    ((∀ k < n, (machine.after k).memory.read (machine.after k).cpu.pc ∈
        Instruction.undocumentedBytes → (machine.after k).cpu.pc ∈ S) →
      ∀ strict : Machine, (machine.documentedOn S).AlikeButPolicy strict →
        strict.cpu.policy = .reject → machine.MirroredBy S n strict) := by
  have hgoes : (machine.documentedOn S).Goes n :=
    goes_mapBytes fun k hk ↦ overlooks_after hpolicy hfetched hk
  refine ⟨mirroredBy_of_goes hpolicy hfetched hbytes (.refl _) hgoes,
    fun k hk ↦ after_documentedOn hpolicy hfetched hk, fun hrun strict halike _ ↦ ?_⟩
  refine mirroredBy_of_goes hpolicy hfetched hbytes halike
    (halike.goes_of_documented hgoes fun k hk ↦ ?_)
  rw [after_documentedOn hpolicy hfetched (Nat.le_of_lt hk), documentedOn, memory_mapBytes,
    cpu_mapBytes, Memory.read_mapBytes]
  split
  · exact Instruction.documented_notMem _
  · next hpc => exact fun hbyte ↦ hpc (hrun k hk hbyte)

end Mirrored

/-- A program of undocumented bytes: past one that does nothing it calls a routine that returns at
once, and then jumps to another one that does nothing. -/
def undocumentedProgram : Machine where
  cpu := { sp := 0x40, policy := .runAlias }
  memory := ((((((Memory.zeroed .flat).set 0 0x08).set 1 0xdd).set 2 0x10).set 0x10 0xd9).set 4
    0xcb).set 5 0x20 |>.set 0x20 0x38
  config := {}

/-- Where the undocumented bytes of that program stand. -/
def undocumentedAddresses : Finset UInt16 := {0, 1, 4, 0x10, 0x20}

theorem mirroredBy_documentedOn_undocumentedProgram :
    undocumentedProgram.cpu.policy = .runAlias ∧
    (∀ k < 5, ∀ access ∈ (undocumentedProgram.after k).accesses.tail,
      access.address ∉ undocumentedAddresses) ∧
    (∀ a ∈ undocumentedAddresses,
      undocumentedProgram.memory.read a ∈ Instruction.undocumentedBytes) ∧
    undocumentedProgram.MirroredBy undocumentedAddresses 5
      { undocumentedProgram.documentedOn undocumentedAddresses with
        cpu := { undocumentedProgram.cpu with policy := .reject } } := by
  have hfetched : ∀ k < 5, ∀ access ∈ (undocumentedProgram.after k).accesses.tail,
      access.address ∉ undocumentedAddresses := by decide +kernel
  have hbytes : ∀ a ∈ undocumentedAddresses,
      undocumentedProgram.memory.read a ∈ Instruction.undocumentedBytes := by
    simp [undocumentedAddresses, undocumentedProgram, Memory.read_set,
      Instruction.undocumentedBytes]
  have hrun : ∀ k < 5, (undocumentedProgram.after k).memory.read
      (undocumentedProgram.after k).cpu.pc ∈ Instruction.undocumentedBytes →
        (undocumentedProgram.after k).cpu.pc ∈ undocumentedAddresses := by decide +kernel
  refine ⟨rfl, hfetched, hbytes, ?_⟩
  exact (mirroredBy_documentedOn rfl hfetched hbytes).2.2 hrun _ ⟨rfl, rfl, rfl⟩ rfl

end Intel8080.Machine
