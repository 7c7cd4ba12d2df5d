import Intel8080.Proofs.Machine.Footprint
import Intel8080.Proofs.Memory.Protection

/-!
# The accesses of a run

The accesses that a run makes to the bus tell what it leaves in memory and in the log of refused
writes, and what is answered to them settles everything else that the run does. Main statements:
`read_after` and `faults_after`, what a run leaves, and `runsAlike_of_answeredAlike`, a run whose
accesses are answered like those of another one goes through the same states.
-/

namespace Intel8080

def Access.fault? (access : Access) : Option WriteFault := access.write?.bind ByteWrite.fault

namespace Machine

/-- The accesses of a run of at most `n` steps, in their order. A step that is refused is the
last. -/
def traffic (machine : Machine) : Nat → List Access
  | 0 => []
  | n + 1 => machine.accesses ++ if machine.steps then machine.next.traffic n else []

variable {machine other : Machine} {n : Nat} {a : UInt16}

/-- The accesses of the first step come before those of the others. -/
theorem traffic_succ_of_steps (h : machine.steps = true) :
    machine.traffic (n + 1) = machine.accesses ++ machine.next.traffic n := by
  rw [traffic, if_pos h]

theorem traffic_succ_of_not_steps (h : machine.steps = false) :
    machine.traffic (n + 1) = machine.accesses := by
  simp [traffic, h]

/-- The accesses of the last step come after those of the others. -/
theorem traffic_succ_of_goes (h : machine.Goes n) :
    machine.traffic (n + 1) = machine.traffic n ++ (machine.after n).accesses := by
  induction n generalizing machine with
  | zero => simp [traffic]
  | succ n ih =>
    obtain ⟨hsteps, hrest⟩ := goes_succ_iff.1 h
    rw [traffic_succ_of_steps hsteps, traffic_succ_of_steps hsteps, ih hrest, List.append_assoc,
      after_succ']

/-- After a refused step nothing is accessed any more. -/
theorem traffic_succ_of_not_goes (h : ¬ machine.Goes n) :
    machine.traffic (n + 1) = machine.traffic n := by
  induction n generalizing machine with
  | zero => exact absurd goes_zero h
  | succ n ih =>
    cases hsteps : machine.steps with
    | true =>
      have hrest : ¬ machine.next.Goes n := fun hrest ↦ h (goes_succ_iff.2 ⟨hsteps, hrest⟩)
      rw [traffic_succ_of_steps hsteps, traffic_succ_of_steps hsteps, ih hrest]
    | false => rw [traffic_succ_of_not_steps hsteps, traffic_succ_of_not_steps hsteps]

theorem after_succ_of_not_goes (h : ¬ machine.Goes n) :
    machine.after (n + 1) = machine.after n := by
  obtain ⟨k, hk, -, hrefused⟩ := (machine.goes_or_refused n).resolve_left h
  rw [after_of_refused hrefused (Nat.le_of_lt (Nat.lt_succ_of_lt hk)),
    after_of_refused hrefused (Nat.le_of_lt hk)]

/-- What a run leaves in memory is told by its accesses. -/
theorem read_after (machine : Machine) (n : Nat) (a : UInt16) : (machine.after n).memory.read a =
    (Access.left (machine.traffic n) a).getD (machine.memory.read a) := by
  induction n with
  | zero => rfl
  | succ n ih =>
    by_cases h : machine.Goes n
    · rw [after_succ, read_next, ih, traffic_succ_of_goes h, Access.left_append, Option.getD_or]
    · rw [after_succ_of_not_goes h, ih, traffic_succ_of_not_goes h]

/-- A run begins with the accesses of a shorter one. -/
theorem exists_traffic_eq_append (machine : Machine) {k : Nat} (hk : k ≤ n) :
    ∃ later, machine.traffic n = machine.traffic k ++ later := by
  induction n, hk using Nat.le_induction with
  | base => exact ⟨[], (List.append_nil _).symm⟩
  | succ n _ ih =>
    obtain ⟨later, heq⟩ := ih
    by_cases h : machine.Goes n
    · exact ⟨later ++ (machine.after n).accesses, by
        rw [traffic_succ_of_goes h, heq, List.append_assoc]⟩
    · exact ⟨later, by rw [traffic_succ_of_not_goes h, heq]⟩

/-- The accesses of a step come after those of the steps before it, and others may follow them. -/
theorem exists_traffic_eq_append_accesses {k : Nat} (hk : k < n) (h : machine.Goes k) :
    ∃ later, machine.traffic n = machine.traffic k ++ ((machine.after k).accesses ++ later) := by
  obtain ⟨later, heq⟩ := exists_traffic_eq_append machine (Nat.succ_le_of_lt hk)
  exact ⟨later, by rw [heq, traffic_succ_of_goes h, List.append_assoc]⟩

/-! ## Refused writes -/

/-- The faults of the writes that a run of at most `n` steps sees refused, in their order. -/
def refusals (machine : Machine) (n : Nat) : List WriteFault :=
  (machine.traffic n).filterMap Access.fault?

theorem filterMap_fault?_accesses (machine : Machine) :
    machine.accesses.filterMap Access.fault? = machine.writes.filterMap ByteWrite.fault := by
  rw [writes, Recorder.writes, List.filterMap_filterMap]
  rfl

/-- A run records the faults that it sees. -/
theorem faults_after (machine : Machine) (n : Nat) :
    (machine.after n).cpu.faults = machine.cpu.faults.recordAll (machine.refusals n) := by
  induction n with
  | zero => rfl
  | succ n ih =>
    by_cases h : machine.Goes n
    · rw [after_succ, faults_next, ih, refusals, refusals, traffic_succ_of_goes h,
        List.filterMap_append, FaultLog.recordAll_append, filterMap_fault?_accesses]
    · rw [after_succ_of_not_goes h, ih, refusals, refusals, traffic_succ_of_not_goes h]

/-- As long as the counter has room, it tells whether a run sees a write refused. -/
theorem refusals_eq_nil_iff (h : machine.cpu.faults.count < FaultLog.maxCount) :
    machine.refusals n = [] ↔ (machine.after n).cpu.faults.count = machine.cpu.faults.count := by
  rw [faults_after, FaultLog.count_recordAll _ _ (Nat.le_of_lt h), ← List.length_eq_zero_iff]
  omega

/-! ## Runs whose accesses are answered alike -/

/-- For a number of steps another machine does what a machine does, as far as its processor and its
bus are concerned. -/
structure RunsAlike (machine other : Machine) (n : Nat) : Prop where
  /-- The steps answer the same, as far as the run gets. -/
  answer_step : ∀ k < n, machine.Goes k →
    (other.after k).step.answer = (machine.after k).step.answer
  /-- The runs report the same. -/
  answer_run : ∀ verbosity, (other.run verbosity n).answer = (machine.run verbosity n).answer
  /-- They go through the same states of the processor, its log of faults among them. -/
  cpu_eq : ∀ k ≤ n, (other.after k).cpu = (machine.after k).cpu
  /-- They make the same accesses, with the same bytes and the same writes refused. -/
  traffic_eq : ∀ k ≤ n, other.traffic k = machine.traffic k

section Answered

variable (hcpu : other.cpu = machine.cpu)
  (halike : ∀ k < n, machine.Goes k → (other.after k).cpu = (machine.after k).cpu →
    other.traffic k = machine.traffic k → (machine.after k).AnsweredAlike (other.after k))

include hcpu halike

/-- Machines whose accesses are answered alike stay the same but for their memory. -/
theorem same_after {k : Nat} (hk : k ≤ n) :
    (other.after k).cpu = (machine.after k).cpu ∧ other.traffic k = machine.traffic k ∧
      (other.Goes k ↔ machine.Goes k) := by
  induction k with
  | zero => exact ⟨hcpu, rfl, iff_of_true goes_zero goes_zero⟩
  | succ k ih =>
    obtain ⟨hcpu', htraffic, hiff⟩ := ih (Nat.le_of_succ_le hk)
    by_cases hgoes : machine.Goes k
    · have hanswered := halike k hk hgoes hcpu' htraffic
      refine ⟨?_, ?_, ?_⟩
      · rw [after_succ, after_succ, hanswered.cpu_next_eq]
      · rw [traffic_succ_of_goes hgoes, traffic_succ_of_goes (hiff.2 hgoes), htraffic,
          hanswered.actsAlike.accesses_eq]
      · rw [goes_succ_iff_after, goes_succ_iff_after, hiff, hanswered.fetchesAlike.steps_eq]
    · have hgoes' : ¬ other.Goes k := mt hiff.1 hgoes
      rw [after_succ_of_not_goes hgoes, after_succ_of_not_goes hgoes',
        traffic_succ_of_not_goes hgoes, traffic_succ_of_not_goes hgoes', goes_succ_iff_after,
        goes_succ_iff_after]
      exact ⟨hcpu', htraffic, iff_of_false (hgoes' ·.1) (hgoes ·.1)⟩

/-- A run does the same as another one if at each of its steps, with the same behind it, the
accesses are answered alike. -/
theorem runsAlike_of_answeredAlike : machine.RunsAlike other n := by
  have hsame (k : Nat) (hk : k ≤ n) := same_after hcpu halike hk
  have hanswer (k : Nat) (hk : k < n) (hgoes : machine.Goes k) :
      (other.after k).step.answer = (machine.after k).step.answer := by
    obtain ⟨hcpu', htraffic, -⟩ := hsame k (Nat.le_of_lt hk)
    exact (halike k hk hgoes hcpu' htraffic).actsAlike.answer_step_eq
  exact ⟨hanswer, fun verbosity ↦ answer_run_congr verbosity hanswer,
    fun k hk ↦ (hsame k hk).1, fun k hk ↦ (hsame k hk).2.1⟩

end Answered

end Machine

end Intel8080
