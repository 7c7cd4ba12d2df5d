import Intel8080.Proofs.Machine.FaultHistory

/-!
# Which refused writes are retained

From the moment its log is emptied a machine retains refused writes until the log is full. What a
drain then hands out are the first of them, not the last. Main statements: `retainsFirst`; and
`takeFaults_ne_rtake`, of a machine that pushes into read-only memory the last ones are not handed
out.
-/

namespace Intel8080

def Operation.emptiesLog : Operation → Bool
  | reset | takeFaults => true
  | _ => false

namespace Machine

variable {machine : Machine} {n : Nat}

/-! ## From the last time the log was emptied -/

/-- Short of emptying the log, an operation records the writes that it sees refused. -/
theorem faults_apply {operation : Operation} (h : operation.emptiesLog = false)
    (machine : Machine) : (operation.apply machine).cpu.faults =
      machine.cpu.faults.recordAll (Mark.faults (operation.marks machine)) := by
  have hmarks (n : Nat) : Mark.faults ((machine.refusals n).map .refused) = machine.refusals n := by
    rw [Mark.faults, List.filterMap_map]
    exact List.filterMap_some
  cases operation with
  | step =>
    rw [Operation.marks, hmarks]
    exact faults_after machine 1
  | run verbosity budget =>
    rw [Operation.marks, hmarks, Operation.apply, state_run]
    exact faults_after machine budget
  | place a image => rw [Operation.cpu_apply_place]; rfl
  | load image => rw [Operation.cpu_apply_load]; rfl
  | reset | takeFaults => cases h
  | edit | choosePolicy | write => rfl

/-- Without a drain or a reset, the log is as if all faults had been recorded in one go. -/
theorem faults_perform {history : List Operation}
    (h : ∀ operation ∈ history, operation.emptiesLog = false) (machine : Machine) :
    (machine.perform history).cpu.faults =
      machine.cpu.faults.recordAll (Mark.faults (machine.marks history)) := by
  induction history generalizing machine with
  | nil => rfl
  | cons operation history ih =>
    have hfirst := faults_apply (h operation List.mem_cons_self) machine
    have hrest := fun later hlater ↦ h later (List.mem_cons_of_mem operation hlater)
    rw [perform_cons, ih hrest, hfirst, ← FaultLog.recordAll_append, marks, Mark.faults,
      Mark.faults, Mark.faults, List.filterMap_append]

/-- Of the writes refused from now on a drain hands out the first, as many as find room in the log,
in their order. -/
structure RetainsFirst (machine : Machine) : Prop where
  /-- After any number of steps. -/
  takeFaults_after : ∀ n, (machine.after n).takeFaults.1 =
    (machine.refusals n).take (min (machine.refusals n).length 256)
  /-- And whatever else the owner does between the steps, short of emptying the log. -/
  takeFaults_perform : ∀ history : List Operation,
    (∀ operation ∈ history, operation.emptiesLog = false) →
      (machine.perform history).takeFaults.1 = (Mark.faults (machine.marks history)).take 256

/-- From an empty log on the first faults are retained. -/
theorem retainsFirst_of_retained_eq_nil (h : machine.cpu.faults.retained = []) :
    machine.RetainsFirst := by
  have htake (faults : List WriteFault) :
      (machine.cpu.faults.recordAll faults).retained = faults.take FaultLog.capacity := by
    rw [FaultLog.retained_recordAll _ _ (by rw [h]; exact Nat.zero_le _), h, List.nil_append]
  constructor
  case takeFaults_after =>
    intro n
    rw [takeFaults, faults_after, htake, List.take_eq_take_min, Nat.min_comm]
    rfl
  case takeFaults_perform =>
    intro history hhistory
    rw [takeFaults, faults_perform hhistory, htake]
    rfl

/-- Whatever the log held before, after a drain or a reset the first refused writes are retained. -/
theorem retainsFirst (machine : Machine) :
    machine.takeFaults.2.RetainsFirst ∧ machine.reset.state.RetainsFirst :=
  ⟨retainsFirst_of_retained_eq_nil rfl, retainsFirst_of_retained_eq_nil rfl⟩

/-! ## A machine whose writes are all refused -/

/-- All memory can be read only and holds pushes. -/
structure Pushes (machine : Machine) : Prop where
  read_eq : ∀ a, machine.memory.read a = 0xc5
  refusal?_eq : ∀ a v, machine.memory.map.refusal? a v = some ⟨.readOnly, a, v⟩

namespace Pushes

variable (h : machine.Pushes)

include h

theorem fetched_eq : machine.cpu.fetched machine.memory = .push .bc := by
  rw [Cpu.fetched, h.read_eq]
  rfl

theorem steps_eq : machine.steps = true := steps_of_fetched h.fetched_eq rfl

theorem instruction_eq : machine.instruction = .push .bc :=
  instruction_of_fetched h.fetched_eq rfl

theorem sp_next : machine.next.cpu.sp = machine.cpu.sp - 2 := by
  have hnext := toRegisters_next h.steps_eq
  rw [effect_eq h.instruction_eq] at hnext
  exact congrArg Registers.sp hnext

/-- Nothing is stored. -/
theorem next : machine.next.Pushes where
  read_eq a := by
    have hregion : machine.memory.map.region a ≠ .ram := by
      intro hram
      have haccepted : machine.memory.map.refusal? a 0 = none :=
        MemoryMap.refusal?_eq_none_iff_region.2 hram
      rw [h.refusal?_eq] at haccepted
      cases haccepted
    rw [← h.read_eq a]
    exact Cpu.read_step_of_forall_ne fun hram ↦ absurd hram hregion
  refusal?_eq := by
    rw [map_next]
    exact h.refusal?_eq

/-- Both bytes of the word that is pushed are refused. -/
theorem refusals_succ (n : Nat) : ∃ low high,
    machine.refusals (n + 1) = ⟨.readOnly, machine.cpu.sp - 2, low⟩ ::
      ⟨.readOnly, machine.cpu.sp - 2 + 1, high⟩ :: machine.next.refusals n := by
  have hstores : machine.cpu.stores machine.memory =
      (Location.word (machine.cpu.sp - 2)).bytes machine.cpu.bc := by
    rw [stores_of_steps h.steps_eq, h.instruction_eq, past_eq h.instruction_eq]
    rfl
  refine ⟨lowByte machine.cpu.bc, highByte machine.cpu.bc, ?_⟩
  rw [refusals, traffic_succ_of_steps h.steps_eq, List.filterMap_append,
    filterMap_fault?_accesses, writes_eq, hstores]
  simp [MemoryMap.judge, h.refusal?_eq, refusals]

/-- Each push is refused twice. -/
theorem length_refusals (n : Nat) : (machine.refusals n).length = 2 * n := by
  induction n generalizing machine with
  | zero => rfl
  | succ n ih =>
    obtain ⟨low, high, hrefusals⟩ := h.refusals_succ n
    rw [hrefusals, List.length_cons, List.length_cons, ih h.next, Nat.mul_succ]

/-- The first and the third of the refused writes are to different addresses. -/
theorem take_ne_rtake : (machine.refusals 129).take 256 ≠ (machine.refusals 129).rtake 256 := by
  obtain ⟨low, high, hfirst⟩ := h.refusals_succ 128
  obtain ⟨low', high', hsecond⟩ := h.next.refusals_succ 127
  have hrtake : (machine.refusals 129).rtake 256 = machine.next.refusals 128 := by
    rw [List.rtake, h.length_refusals, hfirst]
    rfl
  intro heq
  have hhead := congrArg List.head? heq
  rw [hrtake, hfirst, hsecond, h.sp_next] at hhead
  have haddress : machine.cpu.sp - 2 = machine.cpu.sp - 2 - 2 :=
    congrArg WriteFault.address (Option.some.inj hhead)
  have hzero : (2 : UInt16) = 0 := by grind
  cases hzero

end Pushes

/-- A machine of which all memory can be read only and holds pushes. -/
def romOfPushes : Machine where
  cpu := .start 0x0000 0x2400 .reject
  memory := ⟨Vector.replicate Memory.size 0xc5, ⟨0x10000, 0x10000⟩⟩
  config := { romEnd := 0x10000, ramEnd := 0x10000 }

theorem pushes_romOfPushes : romOfPushes.reset.state.Pushes where
  read_eq a := by simp [romOfPushes, reset, Memory.read]
  refusal?_eq a v := by
    have hregion : romOfPushes.reset.state.memory.map.region a = .rom :=
      MemoryMap.region_eq_rom_iff.2 a.toNat_lt
    rw [MemoryMap.refusal?, hregion]

/-- After two hundred and fifty-eight refused writes, the two hundred and fifty-six that are handed
out are not the last. -/
theorem takeFaults_ne_rtake : let machine := romOfPushes.reset.state
    (machine.refusals 129).length = 258 ∧
      (machine.after 129).takeFaults.1 ≠ (machine.refusals 129).rtake 256 := by
  intro machine
  have hpushes : machine.Pushes := pushes_romOfPushes
  have hretains : machine.RetainsFirst := retainsFirst_of_retained_eq_nil rfl
  refine ⟨hpushes.length_refusals 129, ?_⟩
  rw [hretains.takeFaults_after, hpushes.length_refusals]
  exact hpushes.take_ne_rtake

end Machine

end Intel8080
