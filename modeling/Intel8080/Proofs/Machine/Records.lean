import Intel8080.Proofs.Machine.Traffic

/-!
# The log of a run

The log of a run is what its steps report one after the other, and each step that is made first
traces its instruction, then notes a halt or a port, and then warns of every write that it sees
refused. Main statements: `events_run`, a verbosity chooses among the events of a run and changes
none, `records_step`, the records of one step, and `documents`, which says of every run what the
records of each level are.
-/

namespace Intel8080

/-- Whether a record traces an instruction. Ports are traced too, but by another speaker. -/
def LogRecord.tracesInstruction (record : LogRecord) : Bool :=
  record.level == .trace && record.target == "retro8080_cpu::cpu"

def StepError.record : StepError → LogRecord
  | unknownOpcode address _ disassembly =>
    ⟨.error, "retro8080_cpu::cpu",
      "Unknown instruction at " ++ Hex.lower 4 address.toNat ++ ": " ++ disassembly⟩

namespace Machine

variable (machine : Machine) {α : Type} (f : Machine → List α) {k n : Nat}

/-- The machines that a number of steps begin with, in their order. -/
def stages (n : Nat) : List Machine := (List.range n).map machine.after

/-- What the steps of a run of at most `n` steps yield. A step that is refused is the last. -/
def gathered (machine : Machine) (f : Machine → List α) : Nat → List α
  | 0 => []
  | n + 1 => f machine ++ if machine.steps then machine.next.gathered f n else []

/-- The faults of the writes that the next step sees refused. -/
def stepRefusals : List WriteFault := machine.writes.filterMap ByteWrite.fault

/-- The record that traces the next step, with the registers as they are before it. -/
def traceRecord : LogRecord :=
  ⟨.trace, "retro8080_cpu::cpu",
    Event.traceText machine.cpu.toRegisters (machine.memory.read machine.cpu.pc)⟩

/-- The record that warns of a write that the next step sees refused, with the address behind its
instruction. -/
def warning (fault : WriteFault) : LogRecord :=
  ⟨.warn, "retro8080_cpu::cpu",
    fault.message ++ " (pc=" ++ Hex.lower 4 machine.past.pc.toNat ++ ")"⟩

/-- The record of the halt that the next step passes over, if it does. -/
def haltRecord? : Option LogRecord :=
  if machine.instruction = .hlt then
    some ⟨.debug, "retro8080_cpu::cpu::exec::system",
      "HLT at " ++ Hex.lower 4 machine.cpu.pc.toNat ++ " treated as NOP"⟩
  else none

/-- The records of what the next step notes besides its trace and its warnings. -/
def notes : List LogRecord :=
  (machine.instruction.notices machine.past
    (machine.cpu.operand machine.memory machine.instruction)).map Event.record

theorem stages_succ (n : Nat) : machine.stages (n + 1) = machine :: machine.next.stages n := by
  rw [stages, List.range_succ_eq_map, List.map_cons, List.map_map]
  rfl

variable {machine}

theorem steps_of_mem_stages (h : machine.Goes n) {m : Machine} (hm : m ∈ machine.stages n) :
    m.steps = true := by
  obtain ⟨k, hk, rfl⟩ := List.mem_map.1 hm
  exact h k (List.mem_range.1 hk)

/-! ## What the steps yield -/

/-- Without an error each step yields its part. -/
theorem gathered_of_goes (h : machine.Goes n) :
    machine.gathered f n = (machine.stages n).flatMap f := by
  induction n generalizing machine with
  | zero => rfl
  | succ n ih =>
    obtain ⟨hsteps, hrest⟩ := goes_succ_iff.1 h
    rw [gathered, if_pos hsteps, ih hrest, stages_succ, List.flatMap_cons]

/-- The step that is refused still yields its part, and none after it. -/
theorem gathered_of_refused (hgoes : machine.Goes k) (hrefused : (machine.after k).steps = false)
    (hk : k < n) : machine.gathered f n = (machine.stages k).flatMap f ++ f (machine.after k) := by
  induction k generalizing machine n with
  | zero =>
    obtain ⟨n, rfl⟩ := Nat.exists_eq_add_one.2 hk
    rw [after_zero] at hrefused
    simp [gathered, hrefused, stages]
  | succ k ih =>
    obtain ⟨n, rfl⟩ := Nat.exists_eq_add_one.2 (Nat.zero_lt_of_lt hk)
    obtain ⟨hsteps, hrest⟩ := goes_succ_iff.1 hgoes
    rw [gathered, if_pos hsteps, ih hrest hrefused (Nat.lt_of_succ_lt_succ hk), stages_succ,
      List.flatMap_cons, List.append_assoc, after_succ']

/-- The traffic of a run is gathered from the accesses of its steps. -/
theorem traffic_eq_gathered (machine : Machine) (n : Nat) :
    machine.traffic n = machine.gathered accesses n := by
  induction n generalizing machine with
  | zero => rfl
  | succ n ih => rw [traffic, gathered, ih]

theorem filterMap_fault?_flatMap_accesses (machines : List Machine) :
    (machines.flatMap accesses).filterMap Access.fault? = machines.flatMap stepRefusals := by
  simp only [List.filterMap_flatMap, filterMap_fault?_accesses]
  rfl

theorem refusals_of_goes (h : machine.Goes n) :
    machine.refusals n = (machine.stages n).flatMap stepRefusals := by
  rw [refusals, traffic_eq_gathered, gathered_of_goes _ h, filterMap_fault?_flatMap_accesses]

/-- A step that is refused sees no write refused. -/
theorem refusals_of_refused (hgoes : machine.Goes k) (hrefused : (machine.after k).steps = false)
    (hk : k < n) : machine.refusals n = (machine.stages k).flatMap stepRefusals := by
  rw [refusals, traffic_eq_gathered, gathered_of_refused _ hgoes hrefused hk,
    List.filterMap_append, filterMap_fault?_flatMap_accesses, accesses_of_not_steps hrefused]
  exact List.append_nil _

end Machine

namespace Progress

variable (verbosity : Verbosity) {progress : Progress}

/-- One more step shows its events after those before. -/
theorem reverse_shown_advance : (progress.advance verbosity).shown.reverse =
    progress.shown.reverse ++ Event.shown verbosity progress.machine.step.events := by
  unfold advance
  split
  split <;> simp_all

/-- A run under way shows what its steps report. -/
theorem reverse_shown_resume (h : progress.stopped = false) (n : Nat) :
    (progress.resume verbosity n).shown.reverse = progress.shown.reverse ++
      Event.shown verbosity (progress.machine.gathered (·.step.events) n) := by
  induction n generalizing progress with
  | zero => simp [Machine.gathered]
  | succ n ih =>
    have hstopped := stopped_advance verbosity h
    cases hsteps : progress.machine.steps with
    | true =>
      rw [hsteps] at hstopped
      rw [resume_succ _ _ hstopped, ih hstopped, reverse_shown_advance, machine_advance,
        Machine.gathered, if_pos hsteps, Event.shown_append, List.append_assoc]
    | false =>
      rw [hsteps] at hstopped
      rw [resume_succ_of_stopped _ _ hstopped, reverse_shown_advance]
      simp [Machine.gathered, hsteps]

end Progress

namespace Machine

variable {machine : Machine} {n : Nat}

/-- Of what its steps report, a run shows what the verbosity chooses. -/
theorem events_run (machine : Machine) (verbosity : Verbosity) (n : Nat) :
    (machine.run verbosity n).events =
      Event.shown verbosity (machine.gathered (·.step.events) n) := by
  have hbegun : machine.begun.stopped = false := rfl
  exact Progress.reverse_shown_resume verbosity hbegun n

/-! ## The records of one step -/

/-- A step is traced first, then notes what it has to, and warns of refused writes last. -/
theorem records_step (h : machine.steps = true) : machine.step.events.map Event.record =
    machine.traceRecord :: (machine.notes ++ machine.stepRefusals.map machine.warning) := by
  have hrefusals : machine.stepRefusals =
      (machine.effect.target.store machine.effect.value machine.memory).1 := by
    rw [stepRefusals, writes_eq, List.filterMap_map, Cpu.stores_of_accepted h]
    exact (Location.fst_store_memory ..).symm
  rw [step_eq, Cpu.step_memory_of_accepted h, hrefusals, List.map_cons, List.map_append,
    List.map_map]
  rfl

/-- A step notes a halt, or else a port. -/
theorem mem_notes {record : LogRecord} (h : record ∈ machine.notes) :
    record.target = "retro8080_cpu::cpu::exec::system" ∧
      (machine.instruction = .hlt ∧ record.level = .debug ∨ record.level = .trace) := by
  obtain ⟨event, hevent, rfl⟩ := List.mem_map.1 h
  unfold Instruction.notices at hevent
  split at hevent
  · next hhalt =>
    obtain rfl := List.mem_singleton.1 hevent
    exact ⟨rfl, .inl ⟨hhalt, rfl⟩⟩
  · obtain rfl := List.mem_singleton.1 hevent
    exact ⟨rfl, .inr rfl⟩
  · obtain rfl := List.mem_singleton.1 hevent
    exact ⟨rfl, .inr rfl⟩
  · cases hevent

theorem filter_tracesInstruction_notes (machine : Machine) :
    machine.notes.filter LogRecord.tracesInstruction = [] := by
  refine List.filter_eq_nil_iff.2 fun record hrecord ↦ ?_
  simp [LogRecord.tracesInstruction, (mem_notes hrecord).1]

theorem filter_level_notes {level : Level} (hdebug : level ≠ .debug) (htrace : level ≠ .trace) :
    machine.notes.filter (·.level == level) = [] := by
  refine List.filter_eq_nil_iff.2 fun record hrecord ↦ ?_
  obtain ⟨-, ⟨-, h⟩ | h⟩ := mem_notes hrecord <;> simp [h, hdebug.symm, htrace.symm]

theorem filter_debug_notes (machine : Machine) :
    machine.notes.filter (·.level == .debug) = machine.haltRecord?.toList := by
  unfold haltRecord?
  split
  case isTrue h =>
    have hpc : machine.past.pc - 1 = machine.cpu.pc := by
      rw [past_eq h]
      change machine.cpu.pc + 1 + 0 - 1 = machine.cpu.pc
      rw [UInt16.add_zero, UInt16.add_sub_cancel]
    rw [notes, h, Instruction.notices, hpc]
    rfl
  case isFalse h =>
    refine List.filter_eq_nil_iff.2 fun record hrecord ↦ ?_
    have htrace : record.level = .trace := (mem_notes hrecord).2.resolve_left (h ·.1)
    simp [htrace]

theorem filter_warnings_eq_nil {p : LogRecord → Bool}
    (h : ∀ fault, p (machine.warning fault) = false)
    (faults : List WriteFault) : (faults.map machine.warning).filter p = [] := by
  simp [List.filter_map, Function.comp_def, h]

section Filter

variable (h : machine.steps = true)

include h

/-- Each step is traced once. -/
theorem filter_tracesInstruction_step :
    (machine.step.events.map Event.record).filter LogRecord.tracesInstruction =
      [machine.traceRecord] := by
  rw [records_step h, List.filter_cons_of_pos rfl, List.filter_append,
    filter_tracesInstruction_notes, filter_warnings_eq_nil fun _ ↦ rfl]
  rfl

/-- Each refused write is warned of once. -/
theorem filter_warn_step :
    (machine.step.events.map Event.record).filter (·.level == .warn) =
      machine.stepRefusals.map machine.warning := by
  have hnotes : machine.notes.filter (·.level == .warn) = [] :=
    filter_level_notes (by decide) (by decide)
  rw [records_step h, List.filter_cons_of_neg Bool.false_ne_true, List.filter_append, hnotes,
    List.nil_append]
  exact List.filter_eq_self.2 (by simp [warning])

theorem filter_debug_step :
    (machine.step.events.map Event.record).filter (·.level == .debug) =
      machine.haltRecord?.toList := by
  rw [records_step h, List.filter_cons_of_neg Bool.false_ne_true, List.filter_append,
    filter_debug_notes, filter_warnings_eq_nil fun _ ↦ rfl, List.append_nil]

/-- A step that is made reports no error. -/
theorem filter_error_step :
    (machine.step.events.map Event.record).filter (·.level == .error) = [] := by
  have hnotes : machine.notes.filter (·.level == .error) = [] :=
    filter_level_notes (by decide) (by decide)
  rw [records_step h, List.filter_cons_of_neg Bool.false_ne_true, List.filter_append, hnotes,
    filter_warnings_eq_nil fun _ ↦ rfl, List.append_nil]

end Filter

/-! ## The records of a run -/

/-- What the log of a run of at most `n` steps tells of them. -/
structure Documents (machine : Machine) (n : Nat) (report : RunReport) (records : List LogRecord) :
    Prop where
  /-- The records are those of the steps that were made, and after them that of the error. -/
  records_eq : records = (machine.stages report.steps).flatMap (·.step.events.map Event.record) ++
    report.error.toList.map StepError.record
  /-- The first record of each of the steps traces it, and no other one does. -/
  traced : ∀ m ∈ machine.stages report.steps, ∃ rest,
    m.step.events.map Event.record = m.traceRecord :: rest ∧
      ∀ record ∈ rest, record.tracesInstruction = false
  /-- Every step that was made is traced, and nothing else. -/
  traces_eq : records.filter LogRecord.tracesInstruction =
    (machine.stages report.steps).map traceRecord
  /-- There is a warning of each write that was refused, and no other warning. -/
  warnings_eq : records.filter (·.level == .warn) =
    (machine.stages report.steps).flatMap fun m ↦ m.stepRefusals.map m.warning
  /-- These writes are all that the run sees refused, whether the processor retains them or not. -/
  refusals_eq : (machine.stages report.steps).flatMap stepRefusals = machine.refusals n
  /-- Of every halt there is a record. -/
  halts_eq : records.filter (·.level == .debug) =
    (machine.stages report.steps).filterMap haltRecord?
  /-- There is a record of an error exactly if an error stopped the run. -/
  errors_eq : records.filter (·.level == .error) = report.error.toList.map StepError.record
  /-- It is the last one. -/
  getLast?_eq : ∀ e, report.error = some e → records.getLast? = some e.record

/-- The records of the steps that were made, and of an error, document a run. -/
theorem Documents.of_goes {report : RunReport} {records : List LogRecord}
    (hgoes : machine.Goes report.steps)
    (hrefusals : machine.refusals n = (machine.stages report.steps).flatMap stepRefusals)
    (hrecords : records = (machine.stages report.steps).flatMap (·.step.events.map Event.record) ++
      report.error.toList.map StepError.record) : machine.Documents n report records := by
  have hsteps {m : Machine} (hm : m ∈ machine.stages report.steps) := steps_of_mem_stages hgoes hm
  -- filtering the records is filtering those of each step and that of the error
  have hfilter (p : LogRecord → Bool) {g : Machine → List LogRecord}
      (hg : ∀ m, m.steps = true → (m.step.events.map Event.record).filter p = g m) :
      records.filter p = (machine.stages report.steps).flatMap g ++
        (report.error.toList.map StepError.record).filter p := by
    rw [hrecords, List.filter_append, List.filter_flatMap]
    exact congrArg (· ++ _) (List.flatMap_congr fun m hm ↦ hg m (hsteps hm))
  have herror {p : LogRecord → Bool} (hp : ∀ e : StepError, p e.record = false) :
      (report.error.toList.map StepError.record).filter p = [] := by
    simp [List.filter_map, Function.comp_def, hp]
  constructor
  case records_eq => exact hrecords
  case traced =>
    intro m hm
    refine ⟨_, records_step (hsteps hm), fun record hrecord ↦ ?_⟩
    rcases List.mem_append.1 hrecord with hnote | hwarning
    · simp [LogRecord.tracesInstruction, (mem_notes hnote).1]
    · obtain ⟨fault, -, rfl⟩ := List.mem_map.1 hwarning
      rfl
  case traces_eq =>
    rw [hfilter _ fun m ↦ filter_tracesInstruction_step, herror fun _ ↦ rfl, List.append_nil]
    exact List.flatMap_pure_eq_map ..
  case warnings_eq =>
    rw [hfilter _ fun m ↦ filter_warn_step, herror fun _ ↦ rfl, List.append_nil]
  case refusals_eq => exact hrefusals.symm
  case halts_eq =>
    rw [hfilter _ fun m ↦ filter_debug_step, herror fun _ ↦ rfl, List.append_nil,
      List.filterMap_eq_flatMap_toList]
  case errors_eq =>
    have hself : (report.error.toList.map StepError.record).filter (·.level == .error) =
        report.error.toList.map StepError.record :=
      List.filter_eq_self.2 fun record hrecord ↦ by
        obtain ⟨e, -, rfl⟩ := List.mem_map.1 hrecord
        rfl
    rw [hfilter _ fun m ↦ filter_error_step, hself]
    simp
  case getLast?_eq =>
    intro e he
    simp [hrecords, he]

/-- The report of a run does not depend on what is shown. -/
theorem answer_run_eq (machine : Machine) (verbosity other : Verbosity) (n : Nat) :
    (machine.run verbosity n).answer = (machine.run other n).answer := by
  obtain hgoes | ⟨k, hk, hgoes, hrefused⟩ := machine.goes_or_refused n
  · rw [answer_run verbosity hgoes, answer_run other hgoes]
  · rw [answer_run_of_refused verbosity hgoes hrefused hk,
      answer_run_of_refused other hgoes hrefused hk]

example : ((idle .reject).run (some .trace) 2).events.map Event.message =
    ["0000: 00 NOP   a=00 bc=0000 de=0000 hl=0000 sp=0000 f=02",
      "Unknown instruction at 0001: UNKNOWN"] := by
  decide +kernel

end Machine

end Intel8080
