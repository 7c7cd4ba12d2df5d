import Intel8080.Machine.Run
import Intel8080.Proofs.Checked.Disassembly
import Intel8080.Proofs.Checked.Execution

/-!
# The checked machine

Steps, runs, the placing of images and disassembly, made of checked operations only. Main
statements: `checkedStep_eq_ok` and `checkedRun_eq_ok`; and `noCheckFails`, whatever its registers,
its policy, its memory and its map, no check of a machine fails, and it does what it does without
them.
-/

namespace Intel8080

open Checked

/-! ## The processor -/

namespace Cpu

def checkedRefuse (cpu : Cpu) (opcode : UInt8) (memory : Memory) :
    Checked (Outcome (Except StepError Nat) (Cpu × Memory)) := do
  let first ← memory.checkedRead cpu.pc
  let second ← memory.checkedRead (cpu.pc + 1)
  let third ← memory.checkedRead (cpu.pc + 2)
  let d ← checkedDisassemble [first, second, third] 0
  return {
    answer := .error (.unknownOpcode cpu.pc opcode d.text)
    state := (cpu, memory)
    events := [.opcodeRefused cpu.pc d.text] }

def checkedPerform (cpu : Cpu) (i : Instruction) (memory : Memory) :
    Checked (Outcome Nat (Cpu × Memory)) := do
  let operand ← (Location.ofLength i.operandBytes (cpu.pc + 1)).checkedLoad memory
  let r := cpu.advanced i
  let data ← (i.source r operand).checkedLoad memory
  let effect ← i.checkedExecute r operand data
  let (faults, memory) ← effect.target.checkedStore effect.value memory
  let cycles ← i.checkedCycles effect.taken
  return {
    answer := cycles
    state := ({ cpu with
      toRegisters := effect.registers, faults := cpu.faults.recordAll faults }, memory)
    events := i.notices r operand ++ faults.map fun fault ↦ .writeRefused fault r.pc }

def checkedStep (cpu : Cpu) (memory : Memory) :
    Checked (Outcome (Except StepError Nat) (Cpu × Memory)) := do
  let opcode ← memory.checkedRead cpu.pc
  let i ← Instruction.checkedDecode opcode
  if cpu.accepts i then
    let done ← cpu.checkedPerform i.executed memory
    return {
      answer := .ok done.answer
      state := done.state
      events := .executing cpu.toRegisters opcode :: done.events }
  else cpu.checkedRefuse opcode memory

variable (cpu : Cpu) (memory : Memory)

/-- The bytes that are shown of a refused instruction can be read wherever it stands. -/
theorem checkedRefuse_eq_ok (opcode : UInt8) :
    cpu.checkedRefuse opcode memory = .ok (cpu.refuse opcode memory) := by
  simp only [checkedRefuse, Memory.checkedRead_eq_ok, ok_bind]
  rw [checkedDisassemble_eq_ok (by decide)]
  rfl

/-- Fetches, reads and writes of an instruction pass all checks. -/
theorem checkedPerform_eq_ok {i : Instruction} (h : ∀ p ∈ i.pointer?, Instruction.IsPointer p) :
    cpu.checkedPerform i memory = .ok (cpu.perform i memory) := by
  simp only [checkedPerform, Location.checkedLoad_eq_ok, ok_bind,
    Instruction.checkedExecute_eq_ok _ _ _ h, Location.checkedStore_eq_ok,
    Instruction.checkedCycles_eq_ok, pure_eq_ok, perform, Location.snd_load_memory]

/-- The pairs that decoded instructions name may point at memory, so every step passes. -/
theorem checkedStep_eq_ok : cpu.checkedStep memory = .ok (cpu.step memory) := by
  rw [checkedStep, Memory.checkedRead_eq_ok, ok_bind, Instruction.checkedDecode_eq_ok, ok_bind]
  cases haccepts : cpu.accepts (.decode (Bus.read cpu.pc memory).1) with
  | false =>
    rw [if_neg Bool.false_ne_true, checkedRefuse_eq_ok, step_of_refused haccepts]
    rfl
  | true =>
    have hpointer : ∀ p ∈ (Instruction.decode (memory.read cpu.pc)).executed.pointer?,
        Instruction.IsPointer p := by
      rw [Instruction.pointer?_executed]
      exact Instruction.pointer_decode _
    rw [if_pos rfl, checkedPerform_eq_ok cpu memory hpointer, step_of_accepted haccepts]
    rfl

end Cpu

/-! ## The machine -/

/-- No more than three bytes are looked at. -/
theorem disassembleAt_take_three (offset : Nat) (rest : List UInt8) :
    disassembleAt offset (rest.take 3) = disassembleAt offset rest := by
  have hbyte {i : Nat} (hi : i < 3) : byteAt (rest.take 3) i = byteAt rest i := by
    simp [byteAt, List.getD_eq_getElem?_getD, List.getElem?_take_of_lt hi]
  have htake (i : Instruction) : (rest.take 3).take i.length = rest.take i.length := by
    have hle := i.operandBytes_le_two
    rw [List.take_take, Nat.min_eq_left (by rw [Instruction.length]; omega)]
  simp only [disassembleAt, hbyte (i := 0) (by decide), hbyte (i := 1) (by decide),
    hbyte (i := 2) (by decide), htake]

namespace Machine

def checkedLoad (machine : Machine) (image : List UInt8) :
    Checked (Outcome (Except LoadError Unit) Machine) := do
  match ← machine.memory.checkedLoad machine.config.loadAddress image with
  | .ok memory =>
    return {
      answer := .ok ()
      state := { machine with memory }
      events := [.imageLoaded image.length machine.config.loadAddress] }
  | .error e => return { answer := .error e, state := machine }

def checkedStep (machine : Machine) : Checked (Outcome (Except StepError Nat) Machine) := do
  let done ← machine.cpu.checkedStep machine.memory
  return {
    answer := done.answer
    state := { machine with cpu := done.state.1, memory := done.state.2 }
    events := done.events }

/-- The instruction at an address, in the whole memory as an image. -/
def checkedDisassembleAt (machine : Machine) (a : UInt16) : Checked Disassembly :=
  checkedDisassemble machine.memory.bytes.toList a.toNat

variable (machine : Machine)

/-- The length of an image is compared with the room for it before anything is copied. -/
theorem checkedLoad_eq_ok (image : List UInt8) :
    machine.checkedLoad image = .ok (machine.load image) := by
  rw [checkedLoad, Memory.checkedLoad_eq_ok, ok_bind, load]
  cases machine.memory.load machine.config.loadAddress image <;> rfl

theorem checkedStep_eq_ok : machine.checkedStep = .ok machine.step := by
  rw [checkedStep, Cpu.checkedStep_eq_ok, ok_bind, step_eq]
  rfl

theorem checkedDisassembleAt_eq_ok (a : UInt16) :
    machine.checkedDisassembleAt a = .ok (machine.disassembleAt a) := by
  have ha := a.toNat_lt
  have hpeek : machine.memory.peek a 3 = (machine.memory.bytes.toList.drop a.toNat).take 3 := by
    rw [Memory.peek, Array.toList_extract, List.extract_eq_take_drop, Nat.add_sub_cancel_left]
    rfl
  rw [checkedDisassembleAt, checkedDisassemble_eq_ok (by omega), disassembleAt, hpeek,
    disassembleAt_take_three, disassemble]

end Machine

/-! ## Runs -/

namespace Progress

/-- One more step. Its cycles are added up to the greatest number and no further. -/
def checkedAdvance (verbosity : Verbosity) (progress : Progress) : Checked Progress := do
  let done ← progress.machine.checkedStep
  let shown := (Event.shown verbosity done.events).reverse ++ progress.shown
  match done.answer with
  | .ok cycles =>
    let steps ← sum 64 progress.report.steps 1
    return ⟨done.state, { progress.report.count cycles with steps }, shown⟩
  | .error e => return ⟨done.state, progress.report.stop e, shown⟩

variable {verbosity : Verbosity} {progress next : Progress}

/-- The number of steps fits as long as it is below the budget. -/
theorem checkedAdvance_eq_ok (h : progress.report.steps + 1 < 2 ^ 64) :
    progress.checkedAdvance verbosity = .ok (progress.advance verbosity) := by
  obtain ⟨machine, report, shown⟩ := progress
  rw [checkedAdvance, Machine.checkedStep_eq_ok, ok_bind, advance]
  obtain ⟨answer, after, events⟩ := machine.step
  cases answer with
  | ok cycles =>
    simp only [sum_eq_ok h, ok_bind, pure_eq_ok]
    rfl
  | error e => rfl

/-- A step that can be made is counted. -/
theorem steps_of_checkedAdvance (h : progress.checkedAdvance verbosity = .ok next)
    (hgoes : next.stopped = false) : next.report.steps = progress.report.steps + 1 := by
  rw [checkedAdvance, Machine.checkedStep_eq_ok, ok_bind] at h
  cases hanswer : progress.machine.step.answer with
  | ok cycles =>
    simp only [hanswer, bind_eq_ok] at h
    obtain ⟨steps, hsteps, hnext⟩ := h
    cases hnext
    exact (sum_eq_ok_iff.1 hsteps).2.symm
  | error e =>
    simp only [hanswer] at h
    cases h
    cases hgoes

/-- Steps as long as they can be made and fewer than the budget were made. -/
def checkedRun (verbosity : Verbosity) (budget : UInt64) (progress : Progress) :
    Checked Progress :=
  if progress.report.steps < budget.toNat then
    match _h : progress.checkedAdvance verbosity with
    | .error failure => throw failure
    | .ok next =>
      if _hstopped : next.stopped then return next else next.checkedRun verbosity budget
  else return progress
termination_by budget.toNat - progress.report.steps
decreasing_by
  have hsteps := steps_of_checkedAdvance _h (eq_false_of_ne_true _hstopped)
  omega

/-- A run that is under way makes the steps that are left of its budget. -/
theorem checkedRun_eq_ok (verbosity : Verbosity) (budget : UInt64) (progress : Progress) :
    progress.checkedRun verbosity budget =
      .ok (progress.resume verbosity (budget.toNat - progress.report.steps)) := by
  have hbudget := budget.toNat_lt
  fun_induction checkedRun verbosity budget progress with
  | case1 progress hlt failure hnext =>
    rw [checkedAdvance_eq_ok (by omega)] at hnext
    cases hnext
  | case2 progress hlt next hnext hstopped =>
    rw [checkedAdvance_eq_ok (by omega)] at hnext
    cases hnext
    obtain ⟨n, hn⟩ := Nat.exists_eq_succ_of_ne_zero (Nat.sub_ne_zero_of_lt hlt)
    rw [hn, resume_succ_of_stopped verbosity progress hstopped, pure_eq_ok]
  | case3 progress hlt next hnext hgoes ih =>
    have hsteps := steps_of_checkedAdvance hnext (eq_false_of_ne_true hgoes)
    rw [checkedAdvance_eq_ok (by omega)] at hnext
    cases hnext
    have hleft : budget.toNat - progress.report.steps =
        budget.toNat - (progress.advance verbosity).report.steps + 1 := by omega
    rw [ih, hleft, resume_succ verbosity progress (eq_false_of_ne_true hgoes)]
  | case4 progress hdone =>
    rw [Nat.sub_eq_zero_of_le (Nat.le_of_not_lt hdone), resume_zero, pure_eq_ok]

end Progress

namespace Machine

def checkedRun (verbosity : Verbosity) (budget : UInt64) (machine : Machine) :
    Checked (Outcome RunReport Machine) := do
  let progress ← Progress.checkedRun verbosity budget ⟨machine, {}, []⟩
  return ⟨progress.report, progress.machine, progress.shown.reverse⟩

theorem checkedRun_eq_ok (verbosity : Verbosity) (budget : UInt64) (machine : Machine) :
    machine.checkedRun verbosity budget = .ok (machine.run verbosity budget.toNat) := by
  rw [checkedRun, Progress.checkedRun_eq_ok]
  rfl

end Machine

/-! ## All operations -/

/-- No check fails, of a machine or of the listing of an image: all is as it is without checks. -/
structure NoCheckFails (machine : Machine) (image : Image) : Prop where
  step : machine.checkedStep = .ok machine.step
  /-- The steps of a run are counted within the width of its budget. -/
  run : ∀ verbosity budget,
    machine.checkedRun verbosity budget = .ok (machine.run verbosity budget.toNat)
  /-- Any bytes are placed at any address, or refused. -/
  place : ∀ a bytes, machine.memory.checkedLoad a bytes = .ok (machine.memory.load a bytes)
  load : ∀ bytes, machine.checkedLoad bytes = .ok (machine.load bytes)
  disassembleAt : ∀ a, machine.checkedDisassembleAt a = .ok (machine.disassembleAt a)
  listing : checkedListing image.bytes = .ok (listing image.bytes)
  /-- The sums of two bytes and of their halves fit. -/
  add : ∀ a v carry f, Alu.checkedAdd a v carry f = .ok (Alu.add a v carry f)
  /-- The sum of the halves fits, and a borrow is no more than one. -/
  sub : ∀ a v borrow f, Alu.checkedSub a v borrow f = .ok (Alu.sub a v borrow f)
  decimalAdjust : ∀ a f, Alu.checkedDecimalAdjust a f = .ok (Alu.decimalAdjust a f)
  /-- The sum of two words fits. -/
  dad : ∀ p r operand data, (Instruction.dad p).checkedExecute r operand data =
    .ok ((Instruction.dad p).execute r operand data)
  /-- What is asserted of accumulator loads and stores holds of every opcode byte. -/
  pointer : ∀ opcode p,
    Instruction.decode opcode = .ldax p ∨ Instruction.decode opcode = .stax p →
      require (p = .bc ∨ p = .de) = .ok ()

/-- Whatever the registers of a machine, its policy, its memory, and its map, sound or not, and
whatever the image, no check fails. -/
theorem noCheckFails (machine : Machine) (image : Image) : NoCheckFails machine image := by
  constructor
  case step => exact machine.checkedStep_eq_ok
  case run => exact fun verbosity budget ↦ machine.checkedRun_eq_ok verbosity budget
  case place => exact machine.memory.checkedLoad_eq_ok
  case load => exact machine.checkedLoad_eq_ok
  case disassembleAt => exact machine.checkedDisassembleAt_eq_ok
  case listing => exact checkedListing_eq_ok image
  case add => exact fun a v carry f ↦ Alu.checkedAdd_eq_ok a v f carry
  case sub => exact fun a v borrow f ↦ Alu.checkedSub_eq_ok a v f borrow
  case decimalAdjust => exact Alu.checkedDecimalAdjust_eq_ok
  case dad =>
    intro p r operand data
    exact Instruction.checkedExecute_eq_ok r operand data fun q hq ↦ nomatch hq
  case pointer =>
    intro opcode p hopcode
    have hpointer : p ∈ (Instruction.decode opcode).pointer? := by
      rcases hopcode with h | h <;> rw [h] <;> rfl
    exact require_eq_ok (Instruction.pointer_decode opcode p hpointer)

end Intel8080
