import Intel8080.Proofs.Cpu.Stores
import Intel8080.Proofs.Machine.History

/-!
# Memory protection

Whatever runs, and whatever the owner of a machine does to it short of placing an image, the bytes
outside the writable window keep their values. The window is that of the memory map as it stands,
with bounds in any order and of any size. Main statements: `alike_perform`, which says this of every
history, and `guards_after_perform`, which adds how each write of the step after it fares.
-/

namespace Intel8080

/-- Two memories with one map that differ inside the writable window at most. -/
structure Memory.Alike (before now : Memory) : Prop where
  map_eq : now.map = before.map
  read_eq : ∀ a, before.map.region a ≠ .ram → now.read a = before.read a

namespace Memory.Alike

variable {m₁ m₂ m₃ : Memory}

protected theorem refl (m : Memory) : m.Alike m := ⟨rfl, fun _ _ ↦ rfl⟩

protected theorem trans (h : m₁.Alike m₂) (h' : m₂.Alike m₃) : m₁.Alike m₃ := by
  refine ⟨h'.map_eq.trans h.map_eq, fun a ha ↦ ?_⟩
  rw [h'.read_eq a (by rwa [h.map_eq]), h.read_eq a ha]

end Memory.Alike

/-- A guarded write stays inside the window. -/
theorem Memory.alike_write (memory : Memory) (a : UInt16) (v : UInt8) :
    memory.Alike (memory.write a v).2 := by
  refine ⟨map_write, fun b hb ↦ ?_⟩
  rw [read_write, if_neg]
  rintro ⟨rfl, hram⟩
  exact hb hram

namespace Machine

variable (machine : Machine)

/-- A step stays inside the window, whichever instruction it runs. -/
theorem alike_next : machine.memory.Alike machine.next.memory := by
  refine ⟨Cpu.map_step, fun a ha ↦ ?_⟩
  exact Cpu.read_step a |>.trans (if_neg ha)

/-- No number of steps changes a byte outside the writable memory. -/
theorem alike_after (n : Nat) : machine.memory.Alike (machine.after n).memory :=
  after_induction (P := fun m ↦ machine.memory.Alike m.memory)
    (fun m h ↦ h.trans m.alike_next) (.refl _) n

variable {machine}

/-- Of the operations, only the placing of an image reaches outside the window. -/
theorem alike_apply {operation : Operation} (h : operation.guarded = true) :
    machine.memory.Alike (operation.apply machine).memory := by
  cases operation with
  | step => exact machine.alike_next
  | run verbosity budget =>
    rw [Operation.apply, state_run]
    exact machine.alike_after budget
  | write a v => exact machine.memory.alike_write a v
  | place a image => exact absurd h Bool.false_ne_true
  | load image => exact absurd h Bool.false_ne_true
  | _ => exact .refl _

/-- No history without the placing of an image reaches outside the window. -/
theorem alike_perform {history : List Operation} (h : ∀ o ∈ history, o.guarded = true) :
    machine.memory.Alike (machine.perform history).memory :=
  perform_induction (P := fun m ↦ machine.memory.Alike m.memory)
    (fun o ho _ hm ↦ hm.trans (alike_apply (h o ho))) (.refl _)

/-! ## The writes of a step -/

variable (machine) in
/-- The writes that the next step issues on the bus, in their order. -/
def writes : List ByteWrite := (machine.cpu.step (Recorder.start machine.memory)).state.2.writes

variable (machine) in
/-- The next step issues the writes that its instruction asks for, and each is guarded on its
own. -/
structure Guards : Prop where
  /-- Recording the writes does not change the step. -/
  recorded : (machine.cpu.step (Recorder.start machine.memory)).answer = machine.step.answer ∧
    (machine.cpu.step (Recorder.start machine.memory)).state.1 = machine.next.cpu ∧
    (machine.cpu.step (Recorder.start machine.memory)).state.2.bus = machine.next.memory
  /-- The writes are those of the instruction. -/
  issued : machine.writes.map (fun w ↦ (w.address, w.value)) = machine.cpu.stores machine.memory
  /-- A write is accepted exactly inside the window. -/
  accepted : ∀ w ∈ machine.writes, w.fault = none ↔
    machine.memory.map.romEnd ≤ w.address.toNat ∧ w.address.toNat < machine.memory.map.ramEnd
  /-- The fault of a refused write tells the write, and on which side of the window it was. -/
  refused : ∀ w ∈ machine.writes, ∀ fault, w.fault = some fault →
    fault.address = w.address ∧ fault.value = w.value ∧
      (fault.cause = .readOnly ↔ w.address.toNat < machine.memory.map.romEnd)
  /-- An accepted byte is stored. -/
  stored : ∀ w ∈ machine.writes, w.fault = none → machine.next.memory.read w.address = w.value
  /-- No other byte changes. -/
  kept : ∀ a, (∀ w ∈ machine.writes, w.fault = none → w.address ≠ a) →
    machine.next.memory.read a = machine.memory.read a
  /-- The faults are recorded, in their order. -/
  logged : machine.next.cpu.faults =
    machine.cpu.faults.recordAll (machine.writes.filterMap ByteWrite.fault)
  /-- As many faults are counted as there are writes outside the window. -/
  counted : machine.next.cpu.faults.count =
    min (machine.cpu.faults.count + machine.writes.countP fun w ↦
      !(machine.memory.map.romEnd ≤ w.address.toNat ∧
        w.address.toNat < machine.memory.map.ramEnd)) FaultLog.maxCount

/-- A step writes what its instruction stores, and the map judges each byte. -/
theorem writes_eq : machine.writes =
    (machine.cpu.stores machine.memory).map machine.memory.map.judge :=
  Cpu.writes_step machine.cpu machine.memory

/-- The writes are of the bytes that the instruction stores. -/
theorem map_writes :
    machine.writes.map (fun w ↦ (w.address, w.value)) = machine.cpu.stores machine.memory := by
  rw [writes_eq, List.map_map]
  exact List.map_id _

/-- Every write is the judged write of a byte that the instruction stores. -/
theorem mem_writes {w : ByteWrite} (h : w ∈ machine.writes) :
    (w.address, w.value) ∈ machine.cpu.stores machine.memory ∧
      w.fault = machine.memory.map.refusal? w.address w.value := by
  rw [writes_eq, List.mem_map] at h
  obtain ⟨store, hstore, rfl⟩ := h
  exact ⟨hstore, rfl⟩

theorem mem_writes_of_mem_stores {a : UInt16} {v : UInt8}
    (h : (a, v) ∈ machine.cpu.stores machine.memory) :
    machine.memory.map.judge (a, v) ∈ machine.writes := by
  rw [writes_eq]
  exact List.mem_map_of_mem h

/-- The writes of a step that are refused are recorded in their order. -/
theorem faults_next : machine.next.cpu.faults =
    machine.cpu.faults.recordAll (machine.writes.filterMap ByteWrite.fault) := by
  rw [writes_eq, List.filterMap_map]
  exact Cpu.faults_step

/-- Every step is guarded, as long as the counter is within its sixty-four bits. -/
theorem guards (hcount : machine.cpu.faults.count ≤ FaultLog.maxCount) : machine.Guards where
  recorded := by
    obtain ⟨hanswer, -, hcpu, hbus⟩ := machine.cpu.step_recorder (Recorder.start machine.memory)
    exact ⟨hanswer, hcpu, hbus⟩
  issued := map_writes
  accepted w hw := by
    rw [(mem_writes hw).2]
    exact MemoryMap.refusal?_eq_none_iff
  refused w hw fault hfault := by
    rw [(mem_writes hw).2] at hfault
    obtain ⟨haddress, hvalue⟩ := MemoryMap.eq_of_refusal? hfault
    exact ⟨haddress, hvalue, MemoryMap.cause_eq_readOnly_iff hfault⟩
  stored w hw hfault := by
    obtain ⟨hstore, hjudged⟩ := mem_writes hw
    rw [hjudged, MemoryMap.refusal?_eq_none_iff_region] at hfault
    exact Cpu.read_step_of_mem hstore hfault
  kept a ha := by
    refine Cpu.read_step_of_forall_ne fun hram store hstore ↦ ?_
    rintro rfl
    exact ha _ (mem_writes_of_mem_stores hstore) (MemoryMap.refusal?_eq_none_iff_region.2 hram) rfl
  logged := faults_next
  counted := by
    rw [faults_next, FaultLog.count_recordAll _ _ hcount, List.length_filterMap_eq_countP]
    congr 2
    refine List.countP_congr fun w hw ↦ ?_
    rw [(mem_writes hw).2, Bool.not_eq_true', decide_eq_false_iff_not,
      ← MemoryMap.refusal?_eq_none_iff, Option.isSome_iff_ne_none]

/-! ## The steps of a history -/

/-- The count never passes its greatest number. -/
theorem count_next_le (hcount : machine.cpu.faults.count ≤ FaultLog.maxCount) :
    machine.next.cpu.faults.count ≤ FaultLog.maxCount := by
  rw [faults_next, FaultLog.count_recordAll _ _ hcount]
  exact Nat.min_le_right _ _

/-- No operation takes the counter beyond its sixty-four bits. -/
theorem count_apply_le (operation : Operation)
    (hcount : machine.cpu.faults.count ≤ FaultLog.maxCount) :
    (operation.apply machine).cpu.faults.count ≤ FaultLog.maxCount := by
  cases operation with
  | step => exact count_next_le hcount
  | run verbosity budget =>
    rw [Operation.apply, state_run]
    exact after_induction (P := fun m ↦ m.cpu.faults.count ≤ FaultLog.maxCount)
      (fun _ h ↦ count_next_le h) hcount budget
  | reset => exact Nat.zero_le _
  | place a image | load image => simpa using hcount
  | _ => exact hcount

/-- However the owner treats a machine, short of placing an image, the bytes outside the window stay
as they were, and the next step is guarded. -/
theorem guards_after_perform {history : List Operation} (h : ∀ o ∈ history, o.guarded = true)
    (hcount : machine.cpu.faults.count ≤ FaultLog.maxCount) :
    machine.memory.Alike (machine.perform history).memory ∧ (machine.perform history).Guards :=
  ⟨alike_perform h, guards <| perform_induction
    (P := fun m ↦ m.cpu.faults.count ≤ FaultLog.maxCount)
    (fun o _ _ ↦ count_apply_le o) hcount⟩

/-- The owner puts a push into the memory of the arcade board and points the stack at the boundary
of its read-only memory, so that one byte of the pushed word lies on either side. -/
def straddle : List Operation :=
  [.write 0x2000 0xe5, .edit fun r ↦ { r with pc := 0x2000, sp := 0x2001, h := 0x12, l := 0x34 }]

theorem guards_after_straddle :
    (∀ o ∈ straddle, o.guarded = true) ∧
    (ofConfig {}).cpu.faults.count ≤ FaultLog.maxCount ∧
    (ofConfig {}).memory.Alike ((ofConfig {}).perform straddle).memory ∧
    ((ofConfig {}).perform straddle).Guards :=
  have hguarded : ∀ o ∈ straddle, o.guarded = true := by simp [straddle, Operation.guarded]
  have hcount : (ofConfig {}).cpu.faults.count ≤ FaultLog.maxCount := Nat.zero_le _
  ⟨hguarded, hcount, guards_after_perform hguarded hcount⟩

end Machine

end Intel8080
