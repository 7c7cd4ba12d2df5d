import Intel8080.Proofs.Machine.Traffic
import Mathlib.Data.List.DropRight

/-!
# The log of refused writes and its history

The log is emptied by drains and resets, its counter by resets only, and between them the log may
run out of room. A history of a machine leaves marks: the writes of the processor that were refused,
in the order in which they were issued, the lists that were handed out, and the resets. Main
statements: `reflects_perform`, the log holds what the marks say, whatever the owner of the machine
does; and `logsRefusals`, what this means for the owner.
-/

namespace Intel8080

/-! ## Marks -/

/-- Something that happens to the log of refused writes. -/
inductive Mark where
  /-- A write of the processor was refused. -/
  | refused (fault : WriteFault)
  /-- The retained faults were handed out. -/
  | drained (faults : List WriteFault)
  | reset
deriving DecidableEq, Repr

namespace Mark

def fault? : Mark → Option WriteFault
  | refused fault => some fault
  | _ => none

def handedOut? : Mark → Option (List WriteFault)
  | drained faults => some faults
  | _ => none

def isReset : Mark → Bool
  | reset => true
  | _ => false

def isDrained : Mark → Bool
  | drained _ => true
  | _ => false

/-- The marks after the last reset. -/
def sinceReset (marks : List Mark) : List Mark := marks.rtakeWhile fun mark ↦ !mark.isReset

/-- The marks after the last drain or reset. -/
def sinceDrain (marks : List Mark) : List Mark :=
  marks.rtakeWhile fun mark ↦ !mark.isReset && !mark.isDrained

def faults (marks : List Mark) : List WriteFault := marks.filterMap fault?

def handedOut (marks : List Mark) : List (List WriteFault) := marks.filterMap handedOut?

/-- At no time since the last reset were there more faults after the last drain than find room in
the log. -/
def FindRoom (marks : List Mark) : Prop :=
  ∀ earlier, earlier <+: sinceReset marks → (faults (sinceDrain earlier)).length ≤ FaultLog.capacity

variable {marks : List Mark} {fault : WriteFault} {list : List WriteFault}

@[simp] theorem sinceReset_concat_refused :
    sinceReset (marks ++ [refused fault]) = sinceReset marks ++ [refused fault] :=
  List.rtakeWhile_concat_pos _ _ _ rfl

@[simp] theorem sinceReset_concat_drained :
    sinceReset (marks ++ [drained list]) = sinceReset marks ++ [drained list] :=
  List.rtakeWhile_concat_pos _ _ _ rfl

@[simp] theorem sinceReset_concat_reset : sinceReset (marks ++ [reset]) = [] :=
  List.rtakeWhile_concat_neg _ _ _ Bool.false_ne_true

@[simp] theorem sinceDrain_concat_refused :
    sinceDrain (marks ++ [refused fault]) = sinceDrain marks ++ [refused fault] :=
  List.rtakeWhile_concat_pos _ _ _ rfl

@[simp] theorem sinceDrain_concat_drained : sinceDrain (marks ++ [drained list]) = [] :=
  List.rtakeWhile_concat_neg _ _ _ Bool.false_ne_true

@[simp] theorem sinceDrain_concat_reset : sinceDrain (marks ++ [reset]) = [] :=
  List.rtakeWhile_concat_neg _ _ _ Bool.false_ne_true

@[simp] theorem faults_concat_refused :
    faults (marks ++ [refused fault]) = faults marks ++ [fault] := List.filterMap_append

@[simp] theorem faults_concat_drained : faults (marks ++ [drained list]) = faults marks := by
  rw [faults, List.filterMap_append]
  exact List.append_nil _

@[simp] theorem handedOut_concat_refused :
    handedOut (marks ++ [refused fault]) = handedOut marks := by
  rw [handedOut, List.filterMap_append]
  exact List.append_nil _

@[simp] theorem handedOut_concat_drained :
    handedOut (marks ++ [drained list]) = handedOut marks ++ [list] := List.filterMap_append

/-- No more than the marks after the last reset are looked at for those after the last drain. -/
theorem sinceDrain_sinceReset : sinceDrain (sinceReset marks) = sinceDrain marks := by
  induction marks using List.reverseRecOn with
  | nil => rfl
  | append_singleton marks mark ih =>
    cases mark with
    | refused fault => simp [ih]
    | drained list => simp
    | reset => rw [sinceReset_concat_reset, sinceDrain_concat_reset]; rfl

/-- What came after the last drain or reset came after the last reset. -/
theorem sinceDrain_suffix : sinceDrain marks <:+ sinceReset marks := by
  rw [← sinceDrain_sinceReset]
  exact List.rtakeWhile_suffix _ _

namespace FindRoom

/-- No more faults than find room in an empty log find room, whenever it is drained. -/
theorem of_length_le (h : (faults (sinceReset marks)).length ≤ FaultLog.capacity) :
    FindRoom marks := by
  intro earlier hearlier
  have hsuffix : (faults (sinceDrain earlier)).length ≤ (faults earlier).length :=
    ((List.rtakeWhile_suffix _ _).filterMap _).length_le
  have hprefix : (faults earlier).length ≤ (faults (sinceReset marks)).length :=
    (hearlier.filterMap _).length_le
  exact Nat.le_trans hsuffix (Nat.le_trans hprefix h)

/-- After the last drain there were no more faults than find room. -/
theorem length_le (h : FindRoom marks) :
    (faults (sinceDrain marks)).length ≤ FaultLog.capacity := by
  rw [← sinceDrain_sinceReset]
  exact h _ List.prefix_rfl

/-- If there is room now, there was room before, unless it was made by a reset. -/
theorem of_concat {mark : Mark} (h : FindRoom (marks ++ [mark])) (hmark : mark.isReset = false) :
    FindRoom marks := by
  intro earlier hearlier
  have hprefix : sinceReset marks <+: sinceReset (marks ++ [mark]) := by
    rw [sinceReset, sinceReset, List.rtakeWhile_concat_pos _ _ _ (by rw [hmark]; rfl)]
    exact List.prefix_append _ _
  exact h earlier (hearlier.trans hprefix)

end FindRoom

end Mark

/-! ## The log -/

open Mark

/-- A log holds what the marks of its history say. -/
structure FaultLog.Reflects (log : FaultLog) (marks : List Mark) : Prop where
  /-- All faults since the last reset are counted. -/
  count_eq : log.count = min (faults (sinceReset marks)).length FaultLog.maxCount
  /-- The oldest faults since the last drain are retained. -/
  retained_eq : log.retained = (faults (sinceDrain marks)).take FaultLog.capacity
  /-- If all found room, the lists that were handed out and what is retained are all faults. -/
  lossless : FindRoom marks → (handedOut (sinceReset marks)).flatten ++ log.retained =
    faults (sinceReset marks)

namespace FaultLog.Reflects

variable {log : FaultLog} {marks : List Mark}

theorem length_retained_le (h : log.Reflects marks) : log.retained.length ≤ capacity := by
  rw [h.retained_eq]
  exact List.length_take_le _ _

/-- There are no more faults since the last drain than since the last reset. -/
theorem length_retained_le_count (h : log.Reflects marks) : log.retained.length ≤ log.count := by
  have hle : (faults (sinceDrain marks)).length ≤ (faults (sinceReset marks)).length :=
    (sinceDrain_suffix.filterMap _).length_le
  have hcapacity : capacity ≤ maxCount := by decide
  rw [h.count_eq, h.retained_eq, List.length_take]
  omega

theorem empty : ({} : FaultLog).Reflects [] := ⟨rfl, rfl, fun _ ↦ rfl⟩

/-- A log in which all faults found room retains all since the last drain. -/
theorem retained_of_findRoom (h : log.Reflects marks) (hroom : FindRoom marks) :
    log.retained = faults (sinceDrain marks) := by
  rw [h.retained_eq, List.take_of_length_le hroom.length_le]

/-- A fault that is recorded is reflected as one more mark. -/
theorem record (h : log.Reflects marks) (fault : WriteFault) :
    (log.record fault).Reflects (marks ++ [refused fault]) := by
  have hcount : (log.record fault).count =
      min (faults (sinceReset (marks ++ [refused fault]))).length maxCount := by
    simp only [FaultLog.record, h.count_eq, sinceReset_concat_refused, faults_concat_refused,
      List.length_append, List.length_singleton]
    omega
  have hretained : (log.record fault).retained =
      (faults (sinceDrain (marks ++ [refused fault]))).take capacity := by
    have hroom : capacity - min capacity (faults (sinceDrain marks)).length =
        capacity - (faults (sinceDrain marks)).length := by omega
    rw [retained_record log h.length_retained_le, h.retained_eq, sinceDrain_concat_refused,
      faults_concat_refused, List.take_append, List.take_append, List.take_take, Nat.min_self,
      List.length_take, hroom]
  refine ⟨hcount, hretained, fun hroom ↦ ?_⟩
  have hbefore := hroom.of_concat rfl
  rw [hretained, List.take_of_length_le hroom.length_le, sinceDrain_concat_refused,
    sinceReset_concat_refused, faults_concat_refused, faults_concat_refused,
    handedOut_concat_refused, ← h.lossless hbefore, h.retained_of_findRoom hbefore,
    List.append_assoc]

/-- What a drain takes from the log is handed out. -/
theorem drain (h : log.Reflects marks) : log.drain.Reflects (marks ++ [drained log.retained]) where
  count_eq := by
    rw [count_drain, h.count_eq, sinceReset_concat_drained, faults_concat_drained]
  retained_eq := by
    rw [sinceDrain_concat_drained]
    rfl
  lossless hroom := by
    rw [sinceReset_concat_drained, handedOut_concat_drained, faults_concat_drained,
      ← h.lossless (hroom.of_concat rfl), retained_drain, List.flatten_append, List.append_nil]
    simp

/-- After a reset the log is as if nothing had happened. -/
theorem reset : ({} : FaultLog).Reflects (marks ++ [.reset]) where
  count_eq := by rw [sinceReset_concat_reset]; rfl
  retained_eq := by rw [sinceDrain_concat_reset]; rfl
  lossless _ := by rw [sinceReset_concat_reset]; rfl

theorem recordAll (h : log.Reflects marks) (refusals : List WriteFault) :
    (log.recordAll refusals).Reflects (marks ++ refusals.map refused) := by
  induction refusals generalizing log marks with
  | nil => simpa using h
  | cons fault refusals ih => simpa using ih (h.record fault)

end FaultLog.Reflects

/-! ## Histories -/

/-- The marks that an operation leaves. Only the processor's own writes count, not the owner's. -/
def Operation.marks (operation : Operation) (machine : Machine) : List Mark :=
  match operation with
  | step => (machine.refusals 1).map .refused
  | run _ budget => (machine.refusals budget).map .refused
  | reset => [.reset]
  | takeFaults => [.drained machine.takeFaults.1]
  | _ => []

namespace Machine

def marks (machine : Machine) : List Operation → List Mark
  | [] => []
  | operation :: history => operation.marks machine ++ (operation.apply machine).marks history

variable {machine : Machine} {marked : List Mark}

theorem marks_append (machine : Machine) (history later : List Operation) :
    machine.marks (history ++ later) =
      machine.marks history ++ (machine.perform history).marks later := by
  induction history generalizing machine with
  | nil => rfl
  | cons operation history ih =>
    rw [List.cons_append, marks, ih, marks, List.append_assoc]
    rfl

/-- Whatever its owner does to a machine, its log holds what the marks say. -/
theorem reflects_apply (h : machine.cpu.faults.Reflects marked) (operation : Operation) :
    (operation.apply machine).cpu.faults.Reflects (marked ++ operation.marks machine) := by
  have hnone {cpu : Cpu} (hfaults : cpu.faults = machine.cpu.faults) :
      cpu.faults.Reflects (marked ++ []) := by
    rwa [hfaults, List.append_nil]
  have hsteps (n : Nat) :
      (machine.after n).cpu.faults.Reflects (marked ++ (machine.refusals n).map .refused) := by
    rw [faults_after]
    exact h.recordAll _
  cases operation with
  | step => exact hsteps 1
  | run verbosity budget =>
    rw [Operation.apply, state_run]
    exact hsteps budget
  | reset => exact .reset
  | takeFaults => exact h.drain
  | place a image => exact hnone (by rw [Operation.cpu_apply_place])
  | load image => exact hnone (by rw [Operation.cpu_apply_load])
  | edit | choosePolicy | write => exact hnone rfl

/-- By induction on the history, the log reflects all marks that were left. -/
theorem reflects_perform (h : machine.cpu.faults.Reflects marked) (history : List Operation) :
    (machine.perform history).cpu.faults.Reflects (marked ++ machine.marks history) := by
  induction history generalizing machine marked with
  | nil => simpa [marks] using h
  | cons operation history ih =>
    rw [perform_cons, marks, ← List.append_assoc]
    exact ih (reflects_apply h operation)

/-- After a history the log tells its owner of the writes that were refused. -/
structure LogsRefusals (machine : Machine) (history : List Operation) : Prop where
  /-- All refused writes since the last reset are counted. -/
  count_eq : (machine.perform history).cpu.faults.count =
    min (faults (sinceReset (machine.marks history))).length FaultLog.maxCount
  /-- The oldest ones since the last drain are retained. -/
  retained_eq : (machine.perform history).cpu.faults.retained =
    (faults (sinceDrain (machine.marks history))).take FaultLog.capacity
  /-- A drain hands out the log and empties it, and leaves everything else. -/
  takeFaults_eq : let now := machine.perform history
    now.takeFaults.1 = (faults (sinceDrain (machine.marks history))).take FaultLog.capacity ∧
      now.takeFaults.2 =
        { now with cpu := { now.cpu with faults := { now.cpu.faults with retained := [] } } }
  /-- A write of the owner's, refused or not, leaves no mark and no trace in the log. -/
  write : ∀ a v, machine.marks (history ++ [.write a v]) = machine.marks history ∧
    (machine.perform (history ++ [.write a v])).cpu = (machine.perform history).cpu
  /-- The log is bounded. -/
  length_le : (machine.perform history).cpu.faults.retained.length ≤ 256
  /-- No more is retained than is counted. -/
  length_le_count : (machine.perform history).cpu.faults.retained.length ≤
    (machine.perform history).cpu.faults.count
  /-- If all refused writes found room, the lists that were handed out since the last reset and what
  is retained are all refused writes since then, each once and in their order. -/
  lossless : FindRoom (machine.marks history) →
    (handedOut (sinceReset (machine.marks history))).flatten ++
        (machine.perform history).cpu.faults.retained =
      faults (sinceReset (machine.marks history))

/-- Whatever its owner does to a machine that begins with an empty log, the log tells of the writes
that were refused. -/
theorem logsRefusals (h : machine.cpu.faults = {}) (history : List Operation) :
    machine.LogsRefusals history := by
  have hempty : machine.cpu.faults.Reflects [] := h ▸ .empty
  have hreflects : (machine.perform history).cpu.faults.Reflects (machine.marks history) :=
    reflects_perform hempty history
  constructor
  case count_eq => exact hreflects.count_eq
  case retained_eq => exact hreflects.retained_eq
  case takeFaults_eq => exact ⟨hreflects.retained_eq, rfl⟩
  case write =>
    intro a v
    constructor
    · rw [marks_append]
      exact List.append_nil _
    · rw [perform_append]
      rfl
  case length_le => exact hreflects.length_retained_le
  case length_le_count => exact hreflects.length_retained_le_count
  case lossless => exact hreflects.lossless

/-- A push across the boundary of the read-only memory is made, the owner tries to write there too,
and takes the log. -/
def pushAndDrain : List Operation :=
  [.write 0x10 0xe5, .edit fun r ↦ { r with pc := 0x10, sp := 0x11, h := 0x12, l := 0x34 }, .step,
    .write 0x0f 0x77, .takeFaults]

theorem logsRefusals_pushAndDrain :
    let machine := ofConfig { romEnd := 0x10, ramEnd := 0x20 }
    machine.cpu.faults = {} ∧ machine.LogsRefusals pushAndDrain ∧
    machine.marks pushAndDrain =
      [.refused ⟨.readOnly, 0x0f, 0x34⟩, .drained [⟨.readOnly, 0x0f, 0x34⟩]] ∧
    FindRoom (machine.marks pushAndDrain) := by
  intro machine
  have hmarks : machine.marks pushAndDrain =
      [.refused ⟨.readOnly, 0x0f, 0x34⟩, .drained [⟨.readOnly, 0x0f, 0x34⟩]] := by
    decide +kernel
  refine ⟨rfl, logsRefusals rfl pushAndDrain, hmarks, .of_length_le ?_⟩
  rw [hmarks]
  decide

end Machine

end Intel8080
