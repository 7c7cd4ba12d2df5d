import Intel8080.Machine.Basic

/-!
# Runs

Steps one after the other, counted and timed, until a budget is used up or a step cannot be made.
Main statement: `resume_add`, a run of `m + n` steps is a run of `m` steps that is continued for
`n` more unless it has stopped.
-/

namespace Intel8080

/-- What a run has done: the steps made, their cycles, and what stopped it if anything did. -/
structure RunReport where
  steps : Nat := 0
  cycles : Nat := 0
  error : Option StepError := none
deriving DecidableEq, Repr, Inhabited

namespace RunReport

def maxCycles : Nat := UInt64.size - 1

def count (report : RunReport) (cycles : Nat) : RunReport :=
  { report with steps := report.steps + 1, cycles := min (report.cycles + cycles) maxCycles }

def stop (report : RunReport) (error : StepError) : RunReport := { report with error := some error }

end RunReport

/-- A run under way: the machine as it is, the report so far, and what was shown of the events, the
latest first. -/
structure Progress where
  machine : Machine
  report : RunReport := {}
  shown : List Event := []
deriving Inhabited

namespace Progress

def stopped (progress : Progress) : Bool := progress.report.error.isSome

def advance (verbosity : Verbosity) (progress : Progress) : Progress :=
  match progress with
  | ⟨machine, report, shown⟩ =>
    match machine.step with
    | ⟨.ok cycles, machine, events⟩ =>
      ⟨machine, report.count cycles, (Event.shown verbosity events).reverse ++ shown⟩
    | ⟨.error e, machine, events⟩ =>
      ⟨machine, report.stop e, (Event.shown verbosity events).reverse ++ shown⟩

/-- At most the given number of further steps, as long as they can be made. -/
def resume (verbosity : Verbosity) : Nat → Progress → Progress
  | 0, progress => progress
  | n + 1, progress =>
    let next := progress.advance verbosity
    if next.stopped then next else next.resume verbosity n

variable (verbosity : Verbosity) (progress : Progress)

@[simp] theorem resume_zero : progress.resume verbosity 0 = progress := rfl

/-- A run ends at the first step that cannot be made. -/
theorem resume_succ_of_stopped (h : (progress.advance verbosity).stopped = true) (n : Nat) :
    progress.resume verbosity (n + 1) = progress.advance verbosity := by
  simp [resume, h]

/-- As long as steps can be made, the first one is made before the others. -/
theorem resume_succ (h : (progress.advance verbosity).stopped = false) (n : Nat) :
    progress.resume verbosity (n + 1) =
      (progress.advance verbosity).resume verbosity n := by
  simp [resume, h]

/-- A run of `m + n` steps is a run of `m` steps that is continued for `n` more unless it has
stopped. -/
theorem resume_add (h : progress.stopped = false) (m n : Nat) :
    progress.resume verbosity (m + n) =
      if (progress.resume verbosity m).stopped then progress.resume verbosity m
      else (progress.resume verbosity m).resume verbosity n := by
  induction m generalizing progress with
  | zero => simp [h]
  | succ m ih =>
    rw [Nat.add_right_comm]
    cases hs : (progress.advance verbosity).stopped
    · rw [resume_succ _ _ hs, resume_succ _ _ hs, ih _ hs]
    · rw [resume_succ_of_stopped _ _ hs, resume_succ_of_stopped _ _ hs, if_pos hs]

end Progress

/-- Runs at most `budget` steps and tells how it went; of the events those are kept that the
verbosity shows. -/
def Machine.run (verbosity : Verbosity) (budget : Nat) (machine : Machine) :
    Outcome RunReport Machine :=
  match Progress.resume verbosity budget ⟨machine, {}, []⟩ with
  | ⟨machine, report, shown⟩ => ⟨report, machine, shown.reverse⟩

end Intel8080
