import Intel8080.Memory.Map

/-!
# The log of refused writes

The processor goes on after a refused write and keeps a note of it. The oldest notes since the last
drain are retained, up to a bound; all are counted. Main statements: `count_recordAll` and
`retained_recordAll`, what a log holds after any number of faults.
-/

namespace Intel8080

/-- The refused writes that are retained, oldest first, and the number of all of them. -/
structure FaultLog where
  retained : List WriteFault := []
  count : Nat := 0
deriving DecidableEq, Repr, Inhabited

namespace FaultLog

/-- The greatest number of faults that are retained. -/
def capacity : Nat := 256

def maxCount : Nat := UInt64.size - 1

/-- Counts a fault, and retains it if there is room. -/
def record (log : FaultLog) (fault : WriteFault) : FaultLog where
  retained := if log.retained.length < capacity then log.retained ++ [fault] else log.retained
  count := min (log.count + 1) maxCount

def recordAll (log : FaultLog) (faults : List WriteFault) : FaultLog := faults.foldl record log

/-- Empties the log without forgetting the count. -/
def drain (log : FaultLog) : FaultLog := { log with retained := [] }

variable (log : FaultLog) (faults : List WriteFault)

@[simp] theorem recordAll_nil : log.recordAll [] = log := rfl

@[simp] theorem recordAll_cons (fault : WriteFault) :
    log.recordAll (fault :: faults) = (log.record fault).recordAll faults := rfl

@[simp] theorem recordAll_append (later : List WriteFault) :
    log.recordAll (faults ++ later) = (log.recordAll faults).recordAll later := by
  simp [recordAll]

@[simp] theorem count_drain : log.drain.count = log.count := rfl

@[simp] theorem retained_drain : log.drain.retained = [] := rfl

/-- A log within its bound retains a fault if there is room. -/
theorem retained_record (h : log.retained.length ≤ capacity) (fault : WriteFault) :
    (log.record fault).retained = (log.retained ++ [fault]).take capacity := by
  unfold record
  split
  · rw [List.take_of_length_le (by simp; omega)]
  · rw [List.take_append_of_le_length (by omega), List.take_of_length_le h]

/-- No fault is retained beyond the room there is. -/
theorem length_retained_record (h : log.retained.length ≤ capacity) (fault : WriteFault) :
    (log.record fault).retained.length ≤ capacity := by
  rw [retained_record log h, List.length_take]
  exact Nat.min_le_left _ _

/-- Of the faults recorded since a log was within its bound, the oldest that find room are
retained. -/
theorem retained_recordAll (h : log.retained.length ≤ capacity) :
    (log.recordAll faults).retained = (log.retained ++ faults).take capacity := by
  induction faults generalizing log with
  | nil => simp [List.take_of_length_le h]
  | cons fault faults ih =>
    rw [recordAll_cons, ih _ (length_retained_record log h fault), retained_record log h]
    rcases Nat.lt_or_ge log.retained.length capacity with hl | hl
    · rw [List.take_of_length_le (l := log.retained ++ [fault]) (by simp; omega)]
      simp
    · rw [List.take_append_of_le_length hl, List.take_append_of_le_length (by simp; omega),
        List.take_append_of_le_length hl, List.take_take, Nat.min_self]

/-- Every fault is counted, up to the greatest count. -/
theorem count_recordAll (h : log.count ≤ maxCount) :
    (log.recordAll faults).count = min (log.count + faults.length) maxCount := by
  induction faults generalizing log with
  | nil => simp [Nat.min_eq_left h]
  | cons fault faults ih =>
    rw [recordAll_cons, ih _ (Nat.min_le_right _ _)]
    simp only [record, List.length_cons]
    omega

end FaultLog

end Intel8080
