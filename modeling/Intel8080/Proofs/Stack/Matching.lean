import Intel8080.Proofs.Machine.Trace
import Intel8080.Proofs.Stack.Action

/-!
# Which step pushed a word

The stack that the steps of a run build up, and the step to which the word on top is owed: the last
one before which the stack was lower. Main statements: `existsUnique_matches`, there is exactly one
such step whenever the stack is not empty, and `stackAfter_of_matches`, unless the word has been
exchanged it is the one which that step pushed.
-/

namespace Intel8080

/-- Only a push makes a stack higher, if what uses the top finds one. -/
theorem StackAction.exists_eq_push {action : StackAction} {words : List UInt16}
    (htop : action.usesTop = true → words ≠ [])
    (hlength : words.length < (action.apply words).length) : ∃ w, action = .push w := by
  cases action with
  | none => exact absurd hlength (Nat.lt_irrefl _)
  | push w => exact ⟨w, rfl⟩
  | pop =>
    rw [apply, List.length_tail] at hlength
    omega
  | exchange w =>
    cases words with
    | nil => exact absurd rfl (htop rfl)
    | cons top words => exact absurd hlength (Nat.lt_irrefl _)

namespace Machine

variable (machine : Machine)

def stackAction : StackAction := machine.instruction.stackAction machine.past

/-- The stack after a number of steps, empty at first. -/
def stackAfter (machine : Machine) : Nat → List UInt16
  | 0 => []
  | n + 1 => (machine.after n).stackAction.apply (machine.stackAfter n)

def depthAfter (n : Nat) : Nat := (machine.stackAfter n).length

/-- The word on top after `k` steps is owed to step `j`: it pushed a word right on top of which
nothing lies, and the stack has not been lower since. -/
structure Matches (j k : Nat) : Prop where
  lt : j < k
  pushed : ∃ w, (machine.after j).stackAction = .push w
  above : ∀ i, j < i → i ≤ k → machine.depthAfter j < machine.depthAfter i
  top : machine.depthAfter k = machine.depthAfter j + 1

/-- No step between has exchanged the word that step `j` pushed. -/
def Untouched (j k : Nat) : Prop :=
  ∀ i, j < i → i < k → machine.depthAfter i = machine.depthAfter j + 1 →
    ∀ w, (machine.after i).stackAction ≠ .exchange w

variable {machine}

/-- Every level of the stack is owed to a step after which the stack has been higher. -/
theorem exists_pushed {k : Nat}
    (htop : ∀ i < k, (machine.after i).stackAction.usesTop = true → machine.stackAfter i ≠ [])
    {level : Nat} (hlevel : level < machine.depthAfter k) :
    ∃ j < k, (∃ w, (machine.after j).stackAction = .push w) ∧ machine.depthAfter j = level ∧
      ∀ i, j < i → i ≤ k → level < machine.depthAfter i := by
  induction k with
  | zero => exact absurd hlevel (Nat.not_lt_zero _)
  | succ k ih =>
    by_cases hbefore : level < machine.depthAfter k
    · obtain ⟨j, hj, hpush, hdepth, habove⟩ :=
        ih (fun i hi ↦ htop i (Nat.lt_succ_of_lt hi)) hbefore
      refine ⟨j, Nat.lt_succ_of_lt hj, hpush, hdepth, fun i hji hik ↦ ?_⟩
      rcases Nat.le_succ_iff.1 hik with hik | rfl
      · exact habove i hji hik
      · exact hlevel
    · -- the stack has just become higher than the level, so this step has pushed
      have hhigher : machine.depthAfter k < machine.depthAfter (k + 1) :=
        Nat.lt_of_le_of_lt (Nat.le_of_not_lt hbefore) hlevel
      obtain ⟨w, hpush⟩ := StackAction.exists_eq_push (htop k k.lt_succ_self) hhigher
      have hdepth : machine.depthAfter (k + 1) = machine.depthAfter k + 1 := by
        rw [depthAfter, stackAfter, hpush]
        rfl
      refine ⟨k, k.lt_succ_self, ⟨w, hpush⟩, by omega, fun i hki hik ↦ ?_⟩
      rwa [Nat.le_antisymm hik hki]

/-- A word that is taken from the stack was pushed by one step only. -/
theorem Matches.unique {j j' k : Nat} (h : machine.Matches j k) (h' : machine.Matches j' k) :
    j = j' := by
  have hdepth : machine.depthAfter j = machine.depthAfter j' :=
    Nat.succ.inj (h.top.symm.trans h'.top)
  rcases Nat.lt_trichotomy j j' with hlt | heq | hlt
  · exact absurd hdepth (Nat.ne_of_lt (h.above j' hlt (Nat.le_of_lt h'.lt)))
  · exact heq
  · exact absurd hdepth (Nat.ne_of_gt (h'.above j hlt (Nat.le_of_lt h.lt)))

/-- The word on top of a stack is owed to exactly one step. -/
theorem existsUnique_matches {k : Nat}
    (htop : ∀ i < k, (machine.after i).stackAction.usesTop = true → machine.stackAfter i ≠ [])
    (hk : machine.stackAfter k ≠ []) :
    ∃ j, machine.Matches j k ∧ ∀ j', machine.Matches j' k → j' = j := by
  have hpos : 0 < machine.depthAfter k := List.length_pos_iff.2 hk
  obtain ⟨j, hj, hpush, hdepth, habove⟩ := exists_pushed htop (Nat.sub_one_lt_of_lt hpos)
  have hmatches : machine.Matches j k := by
    refine ⟨hj, hpush, fun i hji hik ↦ hdepth ▸ habove i hji hik, ?_⟩
    omega
  exact ⟨j, hmatches, fun j' h' ↦ h'.unique hmatches⟩

/-- What step `j` pushed lies on the stack as it was before, with words above it that later steps
pushed. -/
theorem stackAfter_eq_append {j k : Nat} {w : UInt16} (h : machine.Matches j k)
    (huntouched : machine.Untouched j k) (hpush : (machine.after j).stackAction = .push w)
    (e : Nat) (he : j + 1 + e ≤ k) :
    ∃ later, machine.stackAfter (j + 1 + e) = later ++ w :: machine.stackAfter j := by
  induction e with
  | zero =>
    refine ⟨[], ?_⟩
    rw [Nat.add_zero, stackAfter, hpush]
    rfl
  | succ e ih =>
    obtain ⟨later, hlater⟩ := ih (Nat.le_of_succ_le he)
    have hstack : machine.stackAfter (j + 1 + (e + 1)) =
        (machine.after (j + 1 + e)).stackAction.apply (later ++ w :: machine.stackAfter j) := by
      rw [← hlater]
      rfl
    cases haction : (machine.after (j + 1 + e)).stackAction with
    | none => exact ⟨later, by rw [hstack, haction]; rfl⟩
    | push v => exact ⟨v :: later, by rw [hstack, haction]; rfl⟩
    | pop =>
      cases later with
      | nil =>
        have habove := h.above (j + 1 + (e + 1)) (by omega) he
        rw [depthAfter, depthAfter, hstack, haction] at habove
        exact absurd habove (Nat.lt_irrefl _)
      | cons v later => exact ⟨later, by rw [hstack, haction]; rfl⟩
    | exchange v =>
      cases later with
      | nil =>
        refine absurd haction (huntouched _ (by omega) (by omega) ?_ v)
        rw [depthAfter, hlater]
        rfl
      | cons u later => exact ⟨v :: later, by rw [hstack, haction]; rfl⟩

/-- The word on top is the one pushed by the step to which it is owed, unless it was exchanged. -/
theorem stackAfter_of_matches {j k : Nat} {w : UInt16} (h : machine.Matches j k)
    (huntouched : machine.Untouched j k) (hpush : (machine.after j).stackAction = .push w) :
    machine.stackAfter k = w :: machine.stackAfter j := by
  obtain ⟨e, rfl⟩ := Nat.exists_eq_add_of_le h.lt
  obtain ⟨later, hlater⟩ := stackAfter_eq_append h huntouched hpush e (Nat.le_refl _)
  have htop := h.top
  rw [depthAfter, depthAfter, Nat.succ_eq_add_one, hlater, List.length_append, List.length_cons]
    at htop
  obtain rfl : later = [] := List.length_eq_zero_iff.1 (by omega)
  exact hlater

end Machine

end Intel8080
