import Intel8080.Proofs.Stack.Matching

/-!
# The stack of a run

A run that keeps to the discipline of a stack has one: a list of words that grows and shrinks as
its instructions say, held by the memory below the stack pointer that the run began with. Main
statements: `holds_next`, one step carries the list on, and `followsStack`, the stack pointer and
the memory follow the list through a run, and whatever is taken off the stack is what the list says
it is.
-/

namespace Intel8080

namespace StackAction

variable {action : StackAction} {words : List UInt16} {s : UInt16} {d : Nat}

/-- The pointer moves with the depth, as long as nothing is taken from an empty stack. -/
theorem pointer_pointerAt (htop : action.usesTop = true → words ≠ []) :
    action.pointer (pointerAt s words.length) = pointerAt s (action.apply words).length := by
  cases action with
  | none => rfl
  | push w => exact (pointerAt_succ s words.length).symm
  | pop =>
    cases words with
    | nil => exact absurd rfl (htop rfl)
    | cons w words => exact pointerAt_succ_add_two s words.length
  | exchange w =>
    cases words with
    | nil => exact absurd rfl (htop rfl)
    | cons top words => rfl

/-- The bytes of a word on top of a stack lie in a region that is deep enough for the stack. -/
theorem below_of_mem_bytes_word {a w : UInt16} {v : UInt8} {depth : Nat} (hpos : 0 < depth)
    (hdepth : depth ≤ d) (h : (a, v) ∈ (Location.word (pointerAt s depth)).bytes w) :
    Below s d a := by
  rcases List.mem_cons.1 h with h | h
  · obtain ⟨rfl, -⟩ := Prod.mk.inj h
    simpa using below_of_lt (i := 0) hdepth (by omega)
  · obtain ⟨rfl, -⟩ := Prod.mk.inj (List.mem_singleton.1 h)
    exact below_of_lt (i := 1) hdepth (by omega)

/-- What an action stores, it stores in a region that is deep enough for the stack after it. -/
theorem below_of_mem_bytes {a : UInt16} {v : UInt8} (htop : action.usesTop = true → words ≠ [])
    (hdepth : (action.apply words).length ≤ d)
    (h : (a, v) ∈ action.bytes (pointerAt s words.length)) : Below s d a := by
  cases action with
  | none => cases h
  | push w =>
    rw [bytes, ← pointerAt_succ] at h
    exact below_of_mem_bytes_word (Nat.succ_pos _) hdepth h
  | pop => cases h
  | exchange w =>
    cases words with
    | nil => exact absurd rfl (htop rfl)
    | cons top words => exact below_of_mem_bytes_word (Nat.succ_pos _) hdepth h

end StackAction

namespace Machine

variable {machine : Machine} {s : UInt16} {d : Nat} {words : List UInt16}

/-- A step moves the stack pointer as its action on the stack says. -/
theorem sp_next (hsteps : machine.steps = true)
    (hfixed : machine.instruction.movesPointer = false) :
    machine.next.cpu.sp = machine.stackAction.pointer machine.cpu.sp := by
  rw [toRegisters_next hsteps]
  exact Instruction.sp_execute hfixed

/-- A step stores what its action on the stack does, if it is not made for storing data. -/
theorem stores_eq_bytes (hsteps : machine.steps = true)
    (hdata : machine.instruction.storesData = false) :
    machine.cpu.stores machine.memory = machine.stackAction.bytes machine.cpu.sp :=
  (stores_of_steps hsteps).trans (Instruction.stores_eq_bytes hdata)

/-- One step carries the stack on. -/
theorem holds_next (hsteps : machine.steps = true) (hroom : d ≤ 0x8000)
    (hram : ∀ a, Below s d a → machine.memory.map.region a = .ram)
    (hfixed : machine.instruction.movesPointer = false)
    (htop : machine.stackAction.usesTop = true → words ≠ [])
    (hapart : machine.instruction.storesData = true →
      ∀ store ∈ machine.cpu.stores machine.memory, ¬ Below s d store.1)
    (hdepth : words.length ≤ d) (hdepth' : (machine.stackAction.apply words).length ≤ d)
    (hsp : machine.cpu.sp = pointerAt s words.length)
    (hholds : machine.memory.Holds machine.cpu.sp words) :
    machine.next.cpu.sp = pointerAt s (machine.stackAction.apply words).length ∧
      machine.next.memory.Holds machine.next.cpu.sp (machine.stackAction.apply words) := by
  have hpointer := sp_next hsteps hfixed
  refine ⟨?_, hpointer ▸ hholds.act (Nat.le_trans hdepth' hroom) htop ?_ ?_⟩
  · rw [hpointer, hsp, StackAction.pointer_pointerAt htop]
  · intro a v hv
    cases hdata : machine.instruction.storesData with
    | true =>
      rw [stackAction, Instruction.stackAction_of_storesData hdata] at hv
      cases hv
    | false =>
      refine Cpu.read_step_of_mem (stores_eq_bytes hsteps hdata ▸ hv) (hram a ?_)
      exact StackAction.below_of_mem_bytes htop hdepth' (hsp ▸ hv)
  · intro i hi hne
    refine Cpu.read_step_of_forall_ne fun _ store hstore heq ↦ ?_
    cases hdata : machine.instruction.storesData with
    | true => exact hapart hdata store hstore (heq ▸ hsp ▸ below_of_lt hdepth hi)
    | false => exact hne store (stores_eq_bytes hsteps hdata ▸ hstore) heq

/-! ## What is taken off the stack -/

section Top

variable {w : UInt16} (hsteps : machine.steps = true)
  (hholds : machine.memory.Holds machine.cpu.sp (w :: words))

include hsteps hholds

/-- A pop sets its pair to the word on top. -/
theorem registers_of_pop {p : StackPair} (h : machine.instruction = .pop p) :
    machine.next.cpu.toRegisters = machine.past.dropWord.setStackPair p w := by
  rw [toRegisters_next hsteps, effect_eq h, past_eq h, ← hholds.wordOf_eq]
  rfl

/-- A return goes to the word on top. -/
theorem pc_of_ret {condition : Option Condition} (h : machine.instruction = .ret condition)
    (htaken : machine.past.taken condition = true) : machine.next.cpu.pc = w := by
  rw [past_eq h] at htaken
  rw [toRegisters_next hsteps, effect_eq h, ← hholds.wordOf_eq]
  simp only [Instruction.execute, Instruction.source, htaken, if_true,
    Location.load_word_memory]
  rfl

/-- An exchange sets HL to the word on top. -/
theorem hl_of_xthl (h : machine.instruction = .xthl) : machine.next.cpu.hl = w := by
  rw [toRegisters_next hsteps, effect_eq h, ← hholds.wordOf_eq]
  exact Registers.hl_setHl ..

end Top

theorem usesTop_of_pop {p : StackPair} (h : machine.instruction = .pop p) :
    machine.stackAction.usesTop = true := by
  rw [stackAction, h]
  rfl

theorem usesTop_of_ret {condition : Option Condition} (h : machine.instruction = .ret condition)
    (htaken : machine.past.taken condition = true) : machine.stackAction.usesTop = true := by
  rw [stackAction, h, Instruction.stackAction, if_pos htaken]
  rfl

theorem usesTop_of_xthl (h : machine.instruction = .xthl) :
    machine.stackAction.usesTop = true := by
  rw [stackAction, h]
  rfl

/-! ## What is put on the stack -/

/-- A call pushes the address of the instruction after it. -/
theorem eq_of_call {condition : Option Condition} {w : UInt16}
    (h : machine.instruction = .call condition) (hpush : machine.stackAction = .push w) :
    w = machine.cpu.pc + 3 := by
  have hpc : machine.past.pc = machine.cpu.pc + 3 := by
    rw [past_eq h]
    exact UInt16.add_assoc ..
  rw [stackAction, h, Instruction.stackAction] at hpush
  split at hpush
  · rw [← hpc, StackAction.push.inj hpush]
  · cases hpush

/-- A restart pushes the address behind it. -/
theorem eq_of_rst {vector : Fin 8} {w : UInt16} (h : machine.instruction = .rst vector)
    (hpush : machine.stackAction = .push w) : w = machine.cpu.pc + 1 := by
  rw [stackAction, h, past_eq h] at hpush
  rw [← StackAction.push.inj hpush]
  exact UInt16.add_zero _

theorem eq_of_push_psw {w : UInt16} (h : machine.instruction = .push .psw)
    (hpush : machine.stackAction = .push w) : w = machine.cpu.psw := by
  rw [stackAction, h, past_eq h] at hpush
  exact (StackAction.push.inj hpush).symm

/-! ## Runs -/

variable (machine : Machine)

/-- The first `n` steps keep to the discipline of a stack of at most `d` words below the stack
pointer. -/
structure KeepsStack (d n : Nat) : Prop where
  /-- The memory below the stack pointer can be written. -/
  ram : ∀ a, Below machine.cpu.sp d a → machine.memory.map.region a = .ram
  depth_le : ∀ k ≤ n, machine.depthAfter k ≤ d
  /-- The stack pointer moves with the stack only. -/
  fixed : ∀ k < n, (machine.after k).instruction.movesPointer = false
  /-- What uses the top of the stack finds one. -/
  top : ∀ k < n, (machine.after k).stackAction.usesTop = true → machine.stackAfter k ≠ []
  /-- Data are stored elsewhere. -/
  apart : ∀ k < n, (machine.after k).instruction.storesData = true →
    ∀ store ∈ (machine.after k).cpu.stores (machine.after k).memory,
      ¬ Below machine.cpu.sp d store.1

/-- The stack pointer and the memory follow the stack for `n` steps. -/
structure FollowsStack (n : Nat) : Prop where
  /-- The stack pointer is as far down as the stack is high. -/
  sp_eq : ∀ k ≤ n, (machine.after k).cpu.sp = pointerAt machine.cpu.sp (machine.depthAfter k)
  /-- The memory holds the stack. -/
  holds : ∀ k ≤ n, (machine.after k).memory.Holds (machine.after k).cpu.sp (machine.stackAfter k)
  /-- A pop takes the word on top. -/
  popped : ∀ k < n, ∀ p, (machine.after k).instruction = .pop p →
    ∃ w words, machine.stackAfter k = w :: words ∧
      (machine.after (k + 1)).cpu.toRegisters = (machine.after k).past.dropWord.setStackPair p w
  /-- A return goes to the word on top. -/
  returned : ∀ k < n, ∀ condition, (machine.after k).instruction = .ret condition →
    (machine.after k).past.taken condition = true →
      ∃ w words, machine.stackAfter k = w :: words ∧ (machine.after (k + 1)).cpu.pc = w
  /-- An exchange takes the word on top. -/
  exchanged : ∀ k < n, (machine.after k).instruction = .xthl →
    ∃ w words, machine.stackAfter k = w :: words ∧ (machine.after (k + 1)).cpu.hl = w
  /-- What is on top is owed to exactly one step. -/
  owed : ∀ k ≤ n, machine.stackAfter k ≠ [] →
    ∃ j, machine.Matches j k ∧ ∀ j', machine.Matches j' k → j' = j
  /-- A return goes to the instruction after the call that it matches. -/
  returned_call : ∀ k < n, ∀ condition, (machine.after k).instruction = .ret condition →
    (machine.after k).past.taken condition = true →
      ∀ j, machine.Matches j k → machine.Untouched j k →
        (∀ c, (machine.after j).instruction = .call c →
          (machine.after (k + 1)).cpu.pc = (machine.after j).cpu.pc + 3) ∧
        (∀ v, (machine.after j).instruction = .rst v →
          (machine.after (k + 1)).cpu.pc = (machine.after j).cpu.pc + 1)
  /-- A pop of the status word restores what the push that it matches has saved. -/
  restored_psw : ∀ k < n, (machine.after k).instruction = .pop .psw →
    ∀ j, machine.Matches j k → machine.Untouched j k → (machine.after j).instruction = .push .psw →
      (machine.after (k + 1)).cpu.a = (machine.after j).cpu.a ∧
      (machine.after (k + 1)).cpu.flags = (machine.after j).cpu.flags

variable {machine} {n : Nat}

/-- As long as the discipline is kept, the stack pointer and the memory follow the stack. -/
theorem holds_after (hgoes : machine.Goes n) (hroom : d ≤ 0x8000) (h : machine.KeepsStack d n)
    (k : Nat) (hk : k ≤ n) :
    (machine.after k).cpu.sp = pointerAt machine.cpu.sp (machine.depthAfter k) ∧
      (machine.after k).memory.Holds (machine.after k).cpu.sp (machine.stackAfter k) := by
  induction k with
  | zero => exact ⟨(pointerAt_zero _).symm, trivial⟩
  | succ k ih =>
    obtain ⟨hsp, hholds⟩ := ih (Nat.le_of_succ_le hk)
    rw [after_succ]
    refine holds_next (hgoes k hk) hroom (fun a ha ↦ ?_) (h.fixed k hk) (h.top k hk) (h.apart k hk)
      (h.depth_le k (Nat.le_of_succ_le hk)) (h.depth_le (k + 1) hk) hsp hholds
    rw [map_after]
    exact h.ram a ha

/-- Before each step of a run that keeps the discipline the step can be made, and the memory holds
the stack. -/
theorem steps_and_holds {verbosity : Verbosity}
    (hrun : (machine.run verbosity n).answer.error = none) (hroom : d ≤ 0x8000)
    (h : machine.KeepsStack d n) {k : Nat} (hk : k < n) (hwords : machine.stackAfter k = words) :
    (machine.after k).steps = true ∧
      (machine.after k).memory.Holds (machine.after k).cpu.sp words := by
  have hgoes := (error_run_eq_none_iff verbosity).1 hrun
  obtain ⟨-, hholds⟩ := holds_after hgoes hroom h k (Nat.le_of_lt hk)
  exact ⟨hgoes k hk, hwords ▸ hholds⟩

/-- Where the top of the stack is used there is one. -/
theorem exists_top (h : machine.KeepsStack d n) {k : Nat} (hk : k < n)
    (htop : (machine.after k).stackAction.usesTop = true) :
    ∃ w words, machine.stackAfter k = w :: words :=
  List.exists_cons_of_ne_nil (h.top k hk htop)

/-- A run that keeps to the discipline of a stack has one, and what it takes off the stack is what
it has put there. -/
theorem followsStack {verbosity : Verbosity}
    (hrun : (machine.run verbosity n).answer.error = none) (hroom : d ≤ 0x8000)
    (h : machine.KeepsStack d n) : machine.FollowsStack n where
  sp_eq k hk := (holds_after ((error_run_eq_none_iff verbosity).1 hrun) hroom h k hk).1
  holds k hk := (holds_after ((error_run_eq_none_iff verbosity).1 hrun) hroom h k hk).2
  popped k hk p hpop := by
    obtain ⟨w, words, htop⟩ := exists_top h hk (usesTop_of_pop hpop)
    obtain ⟨hsteps, hholds⟩ := steps_and_holds hrun hroom h hk htop
    refine ⟨w, words, htop, ?_⟩
    rw [after_succ]
    exact registers_of_pop hsteps hholds hpop
  returned k hk condition hret htaken := by
    obtain ⟨w, words, htop⟩ := exists_top h hk (usesTop_of_ret hret htaken)
    obtain ⟨hsteps, hholds⟩ := steps_and_holds hrun hroom h hk htop
    refine ⟨w, words, htop, ?_⟩
    rw [after_succ]
    exact pc_of_ret hsteps hholds hret htaken
  exchanged k hk hxthl := by
    obtain ⟨w, words, htop⟩ := exists_top h hk (usesTop_of_xthl hxthl)
    obtain ⟨hsteps, hholds⟩ := steps_and_holds hrun hroom h hk htop
    refine ⟨w, words, htop, ?_⟩
    rw [after_succ]
    exact hl_of_xthl hsteps hholds hxthl
  owed k hk := existsUnique_matches fun i hi ↦ h.top i (Nat.lt_of_lt_of_le hi hk)
  returned_call k hk condition hret htaken j hmatches huntouched := by
    obtain ⟨w, hpush⟩ := hmatches.pushed
    have htop := stackAfter_of_matches hmatches huntouched hpush
    obtain ⟨hsteps, hholds⟩ := steps_and_holds hrun hroom h hk htop
    rw [after_succ, pc_of_ret hsteps hholds hret htaken]
    exact ⟨fun c hcall ↦ eq_of_call hcall hpush, fun v hrst ↦ eq_of_rst hrst hpush⟩
  restored_psw k hk hpop j hmatches huntouched hpsw := by
    obtain ⟨w, hpush⟩ := hmatches.pushed
    have htop := stackAfter_of_matches hmatches huntouched hpush
    obtain ⟨hsteps, hholds⟩ := steps_and_holds hrun hroom h hk htop
    rw [after_succ, registers_of_pop hsteps hholds hpop, eq_of_push_psw hpsw hpush]
    simp [Registers.setStackPair, Registers.setPsw, Registers.psw]

/-- A call of a routine that saves and restores the accumulator and the flags. -/
def callAndReturn : Machine where
  cpu := { sp := 0x20 }
  memory := (((((Memory.zeroed .flat).set 0 0xcd).set 1 4).set 4 0xf5).set 5 0xf1).set 6 0xc9
  config := {}

theorem followsStack_callAndReturn :
    (callAndReturn.run none 4).answer.error = none ∧ callAndReturn.KeepsStack 2 4 ∧
      callAndReturn.FollowsStack 4 := by
  have hgoes : callAndReturn.Goes 4 := by
    change ∀ k < 4, _
    decide +kernel
  have hrun := (error_run_eq_none_iff none).2 hgoes
  have hdata : ∀ k < 4, (callAndReturn.after k).instruction.storesData = false := by decide +kernel
  have hkeeps : callAndReturn.KeepsStack 2 4 := {
    ram := fun a _ ↦ MemoryMap.region_eq_ram_iff.2 ⟨Nat.zero_le _, a.toNat_lt⟩
    depth_le := by decide +kernel
    fixed := by decide +kernel
    top := by decide +kernel
    apart := fun k hk h ↦ by rw [hdata k hk] at h; cases h }
  exact ⟨hrun, hkeeps, followsStack hrun (by decide) hkeeps⟩

end Machine

end Intel8080
