import Intel8080.Proofs.Cpu.Step
import Intel8080.Proofs.Reference.Basic

/-!
# The machine as numbers

The view of a processor and its memory as a state of the reference interpreter, and what the
interpreter's operations do in it: each is an operation of the processor in numbers. Main
statements: `of_inj`, the view loses nothing, `store_of` and `storeWord_of`, the guard and the log
of refused writes, and `set_of`, `setPair_of` and `setStackPair_of`, registers by their codes.
-/

namespace Intel8080

/-! ## Codes -/

def Register.code : Register → Nat
  | b => 0 | c => 1 | d => 2 | e => 3 | h => 4 | l => 5 | m => 6 | a => 7

def RegisterPair.code : RegisterPair → Nat
  | bc => 0 | de => 1 | hl => 2 | sp => 3

def StackPair.code : StackPair → Nat
  | bc => 0 | de => 1 | hl => 2 | psw => 3

def Condition.code : Condition → Nat
  | notZero => 0 | zero => 1 | noCarry => 2 | carry => 3
  | parityOdd => 4 | parityEven => 5 | plus => 6 | minus => 7

def AluOp.code : AluOp → Nat
  | add => 0 | adc => 1 | sub => 2 | sbb => 3 | ana => 4 | xra => 5 | ora => 6 | cmp => 7

/-- The code of a rotation among the accumulator's own operations. -/
def Rotation.code : Rotation → Nat
  | rlc => 0 | rrc => 1 | ral => 2 | rar => 3

namespace Reference

/-! ## Integers brought back to words -/

theorem byte_toNat_add (v w : UInt8) : byte (v.toNat + w.toNat) = (v + w).toNat := by
  rw [UInt8.toNat_add, byte]
  omega

/-- A difference of bytes wraps round like the difference of their numbers. -/
theorem byte_toNat_sub (v w : UInt8) : byte (v.toNat - w.toNat) = (v - w).toNat := by
  have := v.toNat_lt
  have := w.toNat_lt
  rw [UInt8.toNat_sub, byte]
  omega

theorem word_toNat_add (v w : UInt16) : word (v.toNat + w.toNat) = (v + w).toNat := by
  rw [UInt16.toNat_add, word]
  omega

theorem word_toNat_sub (v w : UInt16) : word (v.toNat - w.toNat) = (v - w).toNat := by
  have := v.toNat_lt
  have := w.toNat_lt
  rw [UInt16.toNat_sub, word]
  omega

theorem word_toNat_add_ofNat (v : UInt16) (n : Nat) :
    word (v.toNat + n) = (v + UInt16.ofNat n).toNat := by
  rw [UInt16.toNat_add, UInt16.toNat_ofNat', word]
  omega

namespace State

def refusalOf (fault : WriteFault) : Refusal :=
  ⟨fault.cause = .readOnly, fault.address.toNat, fault.value.toNat⟩

/-- A processor and its memory as numbers. -/
def of (cpu : Cpu) (memory : Memory) : State where
  a := cpu.a.toNat
  b := cpu.b.toNat
  c := cpu.c.toNat
  d := cpu.d.toNat
  e := cpu.e.toNat
  h := cpu.h.toNat
  l := cpu.l.toNat
  sp := cpu.sp.toNat
  pc := cpu.pc.toNat
  flags := cpu.flags
  interruptsEnabled := cpu.interruptsEnabled
  runsAliases := cpu.policy = .runAlias
  memory := fun i ↦ if i < 65536 then (memory.read (UInt16.ofNat i)).toNat else 0
  romEnd := memory.map.romEnd
  ramEnd := memory.map.ramEnd
  refusals := cpu.faults.retained.map refusalOf
  refusalCount := cpu.faults.count

/-- Refused writes are told apart by their numbers. -/
theorem refusalOf_injective : Function.Injective refusalOf := by
  rintro ⟨cause, a, v⟩ ⟨cause', a', v'⟩ h
  simp only [refusalOf, Refusal.mk.injEq, UInt16.toNat_inj, UInt8.toNat_inj] at h
  obtain ⟨hcause, rfl, rfl⟩ := h
  cases cause <;> cases cause' <;> simp_all

variable (cpu : Cpu) (memory : Memory)

/-! ## What the view shows -/

@[simp] theorem memory_of (a : UInt16) :
    (of cpu memory).memory a.toNat = (memory.read a).toNat := by
  have : a.toNat < 65536 := a.toNat_lt
  simp [of, this]

@[simp] theorem bc_of : (of cpu memory).bc = cpu.bc.toNat := (toNat_wordOf _ _).symm

@[simp] theorem de_of : (of cpu memory).de = cpu.de.toNat := (toNat_wordOf _ _).symm

@[simp] theorem hl_of : (of cpu memory).hl = cpu.hl.toNat := (toNat_wordOf _ _).symm

@[simp] theorem loadWord_of (a : UInt16) : (of cpu memory).loadWord a.toNat =
    (wordOf (memory.read (a + 1)) (memory.read a)).toNat := by
  have h : word (a.toNat + 1) = (a + 1).toNat := word_toNat_add a 1
  rw [loadWord, h, memory_of, memory_of, toNat_wordOf]

@[simp] theorem immediate_of :
    (of cpu memory).immediate = (memory.read (cpu.pc + 1)).toNat := by
  have h : word (cpu.pc.toNat + 1) = (cpu.pc + 1).toNat := word_toNat_add cpu.pc 1
  rw [immediate, ← memory_of cpu, ← h]
  rfl

@[simp] theorem immediateWord_of : (of cpu memory).immediateWord =
    (wordOf (memory.read (cpu.pc + 1 + 1)) (memory.read (cpu.pc + 1))).toNat := by
  have h : word (cpu.pc.toNat + 1) = (cpu.pc + 1).toNat := word_toNat_add cpu.pc 1
  rw [← loadWord_of cpu, ← h]
  rfl

@[simp] theorem top_of : (of cpu memory).top =
    (wordOf (memory.read (cpu.sp + 1)) (memory.read cpu.sp)).toNat := by
  rw [← loadWord_of cpu]
  rfl

@[simp] theorem skip_of (n : Nat) : (of cpu memory).skip n =
    of { cpu with pc := cpu.pc + UInt16.ofNat n } memory := by
  rw [skip]
  simp only [of, word_toNat_add_ofNat]

/-- The view loses nothing. -/
theorem of_inj {cpu' : Cpu} {memory' : Memory} :
    of cpu memory = of cpu' memory' ↔ cpu = cpu' ∧ memory = memory' := by
  refine ⟨fun h ↦ ?_, fun ⟨hcpu, hmemory⟩ ↦ hcpu ▸ hmemory ▸ rfl⟩
  have hbytes (a : UInt16) : memory.read a = memory'.read a := by
    rw [← UInt8.toNat_inj, ← memory_of cpu, ← memory_of cpu', h]
  obtain ⟨⟨a, b, c, d, e, hh, l, sp, pc, flags, ie⟩, policy, ⟨retained, count⟩⟩ := cpu
  obtain ⟨⟨a', b', c', d', e', hh', l', sp', pc', flags', ie'⟩, policy', ⟨retained', count'⟩⟩ :=
    cpu'
  simp only [of, mk.injEq, UInt8.toNat_inj, UInt16.toNat_inj,
    List.map_inj_right fun _ _ h ↦ refusalOf_injective h] at h
  obtain ⟨rfl, rfl, rfl, rfl, rfl, rfl, rfl, rfl, rfl, rfl, rfl, hpolicy, -, hrom, hram, rfl,
    rfl⟩ := h
  refine ⟨?_, Memory.ext hbytes ?_⟩
  · cases policy <;> cases policy' <;> simp_all
  · cases hm : memory.map
    cases hm' : memory'.map
    simp_all

/-! ## Storing -/

/-- A changed byte as numbers. -/
theorem of_set (a : UInt16) (v : UInt8) : of cpu (memory.set a v) =
    { of cpu memory with
      memory := fun i ↦ if i = a.toNat then v.toNat else (of cpu memory).memory i } := by
  simp only [of, Memory.map_set, mk.injEq, true_and, and_true]
  funext i
  by_cases hi : i < 65536
  · have hb : (UInt16.ofNat i).toNat = i := UInt16.toNat_ofNat_of_lt' hi
    have key : a = UInt16.ofNat i ↔ i = a.toNat := by
      rw [← UInt16.toNat_inj, hb, eq_comm]
    rw [if_pos hi, if_pos hi, Memory.read_set]
    simp only [key]
    split <;> rfl
  · have : i ≠ a.toNat := fun h ↦ hi (h ▸ a.toNat_lt)
    rw [if_neg hi, if_neg hi, if_neg this]

/-- A noted refusal as numbers. -/
theorem of_record {a : UInt16} {v : UInt8} {fault : WriteFault}
    (h : memory.map.refusal? a v = some fault) :
    of { cpu with faults := cpu.faults.record fault } memory =
      (of cpu memory).refuse a.toNat v.toNat := by
  have hf : refusalOf fault = ⟨a.toNat < memory.map.romEnd, a.toNat, v.toNat⟩ := by
    unfold MemoryMap.refusal? MemoryMap.region at h
    split at h <;> simp_all [refusalOf]
    · grind
    · grind
  simp only [of, refuse, FaultLog.record, List.length_map, mk.injEq, true_and]
  refine ⟨?_, rfl⟩
  rw [apply_ite (List.map refusalOf), List.map_append, List.map_singleton, hf]
  rfl

/-- Storing a byte is a guarded write, whose refusal is recorded. -/
theorem store_of (a : UInt16) (v : UInt8) : (of cpu memory).store a.toNat v.toNat =
    of { cpu with faults := cpu.faults.recordAll (memory.write a v).1.toList }
      (memory.write a v).2 := by
  have guard : memory.map.refusal? a v = none ↔ memory.map.romEnd ≤ a.toNat ∧
    a.toNat < memory.map.ramEnd := MemoryMap.refusal?_eq_none_iff
  cases h : memory.map.refusal? a v with
  | none =>
    rw [Memory.write_of_accepted h]
    exact (if_pos (guard.1 h)).trans (of_set cpu memory a v).symm
  | some fault =>
    rw [Memory.write_of_refusal h]
    refine (if_neg fun hg ↦ ?_).trans (of_record cpu memory h).symm
    rw [guard.2 hg] at h
    cases h

/-- Storing a word is two guarded writes, the low byte first. -/
theorem storeWord_of (a w : UInt16) : (of cpu memory).storeWord a.toNat w.toNat =
    let stored := (Location.word a).store w memory
    of { cpu with faults := cpu.faults.recordAll stored.1 } stored.2 := by
  have h : word (a.toNat + 1) = (a + 1).toNat := word_toNat_add a 1
  rw [storeWord, ← toNat_lowByte, ← toNat_highByte, h, store_of, store_of]
  simp only [Location.store_word, FaultLog.recordAll_append]
  rfl

/-! ## Registers, pairs and conditions -/

theorem get_of (x : Register) : (of cpu memory).get x.code =
    (cpu.get (memory.read cpu.hl) x).toNat := by
  cases x with
  | m => exact (congrArg _ (hl_of cpu memory)).trans (memory_of cpu memory cpu.hl)
  | _ => rfl

/-- Setting a byte operand stores at HL for code six. -/
theorem set_of (x : Register) (v : UInt8) : (of cpu memory).set x.code v.toNat =
    let done := cpu.carryOut memory (cpu.assign x v)
    of done.1 done.2 := by
  cases x with
  | m =>
    refine (congrArg (fun a ↦ (of cpu memory).store a v.toNat) (hl_of cpu memory)).trans ?_
    rw [store_of]
    simp only [Cpu.carryOut, Registers.assign, Location.store_byte, lowByte_toUInt16]
    rfl
  | _ => rfl

theorem pair_of (p : RegisterPair) : (of cpu memory).pair p.code = (cpu.pair p).toNat := by
  cases p with
  | bc => exact bc_of cpu memory
  | de => exact de_of cpu memory
  | hl => exact hl_of cpu memory
  | sp => rfl

theorem setPair_of (p : RegisterPair) (w : UInt16) : (of cpu memory).setPair p.code w.toNat =
    of { cpu with toRegisters := cpu.setPair p w } memory := by
  cases p <;> simp only [RegisterPair.code, setPair, ← toNat_highByte, ← toNat_lowByte] <;> rfl

/-- The status byte has each flag at its bit. -/
theorem status_of : (of cpu memory).status = cpu.flags.status.toNat := by
  obtain ⟨⟨a, b, c, d, e, h, l, sp, pc, ⟨z, s, p, cy, ac⟩, _⟩, _, _⟩ := cpu
  simp only [of, status]
  cases z <;> cases s <;> cases p <;> cases cy <;> cases ac <;> rfl

theorem stackPair_of (p : StackPair) :
    (of cpu memory).stackPair p.code = (cpu.stackPair p).toNat := by
  cases p with
  | bc => exact bc_of cpu memory
  | de => exact de_of cpu memory
  | hl => exact hl_of cpu memory
  | psw =>
    simp only [StackPair.code, stackPair, status_of, Registers.stackPair, Registers.psw,
      toNat_wordOf]
    rfl

/-- A flag of a status byte is a binary digit of its number. -/
theorem ofStatus_eq (v : UInt8) : Flags.ofStatus v = {
    sign := v.toNat / 128 % 2 = 1
    zero := v.toNat / 64 % 2 = 1
    auxCarry := v.toNat / 16 % 2 = 1
    parity := v.toNat / 4 % 2 = 1
    carry := v.toNat / 1 % 2 = 1 } := by
  have bytes : ∀ i : Fin 256, Flags.ofStatus (.ofFin i) = {
      sign := i.val / 128 % 2 = 1
      zero := i.val / 64 % 2 = 1
      auxCarry := i.val / 16 % 2 = 1
      parity := i.val / 4 % 2 = 1
      carry := i.val / 1 % 2 = 1 } := by decide +kernel
  exact bytes v.toFin

/-- A popped status byte is taken apart into the same flags. -/
theorem setStackPair_of (p : StackPair) (w : UInt16) :
    (of cpu memory).setStackPair p.code w.toNat =
      of { cpu with toRegisters := cpu.setStackPair p w } memory := by
  cases p with
  | bc => exact setPair_of cpu memory .bc w
  | de => exact setPair_of cpu memory .de w
  | hl => exact setPair_of cpu memory .hl w
  | psw =>
    -- the digits of the status byte are those of the word below its high byte
    have h128 : w.toNat % 256 / 128 % 2 = w.toNat / 128 % 2 := by omega
    have h64 : w.toNat % 256 / 64 % 2 = w.toNat / 64 % 2 := by omega
    have h16 : w.toNat % 256 / 16 % 2 = w.toNat / 16 % 2 := by omega
    have h4 : w.toNat % 256 / 4 % 2 = w.toNat / 4 % 2 := by omega
    have h1 : w.toNat % 256 / 1 % 2 = w.toNat / 1 % 2 := by omega
    simp only [StackPair.code, setStackPair, Registers.setStackPair, Registers.setPsw, of,
      toNat_highByte, ofStatus_eq, toNat_lowByte, h128, h64, h16, h4, h1]

theorem holds_of (condition : Condition) :
    (of cpu memory).holds condition.code = cpu.flags.satisfy condition := by
  cases condition <;> rfl

/-! ## The stack and jumps -/

@[simp] theorem jump_of (a : UInt16) :
    (of cpu memory).jump a.toNat = of { cpu with pc := a } memory := rfl

@[simp] theorem drop_of :
    (of cpu memory).drop = of { cpu with toRegisters := cpu.dropWord } memory := by
  have h : word (cpu.sp.toNat + 2) = (cpu.sp + 2).toNat := word_toNat_add cpu.sp 2
  exact congrArg (fun sp ↦ { of cpu memory with sp }) h

theorem push_of (w : UInt16) : (of cpu memory).push w.toNat =
    let done := cpu.carryOut memory (cpu.push w)
    of done.1 done.2 := by
  have h : word (cpu.sp.toNat - 2) = (cpu.sp - 2).toNat := word_toNat_sub cpu.sp 2
  refine (congrArg (fun sp ↦ { (of cpu memory).storeWord sp w.toNat with sp }) h).trans ?_
  rw [storeWord_of]
  rfl

theorem call_of (a : UInt16) : (of cpu memory).call a.toNat =
    let done := cpu.carryOut memory (cpu.callTo a)
    of done.1 done.2 := by
  refine (congrArg (fun s ↦ jump s a.toNat) (push_of cpu memory cpu.pc)).trans ?_
  rfl

theorem ret_of : (of cpu memory).ret =
    of { cpu with
      toRegisters := { cpu.dropWord with
        pc := wordOf (memory.read (cpu.sp + 1)) (memory.read cpu.sp) } } memory := by
  rw [ret, drop_of, top_of, jump_of]

end State

end Reference

end Intel8080
