import Intel8080.Proofs.Reference.Arithmetic

/-!
# The processor refines the reference interpreter

A documented instruction, run at the program counter, does to the view what the reference
interpreter does at an opcode of its family; one lemma `ran_…` says so for each family. Opcodes
then fall into families by their octal digits. Main statement: `step_of`, a step of the processor
is a step of the interpreter.
-/

namespace Intel8080

/-- The program counter past an instruction. -/
theorem Cpu.advanced_eq (cpu : Cpu) (i : Instruction) :
    cpu.advanced i = { cpu.toRegisters with pc := cpu.pc + UInt16.ofNat i.length } := by
  have h : cpu.pc + 1 + UInt16.ofNat i.operandBytes =
      cpu.pc + UInt16.ofNat (1 + i.operandBytes) := by
    rw [UInt16.ofNat_add, ← UInt16.add_assoc]
    rfl
  rw [Cpu.advanced, h]
  rfl

def Condition.ofCode : Fin 8 → Condition
  | 0 => notZero | 1 => zero | 2 => noCarry | 3 => carry
  | 4 => parityOdd | 5 => parityEven | 6 => plus | 7 => minus

namespace Reference

open State

def unknownOf : StepError → Unknown
  | .unknownOpcode address opcode disassembly => ⟨address.toNat, opcode.toNat, disassembly⟩

/-- The outcome of a step as numbers. -/
def resultOf (outcome : Outcome (Except StepError Nat) (Cpu × Memory)) : Result :=
  (outcome.answer.mapError unknownOf, .of outcome.state.1 outcome.state.2)

variable (cpu : Cpu) (memory : Memory)

/-- What running an instruction at the program counter comes to, as numbers. -/
def ran (i : Instruction) : Result :=
  let e := cpu.effect memory i
  let done := cpu.carryOut memory e
  (State.of done.1 done.2).done (i.cycles e.taken)

/-! ## Loads and stores -/

/-- A byte operand as an instruction reads it. -/
theorem get_load (r : Registers) (x : Register) (place : Location)
    (h : place = if x = .m then .byte r.hl else .nowhere) :
    r.get (lowByte (place.load memory).1) x = r.get (memory.read r.hl) x := by
  subst h
  cases x <;> simp [Registers.get]

theorem operand_of_one {i : Instruction} (h : i.operandBytes = 1) :
    cpu.operand memory i = (memory.read (cpu.pc + 1)).toUInt16 := by
  rw [Cpu.operand, h, Location.load_ofLength_one]

/-- The low byte of an operand comes first. -/
theorem operand_of_two {i : Instruction} (h : i.operandBytes = 2) :
    cpu.operand memory i = wordOf (memory.read (cpu.pc + 1 + 1)) (memory.read (cpu.pc + 1)) := by
  rw [Cpu.operand, h, Location.load_ofLength_two]

/-- The word after the opcode is the operand of an instruction of three bytes. -/
theorem immediateWord_eq {i : Instruction} (h : i.operandBytes = 2) :
    (State.of cpu memory).immediateWord = (cpu.operand memory i).toNat := by
  rw [immediateWord_of, operand_of_two cpu memory h]

/-- Memory is moved to memory by no instruction; that opcode is the halt. -/
theorem ran_mov (dst src : Register) (h : ¬ (dst = .m ∧ src = .m)) :
    ran cpu memory (.mov dst src) = (State.of cpu memory).move dst.code src.code := by
  have hcode : ¬ (dst.code = 6 ∧ src.code = 6) := by
    cases dst <;> cases src <;> simp_all [Register.code]
  rw [move, if_neg hcode, get_of, set_of]
  simp only [ran, Cpu.effect, Cpu.advanced_eq, Instruction.execute]
  rw [get_load _ _ _ _ (by cases src <;> rfl), skip_of]
  cases dst <;> cases src <;> rfl

theorem ran_mvi (x : Register) : ran cpu memory (.mvi x) =
    (((State.of cpu memory).set x.code (State.of cpu memory).immediate).skip 2).done
      (if x.code = 6 then 10 else 7) := by
  rw [immediate_of, set_of]
  simp only [ran, Cpu.effect, Cpu.advanced_eq, Instruction.execute, skip_of,
    operand_of_one cpu memory (i := .mvi x) rfl, lowByte_toUInt16]
  cases x <;> rfl

theorem ran_lxi (p : RegisterPair) : ran cpu memory (.lxi p) =
    (((State.of cpu memory).setPair p.code (State.of cpu memory).immediateWord).skip 3).done
      10 := by
  rw [immediateWord_eq cpu memory (i := .lxi p) rfl, setPair_of, skip_of]
  simp only [ran, Cpu.effect, Cpu.advanced_eq, Instruction.execute]
  cases p <;> rfl

theorem ran_ldax (p : RegisterPair) : ran cpu memory (.ldax p) =
    (State.skip { State.of cpu memory with
      a := (State.of cpu memory).memory ((State.of cpu memory).pair p.code) } 1).done 7 := by
  have hset : { State.of cpu memory with a := (memory.read (cpu.pair p)).toNat } =
    State.of { cpu with a := memory.read (cpu.pair p) } memory := rfl
  rw [pair_of, memory_of, hset, skip_of]
  simp only [ran, Cpu.effect, Cpu.advanced_eq, Instruction.execute, Instruction.source,
    Location.load_byte_memory, lowByte_toUInt16]
  cases p <;> rfl

theorem ran_stax (p : RegisterPair) : ran cpu memory (.stax p) =
    (((State.of cpu memory).store ((State.of cpu memory).pair p.code)
      (State.of cpu memory).a).skip 1).done 7 := by
  have ha : (State.of cpu memory).a = cpu.a.toNat := rfl
  rw [pair_of, ha, store_of, skip_of]
  simp only [ran, Cpu.effect, Cpu.advanced_eq, Instruction.execute, Cpu.carryOut,
    Location.store_byte, lowByte_toUInt16]
  cases p <;> rfl

theorem ran_lda : ran cpu memory .lda =
    (State.skip { State.of cpu memory with
      a := (State.of cpu memory).memory (State.of cpu memory).immediateWord } 3).done 13 := by
  generalize hw : cpu.operand memory .lda = w
  have hset : { State.of cpu memory with a := (memory.read w).toNat } =
    State.of { cpu with a := memory.read w } memory := rfl
  rw [immediateWord_eq cpu memory (i := .lda) rfl, hw, memory_of, hset, skip_of]
  simp only [ran, Cpu.effect, Cpu.advanced_eq, Instruction.execute, Instruction.source, hw,
    Location.load_byte_memory, lowByte_toUInt16]
  rfl

theorem ran_sta : ran cpu memory .sta =
    (((State.of cpu memory).store (State.of cpu memory).immediateWord
      (State.of cpu memory).a).skip 3).done 13 := by
  have ha : (State.of cpu memory).a = cpu.a.toNat := rfl
  rw [immediateWord_eq cpu memory (i := .sta) rfl, ha, store_of, skip_of]
  simp only [ran, Cpu.effect, Cpu.advanced_eq, Instruction.execute, Cpu.carryOut,
    Location.store_byte, lowByte_toUInt16]
  rfl

theorem ran_lhld : ran cpu memory .lhld =
    (((State.of cpu memory).setPair 2
      ((State.of cpu memory).loadWord (State.of cpu memory).immediateWord)).skip 3).done 16 := by
  have hset := setPair_of cpu memory .hl
  rw [RegisterPair.code] at hset
  rw [immediateWord_eq cpu memory (i := .lhld) rfl, loadWord_of, hset, skip_of]
  simp only [ran, Cpu.effect, Cpu.advanced_eq]
  rfl

theorem ran_shld : ran cpu memory .shld =
    (((State.of cpu memory).storeWord (State.of cpu memory).immediateWord
      (State.of cpu memory).hl).skip 3).done 16 := by
  rw [immediateWord_eq cpu memory (i := .shld) rfl, hl_of, storeWord_of, skip_of]
  simp only [ran, Cpu.effect, Cpu.advanced_eq]
  rfl

theorem ran_xchg : ran cpu memory .xchg =
    (State.skip { State.of cpu memory with
      d := (State.of cpu memory).h
      e := (State.of cpu memory).l
      h := (State.of cpu memory).d
      l := (State.of cpu memory).e } 1).done 4 := by
  have hset : { State.of cpu memory with
      d := cpu.h.toNat, e := cpu.l.toNat, h := cpu.d.toNat, l := cpu.e.toNat } =
    State.of { cpu with d := cpu.h, e := cpu.l, h := cpu.d, l := cpu.e } memory := rfl
  refine Eq.trans ?_ (congrArg (fun s ↦ State.done (State.skip s 1) 4) hset).symm
  rw [skip_of]
  simp only [ran, Cpu.effect, Cpu.advanced_eq, Instruction.execute, Registers.setDe,
    Registers.setHl, Registers.hl, Registers.de, highByte_wordOf, lowByte_wordOf]
  rfl

/-! ## Arithmetic -/

theorem ran_alu (op : AluOp) (x : Register) : ran cpu memory (.alu op x) =
    (State.of cpu memory).combine op.code x.code := by
  rw [combine, get_of, operate_of, skip_of]
  simp only [ran, Cpu.effect, Cpu.advanced_eq, Instruction.execute]
  rw [get_load _ _ _ _ (by cases x <;> rfl)]
  cases x <;> rfl

theorem ran_aluImmediate (op : AluOp) : ran cpu memory (.aluImmediate op) =
    (((State.of cpu memory).operate op.code (State.of cpu memory).immediate).skip 2).done 7 := by
  rw [immediate_of, operate_of, skip_of]
  simp only [ran, Cpu.effect, Cpu.advanced_eq, Instruction.execute,
    operand_of_one cpu memory (i := .aluImmediate op) rfl, lowByte_toUInt16]
  rfl

theorem ran_inr (x : Register) : ran cpu memory (.inr x) =
    (((State.of cpu memory).increment x.code).skip 1).done (if x.code = 6 then 10 else 5) := by
  rw [increment_of]
  simp only [ran, Cpu.effect, Cpu.advanced_eq, Instruction.execute]
  rw [get_load _ _ _ _ (by cases x <;> rfl), skip_of]
  cases x <;> rfl

theorem ran_dcr (x : Register) : ran cpu memory (.dcr x) =
    (((State.of cpu memory).decrement x.code).skip 1).done (if x.code = 6 then 10 else 5) := by
  rw [decrement_of]
  simp only [ran, Cpu.effect, Cpu.advanced_eq, Instruction.execute]
  rw [get_load _ _ _ _ (by cases x <;> rfl), skip_of]
  cases x <;> rfl

theorem ran_inx (p : RegisterPair) : ran cpu memory (.inx p) =
    (((State.of cpu memory).setPair p.code
      (word ((State.of cpu memory).pair p.code + 1))).skip 1).done 5 := by
  have hsum : word ((cpu.pair p).toNat + 1) = (cpu.pair p + 1).toNat := word_toNat_add _ 1
  rw [pair_of, hsum, setPair_of, skip_of]
  simp only [ran, Cpu.effect, Cpu.advanced_eq, Instruction.execute]
  cases p <;> rfl

theorem ran_dcx (p : RegisterPair) : ran cpu memory (.dcx p) =
    (((State.of cpu memory).setPair p.code
      (word (((State.of cpu memory).pair p.code : Int) - 1))).skip 1).done 5 := by
  have hdiff : word ((cpu.pair p).toNat - 1) = (cpu.pair p - 1).toNat := word_toNat_sub _ 1
  rw [pair_of, hdiff, setPair_of, skip_of]
  simp only [ran, Cpu.effect, Cpu.advanced_eq, Instruction.execute]
  cases p <;> rfl

theorem ran_dad (p : RegisterPair) : ran cpu memory (.dad p) =
    (((State.of cpu memory).addPair ((State.of cpu memory).pair p.code)).skip 1).done 10 := by
  rw [pair_of, addPair_of, skip_of]
  simp only [ran, Cpu.effect, Cpu.advanced_eq, Instruction.execute]
  cases p <;> rfl

theorem ran_daa : ran cpu memory .daa = ((State.of cpu memory).adjust.skip 1).done 4 := by
  rw [adjust_of, skip_of]
  simp only [ran, Cpu.effect, Cpu.advanced_eq, Instruction.execute]
  rfl

theorem ran_rotate (kind : Rotation) : ran cpu memory (.rotate kind) =
    (((State.of cpu memory).accumulator kind.code).skip 1).done 4 := by
  rw [rotate_of, skip_of]
  simp only [ran, Cpu.effect, Cpu.advanced_eq, Instruction.execute]
  rfl

theorem ran_cma : ran cpu memory .cma =
    (((State.of cpu memory).accumulator 5).skip 1).done 4 := by
  have hset : (State.of cpu memory).accumulator 5 = State.of { cpu with a := ~~~cpu.a } memory := by
    simp only [accumulator, State.of, UInt8.toNat_not]
    rfl
  rw [hset, skip_of]
  simp only [ran, Cpu.effect, Cpu.advanced_eq, Instruction.execute]
  rfl

/-! ## Control transfer and the stack -/

/-- A jump costs the same whether it is taken or not. -/
theorem ran_jump (condition : Option Condition) : ran cpu memory (.jump condition) =
    if cpu.taken condition then
      ((State.of cpu memory).jump (State.of cpu memory).immediateWord).done 10
    else ((State.of cpu memory).skip 3).done 10 := by
  have htaken (pc : UInt16) :
      Registers.taken { cpu.toRegisters with pc } condition = cpu.taken condition := rfl
  rw [immediateWord_eq cpu memory (i := .jump condition) rfl, jump_of, skip_of]
  simp only [ran, Cpu.effect, Cpu.advanced_eq, Instruction.execute, htaken]
  split <;> rfl

/-- A call that is not taken still skips its address. -/
theorem ran_call (condition : Option Condition) : ran cpu memory (.call condition) =
    if cpu.taken condition then
      (((State.of cpu memory).skip 3).call (State.of cpu memory).immediateWord).done 17
    else ((State.of cpu memory).skip 3).done 11 := by
  have htaken (pc : UInt16) :
      Registers.taken { cpu.toRegisters with pc } condition = cpu.taken condition := rfl
  rw [immediateWord_eq cpu memory (i := .call condition) rfl, skip_of, call_of]
  simp only [ran, Cpu.effect, Cpu.advanced_eq, Instruction.execute, htaken]
  cases condition with
  | none => rfl
  | some condition => split <;> rfl

/-- A return under a condition costs one cycle more than one without. -/
theorem ran_ret (condition : Option Condition) : ran cpu memory (.ret condition) =
    if cpu.taken condition then
      (State.of cpu memory).ret.done (if condition = none then 10 else 11)
    else ((State.of cpu memory).skip 1).done 5 := by
  have htaken (pc : UInt16) :
      Registers.taken { cpu.toRegisters with pc } condition = cpu.taken condition := rfl
  rw [ret_of, skip_of]
  simp only [ran, Cpu.effect, Cpu.advanced_eq, Instruction.execute, Instruction.source, htaken]
  cases condition with
  | none => rfl
  | some condition => split <;> rfl

/-- A restart calls one of eight addresses at the bottom of memory. -/
theorem ran_rst (vector : Fin 8) : ran cpu memory (.rst vector) =
    (((State.of cpu memory).skip 1).call (8 * vector)).done 11 := by
  have h : (UInt16.ofNat (8 * vector)).toNat = 8 * vector :=
    UInt16.toNat_ofNat_of_lt' (by have := vector.isLt; simp [UInt16.size]; omega)
  rw [← h, skip_of, call_of]
  simp only [ran, Cpu.effect, Cpu.advanced_eq, Instruction.execute]
  rfl

theorem ran_pchl : ran cpu memory .pchl =
    ((State.of cpu memory).jump (State.of cpu memory).hl).done 5 := by
  rw [hl_of, jump_of]
  rfl

theorem ran_sphl : ran cpu memory .sphl =
    (State.skip { State.of cpu memory with sp := (State.of cpu memory).hl } 1).done 5 := by
  have hset : { State.of cpu memory with sp := cpu.hl.toNat } =
    State.of { cpu with sp := cpu.hl } memory := rfl
  rw [hl_of, hset, skip_of]
  simp only [ran, Cpu.effect, Cpu.advanced_eq, Instruction.execute]
  rfl

theorem ran_push (p : StackPair) : ran cpu memory (.push p) =
    (((State.of cpu memory).push ((State.of cpu memory).stackPair p.code)).skip 1).done 11 := by
  rw [stackPair_of, push_of, skip_of]
  simp only [ran, Cpu.effect, Cpu.advanced_eq, Instruction.execute]
  cases p <;> rfl

theorem ran_pop (p : StackPair) : ran cpu memory (.pop p) =
    (((State.of cpu memory).drop.setStackPair p.code (State.of cpu memory).top).skip 1).done
      10 := by
  rw [drop_of, top_of, setStackPair_of, skip_of]
  simp only [ran, Cpu.effect, Cpu.advanced_eq, Instruction.execute]
  cases p <;> rfl

theorem ran_xthl : ran cpu memory .xthl =
    ((((State.of cpu memory).storeWord (State.of cpu memory).sp (State.of cpu memory).hl).setPair 2
      (State.of cpu memory).top).skip 1).done 18 := by
  have hsp : (State.of cpu memory).sp = cpu.sp.toNat := rfl
  have hset (cpu memory) := setPair_of cpu memory .hl
  simp only [RegisterPair.code] at hset
  rw [hsp, hl_of, storeWord_of, top_of, hset, skip_of]
  simp only [ran, Cpu.effect, Cpu.advanced_eq, Instruction.execute]
  rfl

/-! ## Instructions that only go on or set a flag -/

/-- The instructions that do nothing but take up bytes and cycles. -/
theorem ran_idle {i : Instruction} (h : i ∈ [.nop, .hlt, .input, .output]) :
    ran cpu memory i = ((State.of cpu memory).skip i.length).done i.baseCycles := by
  have heffect : cpu.effect memory i =
      { registers := { cpu.toRegisters with pc := cpu.pc + UInt16.ofNat i.length } } := by
    rw [← Cpu.advanced_eq]
    simp only [List.mem_cons, List.not_mem_nil, or_false] at h
    rcases h with rfl | rfl | rfl | rfl <;> rfl
  rw [skip_of, ran, heffect]
  rfl

theorem ran_stc : ran cpu memory .stc =
    (((State.of cpu memory).accumulator 6).skip 1).done 4 := by
  have hset : (State.of cpu memory).accumulator 6 =
    State.of { cpu with flags := { cpu.flags with carry := true } } memory := rfl
  rw [hset, skip_of]
  simp only [ran, Cpu.effect, Cpu.advanced_eq]
  rfl

theorem ran_cmc : ran cpu memory .cmc =
    (((State.of cpu memory).accumulator 7).skip 1).done 4 := by
  have hset : (State.of cpu memory).accumulator 7 =
    State.of { cpu with flags := { cpu.flags with carry := !cpu.flags.carry } } memory := rfl
  rw [hset, skip_of]
  simp only [ran, Cpu.effect, Cpu.advanced_eq]
  rfl

theorem ran_ei : ran cpu memory .ei =
    (State.skip { State.of cpu memory with interruptsEnabled := true } 1).done 4 := by
  have hset : { State.of cpu memory with interruptsEnabled := true } =
    State.of { cpu with interruptsEnabled := true } memory := rfl
  rw [hset, skip_of]
  simp only [ran, Cpu.effect, Cpu.advanced_eq]
  rfl

theorem ran_di : ran cpu memory .di =
    (State.skip { State.of cpu memory with interruptsEnabled := false } 1).done 4 := by
  have hset : { State.of cpu memory with interruptsEnabled := false } =
    State.of { cpu with interruptsEnabled := false } memory := rfl
  rw [hset, skip_of]
  simp only [ran, Cpu.effect, Cpu.advanced_eq]
  rfl

/-! ## From opcodes to instructions -/

/-- The opcode with the given octal digits. -/
def opcode (x : Fin 4) (y z : Fin 8) : UInt8 := UInt8.ofNat (64 * x + 8 * y + z)

/-- Every byte has three octal digits, the first of which is below four. -/
theorem exists_eq_opcode (v : UInt8) : ∃ x y z, v = opcode x y z := by
  have hv := v.toNat_lt
  refine ⟨⟨v.toNat / 64, by omega⟩, ⟨v.toNat / 8 % 8, by omega⟩, ⟨v.toNat % 8, by omega⟩, ?_⟩
  apply UInt8.toNat_inj.1
  simp only [opcode, UInt8.toNat_ofNat']
  omega

theorem toNat_opcode (x : Fin 4) (y z : Fin 8) :
    (opcode x y z).toNat = 64 * x + 8 * y + z := by
  rw [opcode, UInt8.toNat_ofNat']
  omega

@[simp] theorem code_ofCode_register (x : Fin 8) : (Register.ofCode x).code = x := by
  revert x
  decide

/-- Code six is that of the memory operand. -/
theorem ofCode_eq_m {x : Fin 8} : Register.ofCode x = .m ↔ x = 6 := by
  revert x
  decide

@[simp] theorem code_ofCode_aluOp (x : Fin 8) : (AluOp.ofCode x).code = x := by
  revert x
  decide

@[simp] theorem code_ofCode_condition (x : Fin 8) : (Condition.ofCode x).code = x := by
  revert x
  decide

section

open Instruction

/-! The families of opcodes in which `y` is a code. -/

/-- Among the opcodes that do nothing only zero is documented. -/
theorem decode_noop {y : Fin 8} (hy : y ≠ 0) :
    decode (opcode 0 y 0) = .undocumented .nop := by
  revert y
  decide

theorem decode_inr (y : Fin 8) : decode (opcode 0 y 4) = .inr (.ofCode y) := by
  revert y
  decide

theorem decode_dcr (y : Fin 8) : decode (opcode 0 y 5) = .dcr (.ofCode y) := by
  revert y
  decide

theorem decode_mvi (y : Fin 8) : decode (opcode 0 y 6) = .mvi (.ofCode y) := by
  revert y
  decide

theorem decode_move (y z : Fin 8) :
    decode (opcode 1 y z) = .move (.ofCode y) (.ofCode z) := by
  revert y z
  decide

theorem decode_alu (y z : Fin 8) :
    decode (opcode 2 y z) = .alu (.ofCode y) (.ofCode z) := by
  revert y z
  decide

theorem decode_ret (y : Fin 8) : decode (opcode 3 y 0) = .ret (some (.ofCode y)) := by
  revert y
  decide

theorem decode_jump (y : Fin 8) : decode (opcode 3 y 2) = .jump (some (.ofCode y)) := by
  revert y
  decide

theorem decode_call (y : Fin 8) : decode (opcode 3 y 4) = .call (some (.ofCode y)) := by
  revert y
  decide

theorem decode_aluImmediate (y : Fin 8) :
    decode (opcode 3 y 6) = .aluImmediate (.ofCode y) := by
  revert y
  decide

theorem decode_rst (y : Fin 8) : decode (opcode 3 y 7) = .rst y := by
  revert y
  decide

end

variable {cpu memory}

/-- A documented opcode runs its instruction. -/
theorem resultOf_step {i : Instruction} (h : cpu.fetched memory = i)
    (hi : i.isUndocumented = false) : resultOf (cpu.step memory) = ran cpu memory i := by
  have haccepts : cpu.accepts (cpu.fetched memory) = true := by simp [Cpu.accepts, h, hi]
  rw [Cpu.step_memory_of_accepted haccepts, h, Instruction.executed_of_not_isUndocumented hi]
  rfl

/-- An undocumented opcode is refused or runs its alias. -/
theorem resultOf_step_undocumented {like : Alias} (h : cpu.fetched memory = .undocumented like) :
    resultOf (cpu.step memory) =
      (State.of cpu memory).undocumented (ran cpu memory like.instruction) := by
  cases hp : cpu.policy with
  | runAlias =>
    rw [Cpu.step_memory_of_accepted (Cpu.accepts_of_runAlias hp _), h]
    simp only [undocumented, State.of, hp]
    rfl
  | reject =>
    have hrefused : cpu.accepts (cpu.fetched memory) = false :=
      Cpu.accepts_eq_false_iff.2 ⟨by rw [h]; rfl, hp⟩
    rw [Cpu.step_memory_of_refused hrefused, undocumented, if_neg (by simp [State.of, hp])]
    change (Except.error _, State.of cpu memory) = _
    rw [unknownOf, ← memory_of cpu memory]
    rfl

/-- A conditional jump, call or return waits for the condition with its code. -/
theorem holds_ofCode (y : Fin 8) :
    (State.of cpu memory).holds y = cpu.taken (some (.ofCode y)) := by
  rw [← code_ofCode_condition, holds_of]
  rfl

variable {x : Fin 4} {y z : Fin 8}

/-- A step with `x = 0` does what the reference says. -/
theorem resultOf_step_first (h : cpu.fetched memory = .decode (opcode 0 y z)) :
    resultOf (cpu.step memory) = (State.of cpu memory).first y z := by
  match z, y, h with
  | 0, 0, h => exact (resultOf_step h rfl).trans (ran_idle cpu memory (by decide))
  | 0, ⟨y + 1, hy⟩, h =>
    rw [resultOf_step_undocumented (h.trans (decode_noop (Fin.ne_of_val_ne y.succ_ne_zero)))]
    exact congrArg _ (ran_idle cpu memory (by decide))
  | 1, 0, h => exact (resultOf_step h rfl).trans (ran_lxi cpu memory .bc)
  | 1, 1, h => exact (resultOf_step h rfl).trans (ran_dad cpu memory .bc)
  | 1, 2, h => exact (resultOf_step h rfl).trans (ran_lxi cpu memory .de)
  | 1, 3, h => exact (resultOf_step h rfl).trans (ran_dad cpu memory .de)
  | 1, 4, h => exact (resultOf_step h rfl).trans (ran_lxi cpu memory .hl)
  | 1, 5, h => exact (resultOf_step h rfl).trans (ran_dad cpu memory .hl)
  | 1, 6, h => exact (resultOf_step h rfl).trans (ran_lxi cpu memory .sp)
  | 1, 7, h => exact (resultOf_step h rfl).trans (ran_dad cpu memory .sp)
  | 2, 0, h => exact (resultOf_step h rfl).trans (ran_stax cpu memory .bc)
  | 2, 1, h => exact (resultOf_step h rfl).trans (ran_ldax cpu memory .bc)
  | 2, 2, h => exact (resultOf_step h rfl).trans (ran_stax cpu memory .de)
  | 2, 3, h => exact (resultOf_step h rfl).trans (ran_ldax cpu memory .de)
  | 2, 4, h => exact (resultOf_step h rfl).trans (ran_shld cpu memory)
  | 2, 5, h => exact (resultOf_step h rfl).trans (ran_lhld cpu memory)
  | 2, 6, h => exact (resultOf_step h rfl).trans (ran_sta cpu memory)
  | 2, 7, h => exact (resultOf_step h rfl).trans (ran_lda cpu memory)
  | 3, 0, h => exact (resultOf_step h rfl).trans (ran_inx cpu memory .bc)
  | 3, 1, h => exact (resultOf_step h rfl).trans (ran_dcx cpu memory .bc)
  | 3, 2, h => exact (resultOf_step h rfl).trans (ran_inx cpu memory .de)
  | 3, 3, h => exact (resultOf_step h rfl).trans (ran_dcx cpu memory .de)
  | 3, 4, h => exact (resultOf_step h rfl).trans (ran_inx cpu memory .hl)
  | 3, 5, h => exact (resultOf_step h rfl).trans (ran_dcx cpu memory .hl)
  | 3, 6, h => exact (resultOf_step h rfl).trans (ran_inx cpu memory .sp)
  | 3, 7, h => exact (resultOf_step h rfl).trans (ran_dcx cpu memory .sp)
  | 4, y, h =>
    rw [resultOf_step (h.trans (decode_inr y)) rfl, ran_inr, code_ofCode_register]
    rfl
  | 5, y, h =>
    rw [resultOf_step (h.trans (decode_dcr y)) rfl, ran_dcr, code_ofCode_register]
    rfl
  | 6, y, h =>
    rw [resultOf_step (h.trans (decode_mvi y)) rfl, ran_mvi, code_ofCode_register]
    rfl
  | 7, 0, h => exact (resultOf_step h rfl).trans (ran_rotate cpu memory .rlc)
  | 7, 1, h => exact (resultOf_step h rfl).trans (ran_rotate cpu memory .rrc)
  | 7, 2, h => exact (resultOf_step h rfl).trans (ran_rotate cpu memory .ral)
  | 7, 3, h => exact (resultOf_step h rfl).trans (ran_rotate cpu memory .rar)
  | 7, 4, h => exact (resultOf_step h rfl).trans (ran_daa cpu memory)
  | 7, 5, h => exact (resultOf_step h rfl).trans (ran_cma cpu memory)
  | 7, 6, h => exact (resultOf_step h rfl).trans (ran_stc cpu memory)
  | 7, 7, h => exact (resultOf_step h rfl).trans (ran_cmc cpu memory)

theorem resultOf_step_move (h : cpu.fetched memory = .decode (opcode 1 y z)) :
    resultOf (cpu.step memory) = (State.of cpu memory).move y z := by
  rw [decode_move] at h
  by_cases hm : Register.ofCode y = .m ∧ Register.ofCode z = .m
  · obtain ⟨rfl, rfl⟩ : y = 6 ∧ z = 6 := ⟨ofCode_eq_m.1 hm.1, ofCode_eq_m.1 hm.2⟩
    exact (resultOf_step h rfl).trans (ran_idle cpu memory (by decide))
  · rw [Instruction.move, if_neg hm] at h
    rw [resultOf_step h rfl, ran_mov cpu memory _ _ hm, code_ofCode_register,
      code_ofCode_register]

theorem resultOf_step_combine (h : cpu.fetched memory = .decode (opcode 2 y z)) :
    resultOf (cpu.step memory) = (State.of cpu memory).combine y z := by
  rw [resultOf_step (h.trans (decode_alu y z)) rfl, ran_alu, code_ofCode_aluOp,
    code_ofCode_register]

theorem resultOf_step_last (h : cpu.fetched memory = .decode (opcode 3 y z)) :
    resultOf (cpu.step memory) = (State.of cpu memory).last y z := by
  match z, y, h with
  | 0, y, h =>
    rw [resultOf_step (h.trans (decode_ret y)) rfl, ran_ret, ← holds_ofCode]
    rfl
  | 1, 0, h => exact (resultOf_step h rfl).trans (ran_pop cpu memory .bc)
  | 1, 1, h => exact (resultOf_step h rfl).trans (ran_ret cpu memory none)
  | 1, 2, h => exact (resultOf_step h rfl).trans (ran_pop cpu memory .de)
  | 1, 3, h =>
    exact (resultOf_step_undocumented h).trans (congrArg _ (ran_ret cpu memory none))
  | 1, 4, h => exact (resultOf_step h rfl).trans (ran_pop cpu memory .hl)
  | 1, 5, h => exact (resultOf_step h rfl).trans (ran_pchl cpu memory)
  | 1, 6, h => exact (resultOf_step h rfl).trans (ran_pop cpu memory .psw)
  | 1, 7, h => exact (resultOf_step h rfl).trans (ran_sphl cpu memory)
  | 2, y, h =>
    rw [resultOf_step (h.trans (decode_jump y)) rfl, ran_jump, ← holds_ofCode]
    rfl
  | 3, 0, h => exact (resultOf_step h rfl).trans (ran_jump cpu memory none)
  | 3, 1, h =>
    exact (resultOf_step_undocumented h).trans (congrArg _ (ran_jump cpu memory none))
  | 3, 2, h => exact (resultOf_step h rfl).trans (ran_idle cpu memory (by decide))
  | 3, 3, h => exact (resultOf_step h rfl).trans (ran_idle cpu memory (by decide))
  | 3, 4, h => exact (resultOf_step h rfl).trans (ran_xthl cpu memory)
  | 3, 5, h => exact (resultOf_step h rfl).trans (ran_xchg cpu memory)
  | 3, 6, h => exact (resultOf_step h rfl).trans (ran_di cpu memory)
  | 3, 7, h => exact (resultOf_step h rfl).trans (ran_ei cpu memory)
  | 4, y, h =>
    rw [resultOf_step (h.trans (decode_call y)) rfl, ran_call, ← holds_ofCode]
    rfl
  | 5, 0, h => exact (resultOf_step h rfl).trans (ran_push cpu memory .bc)
  | 5, 1, h => exact (resultOf_step h rfl).trans (ran_call cpu memory none)
  | 5, 2, h => exact (resultOf_step h rfl).trans (ran_push cpu memory .de)
  | 5, 3, h =>
    exact (resultOf_step_undocumented h).trans (congrArg _ (ran_call cpu memory none))
  | 5, 4, h => exact (resultOf_step h rfl).trans (ran_push cpu memory .hl)
  | 5, 5, h =>
    exact (resultOf_step_undocumented h).trans (congrArg _ (ran_call cpu memory none))
  | 5, 6, h => exact (resultOf_step h rfl).trans (ran_push cpu memory .psw)
  | 5, 7, h =>
    exact (resultOf_step_undocumented h).trans (congrArg _ (ran_call cpu memory none))
  | 6, y, h =>
    rw [resultOf_step (h.trans (decode_aluImmediate y)) rfl, ran_aluImmediate,
      code_ofCode_aluOp]
    rfl
  | 7, y, h =>
    rw [resultOf_step (h.trans (decode_rst y)) rfl, ran_rst]
    rfl

variable (cpu memory)

/-- **Refinement.** A step of the processor on a memory is, as numbers, a step of the reference
interpreter: the same cycles or the same refused opcode, and the same registers, flags, memory and
log of refused writes after it. -/
theorem step_of : (State.of cpu memory).step = resultOf (cpu.step memory) := by
  obtain ⟨x, y, z, hopcode⟩ := exists_eq_opcode (memory.read cpu.pc)
  have hfetched : cpu.fetched memory = .decode (opcode x y z) := by rw [Cpu.fetched, hopcode]
  have hmemory : (State.of cpu memory).memory (State.of cpu memory).pc = 64 * x + 8 * y + z := by
    rw [← toNat_opcode, ← hopcode, ← memory_of cpu]
    rfl
  have hx : (64 * x + 8 * y + z : Nat) / 64 = x := by omega
  have hy : (64 * x + 8 * y + z : Nat) / 8 % 8 = y := by omega
  have hz : (64 * x + 8 * y + z : Nat) % 8 = z := by omega
  rw [State.step, hmemory, hx, hy, hz]
  have hgroup : x = 0 ∨ x = 1 ∨ x = 2 ∨ x = 3 := by omega
  rcases hgroup with rfl | rfl | rfl | rfl
  · exact (resultOf_step_first hfetched).symm
  · exact (resultOf_step_move hfetched).symm
  · exact (resultOf_step_combine hfetched).symm
  · exact (resultOf_step_last hfetched).symm

end Reference

end Intel8080
