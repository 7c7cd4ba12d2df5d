import Intel8080.Proofs.Disassembly.Assembly
import Intel8080.Proofs.Machine.History
import Intel8080.Proofs.Program.StraightLine

/-!
# Instructions at the top of memory

The processor fetches the bytes of an instruction from addresses that wrap round at the top of
memory, while the disassembler takes memory for an image, which ends there. Main statements:
`describes_iff`, what is disassembled at an address is the instruction that the processor finds
there exactly if no byte of it lies past the top; and `disassembles`, which adds what a step from
there fetches.
-/

namespace Intel8080

namespace Memory

variable {memory : Memory} {a : UInt16} {bytes other : List UInt8}

/-- The three bytes from an address on. After the top of memory comes its first byte. -/
def window (memory : Memory) (a : UInt16) : List UInt8 :=
  [memory.read a, memory.read (a + 1), memory.read (a + 2)]

/-- The window is what stands in memory, and it goes on past the top. -/
theorem stands_window (memory : Memory) (a : UInt16) : memory.Stands a (memory.window a) := by
  have hthird : a + 1 + 1 = a + 2 := UInt16.add_assoc a 1 1
  refine ⟨rfl, rfl, ?_, trivial⟩
  rw [hthird]

/-- As many bytes can stand at an address in one way only. -/
theorem Stands.unique (h : memory.Stands a bytes) (h' : memory.Stands a other)
    (hlength : bytes.length = other.length) : bytes = other := by
  induction bytes generalizing a other with
  | nil => exact (List.length_eq_zero_iff.1 hlength.symm).symm
  | cons v bytes ih =>
    cases other with
    | nil => cases hlength
    | cons w other =>
      obtain ⟨rfl, hrest⟩ := h
      obtain ⟨rfl, hrest'⟩ := h'
      rw [ih hrest hrest' (Nat.succ.inj hlength)]

theorem length_peek (memory : Memory) (a : UInt16) (count : Nat) :
    (memory.peek a count).length = min count (capacity a) := by
  simp [peek, capacity]

/-- What is peeked is what stands in memory, and it ends at the top. -/
theorem stands_peek (memory : Memory) (a : UInt16) (count : Nat) :
    memory.Stands a (memory.peek a count) := by
  refine stands_of_read fun i hi ↦ ?_
  have hlt : a.toNat + i < size := by
    rw [length_peek, capacity] at hi
    omega
  simp [read, peek, toNat_add_ofNat hlt]

/-- The disassembler is given that part of the window that lies below the top. -/
theorem peek_three (memory : Memory) (a : UInt16) :
    memory.peek a 3 = (memory.window a).take (capacity a) := by
  refine (memory.stands_peek a 3).unique ((memory.stands_window a).take _) ?_
  rw [length_peek, List.length_take, Nat.min_comm]
  rfl

end Memory

/-! ## What is disassembled -/

/-- What is disassembled is the instruction at the head of some bytes, with all its bytes. -/
structure Disassembly.Describes (d : Disassembly) (bytes : List UInt8) : Prop where
  text_eq : d.text = (disassemble bytes 0).text
  bytes_eq : d.bytes = bytes.take d.length

/-- Bytes past the operand make no difference to the text. -/
theorem text_disassembleAt_take {opcode : UInt8} {tail : List UInt8} {n : Nat}
    (hn : (Instruction.decode opcode).operandBytes ≤ n)
    (htail : (Instruction.decode opcode).operandBytes ≤ tail.length) (offset offset' : Nat) :
    (disassembleAt offset (opcode :: tail.take n)).text =
      (disassembleAt offset' (opcode :: tail)).text := by
  have htake : (Instruction.decode opcode).operandBytes ≤ (tail.take n).length := by
    rw [List.length_take]
    exact Nat.le_min.2 ⟨hn, htail⟩
  rw [text_disassembleAt_cons, text_disassembleAt_cons]
  refine Instruction.text_congr _ ?_
  rw [Instruction.operandList_wordOf htake, Instruction.operandList_wordOf htail, List.take_take,
    Nat.min_eq_left hn]

namespace Machine

variable (machine : Machine) (a : UInt16)

/-- The disassembler takes memory for an image that ends at the top. -/
theorem disassembleAt_eq_take : machine.disassembleAt a =
    Intel8080.disassembleAt a.toNat ((machine.memory.window a).take (Memory.capacity a)) := by
  rw [disassembleAt, Memory.peek_three]

/-- The disassembly of an address sees its byte and those of the next two that are below the top. -/
theorem disassembleAt_eq_cons : machine.disassembleAt a =
    Intel8080.disassembleAt a.toNat (machine.memory.read a ::
      [machine.memory.read (a + 1), machine.memory.read (a + 2)].take (Memory.capacity a - 1)) := by
  have hpos : Memory.capacity a ≠ 0 := by
    have hlt := Memory.toNat_lt_size a
    rw [Memory.capacity]
    omega
  rw [disassembleAt_eq_take, Memory.window, List.take_cons (Nat.pos_of_ne_zero hpos)]

/-- What is disassembled at an address is the instruction there exactly if none of its bytes lies
past the top of memory. -/
theorem describes_iff : (machine.disassembleAt a).Describes (machine.memory.window a) ↔
    a.toNat + (machine.disassembleAt a).length ≤ Memory.size := by
  have htail : (Instruction.decode (machine.memory.read a)).operandBytes ≤
      [machine.memory.read (a + 1), machine.memory.read (a + 2)].length :=
    Instruction.operandBytes_le_two _
  have hlt := Memory.toNat_lt_size a
  have hcapacity : Memory.capacity a = Memory.size - a.toNat := rfl
  rw [disassembleAt_eq_cons, length_disassembleAt_cons]
  constructor
  · rintro ⟨-, hbytes⟩
    have hlength := congrArg List.length hbytes
    simp only [bytes_disassembleAt_cons, length_disassembleAt_cons, Memory.window,
      List.length_cons, List.length_take, List.length_nil] at hlength htail
    omega
  · intro hle
    have hroom : (Instruction.decode (machine.memory.read a)).operandBytes ≤
      Memory.capacity a - 1 := by omega
    refine ⟨text_disassembleAt_take hroom htail _ 0, ?_⟩
    rw [bytes_disassembleAt_cons, length_disassembleAt_cons, Memory.window, List.take_take,
      Nat.min_eq_left hroom, Nat.add_comm 1, List.take_succ_cons]

/-! ## What is fetched -/

section Fetch

variable {machine}

/-- A step that can be made fetches the bytes of the window that its instruction takes. -/
theorem accesses_eq_fetches (h : machine.steps = true) : machine.accesses =
    fetches machine.cpu.pc
        ((machine.memory.window machine.cpu.pc).take machine.instruction.length) ++
      machine.dataAccesses := by
  have htwo := machine.instruction.operandBytes_le_two
  have hstands := (machine.memory.stands_window machine.cpu.pc).take machine.instruction.length
  rw [Instruction.length, Nat.add_comm, Memory.window, List.take_succ_cons] at hstands ⊢
  obtain ⟨-, hrest⟩ := hstands
  have hlength : ([machine.memory.read (machine.cpu.pc + 1),
      machine.memory.read (machine.cpu.pc + 2)].take machine.instruction.operandBytes).length =
        machine.instruction.operandBytes := by
    rw [List.length_take]
    exact Nat.min_eq_left htwo
  have hreadings := readings_ofLength hrest (Nat.le_trans (Nat.le_of_eq hlength) htwo)
  rw [hlength] at hreadings
  rw [accesses_of_steps h, Cpu.operandPlace, hreadings, fetches, dataAccesses, List.append_assoc,
    List.cons_append]

/-- A step that is refused fetches the opcode byte, and then all of the window. -/
theorem accesses_eq_fetches_of_not_steps (h : machine.steps = false) : machine.accesses =
    .read machine.cpu.pc (machine.memory.read machine.cpu.pc) ::
      fetches machine.cpu.pc (machine.memory.window machine.cpu.pc) := by
  have hthird : machine.cpu.pc + 1 + 1 = machine.cpu.pc + 2 := UInt16.add_assoc _ 1 1
  simp only [accesses_of_not_steps h, Memory.window, fetches, hthird]

end Fetch

def startingAt : Machine := { machine with cpu := { machine.cpu with pc := a } }

/-- What is disassembled at an address, and what a step from there fetches. -/
structure Disassembles : Prop where
  /-- The disassembler is given what lies below the top of memory of the three bytes there. -/
  eq_take : machine.disassembleAt a =
    Intel8080.disassembleAt a.toNat ((machine.memory.window a).take (Memory.capacity a))
  /-- It tells the instruction at the head of these bytes, unless a byte of that instruction lies
  past the top. -/
  describes_iff : (machine.disassembleAt a).Describes (machine.memory.window a) ↔
    a.toNat + (machine.disassembleAt a).length ≤ Memory.size
  /-- The step fetches the bytes that the instruction takes, also those past the top. -/
  fetched : (machine.startingAt a).steps = true → (machine.startingAt a).accesses =
    fetches a ((machine.memory.window a).take (machine.startingAt a).instruction.length) ++
      (machine.startingAt a).dataAccesses
  /-- A step that is refused reads the opcode byte and all of these bytes. -/
  refused : (machine.startingAt a).steps = false → (machine.startingAt a).accesses =
    .read a (machine.memory.read a) :: fetches a (machine.memory.window a)
  /-- A documented instruction below the top is fetched as it is disassembled. -/
  fetched_bytes : machine.memory.read a ∉ Instruction.undocumentedBytes →
    a.toNat + (machine.disassembleAt a).length ≤ Memory.size →
    (machine.startingAt a).accesses =
      fetches a (machine.disassembleAt a).bytes ++ (machine.startingAt a).dataAccesses

/-- The disassembly of an address agrees with what runs there exactly if the instruction ends below
the top. -/
theorem disassembles : machine.Disassembles a where
  eq_take := machine.disassembleAt_eq_take a
  describes_iff := machine.describes_iff a
  fetched h := accesses_eq_fetches h
  refused h := accesses_eq_fetches_of_not_steps h
  fetched_bytes hdocumented hle := by
    have hsteps : (machine.startingAt a).steps = true := steps_of_notMem hdocumented
    have hinstruction : (machine.startingAt a).instruction =
        Instruction.decode (machine.memory.read a) :=
      Instruction.executed_of_not_isUndocumented
        (Instruction.isUndocumented_decode_eq_false_iff.2 hdocumented)
    have hlength : (machine.startingAt a).instruction.length =
        (machine.disassembleAt a).length := by
      rw [hinstruction, disassembleAt_eq_cons]
      rfl
    rw [accesses_eq_fetches hsteps, ((machine.describes_iff a).2 hle).bytes_eq, ← hlength]
    rfl

/-- A machine with a load of a byte at the top of memory, the byte to be loaded past the top. -/
def aroundTop : Machine :=
  { ofConfig {} with memory := ((ofConfig {}).memory.set 0xffff 0x3e).set 0 0x05 }

theorem window_aroundTop : aroundTop.memory.window 0xffff = [0x3e, 0x05, 0x00] := by
  simp [Memory.window, aroundTop, Memory.read_set, ofConfig]

/-- The step takes the byte past the top, where the disassembler reads zero. -/
theorem not_describes_aroundTop :
    aroundTop.disassembleAt 0xffff = ⟨0xffff, [0x3e], 2, "MVI A,#$00"⟩ ∧
    (disassemble (aroundTop.memory.window 0xffff) 0).text = "MVI A,#$05" ∧
    (aroundTop.startingAt 0xffff).accesses = [.read 0xffff 0x3e, .read 0 0x05] ∧
    ¬ (aroundTop.disassembleAt 0xffff).Describes (aroundTop.memory.window 0xffff) := by
  have hshown : aroundTop.disassembleAt 0xffff = ⟨0xffff, [0x3e], 2, "MVI A,#$00"⟩ := by
    rw [disassembleAt_eq_take, window_aroundTop]
    decide +kernel
  have htext : (disassemble (aroundTop.memory.window 0xffff) 0).text = "MVI A,#$05" := by
    rw [window_aroundTop]
    decide +kernel
  have hopcode : aroundTop.memory.read 0xffff = 0x3e := (List.cons.inj window_aroundTop).1
  have hinstruction : (aroundTop.startingAt 0xffff).instruction = .mvi .a :=
    congrArg (fun v ↦ (Instruction.decode v).executed) hopcode
  have hsteps : (aroundTop.startingAt 0xffff).steps = true :=
    congrArg (fun v ↦ (aroundTop.startingAt 0xffff).cpu.accepts (.decode v)) hopcode
  have hne : "MVI A,#$00" ≠ "MVI A,#$05" := by decide
  refine ⟨hshown, htext, ?_, ?_⟩
  · rw [accesses_eq_fetches hsteps, dataAccesses, effect_eq hinstruction, hinstruction]
    change fetches 0xffff ((aroundTop.memory.window 0xffff).take 2) ++ [] = _
    rw [window_aroundTop]
    rfl
  · rintro ⟨hsame, -⟩
    rw [htext, hshown] at hsame
    exact hne hsame

end Machine

end Intel8080
