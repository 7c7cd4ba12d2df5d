import Intel8080.Proofs.Disassembly.Coverage
import Intel8080.Proofs.Disassembly.Text
import Intel8080.Proofs.Machine.Policy
import Intel8080.Proofs.Memory.Protection
import Intel8080.Proofs.Program.StraightLine

/-!
# What a listing tells of a run

An image in read-only memory stays as it is, so a run that starts at its first byte and never takes
control elsewhere goes down its listing line by line. Main statements: `pc_after`, the lines that a
run comes to, and `predictedBy_listing`, what the listing says of the run of an image on a new
machine.
-/

namespace Intel8080

/-! ## The run of an image -/

namespace Machine

/-- An image is in read-only memory, and the program counter is at its first byte. -/
structure AtImage (machine : Machine) (image : List UInt8) : Prop where
  stands : machine.memory.Stands machine.cpu.pc image
  readOnly : machine.cpu.pc.toNat + image.length ≤ machine.memory.map.romEnd
  romEnd_le : machine.memory.map.romEnd ≤ Memory.size

variable {machine : Machine} {image : List UInt8} {k : Nat} {d : Disassembly}

namespace AtImage

variable (h : machine.AtImage image)

include h

/-- Whatever runs, the image stays. -/
theorem stands_after (k : Nat) : (machine.after k).memory.Stands machine.cpu.pc image := by
  refine h.stands.congr fun i hi ↦ (machine.alike_after k).read_eq _ ?_
  have hlt : machine.cpu.pc.toNat + i < machine.memory.map.romEnd :=
    Nat.lt_of_lt_of_le (Nat.add_lt_add_left hi _) h.readOnly
  have hrom : machine.memory.map.region (machine.cpu.pc + UInt16.ofNat i) = .rom := by
    rwa [MemoryMap.region_eq_rom_iff, toNat_add_ofNat (Nat.lt_of_lt_of_le hlt h.romEnd_le)]
  rw [hrom]
  exact Region.noConfusion

/-- The opcode byte of a line is in memory throughout. -/
theorem read_line (hd : d ∈ listing image) (k : Nat) :
    (machine.after k).memory.read (machine.cpu.pc + UInt16.ofNat d.offset) =
      byteAt (image.drop d.offset) 0 := by
  have hstands := (h.stands_after k).drop d.offset
  rw [List.drop_eq_getElem_cons (offset_lt_of_mem hd)] at hstands ⊢
  exact hstands.1

theorem length_line (hd : d ∈ listing image) (k : Nat) : d.length = (Instruction.decode
    ((machine.after k).memory.read (machine.cpu.pc + UInt16.ofNat d.offset))).length := by
  rw [h.read_line hd, eq_disassemble_of_mem hd]
  rfl

/-- A run that never takes control elsewhere comes to one line after the other. -/
theorem pc_after (hk : k ≤ (listing image).length) (hstraight : machine.GoesStraight k) :
    (machine.after k).cpu.pc = machine.cpu.pc + UInt16.ofNat (span (listing image) k) := by
  induction k with
  | zero => simp
  | succ k ih =>
    obtain ⟨hbefore, hsteps, htransfers⟩ := goesStraight_succ_iff.1 hstraight
    have hd := List.getElem?_eq_getElem (Nat.lt_of_succ_le hk)
    have hpc := ih (Nat.le_of_succ_le hk) hbefore
    -- the image is as it was, so the byte at the program counter is that of the line
    rw [← offset_listing hd] at hpc
    rw [after_succ, pc_next hsteps htransfers, hpc, ← h.length_line (List.mem_of_getElem? hd) k,
      span_succ hd, ← offset_listing hd, UInt16.ofNat_add, UInt16.add_assoc]

/-- In straight-line code the program counter is at the line with the number of the step. -/
theorem pc_after_line (hd : (listing image)[k]? = some d) (hstraight : machine.GoesStraight k) :
    (machine.after k).cpu.pc = machine.cpu.pc + UInt16.ofNat d.offset := by
  obtain ⟨hk, -⟩ := List.getElem?_eq_some_iff.1 hd
  rw [h.pc_after (Nat.le_of_lt hk) hstraight, offset_listing hd]

/-- A step that goes on to the next line has fetched the bytes of its own, if they are all there. -/
theorem accesses_line (hd : (listing image)[k]? = some d) (hcomplete : d.bytes.length = d.length)
    (hstraight : machine.GoesStraight (k + 1)) : (machine.after k).accesses =
      fetches (machine.cpu.pc + UInt16.ofNat d.offset) d.bytes ++
        (machine.after k).dataAccesses := by
  obtain ⟨hbefore, hsteps, htransfers⟩ := goesStraight_succ_iff.1 hstraight
  have hmem := List.mem_of_getElem? hd
  have hpc := h.pc_after_line hd hbefore
  have hbytes : d.bytes = (image.drop d.offset).take d.length := by
    rw [eq_disassemble_of_mem hmem]
    rfl
  have hstands : (machine.after k).memory.Stands (machine.after k).cpu.pc d.bytes := by
    rw [hpc, hbytes]
    exact ((h.stands_after k).drop d.offset).take d.length
  have hlength : d.bytes.length =
      (Instruction.decode ((machine.after k).memory.read (machine.after k).cpu.pc)).length := by
    rw [hcomplete, hpc]
    exact h.length_line hmem k
  rw [accesses_of_stands hsteps htransfers hstands hlength, hpc]

end AtImage

/-! ## Lines of undocumented bytes -/

/-- A line that says that its byte is unknown shows a single byte, which is undocumented. -/
theorem bytes_of_unknown (hd : d ∈ listing image) (htext : d.text = "UNKNOWN") :
    d.bytes = [byteAt (image.drop d.offset) 0] ∧
      byteAt (image.drop d.offset) 0 ∈ Instruction.undocumentedBytes := by
  have heq := eq_disassemble_of_mem hd
  rw [heq] at htext
  have hundocumented := Instruction.text_eq_unknown_iff.1 htext
  obtain ⟨like, hlike⟩ := Instruction.exists_eq_undocumented hundocumented
  refine ⟨?_, Instruction.isUndocumented_decode_iff.1 hundocumented⟩
  have hlength : (disassemble image d.offset).length = 1 := congrArg Instruction.length hlike
  rw [heq, offset_disassemble, bytes_disassemble, hlength,
    List.drop_eq_getElem_cons (offset_lt_of_mem hd)]
  rfl

/-- Under the policy to reject, a line of an undocumented byte is the last that a run comes to. -/
theorem AtImage.refused (h : machine.AtImage image) (hpolicy : machine.cpu.policy = .reject)
    (hd : (listing image)[k]? = some d) (htext : d.text = "UNKNOWN")
    (hstraight : machine.GoesStraight k) : (machine.after k).steps = false ∧
      (machine.after k).refusal = .unknownOpcode (machine.cpu.pc + UInt16.ofNat d.offset)
        (byteAt (image.drop d.offset) 0) "UNKNOWN" := by
  have hpc := h.pc_after_line hd hstraight
  have hread := h.read_line (List.mem_of_getElem? hd) k
  have hbyte := (bytes_of_unknown (List.mem_of_getElem? hd) htext).2
  rw [steps_eq_false_iff, refusal, hpc, hread, policy_after]
  exact ⟨⟨hpolicy, hbyte⟩, rfl⟩

/-! ## The prediction -/

/-- What lines tell of the run of a machine that starts at an address: as long as no step fails or
takes control elsewhere, it is known which instructions run and what is fetched for them. -/
structure PredictedBy (machine : Machine) (a : UInt16) (lines : List Disassembly) : Prop where
  /-- One line is run after the other. -/
  pc_eq : ∀ k d, lines[k]? = some d → machine.GoesStraight k →
    (machine.after k).cpu.pc = a + UInt16.ofNat d.offset
  /-- Past the last line the program counter is past all instructions. -/
  pc_end : machine.GoesStraight lines.length →
    (machine.after lines.length).cpu.pc = a + UInt16.ofNat (span lines lines.length)
  /-- The bytes of a line that shows all bytes of its instruction are fetched, and no others are. -/
  fetched : ∀ k d, lines[k]? = some d → d.bytes.length = d.length → machine.GoesStraight (k + 1) →
    (machine.after k).accesses =
      fetches (a + UInt16.ofNat d.offset) d.bytes ++ (machine.after k).dataAccesses
  /-- Under the policy to reject, a run ends at a line of an undocumented byte. -/
  refused : machine.cpu.policy = .reject → ∀ k d, lines[k]? = some d → d.text = "UNKNOWN" →
    machine.GoesStraight k → ∃ opcode, d.bytes = [opcode] ∧
      (machine.after k).step.answer =
        .error (.unknownOpcode (a + UInt16.ofNat d.offset) opcode "UNKNOWN") ∧
      ∀ verbosity n, k < n →
        (machine.run verbosity n).answer.steps = k ∧
        (machine.run verbosity n).answer.error =
          some (.unknownOpcode (a + UInt16.ofNat d.offset) opcode "UNKNOWN")

/-- A listing tells how its image runs in read-only memory. -/
theorem AtImage.predictedBy (h : machine.AtImage image) :
    machine.PredictedBy machine.cpu.pc (listing image) where
  pc_eq _ _ := h.pc_after_line
  pc_end := h.pc_after (Nat.le_refl _)
  fetched _ _ := h.accesses_line
  refused hpolicy k d hd htext hstraight := by
    obtain ⟨hrefused, herror⟩ := h.refused hpolicy hd htext hstraight
    refine ⟨_, (bytes_of_unknown (List.mem_of_getElem? hd) htext).1, ?_, fun verbosity n hn ↦ ?_⟩
    · rw [step_of_not_steps hrefused, herror]
    · rw [answer_run_of_refused verbosity hstraight.goes hrefused hn, herror]
      exact ⟨rfl, rfl⟩

section Load

variable {config : MachineConfig} (hsound : config.error? = none)
  (hentry : config.entryPoint = config.loadAddress)
  (hfits : config.loadAddress.toNat + image.length ≤ config.romEnd)

include hsound hfits

/-- A new machine takes every image that fits its read-only memory. -/
theorem exists_load_ofConfig : ∃ loaded,
    (Memory.zeroed config.map).load config.loadAddress image = .ok loaded ∧
    (ofConfig config).load image =
      { answer := .ok ()
        state := { ofConfig config with memory := loaded }
        events := [.imageLoaded image.length config.loadAddress] } := by
  obtain ⟨hbounds, hsize⟩ := MachineConfig.error?_eq_none_iff.1 hsound
  have hload : (Memory.zeroed config.map).load config.loadAddress image = .ok _ :=
    Memory.load_eq_ok (Nat.le_trans hfits (Nat.le_trans hbounds hsize))
  exact ⟨_, hload, by simp only [load, ofConfig, hload]⟩

include hentry

/-- A machine into which an image was loaded stands at it. -/
theorem atImage_ofConfig {loaded : Memory}
    (hload : (Memory.zeroed config.map).load config.loadAddress image = .ok loaded) :
    AtImage { ofConfig config with memory := loaded } image := by
  obtain ⟨hbounds, hsize⟩ := MachineConfig.error?_eq_none_iff.1 hsound
  have hmap : loaded.map = config.map := Memory.map_load hload
  have hpc : (ofConfig config).cpu.pc = config.loadAddress := hentry
  constructor
  · change loaded.Stands (ofConfig config).cpu.pc image
    rw [hpc]
    exact Memory.stands_load hload
  · change (ofConfig config).cpu.pc.toNat + image.length ≤ loaded.map.romEnd
    rw [hpc, hmap]
    exact hfits
  · change loaded.map.romEnd ≤ Memory.size
    rw [hmap]
    exact Nat.le_trans hbounds hsize

/-- A listing tells how a new machine runs its image, if the machine starts where the image is
placed and all of the image is read-only. -/
theorem predictedBy_listing : ∃ fresh, create config = .ok fresh ∧
    (fresh.load image).answer = .ok () ∧
    (fresh.load image).state.PredictedBy config.loadAddress (listing image) := by
  obtain ⟨loaded, hload, hplaced⟩ := exists_load_ofConfig hsound hfits
  refine ⟨ofConfig config, create_eq_ok hsound, ?_, ?_⟩
  · rw [hplaced]
  · rw [hplaced, ← hentry]
    exact (atImage_ofConfig hsound hentry hfits hload).predictedBy

end Load

/-- A program that passes by a jump, which is not taken, and comes to an undocumented byte. -/
def passingBy : List UInt8 := [0xda, 0x34, 0x12, 0x08]

theorem predictedBy_listing_passingBy :
    ({} : MachineConfig).error? = none ∧
    ({} : MachineConfig).entryPoint = ({} : MachineConfig).loadAddress ∧
    ({} : MachineConfig).loadAddress.toNat + passingBy.length ≤ ({} : MachineConfig).romEnd ∧
    ∃ fresh, create {} = .ok fresh ∧ (fresh.load passingBy).answer = .ok () ∧
      let loaded := (fresh.load passingBy).state
      loaded.PredictedBy 0 (listing passingBy) ∧ loaded.GoesStraight 1 ∧
        (loaded.after 1).cpu.pc = 3 ∧ (loaded.run none 9).answer.steps = 1 := by
  have hfits : ({} : MachineConfig).loadAddress.toNat + passingBy.length ≤
      ({} : MachineConfig).romEnd := by decide
  obtain ⟨fresh, hcreate, hanswer, hpredicted⟩ :=
    predictedBy_listing MachineConfig.error?_default rfl hfits
  obtain rfl : ofConfig {} = fresh := Except.ok.inj ((create_eq_ok rfl).symm.trans hcreate)
  have hstraight : ((ofConfig {}).load passingBy).state.GoesStraight 1 := by
    obtain ⟨loaded, hload, hplaced⟩ := exists_load_ofConfig MachineConfig.error?_default hfits
    have hfetched : (ofConfig {}).cpu.fetched loaded = .jump (some .carry) :=
      congrArg Instruction.decode (Memory.stands_load hload).1
    rw [hplaced, goesStraight_succ_iff, after_zero, steps, transfers, past, instruction, hfetched]
    exact ⟨goesStraight_zero, rfl, rfl⟩
  have hd : (listing passingBy)[1]? = some ⟨3, [0x08], 1, "UNKNOWN"⟩ := by decide +kernel
  obtain ⟨_, -, -, hrun⟩ := hpredicted.refused rfl 1 _ hd rfl hstraight
  exact ⟨rfl, rfl, hfits, _, hcreate, hanswer, hpredicted, hstraight,
    hpredicted.pc_eq 1 _ hd hstraight, (hrun none 9 (by decide)).1⟩

end Machine

end Intel8080
