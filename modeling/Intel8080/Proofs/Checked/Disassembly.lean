import Intel8080.Proofs.Checked.Basic
import Intel8080.Proofs.Disassembly.Coverage

/-!
# Checked disassembly

Offsets of an image are counted in sixty-four bits, and those of the bytes of an instruction are
sums, which may not fit. Main statements: `checkedDisassemble_eq_ok`, where they do, and
`checkedListing_eq_ok`, in a listing they always do.
-/

namespace Intel8080

open Checked

/-- The bytes of an image. Nothing takes more than half of an address space of sixty-four bits. -/
structure Image where
  bytes : List UInt8
  length_lt : bytes.length < 2 ^ 63

def checkedByteAt (image : List UInt8) (offset distance : Nat) : Checked UInt8 := do
  let index ← sum 64 offset distance
  return byteAt image index

/-- The instruction at an offset of an image. No bytes are shown from beyond the end. -/
def checkedDisassemble (image : List UInt8) (offset : Nat) : Checked Disassembly := do
  let opcode ← checkedByteAt image offset 0
  let i ← Instruction.checkedDecode opcode
  let length ← i.checkedLength
  let low ← checkedByteAt image offset 1
  let high ← checkedByteAt image offset 2
  let stop ← sum 64 offset length
  return {
    offset
    bytes := image.extract offset (min stop image.length)
    length
    text := i.text (wordOf high low) }

/-- The instruction at an offset of an image and the offset of what follows it, unless the offset is
at the end. -/
def checkedNext (image : List UInt8) (offset : Nat) : Checked (Option (Disassembly × Nat)) :=
  if image.length ≤ offset then return none
  else do
    let d ← checkedDisassemble image offset
    let following ← sum 64 offset d.length
    return some (d, following)

variable {image : List UInt8} {offset : Nat}

/-- An index that fits its width is compared with the length before it is used. -/
theorem checkedByteAt_eq_ok {distance : Nat} (h : offset + distance < 2 ^ 64) :
    checkedByteAt image offset distance = .ok (byteAt (image.drop offset) distance) := by
  rw [checkedByteAt, sum_eq_ok h, ok_bind, pure_eq_ok]
  simp [byteAt]

/-- The offset after the last one is no number of sixty-four bits. -/
example : checkedByteAt [] 0xffffffffffffffff 1 = .error .overflow := rfl

/-- Where the offsets of all its bytes are numbers of sixty-four bits, so is that of what follows,
and an instruction is disassembled. -/
theorem checkedDisassemble_eq_ok (h : offset + 3 < 2 ^ 64) :
    checkedDisassemble image offset = .ok (disassemble image offset) := by
  have hbyte {distance : Nat} (hd : distance < 3) :
      checkedByteAt image offset distance = .ok (byteAt (image.drop offset) distance) :=
    checkedByteAt_eq_ok (by omega)
  have hfits : offset + (disassemble image offset).length < 2 ^ 64 :=
    Nat.lt_of_le_of_lt (Nat.add_le_add_left (length_disassemble_le image offset) offset) h
  have hstop : sum 64 offset (Instruction.decode (byteAt (image.drop offset) 0)).length =
      .ok (offset + (disassemble image offset).length) := sum_eq_ok hfits
  rw [checkedDisassemble, hbyte (by decide), ok_bind, Instruction.checkedDecode_eq_ok, ok_bind,
    Instruction.checkedLength_eq_ok, ok_bind, hbyte (by decide), ok_bind, hbyte (by decide),
    ok_bind, hstop, ok_bind, ← bytes_disassemble_eq_extract]
  rfl

/-- No instruction is empty, so that a listing goes on. -/
theorem length_pos_of_checkedDisassemble {d : Disassembly}
    (h : checkedDisassemble image offset = .ok d) : 0 < d.length := by
  simp only [checkedDisassemble, bind_eq_ok] at h
  obtain ⟨_, _, i, _, length, hlength, _, _, _, _, _, _, hd⟩ := h
  cases hd
  show 0 < length
  rw [← (sum_eq_ok_iff.1 hlength).2]
  omega

/-- Every instruction takes a listing on. -/
theorem lt_of_checkedNext {d : Disassembly} {following : Nat}
    (h : checkedNext image offset = .ok (some (d, following))) :
    offset < image.length ∧ offset < following := by
  unfold checkedNext at h
  split at h
  · cases h
  · next hoffset =>
    simp only [bind_eq_ok] at h
    obtain ⟨_, hd, _, hfollowing, hpair⟩ := h
    cases hpair
    have hpos := length_pos_of_checkedDisassemble hd
    have hsum := (sum_eq_ok_iff.1 hfollowing).2
    omega

def checkedLinesFrom (image : List UInt8) (offset : Nat) : Checked (List Disassembly) :=
  match _h : checkedNext image offset with
  | .error failure => throw failure
  | .ok none => return []
  | .ok (some (d, following)) => do
    let lines ← checkedLinesFrom image following
    return d :: lines
termination_by image.length - offset
decreasing_by
  have hlt := lt_of_checkedNext _h
  omega

def checkedListing (image : List UInt8) : Checked (List Disassembly) := checkedLinesFrom image 0

variable (h : image.length + 2 < 2 ^ 64)

include h

/-- The offset of the next instruction does not overflow. -/
theorem checkedNext_eq_ok (offset : Nat) : checkedNext image offset =
    .ok (if offset < image.length then
      some (disassemble image offset, offset + (disassemble image offset).length) else none) := by
  have hle := length_disassemble_le image offset
  rw [checkedNext]
  split
  · next hend => rw [if_neg (Nat.not_lt.2 hend), pure_eq_ok]
  · next hlt =>
    rw [if_pos (Nat.lt_of_not_le hlt), checkedDisassemble_eq_ok (by omega), ok_bind,
      sum_eq_ok (by omega), ok_bind, pure_eq_ok]

theorem checkedLinesFrom_eq_ok (offset : Nat) :
    checkedLinesFrom image offset = .ok (linesFrom offset (image.drop offset)) := by
  fun_induction checkedLinesFrom image offset with
  | case1 offset failure hnext =>
    rw [checkedNext_eq_ok h] at hnext
    cases hnext
  | case2 offset hnext =>
    rw [checkedNext_eq_ok h] at hnext
    split at hnext
    · cases hnext
    · next hend => rw [List.drop_eq_nil_of_le (Nat.le_of_not_lt hend), linesFrom_nil, pure_eq_ok]
  | case3 offset d following hnext ih =>
    rw [checkedNext_eq_ok h] at hnext
    split at hnext
    · next hlt =>
      cases hnext
      rw [ih, ok_bind, pure_eq_ok, linesFrom_drop_of_lt hlt]
    · cases hnext

omit h

/-- No listing leaves the offsets of sixty-four bits. -/
theorem checkedListing_eq_ok (image : Image) :
    checkedListing image.bytes = .ok (listing image.bytes) := by
  have hlength := image.length_lt
  rw [checkedListing, checkedLinesFrom_eq_ok (by omega), List.drop_zero, listing]

end Intel8080
