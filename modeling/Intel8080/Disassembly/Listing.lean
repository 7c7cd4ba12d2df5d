import Intel8080.Disassembly.Basic

/-!
# Listings

A whole image disassembled from its first byte on, one instruction after the other. Main statements:
`linesFrom_cons`, a listing is its first instruction and the listing of what follows it; and
`bytes_listing`, the bytes of all lines together are the image.
-/

namespace Intel8080

/-- The instructions of the bytes from an offset on, put after those already listed, of which the
last comes first. -/
def walk (offset : Nat) (bytes : List UInt8) (listed : List Disassembly) : List Disassembly :=
  match bytes with
  | [] => listed.reverse
  | opcode :: rest =>
    let d := disassembleAt offset (opcode :: rest)
    walk (offset + d.length) (rest.drop (Instruction.decode opcode).operandBytes) (d :: listed)
termination_by bytes.length
decreasing_by
  simp only [List.length_cons, List.length_drop]
  omega

def linesFrom (offset : Nat) (bytes : List UInt8) : List Disassembly := walk offset bytes []

def listing (image : List UInt8) : List Disassembly := linesFrom 0 image

/-- The text of a listing: each line with a line break after it. -/
def listingText (image : List UInt8) : String :=
  String.join ((listing image).map fun d ↦ d.line ++ "\n")

/-- What was listed before stays in front of what is listed now. -/
theorem walk_eq (offset : Nat) (bytes : List UInt8) (listed : List Disassembly) :
    walk offset bytes listed = listed.reverse ++ linesFrom offset bytes := by
  suffices ∀ listed earlier, walk offset bytes (listed ++ earlier) =
      earlier.reverse ++ walk offset bytes listed by
    simpa [linesFrom] using this [] listed
  intro listed earlier
  fun_induction walk offset bytes listed with
  | case1 => simp [walk]
  | case2 offset listed opcode rest d ih =>
    rw [walk]
    exact ih

@[simp] theorem linesFrom_nil (offset : Nat) : linesFrom offset [] = [] := by
  simp [linesFrom, walk]

/-- A listing is its first instruction and the listing of what follows it. -/
theorem linesFrom_cons (offset : Nat) (opcode : UInt8) (rest : List UInt8) :
    linesFrom offset (opcode :: rest) =
      disassembleAt offset (opcode :: rest) ::
        linesFrom (offset + (Instruction.decode opcode).length)
          (rest.drop (Instruction.decode opcode).operandBytes) := by
  rw [linesFrom, walk, walk_eq]
  rfl

/-- The bytes of all lines together are the image. -/
theorem flatMap_bytes_linesFrom (offset : Nat) (bytes : List UInt8) :
    (linesFrom offset bytes).flatMap Disassembly.bytes = bytes := by
  induction h : bytes.length using Nat.strongRecOn generalizing offset bytes with
  | ind n ih =>
    cases bytes with
    | nil => simp
    | cons opcode rest =>
      have hlt : (rest.drop (Instruction.decode opcode).operandBytes).length < n := by
        simp at h ⊢
        omega
      rw [linesFrom_cons, List.flatMap_cons, ih _ hlt _ _ rfl]
      simp [disassembleAt, byteAt, Instruction.length, Nat.add_comm 1, List.take_append_drop]

/-- The lines of a listing show all bytes of the image, each of them once. -/
@[simp] theorem bytes_listing (image : List UInt8) :
    (listing image).flatMap Disassembly.bytes = image :=
  flatMap_bytes_linesFrom 0 image

end Intel8080
