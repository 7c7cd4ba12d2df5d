/-!
# Files by path

An image file is read in stages, and the first of them that fails tells why it is not read. What the
system answers to each stage is taken as it comes. A directory of files gives these answers from the
path alone. It stands for the system where a tool is tried on chosen files; the program asks the
system itself, and the results about the tools are for any way of reading files. Main statements:
`File.image_eq_ok_iff`, a file is read if no stage fails, and `Directory.read_file`, the files of a
directory are read under their names.
-/

namespace Intel8080.CommandLine

/-- Why the system does not do what it is asked. -/
inductive SystemError where
  | notFound
  | notADirectory
  | isADirectory
  | nameTooLong
  | other (reason : String)
deriving DecidableEq, Repr, Inhabited

def SystemError.reason : SystemError → String
  | notFound => "No such file or directory (os error 2)"
  | notADirectory => "Not a directory (os error 20)"
  | isADirectory => "Is a directory (os error 21)"
  | nameTooLong => "File name too long (os error 36)"
  | other reason => reason

/-- What is done one after the other to read a file. -/
inductive FileStage where
  | opening
  /-- The system is asked for the length. -/
  | measuring
  /-- The length is taken for a number of sixty-four bits. -/
  | counting
  /-- Room is made for that many bytes. -/
  | reserving (length : Nat)
  | reading
deriving DecidableEq, Repr, Inhabited

def FileStage.text (path : String) : FileStage → String
  | opening => "failed to open program image '" ++ path ++ "'"
  | measuring => "failed to stat program image '" ++ path ++ "'"
  | counting => "program image '" ++ path ++ "' is too large"
  | reserving length => "failed to allocate " ++ toString length ++ " bytes for '" ++ path ++ "'"
  | reading => "failed to read program image '" ++ path ++ "'"

/-- Why a file is not read. -/
structure FileFault where
  stage : FileStage
  error : SystemError
deriving DecidableEq, Repr, Inhabited

/-- The result of a stage, given what the system answers. -/
def FileStage.attempt {α : Type} (stage : FileStage) (answer : Except SystemError α) :
    Except FileFault α :=
  answer.mapError (FileFault.mk stage)

section Attempt

variable {α β : Type} {stage : FileStage} {answer : Except SystemError α}

@[simp] theorem FileStage.attempt_ok (a : α) : stage.attempt (.ok a) = .ok a := rfl

@[simp] theorem FileStage.attempt_error (e : SystemError) :
    stage.attempt (.error e : Except SystemError α) = .error ⟨stage, e⟩ := rfl

/-- A stage succeeds if the system does not refuse. -/
theorem FileStage.attempt_eq_ok_iff {a : α} : stage.attempt answer = .ok a ↔ answer = .ok a := by
  cases answer <;> simp

/-- What follows a stage takes over what the system answered. -/
theorem FileStage.attempt_bind_eq_ok_iff {next : α → Except FileFault β} {b : β} :
    (stage.attempt answer >>= next) = .ok b ↔ ∃ a, answer = .ok a ∧ next a = .ok b := by
  cases answer with
  | error e => exact iff_of_false nofun fun ⟨_, ha, _⟩ ↦ nomatch ha
  | ok a =>
    constructor
    · exact fun h ↦ ⟨a, rfl, h⟩
    · rintro ⟨_, ⟨⟩, h⟩
      exact h

end Attempt

/-- What the system answers about a file. A directory, for one, can be opened but not read. -/
structure File where
  opened : Except SystemError Unit
  length : Except SystemError Nat
  reserved : Except SystemError Unit
  bytes : Except SystemError (List UInt8)

namespace File

def counted (length : Nat) : Except SystemError Nat :=
  if length < UInt64.size then .ok length
  else .error (.other "out of range integral type conversion attempted")

/-- A length is counted only as far as sixty-four bits go. -/
theorem counted_eq_ok_iff {length count : Nat} :
    counted length = .ok count ↔ length < UInt64.size ∧ length = count := by
  by_cases h : length < UInt64.size
  · rw [counted, if_pos h, Except.ok.injEq, and_iff_right h]
  · simp only [counted, h, if_false, reduceCtorEq, false_and]

/-- Reads a file stage by stage. -/
def image (file : File) : Except FileFault (List UInt8) := do
  FileStage.opening.attempt file.opened
  let length ← FileStage.measuring.attempt file.length
  let count ← FileStage.counting.attempt (counted length)
  (FileStage.reserving count).attempt file.reserved
  FileStage.reading.attempt file.bytes

/-- A file is read if no stage fails. -/
theorem image_eq_ok_iff {file : File} {image : List UInt8} : file.image = .ok image ↔
    file.opened = .ok () ∧ (∃ length, file.length = .ok length ∧ length < UInt64.size) ∧
      file.reserved = .ok () ∧ file.bytes = .ok image := by
  simp only [File.image, FileStage.attempt_bind_eq_ok_iff, FileStage.attempt_eq_ok_iff,
    counted_eq_ok_iff]
  constructor
  · rintro ⟨⟨⟩, hopened, length, hlength, _, ⟨hlt, -⟩, ⟨⟩, hreserved, hbytes⟩
    exact ⟨hopened, ⟨length, hlength, hlt⟩, hreserved, hbytes⟩
  · rintro ⟨hopened, ⟨length, hlength, hlt⟩, hreserved, hbytes⟩
    exact ⟨(), hopened, length, hlength, length, ⟨hlt, rfl⟩, (), hreserved, hbytes⟩

def ofBytes (bytes : List UInt8) : File := ⟨.ok (), .ok bytes.length, .ok (), .ok bytes⟩

def unopened (error : SystemError) : File := ⟨.error error, .error error, .ok (), .error error⟩

/-- A directory in place of a file. -/
def directory : File := ⟨.ok (), .ok 0, .ok (), .error .isADirectory⟩

end File

/-- A directory that holds files and no further directories. -/
structure Directory where
  files : List (String × List UInt8)
deriving DecidableEq, Repr, Inhabited

namespace Directory

def parts : List Char → List (List Char)
  | [] => [[]]
  | c :: rest =>
    if c = '/' then [] :: parts rest
    else match parts rest with
      | part :: more => (c :: part) :: more
      | [] => [[c]]

def stays (part : List Char) : Bool := part == [] || part == ['.']

/-- The greatest number of bytes of a name. -/
def maxName : Nat := 255

/-- The greatest number of bytes of a path. -/
def maxPath : Nat := 4095

/-- What there is under a name that nothing has. -/
def missing (name : String) : File :=
  .unopened (if maxName < name.utf8ByteSize then .nameTooLong else .notFound)

/-- Follows the parts of a path outside the directory. There every name is missing. -/
def followOutside : List (List Char) → File
  | [] => .directory
  | part :: rest =>
    if stays part ∨ part = ['.', '.'] then followOutside rest else missing (String.ofList part)

/-- Follows the parts of a path from the directory on. -/
def follow (directory : Directory) : List (List Char) → File
  | [] => .directory
  | part :: rest =>
    if stays part then directory.follow rest
    else if part = ['.', '.'] then followOutside rest
    else match directory.files.lookup (String.ofList part) with
      | none => missing (String.ofList part)
      | some bytes => if rest = [] then .ofBytes bytes else .unopened .notADirectory

def file (directory : Directory) (path : String) : File :=
  if maxPath < path.utf8ByteSize then .unopened .nameTooLong
  else match path.toList with
    | [] => .unopened .notFound
    | '/' :: rest => followOutside (parts rest)
    | chars => directory.follow (parts chars)

def read (directory : Directory) (path : String) : Except FileFault (List UInt8) :=
  (directory.file path).image

theorem parts_of_no_slash {chars : List Char} (h : '/' ∉ chars) : parts chars = [chars] := by
  induction chars with
  | nil => rfl
  | cons c rest ih =>
    rw [List.mem_cons, not_or] at h
    simp [parts, ih h.2, Ne.symm h.1]

/-- The files of a directory are found under their names. -/
theorem file_eq_ofBytes {directory : Directory} {name : String} {bytes : List UInt8}
    (hsize : name.utf8ByteSize ≤ maxPath) (hslash : '/' ∉ name.toList)
    (hname : name ∉ ["", ".", ".."]) (hfile : directory.files.lookup name = some bytes) :
    directory.file name = .ofBytes bytes := by
  have hne : ∀ s : String, name ≠ s → name.toList ≠ s.toList :=
    fun s h e ↦ h (String.toList_inj.1 e)
  simp only [List.mem_cons, List.not_mem_nil, or_false, not_or] at hname
  have hempty : name.toList ≠ [] := hne "" hname.1
  have hdot : name.toList ≠ ['.'] := hne "." hname.2.1
  have hdots : name.toList ≠ ['.', '.'] := hne ".." hname.2.2
  rw [file, if_neg (Nat.not_lt.2 hsize)]
  split
  · next h => exact absurd h hempty
  · next h => simp [h] at hslash
  · simp [parts_of_no_slash hslash, follow, stays, hempty, hdot, hdots, hfile]

/-- They are read under their names, if their lengths are numbers of sixty-four bits. -/
theorem read_file {directory : Directory} {name : String} {bytes : List UInt8}
    (hsize : name.utf8ByteSize ≤ maxPath) (hslash : '/' ∉ name.toList)
    (hname : name ∉ ["", ".", ".."]) (hfile : directory.files.lookup name = some bytes)
    (hlength : bytes.length < UInt64.size) : directory.read name = .ok bytes := by
  rw [read, file_eq_ofBytes hsize hslash hname hfile, File.image_eq_ok_iff]
  exact ⟨rfl, ⟨_, rfl, hlength⟩, rfl, rfl⟩

end Directory

end Intel8080.CommandLine
