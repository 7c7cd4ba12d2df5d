import Intel8080.Bus.Basic

/-!
# Recorded accesses

A bus that behaves as another one and keeps a list of what happened on it. Main statements:
recording changes no answer, `fst_read` and `fst_write`, and forgetting the record gives the
underlying bus, `bus_snd_read` and `bus_snd_write`.
-/

namespace Intel8080

/-- One access to a bus with its outcome. -/
inductive Access where
  | read (address : UInt16) (value : UInt8)
  | write (address : UInt16) (value : UInt8) (fault : Option WriteFault)
deriving DecidableEq, Repr, Inhabited

/-- A bus with the accesses made to it, oldest first. -/
structure Recorder (σ : Type) where
  bus : σ
  accesses : List Access

namespace Recorder

variable {σ : Type} [Bus σ]

/-- A bus on which nothing has happened yet. -/
def start (bus : σ) : Recorder σ := ⟨bus, []⟩

instance : Bus (Recorder σ) where
  read a recorder :=
    match recorder with
    | ⟨bus, accesses⟩ =>
      let (v, bus) := Bus.read a bus
      (v, ⟨bus, accesses ++ [.read a v]⟩)
  write a v recorder :=
    match recorder with
    | ⟨bus, accesses⟩ =>
      let (fault, bus) := Bus.write a v bus
      (fault, ⟨bus, accesses ++ [.write a v fault]⟩)

variable (a : UInt16) (v : UInt8) (recorder : Recorder σ)

@[simp] theorem fst_read : (Bus.read a recorder).1 = (Bus.read a recorder.bus).1 := rfl

@[simp] theorem bus_snd_read : (Bus.read a recorder).2.bus = (Bus.read a recorder.bus).2 := rfl

@[simp] theorem accesses_snd_read : (Bus.read a recorder).2.accesses =
    recorder.accesses ++ [.read a (Bus.read a recorder.bus).1] := rfl

@[simp] theorem fst_write : (Bus.write a v recorder).1 = (Bus.write a v recorder.bus).1 := rfl

@[simp] theorem bus_snd_write :
    (Bus.write a v recorder).2.bus = (Bus.write a v recorder.bus).2 := rfl

@[simp] theorem accesses_snd_write : (Bus.write a v recorder).2.accesses =
    recorder.accesses ++ [.write a v (Bus.write a v recorder.bus).1] := rfl

end Recorder

end Intel8080
