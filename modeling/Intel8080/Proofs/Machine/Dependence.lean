import Intel8080.Proofs.Machine.Refusal
import Intel8080.Proofs.Machine.Traffic

/-!
# What a run depends on

A run takes some bytes from its memory, those that it reads before it has stored others in their
place, and no other byte has a part in what it does. Main statements: `retraces_of_read_eq`, a run
from a memory with the same bytes where they are taken does the same; `next_place`, to place an
image where a step accesses nothing commutes with the step; and `retraces`, which says both.
-/

namespace Intel8080.Machine

/-- For a number of steps another machine does in its own memory what a machine does. -/
structure Retraces (machine other : Machine) (n : Nat) : Prop extends
    machine.RunsAlike other n where
  /-- Where a byte was stored, the memories end up the same. -/
  stored : ∀ a v, .write a v none ∈ machine.traffic n →
    (other.after n).memory.read a = (machine.after n).memory.read a
  /-- Every other byte is in both of them as it was. -/
  kept : ∀ a, (∀ v, .write a v none ∉ machine.traffic n) →
    (machine.after n).memory.read a = machine.memory.read a ∧
    (other.after n).memory.read a = other.memory.read a

variable {machine other : Machine} {n : Nat} {a : UInt16}

/-- A step of a run finds the bytes it reads as they were in another one: they were taken from the
memory, or the run has stored them itself. -/
theorem answeredAlike_after {k : Nat} (hmap : other.memory.map = machine.memory.map)
    (hread : ∀ a, Access.ReadsFirst a (machine.traffic n) →
      other.memory.read a = machine.memory.read a) (hk : k < n) (hgoes : machine.Goes k)
    (hcpu : (other.after k).cpu = (machine.after k).cpu)
    (htraffic : other.traffic k = machine.traffic k) :
    (machine.after k).AnsweredAlike (other.after k) where
  cpu_eq := hcpu
  read_eq a v hmem := by
    rw [read_after, read_after, htraffic]
    cases hleft : Access.left (machine.traffic k) a with
    | some w => rfl
    | none =>
      obtain ⟨later, heq⟩ := exists_traffic_eq_append_accesses hk hgoes
      refine hread a ?_
      rw [heq]
      refine Access.readsFirst_append_iff.2 (.inr ⟨hleft, ?_⟩)
      exact Access.readsFirst_append_iff.2 (.inl (readsFirst_of_mem_accesses hmem))
  refusal?_eq a v fault _ := by rw [map_after, map_after, hmap]

/-- It is enough that the bytes agree that the run takes from memory before it writes them. -/
theorem retraces_of_read_eq (hcpu : other.cpu = machine.cpu)
    (hmap : other.memory.map = machine.memory.map)
    (hread : ∀ a, Access.ReadsFirst a (machine.traffic n) →
      other.memory.read a = machine.memory.read a) : machine.Retraces other n := by
  have halike : machine.RunsAlike other n :=
    runsAlike_of_answeredAlike hcpu fun k ↦ answeredAlike_after hmap hread
  have htraffic := halike.traffic_eq n n.le_refl
  refine ⟨halike, fun a v hmem ↦ ?_, fun a ha ↦ ?_⟩
  · rw [read_after, read_after, htraffic]
    cases hleft : Access.left (machine.traffic n) a with
    | some w => rfl
    | none => exact absurd hmem (Access.left_eq_none_iff.1 hleft v)
  · rw [read_after, read_after, htraffic, Access.left_eq_none_iff.2 ha]
    exact ⟨rfl, rfl⟩

/-! ## Bytes that a step does not access -/

/-- The byte at an address once an image is placed, given the byte before. -/
def overlay (a : UInt16) (image : List UInt8) (b : UInt16) (v : UInt8) : UInt8 :=
  if a.toNat + image.length ≤ Memory.size ∧ a ≤ b then image.getD (b.toNat - a.toNat) v else v

theorem apply_place_eq_mapBytes (machine : Machine) (a : UInt16) (image : List UInt8) :
    (Operation.place a image).apply machine = machine.mapBytes (overlay a image) := by
  have hmachine : ∀ memory, machine.memory.mapBytes (overlay a image) = memory →
      { machine with memory } = machine.mapBytes (overlay a image) := by
    rintro memory rfl
    rfl
  rcases Nat.lt_or_ge Memory.size (a.toNat + image.length) with h | h
  · simp only [Operation.apply, Memory.load_eq_error h]
    refine hmachine _ (Memory.ext (fun b ↦ ?_) rfl)
    rw [Memory.read_mapBytes, overlay, if_neg fun hfits ↦ absurd hfits.1 (Nat.not_le.2 h)]
  · have hload := machine.memory.load_eq_ok h
    simp only [Operation.apply, hload]
    refine hmachine _ (Memory.ext (fun b ↦ ?_) rfl)
    rw [Memory.read_mapBytes, Memory.read_load hload, overlay]
    simp only [h, true_and]

theorem overlay_of_outside {image : List UInt8} {b : UInt16}
    (h : b < a ∨ a.toNat + image.length ≤ b.toNat) (v : UInt8) : overlay a image b v = v := by
  unfold overlay
  split
  · next hcovered =>
    have ha := UInt16.le_iff_toNat_le.1 hcovered.2
    have hbeyond : image.length ≤ b.toNat - a.toNat := by
      rcases h with h | h
      · have := UInt16.lt_iff_toNat_lt.1 h
        omega
      · omega
    rw [List.getD_eq_getElem?_getD, List.getElem?_eq_none hbeyond, Option.getD_none]
  · rfl

/-- To place an image where a step accesses nothing comes to the same before the step and after
it. -/
theorem next_place {image : List UInt8} (haccess : ∀ access ∈ machine.accesses,
      access.address < a ∨ a.toNat + image.length ≤ access.address.toNat) :
    let placed := (Operation.place a image).apply machine
    placed.step.answer = machine.step.answer ∧ placed.accesses = machine.accesses ∧
      placed.next = (Operation.place a image).apply machine.next := by
  have hfixed : ∀ access ∈ machine.accesses, ∀ v, overlay a image access.address v = v :=
    fun access hmem ↦ overlay_of_outside (haccess access hmem)
  have hacts := (answeredAlike_mapBytes hfixed).actsAlike
  simp only [apply_place_eq_mapBytes]
  exact ⟨hacts.answer_step_eq, hacts.accesses_eq, next_mapBytes_of_fixed hfixed⟩

/-- A run depends on the bytes that it takes from its memory and on no others: with these bytes any
memory does. So to place an image where a step accesses nothing commutes with the step. -/
theorem retraces :
    (∀ (machine other : Machine) (n : Nat), other.cpu = machine.cpu →
      other.memory.map = machine.memory.map →
      (∀ a, Access.ReadsFirst a (machine.traffic n) →
        other.memory.read a = machine.memory.read a) →
      machine.Retraces other n) ∧
    ∀ (machine : Machine) (a : UInt16) (image : List UInt8),
      (∀ access ∈ machine.accesses,
        access.address < a ∨ a.toNat + image.length ≤ access.address.toNat) →
      let placed := (Operation.place a image).apply machine
      placed.step.answer = machine.step.answer ∧ placed.accesses = machine.accesses ∧
        placed.next = (Operation.place a image).apply machine.next :=
  ⟨fun _ _ _ hcpu hmap hread ↦ retraces_of_read_eq hcpu hmap hread,
    fun _ _ _ haccess ↦ next_place haccess⟩

/-- A program that clears a byte before it counts in it. -/
def clearing : Machine where
  cpu := { h := 0x30 }
  memory := (((Memory.zeroed .flat).set 0 0x36).set 1 0x00).set 2 0x34
  config := {}

theorem retraces_clearing :
    (∀ a, Access.ReadsFirst a (clearing.traffic 2) →
      (clearing.memory.set 0x3000 0xaa).read a = clearing.memory.read a) ∧
    clearing.Retraces { clearing with memory := clearing.memory.set 0x3000 0xaa } 2 ∧
    ((Operation.place 0x2ffe [0x01, 0x02]).apply clearing).next =
      (Operation.place 0x2ffe [0x01, 0x02]).apply clearing.next := by
  have htraffic : clearing.traffic 2 = [.read 0 0x36, .read 1 0x00, .write 0x3000 0x00 none,
      .read 2 0x34, .read 0x3000 0x00, .write 0x3000 0x01 none] := by decide +kernel
  have hread : ∀ a, Access.ReadsFirst a (clearing.traffic 2) →
      (clearing.memory.set 0x3000 0xaa).read a = clearing.memory.read a := by
    intro a ha
    refine Memory.read_set_of_ne ?_
    rintro rfl
    simp [htraffic] at ha
  have haccess : ∀ access ∈ clearing.accesses,
      access.address < 0x2ffe ∨ (0x2ffe : UInt16).toNat + 2 ≤ access.address.toNat := by
    decide +kernel
  exact ⟨hread, retraces.1 clearing _ 2 rfl rfl hread,
    (retraces.2 clearing 0x2ffe [0x01, 0x02] haccess).2.2⟩

end Intel8080.Machine
