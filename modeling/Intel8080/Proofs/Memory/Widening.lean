import Intel8080.Proofs.Machine.Traffic

/-!
# Wider windows

The memory map has no part in what a machine does but to refuse writes, so a run that sees none
refused is the same under every map that lets more be written. Main statements:
`answeredAlike_of_within`, a step of such a run is answered alike, and `unguarded`, the whole run is
the same, under the flat map above all.
-/

namespace Intel8080

/-- Whatever may be written under a map may be written under a wider one. -/
def MemoryMap.Within (map wider : MemoryMap) : Prop :=
  ∀ a, map.region a = .ram → wider.region a = .ram

theorem MemoryMap.within_flat (map : MemoryMap) : map.Within .flat :=
  fun a _ ↦ region_eq_ram_iff.2 ⟨Nat.zero_le _, a.toNat_lt⟩

namespace Machine

/-- Two machines that are the same up to their memory maps and their set-ups. -/
structure AlikeButMap (m₁ m₂ : Machine) : Prop where
  cpu_eq : m₂.cpu = m₁.cpu
  read_eq : ∀ a, m₂.memory.read a = m₁.memory.read a

/-- For a number of steps another machine does under its own memory map what a machine does, and
sees no write refused. -/
structure Unguarded (machine other : Machine) (n : Nat) : Prop extends
    machine.RunsAlike other n where
  /-- All bytes of the memories are the same throughout. -/
  read_eq : ∀ k ≤ n, ∀ a, (other.after k).memory.read a = (machine.after k).memory.read a
  refusals_eq : other.refusals n = []
  faults_eq : (other.after n).cpu.faults = other.cpu.faults

variable {machine other : Machine} {n k : Nat}

/-- Runs with the same accesses, none of them refused, leave the same bytes. -/
theorem AlikeButMap.read_after_eq (h : machine.AlikeButMap other)
    (htraffic : other.traffic k = machine.traffic k) (a : UInt16) :
    (other.after k).memory.read a = (machine.after k).memory.read a := by
  rw [read_after, read_after, htraffic, h.read_eq]

/-- A write that is not refused is not refused under a wider map either. -/
theorem answeredAlike_of_within (h : machine.AlikeButMap other)
    (hwider : machine.memory.map.Within other.memory.map) (hnone : machine.refusals n = [])
    (hk : k < n) (hgoes : machine.Goes k) (hcpu : (other.after k).cpu = (machine.after k).cpu)
    (htraffic : other.traffic k = machine.traffic k) :
    (machine.after k).AnsweredAlike (other.after k) where
  cpu_eq := hcpu
  read_eq a _ _ := h.read_after_eq htraffic a
  refusal?_eq a v fault hmem := by
    have hfault := eq_refusal?_of_mem_accesses hmem
    rw [map_after] at hfault
    have haccepted : machine.memory.map.refusal? a v = none := by
      obtain ⟨later, heq⟩ := exists_traffic_eq_append_accesses hk hgoes
      rw [refusals, heq, List.filterMap_eq_nil_iff] at hnone
      exact hfault ▸ hnone _ (List.mem_append_right _ (List.mem_append_left _ hmem))
    have hregion := hwider a (MemoryMap.refusal?_eq_none_iff_region.1 haccepted)
    rw [map_after, map_after, haccepted, MemoryMap.refusal?_eq_none_iff_region.2 hregion]

/-- A run of which no write is refused does not notice a wider map. -/
theorem unguarded_of_within (h : machine.AlikeButMap other)
    (hwider : machine.memory.map.Within other.memory.map) (hnone : machine.refusals n = []) :
    machine.Unguarded other n := by
  have halike : machine.RunsAlike other n :=
    runsAlike_of_answeredAlike h.cpu_eq fun k ↦ answeredAlike_of_within h hwider hnone
  have hnone' : other.refusals n = [] := by
    rw [refusals, halike.traffic_eq n n.le_refl]
    exact hnone
  refine ⟨halike, fun k hk ↦ h.read_after_eq (halike.traffic_eq k hk), hnone', ?_⟩
  rw [faults_after, hnone', FaultLog.recordAll_nil]

/-- A run that sees no write refused, as the counter of faults tells while it has room, is the same
under every wider memory map, the flat one among them. -/
theorem unguarded :
    (∀ (machine other : Machine) (n : Nat), machine.AlikeButMap other →
      machine.memory.map.Within other.memory.map → machine.refusals n = [] →
      machine.Unguarded other n) ∧
    (∀ (machine other : Machine) (n : Nat), machine.AlikeButMap other →
      other.memory.map = .flat → machine.refusals n = [] → machine.Unguarded other n) ∧
    ∀ (machine : Machine) (verbosity : Verbosity) (n : Nat),
      machine.cpu.faults.count < FaultLog.maxCount →
      (machine.refusals n = [] ↔
        (machine.run verbosity n).state.cpu.faults.count = machine.cpu.faults.count) := by
  refine ⟨fun _ _ _ ↦ unguarded_of_within, fun machine other n h hflat ↦ ?_,
    fun machine verbosity n hcount ↦ ?_⟩
  · exact unguarded_of_within h (hflat ▸ machine.memory.map.within_flat)
  · rw [state_run]
    exact refusals_eq_nil_iff hcount

/-- A program on the arcade board that counts in the first byte of its writable memory and then
comes to an undocumented byte. -/
def counting : Machine where
  cpu := { h := 0x20 }
  memory := ((Memory.zeroed .spaceInvaders).set 0 0x34).set 1 0x08
  config := {}

theorem unguarded_counting :
    counting.memory.map.Within .flat ∧ counting.refusals 3 = [] ∧
    counting.Unguarded { counting with memory := { counting.memory with map := .flat } } 3 ∧
    (counting.run none 3).state.cpu.faults.count = 0 := by
  have hnone : counting.refusals 3 = [] := by decide +kernel
  have halike : counting.AlikeButMap
      { counting with memory := { counting.memory with map := .flat } } := ⟨rfl, fun _ ↦ rfl⟩
  exact ⟨MemoryMap.within_flat _, hnone,
    unguarded.1 counting _ 3 halike (MemoryMap.within_flat _) hnone,
    (unguarded.2.2 counting none 3 (by decide)).1 hnone⟩

end Machine

end Intel8080
