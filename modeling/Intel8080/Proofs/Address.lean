import Intel8080.Memory.Basic

/-!
# Addresses counted from another

Addresses wrap round at the top, so those that follow one another are told apart by how many there
are between them. Main statement: `add_ofNat_inj`.
-/

namespace Intel8080

variable {a : UInt16}

theorem add_one_add_ofNat (a : UInt16) (i : Nat) :
    a + 1 + UInt16.ofNat i = a + UInt16.ofNat (i + 1) := by
  rw [UInt16.ofNat_add, UInt16.add_comm (UInt16.ofNat i), ← UInt16.add_assoc]
  rfl

theorem add_two_add_ofNat (a : UInt16) (i : Nat) :
    a + 2 + UInt16.ofNat i = a + UInt16.ofNat (i + 2) := by
  rw [UInt16.ofNat_add, UInt16.add_comm (UInt16.ofNat i), ← UInt16.add_assoc]
  rfl

/-- Short of the top the addresses do not wrap round. -/
theorem toNat_add_ofNat {i : Nat} (h : a.toNat + i < Memory.size) :
    (a + UInt16.ofNat i).toNat = a.toNat + i := by
  rw [UInt16.toNat_add, UInt16.toNat_ofNat', Nat.add_mod_mod]
  exact Nat.mod_eq_of_lt h

/-- Within one round no address comes twice. -/
theorem add_ofNat_inj {i j : Nat} (hi : i < Memory.size) (hj : j < Memory.size)
    (h : a + UInt16.ofNat i = a + UInt16.ofNat j) : i = j := by
  have hnat := congrArg UInt16.toNat (UInt16.add_right_inj a |>.1 h)
  simp only [UInt16.toNat_ofNat'] at hnat
  exact (Nat.mod_eq_of_lt hi).symm.trans (hnat.trans (Nat.mod_eq_of_lt hj))

/-- No address is met again before all of the address space is gone through. -/
theorem ne_add_ofNat {i : Nat} (hpos : 0 < i) (hi : i < Memory.size) : a ≠ a + UInt16.ofNat i := by
  intro h
  have hzero : a + UInt16.ofNat 0 = a + UInt16.ofNat i := (UInt16.add_zero a).trans h
  exact absurd (add_ofNat_inj (by decide) hi hzero) (Nat.ne_of_lt hpos)

theorem ne_add_one (a : UInt16) : a ≠ a + 1 := ne_add_ofNat (i := 1) (by decide) (by decide)

end Intel8080
