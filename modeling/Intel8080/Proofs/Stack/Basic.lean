import Intel8080.Proofs.Bus.Writes

/-!
# Words stacked in memory

A list of words, the first on top, and what it is for a memory to hold them: each word low byte
first, one word above the other, with addresses that wrap round at the top. Main statements:
`Holds.congr`, which bytes matter, and `Holds.put`, storing a word below the stack.
-/

namespace Intel8080

namespace Memory

/-- The words lie in memory one above the other from an address on. -/
def Holds (memory : Memory) : UInt16 → List UInt16 → Prop
  | _, [] => True
  | a, w :: words =>
    memory.read a = lowByte w ∧ memory.read (a + 1) = highByte w ∧ memory.Holds (a + 2) words

variable {memory later : Memory} {a w : UInt16} {words : List UInt16}

theorem Holds.tail (h : memory.Holds a (w :: words)) : memory.Holds (a + 2) words := h.2.2

/-- The word on top is the one read at the address. -/
theorem Holds.wordOf_eq (h : memory.Holds a (w :: words)) :
    wordOf (memory.read (a + 1)) (memory.read a) = w := by
  rw [h.1, h.2.1, wordOf_highByte_lowByte]

/-- Only the bytes of the words matter. -/
theorem Holds.congr (h : memory.Holds a words)
    (hread : ∀ i < 2 * words.length,
      later.read (a + UInt16.ofNat i) = memory.read (a + UInt16.ofNat i)) :
    later.Holds a words := by
  induction words generalizing a with
  | nil => trivial
  | cons w words ih =>
    obtain ⟨hlow, hhigh, hrest⟩ := h
    refine ⟨?_, ?_, ih hrest fun i hi ↦ ?_⟩
    · rw [← hlow]
      simpa using hread 0 (by simp)
    · rw [← hhigh]
      exact hread 1 (by simp; omega)
    · rw [add_two_add_ofNat]
      exact hread (i + 2) (by simp; omega)

/-- The bytes of a word do not wrap round into a stack right above it that leaves room for it. -/
theorem fst_ne_of_mem_bytes_word {i n : Nat} (hroom : n < 0x8000) (hi : i < 2 * n) :
    ∀ store ∈ (Location.word a).bytes w, store.1 ≠ a + 2 + UInt16.ofNat i := by
  rintro store hstore
  rw [add_two_add_ofNat]
  rcases List.mem_cons.1 hstore with rfl | hstore
  · exact ne_add_ofNat (Nat.succ_pos _) (by simp only [size]; omega)
  · obtain rfl := List.mem_singleton.1 hstore
    rw [← add_one_add_ofNat]
    exact ne_add_ofNat (Nat.succ_pos _) (by simp only [size]; omega)

/-- A word stored right below a stack is put on top of it, if the stack leaves room for it. -/
theorem Holds.put (h : memory.Holds (a + 2) words) (hroom : words.length < 0x8000)
    (hstored : ∀ b v, (b, v) ∈ (Location.word a).bytes w → later.read b = v)
    (hkept : ∀ i < 2 * words.length,
      (∀ store ∈ (Location.word a).bytes w, store.1 ≠ a + 2 + UInt16.ofNat i) →
        later.read (a + 2 + UInt16.ofNat i) = memory.read (a + 2 + UInt16.ofNat i)) :
    later.Holds a (w :: words) := by
  refine ⟨hstored a _ List.mem_cons_self, hstored (a + 1) _ ?_, h.congr fun i hi ↦ ?_⟩
  · exact List.mem_cons_of_mem _ List.mem_cons_self
  · exact hkept i hi (fst_ne_of_mem_bytes_word hroom hi)

end Memory

/-- An address is one of the `2 * d` right below another. -/
def Below (s : UInt16) (d : Nat) (a : UInt16) : Prop :=
  ∃ i < 2 * d, a = s - UInt16.ofNat (2 * d) + UInt16.ofNat i

/-- Where the top of a stack of some depth lies. -/
def pointerAt (s : UInt16) (depth : Nat) : UInt16 := s - UInt16.ofNat (2 * depth)

@[simp] theorem pointerAt_zero (s : UInt16) : pointerAt s 0 = s := by simp [pointerAt]

theorem pointerAt_succ (s : UInt16) (depth : Nat) :
    pointerAt s (depth + 1) = pointerAt s depth - 2 := by
  rw [pointerAt, pointerAt, Nat.mul_succ, UInt16.ofNat_add]
  grind

theorem pointerAt_succ_add_two (s : UInt16) (depth : Nat) :
    pointerAt s (depth + 1) + 2 = pointerAt s depth := by
  rw [pointerAt_succ, UInt16.sub_add_cancel]

/-- The bytes of a stack lie in a region that is deep enough for it. -/
theorem below_of_lt {s : UInt16} {d depth i : Nat} (hdepth : depth ≤ d) (hi : i < 2 * depth) :
    Below s d (pointerAt s depth + UInt16.ofNat i) := by
  obtain ⟨rest, rfl⟩ := Nat.exists_eq_add_of_le hdepth
  refine ⟨2 * rest + i, by omega, ?_⟩
  rw [pointerAt, Nat.mul_add, UInt16.ofNat_add, UInt16.ofNat_add]
  grind

end Intel8080
