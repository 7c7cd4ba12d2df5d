import Intel8080.Proofs.Cpu.Accesses

/-!
# What accesses take from a memory and leave in it

Of the bytes of a memory, a sequence of accesses takes those that it reads before it has stored
others in their place, and it leaves those that it stored last. Main statements:
`readsFirst_append_iff` and `left_append`, which say this of two sequences one after the other,
`left_eq_none_iff`, nothing is left where nothing was stored, and `left_writings`, what a store on a
memory leaves.
-/

namespace Intel8080

namespace Access

/-- Some accesses read the byte at an address before they store another one there. A write that is
refused stores nothing. -/
inductive ReadsFirst (a : UInt16) : List Access → Prop
  | here (v : UInt8) (later : List Access) : ReadsFirst a (.read a v :: later)
  | after {access : Access} {later : List Access} (hkept : ∀ v, access ≠ .write a v none)
      (h : ReadsFirst a later) : ReadsFirst a (access :: later)

/-- The byte that an access stores at an address, if it stores one there. -/
def stored? (a : UInt16) : Access → Option UInt8
  | write b v none => if b = a then some v else none
  | _ => none

/-- The byte that some accesses leave at an address, if they store one there: the last of them. -/
def left (accesses : List Access) (a : UInt16) : Option UInt8 :=
  accesses.reverse.findSome? (stored? a)

variable {a b : UInt16} {v : UInt8} {access : Access} {accesses later : List Access}

/-- Only an accepted write to an address stores a byte there. -/
theorem stored?_eq_none_iff : access.stored? a = none ↔ ∀ v, access ≠ .write a v none := by
  cases access with
  | read b w => simp [stored?]
  | write b w fault => cases fault <;> simp [stored?]

/-! ## What they leave -/

@[simp] theorem left_nil : left [] a = none := rfl

/-- What later accesses leave goes before what earlier ones have left. -/
@[simp] theorem left_append :
    left (accesses ++ later) a = (left later a).or (left accesses a) := by
  simp [left]

@[simp] theorem left_cons : left (access :: later) a = (left later a).or (access.stored? a) := by
  simp [left, List.findSome?_append]

/-- Nothing is left where nothing was stored. -/
theorem left_eq_none_iff : left accesses a = none ↔ ∀ v, .write a v none ∉ accesses := by
  simp only [left, List.findSome?_eq_none_iff, List.mem_reverse, stored?_eq_none_iff]
  exact ⟨fun h v hmem ↦ h _ hmem v rfl, fun h access hmem v heq ↦ h v (heq ▸ hmem)⟩

/-! ## What they take -/

@[simp] theorem not_readsFirst_nil : ¬ ReadsFirst a [] := nofun

@[simp] theorem readsFirst_read_cons :
    ReadsFirst a (.read b v :: later) ↔ b = a ∨ ReadsFirst a later := by
  constructor
  · rintro (_ | ⟨-, h⟩)
    · exact .inl rfl
    · exact .inr h
  · rintro (rfl | h)
    · exact .here v later
    · exact .after nofun h

/-- An accepted write hides the byte before it from all later reads, a refused one does not. -/
@[simp] theorem readsFirst_write_cons {fault : Option WriteFault} :
    ReadsFirst a (.write b v fault :: later) ↔ ¬ (b = a ∧ fault = none) ∧ ReadsFirst a later := by
  constructor
  · rintro (_ | ⟨hkept, h⟩)
    exact ⟨fun ⟨hb, hfault⟩ ↦ hkept v (by rw [hb, hfault]), h⟩
  · rintro ⟨hkept, h⟩
    refine .after (fun w heq ↦ hkept ?_) h
    cases heq
    exact ⟨rfl, rfl⟩

/-- The first of two sequences takes what it reads first, and the second what it reads first where
the first one has stored nothing. -/
theorem readsFirst_append_iff : ReadsFirst a (accesses ++ later) ↔
    ReadsFirst a accesses ∨ left accesses a = none ∧ ReadsFirst a later := by
  induction accesses with
  | nil => simp
  | cons access accesses ih =>
    cases access with
    | read b v =>
      simp [ih, stored?, or_assoc]
    | write b v fault =>
      cases fault with
      | none =>
        simp only [List.cons_append, readsFirst_write_cons, and_true, ih, left_cons, stored?,
          Option.or_eq_none_iff, ite_eq_right_iff, reduceCtorEq, imp_false]
        grind
      | some fault => simp [ih, stored?]

/-- As long as nothing is stored there, whatever is read at an address is taken. -/
theorem ReadsFirst.of_mem (hmem : .read a v ∈ accesses) (hleft : left accesses a = none) :
    ReadsFirst a accesses := by
  obtain ⟨earlier, later, rfl⟩ := List.append_of_mem hmem
  rw [left_append, Option.or_eq_none_iff] at hleft
  exact readsFirst_append_iff.2 (.inr ⟨hleft.2, .here v later⟩)

end Access

namespace Location

variable (place : Location) (value : UInt16) (memory : Memory) (a : UInt16)

/-- Reading leaves nothing. -/
@[simp] theorem left_readings : Access.left (place.readings memory) a = none := by
  cases place <;> simp [readings, addresses, Access.stored?]

/-- A write leaves its byte if the address may be written. -/
theorem stored?_write (map : MemoryMap) (b : UInt16) (v : UInt8) :
    Access.stored? a (.write b v (map.refusal? b v)) =
      if map.region a = .ram ∧ a = b then some v else none := by
  cases h : map.refusal? b v with
  | none =>
    rw [MemoryMap.refusal?_eq_none_iff_region] at h
    grind [Access.stored?]
  | some fault =>
    have hregion : map.region b ≠ .ram := by
      rw [Ne, ← MemoryMap.refusal?_eq_none_iff_region (v := v), h]
      exact Option.some_ne_none fault
    grind [Access.stored?]

/-- A store leaves its bytes where they may be written. -/
theorem left_writings (map : MemoryMap) : Access.left (place.writings value map) a =
    if map.region a = .ram then (place.bytes value).lookup a else none := by
  cases place with
  | nowhere => simp [writings]
  | byte b =>
    simp only [writings, bytes_byte, List.map_cons, List.map_nil, Access.left_cons,
      Access.left_nil, stored?_write, Option.none_or, List.lookup_cons, List.lookup_nil]
    grind
  | word b =>
    -- the two bytes stand at different addresses, so neither is stored over the other
    have hne := ne_add_one b
    simp only [writings, bytes_word, List.map_cons, List.map_nil, Access.left_cons,
      Access.left_nil, stored?_write, Option.none_or, List.lookup_cons, List.lookup_nil]
    grind

end Location

end Intel8080
