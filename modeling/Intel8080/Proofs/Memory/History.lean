import Intel8080.Memory.Basic

/-!
# Histories of a memory

A memory is asked to place images, to write bytes and to tell them. An image is placed whole or not
at all, and a byte is written inside the writable window or not at all. Main statements:
`read_apply`, what one request does to each byte, `read_perform`, what a history of them does, and
`remembers`, a memory that was zero holds at each address what was given to it last.
-/

namespace Intel8080.Memory

/-- Something that is asked of a memory. -/
inductive Request where
  /-- Placing an image from an address on, whatever the map. -/
  | load (a : UInt16) (image : List UInt8)
  /-- Writing a byte, which the map may refuse. -/
  | write (a : UInt16) (v : UInt8)
  | read (a : UInt16)
deriving DecidableEq, Repr

/-- What is answered to a request. -/
inductive Reply where
  | loaded (refusal : Option LoadError)
  | written (refusal : Option WriteFault)
  | told (v : UInt8)
deriving DecidableEq, Repr

namespace Request

def reply (request : Request) (memory : Memory) : Reply :=
  match request with
  | load a image =>
    match memory.load a image with
    | .ok _ => .loaded none
    | .error e => .loaded (some e)
  | write a v => .written (memory.write a v).1
  | read a => .told (memory.read a)

def apply (request : Request) (memory : Memory) : Memory :=
  match request with
  | load a image =>
    match memory.load a image with
    | .ok loaded => loaded
    | .error _ => memory
  | write a v => (memory.write a v).2
  | read _ => memory

/-- Whether a request is granted: an image has to fit below the top, and a write to lie between the
bounds of the map. -/
def Granted (map : MemoryMap) : Request → Prop
  | load a image => a.toNat + image.length ≤ size
  | write a _ => map.romEnd ≤ a.toNat ∧ a.toNat < map.ramEnd
  | read _ => True

instance (map : MemoryMap) : DecidablePred (Granted map)
  | load a image => inferInstanceAs (Decidable (a.toNat + image.length ≤ size))
  | write a _ => inferInstanceAs (Decidable (map.romEnd ≤ a.toNat ∧ a.toNat < map.ramEnd))
  | read _ => .isTrue trivial

def Covers (b : UInt16) : Request → Prop
  | load a image => a.toNat ≤ b.toNat ∧ b.toNat < a.toNat + image.length
  | write a _ | read a => b = a

/-- The byte that a request brings for an address. -/
def byte? (b : UInt16) : Request → Option UInt8
  | load a image => if a ≤ b then image[b.toNat - a.toNat]? else none
  | write a v => if a = b then some v else none
  | read _ => none

/-- The byte that a request gives to an address, if it is granted and brings one. -/
def given (map : MemoryMap) (b : UInt16) (request : Request) : Option UInt8 :=
  if request.Granted map then request.byte? b else none

variable {map : MemoryMap} {memory : Memory} {request first second : Request} {b : UInt16}

/-- A request brings bytes for the addresses that it covers. -/
theorem byte?_eq_none (h : ¬ request.Covers b) : request.byte? b = none := by
  cases request with
  | load a image =>
    simp only [Covers, not_and, Nat.not_lt, ← UInt16.le_iff_toNat_le] at h
    simp only [byte?, ite_eq_right_iff, List.getElem?_eq_none_iff]
    intro hle
    have := h hle
    omega
  | write a v => exact if_neg fun heq ↦ h heq.symm
  | read a => rfl

@[simp] theorem map_apply : (request.apply memory).map = memory.map := by
  cases request with
  | load a image =>
    simp only [apply]
    split
    · next loaded h => exact map_load h
    · rfl
  | write a v => exact map_write
  | read a => rfl

/-- A request leaves each byte as it gives it, and as it was where it gives none. -/
theorem read_apply :
    (request.apply memory).read b = (request.given memory.map b).getD (memory.read b) := by
  cases request with
  | load a image =>
    by_cases h : a.toNat + image.length ≤ size
    · have hload : memory.load a image = .ok _ := load_eq_ok h
      rw [given, if_pos (show Granted memory.map (load a image) from h), apply, hload,
        read_load hload, byte?, List.getD_eq_getElem?_getD]
      split <;> rfl
    · rw [given, if_neg (show ¬ Granted memory.map (load a image) from h), apply,
        load_eq_error (Nat.lt_of_not_le h)]
      rfl
  | write a v =>
    have hregion : memory.map.region a = .ram ↔
        memory.map.romEnd ≤ a.toNat ∧ a.toNat < memory.map.ramEnd := MemoryMap.region_eq_ram_iff
    rw [apply, read_write, given]
    grind [Granted, byte?]
  | read a => rw [given, byte?, ite_self, apply, Option.getD_none]

/-- A request that is refused leaves the memory. -/
theorem apply_of_not_granted (h : ¬ request.Granted memory.map) : request.apply memory = memory :=
  ext (fun b ↦ by rw [read_apply, given, if_neg h, Option.getD_none]) map_apply

/-! ## What is answered -/

theorem reply_load (a : UInt16) (image : List UInt8) (memory : Memory) :
    (load a image).reply memory = .loaded (if a.toNat + image.length ≤ size then none
      else some (.imageTooLarge image.length a (size - a.toNat))) := by
  by_cases h : a.toNat + image.length ≤ size
  · rw [reply, load_eq_ok h, if_pos h]
  · rw [reply, load_eq_error (Nat.lt_of_not_le h), if_neg h]
    rfl

/-- An image that is too large is told of with the room there would be. -/
theorem reply_load_of_large {a : UInt16} {image : List UInt8} (h : size < a.toNat + image.length) :
    (load a image).reply memory =
      .loaded (some (.imageTooLarge image.length a (size - a.toNat))) := by
  rw [reply_load, if_neg (Nat.not_le_of_lt h)]

theorem reply_load_eq_loaded_none_iff {a : UInt16} {image : List UInt8} :
    (load a image).reply memory = .loaded none ↔ a.toNat + image.length ≤ size := by
  rw [reply_load, Reply.loaded.injEq, ite_eq_left_iff]
  simp

theorem reply_write_eq_written_none_iff {a : UInt16} {v : UInt8} :
    (write a v).reply memory = .written none ↔
      memory.map.romEnd ≤ a.toNat ∧ a.toNat < memory.map.ramEnd := by
  rw [reply, fst_write, Reply.written.injEq, MemoryMap.refusal?_eq_none_iff]

/-- Only the map, and what is held at the addresses that are covered, matter to the answer. -/
theorem reply_congr {later : Memory} (hmap : later.map = memory.map)
    (h : ∀ b, request.Covers b → later.read b = memory.read b) :
    request.reply later = request.reply memory := by
  cases request with
  | load a image => rw [reply_load, reply_load]
  | write a v => rw [reply, reply, fst_write, fst_write, hmap]
  | read a => rw [reply, reply, h a rfl]

/-! ## Requests that meet nowhere -/

section Apart

variable (h : ∀ b, ¬ (first.Covers b ∧ second.Covers b))

include h

/-- At each address at most one of two disjoint requests has a say. -/
theorem given_eq_none_or (map : MemoryMap) (b : UInt16) :
    first.given map b = none ∨ second.given map b = none := by
  by_cases hb : first.Covers b
  · exact .inr (by rw [given, byte?_eq_none fun hb' ↦ h b ⟨hb, hb'⟩, ite_self])
  · exact .inl (by rw [given, byte?_eq_none hb, ite_self])

/-- Requests that meet nowhere may come in either order. -/
theorem apply_comm : second.apply (first.apply memory) = first.apply (second.apply memory) := by
  refine ext (fun b ↦ ?_) (by simp)
  rw [read_apply, read_apply, read_apply, read_apply, map_apply, map_apply]
  rcases given_eq_none_or h memory.map b with hnone | hnone <;> rw [hnone] <;> rfl

/-- The answer to a request does not depend on another one that it meets nowhere. -/
theorem reply_apply : second.reply (first.apply memory) = second.reply memory := by
  refine reply_congr map_apply fun b hb ↦ ?_
  rw [read_apply, given, byte?_eq_none fun hb' ↦ h b ⟨hb', hb⟩, ite_self, Option.getD_none]

end Apart

end Request

def perform (memory : Memory) (history : List Request) : Memory :=
  history.foldl (fun memory request ↦ request.apply memory) memory

/-- The byte that a history gives to an address: that of the latest request that gives one. -/
def given (map : MemoryMap) (history : List Request) (b : UInt16) : Option UInt8 :=
  history.reverse.findSome? (Request.given map b)

variable {memory : Memory} {request : Request} {history : List Request} {b : UInt16}

@[simp] theorem perform_cons :
    memory.perform (request :: history) = (request.apply memory).perform history := rfl

/-- What later requests give goes before what the first one gives. -/
theorem given_cons (map : MemoryMap) :
    given map (request :: history) b = (given map history b).or (request.given map b) := by
  simp [given, List.findSome?_append]

@[simp] theorem map_perform : (memory.perform history).map = memory.map := by
  induction history generalizing memory with
  | nil => rfl
  | cons request history ih => rw [perform_cons, ih, Request.map_apply]

/-- A history leaves each byte as it was last given, and as it was where none was given. -/
theorem read_perform :
    (memory.perform history).read b = (given memory.map history b).getD (memory.read b) := by
  induction history generalizing memory with
  | nil => rfl
  | cons request history ih =>
    rw [perform_cons, ih, Request.map_apply, Request.read_apply, given_cons, Option.getD_or]

/-- A memory that was zero holds what it was given last, and treats whatever comes next by its map
and by what it holds. -/
structure Remembers (map : MemoryMap) (history : List Request) : Prop where
  /-- Each address holds the byte given to it by the latest granted request that brings one. -/
  read_eq : ∀ b, ((zeroed map).perform history).read b = (given map history b).getD 0
  size_eq : ((zeroed map).perform history).bytes.toArray.size = 0x10000
  map_eq : ((zeroed map).perform history).map = map
  /-- An image is placed exactly if it fits below the top. -/
  load_iff : ∀ a image, (Request.load a image).reply ((zeroed map).perform history) =
    .loaded none ↔ a.toNat + image.length ≤ 0x10000
  /-- Of one that does not fit it is told how long it is, where it was to be placed and how much
  would fit there. -/
  load_refused : ∀ a image, 0x10000 < a.toNat + image.length →
    (Request.load a image).reply ((zeroed map).perform history) =
      .loaded (some (.imageTooLarge image.length a (0x10000 - a.toNat)))
  /-- A byte is written exactly if its address lies between the bounds. -/
  write_iff : ∀ a v, (Request.write a v).reply ((zeroed map).perform history) =
    .written none ↔ map.romEnd ≤ a.toNat ∧ a.toNat < map.ramEnd
  /-- A read tells what is held, and changes nothing. -/
  told : ∀ a, (Request.read a).reply ((zeroed map).perform history) =
      .told ((given map history a).getD 0) ∧
    (Request.read a).apply ((zeroed map).perform history) = (zeroed map).perform history
  /-- A request that is refused changes nothing. -/
  refused : ∀ request : Request, ¬ request.Granted map →
    request.apply ((zeroed map).perform history) = (zeroed map).perform history
  /-- Two requests that meet at no address may come in either order: they leave the same, and each
  is answered the same. -/
  swapped : ∀ first second : Request, (∀ b, ¬ (first.Covers b ∧ second.Covers b)) →
      (zeroed map).perform (history ++ [first, second]) =
          (zeroed map).perform (history ++ [second, first]) ∧
        second.reply ((zeroed map).perform (history ++ [first])) =
          second.reply ((zeroed map).perform history) ∧
        first.reply ((zeroed map).perform (history ++ [second])) =
          first.reply ((zeroed map).perform history)

/-- Whatever its map and its history, a memory remembers. -/
theorem remembers (map : MemoryMap) (history : List Request) : Remembers map history where
  read_eq b := by rw [read_perform, map_zeroed, read_zeroed]
  size_eq := Vector.size_toArray _
  map_eq := map_perform
  load_iff a image := Request.reply_load_eq_loaded_none_iff
  load_refused a image h := Request.reply_load_of_large h
  write_iff a v := by rw [Request.reply_write_eq_written_none_iff, map_perform, map_zeroed]
  told a := by
    refine ⟨?_, rfl⟩
    rw [Request.reply, read_perform, map_zeroed, read_zeroed]
  refused request h := Request.apply_of_not_granted (by rwa [map_perform, map_zeroed])
  swapped first second h := by
    have hsymm : ∀ b, ¬ (second.Covers b ∧ first.Covers b) := fun b hb ↦ h b hb.symm
    simp only [perform, List.foldl_append, List.foldl_cons, List.foldl_nil]
    exact ⟨Request.apply_comm h, Request.reply_apply h, Request.reply_apply hsymm⟩

end Intel8080.Memory
