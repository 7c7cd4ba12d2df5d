import Intel8080.Proofs.Cpu.Stores
import Intel8080.Proofs.Stack.Basic

/-!
# What instructions do to the stack

Calls and pushes put a word on the stack, returns and pops take one off, and one instruction
exchanges the top for another word. Main statements: `sp_execute` and `stores_eq_bytes`, an
instruction moves the stack pointer and stores as its action says, and `Holds.act`, a memory that
holds the words of a stack holds them after the action.
-/

namespace Intel8080

/-- What an instruction does to a stack of words. -/
inductive StackAction where
  | none
  | push (w : UInt16)
  | pop
  /-- Replaces the top. -/
  | exchange (w : UInt16)
deriving DecidableEq, Repr

namespace StackAction

/-- The stack after an action, the top first. -/
def apply : StackAction → List UInt16 → List UInt16
  | none, words => words
  | push w, words => w :: words
  | pop, words => words.tail
  | exchange w, words => w :: words.tail

/-- Whether an action uses the top of the stack. -/
def usesTop : StackAction → Bool
  | pop | exchange _ => true
  | _ => false

def pointer : StackAction → UInt16 → UInt16
  | push _, sp => sp - 2
  | pop, sp => sp + 2
  | _, sp => sp

/-- The bytes that an action stores on the stack. -/
def bytes : StackAction → UInt16 → List (UInt16 × UInt8)
  | push w, sp => (Location.word (sp - 2)).bytes w
  | exchange w, sp => (Location.word sp).bytes w
  | _, _ => []

end StackAction

namespace Instruction

/-- What an instruction does to the stack. The program counter is past the instruction, so that it
is the address a call returns to. -/
def stackAction (i : Instruction) (r : Registers) : StackAction :=
  match i with
  | push p => .push (r.stackPair p)
  | call condition => if r.taken condition then .push r.pc else .none
  | rst _ => .push r.pc
  | pop _ => .pop
  | ret condition => if r.taken condition then .pop else .none
  | xthl => .exchange r.hl
  | _ => .none

/-- Whether an instruction moves the stack pointer without using the stack. -/
def movesPointer : Instruction → Bool
  | lxi .sp | inx .sp | dcx .sp | sphl => true
  | _ => false

/-- Whether an instruction stores data elsewhere than on the stack. -/
def storesData : Instruction → Bool
  | sta | stax _ | shld | mov .m _ | mvi .m | inr .m | dcr .m => true
  | _ => false

variable {i : Instruction} {r : Registers} {operand data : UInt16} {m : UInt8}

theorem sp_assign (r : Registers) (dst : Register) (v : UInt8) :
    (r.assign dst v).registers.sp = r.sp := by
  cases dst <;> rfl

theorem sp_setPair (r : Registers) {p : RegisterPair} (h : p ≠ .sp) (w : UInt16) :
    (r.setPair p w).sp = r.sp := by
  cases p <;> first | rfl | exact absurd rfl h

theorem sp_setStackPair (r : Registers) (p : StackPair) (w : UInt16) :
    (r.setStackPair p w).sp = r.sp := by
  cases p <;> rfl

/-- The stack pointer moves with the stack. -/
theorem sp_execute (h : i.movesPointer = false) :
    (i.execute r operand data).registers.sp = (i.stackAction r).pointer r.sp := by
  cases i with
  | mov dst src => exact sp_assign ..
  | mvi dst => exact sp_assign ..
  | inr x => exact sp_assign ..
  | dcr x => exact sp_assign ..
  | lxi p | inx p | dcx p =>
    refine sp_setPair r ?_ _
    rintro rfl
    cases h
  | pop p => exact sp_setStackPair ..
  | jump condition | call condition | ret condition =>
    simp only [execute, stackAction]
    split <;> rfl
  | sphl => cases h
  | _ => rfl

/-- An instruction that uses the stack stores as it does, and one that does not stores data or
nothing. -/
theorem stores_eq_bytes (h : i.storesData = false) :
    i.stores r operand m = (i.stackAction r).bytes r.sp := by
  cases i with
  | mov dst src => cases dst <;> first | rfl | cases h
  | mvi x | inr x | dcr x => cases x <;> first | rfl | cases h
  | xthl => simp [stores, stackAction, StackAction.bytes, Registers.hl]
  | call condition | ret condition =>
    simp only [stores, stackAction]
    split <;> rfl
  | sta | stax p | shld => cases h
  | _ => rfl

/-- An instruction that stores data elsewhere does not use the stack. -/
theorem stackAction_of_storesData (h : i.storesData = true) : i.stackAction r = .none := by
  cases i <;> first | rfl | cases h

end Instruction

/-- A memory that holds a stack holds it after an action, if the bytes of the action are stored and
the other bytes of the stack are kept. -/
theorem Memory.Holds.act {memory later : Memory} {sp : UInt16} {words : List UInt16}
    {action : StackAction} (h : memory.Holds sp words)
    (hroom : (action.apply words).length ≤ 0x8000) (htop : action.usesTop = true → words ≠ [])
    (hstored : ∀ a v, (a, v) ∈ action.bytes sp → later.read a = v)
    (hkept : ∀ i < 2 * words.length,
      (∀ store ∈ action.bytes sp, store.1 ≠ sp + UInt16.ofNat i) →
        later.read (sp + UInt16.ofNat i) = memory.read (sp + UInt16.ofNat i)) :
    later.Holds (action.pointer sp) (action.apply words) := by
  cases action with
  | none => exact h.congr fun i hi ↦ hkept i hi (by simp [StackAction.bytes])
  | push w =>
    have hsp : sp - 2 + 2 = sp := UInt16.sub_add_cancel ..
    have hlength : words.length < 0x8000 := Nat.lt_of_succ_le hroom
    change later.Holds (sp - 2) (w :: words)
    refine Memory.Holds.put (hsp ▸ h) hlength hstored fun i hi hne ↦ ?_
    rw [hsp] at hne ⊢
    exact hkept i hi hne
  | pop =>
    cases words with
    | nil => exact absurd rfl (htop rfl)
    | cons w words =>
      refine h.tail.congr fun i hi ↦ ?_
      rw [add_two_add_ofNat]
      exact hkept (i + 2) (by simp; omega) (by simp [StackAction.bytes])
  | exchange w =>
    cases words with
    | nil => exact absurd rfl (htop rfl)
    | cons top words =>
      have hlength : words.length < 0x8000 := Nat.lt_of_succ_le hroom
      change later.Holds sp (w :: words)
      refine Memory.Holds.put h.tail hlength hstored fun i hi hne ↦ ?_
      rw [add_two_add_ofNat] at hne ⊢
      exact hkept (i + 2) (by simp; omega) hne

end Intel8080
