import Lumie.Base.Positional
import Mathlib.Data.List.GetD
import Mathlib.Tactic

/-!
# A stack of 64-bit words in byte memory

Memory is a function of a 64-bit address and words are little-endian.  The
stack grows down from `rsp`, and addresses wrap around, so a stack of words
that fit in the address space may lie anywhere.  A block of pushed registers is
read back by popping them in reverse.
-/

set_option autoImplicit false

namespace WordStack

open Positional

/-! ## Words in memory -/

abbrev Memory := UInt64 → UInt8

def wordBytes (memory : Memory) (address : UInt64) : List Nat :=
  (List.range 8).map fun k => (memory (address + UInt64.ofNat k)).toNat

def load64 (memory : Memory) (address : UInt64) : UInt64 :=
  UInt64.ofNat (Nat.ofDigits 256 (wordBytes memory address))

def store64 (memory : Memory) (address value : UInt64) : Memory :=
  fun byte =>
    let offset := (byte - address).toNat
    if offset < 8 then UInt8.ofNat (value.toNat / 256 ^ offset % 256)
    else memory byte

theorem wordBytes_store64 (memory : Memory) (address value : UInt64) :
    wordBytes (store64 memory address value) address =
      lowDigits 256 8 value.toNat := by
  apply List.ext_getElem
  · rw [wordBytes, List.length_map, List.length_range, length_lowDigits]
  · intro k inWord inDigits
    rw [length_lowDigits] at inDigits
    have offset : (address + UInt64.ofNat k - address).toNat = k := by
      rw [UInt64.toNat_sub, UInt64.toNat_add, UInt64.toNat_ofNat']
      have low := address.toNat_lt
      omega
    simp only [wordBytes, List.getElem_map, List.getElem_range, store64]
    rw [offset, if_pos inDigits, getElem_lowDigits, UInt8.toNat_ofNat']
    omega

theorem load64_store64_same (memory : Memory) (address value : UInt64) :
    load64 (store64 memory address value) address = value := by
  have whole : value.toNat % 256 ^ 8 = value.toNat :=
    Nat.mod_eq_of_lt value.toNat_lt
  rw [load64, wordBytes_store64, ofDigits_lowDigits, whole, UInt64.ofNat_toNat]

/-- A store leaves the words that begin behind it and do not reach around to
it. -/
theorem load64_store64_other (memory : Memory) (address value : UInt64)
    {other : UInt64} (behind : 8 ≤ (other - address).toNat)
    (inFront : (other - address).toNat + 8 ≤ 2 ^ 64) :
    load64 (store64 memory address value) other = load64 memory other := by
  rw [load64, load64]
  congr 2
  apply List.map_congr_left
  intro k inWord
  rw [List.mem_range] at inWord
  have offset : (other + UInt64.ofNat k - address).toNat =
      (other - address).toNat + k := by
    have low := address.toNat_lt
    simp only [UInt64.toNat_sub, UInt64.toNat_add, UInt64.toNat_ofNat']
      at inFront ⊢
    omega
  have missed : ¬ (other + UInt64.ofNat k - address).toNat < 8 := by
    rw [offset]
    omega
  exact congrArg UInt8.toNat (if_neg missed)

def Holds (memory : Memory) : UInt64 → List UInt64 → Prop
  | _, [] => True
  | top, word :: rest => load64 memory top = word ∧ Holds memory (top + 8) rest

theorem Holds.word {memory : Memory} {top : UInt64} {words : List UInt64}
    (held : Holds memory top words) {k : Nat} (inside : k < words.length) :
    load64 memory (top + UInt64.ofNat (8 * k)) = words[k] := by
  induction words generalizing top k with
  | nil => cases inside
  | cons word rest ih =>
      cases k with
      | zero =>
          have here : top + UInt64.ofNat (8 * 0) = top := UInt64.add_zero top
          rw [here]
          exact held.1
      | succ k =>
          have next : top + UInt64.ofNat (8 * (k + 1)) =
              top + 8 + UInt64.ofNat (8 * k) := by
            rw [Nat.mul_succ, Nat.add_comm, UInt64.ofNat_add, UInt64.add_assoc]
            rfl
          rw [next]
          exact ih held.2 (Nat.lt_of_succ_lt_succ inside)

theorem holds_of_words {memory : Memory} {top : UInt64} {words : List UInt64}
    (each : ∀ k, ∀ inside : k < words.length,
      load64 memory (top + UInt64.ofNat (8 * k)) = words[k]) :
    Holds memory top words := by
  induction words generalizing top with
  | nil => trivial
  | cons word rest ih =>
      have first := each 0 (Nat.succ_pos _)
      have here : top + UInt64.ofNat (8 * 0) = top := UInt64.add_zero top
      rw [here] at first
      refine ⟨first, ih ?_⟩
      intro k inside
      have later := each (k + 1) (Nat.succ_lt_succ inside)
      rw [Nat.mul_succ, Nat.add_comm, UInt64.ofNat_add, ← UInt64.add_assoc] at later
      exact later

theorem Holds.store {memory : Memory} {top : UInt64} {words : List UInt64}
    (held : Holds memory top words) {address : UInt64} (value : UInt64)
    (behind : 8 ≤ (top - address).toNat)
    (fits : (top - address).toNat + 8 * words.length ≤ 2 ^ 64) :
    Holds (store64 memory address value) top words := by
  induction words generalizing top with
  | nil => trivial
  | cons word rest ih =>
      rw [List.length_cons] at fits
      obtain ⟨first, others⟩ := held
      refine ⟨?_, ?_⟩
      · rw [load64_store64_other memory address value behind (by omega)]
        exact first
      · cases rest with
        | nil => trivial
        | cons next more =>
            rw [List.length_cons] at fits ih
            have distance : (top + 8 - address).toNat =
                (top - address).toNat + 8 := by
              have low := address.toNat_lt
              have word : (8 : UInt64).toNat = 8 := rfl
              simp only [UInt64.toNat_sub, UInt64.toNat_add, word] at fits ⊢
              omega
            exact ih others (by omega) (by omega)

/-! ## The stack of a processor -/

structure Machine (Register : Type*) where
  registers : Register → UInt64
  rsp : UInt64
  memory : Memory

section Stack

variable {Register : Type*}

namespace Machine

def push (machine : Machine Register) (word : UInt64) : Machine Register :=
  { machine with
    rsp := machine.rsp - 8
    memory := store64 machine.memory (machine.rsp - 8) word }

def pushRegister (machine : Machine Register) (register : Register) :
    Machine Register :=
  machine.push (machine.registers register)

def popRegister [DecidableEq Register] (machine : Machine Register)
    (register : Register) : Machine Register :=
  { machine with
    registers := Function.update machine.registers register
      (load64 machine.memory machine.rsp)
    rsp := machine.rsp + 8 }

def Stacked (machine : Machine Register) (words : List UInt64) : Prop :=
  Holds machine.memory machine.rsp words

theorem Stacked.push {machine : Machine Register} {words : List UInt64}
    (stacked : Stacked machine words) (word : UInt64)
    (fits : 8 * (words.length + 1) ≤ 2 ^ 64) :
    Stacked (machine.push word) (word :: words) := by
  have back : machine.rsp - 8 + 8 = machine.rsp := UInt64.sub_add_cancel _ _
  have distance : (machine.rsp - (machine.rsp - 8)).toNat = 8 := by
    have low := machine.rsp.toNat_lt
    have word : (8 : UInt64).toNat = 8 := rfl
    simp only [UInt64.toNat_sub, word]
    omega
  refine ⟨load64_store64_same _ _ _, ?_⟩
  change Holds (store64 machine.memory (machine.rsp - 8) word)
    (machine.rsp - 8 + 8) words
  rw [back]
  exact Holds.store stacked word (Nat.le_of_eq distance.symm) (by omega)

theorem Stacked.pushAll {machine : Machine Register} {words : List UInt64}
    (stacked : Stacked machine words) (pushed : List UInt64)
    (fits : 8 * (words.length + pushed.length) ≤ 2 ^ 64) :
    Stacked (pushed.foldl Machine.push machine) (pushed.reverse ++ words) := by
  induction pushed generalizing machine words with
  | nil => exact stacked
  | cons word rest ih =>
      rw [List.length_cons] at fits
      have later := ih (stacked.push word (by omega))
        (by rw [List.length_cons]; omega)
      rw [List.foldl_cons, List.reverse_cons, List.append_assoc]
      exact later

theorem foldl_push_registers (machine : Machine Register)
    (pushed : List UInt64) :
    (pushed.foldl Machine.push machine).registers = machine.registers := by
  induction pushed generalizing machine with
  | nil => rfl
  | cons word rest ih => exact ih (machine.push word)

theorem foldl_push_rsp (machine : Machine Register) (pushed : List UInt64) :
    (pushed.foldl Machine.push machine).rsp + UInt64.ofNat (8 * pushed.length) =
      machine.rsp := by
  induction pushed generalizing machine with
  | nil => exact UInt64.add_zero machine.rsp
  | cons word rest ih =>
      rw [List.length_cons, Nat.mul_succ, UInt64.ofNat_add, ← UInt64.add_assoc,
        List.foldl_cons, ih]
      exact UInt64.sub_add_cancel machine.rsp 8

/-- Pushing registers pushes what they hold at the start. -/
theorem foldl_pushRegister (machine : Machine Register)
    (saved : List Register) :
    saved.foldl Machine.pushRegister machine =
      (saved.map machine.registers).foldl Machine.push machine := by
  induction saved generalizing machine with
  | nil => rfl
  | cons register rest ih => exact ih (machine.pushRegister register)

theorem Stacked.popAll [DecidableEq Register] {machine : Machine Register}
    {words : List UInt64} (restored : List Register) (value : Register → UInt64)
    (stacked : Stacked machine (restored.map value ++ words)) :
    Stacked (restored.foldl Machine.popRegister machine) words ∧
      (restored.foldl Machine.popRegister machine).rsp =
        machine.rsp + UInt64.ofNat (8 * restored.length) ∧
      (restored.foldl Machine.popRegister machine).memory = machine.memory ∧
      ∀ register, (restored.foldl Machine.popRegister machine).registers register =
        if register ∈ restored then value register
        else machine.registers register := by
  induction restored generalizing machine with
  | nil =>
      exact ⟨stacked, (UInt64.add_zero machine.rsp).symm, rfl,
        fun _ => (if_neg List.not_mem_nil).symm⟩
  | cons register rest ih =>
      obtain ⟨top, others⟩ := stacked
      obtain ⟨left, rsp, memory, registers⟩ :=
        @ih (machine.popRegister register) others
      refine ⟨left, ?_, memory, ?_⟩
      · rw [List.foldl_cons, rsp, List.length_cons, Nat.mul_succ, Nat.add_comm,
          UInt64.ofNat_add, ← UInt64.add_assoc]
        rfl
      · intro other
        rw [List.foldl_cons, registers]
        by_cases later : other ∈ rest
        · rw [if_pos later, if_pos (List.mem_cons_of_mem _ later)]
        · rw [if_neg later]
          by_cases same : other = register
          · subst same
            rw [if_pos List.mem_cons_self]
            exact (Function.update_self _ _ _).trans top
          · rw [if_neg (by simp [same, later])]
            exact Function.update_of_ne same _ _

end Machine

end Stack

end WordStack
