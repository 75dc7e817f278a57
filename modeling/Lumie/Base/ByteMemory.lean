import Lumie.Base.WordStack

/-!
# Byte strings in memory

Strings of bytes stored at 64-bit addresses.  Two ranges of addresses are apart
when neither begins inside the other, going around the end of the address space
where a range does; a store leaves what is held in a range apart from its own.
-/

set_option autoImplicit false

namespace ByteMemory

open Positional WordStack

def storeBytes (memory : Memory) (address : UInt64) (bytes : List UInt8) :
    Memory :=
  fun byte => bytes.getD (byte - address).toNat (memory byte)

def HoldsBytes (memory : Memory) (address : UInt64) (bytes : List UInt8) :
    Prop :=
  ∀ k, ∀ inside : k < bytes.length, memory (address + UInt64.ofNat k) = bytes[k]

structure Apart (first : UInt64) (firstSize : Nat) (second : UInt64)
    (secondSize : Nat) : Prop where
  behind : firstSize ≤ (second - first).toNat
  inFront : secondSize ≤ (first - second).toNat

/-! ## Addresses -/

section Addresses

variable {first second : UInt64} {firstSize secondSize : Nat}

theorem offset_self (address : UInt64) {k : Nat} (inside : k < 2 ^ 64) :
    (address + UInt64.ofNat k - address).toNat = k := by
  have low := address.toNat_lt
  simp only [UInt64.toNat_sub, UInt64.toNat_add, UInt64.toNat_ofNat']
  omega

theorem Apart.offset (apart : Apart first firstSize second secondSize) {k : Nat}
    (inside : k < secondSize) :
    firstSize ≤ (second + UInt64.ofNat k - first).toNat := by
  have behind := apart.behind
  have inFront := apart.inFront
  have firstLow := first.toNat_lt
  have secondLow := second.toNat_lt
  simp only [UInt64.toNat_sub, UInt64.toNat_add, UInt64.toNat_ofNat']
    at behind inFront ⊢
  omega

theorem Apart.symm (apart : Apart first firstSize second secondSize) :
    Apart second secondSize first firstSize := ⟨apart.inFront, apart.behind⟩

theorem Apart.part (apart : Apart first firstSize second secondSize)
    {skipped size : Nat} (nonempty : 0 < size)
    (fits : skipped + size ≤ firstSize) :
    Apart (first + UInt64.ofNat skipped) size second secondSize := by
  have behind := apart.behind
  have inFront := apart.inFront
  have firstLow := first.toNat_lt
  have secondLow := second.toNat_lt
  constructor <;>
  · simp only [UInt64.toNat_sub, UInt64.toNat_add, UInt64.toNat_ofNat']
      at behind inFront ⊢
    omega

end Addresses

section Stores

variable {memory : Memory} {address : UInt64} {bytes : List UInt8}

theorem storeBytes_outside {byte : UInt64}
    (outside : bytes.length ≤ (byte - address).toNat) :
    storeBytes memory address bytes byte = memory byte :=
  List.getD_eq_default _ _ outside

theorem storeBytes_holds (memory : Memory) (address : UInt64)
    {bytes : List UInt8} (fits : bytes.length ≤ 2 ^ 64) :
    HoldsBytes (storeBytes memory address bytes) address bytes := by
  intro k inside
  rw [storeBytes, offset_self address (by omega), List.getD_eq_getElem _ _ inside]

theorem HoldsBytes.storeBytes {held : List UInt8} {place : UInt64}
    (holds : HoldsBytes memory place held)
    (apart : Apart address bytes.length place held.length) :
    HoldsBytes (storeBytes memory address bytes) place held := by
  intro k inside
  rw [storeBytes_outside (apart.offset inside)]
  exact holds k inside

theorem storeBytes_append (memory : Memory) (address : UInt64)
    (first second : List UInt8)
    (fits : first.length + second.length ≤ 2 ^ 64) :
    ByteMemory.storeBytes (ByteMemory.storeBytes memory address first)
        (address + UInt64.ofNat first.length) second =
      ByteMemory.storeBytes memory address (first ++ second) := by
  funext byte
  have low := address.toNat_lt
  have byteLow := byte.toNat_lt
  simp only [ByteMemory.storeBytes]
  by_cases inFirst : (byte - address).toNat < first.length
  · have behind : second.length ≤
        (byte - (address + UInt64.ofNat first.length)).toNat := by
      simp only [UInt64.toNat_sub, UInt64.toNat_add, UInt64.toNat_ofNat']
        at inFirst ⊢
      omega
    rw [List.getD_eq_default _ _ behind, List.getD_append _ _ _ _ inFirst,
      List.getD_eq_getElem _ _ inFirst]
  · have shift : (byte - (address + UInt64.ofNat first.length)).toNat =
        (byte - address).toNat - first.length := by
      simp only [UInt64.toNat_sub, UInt64.toNat_add, UInt64.toNat_ofNat']
        at inFirst ⊢
      omega
    have beyond : first.length ≤ (byte - address).toNat := Nat.le_of_not_lt inFirst
    rw [shift, List.getD_append_right _ _ _ _ beyond, List.getD_eq_default _ _ beyond]

theorem storeBytes_singleton (memory : Memory) (address : UInt64) (byte : UInt8) :
    ByteMemory.storeBytes memory address [byte] =
      Function.update memory address byte := by
  funext other
  rw [Function.update_apply]
  by_cases here : other = address
  · rw [if_pos here, here, ByteMemory.storeBytes, UInt64.sub_self]
    rfl
  · have distance : 1 ≤ (other - address).toNat := by
      have different : other.toNat ≠ address.toNat :=
        fun same => here (UInt64.toNat_inj.mp same)
      have low := address.toNat_lt
      have otherLow := other.toNat_lt
      rw [UInt64.toNat_sub]
      omega
    rw [if_neg here]
    exact storeBytes_outside distance

end Stores

theorem holdsBytes_append {memory : Memory} {address : UInt64}
    {first second : List UInt8} :
    HoldsBytes memory address (first ++ second) ↔
      HoldsBytes memory address first ∧
        HoldsBytes memory (address + UInt64.ofNat first.length) second := by
  constructor
  · intro holds
    refine ⟨?_, ?_⟩
    · intro k inside
      rw [holds k (by rw [List.length_append]; omega),
        List.getElem_append_left inside]
    · intro k inside
      have here := holds (first.length + k)
        (by rw [List.length_append]; omega)
      rw [UInt64.ofNat_add, ← UInt64.add_assoc] at here
      rw [here, List.getElem_append_right (Nat.le_add_right _ _)]
      simp only [Nat.add_sub_cancel_left]
  · rintro ⟨inFirst, inSecond⟩ k inside
    rw [List.length_append] at inside
    by_cases early : k < first.length
    · rw [List.getElem_append_left early]
      exact inFirst k early
    · have split : address + UInt64.ofNat k =
          address + UInt64.ofNat first.length +
            UInt64.ofNat (k - first.length) := by
        rw [UInt64.add_assoc, ← UInt64.ofNat_add,
          Nat.add_sub_cancel' (Nat.le_of_not_lt early)]
      rw [List.getElem_append_right (Nat.le_of_not_lt early), split]
      exact inSecond _ (by omega)

/-! ## Words -/

/-- The bytes of a word, the lowest one first. -/
def bytesOf (value : UInt64) : List UInt8 :=
  (lowDigits 256 8 value.toNat).map UInt8.ofNat

theorem bytesOf_length (value : UInt64) : (bytesOf value).length = 8 := by
  rw [bytesOf, List.length_map, length_lowDigits]

theorem load64_of_holds {memory : Memory} {address value : UInt64}
    (holds : HoldsBytes memory address (bytesOf value)) :
    load64 memory address = value := by
  have whole : value.toNat % 256 ^ 8 = value.toNat :=
    Nat.mod_eq_of_lt value.toNat_lt
  have digits : wordBytes memory address = lowDigits 256 8 value.toNat := by
    apply List.ext_getElem
    · rw [wordBytes, List.length_map, List.length_range, length_lowDigits]
    · intro k inWord inDigits
      rw [length_lowDigits] at inDigits
      have here := holds k (by rwa [bytesOf_length])
      simp only [wordBytes, List.getElem_map, List.getElem_range, here, bytesOf,
        getElem_lowDigits, UInt8.toNat_ofNat']
      omega
  rw [load64, digits, ofDigits_lowDigits, whole, UInt64.ofNat_toNat]

theorem store64_outside {memory : Memory} {address value byte : UInt64}
    (outside : 8 ≤ (byte - address).toNat) :
    store64 memory address value byte = memory byte :=
  if_neg (Nat.not_lt_of_le outside)

theorem HoldsBytes.store64 {memory : Memory} {address place : UInt64}
    {held : List UInt8} (holds : HoldsBytes memory place held) (value : UInt64)
    (apart : Apart address 8 place held.length) :
    HoldsBytes (store64 memory address value) place held := by
  intro k inside
  rw [store64_outside (apart.offset inside)]
  exact holds k inside

end ByteMemory
