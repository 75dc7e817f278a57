import Lumie.Base.Positional
import Lumie.Base.StoreTrace
import Lumie.Lib.Strings

/-!
# Hexadecimal numbers

`utoa_hex` fills sixteen places from the back while it shifts the number down,
so every address has its own text of fixed length.
-/

set_option autoImplicit false

namespace Lumie.ScreenHex

open Positional StoreTrace
open Lumie.Strings

/-- `const char* hex_digits = "0123456789ABCDEF";` -/
def hexDigits : CString := CString.ofString "0123456789ABCDEF"

/-- `for (int i = 15; i >= 0; i--)`, with the number of turns left. -/
def hexLoop : Nat → UInt64 → List (Nat × UInt8)
  | 0, _ => []
  | i + 1, n => (i + 2, hexDigits.view (n &&& 0xF).toNat) :: hexLoop i (n >>> 4)

def utoaHex (n : UInt64) : List (Nat × UInt8) :=
  (0, 0x30) :: (1, 0x78) :: (hexLoop 16 n ++ [(18, 0)])

/-! ## Hexadecimal text -/

def hexValue (byte : UInt8) : Nat :=
  if byte.toNat ≤ 57 then byte.toNat - 48 else byte.toNat - 55

def IsHexDigit (byte : UInt8) : Prop :=
  (48 ≤ byte.toNat ∧ byte.toNat ≤ 57) ∨ (65 ≤ byte.toNat ∧ byte.toNat ≤ 70)

theorem hexDigits_bytes : hexDigits.bytes =
    [48, 49, 50, 51, 52, 53, 54, 55, 56, 57, 65, 66, 67, 68, 69, 70] := by
  decide

theorem hexDigits_view {digit : Nat} (small : digit < 16) :
    IsHexDigit (hexDigits.view digit) ∧ hexValue (hexDigits.view digit) = digit := by
  rw [CString.view, hexDigits_bytes]
  unfold IsHexDigit
  interval_cases digit <;> decide

theorem nibble_toNat (n : UInt64) : (n &&& 0xF).toNat = n.toNat % 16 := by
  rw [UInt64.toNat_and]
  exact Nat.and_two_pow_sub_one_eq_mod n.toNat 4

theorem shift_toNat (n : UInt64) : (n >>> 4).toNat = n.toNat / 16 := by
  rw [UInt64.toNat_shiftRight]
  exact Nat.shiftRight_eq_div_pow n.toNat 4

def hexText (n : UInt64) : List UInt8 :=
  ((lowDigits 16 16 n.toNat).map hexDigits.view).reverse

theorem length_hexText (n : UInt64) : (hexText n).length = 16 := by
  rw [hexText, List.length_reverse, List.length_map, length_lowDigits]

theorem isHexDigit_hexText {n : UInt64} {byte : UInt8}
    (member : byte ∈ hexText n) : IsHexDigit byte := by
  obtain ⟨digit, inDigits, rfl⟩ := List.mem_map.mp (List.mem_reverse.mp member)
  exact (hexDigits_view (lowDigits_lt (by decide) inDigits)).1

theorem readDigits_hexText (n : UInt64) :
    readDigits 16 hexValue (hexText n) = n.toNat := by
  have reads : ∀ digit ∈ lowDigits 16 16 n.toNat,
      hexValue (hexDigits.view digit) = digit :=
    fun digit member => (hexDigits_view (lowDigits_lt (by decide) member)).2
  rw [hexText, readDigits_written reads, ofDigits_lowDigits]
  exact Nat.mod_eq_of_lt n.toNat_lt

/-! ## The buffer -/

theorem hexLoop_eq (count : Nat) (n : UInt64) :
    hexLoop count n =
      storesDown 2 ((lowDigits 16 count n.toNat).map hexDigits.view) := by
  induction count generalizing n with
  | zero => rfl
  | succ count ih =>
      rw [hexLoop, ih, nibble_toNat, shift_toNat, lowDigits, List.map_cons,
        storesDown, List.length_map, length_lowDigits, Nat.add_comm 2 count]

theorem applyStores_utoaHex (n : UInt64) (str : Nat → UInt8) :
    applyStores str (utoaHex n) =
      applyStores str (storesFrom 0 (0x30 :: 0x78 :: (hexText n ++ [0]))) := by
  have behind : 2 + (hexText n).length = 18 := by rw [length_hexText]
  rw [storesFrom, storesFrom, storesFrom_append, behind, utoaHex,
    applyStores_cons, applyStores_cons, applyStores_append, hexLoop_eq,
    applyStores_storesDown, ← hexText]
  simp only [applyStores_cons, applyStores_append]
  rfl

theorem hexDigit_ne_zero {byte : UInt8} (digit : IsHexDigit byte) :
    byte ≠ 0 := by
  rintro rfl
  rcases digit with decimal | letter
  · cases decimal.1
  · cases letter.1

def hexString (n : UInt64) : CString :=
  .cons 0x30 (by decide) (.cons 0x78 (by decide)
    ⟨hexText n, fun _ member => hexDigit_ne_zero (isHexDigit_hexText member)⟩)

theorem utoaHex_holds (n : UInt64) (str : Nat → UInt8) :
    HoldsString (applyStores str (utoaHex n)) (hexString n) := by
  intro k bound
  have text : (hexString n).bytes = 0x30 :: 0x78 :: hexText n := rfl
  have terminated : 0x30 :: 0x78 :: (hexText n ++ [0]) =
      (hexString n).bytes ++ [0] := rfl
  rw [applyStores_utoaHex, applyStores_storesFrom, if_pos (Nat.zero_le k),
    Nat.sub_zero, terminated, CString.view]
  rcases Nat.lt_or_eq_of_le bound with inside | rfl
  · rw [List.getD_append _ _ _ _ inside, List.getD_eq_getElem _ _ inside,
      List.getD_eq_getElem _ _ inside]
  · rw [List.getD_append_right _ _ _ _ (Nat.le_refl _), Nat.sub_self,
      List.getD_cons_zero, List.getD_eq_default _ _ (Nat.le_refl _)]

theorem exists_mem_utoaHex (n : UInt64) (index : Nat) :
    (∃ store ∈ utoaHex n, store.1 = index) ↔ index ≤ 18 := by
  simp only [utoaHex, hexLoop_eq, List.exists_mem_cons_iff, List.mem_append,
    or_and_right, exists_or, exists_mem_storesDown, List.length_map,
    length_lowDigits, List.mem_singleton, exists_eq_left]
  omega

theorem hexString_injective : Function.Injective hexString := by
  intro n other same
  have texts : hexText n = hexText other := by
    injection congrArg CString.bytes same with _ tails
    injection tails
  apply UInt64.toNat_inj.mp
  rw [← readDigits_hexText n, texts, readDigits_hexText]

/-- `utoa_hex` writes bytes 0 to 18 of its buffer and no others: the prefix,
sixteen digits that read back as the number, and the terminator.  No text is
that of two numbers. -/
theorem utoaHex_prints (n : UInt64) (str : Nat → UInt8) :
    (∀ index, (∃ store ∈ utoaHex n, store.1 = index) ↔ index ≤ 18) ∧
    (∀ index, 18 < index → applyStores str (utoaHex n) index = str index) ∧
    (∃ (text : CString) (digits : List UInt8),
      HoldsString (applyStores str (utoaHex n)) text ∧
      text.bytes = 0x30 :: 0x78 :: digits ∧ digits.length = 16 ∧
      (∀ byte ∈ digits, IsHexDigit byte) ∧
      readDigits 16 hexValue digits = n.toNat) ∧
    ∀ (other : UInt64) (strOther : Nat → UInt8) (text : CString),
      HoldsString (applyStores str (utoaHex n)) text →
      HoldsString (applyStores strOther (utoaHex other)) text → n = other := by
  refine ⟨exists_mem_utoaHex n, ?_, ?_, ?_⟩
  · intro index behind
    apply applyStores_untouched
    intro store member same
    have inside := (exists_mem_utoaHex n index).mp ⟨store, member, same⟩
    omega
  · exact ⟨hexString n, hexText n, utoaHex_holds n str, rfl, length_hexText n,
      fun _ member => isHexDigit_hexText member, readDigits_hexText n⟩
  · intro other strOther text held otherHeld
    apply hexString_injective
    exact ((utoaHex_holds n str).unique held).trans
      (otherHeld.unique (utoaHex_holds other strOther))

end Lumie.ScreenHex
