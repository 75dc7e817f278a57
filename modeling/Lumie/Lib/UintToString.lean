import Lumie.Base.Positional
import Lumie.Base.StoreTrace
import Lumie.Lib.Strings

/-!
# Decimal numbers

`uint_to_string` fills its static buffer from the back, one digit at a turn,
and returns a pointer to the last digit it wrote.  Twenty digits are enough for
64 bits, so the guard on the index never ends the loop.
-/

set_option autoImplicit false

namespace Lumie.UintToString

open Positional StoreTrace
open Lumie.Strings

structure DigitLoop where
  stores : List (Nat × UInt8)
  i : Nat
  n : UInt64

/-- `while (n > 0 && i > 0) { uint_buf[i--] = (n % 10) + '0'; n /= 10; }` -/
def digitLoop : Nat → UInt64 → DigitLoop
  | 0, n => ⟨[], 0, n⟩
  | i + 1, n =>
      if 0 < n then
        let rest := digitLoop i (n / 10)
        ⟨(i + 1, (n % 10 + 48).toUInt8) :: rest.stores, rest.i, rest.n⟩
      else ⟨[], i + 1, n⟩

/-- The stores of a call, and the index in `uint_buf` that the returned pointer
points to. -/
structure Call where
  stores : List (Nat × UInt8)
  pointer : Nat

def uintToString (n : UInt64) : Call :=
  if n = 0 then ⟨[(31, 0), (30, 48)], 29 + 1⟩
  else
    let loop := digitLoop 30 n
    ⟨(31, 0) :: loop.stores, loop.i + 1⟩

/-! ## Decimal text -/

def digitValue (byte : UInt8) : Nat := byte.toNat - 48

def digitChar (digit : Nat) : UInt8 := UInt8.ofNat (48 + digit)

structure IsDecimal (text : List UInt8) (n : Nat) : Prop where
  nonempty : 1 ≤ text.length
  digits : ∀ byte ∈ text, 48 ≤ byte.toNat ∧ byte.toNat ≤ 57
  noLeadingZero : text.head? = some 48 → n = 0 ∧ text.length = 1
  value : readDigits 10 digitValue text = n

theorem toNat_digitChar {digit : Nat} (small : digit < 10) :
    (digitChar digit).toNat = 48 + digit := by
  rw [digitChar, UInt8.toNat_ofNat']
  omega

theorem digitValue_digitChar {digit : Nat} (small : digit < 10) :
    digitValue (digitChar digit) = digit := by
  rw [digitValue, toNat_digitChar small, Nat.add_sub_cancel_left]

theorem storedDigit_eq (n : UInt64) :
    (n % 10 + 48).toUInt8 = digitChar (n.toNat % 10) := by
  apply UInt8.toNat_inj.mp
  rw [toNat_digitChar (Nat.mod_lt _ (by decide)), UInt64.toNat_toUInt8,
    UInt64.toNat_add, UInt64.toNat_mod]
  simp only [UInt64.reduceToNat]
  omega

def decimalText (n : Nat) : List UInt8 :=
  ((Nat.digits 10 n).map digitChar).reverse

theorem length_decimalText (n : Nat) :
    (decimalText n).length = (Nat.digits 10 n).length := by
  rw [decimalText, List.length_reverse, List.length_map]

theorem decimalText_isDecimal {n : Nat} (positive : 0 < n) :
    IsDecimal (decimalText n) n := by
  have small : ∀ digit ∈ Nat.digits 10 n, digit < 10 :=
    fun digit member => Nat.digits_lt_base (by decide) member
  have some_digit : Nat.digits 10 n ≠ [] :=
    Nat.digits_ne_nil_iff_ne_zero.mpr (Nat.ne_of_gt positive)
  refine ⟨?_, ?_, ?_, ?_⟩
  · rw [length_decimalText]
    exact List.length_pos_iff.mpr some_digit
  · intro byte member
    obtain ⟨digit, inDigits, rfl⟩ :=
      List.mem_map.mp (List.mem_reverse.mp member)
    have bound := small digit inDigits
    rw [toNat_digitChar bound]
    omega
  · intro zero
    -- the first symbol is the last digit taken off, which is not zero
    have last : (Nat.digits 10 n).getLast some_digit ≠ 0 :=
      Nat.getLast_digit_ne_zero 10 (Nat.ne_of_gt positive)
    have bound := small _ (List.getLast_mem some_digit)
    rw [decimalText, List.head?_reverse, List.getLast?_map,
      List.getLast?_eq_some_getLast some_digit, Option.map_some,
      Option.some.injEq] at zero
    have code := congrArg UInt8.toNat zero
    rw [toNat_digitChar bound] at code
    simp only [UInt8.reduceToNat] at code
    omega
  · rw [decimalText, readDigits_written fun digit member =>
      digitValue_digitChar (small digit member), Nat.ofDigits_digits]

theorem zero_isDecimal : IsDecimal [48] 0 :=
  ⟨Nat.le_refl 1, by simp, fun _ => ⟨rfl, rfl⟩, rfl⟩

theorem IsDecimal.noNul {text : List UInt8} {n : Nat}
    (decimal : IsDecimal text n) : ∀ byte ∈ text, byte ≠ 0 := by
  intro byte member zero
  have low := (decimal.digits byte member).1
  rw [zero] at low
  cases low

theorem digitChar_digitValue {byte : UInt8} (low : 48 ≤ byte.toNat)
    (high : byte.toNat ≤ 57) : digitChar (digitValue byte) = byte := by
  apply UInt8.toNat_inj.mp
  have small : digitValue byte < 10 := by
    unfold digitValue
    omega
  rw [toNat_digitChar small]
  unfold digitValue
  omega

def decimal (n : Nat) : List UInt8 := if n = 0 then [48] else decimalText n

theorem IsDecimal.eq_decimal {text : List UInt8} {n : Nat}
    (isDecimal : IsDecimal text n) : text = decimal n := by
  by_cases zero : text.head? = some 48
  · obtain ⟨rfl, single⟩ := isDecimal.noLeadingZero zero
    obtain ⟨byte, rfl⟩ := List.length_eq_one_iff.mp single
    rw [decimal, if_pos rfl]
    exact congrArg (fun first => [first]) (Option.some.inj zero)
  · have back : ∀ byte ∈ text, digitChar (digitValue byte) = byte :=
      fun byte member => digitChar_digitValue (isDecimal.digits byte member).1
        (isDecimal.digits byte member).2
    have small : ∀ byte ∈ text, digitValue byte < 10 := by
      intro byte member
      have high := (isDecimal.digits byte member).2
      unfold digitValue
      omega
    have lead : ∀ byte, text.head? = some byte → digitValue byte ≠ 0 := by
      intro byte first noValue
      have bounds := isDecimal.digits byte (List.mem_of_head? first)
      have code : byte = 48 := by
        apply UInt8.toNat_inj.mp
        unfold digitValue at noValue
        simp only [UInt8.reduceToNat]
        omega
      rw [code] at first
      exact zero first
    have written := text_of_readDigits (by decide) back small lead
    rw [isDecimal.value] at written
    have positive : n ≠ 0 := by
      rintro rfl
      have nonempty := isDecimal.nonempty
      rw [written] at nonempty
      simp at nonempty
    rw [decimal, if_neg positive]
    exact written

theorem digitLoop_eq (i : Nat) (n : UInt64)
    (room : (Nat.digits 10 n.toNat).length ≤ i) :
    digitLoop i n =
      ⟨storesDown (i + 1 - (Nat.digits 10 n.toNat).length)
          ((Nat.digits 10 n.toNat).map digitChar),
        i - (Nat.digits 10 n.toNat).length, 0⟩ := by
  induction i generalizing n with
  | zero =>
      have none : Nat.digits 10 n.toNat = [] :=
        List.length_eq_zero_iff.mp (Nat.le_zero.mp room)
      have zero : n = 0 := UInt64.toNat_inj.mp (Nat.digits_eq_nil_iff_eq_zero.mp none)
      subst zero
      rfl
  | succ i ih =>
      rw [digitLoop]
      by_cases more : 0 < n
      · have positive : 0 < n.toNat := UInt64.lt_iff_toNat_lt.mp more
        have quotient : (n / 10).toNat = n.toNat / 10 := UInt64.toNat_div n 10
        have digits : Nat.digits 10 n.toNat =
            n.toNat % 10 :: Nat.digits 10 (n.toNat / 10) :=
          Nat.digits_def' (by decide) positive
        rw [digits, List.length_cons] at room ⊢
        have later := ih (n / 10) (by rw [quotient]; omega)
        rw [quotient] at later
        rw [if_pos more, later, storedDigit_eq, List.map_cons, storesDown,
          List.length_map]
        have start : i + 1 + 1 - ((Nat.digits 10 (n.toNat / 10)).length + 1) =
            i + 1 - (Nat.digits 10 (n.toNat / 10)).length := by omega
        have index : i + 1 - (Nat.digits 10 (n.toNat / 10)).length +
            (Nat.digits 10 (n.toNat / 10)).length = i + 1 := by omega
        have pointer : i + 1 - ((Nat.digits 10 (n.toNat / 10)).length + 1) =
            i - (Nat.digits 10 (n.toNat / 10)).length := by omega
        rw [start, index, pointer]
      · have zero : n = 0 := by
          apply UInt64.toNat_inj.mp
          rw [UInt64.lt_iff_toNat_lt] at more
          exact Nat.eq_zero_of_not_pos more
        subst zero
        rw [if_neg more]
        rfl

theorem length_digits_le (n : UInt64) : (Nat.digits 10 n.toNat).length ≤ 20 := by
  apply (Nat.digits_length_le_iff (by decide) n.toNat).mpr
  exact lt_of_lt_of_le n.toNat_lt (by decide)

/-! ## The returned string -/

/-- The call leaves the text right in front of the terminator and points to
it. -/
theorem uintToString_call (n : UInt64) :
    ∃ text, IsDecimal text n.toNat ∧ text.length ≤ 20 ∧
      (uintToString n).pointer = 31 - text.length ∧
      (uintToString n).stores =
        (31, 0) :: storesDown (31 - text.length) text.reverse := by
  by_cases zero : n = 0
  · subst zero
    exact ⟨[48], zero_isDecimal, by decide, rfl, rfl⟩
  · have positive : 0 < n.toNat := by
      apply Nat.pos_of_ne_zero
      intro none
      exact zero (UInt64.toNat_inj.mp none)
    have few := length_digits_le n
    have index : 30 - (Nat.digits 10 n.toNat).length + 1 =
        31 - (Nat.digits 10 n.toNat).length := by omega
    refine ⟨decimalText n.toNat, decimalText_isDecimal positive, ?_, ?_, ?_⟩
    · rw [length_decimalText]
      exact few
    · rw [uintToString, if_neg zero, digitLoop_eq 30 n (by omega),
        length_decimalText, ← index]
    · rw [uintToString, if_neg zero, digitLoop_eq 30 n (by omega),
        length_decimalText, decimalText, List.reverse_reverse]

theorem holdsString_storesDown (uintBuf : Nat → UInt8) (text : CString)
    (short : text.bytes.length ≤ 31) :
    HoldsString (fun k => applyStores uintBuf
        ((31, 0) :: storesDown (31 - text.bytes.length) text.bytes.reverse)
        (31 - text.bytes.length + k)) text := by
  intro k bound
  simp only [applyStores_cons]
  rw [applyStores_storesDown, List.reverse_reverse, applyStores_storesFrom,
    if_pos (Nat.le_add_right _ _), Nat.add_sub_cancel_left, CString.view]
  rcases Nat.lt_or_eq_of_le bound with inside | rfl
  · rw [List.getD_eq_getElem _ _ inside, List.getD_eq_getElem _ _ inside]
  · have last : 31 - text.bytes.length + text.bytes.length = 31 := by omega
    rw [List.getD_eq_default _ _ (Nat.le_refl _),
      List.getD_eq_default _ _ (Nat.le_refl _), last, Function.update_self]

/-- The numeral that the calls of `uint_to_string` leave, whatever stood in its
buffer. -/
theorem numeral_read (uintBuf : Nat → UInt8) (n : UInt64) :
    ∃ number : CString, number.bytes = decimal n.toNat ∧
      number.bytes.length ≤ 20 ∧
      stringFrom (applyStores uintBuf (uintToString n).stores)
        (32 - (uintToString n).pointer) (uintToString n).pointer =
          some number := by
  obtain ⟨text, isDecimal, short, pointer, stores⟩ := uintToString_call n
  have held := holdsString_storesDown uintBuf ⟨text, isDecimal.noNul⟩
    (show text.length ≤ 31 by omega)
  refine ⟨⟨text, isDecimal.noNul⟩, isDecimal.eq_decimal, short, ?_⟩
  rw [pointer, stores]
  apply stringFrom_of_holds _ held
  simp only
  omega

/-- `uint_to_string` prints every number: whatever the buffer held, the returned
pointer is at the decimal numeral in it, the loop has run out of digits and not
of room, and all stores are inside the buffer. -/
theorem uintToString_prints (uintBuf : Nat → UInt8) (n : UInt64) :
    ∃ text : CString, IsDecimal text.bytes n.toNat ∧ text.bytes.length ≤ 20 ∧
      (uintToString n).pointer + text.bytes.length = 31 ∧
      HoldsString (fun k => applyStores uintBuf (uintToString n).stores
        ((uintToString n).pointer + k)) text ∧
      (digitLoop 30 n).n = 0 ∧
      ∀ store ∈ (uintToString n).stores, store.1 < 32 := by
  obtain ⟨bytes, decimal, short, pointer, stores⟩ := uintToString_call n
  refine ⟨⟨bytes, decimal.noNul⟩, decimal, short, ?_, ?_, ?_, ?_⟩
  · rw [pointer]
    exact Nat.sub_add_cancel (by omega)
  · rw [pointer, stores]
    exact holdsString_storesDown uintBuf ⟨bytes, decimal.noNul⟩
      (show bytes.length ≤ 31 by omega)
  · have few := length_digits_le n
    rw [digitLoop_eq 30 n (by omega)]
  · intro store member
    rw [stores] at member
    rcases List.mem_cons.mp member with rfl | digit
    · exact Nat.lt_succ_self 31
    · have bounds := exists_mem_storesDown.mp ⟨store, digit, rfl⟩
      rw [List.length_reverse] at bounds
      omega

end Lumie.UintToString
