import Mathlib.Data.Nat.Digits.Lemmas

/-!
# Numbers as text in a base

A printer takes digits off a number from its low end, a reader multiplies up
from the high end.  `readDigits` is the reader; `lowDigits` gives a fixed count
of digits, where `Nat.digits` gives as many as the number has.
-/

set_option autoImplicit false

namespace Positional

variable {Symbol : Type*}

/-- The number a text stands for, most significant symbol first. -/
def readDigits (base : Nat) (value : Symbol → Nat) (text : List Symbol) : Nat :=
  text.foldl (fun read symbol => read * base + value symbol) 0

theorem readDigits_eq_ofDigits (base : Nat) (value : Symbol → Nat)
    (text : List Symbol) :
    readDigits base value text =
      Nat.ofDigits base (text.map value).reverse := by
  induction text using List.reverseRecOn with
  | nil => rfl
  | append_singleton front last ih =>
      rw [readDigits, List.foldl_append, ← readDigits, ih, List.map_append,
        List.reverse_append]
      simp only [List.foldl_cons, List.foldl_nil, List.map_cons, List.map_nil,
        List.reverse_singleton, List.singleton_append, Nat.ofDigits_cons]
      ring

/-- Reading back a text of digits that were written from the low end. -/
theorem readDigits_written {base : Nat} {value : Symbol → Nat}
    {symbol : Nat → Symbol} {digits : List Nat}
    (reads : ∀ digit ∈ digits, value (symbol digit) = digit) :
    readDigits base value (digits.map symbol).reverse =
      Nat.ofDigits base digits := by
  have back : (digits.map symbol).map value = digits := by
    rw [List.map_map]
    exact (List.map_congr_left reads).trans (List.map_id digits)
  rw [readDigits_eq_ofDigits, List.map_reverse, List.reverse_reverse, back]

/-- A text without a leading zero is the one that is written for the number it
stands for. -/
theorem text_of_readDigits {base : Nat} (atLeastTwo : 1 < base)
    {value : Symbol → Nat} {symbol : Nat → Symbol} {text : List Symbol}
    (back : ∀ s ∈ text, symbol (value s) = s) (small : ∀ s ∈ text, value s < base)
    (lead : ∀ s, text.head? = some s → value s ≠ 0) :
    text = ((Nat.digits base (readDigits base value text)).map symbol).reverse := by
  have digits : Nat.digits base (readDigits base value text) =
      (text.map value).reverse := by
    rw [readDigits_eq_ofDigits]
    apply Nat.digits_ofDigits base atLeastTwo
    · intro digit member
      obtain ⟨s, inText, rfl⟩ := List.mem_map.mp (List.mem_reverse.mp member)
      exact small s inText
    · intro nonempty
      cases text with
      | nil => exact absurd rfl nonempty
      | cons first rest =>
          have last : (List.map value (first :: rest)).reverse.getLast nonempty =
              value first := by simp
          rw [last]
          exact lead first rfl
  have written : (text.map value).map symbol = text := by
    rw [List.map_map]
    exact (List.map_congr_left back).trans (List.map_id text)
  rw [digits, List.map_reverse, List.reverse_reverse, written]

/-- The lowest `count` digits, least significant first. -/
def lowDigits (base : Nat) : Nat → Nat → List Nat
  | 0, _ => []
  | count + 1, n => n % base :: lowDigits base count (n / base)

@[simp] theorem length_lowDigits (base count n : Nat) :
    (lowDigits base count n).length = count := by
  induction count generalizing n with
  | zero => rfl
  | succ count ih => rw [lowDigits, List.length_cons, ih]

theorem lowDigits_lt {base count n digit : Nat} (positive : 0 < base)
    (member : digit ∈ lowDigits base count n) : digit < base := by
  induction count generalizing n with
  | zero => cases member
  | succ count ih =>
      rcases List.mem_cons.mp member with rfl | later
      · exact Nat.mod_lt n positive
      · exact ih later

theorem ofDigits_lowDigits (base count n : Nat) :
    Nat.ofDigits base (lowDigits base count n) = n % base ^ count := by
  induction count generalizing n with
  | zero => rw [pow_zero, Nat.mod_one]; rfl
  | succ count ih =>
      rw [lowDigits, Nat.ofDigits_cons, ih, pow_succ', Nat.mod_mul]

theorem getElem_lowDigits (base count n k : Nat)
    (inside : k < (lowDigits base count n).length) :
    (lowDigits base count n)[k] = n / base ^ k % base := by
  induction count generalizing n k with
  | zero => cases inside
  | succ count ih =>
      cases k with
      | zero => simp [lowDigits]
      | succ k =>
          have later := ih (n / base) k (by simpa [lowDigits] using inside)
          rw [Nat.div_div_eq_div_mul, ← pow_succ'] at later
          exact later

end Positional
