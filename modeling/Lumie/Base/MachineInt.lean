import Mathlib.Data.Int.Lemmas
import Mathlib.Tactic.Ring

/-!
# Fixed-width integers of a C implementation

Values of fixed-width C integers are mathematical numbers here, and every
conversion or wrapping operation is explicit: `u32 z` and `u64 z` are the
values of `z` converted to a 32-bit and a 64-bit unsigned type, `i32 z` is the
two's complement 32-bit value.  A plain `char` is signed, so `charVal` is the
value a byte has after promotion to `int`.
-/

set_option autoImplicit false

namespace MachineInt

def u8 (z : Int) : UInt8 := UInt8.ofNat (z % 256).toNat

def u32 (z : Int) : Nat := (z % 2 ^ 32).toNat

def u64 (z : Int) : Nat := (z % 2 ^ 64).toNat

def i32 (z : Int) : Int := (z + 2 ^ 31) % 2 ^ 32 - 2 ^ 31

/-- The promoted value of a signed `char` that holds the byte `b`. -/
def charVal (b : UInt8) : Int :=
  if b.toNat < 128 then b.toNat else b.toNat - 256

theorem u32_of_bounds {z : Int} (low : 0 ≤ z) (high : z < 2 ^ 32) :
    u32 z = z.toNat := by
  unfold u32
  omega

theorem u64_of_bounds {z : Int} (low : 0 ≤ z) (high : z < 2 ^ 64) :
    u64 z = z.toNat := by
  unfold u64
  omega

theorem i32_of_bounds {z : Int} (low : -2 ^ 31 ≤ z) (high : z < 2 ^ 31) :
    i32 z = z := by
  unfold i32
  omega

theorem u64_natCast {n : Nat} (bound : n < 2 ^ 64) : u64 (n : Int) = n := by
  rw [u64_of_bounds (by omega) (by omega)]
  simp

theorem u32_natCast {n : Nat} (bound : n < 2 ^ 32) : u32 (n : Int) = n := by
  rw [u32_of_bounds (by omega) (by omega)]
  simp

theorem u8_natCast_toNat (n : Nat) : (u8 (n : Int)).toNat = n % 256 := by
  unfold u8
  rw [UInt8.toNat_ofNat']
  omega

theorem charVal_of_ascii {b : UInt8} (ascii : b.toNat < 128) :
    charVal b = b.toNat := by
  simp [charVal, ascii]

@[simp] theorem u8_charVal (b : UInt8) : u8 (charVal b) = b := by
  have bound := b.toNat_lt
  apply UInt8.toNat_inj.mp
  unfold u8 charVal
  split
  · simp
    omega
  · simp
    omega

theorem charVal_injective : Function.Injective charVal := by
  intro left right equal
  have bytes := congrArg u8 equal
  simpa using bytes

@[simp] theorem charVal_inj {left right : UInt8} :
    charVal left = charVal right ↔ left = right :=
  charVal_injective.eq_iff

theorem charVal_eq_ascii {c : UInt8} (code : UInt8) (ascii : code.toNat < 128) :
    charVal c = code.toNat ↔ c = code := by
  rw [← charVal_of_ascii ascii, charVal_inj]

/-- A `uint8_t` equals a plain `char` when it holds the same ASCII byte. -/
theorem toNat_eq_charVal_iff {b c : UInt8} :
    (b.toNat : Int) = charVal c ↔ b = c ∧ c.toNat < 128 := by
  by_cases ascii : c.toNat < 128
  · rw [charVal_of_ascii ascii, Int.natCast_inj, UInt8.toNat_inj]
    simp [ascii]
  · have negative : charVal c = c.toNat - 256 := by simp [charVal, ascii]
    have bound := c.toNat_lt
    constructor
    · intro same
      omega
    · intro both
      exact absurd both.2 ascii

theorem charVal_eq_zero {c : UInt8} : charVal c = 0 ↔ c = 0 :=
  charVal_eq_ascii 0 (by decide)

theorem charVal_eq_backspace {c : UInt8} : charVal c = 0x08 ↔ c = 0x08 :=
  charVal_eq_ascii 0x08 (by decide)

theorem charVal_eq_newline {c : UInt8} : charVal c = 0x0A ↔ c = 0x0A :=
  charVal_eq_ascii 0x0A (by decide)

/-! ## Exact arithmetic -/

/-- The result of an `int` operation; `none` is a signed overflow. -/
def checkedInt (z : Int) : Option Int :=
  if -2 ^ 31 ≤ z ∧ z < 2 ^ 31 then some z else none

/-- The value of a `uint32_t` expression; `none` is one that wraps. -/
def checkedUint32 (z : Int) : Option Nat :=
  if 0 ≤ z ∧ z < 2 ^ 32 then some z.toNat else none

theorem checkedInt_natCast {n : Nat} (bound : n < 2 ^ 31) :
    checkedInt (n : Int) = some (n : Int) := if_pos (by omega)

theorem checkedUint32_natCast {n : Nat} (bound : n < 2 ^ 32) :
    checkedUint32 (n : Int) = some n := if_pos (by omega)

end MachineInt
