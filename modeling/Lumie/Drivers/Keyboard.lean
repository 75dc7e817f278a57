import Lumie.Base.MachineInt
import Mathlib.Tactic

/-!
# The keyboard driver

The layout tables, the shift map and the interrupt handler of `keyboard.c`.
Characters are the bytes a `char` holds; the initialisers of the tables leave
the rest of their 128 entries zero.
-/

set_option autoImplicit false

namespace Lumie.Keyboard

open MachineInt

inductive Layout where
  | enUs
  | frCa
  deriving DecidableEq, Repr

def enUs : List UInt8 :=
  [0, 27, 0x31, 0x32, 0x33, 0x34, 0x35, 0x36, 0x37, 0x38, 0x39, 0x30, 0x2D, 0x3D, 0x08,
    0x09, 0x71, 0x77, 0x65, 0x72, 0x74, 0x79, 0x75, 0x69, 0x6F, 0x70, 0x5B, 0x5D, 0x0A,
    0, 0x61, 0x73, 0x64, 0x66, 0x67, 0x68, 0x6A, 0x6B, 0x6C, 0x3B, 0x27, 0x60, 0,
    0x5C, 0x7A, 0x78, 0x63, 0x76, 0x62, 0x6E, 0x6D, 0x2C, 0x2E, 0x2F, 0, 0x2A,
    0x30, 0x20, 0]

def frCa : List UInt8 :=
  [0, 27, 0x31, 0x32, 0x33, 0x34, 0x35, 0x36, 0x37, 0x38, 0x39, 0x30, 0x2D, 0x3D, 0x08,
    0x09, 0x71, 0x77, 0x65, 0x72, 0x74, 0x79, 0x75, 0x69, 0x6F, 0x70, 0x5E, 0x87, 0x0A,
    0, 0x61, 0x73, 0x64, 0x66, 0x67, 0x68, 0x6A, 0x6B, 0x6C, 0x3B, 0x8A, 0x85, 0,
    0x97, 0x7A, 0x78, 0x63, 0x76, 0x62, 0x6E, 0x6D, 0x2C, 0x2E, 0x82, 0, 0x2A,
    0, 0x20, 0]

def Layout.table : Layout → List UInt8
  | .enUs => Lumie.Keyboard.enUs
  | .frCa => Lumie.Keyboard.frCa

/-- The `switch` of `apply_shift` for each layout, case by case. -/
def Layout.shifted : Layout → List (UInt8 × UInt8)
  | .enUs =>
      [(0x31, 0x21), (0x32, 0x40), (0x33, 0x23), (0x34, 0x24), (0x35, 0x25),
        (0x36, 0x5E), (0x37, 0x26), (0x38, 0x2A), (0x39, 0x28), (0x30, 0x29),
        (0x2D, 0x5F), (0x3D, 0x2B), (0x5B, 0x7B), (0x5D, 0x7D), (0x3B, 0x3A),
        (0x27, 0x22), (0x60, 0x7E), (0x5C, 0x7C), (0x2C, 0x3C), (0x2E, 0x3E),
        (0x2F, 0x3F)]
  | .frCa =>
      [(0x31, 0x21), (0x32, 0x22), (0x33, 0x2F), (0x34, 0x24), (0x35, 0x25),
        (0x36, 0x3F), (0x37, 0x26), (0x38, 0x2A), (0x39, 0x28), (0x30, 0x29),
        (0x2D, 0x5F), (0x3D, 0x2B), (0x85, 0xB7), (0x8A, 0xD4), (0x82, 0x90),
        (0x87, 0x80), (0x97, 0xD6), (0x5E, 0xA8), (0x3B, 0x3A), (0x2C, 0x3C),
        (0x2E, 0x3E), (0x27, 0x22)]

structure KeyboardState where
  currentLayout : Layout
  shiftActive : Bool
  lastInterruptChar : UInt8
  deriving DecidableEq, Repr

def applyShift (layout : Layout) (c : UInt8) : UInt8 :=
  if 97 ≤ charVal c ∧ charVal c ≤ 122 then u8 (charVal c - 32)
  else (layout.shifted.lookup c).getD c

def applyLayout (keyboard : KeyboardState) (scancode : UInt8) : UInt8 :=
  let c := keyboard.currentLayout.table.getD scancode.toNat 0
  if keyboard.shiftActive then applyShift keyboard.currentLayout c else c

/-- `keyboard_handler` with the scancode it has read from port 0x60. -/
def keyboardHandler (keyboard : KeyboardState) (scancode : UInt8) :
    KeyboardState :=
  if scancode = 0x2A ∨ scancode = 0x36 then
    { keyboard with shiftActive := true }
  else if scancode = 0xAA ∨ scancode = 0xB6 then
    { keyboard with shiftActive := false }
  else if scancode < 0x80 then
    { keyboard with lastInterruptChar := applyLayout keyboard scancode }
  else keyboard

def storedChar (keyboard : KeyboardState) (scancode : UInt8) : Option UInt8 :=
  if scancode = 0x2A ∨ scancode = 0x36 ∨ scancode = 0xAA ∨ scancode = 0xB6 then
    none
  else if scancode < 0x80 then some (applyLayout keyboard scancode)
  else none

theorem keyboardHandler_slot (keyboard : KeyboardState) (scancode : UInt8) :
    (keyboardHandler keyboard scancode).lastInterruptChar =
      (storedChar keyboard scancode).getD keyboard.lastInterruptChar := by
  unfold keyboardHandler storedChar
  by_cases press : scancode = 0x2A ∨ scancode = 0x36
  · rw [if_pos press, if_pos (by tauto)]
    rfl
  · by_cases release : scancode = 0xAA ∨ scancode = 0xB6
    · rw [if_neg press, if_pos release, if_pos (by tauto)]
      rfl
    · have character : ¬ (scancode = 0x2A ∨ scancode = 0x36 ∨
          scancode = 0xAA ∨ scancode = 0xB6) := by tauto
      rw [if_neg press, if_neg release, if_neg character]
      split <;> rfl

end Lumie.Keyboard
