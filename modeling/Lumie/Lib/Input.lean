import Lumie.Drivers.Screen

/-!
# The line reader

`input.c`.  The keyboard is the list of the characters that
`keyboard_get_char` returns; a call of `readline` that has used them up is
still waiting.
-/

set_option autoImplicit false

namespace Lumie.Input

open MachineInt FoldRun
open Lumie.Screen

structure Line where
  i : Nat
  buffer : Nat → UInt8
  con : Console

inductive Readline where
  | waiting (line : Line)
  | done (line : Line)

def Readline.line : Readline → Line
  | .waiting line => line
  | .done line => line

/-- The loop body for a character that is neither zero nor a newline. -/
def edit (fb : Framebuffer) (font : Font) (maxLen : Nat) (line : Line)
    (c : UInt8) : Line :=
  if charVal c = 0x08 then
    if 0 < line.i then
      { i := line.i - 1
        buffer := Function.update line.buffer (line.i - 1) 0
        con := backspace fb line.con }
    else line
  else if line.i < u64 ((maxLen : Int) - 1) then
    { i := u64 ((line.i : Int) + 1)
      buffer := Function.update line.buffer line.i c
      con := kprintChar fb font line.con c 0xFFFFFF }
  else line

def readlineFrom (fb : Framebuffer) (font : Font) (maxLen : Nat) :
    Line → List UInt8 → Readline
  | line, [] => .waiting line
  | line, c :: rest =>
      if charVal c = 0 then readlineFrom fb font maxLen line rest
      else if charVal c = 0x0A then
        .done
          { line with
            con := kprintChar fb font line.con 0x0A 0xFFFFFF
            buffer := Function.update line.buffer line.i 0 }
      else readlineFrom fb font maxLen (edit fb font maxLen line c) rest

def readline (fb : Framebuffer) (font : Font) (con : Console)
    (buffer : Nat → UInt8) (maxLen : Nat) (input : List UInt8) : Readline :=
  readlineFrom fb font maxLen ⟨0, buffer, con⟩ input

def Typed (input : List UInt8) : Prop := ∀ c ∈ input, c ≠ 0 ∧ c ≠ 0x0A

theorem readlineFrom_typed (fb : Framebuffer) (font : Font) (maxLen : Nat)
    (line : Line) {input : List UInt8} (typed : Typed input) :
    readlineFrom fb font maxLen line input =
      .waiting (run (edit fb font maxLen) line input) := by
  induction input generalizing line with
  | nil => rfl
  | cons c rest ih =>
      obtain ⟨nonzero, noNewline⟩ := typed c (by simp)
      have later : Typed rest := by
        intro next member
        exact typed next (by simp [member])
      rw [readlineFrom, if_neg (by rwa [charVal_eq_zero]),
        if_neg (by rwa [charVal_eq_newline]), ih _ later, run_cons]

section Branches

variable {fb : Framebuffer} {font : Font} {maxLen : Nat}

/-- The limit of the index, with `max_len` a `size_t`. -/
theorem maxLen_pred (positive : 1 ≤ maxLen) (fits : maxLen < 2 ^ 64) :
    u64 ((maxLen : Int) - 1) = maxLen - 1 := by
  rw [u64_of_bounds (by omega) (by omega)]
  omega

theorem edit_delete (line : Line) (nonempty : 0 < line.i) :
    edit fb font maxLen line 0x08 =
      ⟨line.i - 1, Function.update line.buffer (line.i - 1) 0,
        backspace fb line.con⟩ := by
  rw [edit, if_pos (charVal_eq_backspace.mpr rfl), if_pos nonempty]

theorem edit_empty (line : Line) (isEmpty : line.i = 0) :
    edit fb font maxLen line 0x08 = line := by
  rw [edit, if_pos (charVal_eq_backspace.mpr rfl), if_neg (by omega)]

theorem edit_append (fits : maxLen < 2 ^ 64) (line : Line) {c : UInt8}
    (noBackspace : c ≠ 0x08) (room : line.i < maxLen - 1) :
    edit fb font maxLen line c =
      ⟨line.i + 1, Function.update line.buffer line.i c,
        kprintChar fb font line.con c 0xFFFFFF⟩ := by
  have next : u64 ((line.i : Int) + 1) = line.i + 1 := by
    rw [u64_of_bounds (by omega) (by omega)]
    omega
  rw [edit, if_neg (by rwa [charVal_eq_backspace]),
    maxLen_pred (by omega) fits, if_pos room, next]

theorem edit_full (positive : 1 ≤ maxLen) (fits : maxLen < 2 ^ 64)
    (line : Line) {c : UInt8} (noBackspace : c ≠ 0x08)
    (full : maxLen - 1 ≤ line.i) : edit fb font maxLen line c = line := by
  rw [edit, if_neg (by rwa [charVal_eq_backspace]),
    maxLen_pred positive fits, if_neg (by omega)]

end Branches

end Lumie.Input
