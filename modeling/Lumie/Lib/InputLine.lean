import Lumie.Lib.Input
import Lumie.Lib.Strings
import Mathlib.Data.List.TakeWhile

/-!
# The line that `readline` returns

The loop of `readline` keeps one index and one buffer.  `editLine` is what it
does to the text in that buffer, and `readlineStores` lists the stores that the
source makes into it, so that the text and the bounds of the stores are both
statements about one call.
-/

set_option autoImplicit false

namespace Lumie.InputLine

open MachineInt StoreTrace FoldRun
open Lumie.Screen Lumie.Input Lumie.Strings

/-! ## The edited text -/

/-- One nonzero character: a backspace drops the last character, any other is
appended while the text is shorter than `maxLen - 1`. -/
def editLine (maxLen : Nat) (text : List UInt8) (c : UInt8) : List UInt8 :=
  if c = 0x08 then text.dropLast
  else if text.length < maxLen - 1 then text ++ [c] else text

theorem editLine_length {maxLen : Nat} {text : List UInt8}
    (short : text.length ≤ maxLen - 1) (c : UInt8) :
    (editLine maxLen text c).length ≤ maxLen - 1 := by
  unfold editLine
  split
  · rw [List.length_dropLast]
    omega
  · split
    · rw [List.length_append, List.length_singleton]
      omega
    · exact short

theorem editLine_noNul {maxLen : Nat} {text : List UInt8}
    (noNul : ∀ byte ∈ text, byte ≠ 0) {c : UInt8} (nonzero : c ≠ 0) :
    ∀ byte ∈ editLine maxLen text c, byte ≠ 0 := by
  intro byte member
  unfold editLine at member
  split at member
  · exact noNul byte (List.mem_of_mem_dropLast member)
  · split at member
    · rcases List.mem_append.mp member with old | new
      · exact noNul byte old
      · rw [List.mem_singleton] at new
        rwa [new]
    · exact noNul byte member

def editedText (maxLen : Nat) (input : List UInt8) : List UInt8 :=
  run (editLine maxLen) [] (input.filter (· ≠ 0))

theorem editedText_length (maxLen : Nat) (input : List UInt8) :
    (editedText maxLen input).length ≤ maxLen - 1 := by
  have keeps : ∀ text c, text.length ≤ maxLen - 1 →
      (editLine maxLen text c).length ≤ maxLen - 1 :=
    fun _ c short => editLine_length short c
  exact run_invariant keeps (by simp) _

theorem run_editLine_noNul (maxLen : Nat) {typed : List UInt8}
    (nonzero : ∀ c ∈ typed, c ≠ 0) {text : List UInt8}
    (noNul : ∀ byte ∈ text, byte ≠ 0) :
    ∀ byte ∈ run (editLine maxLen) text typed, byte ≠ 0 := by
  induction typed generalizing text with
  | nil => exact noNul
  | cons c rest ih =>
      obtain ⟨first, later⟩ := List.forall_mem_cons.mp nonzero
      exact ih later (editLine_noNul noNul first)

def editedLine (maxLen : Nat) (input : List UInt8) : CString where
  bytes := editedText maxLen input
  noNul := run_editLine_noNul maxLen (by simp) (by simp)

def editStores (maxLen : Nat) (line : Line) (c : UInt8) :
    List (Nat × UInt8) :=
  if charVal c = 0x08 then
    if 0 < line.i then [(line.i - 1, 0)] else []
  else if line.i < u64 ((maxLen : Int) - 1) then [(line.i, c)] else []

def readlineStores (fb : Framebuffer) (font : Font) (maxLen : Nat) :
    Line → List UInt8 → List (Nat × UInt8)
  | _, [] => []
  | line, c :: rest =>
      if charVal c = 0 then readlineStores fb font maxLen line rest
      else if charVal c = 0x0A then [(line.i, 0)]
      else editStores maxLen line c ++
        readlineStores fb font maxLen (edit fb font maxLen line c) rest

theorem edit_buffer (fb : Framebuffer) (font : Font) (maxLen : Nat)
    (line : Line) (c : UInt8) :
    (edit fb font maxLen line c).buffer =
      applyStores line.buffer (editStores maxLen line c) := by
  unfold edit editStores
  split
  · split
    · rfl
    · rfl
  · split
    · rfl
    · rfl

/-! ## The text in the buffer -/

structure HoldsText (maxLen : Nat) (text : List UInt8) (line : Line) : Prop
    where
  index : line.i = text.length
  short : text.length ≤ maxLen - 1
  holds : ∀ k < text.length, line.buffer k = text.getD k 0

section Loop

variable {fb : Framebuffer} {font : Font} {maxLen : Nat} {text : List UInt8}
  {line : Line}

theorem HoldsText.delete (held : HoldsText maxLen text line)
    (nonempty : 0 < line.i) :
    HoldsText maxLen text.dropLast
      ⟨line.i - 1, Function.update line.buffer (line.i - 1) 0,
        backspace fb line.con⟩ := by
  have index := held.index
  have short := held.short
  refine ⟨?_, ?_, ?_⟩
  · rw [List.length_dropLast, ← index]
  · rw [List.length_dropLast]
    omega
  · intro k bound
    rw [List.length_dropLast] at bound
    have before := held.holds k (by omega)
    rw [List.getD_eq_getElem _ _ (by omega)] at before
    rw [List.getD_eq_getElem _ _ (by rwa [List.length_dropLast]),
      List.getElem_dropLast, ← before]
    exact Function.update_of_ne (by omega) _ _

theorem HoldsText.append (held : HoldsText maxLen text line) (c : UInt8)
    (room : text.length < maxLen - 1) :
    HoldsText maxLen (text ++ [c])
      ⟨line.i + 1, Function.update line.buffer line.i c,
        kprintChar fb font line.con c 0xFFFFFF⟩ := by
  have index := held.index
  refine ⟨?_, ?_, ?_⟩
  · rw [List.length_append, List.length_singleton, index]
  · rw [List.length_append, List.length_singleton]
    omega
  · intro k bound
    rw [List.length_append, List.length_singleton] at bound
    simp only [index]
    by_cases last : k = text.length
    · rw [last]
      simp
    · rw [Function.update_of_ne last, held.holds k (by omega),
        List.getD_append _ _ _ _ (by omega)]

theorem HoldsText.edit (positive : 1 ≤ maxLen) (fits : maxLen < 2 ^ 64)
    (held : HoldsText maxLen text line) (c : UInt8) :
    HoldsText maxLen (editLine maxLen text c)
      (Input.edit fb font maxLen line c) := by
  have index := held.index
  unfold editLine
  by_cases isBackspace : c = 0x08
  · rw [if_pos isBackspace, isBackspace]
    by_cases nonempty : 0 < line.i
    · rw [edit_delete line nonempty]
      exact held.delete nonempty
    · have noText : text = [] := List.length_eq_zero_iff.mp (by omega)
      rw [edit_empty line (by omega), noText, List.dropLast_nil, ← noText]
      exact held
  · rw [if_neg isBackspace]
    by_cases room : text.length < maxLen - 1
    · rw [if_pos room, edit_append fits line isBackspace (by omega)]
      exact held.append c room
    · rw [if_neg room, edit_full positive fits line isBackspace (by omega)]
      exact held

theorem editStores_below (positive : 1 ≤ maxLen) (fits : maxLen < 2 ^ 64)
    (held : HoldsText maxLen text line) (c : UInt8) :
    ∀ store ∈ editStores maxLen line c, store.1 < maxLen := by
  have index := held.index
  have short := held.short
  have limit := maxLen_pred positive fits
  intro store member
  unfold editStores at member
  rw [limit] at member
  split at member
  · split at member
    · rw [List.mem_singleton] at member
      rw [member]
      simp only
      omega
    · cases member
  · split at member
    · rw [List.mem_singleton] at member
      rw [member]
      simp only
      omega
    · cases member

/-- From any text in the buffer, the loop ends at the newline with the text
that the characters before it make of that. -/
theorem readlineFrom_newline (positive : 1 ≤ maxLen) (fits : maxLen < 2 ^ 64)
    {typed : List UInt8} (noNewline : 0x0A ∉ typed) (rest : List UInt8)
    (held : HoldsText maxLen text line) :
    ∃ after,
      readlineFrom fb font maxLen line (typed ++ 0x0A :: rest) = .done after ∧
      HoldsText maxLen
        (run (editLine maxLen) text (typed.filter (· ≠ 0))) after ∧
      after.buffer after.i = 0 := by
  induction typed generalizing text line with
  | nil =>
      have index := held.index
      have newline : charVal 0x0A = 0x0A := charVal_eq_newline.mpr rfl
      refine ⟨{ line with
        con := kprintChar fb font line.con 0x0A 0xFFFFFF
        buffer := Function.update line.buffer line.i 0 }, ?_,
        ⟨index, held.short, ?_⟩, ?_⟩
      · simp [readlineFrom, newline]
      · intro k (bound : k < text.length)
        have other : k ≠ line.i := by omega
        exact (Function.update_of_ne other _ _).trans (held.holds k bound)
      · exact Function.update_self _ _ _
  | cons c tail ih =>
      rw [List.mem_cons, not_or] at noNewline
      obtain ⟨head, later⟩ := noNewline
      by_cases zero : c = 0
      · have skip : charVal c = 0 := charVal_eq_zero.mpr zero
        have kept : (c :: tail).filter (· ≠ 0) = tail.filter (· ≠ 0) := by
          simp [zero]
        rw [List.cons_append, readlineFrom, if_pos skip, kept]
        exact ih later held
      · have nonzero : ¬ charVal c = 0 := by rwa [charVal_eq_zero]
        have noLine : ¬ charVal c = 0x0A := by
          rw [charVal_eq_newline]
          exact fun same => head same.symm
        have kept : (c :: tail).filter (· ≠ 0) = c :: tail.filter (· ≠ 0) := by
          simp [zero]
        rw [List.cons_append, readlineFrom, if_neg nonzero, if_neg noLine,
          kept, run_cons]
        exact ih later (held.edit positive fits c)

theorem readlineFrom_buffer (fb : Framebuffer) (font : Font) (maxLen : Nat)
    (line : Line) (input : List UInt8) :
    (readlineFrom fb font maxLen line input).line.buffer =
      applyStores line.buffer (readlineStores fb font maxLen line input) := by
  induction input generalizing line with
  | nil => rfl
  | cons c rest ih =>
      rw [readlineFrom, readlineStores]
      split
      · exact ih line
      · split
        · rfl
        · rw [ih, applyStores_append, edit_buffer]

/-- A call stores below `max_len`, whether or not it ever gets a newline. -/
theorem readlineStores_below (positive : 1 ≤ maxLen) (fits : maxLen < 2 ^ 64)
    (held : HoldsText maxLen text line) (input : List UInt8) :
    ∀ store ∈ readlineStores fb font maxLen line input, store.1 < maxLen := by
  induction input generalizing text line with
  | nil =>
      intro store member
      cases member
  | cons c rest ih =>
      have index := held.index
      have short := held.short
      intro store member
      rw [readlineStores] at member
      split at member
      · exact ih held store member
      · split at member
        · rw [List.mem_singleton] at member
          rw [member]
          simp only
          omega
        · rcases List.mem_append.mp member with here | next
          · exact editStores_below positive fits held c store here
          · exact ih (held.edit positive fits c) store next

end Loop

theorem holdsText_start (maxLen : Nat) (buffer : Nat → UInt8) (con : Console) :
    HoldsText maxLen [] ⟨0, buffer, con⟩ :=
  ⟨rfl, Nat.zero_le _, fun _ bound => absurd bound (Nat.not_lt_zero _)⟩

theorem readline_returns (fb : Framebuffer) (font : Font) (con : Console)
    (buffer : Nat → UInt8) {maxLen : Nat} (positive : 1 ≤ maxLen)
    (fits : maxLen < 2 ^ 64) {typed : List UInt8} (noNewline : 0x0A ∉ typed)
    (rest : List UInt8) :
    ∃ line,
      readline fb font con buffer maxLen (typed ++ 0x0A :: rest) =
        .done line ∧ HoldsString line.buffer (editedLine maxLen typed) := by
  obtain ⟨line, done, held, ends⟩ := readlineFrom_newline positive fits
    noNewline rest (holdsText_start maxLen buffer con)
  refine ⟨line, done, ?_⟩
  intro k bound
  rcases Nat.lt_or_eq_of_le bound with inside | rfl
  · exact held.holds k inside
  · have last : line.buffer (editedLine maxLen typed).bytes.length = 0 := by
      rw [held.index] at ends
      exact ends
    rw [last, CString.view, List.getD_eq_default _ _ (Nat.le_refl _)]

theorem keys_split {keys : List UInt8} (entered : 0x0A ∈ keys) :
    ∃ rest, keys = keys.takeWhile (· ≠ 0x0A) ++ 0x0A :: rest ∧
      0x0A ∉ keys.takeWhile (· ≠ 0x0A) := by
  have noNewline : 0x0A ∉ keys.takeWhile (· ≠ 0x0A) := by
    intro member
    simpa using List.mem_takeWhile_imp member
  have parts : keys.takeWhile (· ≠ 0x0A) ++ keys.dropWhile (· ≠ 0x0A) = keys :=
    List.takeWhile_append_dropWhile
  have stops := List.head?_dropWhile_not (· ≠ 0x0A) keys
  cases behind : keys.dropWhile (· ≠ 0x0A) with
  | nil =>
      rw [behind, List.append_nil] at parts
      rw [parts] at noNewline
      exact absurd entered noNewline
  | cons byte rest =>
      rw [behind] at stops
      have newline : byte = 0x0A := by simpa using stops
      rw [behind, newline] at parts
      exact ⟨rest, parts.symm, noNewline⟩

/-- `readline` returns at the first newline with the edited line in its
buffer, whatever the buffer held, and stores only below `max_len`. -/
theorem readline_editedLine (fb : Framebuffer) (font : Font) (con : Console)
    (buffer : Nat → UInt8) (maxLen : Nat) (positive : 1 ≤ maxLen)
    (fits : maxLen < 2 ^ 64) (typed rest : List UInt8)
    (noNewline : 0x0A ∉ typed) :
    ∃ line,
      readline fb font con buffer maxLen (typed ++ 0x0A :: rest) =
        .done line ∧
      HoldsString line.buffer (editedLine maxLen typed) ∧
      line.buffer = applyStores buffer (readlineStores fb font maxLen
        ⟨0, buffer, con⟩ (typed ++ 0x0A :: rest)) ∧
      ∀ store ∈ readlineStores fb font maxLen ⟨0, buffer, con⟩
        (typed ++ 0x0A :: rest), store.1 < maxLen := by
  obtain ⟨line, done, held⟩ :=
    readline_returns fb font con buffer positive fits noNewline rest
  have stored := readlineFrom_buffer fb font maxLen ⟨0, buffer, con⟩
    (typed ++ 0x0A :: rest)
  rw [readline] at done
  rw [done] at stored
  exact ⟨line, done, held, stored, readlineStores_below positive fits
    (holdsText_start maxLen buffer con) _⟩

def editedKeys : List UInt8 := [0x61, 0, 0x08, 0x08, 0x62, 0x63, 0x64]

theorem readline_threeCells :
    (1 ≤ 3 ∧ 3 < 2 ^ 64 ∧ 0x0A ∉ editedKeys) ∧
    (editedLine 3 editedKeys).bytes = [0x62, 0x63] ∧
    ∃ line,
      readline ⟨800, 600, 3200⟩ letterFont (startConsole fun _ => 0)
        (fun _ => 0x7A) 3 (editedKeys ++ 0x0A :: []) = .done line ∧
      HoldsString line.buffer (editedLine 3 editedKeys) ∧
      line.buffer = applyStores (fun _ => 0x7A)
        (readlineStores ⟨800, 600, 3200⟩ letterFont 3
          ⟨0, fun _ => 0x7A, startConsole fun _ => 0⟩
          (editedKeys ++ 0x0A :: [])) ∧
      ∀ store ∈ readlineStores ⟨800, 600, 3200⟩ letterFont 3
        ⟨0, fun _ => 0x7A, startConsole fun _ => 0⟩ (editedKeys ++ 0x0A :: []),
        store.1 < 3 := by
  have noNewline : 0x0A ∉ editedKeys := by simp [editedKeys]
  exact ⟨⟨by decide, by decide, noNewline⟩, by decide,
    readline_editedLine _ _ _ _ 3 (by decide) (by decide) _ [] noNewline⟩

end Lumie.InputLine
