import Lumie.Drivers.ScreenCells
import Lumie.Lib.Input

/-!
# The line on the screen and the line in the buffer

`readline` counts the characters in `i`, the console counts columns in
`cursor_x`.  Typing moves both, also over the end of a row.  Deleting moves `i`
whenever the line is not empty, but the cursor only while it is not at the left
margin.  The two agree exactly as long as no character is deleted there.
-/

set_option autoImplicit false

namespace Lumie.InputEcho

open MachineInt StoreTrace FoldRun TextGrid
open Lumie.Screen Lumie.ScreenCursor Lumie.ScreenCells Lumie.Input

/-- The prompt stands on pixel row `top` with the cursor behind it; all later
cells are blank, and 127 characters have room. -/
structure Prompt (fb : Framebuffer) (font : Font) (top : Nat)
    (con : Console) : Prop where
  layout : CellLayout fb font
  wide : 24 ≤ fb.width
  cursorX : con.cursorX = 2
  cursorY : con.cursorY = top
  room : top + 16 * (128 / textCols fb) + 16 ≤ fb.height
  range : top + 16 * (128 / textCols fb) + 32 < 2 ^ 31
  blank : ∀ place, 2 ≤ place →
    top + 16 * (place / textCols fb) + 16 ≤ fb.height →
      CellShows fb font con.pixels (top + 16 * (place / textCols fb))
        (place % textCols fb) none

/-- The cells from the prompt on show the buffer and then nothing, and a
printed character would go behind them. -/
structure InSync (fb : Framebuffer) (font : Font) (top : Nat)
    (line : Line) : Prop where
  cells : ∀ k, top + 16 * ((2 + k) / textCols fb) + 16 ≤ fb.height →
    CellShows fb font line.con.pixels (top + 16 * ((2 + k) / textCols fb))
      ((2 + k) % textCols fb)
      (if k < line.i then some (line.buffer k, 0xFFFFFF) else none)
  nextX : (wrapLine fb line.con).cursorX = ((2 + line.i) % textCols fb : Nat)
  nextY : (wrapLine fb line.con).cursorY =
    (top + 16 * ((2 + line.i) / textCols fb) : Nat)

def DeletesInRow (line : Line) (c : UInt8) : Prop :=
  c = 0x08 → 0 < line.i → line.con.cursorX ≠ 0

def behindPrompt (fb : Framebuffer) (row col : Nat) : Prop :=
  2 ≤ rowMajor (textCols fb) row col

/-- A grid for the console whose cursor and cells are those of the line. -/
structure Echoes (fb : Framebuffer) (font : Font) (top : Nat)
    (base : Nat → UInt32) (line : Line) (grid : Grid (UInt8 × UInt32)) :
    Prop where
  refines : Refines fb font top (behindPrompt fb) base line.con grid
  place : grid.place (textCols fb) = 2 + line.i
  row : grid.row ≤ 128 / textCols fb
  count : line.i ≤ 127
  shown : ∀ k < line.i,
    grid.cellAt (textCols fb) (2 + k) = some (line.buffer k, 0xFFFFFF)

section Steps

variable {fb : Framebuffer} {font : Font} {top : Nat} {base : Nat → UInt32}
  {line : Line} {grid : Grid (UInt8 × UInt32)} {start : Console}

theorem Prompt.cols (prompt : Prompt fb font top start) : 3 ≤ textCols fb := by
  have width := prompt.layout.width
  have wide := prompt.wide
  omega

theorem Echoes.inRange (prompt : Prompt fb font top start)
    (echoes : Echoes fb font top base line grid) : InRange line.con := by
  have range := prompt.range
  have cursorX := echoes.refines.cursorX
  have cursorY := echoes.refines.cursorY
  have row := echoes.row
  have count := echoes.count
  have place := echoes.place
  have col : grid.col ≤ grid.place (textCols fb) := Nat.le_add_left _ _
  exact ⟨by omega, by omega, by omega, by omega⟩

theorem Echoes.inSync (prompt : Prompt fb font top start)
    (echoes : Echoes fb font top base line grid) :
    InSync fb font top line := by
  have cols := prompt.cols
  have refines := echoes.refines
  have wrapped := refines.wrap prompt.layout (echoes.inRange prompt)
  obtain ⟨row, col⟩ := wrap_row_col (by omega) refines.ok.col
  rw [echoes.place] at row col
  refine ⟨?_, ?_, ?_⟩
  · intro k visible
    have inRow := Nat.mod_lt (2 + k) (by omega : 0 < textCols fb)
    have behind : behindPrompt fb ((2 + k) / textCols fb)
        ((2 + k) % textCols fb) := by
      rw [behindPrompt, rowMajor, Nat.mul_comm, Nat.div_add_mod]
      omega
    have cell := refines.cells _ (row_visible.mpr visible) _ inRow behind
    have content : grid.cells ((2 + k) / textCols fb) ((2 + k) % textCols fb) =
        if k < line.i then some (line.buffer k, 0xFFFFFF) else none := by
      split
      · rename_i typed
        exact echoes.shown k typed
      · rename_i later
        exact refines.ok.cellAt (by omega) (by rw [echoes.place]; omega)
    rwa [content] at cell
  · rw [wrapped.cursorX, col]
  · rw [wrapped.cursorY, row]

theorem Echoes.append (prompt : Prompt fb font top start)
    (echoes : Echoes fb font top base line grid) {c : UInt8}
    (noBackspace : c ≠ 0x08) (noNewline : c ≠ 0x0A) (room : line.i < 127) :
    Echoes fb font top base
      ⟨line.i + 1, Function.update line.buffer line.i c,
        kprintChar fb font line.con c 0xFFFFFF⟩
      (grid.put (textRows fb top) (textCols fb) (c, 0xFFFFFF)) := by
  have cols := prompt.cols
  have refines := echoes.refines
  have place := echoes.place
  have rowBound : (2 + line.i) / textCols fb ≤ 128 / textCols fb :=
    Nat.div_le_div_right (by omega)
  have visible : grid.place (textCols fb) / textCols fb < textRows fb top := by
    have bottom := prompt.room
    rw [place, row_visible]
    omega
  obtain ⟨next, cells⟩ := put_visible (by omega) refines.ok.col visible
    (c, (0xFFFFFF : UInt32))
  refine ⟨refines.print prompt.layout (echoes.inRange prompt) noBackspace
    noNewline _, ?_, ?_, room, ?_⟩
  · simp only
    omega
  · obtain ⟨row, -⟩ := wrap_row_col (by omega) refines.ok.col
    have shown : (grid.wrap (textCols fb)).row < textRows fb top := by
      rwa [row]
    simp only [Grid.put, if_pos shown, Grid.write]
    rw [row, place]
    exact rowBound
  · intro k bound
    rw [cells (2 + k), place]
    simp only
    by_cases last : k = line.i
    · rw [if_pos (by omega), last, Function.update_self]
    · rw [if_neg (by omega), Function.update_of_ne last]
      exact echoes.shown k (by simp only at bound; omega)

theorem Echoes.delete (prompt : Prompt fb font top start)
    (echoes : Echoes fb font top base line grid) (nonempty : 0 < line.i)
    (inside : line.con.cursorX ≠ 0) :
    Echoes fb font top base
      ⟨line.i - 1, Function.update line.buffer (line.i - 1) 0,
        backspace fb line.con⟩ grid.erase := by
  have refines := echoes.refines
  have place := echoes.place
  have cursorX := refines.cursorX
  have count := echoes.count
  have inRow : 0 < grid.col := by omega
  obtain ⟨back, cells⟩ := erase_inside refines.ok.col inRow
  refine ⟨refines.backspace prompt.layout (echoes.inRange prompt), ?_, ?_, ?_,
    ?_⟩
  · simp only
    omega
  · rw [Grid.erase, if_pos inRow]
    exact echoes.row
  · simp only
    omega
  · intro k bound
    simp only at bound ⊢
    rw [cells (2 + k), if_neg (by omega), Function.update_of_ne (by omega)]
    exact echoes.shown k (by omega)

theorem echoes_edit (prompt : Prompt fb font top start)
    (echoes : Echoes fb font top base line grid) {c : UInt8}
    (noNewline : c ≠ 0x0A) (inRow : DeletesInRow line c) :
    ∃ next, Echoes fb font top base (edit fb font 128 line c) next := by
  by_cases isBackspace : c = 0x08
  · subst isBackspace
    by_cases nonempty : 0 < line.i
    · rw [edit_delete line nonempty]
      exact ⟨_, echoes.delete prompt nonempty (inRow rfl nonempty)⟩
    · rw [edit_empty line (by omega)]
      exact ⟨grid, echoes⟩
  · by_cases room : line.i < 127
    · rw [edit_append (by decide) line isBackspace room]
      exact ⟨_, echoes.append prompt isBackspace noNewline room⟩
    · rw [edit_full (by decide) (by decide) line isBackspace (by omega)]
      exact ⟨grid, echoes⟩

/-- Deleting at the margin shortens the line and leaves the cursor, which then
is one cell too far. -/
theorem deletesInRow_of_inSync (prompt : Prompt fb font top start)
    (echoes : Echoes fb font top base line grid) {c : UInt8}
    (after : InSync fb font top (edit fb font 128 line c)) :
    DeletesInRow line c := by
  rintro rfl nonempty margin
  have before := echoes.inSync prompt
  rw [edit_delete line nonempty, backspace_at_start margin] at after
  have cols := after.nextX
  have rows := after.nextY
  simp only at cols rows
  rw [before.nextX] at cols
  rw [before.nextY] at rows
  have whole := Nat.div_add_mod (2 + line.i) (textCols fb)
  have less := Nat.div_add_mod (2 + (line.i - 1)) (textCols fb)
  have sameCol : (2 + line.i) % textCols fb =
      (2 + (line.i - 1)) % textCols fb := by omega
  have sameRow : (2 + line.i) / textCols fb =
      (2 + (line.i - 1)) / textCols fb := by omega
  rw [sameCol, sameRow, less] at whole
  omega

theorem echoes_start (prompt : Prompt fb font top start)
    (buffer : Nat → UInt8) :
    Echoes fb font top start.pixels ⟨0, buffer, start⟩
      ⟨fun _ _ => none, 0, 2⟩ := by
  have cols := prompt.cols
  have bottom := prompt.room
  have rows : 0 < textRows fb top := by
    rw [row_visible]
    omega
  refine ⟨⟨prompt.cursorX, ?_, ⟨?_, ?_, fun _ _ _ => rfl⟩, ?_, fun _ _ _ _ _ =>
    rfl⟩, ?_, Nat.zero_le _, Nat.zero_le _, ?_⟩
  · exact prompt.cursorY
  · simp only
    omega
  · intro below
    simp only at below
    omega
  · intro row rowBound col colBound behind
    have cell := prompt.blank _ behind
    rw [rowMajor_div colBound, rowMajor_mod colBound] at cell
    exact cell (row_visible.mp rowBound)
  · simp [Grid.place, rowMajor]
  · intro k bound
    cases bound

end Steps

theorem edits_inSync_iff {fb : Framebuffer} {font : Font} {top : Nat}
    {start : Console} (prompt : Prompt fb font top start)
    (buffer : Nat → UInt8) {input : List UInt8} (typed : Typed input) :
    Always (edit fb font 128) (InSync fb font top) ⟨0, buffer, start⟩ input ↔
      Guarded (edit fb font 128) DeletesInRow ⟨0, buffer, start⟩ input := by
  have gives : ∀ line, (∃ grid, Echoes fb font top start.pixels line grid) →
      InSync fb font top line := by
    rintro line ⟨grid, echoes⟩
    exact echoes.inSync prompt
  refine always_iff_guarded gives ?_ ?_ ⟨_, echoes_start prompt buffer⟩
  · rintro line c member ⟨grid, echoes⟩ inRow
    exact echoes_edit prompt echoes (typed c member).2 inRow
  · rintro line c _ ⟨grid, echoes⟩ after
    exact deletesInRow_of_inSync prompt echoes after

theorem readline_always_iff {fb : Framebuffer} {font : Font} {top : Nat}
    {start : Console} {buffer : Nat → UInt8} {input : List UInt8}
    (typed : Typed input) :
    (∀ done, done <+: input →
      ∃ line, readline fb font start buffer 128 done = .waiting line ∧
        InSync fb font top line) ↔
      Always (edit fb font 128) (InSync fb font top) ⟨0, buffer, start⟩
        input := by
  rw [always_iff]
  refine forall₂_congr fun done segment => ?_
  have typedDone : Typed done := by
    intro c member
    exact typed c (segment.subset member)
  rw [readline, readlineFrom_typed fb font 128 _ typedDone]
  simp

/-! ## Two deletions behind the end of a row -/

theorem typed_thenDelete {c : UInt8} (nonzero : c ≠ 0) (noNewline : c ≠ 0x0A)
    (count : Nat) : Typed (List.replicate count c ++ [0x08, 0x08]) := by
  intro next member
  rcases List.mem_append.mp member with letter | delete
  · obtain rfl := List.eq_of_mem_replicate letter
    exact ⟨nonzero, noNewline⟩
  · simp only [List.mem_cons, List.not_mem_nil, or_false, or_self] at delete
    subst delete
    decide

theorem echoes_typed {fb : Framebuffer} {font : Font} {top : Nat}
    {base : Nat → UInt32} {start : Console} (prompt : Prompt fb font top start)
    {c : UInt8} (noBackspace : c ≠ 0x08) (noNewline : c ≠ 0x0A) (count : Nat)
    {line : Line} {grid : Grid (UInt8 × UInt32)}
    (echoes : Echoes fb font top base line grid)
    (room : line.i + count ≤ 127) :
    (run (edit fb font 128) line (List.replicate count c)).i =
        line.i + count ∧
      ∃ last, Echoes fb font top base
        (run (edit fb font 128) line (List.replicate count c)) last := by
  induction count generalizing line grid with
  | zero => exact ⟨rfl, grid, echoes⟩
  | succ count ih =>
      have appended := echoes.append prompt noBackspace noNewline (by omega)
      have limit : 128 < 2 ^ 64 := by decide
      rw [← edit_append limit line noBackspace (by omega)] at appended
      have next : (edit fb font 128 line c).i = line.i + 1 := by
        rw [edit_append (by decide) line noBackspace (by omega)]
      rw [List.replicate_succ, run_cons]
      obtain ⟨typed, echoed⟩ := ih appended (by omega)
      exact ⟨by omega, echoed⟩

/-- The first deletion behind a wrap leaves the cursor at the margin, the
second one finds it there. -/
theorem twoDeletes_not_guarded {fb : Framebuffer} {font : Font} {top : Nat}
    {start : Console} (prompt : Prompt fb font top start)
    (narrow : textCols fb ≤ 128) {c : UInt8} (noBackspace : c ≠ 0x08)
    (noNewline : c ≠ 0x0A) (buffer : Nat → UInt8) :
    ¬ Guarded (edit fb font 128) DeletesInRow ⟨0, buffer, start⟩
      (List.replicate (textCols fb - 1) c ++ [0x08, 0x08]) := by
  intro guarded
  have cols := prompt.cols
  obtain ⟨typed, grid, echoes⟩ := echoes_typed prompt noBackspace noNewline
    (textCols fb - 1) (echoes_start prompt buffer) (by simp only; omega)
  obtain ⟨-, -, second, -⟩ := (guarded_append _ _ _ _).mp guarded
  generalize run (edit fb font 128) ⟨0, buffer, start⟩
    (List.replicate (textCols fb - 1) c) = line at typed echoes second
  simp only at typed
  have place := echoes.place
  have bound := echoes.refines.ok.col
  have cursorX := echoes.refines.cursorX
  have column : grid.col = 1 := by
    rw [Grid.place, rowMajor] at place
    rcases rowCase : grid.row with _ | _ | row
    · rw [rowCase, Nat.zero_mul] at place
      omega
    · rw [rowCase, Nat.zero_add, Nat.one_mul] at place
      omega
    · have twice : 2 * textCols fb ≤ (row + 1 + 1) * textCols fb :=
        Nat.mul_le_mul_right _ (by omega)
      rw [rowCase] at place
      omega
  rw [edit_delete line (by omega), backspace_inside (echoes.inRange prompt)
    (by omega)] at second
  apply second rfl
  · simp only
    omega
  · simp only [eraseBefore, Console.write]
    omega

/-- After each character the screen shows the buffer, exactly for the inputs
that never delete a character while the cursor is at the left margin. -/
theorem readline_inSync_iff (fb : Framebuffer) (font : Font) (top : Nat)
    (start : Console) (prompt : Prompt fb font top start)
    (buffer : Nat → UInt8) (input : List UInt8) (typed : Typed input) :
    (∀ done, done <+: input →
      ∃ line, readline fb font start buffer 128 done = .waiting line ∧
        InSync fb font top line) ↔
      Guarded (edit fb font 128) DeletesInRow ⟨0, buffer, start⟩ input := by
  rw [readline_always_iff typed]
  exact edits_inSync_iff prompt buffer typed

def svga : Framebuffer := ⟨800, 600, 3200⟩

def svgaStart : Console := { startConsole (fun _ => 0x000000) with cursorX := 2 }

theorem svga_prompt : Prompt svga letterFont 0 svgaStart := by
  have layout : CellLayout svga letterFont :=
    ⟨by decide, by decide, by decide, by decide, by decide⟩
  refine ⟨layout, by decide, rfl, rfl, by decide, by decide, ?_⟩
  intro place _ _ dy _ dx _
  rfl

theorem svga_typeAndDelete :
    Guarded (edit svga letterFont 128) DeletesInRow ⟨0, fun _ => 0, svgaStart⟩
        [0x61, 0x08] ∧
    ∀ done, done <+: [0x61, 0x08] →
      ∃ line, readline svga letterFont svgaStart (fun _ => 0) 128 done =
          .waiting line ∧ InSync svga letterFont 0 line := by
  have typed : Typed [0x61, 0x08] := by simp [Typed]
  have inRow : Guarded (edit svga letterFont 128) DeletesInRow
      ⟨0, fun _ => 0, svgaStart⟩ [0x61, 0x08] := by
    refine ⟨?_, ?_, trivial⟩
    · intro deletes
      revert deletes
      decide
    · intro _ _
      decide
  exact ⟨inRow, (readline_inSync_iff svga letterFont 0 svgaStart svga_prompt
    (fun _ => 0) [0x61, 0x08] typed).mpr inRow⟩

/-- On 100 columns, 99 characters reach the second row; after two deletions
the last character of the first row is still shown. -/
theorem svga_twoDeletes :
    Prompt svga letterFont 0 svgaStart ∧
    Typed (List.replicate 99 0x61 ++ [0x08, 0x08]) ∧
    ¬ ∀ done, done <+: List.replicate 99 0x61 ++ [0x08, 0x08] →
      ∃ line, readline svga letterFont svgaStart (fun _ => 0) 128 done =
          .waiting line ∧ InSync svga letterFont 0 line := by
  have typed : Typed (List.replicate 99 0x61 ++ [0x08, 0x08]) :=
    typed_thenDelete (by decide) (by decide) 99
  refine ⟨svga_prompt, typed, fun inSync => ?_⟩
  rw [readline_always_iff typed, edits_inSync_iff svga_prompt _ typed] at inSync
  exact twoDeletes_not_guarded svga_prompt (by decide) (by decide) (by decide) _
    inSync

/-- Every line stays in step exactly on screens that hold the longest line in
the row of the prompt. -/
theorem allLines_inSync_iff {fb : Framebuffer} {font : Font} {top : Nat}
    {start : Console} (prompt : Prompt fb font top start) :
    (∀ buffer input, Typed input →
      Always (edit fb font 128) (InSync fb font top) ⟨0, buffer, start⟩ input) ↔
      128 < textCols fb := by
  have cols := prompt.cols
  constructor
  · intro all
    by_contra narrow
    have typed : Typed
        (List.replicate (textCols fb - 1) 0x61 ++ [0x08, 0x08]) :=
      typed_thenDelete (by decide) (by decide) _
    have inSync := all (fun _ => 0) _ typed
    rw [edits_inSync_iff prompt _ typed] at inSync
    exact twoDeletes_not_guarded prompt (by omega) (by decide) (by decide) _ inSync
  · intro wide buffer input typed
    rw [edits_inSync_iff prompt buffer typed]
    have short : 128 / textCols fb = 0 := Nat.div_eq_of_lt wide
    have oneRow : ∀ line c,
        (∃ grid, Echoes fb font top start.pixels line grid) →
          DeletesInRow line c := by
      rintro line c ⟨grid, echoes⟩ rfl _ margin
      have cursorX := echoes.refines.cursorX
      have place := echoes.place
      have row : grid.row = 0 := by
        have rows := echoes.row
        omega
      rw [Grid.place, rowMajor, row, Nat.zero_mul] at place
      omega
    refine guarded_of_invariant oneRow ?_ ⟨_, echoes_start prompt buffer⟩
    rintro line c member ⟨grid, echoes⟩ inRow
    exact echoes_edit prompt echoes (typed c member).2 inRow

end Lumie.InputEcho
