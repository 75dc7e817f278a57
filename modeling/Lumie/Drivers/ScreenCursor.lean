import Lumie.Drivers.Screen

/-!
# The cursor of the console

While the cursor is in the range of an `int`, every operation is one of a few
exact cases on mathematical integers.  On a run with fewer than `2 ^ 26` line
advances between clears the cursor keeps that range, and `CursorOk` is the
invariant of all operations, for every width.
-/

set_option autoImplicit false

namespace Lumie.ScreenCursor

open MachineInt FoldRun
open Lumie.Strings Lumie.Screen

/-- The products and sums the next operation forms are `int` values. -/
structure InRange (con : Console) : Prop where
  xLow : 0 ≤ con.cursorX
  xHigh : 8 * con.cursorX + 8 < 2 ^ 31
  yLow : 0 ≤ con.cursorY
  yHigh : con.cursorY + 32 < 2 ^ 31

def drawNext (fb : Framebuffer) (font : Font) (con : Console) (c : UInt8)
    (color : UInt32) : Console :=
  { putChar fb font con c (8 * con.cursorX) con.cursorY color with
    cursorX := con.cursorX + 1 }

def eraseBefore (fb : Framebuffer) (con : Console) : Console :=
  { con with cursorX := con.cursorX - 1 }.write
    (backspaceStores fb (con.cursorX - 1) con.cursorY)

/-! ## Exact cases -/

theorem wrapLine_of_full {fb : Framebuffer} {con : Console}
    (range : InRange con) (full : (fb.width : Int) ≤ 8 * con.cursorX) :
    wrapLine fb con =
      { con with
        cursorX := 0
        cursorY := con.cursorY + 16
        advances := con.advances + 1 } := by
  obtain ⟨xLow, xHigh, yLow, yHigh⟩ := range
  have reached : fb.width ≤ u64 (i32 (con.cursorX * 8)) := by
    rw [i32_of_bounds (by omega) (by omega), u64_of_bounds (by omega) (by omega)]
    omega
  rw [wrapLine, if_pos reached, lineAdvance,
    i32_of_bounds (by omega) (by omega)]

theorem wrapLine_of_room {fb : Framebuffer} {con : Console}
    (range : InRange con) (room : 8 * con.cursorX < fb.width) :
    wrapLine fb con = con := by
  obtain ⟨xLow, xHigh, -, -⟩ := range
  have short : ¬ fb.width ≤ u64 (i32 (con.cursorX * 8)) := by
    rw [i32_of_bounds (by omega) (by omega), u64_of_bounds (by omega) (by omega)]
    omega
  rw [wrapLine, if_neg short]

theorem lineAdvance_eq {con : Console} (range : InRange con) :
    lineAdvance con =
      { con with
        cursorX := 0
        cursorY := con.cursorY + 16
        advances := con.advances + 1 } := by
  obtain ⟨-, -, yLow, yHigh⟩ := range
  rw [lineAdvance, i32_of_bounds (by omega) (by omega)]

theorem rowVisible_iff {fb : Framebuffer} {con : Console}
    (low : 0 ≤ con.cursorY) (high : con.cursorY + 16 < 2 ^ 31) :
    RowVisible fb con ↔ con.cursorY + 16 ≤ fb.height := by
  rw [RowVisible, i32_of_bounds (by omega) (by omega),
    u64_of_bounds (by omega) (by omega)]
  omega

theorem wrapLine_room {fb : Framebuffer} {con : Console}
    (positive : 0 < fb.width) (range : InRange con) :
    8 * (wrapLine fb con).cursorX < fb.width := by
  by_cases full : (fb.width : Int) ≤ 8 * con.cursorX
  · rw [wrapLine_of_full range full]
    simp only
    omega
  · rw [wrapLine_of_room range (by omega)]
    omega

theorem wrapLine_bounds (fb : Framebuffer) {con : Console}
    (range : InRange con) :
    0 ≤ (wrapLine fb con).cursorX ∧ 8 * (wrapLine fb con).cursorX + 8 < 2 ^ 31 ∧
      0 ≤ (wrapLine fb con).cursorY ∧ (wrapLine fb con).cursorY + 16 < 2 ^ 31 := by
  obtain ⟨xLow, xHigh, yLow, yHigh⟩ := range
  by_cases full : (fb.width : Int) ≤ 8 * con.cursorX
  · rw [wrapLine_of_full ⟨xLow, xHigh, yLow, yHigh⟩ full]
    simp only
    omega
  · rw [wrapLine_of_room ⟨xLow, xHigh, yLow, yHigh⟩ (by omega)]
    omega

theorem kprintChar_backspace (fb : Framebuffer) (font : Font) (con : Console)
    (color : UInt32) : kprintChar fb font con 0x08 color = backspace fb con := by
  rw [kprintChar, if_pos (charVal_eq_backspace.mpr rfl)]

theorem kprintChar_newline (fb : Framebuffer) (font : Font) (con : Console)
    (color : UInt32) : kprintChar fb font con 0x0A color = lineAdvance con := by
  rw [kprintChar, if_neg (by rw [charVal_eq_backspace]; decide),
    if_pos (charVal_eq_newline.mpr rfl)]

theorem kprintChar_visible {fb : Framebuffer} {font : Font} {con : Console}
    {c : UInt8} (color : UInt32) (range : InRange con)
    (noBackspace : c ≠ 0x08) (noNewline : c ≠ 0x0A)
    (visible : (wrapLine fb con).cursorY + 16 ≤ fb.height) :
    kprintChar fb font con c color =
      drawNext fb font (wrapLine fb con) c color := by
  obtain ⟨xLow, xHigh, yLow, yHigh⟩ := wrapLine_bounds fb range
  rw [kprintChar, if_neg (by rwa [charVal_eq_backspace]),
    if_neg (by rwa [charVal_eq_newline])]
  simp only
  rw [if_pos ((rowVisible_iff yLow yHigh).mpr visible), u8_charVal,
    i32_of_bounds (by omega) (by omega)]
  simp only [putChar, Console.write]
  rw [i32_of_bounds (by omega) (by omega), drawNext, putChar, Console.write,
    Int.mul_comm]

theorem kprintChar_clipped {fb : Framebuffer} {font : Font} {con : Console}
    {c : UInt8} (color : UInt32) (range : InRange con)
    (noBackspace : c ≠ 0x08) (noNewline : c ≠ 0x0A)
    (clipped : fb.height < (wrapLine fb con).cursorY + 16) :
    kprintChar fb font con c color = wrapLine fb con := by
  obtain ⟨-, -, yLow, yHigh⟩ := wrapLine_bounds fb range
  rw [kprintChar, if_neg (by rwa [charVal_eq_backspace]),
    if_neg (by rwa [charVal_eq_newline])]
  simp only
  rw [if_neg]
  rw [rowVisible_iff yLow yHigh]
  omega

theorem backspace_at_start {fb : Framebuffer} {con : Console}
    (start : con.cursorX = 0) : backspace fb con = con := by
  unfold backspace
  split
  · rfl
  · rw [if_neg (by omega)]

theorem backspace_inside {fb : Framebuffer} {con : Console}
    (range : InRange con) (inside : 0 < con.cursorX) :
    backspace fb con = eraseBefore fb con := by
  obtain ⟨xLow, xHigh, -, -⟩ := range
  have back : i32 (con.cursorX - 1) = con.cursorX - 1 :=
    i32_of_bounds (by omega) (by omega)
  rw [backspace, if_neg (by omega), if_pos inside]
  simp only [back, eraseBefore]

structure Dimensions (fb : Framebuffer) : Prop where
  positive : 0 < fb.width
  width : fb.width < 2 ^ 28
  height : fb.height < 2 ^ 28

structure CursorOk (fb : Framebuffer) (con : Console) : Prop where
  xLow : 0 ≤ con.cursorX
  xHigh : 8 * con.cursorX < fb.width + 8
  y : con.cursorY = 16 * con.advances
  clipped : (fb.height : Int) < con.cursorY + 16 → con.cursorX = 0

def FewAdvances (con : Console) : Prop := con.advances < 2 ^ 26

theorem CursorOk.inRange {fb : Framebuffer} {con : Console}
    (dims : Dimensions fb) (ok : CursorOk fb con) (few : FewAdvances con) :
    InRange con := by
  have width := dims.width
  have high := ok.xHigh
  have y := ok.y
  unfold FewAdvances at few
  exact ⟨ok.xLow, by omega, by omega, by omega⟩

theorem cursorOk_origin {fb : Framebuffer} (dims : Dimensions fb)
    {con : Console} (x : con.cursorX = 0) (y : con.cursorY = 0)
    (advances : con.advances = 0) : CursorOk fb con := by
  have positive := dims.positive
  exact ⟨by omega, by omega, by omega, fun _ => x⟩

theorem cursorOk_lineAdvance {fb : Framebuffer} {con : Console}
    (dims : Dimensions fb) (ok : CursorOk fb con) (few : FewAdvances con) :
    CursorOk fb (lineAdvance con) := by
  have y := ok.y
  rw [lineAdvance_eq (ok.inRange dims few)]
  refine ⟨le_refl 0, by simp only; omega, ?_, fun _ => rfl⟩
  simp only
  omega

theorem cursorOk_wrapLine {fb : Framebuffer} {con : Console}
    (dims : Dimensions fb) (ok : CursorOk fb con) (few : FewAdvances con) :
    CursorOk fb (wrapLine fb con) := by
  have range := ok.inRange dims few
  by_cases full : (fb.width : Int) ≤ 8 * con.cursorX
  · rw [wrapLine_of_full range full, ← lineAdvance_eq range]
    exact cursorOk_lineAdvance dims ok few
  · rw [wrapLine_of_room range (by omega)]
    exact ok

theorem cursorOk_backspace {fb : Framebuffer} {con : Console}
    (range : InRange con) (ok : CursorOk fb con) :
    CursorOk fb (backspace fb con) := by
  have low := ok.xLow
  have high := ok.xHigh
  have clipped := ok.clipped
  by_cases inside : 0 < con.cursorX
  · rw [backspace_inside range inside]
    refine ⟨?_, ?_, ok.y, ?_⟩
    · simp only [eraseBefore, Console.write]
      omega
    · simp only [eraseBefore, Console.write]
      omega
    · simp only [eraseBefore, Console.write]
      omega
  · rw [backspace_at_start (by omega)]
    exact ok

theorem cursorOk_print {fb : Framebuffer} {font : Font}
    (dims : Dimensions fb) {con : Console} (ok : CursorOk fb con)
    (few : FewAdvances con) {c : UInt8} (noBackspace : c ≠ 0x08)
    (noNewline : c ≠ 0x0A) (color : UInt32) :
    CursorOk fb (kprintChar fb font con c color) := by
  have range := ok.inRange dims few
  have wrapped := cursorOk_wrapLine dims ok few
  by_cases visible : (wrapLine fb con).cursorY + 16 ≤ fb.height
  · rw [kprintChar_visible color range noBackspace noNewline visible]
    have room := wrapLine_room dims.positive range
    have low := wrapped.xLow
    refine ⟨?_, ?_, wrapped.y, ?_⟩
    · simp only [drawNext]
      omega
    · simp only [drawNext]
      omega
    · simp only [drawNext, putChar, Console.write]
      omega
  · rw [kprintChar_clipped color range noBackspace noNewline (by omega)]
    exact wrapped

theorem cursorOk_charStep {fb : Framebuffer} {font : Font}
    (dims : Dimensions fb) {con : Console} (ok : CursorOk fb con)
    (few : FewAdvances con) (op : CharOp) :
    CursorOk fb (charStep fb font con op) := by
  have erased := cursorOk_backspace (ok.inRange dims few) ok
  cases op with
  | char c color =>
      by_cases isBackspace : c = 0x08
      · subst isBackspace
        rw [charStep, kprintChar_backspace]
        exact erased
      · by_cases isNewline : c = 0x0A
        · subst isNewline
          rw [charStep, kprintChar_newline]
          exact cursorOk_lineAdvance dims ok few
        · exact cursorOk_print dims ok few isBackspace isNewline color
  | backspace => exact erased
  | clear color => exact cursorOk_origin dims rfl rfl rfl

/-! ## Line advances inside one operation -/

theorem advances_le_wrapLine (fb : Framebuffer) (con : Console) :
    con.advances ≤ (wrapLine fb con).advances := by
  unfold wrapLine
  split
  · simp [lineAdvance]
  · exact Nat.le_refl _

theorem advances_le_backspace (fb : Framebuffer) (con : Console) :
    con.advances ≤ (backspace fb con).advances := by
  unfold backspace
  split
  · exact Nat.le_refl _
  · split
    · simp [Console.write]
    · exact Nat.le_refl _

theorem advances_le_kprintChar (fb : Framebuffer) (font : Font) (con : Console)
    (c : UInt8) (color : UInt32) :
    con.advances ≤ (kprintChar fb font con c color).advances := by
  have wrapped := advances_le_wrapLine fb con
  unfold kprintChar
  split
  · exact advances_le_backspace fb con
  · split
    · simp [lineAdvance]
    · simp only
      split
      · simpa [putChar, Console.write] using wrapped
      · exact wrapped

theorem fewAdvances_chars {fb : Framebuffer} {font : Font} {color : UInt32}
    (bytes : List UInt8) (con : Console)
    (few : FewAdvances (run (charStep fb font) con
      (bytes.map fun c => CharOp.char c color))) :
    Always (charStep fb font) FewAdvances con
      (bytes.map fun c => CharOp.char c color) ∧
        con.advances < 2 ^ 26 := by
  induction bytes generalizing con with
  | nil => exact ⟨few, few⟩
  | cons c rest ih =>
      obtain ⟨always, bound⟩ := ih (charStep fb font con (.char c color)) few
      have grows := advances_le_kprintChar fb font con c color
      have here : con.advances < 2 ^ 26 := lt_of_le_of_lt grows bound
      exact ⟨⟨here, always⟩, here⟩

theorem fewAdvances_op {fb : Framebuffer} {font : Font} (con : Console)
    (op : ConsoleOp) (before : FewAdvances con)
    (after : FewAdvances (consoleStep fb font con op)) :
    Always (charStep fb font) FewAdvances con op.chars := by
  rw [consoleStep_eq_run] at after
  cases op with
  | kprint str color => exact (fewAdvances_chars str.bytes con after).1
  | kprintChar c color => exact ⟨before, after⟩
  | backspace => exact ⟨before, after⟩
  | clear color => exact ⟨before, after⟩

theorem fewAdvances_always_chars {fb : Framebuffer} {font : Font}
    {con : Console} {ops : List ConsoleOp}
    (few : Always (consoleStep fb font) FewAdvances con ops) :
    Always (charStep fb font) FewAdvances con (ops.flatMap ConsoleOp.chars) :=
  always_flatMap (consoleStep_eq_run fb font) fewAdvances_op few

/-- A run with few line advances keeps the cursor invariant at each
character. -/
theorem cursorOk_always {fb : Framebuffer} {font : Font}
    (dims : Dimensions fb) {con : Console} (ok : CursorOk fb con)
    {ops : List CharOp} (few : Always (charStep fb font) FewAdvances con ops) :
    Always (charStep fb font) (fun con => CursorOk fb con ∧ FewAdvances con)
      con ops := by
  induction ops generalizing con with
  | nil => exact ⟨ok, few⟩
  | cons op rest ih =>
      exact ⟨⟨ok, few.1⟩, ih (cursorOk_charStep dims ok few.1 op) few.2⟩

/-- In whole cells and rows, and at the start of a row that is clipped, where
`backspace` does nothing. -/
structure CursorPlaced (fb : Framebuffer) (con : Console) : Prop where
  xLow : 0 ≤ con.cursorX
  xHigh : con.cursorX ≤ ((fb.width + 7) / 8 : Nat)
  rows : ∃ row : Nat, con.cursorY = 16 * row
  clipped : (fb.height : Int) < con.cursorY + 16 →
    con.cursorX = 0 ∧ backspace fb con = con

def KeepsRow (fb : Framebuffer) (font : Font) (con : Console)
    (op : CharOp) : Prop :=
  (∃ color, op = .clear color) ∨
    con.cursorY ≤ (charStep fb font con op).cursorY

theorem CursorOk.placed {fb : Framebuffer} {con : Console}
    (ok : CursorOk fb con) : CursorPlaced fb con := by
  have high := ok.xHigh
  refine ⟨ok.xLow, by omega, ⟨con.advances, ok.y⟩, ?_⟩
  intro below
  have start := ok.clipped below
  exact ⟨start, backspace_at_start start⟩

theorem keepsRow_charStep {fb : Framebuffer} {font : Font}
    (dims : Dimensions fb) {con : Console} (ok : CursorOk fb con)
    (few : FewAdvances con) (op : CharOp) : KeepsRow fb font con op := by
  have before := ok.y
  have after := (@cursorOk_charStep fb font dims con ok few op).y
  cases op with
  | char c color =>
      have grows := advances_le_kprintChar fb font con c color
      rw [charStep] at after
      exact Or.inr (by rw [charStep]; omega)
  | backspace =>
      have grows := advances_le_backspace fb con
      rw [charStep] at after
      exact Or.inr (by rw [charStep]; omega)
  | clear color => exact Or.inl ⟨color, rfl⟩

/-- On a run with few line advances the cursor is in its place after every
operation and after every character inside one, and moves up only by a
clear. -/
theorem console_cursorPlaced (fb : Framebuffer) (font : Font)
    (dims : Dimensions fb) (pixels : Nat → UInt32) (ops : List ConsoleOp)
    (few : Always (consoleStep fb font) FewAdvances (startConsole pixels) ops) :
    Always (consoleStep fb font) (CursorPlaced fb) (startConsole pixels) ops ∧
      Always (charStep fb font) (CursorPlaced fb) (startConsole pixels)
        (ops.flatMap ConsoleOp.chars) ∧
      Guarded (charStep fb font) (KeepsRow fb font) (startConsole pixels)
        (ops.flatMap ConsoleOp.chars) := by
  have start : CursorOk fb (startConsole pixels) :=
    cursorOk_origin dims rfl rfl rfl
  have chars := cursorOk_always dims start (fewAdvances_always_chars few)
  have placed : Always (charStep fb font) (CursorPlaced fb)
      (startConsole pixels) (ops.flatMap ConsoleOp.chars) :=
    always_imp (fun _ both => both.1.placed) chars
  refine ⟨always_of_flatMap (consoleStep_eq_run fb font) placed, placed, ?_⟩
  rw [guarded_iff]
  intro done op rest split
  have here := (always_iff _ _ _).mp chars done
    ⟨op :: rest, split.symm⟩
  exact keepsRow_charStep dims here.1 here.2 op

theorem console_cursorPlaced_newline :
    CursorPlaced ⟨12, 16, 48⟩
      (run (consoleStep ⟨12, 16, 48⟩ letterFont) (startConsole fun _ => 0)
        [.kprintChar 0x0A 0]) := by
  have dims : Dimensions ⟨12, 16, 48⟩ := ⟨by decide, by decide, by decide⟩
  have advances : (consoleStep ⟨12, 16, 48⟩ letterFont (startConsole fun _ => 0)
      (.kprintChar 0x0A 0)).advances = 1 := by
    rw [consoleStep, kprintChar_newline]
    rfl
  have few : Always (consoleStep ⟨12, 16, 48⟩ letterFont) FewAdvances
      (startConsole fun _ => 0) [.kprintChar 0x0A 0] := by
    refine ⟨(by decide : 0 < 2 ^ 26), ?_⟩
    rw [Always, FewAdvances, advances]
    decide
  exact always_end (console_cursorPlaced ⟨12, 16, 48⟩ letterFont dims
    (fun _ => 0) [.kprintChar 0x0A 0] few).1

end Lumie.ScreenCursor
