import Lumie.Drivers.ScreenCells

/-!
# The console refines a text grid

A run that begins with a black clear keeps the screen equal to the picture of a
text grid.  The grid is blank from its cursor on, so every glyph meets a black
cell, and the rest below the last text row is never drawn on.
-/

set_option autoImplicit false

namespace Lumie.ScreenGrid

open MachineInt StoreTrace FoldRun TextGrid
open Lumie.Strings Lumie.Screen Lumie.ScreenCursor Lumie.ScreenCells

/-- Whole cells, rows without padding and a font of height 16. -/
structure TextShape (fb : Framebuffer) (font : Font) : Prop where
  positive : 0 < fb.width
  cells : 8 ∣ fb.width
  width : fb.width < 2 ^ 28
  height : fb.height < 2 ^ 28
  pitch : fb.pitch = 4 * fb.width
  font : charsize font = 16

theorem TextShape.dimensions {fb : Framebuffer} {font : Font}
    (shape : TextShape fb font) : Dimensions fb :=
  ⟨shape.positive, shape.width, shape.height⟩

theorem TextShape.stride {fb : Framebuffer} {font : Font}
    (shape : TextShape fb font) : fb.stride = fb.width := by
  have pitch := shape.pitch
  unfold Framebuffer.stride
  omega

theorem TextShape.area {fb : Framebuffer} {font : Font}
    (shape : TextShape fb font) : fb.width * fb.height < 2 ^ 64 := by
  have width := shape.width
  have height := shape.height
  calc fb.width * fb.height ≤ 2 ^ 28 * 2 ^ 28 :=
        Nat.mul_le_mul (by omega) (by omega)
    _ < 2 ^ 64 := by norm_num

theorem TextShape.layout {fb : Framebuffer} {font : Font}
    (shape : TextShape fb font) : CellLayout fb font := by
  have stride := shape.stride
  have area := shape.area
  exact ⟨shape.positive, shape.cells, by omega, by rw [stride, Nat.mul_comm]; omega,
    shape.font⟩

def gridOp : CharOp → GridOp (UInt8 × UInt32)
  | .char c color =>
      if c = 0x08 then .erase
      else if c = 0x0A then .newline
      else .put (c, color)
  | .backspace => .erase
  | .clear _ => .clear

def render (font : Font) (rows : Nat) (grid : Grid (UInt8 × UInt32))
    (row col : Nat) : UInt32 :=
  if row / 16 < rows then
    cellPixel font (grid.cells (row / 16) (col / 8)) (row % 16) (col % 8)
  else 0x000000

def OnBlackCell (fb : Framebuffer) (draw : GlyphDraw) : Prop :=
  ∃ row < fb.height / 16, ∃ col < fb.width / 8,
    draw.cx = 8 * col ∧ draw.cy = 16 * row ∧
      ∀ dy < 16, ∀ dx < 8,
        pixelAt fb draw.before (16 * row + dy) (8 * col + dx) = 0x000000

section Steps

variable {fb : Framebuffer} {font : Font} {con : Console}
  {grid : Grid (UInt8 × UInt32)}

/-- All cells are tracked, and the screen outside them is black. -/
structure Tracks (fb : Framebuffer) (font : Font) (con : Console)
    (grid : Grid (UInt8 × UInt32)) : Prop where
  refines : Refines fb font 0 (fun _ _ => True) (fun _ => 0x000000) con grid
  glyphs : ∀ draw ∈ con.glyphs, OnBlackCell fb draw

theorem pixelAt_clear (shape : TextShape fb font) (con : Console)
    (color : UInt32) {row k : Nat} (below : row < fb.height)
    (left : k < fb.width) :
    pixelAt fb (clear fb con color).pixels row k = color := by
  have area := shape.area
  have stride := shape.stride
  have inLoop : rowMajor fb.stride row k < fb.width * fb.height := by
    rw [stride, Nat.mul_comm]
    exact rowMajor_lt below left
  rw [pixelAt, clear_pixels, clearedWords, u64_natCast area, if_pos inLoop]

theorem refines_clear (shape : TextShape fb font) (con : Console) :
    Refines fb font 0 (fun _ _ => True) (fun _ => 0x000000)
      (clear fb con 0x000000) blankGrid := by
  have layout := shape.layout
  have width := layout.width
  have stride := shape.stride
  refine ⟨rfl, rfl, gridOk_blank, ?_, ?_⟩
  · intro row rowBound col colBound _ dy dyBound dx dxBound
    have visible := row_visible.mp rowBound
    exact pixelAt_clear shape con _ (by omega) (by omega)
  · intro row below k inRow _
    exact pixelAt_clear shape con _ below (by omega)

theorem glyphs_wrapLine (fb : Framebuffer) (con : Console) :
    (wrapLine fb con).glyphs = con.glyphs := by
  unfold wrapLine
  split <;> rfl

theorem glyphs_backspace (fb : Framebuffer) (con : Console) :
    (backspace fb con).glyphs = con.glyphs := by
  unfold backspace
  split
  · rfl
  · split <;> rfl

/-- A glyph goes to the wrapped cursor, whose cell the grid has blank. -/
theorem glyphs_print (shape : TextShape fb font)
    (tracks : Tracks fb font con grid) (range : InRange con) {c : UInt8}
    (noBackspace : c ≠ 0x08) (noNewline : c ≠ 0x0A) (color : UInt32) :
    ∀ draw ∈ (kprintChar fb font con c color).glyphs, OnBlackCell fb draw := by
  have layout := shape.layout
  have wrapped := tracks.refines.wrap layout range
  have cursorX := wrapped.cursorX
  have cursorY := wrapped.cursorY
  by_cases visible : (wrapLine fb con).cursorY + 16 ≤ fb.height
  · rw [kprintChar_visible color range noBackspace noNewline visible]
    intro draw member
    simp only [drawNext, putChar, List.mem_append, List.mem_singleton,
      glyphs_wrapLine] at member
    rcases member with earlier | rfl
    · exact tracks.glyphs draw earlier
    · have row : (grid.wrap (textCols fb)).row < textRows fb 0 := by
        rw [row_visible]
        omega
      have col : (grid.wrap (textCols fb)).col < textCols fb :=
        wrap_col_lt layout.cols
      have blank := wrapped.cells _ row _ col trivial
      rw [wrapped.ok.ahead _ _ (Or.inr ⟨rfl, le_refl _⟩)] at blank
      refine ⟨_, row, _, col, by simp only; omega, by simp only; omega, ?_⟩
      intro dy dyBound dx dxBound
      have pixel := blank dy dyBound dx dxBound
      rwa [Nat.zero_add] at pixel
  · rw [kprintChar_clipped color range noBackspace noNewline (by omega),
      glyphs_wrapLine]
    exact tracks.glyphs

theorem tracks_charStep (shape : TextShape fb font)
    (tracks : Tracks fb font con grid) (range : InRange con) (op : CharOp)
    (black : ∀ color, op = .clear color → color = 0x000000) :
    Tracks fb font (charStep fb font con op)
      (gridStep (textRows fb 0) (textCols fb) grid (gridOp op)) := by
  have layout := shape.layout
  have erased : Tracks fb font (backspace fb con) grid.erase := by
    refine ⟨tracks.refines.backspace layout range, ?_⟩
    rw [glyphs_backspace]
    exact tracks.glyphs
  cases op with
  | char c color =>
      simp only [charStep, gridOp]
      by_cases isBackspace : c = 0x08
      · rw [if_pos isBackspace, isBackspace, kprintChar_backspace]
        exact erased
      · rw [if_neg isBackspace]
        by_cases isNewline : c = 0x0A
        · rw [if_pos isNewline, isNewline, kprintChar_newline]
          exact ⟨tracks.refines.newline range, tracks.glyphs⟩
        · rw [if_neg isNewline]
          exact ⟨tracks.refines.print layout range isBackspace isNewline color,
            glyphs_print shape tracks range isBackspace isNewline color⟩
  | backspace => exact erased
  | clear color =>
      obtain rfl := black color rfl
      exact ⟨refines_clear shape con, tracks.glyphs⟩

theorem pixelAt_eq_render (layout : CellLayout fb font)
    (rel : Refines fb font 0 (fun _ _ => True) (fun _ => 0x000000) con grid)
    {row col : Nat} (below : row < fb.height) (left : col < fb.width) :
    pixelAt fb con.pixels row col = render font (textRows fb 0) grid row col := by
  have width := layout.width
  have stride := layout.stride
  unfold render
  split
  · rename_i inText
    have cell := rel.cells (row / 16) inText (col / 8) (by omega) trivial
    have pixel := cell (row % 16) (by omega) (col % 8) (by omega)
    rwa [Nat.zero_add, Nat.div_add_mod, Nat.div_add_mod] at pixel
  · exact rel.frame row below col (by omega) (Or.inr (by omega))

end Steps

/-! ## Runs -/

theorem tracks_chars {fb : Framebuffer} {font : Font}
    (shape : TextShape fb font) {con : Console}
    {grid : Grid (UInt8 × UInt32)} {chars : List CharOp}
    (ok : CursorOk fb con)
    (few : Always (charStep fb font) FewAdvances con chars)
    (tracks : Tracks fb font con grid)
    (black : ∀ color, .clear color ∈ chars → color = 0x000000) :
    Tracks fb font (run (charStep fb font) con chars)
      (run (gridStep (textRows fb 0) (textCols fb)) grid (chars.map gridOp)) := by
  have dims := shape.dimensions
  refine run_related ?_ (cursorOk_always dims ok few) tracks
  intro state abstract op member holds tracked
  apply tracks_charStep shape tracked (holds.1.inRange dims holds.2)
  intro color isClear
  exact black color (isClear ▸ member)

theorem clear_mem_chars {ops : List ConsoleOp} {color : UInt32}
    (member : CharOp.clear color ∈ ops.flatMap ConsoleOp.chars) :
    ConsoleOp.clear color ∈ ops := by
  obtain ⟨op, inOps, part⟩ := List.mem_flatMap.mp member
  cases op with
  | kprint str ink => simp [ConsoleOp.chars] at part
  | kprintChar c ink => simp [ConsoleOp.chars] at part
  | backspace => simp [ConsoleOp.chars] at part
  | clear ink =>
      simp only [ConsoleOp.chars, List.mem_singleton, CharOp.clear.injEq] at part
      rwa [part]

/-- After every run that begins with a black clear the screen is the picture
of the grid, all glyphs were drawn on black cells, and the pixels below the
text rows are black. -/
theorem console_refines_grid (fb : Framebuffer) (font : Font)
    (shape : TextShape fb font) (start : Console) (fresh : start.glyphs = [])
    (ops : List ConsoleOp)
    (black : ∀ color, .clear color ∈ ops → color = 0x000000)
    (few : Always (consoleStep fb font) FewAdvances
      (consoleStep fb font start (.clear 0x000000)) ops) :
    let final := run (consoleStep fb font) start (.clear 0x000000 :: ops)
    let grid := run (gridStep (fb.height / 16) (fb.width / 8)) blankGrid
      ((ops.flatMap ConsoleOp.chars).map gridOp)
    (∀ row < fb.height, ∀ col < fb.width,
        pixelAt fb final.pixels row col =
          render font (fb.height / 16) grid row col) ∧
      (final.cursorX = grid.col ∧ final.cursorY = 16 * grid.row) ∧
      (∀ draw ∈ final.glyphs, OnBlackCell fb draw) ∧
      ∀ row < fb.height, ∀ col < fb.width, 16 * (fb.height / 16) ≤ row →
        pixelAt fb final.pixels row col = 0x000000 := by
  intro final grid
  have cleared : Tracks fb font (consoleStep fb font start (.clear 0x000000))
      blankGrid := by
    refine ⟨refines_clear shape start, ?_⟩
    intro draw member
    have recorded : draw ∈ start.glyphs := member
    rw [fresh] at recorded
    cases recorded
  have tracks : Tracks fb font final grid := by
    have unfolded : final = run (charStep fb font)
        (consoleStep fb font start (.clear 0x000000))
        (ops.flatMap ConsoleOp.chars) :=
      run_flatMap (consoleStep_eq_run fb font) _ ops
    rw [unfolded]
    refine tracks_chars shape (cursorOk_origin shape.dimensions rfl rfl rfl)
      (fewAdvances_always_chars few) cleared ?_
    intro color member
    exact black color (clear_mem_chars member)
  have cursorY := tracks.refines.cursorY
  refine ⟨?_, ⟨tracks.refines.cursorX, by omega⟩, tracks.glyphs, ?_⟩
  · intro row below col left
    exact pixelAt_eq_render shape.layout tracks.refines below left
  · intro row below col left rest
    have stride := shape.layout.stride
    exact tracks.refines.frame row below col (by omega)
      (Or.inr (by unfold textRows; omega))

def smallScreen : Framebuffer := ⟨24, 40, 96⟩

theorem letter_refines_grid :
    let ops : List ConsoleOp :=
      [.kprintChar 0x41 0xFFFFFF, .kprintChar 0x41 0x00FF00, .backspace]
    let start := startConsole fun _ => 0x00FF00
    let final := run (consoleStep smallScreen letterFont) start
      (.clear 0x000000 :: ops)
    let grid := run (gridStep 2 3) blankGrid
      ((ops.flatMap ConsoleOp.chars).map gridOp)
    pixelAt smallScreen final.pixels 2 1 = 0xFFFFFF ∧
      (∀ row < 40, ∀ col < 24, pixelAt smallScreen final.pixels row col =
        render letterFont 2 grid row col) ∧
      (final.cursorX = grid.col ∧ final.cursorY = 16 * grid.row) ∧
      (∀ draw ∈ final.glyphs, OnBlackCell smallScreen draw) ∧
      ∀ row < 40, ∀ col < 24, 16 * 2 ≤ row →
        pixelAt smallScreen final.pixels row col = 0x000000 := by
  intro ops start final grid
  have shape : TextShape smallScreen letterFont :=
    ⟨by decide, by decide, by decide, by decide, by decide, by decide⟩
  have black : ∀ color, .clear color ∈ ops → color = 0x000000 := by
    intro color member
    simp [ops] at member
  have few : Always (consoleStep smallScreen letterFont) FewAdvances
      (consoleStep smallScreen letterFont start (.clear 0x000000)) ops := by
    refine ⟨?_, ?_, ?_, ?_⟩ <;> exact (by decide : 0 < 2 ^ 26)
  have refines := console_refines_grid smallScreen letterFont shape start rfl ops
    black few
  have lit : render letterFont 2 grid 2 1 = 0xFFFFFF := by decide
  exact ⟨(refines.1 2 (by decide) 1 (by decide)).trans lit, refines⟩

end Lumie.ScreenGrid
