import Lumie.Base.TextGrid
import Lumie.Drivers.ScreenCursor

/-!
# The console on character cells

On a screen of whole cells a glyph is drawn into one cell and `backspace`
blanks one cell; all other pixels are kept.  So every character step of the
console is the step of a text grid whose first row lies at pixel row `top`.
Only the cells of a region are tracked, so that what stood on the screen before
may be anything.
-/

set_option autoImplicit false

namespace Lumie.ScreenCells

open MachineInt StoreTrace FoldRun TextGrid
open Lumie.Strings Lumie.Screen Lumie.ScreenCursor

/-- Rows of whole cells whose words have 64-bit indices, and a font of
height 16. -/
structure CellLayout (fb : Framebuffer) (font : Font) : Prop where
  positive : 0 < fb.width
  cells : 8 ∣ fb.width
  stride : fb.width ≤ fb.stride
  words : fb.height * fb.stride ≤ 2 ^ 64
  font : charsize font = 16

def textCols (fb : Framebuffer) : Nat := fb.width / 8

def textRows (fb : Framebuffer) (top : Nat) : Nat := (fb.height - top) / 16

theorem CellLayout.width {fb : Framebuffer} {font : Font}
    (layout : CellLayout fb font) : fb.width = 8 * textCols fb := by
  have cells := layout.cells
  unfold textCols
  omega

theorem CellLayout.cols {fb : Framebuffer} {font : Font}
    (layout : CellLayout fb font) : 0 < textCols fb := by
  have positive := layout.positive
  have width := layout.width
  omega

def pixelAt (fb : Framebuffer) (pixels : Nat → UInt32) (row col : Nat) :
    UInt32 :=
  pixels (rowMajor fb.stride row col)

def cellPixel (font : Font) : Option (UInt8 × UInt32) → Nat → Nat → UInt32
  | none, _, _ => 0x000000
  | some (c, color), y, x => if Lit font c y x then color else 0x000000

def CellShows (fb : Framebuffer) (font : Font) (pixels : Nat → UInt32)
    (y col : Nat) (cell : Option (UInt8 × UInt32)) : Prop :=
  ∀ dy < 16, ∀ dx < 8,
    pixelAt fb pixels (y + dy) (8 * col + dx) = cellPixel font cell dy dx

def OnlyCell (fb : Framebuffer) (before after : Nat → UInt32)
    (y col : Nat) : Prop :=
  ∀ row k, k < fb.stride →
    ¬ (y ≤ row ∧ row < y + 16 ∧ 8 * col ≤ k ∧ k < 8 * col + 8) →
      pixelAt fb after row k = pixelAt fb before row k

/-- The stores go where their row and column say. -/
def Addressed (fb : Framebuffer) (stores : List PixelStore) : Prop :=
  ∀ store ∈ stores,
    store.index = rowMajor fb.stride store.row store.col ∧
      store.col < fb.stride

theorem pixelAt_hit {fb : Framebuffer} {stores : List PixelStore}
    {pixels : Nat → UInt32} {color : UInt32} {row k : Nat}
    (addressed : Addressed fb stores)
    (uniform : ∀ store ∈ stores, store.color = color)
    (hit : ∃ store ∈ stores, store.row = row ∧ store.col = k) :
    pixelAt fb (applyStores pixels (stores.map PixelStore.word)) row k =
      color := by
  apply applyStores_uniform
  · intro word member _
    obtain ⟨store, inStores, rfl⟩ := List.mem_map.mp member
    exact uniform store inStores
  · obtain ⟨store, inStores, sameRow, sameCol⟩ := hit
    refine ⟨store.word, List.mem_map_of_mem inStores, ?_⟩
    rw [PixelStore.word, (addressed store inStores).1, sameRow, sameCol]

theorem pixelAt_missed {fb : Framebuffer} {stores : List PixelStore}
    {pixels : Nat → UInt32} {row k : Nat} (addressed : Addressed fb stores)
    (missed : ∀ store ∈ stores, ¬ (store.row = row ∧ store.col = k))
    (inRow : k < fb.stride) :
    pixelAt fb (applyStores pixels (stores.map PixelStore.word)) row k =
      pixelAt fb pixels row k := by
  apply applyStores_untouched
  intro word member same
  obtain ⟨store, inStores, rfl⟩ := List.mem_map.mp member
  obtain ⟨index, storeInRow⟩ := addressed store inStores
  rw [PixelStore.word, index, rowMajor_inj storeInRow inRow] at same
  exact missed store inStores same

/-! ## One cell -/

section Cell

variable {fb : Framebuffer} {font : Font} {y col : Nat}

theorem pixelStore_index (layout : CellLayout fb font) {row k : Nat}
    (color : UInt32) (below : row < fb.height) (left : k < fb.width) :
    (pixelStore fb row k color).index = rowMajor fb.stride row k := by
  have inRow : k < fb.stride := lt_of_lt_of_le left layout.stride
  exact Nat.mod_eq_of_lt
    (lt_of_lt_of_le (rowMajor_lt below inRow) layout.words)

theorem mem_glyphStores (layout : CellLayout fb font) (c : UInt8)
    (color : UInt32) (small : 8 * col + 8 < 2 ^ 32) (low : y + 16 < 2 ^ 32)
    (store : PixelStore) :
    store ∈ putCharStores fb font c (8 * col) y color ↔
      ∃ dy < 16, ∃ dx < 8, Lit font c dy dx ∧
        store = pixelStore fb (y + dy) (8 * col + dx) color := by
  rw [mem_putCharStores, layout.font]
  have row : ∀ dy < 16, u32 ((y : Int) + (dy : Nat)) = y + dy := by
    intro dy bound
    rw [u32_of_bounds (by omega) (by omega)]
    omega
  have column : ∀ dx < 8, u32 (8 * (col : Int) + (dx : Nat)) = 8 * col + dx := by
    intro dx bound
    rw [u32_of_bounds (by omega) (by omega)]
    omega
  constructor
  · rintro ⟨dy, dyBound, dx, dxBound, lit, rfl⟩
    refine ⟨dy, dyBound, dx, dxBound, lit, ?_⟩
    rw [row dy dyBound, column dx dxBound]
  · rintro ⟨dy, dyBound, dx, dxBound, lit, rfl⟩
    refine ⟨dy, dyBound, dx, dxBound, lit, ?_⟩
    rw [row dy dyBound, column dx dxBound]

theorem mem_eraseStores (small : 8 * col + 8 < 2 ^ 31)
    (low : y + 16 < 2 ^ 31) (store : PixelStore) :
    store ∈ backspaceStores fb col y ↔
      ∃ dy < 16, ∃ dx < 8, y + dy < fb.height ∧ 8 * col + dx < fb.width ∧
        store = pixelStore fb (y + dy) (8 * col + dx) 0x000000 := by
  rw [mem_backspaceStores]
  have row : ∀ dy < 16, u64 (i32 ((y : Int) + (dy : Nat))) = y + dy := by
    intro dy bound
    rw [i32_of_bounds (by omega) (by omega), u64_of_bounds (by omega) (by omega)]
    omega
  have column : ∀ dx < 8,
      u64 (i32 (i32 ((col : Int) * 8) + (dx : Nat))) = 8 * col + dx := by
    intro dx bound
    have scaled : i32 ((col : Int) * 8) = col * 8 :=
      i32_of_bounds (by omega) (by omega)
    rw [scaled, i32_of_bounds (by omega) (by omega),
      u64_of_bounds (by omega) (by omega)]
    omega
  constructor
  · rintro ⟨dy, dyBound, dx, dxBound, visible, left, rfl⟩
    rw [row dy dyBound, column dx dxBound] at *
    exact ⟨dy, dyBound, dx, dxBound, visible, left, rfl⟩
  · rintro ⟨dy, dyBound, dx, dxBound, visible, left, rfl⟩
    refine ⟨dy, dyBound, dx, dxBound, ?_⟩
    rw [row dy dyBound, column dx dxBound]
    exact ⟨visible, left, rfl⟩

theorem glyphStores_addressed (layout : CellLayout fb font) (c : UInt8)
    (color : UInt32) (small : 8 * col + 8 < 2 ^ 31)
    (left : col < textCols fb) (visible : y + 16 ≤ fb.height)
    (low : y + 16 < 2 ^ 31) :
    Addressed fb (putCharStores fb font c (8 * col) y color) := by
  have width := layout.width
  have stride := layout.stride
  intro store member
  obtain ⟨dy, dyBound, dx, dxBound, -, rfl⟩ :=
    (mem_glyphStores layout c color (by omega) (by omega) store).mp member
  refine ⟨pixelStore_index layout color (by omega) (by omega), ?_⟩
  simp only [pixelStore]
  omega

theorem putChar_only (layout : CellLayout fb font) (con : Console) (c : UInt8)
    (color : UInt32) (small : 8 * col + 8 < 2 ^ 31)
    (left : col < textCols fb) (visible : y + 16 ≤ fb.height)
    (low : y + 16 < 2 ^ 31) :
    OnlyCell fb con.pixels (putChar fb font con c (8 * col) y color).pixels y
      col := by
  intro row k inRow outside
  refine pixelAt_missed
    (glyphStores_addressed layout c color small left visible low) ?_ inRow
  intro store member
  obtain ⟨dy, dyBound, dx, dxBound, -, rfl⟩ :=
    (mem_glyphStores layout c color (by omega) (by omega) store).mp member
  simp only [pixelStore]
  omega

/-- A glyph on a blank cell shows there, as its unlit pixels stay black. -/
theorem putChar_shows (layout : CellLayout fb font) (con : Console) (c : UInt8)
    (color : UInt32) (small : 8 * col + 8 < 2 ^ 31)
    (left : col < textCols fb) (visible : y + 16 ≤ fb.height)
    (low : y + 16 < 2 ^ 31) (blank : CellShows fb font con.pixels y col none) :
    CellShows fb font (putChar fb font con c (8 * col) y color).pixels y col
      (some (c, color)) := by
  have width := layout.width
  have stride := layout.stride
  have addressed := glyphStores_addressed layout c color small left visible low
  have mem : ∀ store, store ∈ putCharStores fb font c (8 * col) y color ↔ _ :=
    mem_glyphStores layout c color (by omega) (by omega)
  intro dy dyBound dx dxBound
  by_cases lit : Lit font c dy dx
  · rw [cellPixel, if_pos lit]
    apply pixelAt_hit addressed
    · intro store member
      obtain ⟨_, _, _, _, -, rfl⟩ := (mem store).mp member
      rfl
    · exact ⟨_, (mem _).mpr ⟨dy, dyBound, dx, dxBound, lit, rfl⟩, rfl, rfl⟩
  · rw [cellPixel, if_neg lit]
    calc pixelAt fb (putChar fb font con c (8 * col) y color).pixels (y + dy)
            (8 * col + dx)
        = pixelAt fb con.pixels (y + dy) (8 * col + dx) := by
          refine pixelAt_missed addressed ?_ (by omega)
          intro store member
          obtain ⟨otherY, _, otherX, _, otherLit, rfl⟩ := (mem store).mp member
          simp only [pixelStore]
          rintro ⟨sameRow, sameCol⟩
          obtain rfl : otherY = dy := by omega
          obtain rfl : otherX = dx := by omega
          exact lit otherLit
      _ = 0x000000 := blank dy dyBound dx dxBound

theorem eraseBefore_cell (layout : CellLayout fb font) (con : Console)
    (cursorX : con.cursorX = col + 1) (cursorY : con.cursorY = y)
    (small : 8 * col + 8 < 2 ^ 31) (left : col < textCols fb)
    (low : y + 16 < 2 ^ 31) :
    OnlyCell fb con.pixels (eraseBefore fb con).pixels y col ∧
      (y + 16 ≤ fb.height →
        CellShows fb font (eraseBefore fb con).pixels y col none) := by
  have width := layout.width
  have stride := layout.stride
  have mem : ∀ store, store ∈ backspaceStores fb col y ↔ _ :=
    mem_eraseStores small low
  have back : con.cursorX - 1 = col := by omega
  have addressed : Addressed fb (backspaceStores fb col y) := by
    intro store member
    obtain ⟨dy, dyBound, dx, dxBound, visible, inRow, rfl⟩ := (mem store).mp member
    refine ⟨pixelStore_index layout _ visible inRow, ?_⟩
    simp only [pixelStore]
    omega
  rw [eraseBefore, back, cursorY]
  constructor
  · intro row k inRow outside
    refine pixelAt_missed addressed ?_ inRow
    intro store member
    obtain ⟨dy, dyBound, dx, dxBound, -, -, rfl⟩ := (mem store).mp member
    simp only [pixelStore]
    omega
  · intro visible dy dyBound dx dxBound
    apply pixelAt_hit addressed
    · intro store member
      obtain ⟨_, _, _, _, -, -, rfl⟩ := (mem store).mp member
      rfl
    · exact ⟨_, (mem _).mpr ⟨dy, dyBound, dx, dxBound, by omega, by omega, rfl⟩,
        rfl, rfl⟩

theorem CellShows.frame (layout : CellLayout fb font)
    {before after : Nat → UInt32} {otherY otherCol : Nat}
    {cell : Option (UInt8 × UInt32)}
    (holds : CellShows fb font before otherY otherCol cell)
    (only : OnlyCell fb before after y col) (left : otherCol < textCols fb)
    (apart : otherY + 16 ≤ y ∨ y + 16 ≤ otherY ∨ otherCol ≠ col) :
    CellShows fb font after otherY otherCol cell := by
  have width := layout.width
  have stride := layout.stride
  intro dy dyBound dx dxBound
  rw [← holds dy dyBound dx dxBound]
  exact only _ _ (by omega) (by omega)

end Cell

/-! ## Console and grid -/

section Grid

variable {fb : Framebuffer} {font : Font} {top : Nat}
  {region : Nat → Nat → Prop} {base : Nat → UInt32} {con : Console}
  {grid : Grid (UInt8 × UInt32)}

/-- The console stands where the grid does, the tracked cells show what the
grid holds, and outside the text rows the screen is as it was. -/
structure Refines (fb : Framebuffer) (font : Font) (top : Nat)
    (region : Nat → Nat → Prop) (base : Nat → UInt32) (con : Console)
    (grid : Grid (UInt8 × UInt32)) : Prop where
  cursorX : con.cursorX = grid.col
  cursorY : con.cursorY = (top + 16 * grid.row : Nat)
  ok : GridOk (textRows fb top) (textCols fb) grid
  cells : ∀ row < textRows fb top, ∀ col < textCols fb, region row col →
    CellShows fb font con.pixels (top + 16 * row) col (grid.cells row col)
  frame : ∀ row < fb.height, ∀ k < fb.stride,
    row < top ∨ top + 16 * textRows fb top ≤ row →
      pixelAt fb con.pixels row k = pixelAt fb base row k

theorem row_visible {row : Nat} :
    row < textRows fb top ↔ top + 16 * row + 16 ≤ fb.height := by
  unfold textRows
  omega

theorem Refines.newline (rel : Refines fb font top region base con grid)
    (range : InRange con) :
    Refines fb font top region base (lineAdvance con) grid.newline := by
  have cursorY := rel.cursorY
  rw [lineAdvance_eq range]
  refine ⟨rfl, ?_, rel.ok.newline, rel.cells, rel.frame⟩
  simp only [Grid.newline]
  omega

theorem Refines.wrap (layout : CellLayout fb font)
    (rel : Refines fb font top region base con grid) (range : InRange con) :
    Refines fb font top region base (wrapLine fb con) (grid.wrap (textCols fb)) := by
  have width := layout.width
  have cursorX := rel.cursorX
  unfold Grid.wrap
  split
  · rw [wrapLine_of_full range (by omega), ← lineAdvance_eq range]
    exact rel.newline range
  · rw [wrapLine_of_room range (by omega)]
    exact rel

theorem Refines.write (layout : CellLayout fb font)
    (rel : Refines fb font top region base con grid)
    (small : 8 * con.cursorX + 8 < 2 ^ 31) (low : con.cursorY + 16 < 2 ^ 31)
    (room : grid.col < textCols fb) (visible : grid.row < textRows fb top)
    (c : UInt8) (color : UInt32) :
    Refines fb font top region base (drawNext fb font con c color)
      (grid.write (c, color)) := by
  have cursorX := rel.cursorX
  have cursorY := rel.cursorY
  have only := putChar_only layout con c color (by omega) room
    (row_visible.mp visible) (by omega)
  have drawn := putChar_shows layout con c color (by omega) room
    (row_visible.mp visible) (by omega)
  rw [← cursorX, ← cursorY] at only drawn
  refine ⟨?_, cursorY, rel.ok.write _ room visible, ?_, ?_⟩
  · simp only [drawNext, Grid.write]
    omega
  · intro row rowBound col colBound tracked
    have before := rel.cells row rowBound col colBound tracked
    by_cases here : row = grid.row ∧ col = grid.col
    · obtain ⟨rfl, rfl⟩ := here
      rw [rel.ok.ahead _ _ (Or.inr ⟨rfl, le_refl _⟩)] at before
      simp only [Grid.write, setCell_self]
      exact drawn before
    · simp only [Grid.write]
      rw [setCell_other _ _ here]
      exact before.frame layout only colBound (by omega)
  · intro row rowBound k inRow outside
    rw [← rel.frame row rowBound k inRow outside]
    exact only row k inRow (by omega)

theorem Refines.print (layout : CellLayout fb font)
    (rel : Refines fb font top region base con grid) (range : InRange con)
    {c : UInt8} (noBackspace : c ≠ 0x08) (noNewline : c ≠ 0x0A)
    (color : UInt32) :
    Refines fb font top region base (kprintChar fb font con c color)
      (grid.put (textRows fb top) (textCols fb) (c, color)) := by
  have wrapped := rel.wrap layout range
  have cursorY := wrapped.cursorY
  obtain ⟨-, small, -, low⟩ := wrapLine_bounds fb range
  simp only [Grid.put]
  split
  · rename_i visible
    have shown := row_visible.mp visible
    rw [kprintChar_visible color range noBackspace noNewline (by omega)]
    exact wrapped.write layout small low (wrap_col_lt layout.cols) visible c color
  · rename_i clipped
    rw [row_visible] at clipped
    rw [kprintChar_clipped color range noBackspace noNewline (by omega)]
    exact wrapped

theorem Refines.backspace (layout : CellLayout fb font)
    (rel : Refines fb font top region base con grid) (range : InRange con) :
    Refines fb font top region base (backspace fb con) grid.erase := by
  have cursorX := rel.cursorX
  have cursorY := rel.cursorY
  have bound := rel.ok.col
  obtain ⟨-, xHigh, -, yHigh⟩ := range
  by_cases inside : 0 < grid.col
  · have column : con.cursorX = (grid.col - 1 : Nat) + 1 := by omega
    obtain ⟨only, erased⟩ := eraseBefore_cell layout con column cursorY
      (by omega) (by omega) (by omega)
    rw [backspace_inside ⟨by omega, xHigh, by omega, yHigh⟩ (by omega)]
    have steps : grid.erase =
        ⟨setCell grid.cells grid.row (grid.col - 1) none, grid.row,
          grid.col - 1⟩ := by
      rw [Grid.erase, if_pos inside]
    have ok := rel.ok.erase
    rw [steps] at ok ⊢
    refine ⟨?_, cursorY, ok, ?_, ?_⟩
    · simp only [eraseBefore, Console.write]
      omega
    · intro row rowBound col colBound tracked
      have before := rel.cells row rowBound col colBound tracked
      by_cases here : row = grid.row ∧ col = grid.col - 1
      · obtain ⟨rfl, rfl⟩ := here
        simp only [setCell_self]
        exact erased (row_visible.mp rowBound)
      · simp only
        rw [setCell_other _ _ here]
        exact before.frame layout only colBound (by omega)
    · intro row rowBound k inRow outside
      rw [← rel.frame row rowBound k inRow outside]
      have visible : grid.row < textRows fb top := by
        by_contra clipped
        have margin := rel.ok.clipped (by omega)
        omega
      exact only row k inRow (by omega)
  · rw [backspace_at_start (by omega), erase_at_margin (by omega)]
    exact rel

end Grid

end Lumie.ScreenCells
