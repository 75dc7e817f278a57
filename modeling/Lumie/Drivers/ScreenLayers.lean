import Lumie.Base.Layers
import Lumie.Drivers.ScreenAt
import Lumie.Drivers.ScreenCells
import Lumie.Drivers.ScreenRect

/-!
# Drawing as painting in layers

On a screen without padding `clear`, `draw_rect` and `kprint_at` each paint a
layer over the visible pixels: all of them, a rectangle, and a line of whole
cells.
-/

set_option autoImplicit false

namespace Lumie.ScreenLayers

open MachineInt StoreTrace Layers
open Lumie.Strings Lumie.Screen Lumie.ScreenCells Lumie.ScreenAt

structure Pixel (fb : Framebuffer) where
  row : Nat
  col : Nat
  below : row < fb.height
  inRow : col < fb.width

def picture (fb : Framebuffer) (con : Console) (pixel : Pixel fb) : UInt32 :=
  pixelAt fb con.pixels pixel.row pixel.col

/-- Rows without padding that lie in the address space, and a font of height
16. -/
structure Dense (fb : Framebuffer) (font : Font) : Prop where
  pitch : fb.pitch = 4 * fb.width
  pitchHigh : fb.pitch < 2 ^ 64
  bytes : fb.height * fb.pitch ≤ 2 ^ 64
  font : charsize font = 16

section Shapes

variable {fb : Framebuffer} {font : Font}

theorem Dense.stride (dense : Dense fb font) : fb.stride = fb.width := by
  have pitch := dense.pitch
  unfold Framebuffer.stride
  omega

theorem Dense.textMapped (dense : Dense fb font) : ScreenAt.Mapped fb font :=
  ⟨Nat.le_of_eq dense.pitch.symm, dense.pitchHigh, dense.bytes, dense.font⟩

theorem Dense.rectMapped (dense : Dense fb font) : ScreenRect.Mapped fb :=
  ⟨⟨fb.width, dense.pitch⟩, Nat.le_of_eq dense.pitch.symm, dense.bytes⟩

theorem Dense.area (dense : Dense fb font) : fb.width * fb.height < 2 ^ 64 := by
  have pitch := dense.pitch
  have bytes := dense.bytes
  have quadruple : fb.height * fb.pitch = 4 * (fb.width * fb.height) := by
    rw [pitch]
    ring
  omega

theorem Dense.pixel_word (dense : Dense fb font) {pixel other : Pixel fb}
    (same : rowMajor fb.stride pixel.row pixel.col =
      rowMajor fb.stride other.row other.col) :
    pixel.row = other.row ∧ pixel.col = other.col := by
  have stride := dense.stride
  have inRow := pixel.inRow
  have otherInRow := other.inRow
  exact (rowMajor_inj (by omega) (by omega)).mp same

end Shapes

/-! ## The layers -/

def fillLayer (fb : Framebuffer) (color : UInt32) : Layer (Pixel fb) UInt32 :=
  fun _ => some color

def rectLayer (fb : Framebuffer) (x y width height : Int) (color : UInt32) :
    Layer (Pixel fb) UInt32 := fun pixel =>
  if ScreenRect.InRect x y width height pixel.row pixel.col then some color
  else none

def InLine (fb : Framebuffer) (x y : Nat) (pixel : Pixel fb) : Prop :=
  pixel.row / 16 = y ∧ x ≤ pixel.col / 8 ∧
    8 * (pixel.col / 8) + 8 ≤ fb.width ∧ 16 * y + 16 ≤ fb.height

instance (fb : Framebuffer) (x y : Nat) (pixel : Pixel fb) :
    Decidable (InLine fb x y pixel) :=
  inferInstanceAs (Decidable (_ ∧ _ ∧ _ ∧ _))

/-- Cells side by side from column `x` of text row `y` on. -/
def lineLayer (fb : Framebuffer) (font : Font)
    (cells : List (Option (UInt8 × UInt32))) (x y : Nat) :
    Layer (Pixel fb) UInt32 := fun pixel =>
  if InLine fb x y pixel then
    (cells[pixel.col / 8 - x]?).map fun cell =>
      cellPixel font cell (pixel.row % 16) (pixel.col % 8)
  else none

def inked (text : List UInt8) (color : UInt32) : List (Option (UInt8 × UInt32)) :=
  text.map fun c => some (c, color)

section Layers

variable {fb : Framebuffer} {font : Font}

theorem lineLayer_append (front back : List (Option (UInt8 × UInt32)))
    (x y : Nat) :
    stacked (lineLayer fb font back (x + front.length) y)
        (lineLayer fb font front x y) =
      lineLayer fb font (front ++ back) x y := by
  funext pixel
  unfold stacked lineLayer
  by_cases inFront : InLine fb x y pixel
  · rw [if_pos inFront, if_pos inFront]
    by_cases behind : front.length ≤ pixel.col / 8 - x
    · obtain ⟨sameRow, left, right, bottom⟩ := inFront
      have inBack : InLine fb (x + front.length) y pixel :=
        ⟨sameRow, by omega, right, bottom⟩
      have place : pixel.col / 8 - (x + front.length) =
          pixel.col / 8 - x - front.length := by omega
      rw [if_pos inBack, place, List.getElem?_append_right behind,
        List.getElem?_eq_none behind, Option.map_none, Option.or_none]
    · have outside : ¬ InLine fb (x + front.length) y pixel := by
        rintro ⟨-, left, -, -⟩
        omega
      rw [if_neg outside, Option.none_or,
        List.getElem?_append_left (by omega)]
  · have outside : ¬ InLine fb (x + front.length) y pixel := by
      rintro ⟨sameRow, left, right, bottom⟩
      exact inFront ⟨sameRow, by omega, right, bottom⟩
    rw [if_neg inFront, if_neg inFront, if_neg outside, Option.none_or]

theorem lineLayer_hides {cells others : List (Option (UInt8 × UInt32))}
    (length : others.length ≤ cells.length) (x y : Nat) :
    Hides (lineLayer fb font cells x y) (lineLayer fb font others x y) := by
  intro pixel bare
  unfold lineLayer at bare ⊢
  by_cases inLine : InLine fb x y pixel
  · rw [if_pos inLine, Option.map_eq_none_iff, List.getElem?_eq_none_iff] at bare
    rw [if_pos inLine, List.getElem?_eq_none (by omega), Option.map_none]
  · rw [if_neg inLine]

end Layers

/-! ## The drawing functions -/

section Drawing

variable {fb : Framebuffer} {font : Font}

theorem clear_paints (dense : Dense fb font) (con : Console) (color : UInt32) :
    picture fb (clear fb con color) = paint (fillLayer fb color)
      (picture fb con) := by
  funext pixel
  have area := dense.area
  have inLoop : rowMajor fb.stride pixel.row pixel.col <
      fb.width * fb.height := by
    rw [dense.stride, Nat.mul_comm]
    exact rowMajor_lt pixel.below pixel.inRow
  change (clear fb con color).pixels _ = color
  rw [clear_pixels, clearedWords, u64_natCast area, if_pos inLoop]

theorem rectStores_paint (dense : Dense fb font) (con : Console)
    {x y width height : Int} (range : ScreenRect.InRange x y width height)
    (color : UInt32) :
    picture fb (ScreenRect.drawRect fb con x y width height color) =
      paint (rectLayer fb x y width height color) (picture fb con) := by
  have mapped := dense.rectMapped
  funext pixel
  by_cases inRect : ScreenRect.InRect x y width height pixel.row pixel.col
  · rw [paint, rectLayer, if_pos inRect, Option.getD_some]
    apply applyStores_uniform
    · intro word member _
      obtain ⟨store, inStores, rfl⟩ := List.mem_map.mp member
      obtain ⟨row, -, col, -, -, rfl⟩ :=
        (ScreenRect.mem_drawRectStores range).mp inStores
      rfl
    · exact ⟨_, List.mem_map_of_mem ((ScreenRect.mem_drawRectStores range).mpr
        ⟨_, pixel.below, _, pixel.inRow, inRect, rfl⟩),
        mapped.index pixel.below pixel.inRow color⟩
  · rw [paint, rectLayer, if_neg inRect, Option.getD_none]
    apply applyStores_untouched
    intro word member same
    obtain ⟨store, inStores, rfl⟩ := List.mem_map.mp member
    obtain ⟨row, below, col, inRow, otherInRect, rfl⟩ :=
      (ScreenRect.mem_drawRectStores range).mp inStores
    have index := mapped.index below inRow color
    obtain ⟨rfl, rfl⟩ := @Dense.pixel_word fb font dense ⟨row, col, below, inRow⟩
      pixel (index.symm.trans same)
    exact inRect otherInRect

theorem inRange_of_small {str : CString} {x y : Nat}
    (columns : x + str.bytes.length < 2 ^ 27) (rows : y < 2 ^ 26) :
    ScreenAt.InRange str x y := by
  refine ⟨?_, ?_, by omega, by omega⟩
  · intro i bound
    omega
  · intro i bound
    omega

theorem cells_painted (dense : Dense fb font) {str : CString} {x y : Nat}
    (inRange : ScreenAt.InRange str x y) (fg : UInt32) :
    PaintsCells fb font str fg 0x000000 x y (fun _ => True) := by
  rw [paintsCells_iff dense.textMapped inRange]
  rintro i - (⟨left, -⟩ | ⟨above, -⟩)
  · omega
  · omega

theorem cellWord_eq (x i y dy dx : Nat) :
    cellWord fb (x + i) y dy dx =
      rowMajor fb.stride (16 * y + dy) (8 * (x + i) + dx) := by
  have row : (16 * (y : Int) + dy).toNat = 16 * y + dy := by omega
  have col : (8 * ((x : Int) + i) + dx).toNat = 8 * (x + i) + dx := by omega
  rw [cellWord, row, col]

theorem inCells_iff (dense : Dense fb font) {str : CString} {x y : Nat}
    (pixel : Pixel fb) :
    InCells fb str x y (rowMajor fb.stride pixel.row pixel.col) ↔
      InLine fb x y pixel ∧ pixel.col / 8 - x < str.bytes.length := by
  have stride := dense.stride
  have inRow := pixel.inRow
  constructor
  · rintro ⟨i, bound, ⟨-, right, -, bottom⟩, dy, dyBound, dx, dxBound, same⟩
    rw [cellWord_eq] at same
    obtain ⟨row, col⟩ := (rowMajor_inj (by omega) (by omega)).mp same
    exact ⟨⟨by omega, by omega, by omega, by omega⟩, by omega⟩
  · rintro ⟨⟨row, left, right, bottom⟩, bound⟩
    refine ⟨pixel.col / 8 - x, bound, ⟨by omega, by omega, by omega, by omega⟩,
      pixel.row % 16, by omega, pixel.col % 8, by omega, ?_⟩
    have sameRow : 16 * y + pixel.row % 16 = pixel.row := by omega
    have sameCol : 8 * (x + (pixel.col / 8 - x)) + pixel.col % 8 = pixel.col := by
      omega
    rw [cellWord_eq, sameRow, sameCol]

theorem kprintAt_paints (dense : Dense fb font) (con : Console) (str : CString)
    (x y : Nat) (columns : x + str.bytes.length < 2 ^ 27) (rows : y < 2 ^ 26)
    (fg : UInt32) :
    picture fb (kprintAt fb font con str fg 0x000000 x y) =
      paint (lineLayer fb font (inked str.bytes fg) x y) (picture fb con) := by
  obtain ⟨inside, outside⟩ :=
    cells_painted dense (inRange_of_small columns rows) fg con
  funext pixel
  by_cases drawn : InLine fb x y pixel ∧ pixel.col / 8 - x < str.bytes.length
  · obtain ⟨inLine, bound⟩ := drawn
    obtain ⟨row, left, right, bottom⟩ := id inLine
    have shown := inside (pixel.col / 8 - x) _ (List.getElem?_eq_getElem bound)
      ⟨by omega, by omega, by omega, by omega⟩ (pixel.row % 16) (by omega)
      (pixel.col % 8) (by omega)
    have sameRow : 16 * y + pixel.row % 16 = pixel.row := by omega
    have sameCol : 8 * (x + (pixel.col / 8 - x)) + pixel.col % 8 = pixel.col := by
      omega
    rw [cellWord_eq, sameRow, sameCol] at shown
    rw [paint, lineLayer, if_pos inLine, inked, List.getElem?_map,
      List.getElem?_eq_getElem bound]
    exact shown
  · have kept := outside (rowMajor fb.stride pixel.row pixel.col) trivial
      (fun cells => drawn ((inCells_iff dense pixel).mp cells))
    have bare : lineLayer fb font (inked str.bytes fg) x y pixel = none := by
      unfold lineLayer
      split
      · rename_i inLine
        have short : str.bytes.length ≤ pixel.col / 8 - x :=
          Nat.le_of_not_lt fun bound => drawn ⟨inLine, bound⟩
        rw [inked, List.getElem?_map, List.getElem?_eq_none short]
        rfl
      · rfl
    rw [paint, bare]
    exact kept

end Drawing

end Lumie.ScreenLayers
